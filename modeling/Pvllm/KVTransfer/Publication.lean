import Pvllm.KVTransfer.SimConnector

/-!
What a request leaves in the store.

As a request finishes its connector writes the keys of its first blocks, as many as
its count fills and its hashes go. What the store then holds was there, or is one of
them; a bounded store may drop some, old or new.
-/

namespace Pvllm

variable {H : Type} [DecidableEq H]

namespace SimKVStore

theorem mem_foldl_write {key : StoreKey H} {keys resident : List (StoreKey H)}
    (h : key ∈ keys.foldl (fun resident key => resident.erase key ++ [key]) resident) :
    key ∈ resident ∨ key ∈ keys := by
  induction keys generalizing resident with
  | nil => exact Or.inl h
  | cons first keys ih =>
      rcases ih h with hold | hnew
      · rcases List.mem_append.mp hold with herased | hself
        · exact Or.inl (List.mem_of_mem_erase herased)
        · exact Or.inr (List.mem_cons.mpr (Or.inl (List.mem_singleton.mp hself)))
      · exact Or.inr (List.mem_cons_of_mem _ hnew)

theorem mem_write {store : SimKVStore H} {keys : List (StoreKey H)} {key : StoreKey H}
    (h : key ∈ (store.write keys).resident) : key ∈ store.resident ∨ key ∈ keys := by
  unfold write at h
  dsimp only at h
  split at h
  · exact mem_foldl_write h
  · exact mem_foldl_write (List.mem_of_mem_drop h)

end SimKVStore

namespace SimSharedStoreConnector

variable (connector : SimSharedStoreConnector H) (request : Request H)

omit [DecidableEq H] in
def writtenBlocks : ℕ :=
  if connector.maySave = false ∨ connector.blockBytes = 0 then 0
  else min (request.numComputedTokens / connector.blockSize) request.blockHashes.length

omit [DecidableEq H] in
def keyOf (i : ℕ) : Option (StoreKey H) :=
  request.blockHashes[i]?.map fun blockHash => (connector.keySpace, blockHash)

variable {connector request}

/-- As a request finishes the store takes in nothing but keys of its first blocks. -/
theorem mem_requestFinished {key : StoreKey H}
    (h : key ∈ (connector.requestFinished request).store.resident) :
    key ∈ connector.store.resident ∨
      ∃ i < connector.writtenBlocks request, connector.keyOf request i = some key := by
  unfold requestFinished at h
  split at h
  · exact Or.inl h
  rename_i hsaves
  rw [not_or, not_or] at hsaves
  dsimp only at h
  split at h
  · exact Or.inl h
  refine (SimKVStore.mem_write h).imp_right fun hkey => ?_
  obtain ⟨blockHash, hmem, rfl⟩ := List.mem_map.mp hkey
  obtain ⟨i, hi⟩ := List.getElem?_of_mem hmem
  rw [List.getElem?_take] at hi
  split at hi
  · rename_i hlt
    refine ⟨i, ?_, ?_⟩
    · unfold writtenBlocks
      rwa [if_neg (not_or.mpr ⟨hsaves.1, hsaves.2.2⟩)]
    · unfold keyOf
      rw [hi, Option.map_some]
  · cases hi

omit [DecidableEq H] in
/-- What is written of a request depends on the setup, its count and its hashes. -/
theorem writtenBlocks_congr {connector' : SimSharedStoreConnector H} {request' : Request H}
    (hsetup : connector'.setup = connector.setup)
    (hcomputed : request'.numComputedTokens = request.numComputedTokens)
    (hhashes : request'.blockHashes = request.blockHashes) :
    connector'.writtenBlocks request' = connector.writtenBlocks request ∧
      ∀ i, connector'.keyOf request' i = connector.keyOf request i := by
  simp only [setup, Prod.mk.injEq] at hsetup
  obtain ⟨hsize, hspace, -, hsave, hbytes⟩ := hsetup
  refine ⟨?_, fun i => ?_⟩
  · unfold writtenBlocks
    rw [hsize, hsave, hbytes, hcomputed, hhashes]
  · unfold keyOf
    rw [hspace, hhashes]

omit [DecidableEq H] in
theorem lt_writtenBlocks {i : ℕ} :
    i < connector.writtenBlocks request ↔ connector.maySave = true ∧ connector.blockBytes ≠ 0 ∧
      i < request.numComputedTokens / connector.blockSize ∧ i < request.blockHashes.length := by
  unfold writtenBlocks
  split
  · rename_i hnever
    rcases hnever with hsave | hbytes
    · simp [hsave]
    · simp [hbytes]
  · rename_i hsaves
    rw [not_or, Bool.not_eq_false] at hsaves
    rw [lt_min_iff]
    exact ⟨fun h => ⟨hsaves.1, hsaves.2, h⟩, fun h => h.2.2⟩

end SimSharedStoreConnector

end Pvllm
