import Pvllm.KVTransfer.SimConnector
import Mathlib.Data.List.TakeWhile

/-!
What the connector finds in the shared store.

`Finds` is the whole of a lookup: how many blocks beyond the local prefix are
loaded, that the store holds every one of them, and that one block of the prompt is
left when they are in. Asking changes nothing but the counters of the store.
-/

namespace Pvllm

variable {H : Type} [DecidableEq H]

theorem getElem?_of_lt_takeWhile {α : Type*} {p : α → Bool} {l : List α} {i : ℕ}
    (h : i < (l.takeWhile p).length) : ∃ a, l[i]? = some a ∧ p a = true := by
  have hget : (l.takeWhile p)[i]? = some (l.takeWhile p)[i] := List.getElem?_eq_getElem h
  refine ⟨(l.takeWhile p)[i], ?_, List.mem_takeWhile_imp (List.getElem_mem h)⟩
  obtain ⟨rest, hrest⟩ := List.takeWhile_prefix p (l := l)
  rw [← hget]
  conv_lhs => rw [← hrest]
  rw [List.getElem?_append_left h]

namespace SimSharedStoreConnector

/-- The store holds the block of a request at an index. -/
def Holds (connector : SimSharedStoreConnector H) (request : Request H) (i : ℕ) : Prop :=
  ∃ blockHash, request.blockHashes[i]? = some blockHash ∧
    (connector.keySpace, blockHash) ∈ connector.store.resident

/-- What a lookup beyond `numComputedTokens` answers: a number of blocks that the
store holds, and after which the prompt has a full block left. -/
structure Finds (connector : SimSharedStoreConnector H) (request : Request H)
    (numComputedTokens numExternalTokens : ℕ) : Prop where
  dvd : connector.blockSize ∣ numExternalTokens
  held : ∀ i, numComputedTokens / connector.blockSize ≤ i →
    i < numComputedTokens / connector.blockSize + numExternalTokens / connector.blockSize →
      connector.Holds request i
  left : numExternalTokens ≠ 0 → numComputedTokens / connector.blockSize +
    numExternalTokens / connector.blockSize < request.blockHashes.length

variable (connector : SimSharedStoreConnector H) (request : Request H) (n : ℕ)

/-- Asking counts in the store, and changes nothing else. -/
theorem getNumNewMatchedTokens_frame :
    ∃ lookups hits, (connector.getNumNewMatchedTokens request n).2 = { connector with
      store := { connector.store with numLookups := lookups, numHits := hits } } := by
  unfold getNumNewMatchedTokens SimKVStore.longestPrefix
  split
  · exact ⟨_, _, rfl⟩
  · dsimp only
    split
    · exact ⟨_, _, rfl⟩
    · exact ⟨_, _, rfl⟩

theorem getNumNewMatchedTokens_finds (hpos : 0 < connector.blockSize) :
    connector.Finds request n (connector.getNumNewMatchedTokens request n).1 := by
  have hnone : connector.Finds request n 0 :=
    ⟨Nat.dvd_zero _, fun i hi hlt => by rw [Nat.zero_div] at hlt; omega, fun h => absurd rfl h⟩
  unfold getNumNewMatchedTokens SimKVStore.longestPrefix
  split
  · exact hnone
  dsimp only
  split
  · exact hnone
  dsimp only
  set first := n / connector.blockSize with hfirst
  set keys := (request.blockHashes.drop first).map fun blockHash =>
    (connector.keySpace, blockHash) with hkeys
  set matched := (keys.takeWhile fun key => decide (key ∈ connector.store.resident)).length
    with hmatched
  have hheld : ∀ i, first ≤ i → i < first + matched → connector.Holds request i := by
    intro i hle hlt
    obtain ⟨key, hkey, hmem⟩ := getElem?_of_lt_takeWhile
      (l := keys) (p := fun key => decide (key ∈ connector.store.resident)) (i := i - first)
      (by omega)
    rw [hkeys, List.getElem?_map, List.getElem?_drop, Option.map_eq_some_iff,
      Nat.add_sub_cancel' hle] at hkey
    obtain ⟨blockHash, hget, rfl⟩ := hkey
    exact ⟨blockHash, hget, of_decide_eq_true hmem⟩
  have hle : matched ≤ request.blockHashes.length - first := by
    have hprefix := (List.takeWhile_prefix (l := keys)
      fun key => decide (key ∈ connector.store.resident)).length_le
    rw [hkeys, List.length_map, List.length_drop] at hprefix
    exact hprefix
  have hfirst_lt : first < request.blockHashes.length := by
    by_contra hge
    rename_i hne
    exact hne (List.drop_eq_nil_of_le (Nat.not_lt.mp hge))
  have hblocks : ∀ k, k ≤ matched → (k ≠ 0 → first + k < request.blockHashes.length) →
      connector.Finds request n (k * connector.blockSize) := by
    intro k hk hleft
    refine ⟨Nat.dvd_mul_left .., fun i hi hlt => ?_, fun hne => ?_⟩
    · rw [Nat.mul_div_cancel k hpos] at hlt
      exact hheld i hi (by omega)
    · rw [Nat.mul_div_cancel k hpos]
      exact hleft fun hzero => hne (by rw [hzero, Nat.zero_mul])
  split
  · exact hblocks (matched - 1) (Nat.sub_le ..) fun _ => by omega
  · rename_i hshort
    exact hblocks matched (Nat.le_refl _) fun hne => by omega

end SimSharedStoreConnector

end Pvllm
