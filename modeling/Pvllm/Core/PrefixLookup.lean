import Pvllm.Core.Accounting

/-!
The cached prefix a request is given.

The coordinator's answer, stated for a configured manager and a request whose
blocks are hashed: the greatest whole number of blocks, short of the last token,
that every group can serve, and a hit of that length for each group.
-/

namespace Pvllm

variable {H : Type} [DecidableEq H]

namespace KVCacheManager

/-- The greatest length every group can serve within the cap is found, and for
each group a list with an entry for each block of it. -/
theorem findLongestCacheHit_greatest {m : KVCacheManager H} (hconf : m.Configured)
    (hnull : NullFree m.blockPool)
    (hwindow : ∀ spec ∈ m.kvCacheConfig.kvCacheGroups, ∀ window,
      spec.kind = .slidingWindow window → 2 ≤ window)
    {request : Request H}
    (hhashes : request.numTokens / m.kvCacheConfig.blockSize ≤ request.blockHashes.length) :
    ∃ perGroup l,
      KVCacheCoordinator.findLongestCacheHit m.blockPool m.singleTypeManagers
        m.kvCacheConfig.blockSize request.blockHashes (request.numTokens - 1) =
          .ok (perGroup, l) ∧
      IsGreatest {l | m.kvCacheConfig.blockSize ∣ l ∧ l ≤ request.numTokens - 1 ∧
        KVCacheCoordinator.AllServe m.blockPool request.blockHashes m.groups l} l ∧
      List.Forall₂ (fun manager blocks => IsHit m.blockPool manager.kvCacheGroupId
        request.blockHashes manager.kvCacheSpec (l / m.kvCacheConfig.blockSize) blocks)
        m.singleTypeManagers perGroup := by
  have hsearch : ∀ manager ∈ m.singleTypeManagers,
      KVCacheCoordinator.Searchable m.blockPool request.blockHashes m.kvCacheConfig.blockSize
        (request.numTokens - 1) manager.kvCacheSpec := fun manager hm =>
    ⟨hconf.blockSize_eq hm, hconf.reserved_of_mem hm, hwindow _ (hconf.spec_mem hm),
      (Nat.div_le_div_right (Nat.sub_le _ 1)).trans hhashes⟩
  obtain ⟨perGroup, l, hok, hgreatest, hhits⟩ :=
    KVCacheCoordinator.findLongestCacheHit_spec hnull hconf.managers_ne_nil hsearch
  refine ⟨perGroup, l, hok, ?_, hhits⟩
  obtain ⟨⟨hserve, hle⟩, hmax⟩ := hgreatest
  refine ⟨⟨?_, hle, hserve⟩, fun l' hl' => hmax ⟨hl'.2.2, hl'.2.1⟩⟩
  -- Every group has the block size, and there is a group.
  obtain ⟨manager, hm⟩ := List.exists_mem_of_ne_nil _ hconf.managers_ne_nil
  rw [← hconf.blockSize_eq hm]
  exact (hserve _ (List.mem_map_of_mem
    (f := fun group : SingleTypeKVCacheManager => (group.kvCacheGroupId, group.kvCacheSpec))
    hm)).1

/-- A request over tokens another left in the cache of a hybrid manager. -/
def hybridLookup : Except PyError (KVCacheManager Digest × Request Digest) := do
  let m ← init hybridConfig 100 true false Digest.hash 0
  let hasher ← m.blockHasher.elim (.error .outOfFuel) .ok
  let first ← Request.init (.text 1 [1, 2, 3, 4, 5] 8)
  let (_, m) ← m.allocateSlots (first.attachBlockHasher hasher) 5 0 none 0 false
  let m ← m.free 1
  let second ← Request.init (.text 2 [1, 2, 3, 4, 9] 8)
  return (m, second.attachBlockHasher hasher)

/-- The search, where two blocks of each group are cached. -/
theorem findLongestCacheHit_hybrid : ∃ (m : KVCacheManager Digest) (request : Request Digest),
    hybridLookup = .ok (m, request) ∧ ∃ perGroup,
      KVCacheCoordinator.findLongestCacheHit m.blockPool m.singleTypeManagers
        m.kvCacheConfig.blockSize request.blockHashes (request.numTokens - 1) =
          .ok (perGroup, 4) ∧
      IsGreatest {l | m.kvCacheConfig.blockSize ∣ l ∧ l ≤ request.numTokens - 1 ∧
        KVCacheCoordinator.AllServe m.blockPool request.blockHashes m.groups l} 4 := by
  obtain ⟨⟨m, request⟩, hrun, hcheck⟩ := exists_of_okAnd (x := hybridLookup)
    (p := fun (m, request) =>
      decide (request.numTokens / m.kvCacheConfig.blockSize ≤ request.blockHashes.length) &&
      okAnd (KVCacheCoordinator.findLongestCacheHit m.blockPool m.singleTypeManagers
        m.kvCacheConfig.blockSize request.blockHashes (request.numTokens - 1)) fun hit =>
          hit.2 = 4) (by decide +kernel)
  rw [Bool.and_eq_true, decide_eq_true_eq] at hcheck
  obtain ⟨hhashes, hfour⟩ := hcheck
  obtain ⟨⟨perGroup, l⟩, hfind, hl⟩ := exists_of_okAnd hfour
  obtain rfl : l = 4 := by simpa using hl
  have hscript := hrun
  unfold hybridLookup at hscript
  obtain ⟨m₀, hinit, hscript⟩ := except_bind_iff.mp hscript
  obtain ⟨hasher, -, hscript⟩ := except_bind_iff.mp hscript
  obtain ⟨first, -, hscript⟩ := except_bind_iff.mp hscript
  obtain ⟨⟨_, m₁⟩, halloc, hscript⟩ := except_bind_iff.mp hscript
  obtain ⟨m₂, hfree, hscript⟩ := except_bind_iff.mp hscript
  obtain ⟨second, -, hscript⟩ := except_bind_iff.mp hscript
  obtain ⟨rfl, rfl⟩ := Prod.mk.inj (Except.ok.inj hscript)
  obtain ⟨hfresh, hconfig, -⟩ := init_inOrder hinit
  obtain ⟨free, hm, hsetup⟩ := run_inOrder
    (.tail (.single (.allocateSlots _ 5 0 0 false halloc)) (.free 1 hfree)) hfresh
  obtain ⟨perGroup', l', hok, hgreatest, -⟩ := findLongestCacheHit_greatest hm.toConfigured
    hm.books.wf.nullFree
    (fun spec hspec window hkind => by
      rw [hsetup.kvCacheConfig, hconfig] at hspec
      simp only [hybridConfig, List.mem_cons, List.not_mem_nil, or_false] at hspec
      obtain rfl | rfl := hspec <;> simp at hkind
      omega)
    hhashes
  rw [hfind, Except.ok.injEq, Prod.mk.injEq] at hok
  obtain ⟨rfl, rfl⟩ := hok
  exact ⟨m₂, _, hrun, perGroup, hfind, hgreatest⟩

end KVCacheManager

end Pvllm
