import Pvllm.Core.Adoption
import Pvllm.Core.Retention
import Pvllm.Core.Sharing
import Mathlib.Data.Finset.Card
import Mathlib.Data.Finset.Filter
import Mathlib.Data.Finset.Range

/-!
What an allocation is charged, and what it takes.

The charge is computed by one function and the blocks are taken by others. Where
the tables reach as far as the groups have shed (`Fitting`), the charge is the
blocks missing and the hits that sit in the free queue; an allocation is then
declined exactly where the queue is shorter than the charge, and never fails.
-/

namespace Pvllm

variable {H : Type} [DecidableEq H]

theorem KVCacheSpec.getNumSkippedTokens_le (spec : KVCacheSpec) (n : ℕ) :
    spec.getNumSkippedTokens n ≤ n := by
  unfold getNumSkippedTokens
  split
  · exact Nat.zero_le n
  · exact Nat.sub_le ..
  · exact Nat.sub_le ..

theorem KVCacheSpec.numSkippedBlocks_le (spec : KVCacheSpec) (n : ℕ) :
    spec.getNumSkippedTokens (n * spec.blockSize) / spec.blockSize ≤ n :=
  Nat.div_le_of_le_mul (by
    rw [Nat.mul_comm spec.blockSize]
    exact spec.getNumSkippedTokens_le _)

/-! ### Room in the queue -/

namespace Accounts

variable {pool : BlockPool H} {free : List BlockId} {held : Multiset BlockId}

/-- What can be given out is free, or held. -/
theorem usable_le (h : Accounts pool free held) :
    pool.numUsableBlocks ≤
      free.length + (held.filter fun b => (pool.blocks b).isNull = false).card := by
  set used := held.filter fun b => (pool.blocks b).isNull = false with hused
  have hcover : (Finset.range pool.numGpuBlocks).filter (fun b => (pool.blocks b).isNull = false) ⊆
      free.toFinset ∪ used.toFinset := by
    intro b hb
    obtain ⟨hlt, hnn⟩ := Finset.mem_filter.mp hb
    rw [Finset.mem_union, List.mem_toFinset, Multiset.mem_toFinset]
    by_cases hzero : (pool.blocks b).refCnt = 0
    · exact Or.inl ((h.wf.mem_free b).mpr ⟨Finset.mem_range.mp hlt, hzero⟩)
    · rw [h.refCnt_eq b hnn, Multiset.count_eq_zero, not_not] at hzero
      exact Or.inr (Multiset.mem_filter.mpr ⟨hzero, hnn⟩)
  have hnulls : ((Finset.range pool.numGpuBlocks).filter
      fun b => ¬ (pool.blocks b).isNull = false).card ≤
        if pool.nullBlock.isSome then 1 else 0 := by
    split
    · rename_i hsome
      obtain ⟨nullBlock, hnull⟩ := Option.isSome_iff_exists.mp hsome
      refine (Finset.card_le_card ?_).trans (Finset.card_singleton nullBlock).le
      intro b hb
      have hnn := (Finset.mem_filter.mp hb).2
      rw [Bool.not_eq_false, h.wf.isNull_iff, hnull, Option.some.injEq] at hnn
      exact Finset.mem_singleton.mpr hnn.symm
    · rename_i hnone
      rw [Finset.card_eq_zero.mpr]
      refine Finset.filter_eq_empty_iff.mpr fun b _ hnn => hnone ?_
      rw [Bool.not_eq_false, h.wf.isNull_iff] at hnn
      rw [hnn]
      rfl
  have hsplit : ((Finset.range pool.numGpuBlocks).filter
      fun b => (pool.blocks b).isNull = false).card + ((Finset.range pool.numGpuBlocks).filter
        fun b => ¬ (pool.blocks b).isNull = false).card = pool.numGpuBlocks := by
    rw [Finset.card_filter_add_card_filter_not, Finset.card_range]
  have hle : ((Finset.range pool.numGpuBlocks).filter
      fun b => (pool.blocks b).isNull = false).card ≤ free.length + used.card :=
    calc _ ≤ (free.toFinset ∪ used.toFinset).card := Finset.card_le_card hcover
      _ ≤ free.toFinset.card + used.toFinset.card := Finset.card_union_le _ _
      _ ≤ free.length + used.card :=
        Nat.add_le_add (List.toFinset_card_le _) (Multiset.toFinset_card_le _)
  unfold BlockPool.numUsableBlocks
  omega

end Accounts

theorem length_le_length_diff {α : Type*} [DecidableEq α] (free l : List α) :
    free.length ≤ (free.diff l).length + (l.filter fun a => a ∈ free).length := by
  induction l generalizing free with
  | nil => simp
  | cons a l ih =>
      rw [List.diff_cons]
      have hrest := ih (free.erase a)
      have hfewer : (l.filter fun b => b ∈ free.erase a).length ≤
          (l.filter fun b => b ∈ free).length := by
        refine List.Sublist.length_le (List.monotone_filter_right l fun b hb => ?_)
        exact decide_eq_true (List.mem_of_mem_erase (of_decide_eq_true hb))
      by_cases hmem : a ∈ free
      · have hlen := List.length_erase_of_mem hmem
        have hpos := List.length_pos_of_mem hmem
        rw [List.filter_cons_of_pos (by simpa using hmem), List.length_cons]
        omega
      · rw [List.erase_of_not_mem hmem] at hrest ⊢
        rw [List.filter_cons_of_neg (by simpa using hmem)]
        omega

/-- Taking different entries off a list without repetitions shortens it by those that are in
it. -/
theorem length_diff_add {α : Type*} [DecidableEq α] {free l : List α} (hfree : free.Nodup)
    (hl : l.Nodup) : (free.diff l).length + (l.filter fun a => a ∈ free).length = free.length := by
  refine le_antisymm ?_ (length_le_length_diff free l)
  have hnodup : (free.diff l ++ l.filter fun a => a ∈ free).Nodup := by
    refine List.nodup_append.mpr ⟨hfree.diff, hl.filter _, ?_⟩
    rintro a ha b hb rfl
    exact (hfree.mem_sdiff_iff.mp ha).2 (List.mem_filter.mp hb).1
  have hsubset : (free.diff l ++ l.filter fun a => a ∈ free) ⊆ free := by
    intro a ha
    rcases List.mem_append.mp ha with ha | ha
    · exact (hfree.mem_sdiff_iff.mp ha).1
    · exact of_decide_eq_true (List.mem_filter.mp ha).2
  have hle := (List.subperm_of_subset hnodup hsubset).length_le
  rwa [List.length_append] at hle

/-! ### The charge -/

namespace SingleTypeKVCacheManager

/-- The hits an allocation has to take off the queue. -/
def numEvictable (pool : BlockPool H) (hits : List BlockId) : ℕ :=
  (hits.filter fun b => (pool.blocks b).refCnt = 0 ∧ (pool.blocks b).isNull = false).length

/-- The table and the hits reach as far as the group has shed, and of the hits
what is shed already is null. -/
structure Reaches (pool : BlockPool H) (r : RequestId) (totalComputedTokens : ℕ)
    (manager : SingleTypeKVCacheManager) (hits : List BlockId) : Prop where
  covers : manager.kvCacheSpec.getNumSkippedTokens totalComputedTokens /
    manager.kvCacheSpec.blockSize ≤ hits.length + (manager.getBlocks r).length
  shed : ∀ b ∈ hits.take (manager.kvCacheSpec.getNumSkippedTokens totalComputedTokens /
      manager.kvCacheSpec.blockSize - (manager.getBlocks r).length),
    (pool.blocks b).isNull = true

omit [DecidableEq H] in
theorem getNumBlocksToAllocate_eq {pool : BlockPool H} {manager : SingleTypeKVCacheManager}
    {r : RequestId} {numTokens totalComputedTokens : ℕ} {hits : List BlockId}
    (h : manager.Reaches pool r totalComputedTokens hits) :
    manager.getNumBlocksToAllocate pool r numTokens hits totalComputedTokens =
      ceilDiv numTokens manager.kvCacheSpec.blockSize -
        (hits.length + (manager.getBlocks r).length) + numEvictable pool hits := by
  set skipped := manager.kvCacheSpec.getNumSkippedTokens totalComputedTokens /
    manager.kvCacheSpec.blockSize - (manager.getBlocks r).length with hskipped
  have hnone : (hits.take skipped).filter (fun b =>
      decide ((pool.blocks b).refCnt = 0 ∧ (pool.blocks b).isNull = false)) = [] := by
    refine List.filter_eq_nil_iff.mpr fun b hb => ?_
    have hnull := h.shed b hb
    simp [hnull]
  have hall : numEvictable pool hits = ((hits.drop skipped).filter fun b =>
      (pool.blocks b).refCnt = 0 ∧ (pool.blocks b).isNull = false).length := by
    unfold numEvictable
    conv_lhs => rw [← List.take_append_drop skipped hits]
    rw [List.filter_append, hnone, List.nil_append]
  rw [hall]
  unfold getNumBlocksToAllocate
  dsimp only
  rw [max_eq_right h.covers]

end SingleTypeKVCacheManager

namespace KVCacheCoordinator

open SingleTypeKVCacheManager

def charge (pool : BlockPool H) (r : RequestId) (numTokens totalComputedTokens : ℕ)
    (managers : List SingleTypeKVCacheManager) (hits : List (List BlockId)) : ℕ :=
  (managers.zipWith (fun manager blocks =>
    manager.getNumBlocksToAllocate pool r numTokens blocks totalComputedTokens) hits).sum

omit [DecidableEq H] in
theorem getNumBlocksToAllocate_ok {pool : BlockPool H} {r : RequestId}
    {numTokens totalComputedTokens : ℕ} {managers : List SingleTypeKVCacheManager}
    {hits : List (List BlockId)} (hlen : managers.length = hits.length) :
    getNumBlocksToAllocate pool r numTokens totalComputedTokens managers hits =
      .ok (charge pool r numTokens totalComputedTokens managers hits) := by
  induction managers generalizing hits with
  | nil =>
      obtain rfl := List.length_eq_zero_iff.mp hlen.symm
      rfl
  | cons manager managers ih =>
      cases hits with
      | nil => cases hlen
      | cons blocks hits =>
          unfold getNumBlocksToAllocate
          rw [ih (by simpa using hlen)]
          rfl

/-- What the tables and the hits together are short of. -/
def shortage (r : RequestId) (numTokens : ℕ) (managers : List SingleTypeKVCacheManager)
    (hits : List (List BlockId)) : ℕ :=
  (managers.zipWith (fun manager blocks => ceilDiv numTokens manager.kvCacheSpec.blockSize -
    (blocks.length + (manager.getBlocks r).length)) hits).sum

omit [DecidableEq H] in
/-- The charge is the shortage, and the hits that are in the queue. -/
theorem charge_eq {pool : BlockPool H} {r : RequestId} {numTokens totalComputedTokens : ℕ}
    {managers : List SingleTypeKVCacheManager} {hits : List (List BlockId)}
    (h : List.Forall₂ (Reaches pool r totalComputedTokens) managers hits) :
    charge pool r numTokens totalComputedTokens managers hits =
      shortage r numTokens managers hits + numEvictable pool hits.flatten := by
  induction h with
  | nil => rfl
  | @cons manager blocks managers hits hfirst hrest ih =>
      have hcharge : charge pool r numTokens totalComputedTokens (manager :: managers)
          (blocks :: hits) =
            manager.getNumBlocksToAllocate pool r numTokens blocks totalComputedTokens +
              charge pool r numTokens totalComputedTokens managers hits := rfl
      have hshortage : shortage r numTokens (manager :: managers) (blocks :: hits) =
          ceilDiv numTokens manager.kvCacheSpec.blockSize -
            (blocks.length + (manager.getBlocks r).length) +
              shortage r numTokens managers hits := rfl
      have hevictable : numEvictable pool (blocks :: hits).flatten =
          numEvictable pool blocks + numEvictable pool hits.flatten := by
        simp [numEvictable]
      rw [hcharge, hshortage, hevictable, getNumBlocksToAllocate_eq hfirst, ih]
      omega

theorem shortage_empty (r : RequestId) (numTokens : ℕ) (managers : List SingleTypeKVCacheManager) :
    shortage r numTokens managers (managers.map fun _ => []) =
      totalMissing managers r numTokens := by
  induction managers with
  | nil => rfl
  | cons manager managers ih =>
      have htotal : totalMissing (manager :: managers) r numTokens =
          manager.numMissingBlocks r numTokens + totalMissing managers r numTokens := rfl
      rw [htotal, ← ih]
      simp [shortage, numMissingBlocks]

theorem shortage_adopted {r : RequestId} {numTokens : ℕ}
    {managers : List SingleTypeKVCacheManager} {hits : List (List BlockId)}
    (hidle : ∀ manager ∈ managers, manager.getBlocks r = []) :
    shortage r numTokens managers hits =
      totalMissing (managers.zipWith (fun manager blocks => manager.setBlocks r blocks) hits) r
        numTokens := by
  induction managers generalizing hits with
  | nil => rfl
  | cons manager managers ih =>
      cases hits with
      | nil => rfl
      | cons blocks hits =>
          obtain ⟨hfirst, hrest⟩ := List.forall_mem_cons.mp hidle
          have hstep : shortage r numTokens managers hits = _ := ih hrest
          unfold shortage totalMissing at hstep ⊢
          rw [List.zipWith_cons_cons, List.zipWith_cons_cons, List.sum_cons, List.map_cons,
            List.sum_cons, hstep, hfirst]
          simp [numMissingBlocks]

end KVCacheCoordinator

/-! ### An allocation is exact -/

namespace KVCacheManager

open KVCacheCoordinator

variable {m m' : KVCacheManager H} {free : List BlockId} {request : Request H}
  {per : List (List BlockId)} {n k lookahead : ℕ} {hits : Option (List (List BlockId))}
  {delay : Bool}

/-- What an allocation may be asked for: the tables and the hits reach as far as the groups
shed, and where there is a hit the tables are empty. -/
structure Fitting (m : KVCacheManager H) (request : Request H) (totalComputedTokens : ℕ)
    (per : List (List BlockId)) : Prop where
  hits : m.Hits request per
  reaches : List.Forall₂ (SingleTypeKVCacheManager.Reaches m.blockPool request.requestId
    totalComputedTokens) m.singleTypeManagers per
  computed : List.Forall₂ (fun manager blocks =>
    blocks.length * manager.kvCacheSpec.blockSize ≤ totalComputedTokens) m.singleTypeManagers per
  place : per = m.emptyBlocks ∨ m.cachedBlocks per ≠ [] ∧ m.Idle request.requestId

/-- The blocks `allocate_slots` computes as needed. -/
def charged (m : KVCacheManager H) (request : Request H) (n k lookahead : ℕ)
    (per : List (List BlockId)) : ℕ :=
  charge m.blockPool request.requestId (m.numTokensNeedingSlots request n k lookahead)
    (request.numComputedTokens + k) m.singleTypeManagers per

/-- Slots for a request that is computed as far as its tables reach. -/
theorem fitting_running {n count : ℕ} (hkeeps : m.Keeps request.requestId n count)
    (hle : request.numComputedTokens ≤ min count m.maxModelLen) :
    m.Fitting request request.numComputedTokens m.emptyBlocks where
  hits := hits_emptyBlocks
  reaches := by
    unfold emptyBlocks
    rw [List.forall₂_map_right_iff, List.forall₂_same]
    intro manager hm
    refine ⟨?_, fun b hb => absurd hb (by simp)⟩
    have hcovers := hkeeps.covers manager hm
    have hskipped := manager.kvCacheSpec.getNumSkippedTokens_le request.numComputedTokens
    rw [List.length_nil, Nat.zero_add]
    exact Nat.div_le_of_le_mul (by rw [Nat.mul_comm]; omega)
  computed := by
    unfold emptyBlocks
    rw [List.forall₂_map_right_iff, List.forall₂_same]
    intro manager _
    simp
  place := Or.inl rfl

/-- Slots for a request that comes in with what a lookup found. -/
theorem fitting_found {count : ℕ} {found : List (List BlockId)}
    (hidle : m.Idle request.requestId) (hhits : m.Hits request found)
    (hdvd : m.kvCacheConfig.blockSize ∣ count) (hconf : m.Configured)
    (hfound : m.FoundBlocks (count / m.kvCacheConfig.blockSize) found) :
    m.Fitting request count found where
  hits := hhits
  reaches := by
    refine List.Forall₂.imp ?_ ((List.forall₂_and_left _ _).mpr ⟨fun _ hm => hm, hfound⟩)
    rintro manager blocks ⟨hm, hlength, hshaped⟩
    have hsize := hconf.blockSize_eq hm
    have hall : blocks.length * manager.kvCacheSpec.blockSize = count := by
      rw [hlength, hsize, Nat.div_mul_cancel hdvd]
    have hempty := hidle manager hm
    refine ⟨?_, fun b hb => ?_⟩
    · rw [← hall]
      exact (manager.kvCacheSpec.numSkippedBlocks_le _).trans (by omega)
    · rw [hempty, List.length_nil, Nat.sub_zero, ← hall] at hb
      obtain ⟨i, hi⟩ := List.mem_iff_getElem?.mp hb
      rw [List.getElem?_take] at hi
      split at hi
      · rename_i hlt
        exact hshaped.skipped i b hi hlt
      · cases hi
  computed := by
    refine List.Forall₂.imp ?_ ((List.forall₂_and_left _ _).mpr ⟨fun _ hm => hm, hfound⟩)
    rintro manager blocks ⟨hm, hlength, -⟩
    rw [hlength, hconf.blockSize_eq hm, Nat.div_mul_cancel hdvd]
  place := by
    by_cases hnone : m.cachedBlocks found = []
    · exact Or.inl (hfound.of_cachedBlocks_nil hnone)
    · exact Or.inr ⟨hnone, hidle⟩

theorem InOrder.evictable_eq (h : m.InOrder free) (hlt : ∀ b ∈ m.cachedBlocks per,
    b < m.blockPool.numGpuBlocks) :
    SingleTypeKVCacheManager.numEvictable m.blockPool per.flatten =
      ((m.cachedBlocks per).filter fun b => b ∈ free).length := by
  unfold SingleTypeKVCacheManager.numEvictable
  congr 1
  unfold cachedBlocks at hlt ⊢
  rw [List.filter_filter]
  apply List.filter_congr
  intro b hb
  cases hnull : (m.blockPool.blocks b).isNull with
  | true => simp
  | false =>
      have hbound := hlt b (List.mem_filter.mpr ⟨hb, by simp [hnull]⟩)
      have hfree := h.books.wf.mem_free b
      simp [hfree, hbound]

section

variable (h : m.InOrder free) (hn : n ≠ 0)
  (hfitting : m.Fitting request (request.numComputedTokens + k) (m.perGroupCached hits))

include h hfitting

theorem Fitting.lt : ∀ b ∈ m.cachedBlocks (m.perGroupCached hits),
    b < m.blockPool.numGpuBlocks := by
  intro b hb
  obtain ⟨hb, hnn⟩ := List.mem_filter.mp hb
  exact hfitting.hits.lt h hb (by simpa using hnn)

theorem Fitting.charged_eq : m.charged request n k lookahead (m.perGroupCached hits) =
    shortage request.requestId (m.numTokensNeedingSlots request n k lookahead)
        m.singleTypeManagers (m.perGroupCached hits) +
      ((m.cachedBlocks (m.perGroupCached hits)).filter fun b => b ∈ free).length := by
  rw [charged, charge_eq hfitting.reaches, h.evictable_eq (hfitting.lt h)]

include hn

theorem allocateSlots_declined
    (hshort : free.length < m.charged request n k lookahead (m.perGroupCached hits)) :
    m.allocateSlots request n k hits lookahead delay = .ok (none, m) := by
  have hneed : getNumBlocksToAllocate m.blockPool request.requestId
      (m.numTokensNeedingSlots request n k lookahead) (request.numComputedTokens + k)
      m.singleTypeManagers (m.perGroupCached hits) =
        .ok (m.charged request n k lookahead (m.perGroupCached hits)) :=
    getNumBlocksToAllocate_ok hfitting.reaches.length_eq
  unfold allocateSlots
  rw [if_neg hn]
  simp only [hneed]
  rw [if_pos]
  rw [h.books.wf.getNumFreeBlocks_eq]
  exact hshort

/-- Else it goes through. -/
theorem allocateSlots_goes
    (henough : m.charged request n k lookahead (m.perGroupCached hits) ≤ free.length) :
    ∃ news m', m.allocateSlots request n k hits lookahead delay = .ok (some news, m') := by
  have hcharge := @Fitting.charged_eq _ _ _ _ _ n _ lookahead _ h hfitting
  have hlt := hfitting.lt h
  set per := m.perGroupCached hits with hper
  set numTokens := m.numTokensNeedingSlots request n k lookahead with hnumTokens
  have hlen : m.singleTypeManagers.length = per.length := hfitting.reaches.length_eq
  have hdiff := length_le_length_diff free (m.cachedBlocks per)
  have hneed : getNumBlocksToAllocate m.blockPool request.requestId numTokens
      (request.numComputedTokens + k) m.singleTypeManagers per =
        .ok (m.charged request n k lookahead per) := getNumBlocksToAllocate_ok hlen
  have hadopts : ∃ adopted pool, m.adoptHits request.requestId per = .ok (adopted, pool) ∧
      totalMissing adopted request.requestId numTokens =
        shortage request.requestId numTokens m.singleTypeManagers per := by
    unfold adoptHits
    rcases hfitting.place with hempty | ⟨hne, hidle⟩
    · have hnone : m.cachedBlocks per = [] := by
        rw [hempty, cachedBlocks, emptyBlocks_flatten]
        rfl
      refine ⟨_, _, if_pos hnone, ?_⟩
      rw [hempty]
      exact (shortage_empty ..).symm
    · obtain ⟨pool, htouch, -⟩ := h.books.touch hlt
      obtain ⟨adopted, hadopt⟩ := adoptCachedBlocks_exists hlen.symm hidle
      refine ⟨adopted, pool, ?_, ?_⟩
      · rw [if_neg hne, htouch]
        dsimp only
        rw [hadopt]
      · obtain ⟨-, -, rfl, -⟩ := adoptCachedBlocks_ok hadopt
        exact (shortage_adopted hidle).symm
  obtain ⟨adopted, pool, hadopt, hmissing⟩ := hadopts
  obtain ⟨-, hacc, -, -⟩ := adoptHits_ok h hlt hadopt
  rw [← zero_add (heldBlocks adopted)] at hacc
  obtain ⟨⟨news, managers, mid⟩, hnew⟩ : ∃ result, KVCacheCoordinator.allocateNewBlocks
      request.requestId numTokens adopted pool = .ok result :=
    allocateNewBlocks_exists hacc (by omega)
  unfold allocateSlots
  rw [if_neg hn]
  simp only [← hper, ← hnumTokens, hneed]
  rw [if_neg]
  · rw [hadopt]
    dsimp only
    rw [hnew]
    dsimp only
    split
    · exact ⟨_, _, rfl⟩
    · exact ⟨_, _, rfl⟩
  · rw [h.books.wf.getNumFreeBlocks_eq]
    exact Nat.not_lt.mpr henough

/-- An allocation never fails. -/
theorem allocateSlots_total :
    ∃ result, m.allocateSlots request n k hits lookahead delay = .ok result := by
  by_cases hshort : free.length < m.charged request n k lookahead (m.perGroupCached hits)
  · exact ⟨_, allocateSlots_declined h hn hfitting hshort⟩
  · obtain ⟨news, m', hok⟩ : ∃ news m', m.allocateSlots request n k hits lookahead delay =
        .ok (some news, m') := allocateSlots_goes h hn hfitting (Nat.not_lt.mp hshort)
    exact ⟨_, hok⟩

omit hn in
/-- An allocation that goes through takes as many blocks as it was charged, where no hit
comes twice. -/
theorem Allocates.charged {news : List (List BlockId)} {free' : List BlockId}
    {published : Option ℕ} {adopted : List SingleTypeKVCacheManager} {mid : BlockPool H}
    (hnodup : (m.cachedBlocks (m.perGroupCached hits)).Nodup)
    (halloc : Allocates m m' free free' request (m.perGroupCached hits) news
      (m.numTokensNeedingSlots request n k lookahead) published adopted mid) :
    free'.length + m.charged request n k lookahead (m.perGroupCached hits) = free.length := by
  have hcharge := @Fitting.charged_eq _ _ _ _ _ n _ lookahead _ h hfitting
  have hdiff := length_diff_add h.books.wf.queue.nodup hnodup
  have henough := halloc.enough
  have hmissing : totalMissing adopted request.requestId
      (m.numTokensNeedingSlots request n k lookahead) = shortage request.requestId
        (m.numTokensNeedingSlots request n k lookahead) m.singleTypeManagers
          (m.perGroupCached hits) := by
    rcases halloc.adopted_eq with ⟨hnone, rfl⟩ | ⟨hne, -, hidle, rfl⟩
    · rcases hfitting.place with hempty | ⟨hne, -⟩
      · rw [hempty]
        exact (shortage_empty ..).symm
      · exact absurd hnone hne
    · exact (shortage_adopted hidle).symm
  have hleft := congrArg List.length halloc.free_eq
  rw [List.length_drop] at hleft
  omega

end

/-! ### Exactness -/

/-- No hit comes twice: a block stands under the one hash it has. -/
theorem Hits.cachedBlocks_nodup (h : m.InOrder free) (hhits : m.Hits request per)
    (hnodup : request.blockHashes.Nodup) : (m.cachedBlocks per).Nodup := by
  have hgroups := h.toConfigured.groupIds_nodup
  unfold cachedBlocks
  unfold Hits at hhits
  have hindexed := h.books.wf.toIndexed
  have hkey : ∀ {manager : SingleTypeKVCacheManager} {blocks : List BlockId},
      (∀ i b, blocks[i]? = some b → (m.blockPool.blocks b).isNull = false →
        cachedAt m.blockPool manager.kvCacheGroupId request.blockHashes i = some b) →
      ∀ b ∈ blocks.filter (fun b => !(m.blockPool.blocks b).isNull), ∃ blockHash : H,
        (m.blockPool.blocks b).blockHash = some (blockHash, manager.kvCacheGroupId) := by
    intro manager blocks hfound b hb
    obtain ⟨hb, hnn⟩ := List.mem_filter.mp hb
    obtain ⟨i, hi⟩ := List.mem_iff_getElem?.mp hb
    obtain ⟨blockHash, -, hat⟩ := cachedAt_hash hindexed (hfound i b hi (by simpa using hnn))
    exact ⟨blockHash, hat⟩
  generalize m.singleTypeManagers = managers at hhits hgroups
  induction hhits with
  | nil => exact List.nodup_nil
  | @cons manager blocks managers hits hfirst hrest ih =>
      rw [List.map_cons, List.nodup_cons] at hgroups
      rw [List.flatten_cons, List.filter_append]
      refine List.nodup_append.mpr ⟨?_, ih hgroups.2, ?_⟩
      · -- within a group the index is that of the hash
        rw [List.nodup_iff_pairwise_ne, List.pairwise_filter, List.pairwise_iff_getElem]
        rintro i j hi hj hlt hnn - heq
        have hat := cachedAt_hash hindexed (hfirst i _ (List.getElem?_eq_getElem hi)
          (by simpa using hnn))
        have hat' := cachedAt_hash hindexed (hfirst j _ (List.getElem?_eq_getElem hj)
          (by rw [← heq]; simpa using hnn))
        obtain ⟨key, hkey, hblock⟩ := hat
        obtain ⟨key', hkey', hblock'⟩ := hat'
        rw [heq, hblock', Option.some.injEq, Prod.mk.injEq] at hblock
        rw [hblock.1, ← hkey] at hkey'
        exact hlt.ne' ((List.getElem?_inj (List.getElem?_eq_some_iff.mp hkey).1 hnodup).mp
          hkey'.symm).symm
      · -- across groups the hash carries the group
        rintro b hb b' hb' rfl
        obtain ⟨blockHash, hat⟩ := hkey hfirst b hb
        obtain ⟨hb', hnn⟩ := List.mem_filter.mp hb'
        obtain ⟨blocks', hmem, hb'⟩ := List.mem_flatten.mp hb'
        obtain ⟨i', hi', rfl⟩ := List.mem_iff_getElem.mp hmem
        have hi := hrest.length_eq ▸ hi'
        have hfound := List.forall₂_iff_get.mp hrest |>.2 i' hi hi'
        obtain ⟨blockHash', hat'⟩ := hkey hfound b (List.mem_filter.mpr ⟨hb', hnn⟩)
        rw [hat, Option.some.injEq, Prod.mk.injEq] at hat'
        exact hgroups.1 (hat'.2 ▸ List.mem_map_of_mem (List.getElem_mem hi))

/-- What an allocation answers, and what it takes: it declines just where the charge exceeds
the free blocks, and then nothing has changed; else the free blocks are fewer by the charge,
the tables cover the slots, and no other table has changed. -/
structure Exact (m : KVCacheManager H) (request : Request H) (n k : ℕ)
    (hits : Option (List (List BlockId))) : Prop where
  charge : KVCacheCoordinator.getNumBlocksToAllocate m.blockPool request.requestId
    (m.numTokensNeedingSlots request n k 0) (request.numComputedTokens + k) m.singleTypeManagers
      (m.perGroupCached hits) = .ok (m.charged request n k 0 (m.perGroupCached hits))
  declines : m.blockPool.getNumFreeBlocks < m.charged request n k 0 (m.perGroupCached hits) →
    m.allocateSlots request n k hits 0 false = .ok (none, m)
  goes : m.charged request n k 0 (m.perGroupCached hits) ≤ m.blockPool.getNumFreeBlocks →
    ∃ news m', m.allocateSlots request n k hits 0 false = .ok (some news, m') ∧
      m'.blockPool.getNumFreeBlocks + m.charged request n k 0 (m.perGroupCached hits) =
        m.blockPool.getNumFreeBlocks ∧
      (∀ manager ∈ m'.singleTypeManagers, request.numComputedTokens + k + n ≤
        (manager.getBlocks request.requestId).length * manager.kvCacheSpec.blockSize) ∧
      ∀ r, r ≠ request.requestId → m'.getBlocks r = m.getBlocks r

theorem Fitting.exact (h : m.InOrder free) (hn : n ≠ 0)
    (hfitting : m.Fitting request (request.numComputedTokens + k) (m.perGroupCached hits))
    (hnodup : request.blockHashes.Nodup)
    (hwindow : request.numComputedTokens + k + n ≤ m.maxModelLen) :
    m.Exact request n k hits where
  charge := getNumBlocksToAllocate_ok hfitting.reaches.length_eq
  declines hshort := by
    rw [h.books.wf.getNumFreeBlocks_eq] at hshort
    exact allocateSlots_declined h hn hfitting hshort
  goes henough := by
    rw [h.books.wf.getNumFreeBlocks_eq] at henough
    obtain ⟨news, m', hok⟩ : ∃ news m', m.allocateSlots request n k hits 0 false =
        .ok (some news, m') := allocateSlots_goes h hn hfitting henough
    rcases allocateSlots_ok h (hfitting.lt h) hok with
      ⟨hfail, -⟩ | ⟨_, free', adopted, mid, -, halloc⟩
    · cases hfail
    refine ⟨news, m', hok, ?_, fun manager hm => ?_, fun r hr => halloc.getBlocks_of_ne hr⟩
    · rw [h.books.wf.getNumFreeBlocks_eq, halloc.order.books.wf.getNumFreeBlocks_eq]
      exact halloc.charged h hfitting (hfitting.hits.cachedBlocks_nodup h hnodup)
    · obtain ⟨before, -, new, hspec, htable, hlength, -⟩ := halloc.table h hm
      rw [hspec, htable]
      have hcovers := covers_of_missing hlength
      unfold numTokensNeedingSlots at hcovers
      rwa [Nat.add_zero, min_eq_left hwindow] at hcovers

end KVCacheManager

end Pvllm
