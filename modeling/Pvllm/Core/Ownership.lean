import Pvllm.Core.HitLength
import Mathlib.Algebra.BigOperators.Group.Multiset.Basic
import Mathlib.Data.Multiset.Filter
import Mathlib.Logic.Relation

/-!
Who owns which block.

Four routes move blocks between tables, reference counts and the free queue:
popping new blocks, touching hits, shedding the head of a table, and freeing.
`Accounts pool free held` says the books balance against a multiset `held` of
references, the tables of all groups together; each operation of a manager is
shown to change the pool by exactly what it changes in its table, and so every
sequence of calls keeps the balance.
-/

namespace Pvllm

variable {H : Type} [DecidableEq H]

/-! ### What the tables hold -/

namespace SingleTypeKVCacheManager

def held (manager : SingleTypeKVCacheManager) : Multiset BlockId :=
  manager.reqToBlocks.total fun blocks => (blocks : Multiset BlockId)

theorem getBlocks_coe (manager : SingleTypeKVCacheManager) (r : RequestId) :
    (Option.map (fun blocks : List BlockId => (blocks : Multiset BlockId))
      (manager.reqToBlocks.find r)).getD 0 =
      (manager.getBlocks r : Multiset BlockId) := by
  unfold getBlocks Dict.findD
  cases manager.reqToBlocks.find r <;> rfl

theorem held_setBlocks (manager : SingleTypeKVCacheManager) (r : RequestId)
    (blocks : List BlockId) :
    (manager.setBlocks r blocks).held + (manager.getBlocks r : Multiset BlockId) =
      manager.held + (blocks : Multiset BlockId) := by
  rw [← getBlocks_coe]
  exact manager.reqToBlocks.total_store r blocks fun blocks => (blocks : Multiset BlockId)

theorem held_popBlocks (manager : SingleTypeKVCacheManager) (r : RequestId) :
    (manager.popBlocks r).held + (manager.getBlocks r : Multiset BlockId) = manager.held := by
  rw [← getBlocks_coe]
  exact manager.reqToBlocks.total_delete r fun blocks => (blocks : Multiset BlockId)

theorem mem_held {manager : SingleTypeKVCacheManager} {r : RequestId} {b : BlockId}
    (h : b ∈ manager.getBlocks r) : b ∈ manager.held := by
  rw [← manager.held_popBlocks r]
  exact Multiset.mem_add.mpr (Or.inr (Multiset.mem_coe.mpr h))

end SingleTypeKVCacheManager

def heldBlocks (managers : List SingleTypeKVCacheManager) : Multiset BlockId :=
  (managers.map (·.held)).sum

@[simp] theorem heldBlocks_nil : heldBlocks [] = 0 := rfl

@[simp] theorem heldBlocks_cons (manager : SingleTypeKVCacheManager)
    (managers : List SingleTypeKVCacheManager) :
    heldBlocks (manager :: managers) = manager.held + heldBlocks managers := by
  simp [heldBlocks]

theorem mem_heldBlocks {managers : List SingleTypeKVCacheManager} {b : BlockId} :
    b ∈ heldBlocks managers ↔ ∃ manager ∈ managers, b ∈ manager.held := by
  induction managers with
  | nil => simp
  | cons manager managers ih => simp [ih]

def occurrences (managers : List SingleTypeKVCacheManager) (b : BlockId) : ℕ :=
  (managers.map fun manager =>
    (manager.reqToBlocks.items.map fun entry => entry.2.count b).sum).sum

theorem count_heldBlocks (managers : List SingleTypeKVCacheManager) (b : BlockId) :
    (heldBlocks managers).count b = occurrences managers b := by
  have hentries : ∀ l : List (RequestId × List BlockId),
      ((l.map fun entry => (entry.2 : Multiset BlockId)).sum).count b =
        (l.map fun entry => entry.2.count b).sum := by
    intro l
    induction l with
    | nil => simp
    | cons entry l ih => simp [ih]
  induction managers with
  | nil => simp [occurrences]
  | cons manager managers ih =>
      rw [heldBlocks_cons, Multiset.count_add, ih]
      simp [occurrences, SingleTypeKVCacheManager.held, Dict.total, hentries]

/-! ### The balance -/

/-- The pool is in order, and its reference counts are the multiplicities of
`held`, the null block aside. -/
structure Accounts (pool : BlockPool H) (free : List BlockId) (held : Multiset BlockId) :
    Prop where
  wf : pool.WellFormed free
  refCnt_eq : ∀ b, (pool.blocks b).isNull = false → (pool.blocks b).refCnt = held.count b
  held_lt : ∀ b ∈ held, b < pool.numGpuBlocks

namespace Accounts

variable {pool pool' : BlockPool H} {free : List BlockId} {held held' : Multiset BlockId}

/-- The references to the null block do not count. -/
theorem congr_held (h : Accounts pool free held)
    (hcount : ∀ b, (pool.blocks b).isNull = false → held'.count b = held.count b)
    (hlt : ∀ b ∈ held', b < pool.numGpuBlocks) : Accounts pool free held' :=
  ⟨h.wf, fun b hb => (h.refCnt_eq b hb).trans (hcount b hb).symm, hlt⟩

/-- Popping: the first blocks of the queue are now held. -/
theorem getNewBlocks (h : Accounts pool free held) {n : ℕ} (hn : n ≤ free.length) :
    ∃ pool', pool.getNewBlocks n = .ok (free.take n, pool') ∧
      Accounts pool' (free.drop n) (held + (free.take n : List BlockId)) ∧
      pool.SameFrame pool' ∧
      ∀ c, pool'.blocks c = if c ∈ free.take n then ⟨1, none, false⟩ else pool.blocks c := by
  obtain ⟨pool', hok, hwf, hframe, hblocks⟩ := h.wf.getNewBlocks hn
  refine ⟨pool', hok, ⟨hwf, fun b hb => ?_, fun b hb => ?_⟩, hframe, hblocks⟩
  · have hnd : (free.take n).Nodup := h.wf.queue.nodup.sublist (List.take_sublist ..)
    rw [Multiset.count_add, Multiset.coe_count]
    by_cases hmem : b ∈ free.take n
    · have hfree := List.mem_of_mem_take hmem
      have hzero := ((h.wf.mem_free b).mp hfree).2
      rw [h.refCnt_eq b (h.wf.not_null_of_mem hfree)] at hzero
      rw [hblocks, if_pos hmem, hzero, List.count_eq_one_of_mem hnd hmem]
    · rw [hblocks, if_neg hmem] at hb ⊢
      rw [h.refCnt_eq b hb, List.count_eq_zero.mpr hmem, Nat.add_zero]
  · rw [hframe.numGpuBlocks]
    rcases Multiset.mem_add.mp hb with hb | hb
    · exact h.held_lt b hb
    · exact ((h.wf.mem_free b).mp (List.mem_of_mem_take (Multiset.mem_coe.mp hb))).1

/-- Popping more than is free raises, and nothing else does. -/
theorem getNewBlocks_ok (h : Accounts pool free held) {n : ℕ} {blocks : List BlockId}
    (hok : pool.getNewBlocks n = .ok (blocks, pool')) :
    n ≤ free.length ∧ blocks = free.take n ∧
      Accounts pool' (free.drop n) (held + (blocks : List BlockId)) ∧ pool.SameFrame pool' ∧
      ∀ c, pool'.blocks c = if c ∈ blocks then ⟨1, none, false⟩ else pool.blocks c := by
  rcases Nat.lt_or_ge free.length n with hlt | hle
  · rw [← h.wf.getNumFreeBlocks_eq] at hlt
    simp [BlockPool.getNewBlocks, hlt] at hok
  · obtain ⟨pool'', hok', hacc, hframe, hblocks⟩ := h.getNewBlocks hle
    rw [hok', Except.ok.injEq, Prod.mk.injEq] at hok
    obtain ⟨rfl, rfl⟩ := hok
    exact ⟨hle, rfl, hacc, hframe, hblocks⟩

/-- Touching: the blocks are held once more for each time they are named. -/
theorem touch (h : Accounts pool free held) {blocks : List BlockId}
    (hlt : ∀ b ∈ blocks, b < pool.numGpuBlocks) :
    ∃ pool', pool.touch blocks = .ok pool' ∧
      Accounts pool' (free.diff blocks) (held + (blocks : List BlockId)) ∧ pool.SameFrame pool' ∧
      ∀ c, pool'.blocks c =
        (pool.blocks c).withRefCnt ((pool.blocks c).refCnt + blocks.count c) := by
  obtain ⟨pool', hok, hwf, hframe, hblocks⟩ := h.wf.touch hlt
  refine ⟨pool', hok, ⟨hwf, fun b hb => ?_, fun b hb => ?_⟩, hframe, hblocks⟩
  · rw [hblocks, KVCacheBlock.withRefCnt_isNull] at hb
    rw [hblocks, KVCacheBlock.withRefCnt_refCnt, Multiset.count_add, Multiset.coe_count,
      h.refCnt_eq b hb]
  · rw [hframe.numGpuBlocks]
    rcases Multiset.mem_add.mp hb with hb | hb
    · exact h.held_lt b hb
    · exact hlt b (Multiset.mem_coe.mp hb)

/-- Freeing: the blocks are held once less for each time they are named, and
those nobody holds any more join the queue. -/
theorem freeBlocks {ordered : List BlockId}
    (h : Accounts pool free (held + (ordered : List BlockId))) :
    ∃ released pool', pool.freeBlocks ordered = .ok pool' ∧
      Accounts pool' (pool.requeue free released) held ∧ pool.SameFrame pool' ∧
      (∀ c, (pool'.blocks c).isNull = (pool.blocks c).isNull ∧
        (pool'.blocks c).blockHash = (pool.blocks c).blockHash) ∧
      released.Sublist ordered ∧ released.Nodup ∧
      ∀ c, c ∈ released ↔ c ∈ ordered ∧ (pool.blocks c).isNull = false ∧ held.count c = 0 := by
  have hcount : ∀ b, (pool.blocks b).isNull = false →
      (pool.blocks b).refCnt = held.count b + ordered.count b := by
    intro b hb
    rw [h.refCnt_eq b hb, Multiset.count_add, Multiset.coe_count]
  obtain ⟨released, pool', hok, hwf, hframe, hblocks, hsub, hnd, hmem⟩ :=
    h.wf.freeBlocks ordered (fun b hb => by rw [hcount b hb]; omega)
      fun b hb => h.held_lt b (Multiset.mem_add.mpr (Or.inr (Multiset.mem_coe.mpr hb)))
  refine ⟨released, pool', hok, ⟨hwf, fun b hb => ?_, fun b hb => ?_⟩, hframe, fun c => ?_, hsub,
    hnd, fun c => ?_⟩
  · rw [hblocks, KVCacheBlock.withRefCnt_isNull] at hb
    rw [hblocks, KVCacheBlock.withRefCnt_refCnt, hb, hcount b hb]
    simp
  · rw [hframe.numGpuBlocks]
    exact h.held_lt b (Multiset.mem_add.mpr (Or.inl hb))
  · rw [hblocks]
    exact ⟨rfl, rfl⟩
  · rw [hmem]
    refine and_congr_right fun _ => and_congr_right fun hb => ?_
    rw [hcount c hb]
    omega

/-- Publishing and resetting hold nothing and free nothing. -/
theorem of_same (h : Accounts pool free held) (hwf : pool'.WellFormed free)
    (hframe : pool.SameFrame pool')
    (hsame : ∀ c, (pool'.blocks c).refCnt = (pool.blocks c).refCnt ∧
      (pool'.blocks c).isNull = (pool.blocks c).isNull) : Accounts pool' free held where
  wf := hwf
  refCnt_eq b hb := by
    rw [(hsame b).2] at hb
    rw [(hsame b).1]
    exact h.refCnt_eq b hb
  held_lt b hb := by
    rw [hframe.numGpuBlocks]
    exact h.held_lt b hb

end Accounts

/-! ### The operations of one group -/

namespace SingleTypeKVCacheManager

def extend (requestId : RequestId) (manager : SingleTypeKVCacheManager)
    (newBlocks : List BlockId) : SingleTypeKVCacheManager :=
  manager.setBlocks requestId (manager.getBlocks requestId ++ newBlocks)

@[simp] theorem getBlocks_extend (manager : SingleTypeKVCacheManager) (r r' : RequestId)
    (newBlocks : List BlockId) :
    (manager.extend r newBlocks).getBlocks r' =
      if r' = r then manager.getBlocks r ++ newBlocks else manager.getBlocks r' := by
  simp [extend]

theorem held_extend (manager : SingleTypeKVCacheManager) (r : RequestId)
    (newBlocks : List BlockId) :
    (manager.extend r newBlocks).held = manager.held + (newBlocks : Multiset BlockId) := by
  have h := manager.held_setBlocks r (manager.getBlocks r ++ newBlocks)
  rw [← Multiset.coe_add, add_comm (manager.getBlocks r : Multiset BlockId), ← add_assoc] at h
  exact add_right_cancel h

variable {pool pool' : BlockPool H} {free : List BlockId} {rest : Multiset BlockId}

theorem allocateNewBlocks_ok {manager manager' : SingleTypeKVCacheManager} {r : RequestId}
    {numTokens : ℕ} {newBlocks : List BlockId}
    (h : Accounts pool free (rest + manager.held))
    (hok : manager.allocateNewBlocks pool r numTokens = .ok (newBlocks, manager', pool')) :
    manager.numMissingBlocks r numTokens ≤ free.length ∧
      newBlocks = free.take (manager.numMissingBlocks r numTokens) ∧
      manager' = manager.extend r newBlocks ∧
      Accounts pool' (free.drop (manager.numMissingBlocks r numTokens)) (rest + manager'.held) ∧
      pool.SameFrame pool' ∧
      ∀ c, pool'.blocks c = if c ∈ newBlocks then ⟨1, none, false⟩ else pool.blocks c := by
  unfold allocateNewBlocks at hok
  by_cases hzero : manager.numMissingBlocks r numTokens = 0
  · simp only [hzero, if_true, Except.ok.injEq, Prod.mk.injEq] at hok
    obtain ⟨rfl, rfl, rfl⟩ := hok
    have hextend : manager.setBlocks r (manager.getBlocks r) = manager.extend r [] := by
      simp [extend]
    refine ⟨by omega, by simp [hzero], hextend, ?_, BlockPool.SameFrame.refl _, by simp⟩
    rw [hextend, held_extend, hzero]
    simpa using h
  · simp only [hzero, if_false] at hok
    split at hok
    · cases hok
    · rename_i blocks pool'' hnew
      simp only [Except.ok.injEq, Prod.mk.injEq] at hok
      obtain ⟨rfl, rfl, rfl⟩ := hok
      obtain ⟨hle, rfl, hacc, hframe, hblocks⟩ := h.getNewBlocks_ok hnew
      refine ⟨hle, rfl, rfl, ?_, hframe, hblocks⟩
      change Accounts pool'' _ (rest + (manager.extend r _).held)
      rwa [held_extend, ← add_assoc]

/-- How shedding changes a manager: the head of the request's table becomes
null entries. -/
def Sheds (nullBlock : Option BlockId) (r : RequestId) (numComputedTokens : ℕ)
    (manager manager' : SingleTypeKVCacheManager) : Prop :=
  ∃ null k, k = min (manager.kvCacheSpec.getNumSkippedTokens numComputedTokens /
      manager.kvCacheSpec.blockSize) (manager.getBlocks r).length ∧
    (k ≠ 0 → nullBlock = some null) ∧
    (k = 0 ∧ manager' = manager ∨ manager' = manager.setBlocks r
      (List.replicate k null ++ (manager.getBlocks r).drop k))

theorem Sheds.group {nullBlock : Option BlockId} {r : RequestId} {n : ℕ}
    {manager manager' : SingleTypeKVCacheManager} (h : manager.Sheds nullBlock r n manager') :
    manager'.kvCacheGroupId = manager.kvCacheGroupId ∧
      manager'.kvCacheSpec = manager.kvCacheSpec := by
  obtain ⟨-, -, -, -, ⟨-, rfl⟩ | rfl⟩ := h
  · exact ⟨rfl, rfl⟩
  · exact ⟨rfl, rfl⟩

/-- Shedding gives back what stood in the head of the table. -/
theorem removeSkippedBlocks_spec {manager : SingleTypeKVCacheManager} {r : RequestId}
    {numComputedTokens : ℕ} (h : Accounts pool free (rest + manager.held))
    (hreserved : manager.kvCacheSpec.isSkipping = true → pool.nullBlock.isSome) :
    ∃ manager' pool' free',
      manager.removeSkippedBlocks pool r numComputedTokens = .ok (manager', pool') ∧
      Accounts pool' free' (rest + manager'.held) ∧ pool.SameFrame pool' ∧
      (∀ c, (pool'.blocks c).isNull = (pool.blocks c).isNull ∧
        (pool'.blocks c).blockHash = (pool.blocks c).blockHash) ∧
      manager.Sheds pool.nullBlock r numComputedTokens manager' := by
  unfold removeSkippedBlocks
  set skipped := manager.kvCacheSpec.getNumSkippedTokens numComputedTokens with hskipped
  set blocks := manager.getBlocks r with hblocks
  by_cases hnone : skipped = 0 ∨ blocks = []
  · refine ⟨manager, pool, free, by simp only [hnone, if_true], h,
      BlockPool.SameFrame.refl _, fun c => ⟨rfl, rfl⟩, 0, 0, ?_, by simp, Or.inl ⟨rfl, rfl⟩⟩
    rw [← hskipped, ← hblocks]
    rcases hnone with h0 | h0 <;> simp [h0]
  have hskips : manager.kvCacheSpec.isSkipping = true := by
    rw [not_or, hskipped] at hnone
    unfold KVCacheSpec.isSkipping KVCacheSpec.isFullAttention
    unfold KVCacheSpec.getNumSkippedTokens at hnone
    cases hkind : manager.kvCacheSpec.kind with
    | fullAttention => simp [hkind] at hnone
    | slidingWindow window => rfl
    | mamba => rfl
  obtain ⟨nullBlock, hnb⟩ := Option.isSome_iff_exists.mp (hreserved hskips)
  set k := min (skipped / manager.kvCacheSpec.blockSize) blocks.length with hk
  set removed := (blocks.take k).filter (fun b => b ≠ nullBlock) with hremoved
  set table := List.replicate k nullBlock ++ blocks.drop k with htable
  have hisnull := (h.wf.isNull_iff nullBlock).mpr hnb
  have hheld := manager.held_setBlocks r table
  rw [← hblocks] at hheld
  -- Away from the null block, the new table and what was removed are the old one.
  have hcount : ∀ b, b ≠ nullBlock →
      (manager.setBlocks r table).held.count b + removed.count b = manager.held.count b := by
    intro b hb
    have hsum := congrArg (Multiset.count b) hheld
    rw [Multiset.count_add, Multiset.count_add, Multiset.coe_count, Multiset.coe_count] at hsum
    have hne : (nullBlock == b) = false := by simpa using fun e : nullBlock = b => hb e.symm
    have htail : table.count b = (blocks.drop k).count b := by
      rw [htable, List.count_append, List.count_replicate, hne]
      simp
    have hsplit : blocks.count b = (blocks.take k).count b + (blocks.drop k).count b := by
      rw [← List.count_append, List.take_append_drop]
    have hkept : removed.count b = (blocks.take k).count b := by
      rw [hremoved, List.count_filter (by simpa using hb)]
    omega
  have hmem : ∀ b ∈ (manager.setBlocks r table).held, b < pool.numGpuBlocks := by
    intro b hb
    by_cases hbn : b = nullBlock
    · exact hbn ▸ h.wf.null_lt nullBlock hnb
    · refine h.held_lt b (Multiset.mem_add.mpr (Or.inr ?_))
      rw [← Multiset.count_pos] at hb ⊢
      have := hcount b hbn
      omega
  have hbalance : Accounts pool free
      (rest + (manager.setBlocks r table).held + (removed.reverse : List BlockId)) := by
    refine h.congr_held (fun b hb => ?_) fun b hb => ?_
    · have hbn : b ≠ nullBlock := by
        rintro rfl
        rw [hisnull] at hb
        cases hb
      have := hcount b hbn
      simp only [Multiset.count_add, Multiset.coe_reverse, Multiset.coe_count]
      omega
    · rcases Multiset.mem_add.mp hb with hb | hb
      · rcases Multiset.mem_add.mp hb with hb | hb
        · exact h.held_lt b (Multiset.mem_add.mpr (Or.inl hb))
        · exact hmem b hb
      · have hb' : b ∈ blocks := by
          rw [Multiset.coe_reverse, Multiset.mem_coe] at hb
          exact List.mem_of_mem_take (List.mem_filter.mp hb).1
        exact h.held_lt b (Multiset.mem_add.mpr (Or.inr (mem_held hb')))
  by_cases hnil : removed = []
  · refine ⟨manager.setBlocks r table, pool, free, ?_, ?_,
      BlockPool.SameFrame.refl _, fun c => ⟨rfl, rfl⟩, nullBlock, k, rfl, fun _ => hnb, Or.inr rfl⟩
    · simp only [hnone, if_false, hnb, ← hk, ← hremoved, hnil, if_true]
      rfl
    · rw [hnil] at hbalance
      simpa using hbalance
  · obtain ⟨released, pool', hok, hacc, hframe, hsame, -⟩ := hbalance.freeBlocks
    refine ⟨manager.setBlocks r table, pool', _, ?_, hacc, hframe, hsame, nullBlock, k, rfl,
      fun _ => hnb, Or.inr rfl⟩
    simp only [hnone, if_false, hnb, ← hk, ← hremoved, hnil, hok]
    rfl

/-- Freeing a request lets go of its table, last block first. -/
theorem free_spec {manager : SingleTypeKVCacheManager} {r : RequestId}
    (h : Accounts pool free (rest + manager.held)) :
    ∃ pool' released, manager.free pool r = .ok (manager.popBlocks r, pool') ∧
      Accounts pool' (pool.requeue free released) (rest + (manager.popBlocks r).held) ∧
      pool.SameFrame pool' ∧
      (∀ c, (pool'.blocks c).isNull = (pool.blocks c).isNull ∧
        (pool'.blocks c).blockHash = (pool.blocks c).blockHash) ∧
      released.Sublist (manager.getBlocks r).reverse ∧
      ∀ c, c ∈ released ↔ c ∈ manager.getBlocks r ∧ (pool.blocks c).isNull = false ∧
        (rest + (manager.popBlocks r).held).count c = 0 := by
  unfold SingleTypeKVCacheManager.free
  have hheld := manager.held_popBlocks r
  by_cases hnil : manager.getBlocks r = []
  · refine ⟨pool, [], by simp [hnil], ?_, BlockPool.SameFrame.refl _, fun c => ⟨rfl, rfl⟩, by simp,
      by simp [hnil]⟩
    have hsame : (manager.popBlocks r).held = manager.held := by simpa [hnil] using hheld
    rw [hsame]
    simpa [BlockPool.requeue] using h
  · rw [← hheld, ← add_assoc, ← Multiset.coe_reverse] at h
    obtain ⟨released, pool', hok, hacc, hframe, hsame, hsub, -, hmem⟩ := h.freeBlocks
    exact ⟨pool', released, by simp [hnil, hok], hacc, hframe, hsame, hsub, by simpa using hmem⟩

end SingleTypeKVCacheManager

/-! ### The operations of all groups -/

namespace KVCacheCoordinator

open SingleTypeKVCacheManager

variable {pool pool' : BlockPool H} {free : List BlockId} {rest : Multiset BlockId}
  {managers managers' : List SingleTypeKVCacheManager} {r : RequestId}

def totalMissing (managers : List SingleTypeKVCacheManager) (r : RequestId) (numTokens : ℕ) : ℕ :=
  (managers.map fun manager => manager.numMissingBlocks r numTokens).sum

/-- An allocation that succeeds takes what is missing off the queue, group
after group. -/
theorem allocateNewBlocks_ok {numTokens : ℕ} {newBlocks : List (List BlockId)}
    (h : Accounts pool free (rest + heldBlocks managers))
    (hok : allocateNewBlocks r numTokens managers pool = .ok (newBlocks, managers', pool')) :
    totalMissing managers r numTokens ≤ free.length ∧
      newBlocks.flatten = free.take (totalMissing managers r numTokens) ∧
      newBlocks.map List.length = managers.map (·.numMissingBlocks r numTokens) ∧
      managers' = managers.zipWith (extend r) newBlocks ∧
      Accounts pool' (free.drop (totalMissing managers r numTokens))
        (rest + heldBlocks managers') ∧
      pool.SameFrame pool' ∧
      ∀ c, pool'.blocks c = if c ∈ newBlocks.flatten then ⟨1, none, false⟩ else pool.blocks c := by
  induction managers generalizing pool free rest newBlocks managers' with
  | nil =>
      simp only [allocateNewBlocks, Except.ok.injEq, Prod.mk.injEq] at hok
      obtain ⟨rfl, rfl, rfl⟩ := hok
      exact ⟨Nat.zero_le _, rfl, rfl, rfl, by simpa [totalMissing] using h,
        BlockPool.SameFrame.refl _, by simp⟩
  | cons manager managers ih =>
      simp only [allocateNewBlocks] at hok
      split at hok
      · cases hok
      rename_i new manager₁ pool₁ hfirst
      split at hok
      · cases hok
      rename_i news managers₁ pool₂ hrest
      simp only [Except.ok.injEq, Prod.mk.injEq] at hok
      obtain ⟨rfl, rfl, rfl⟩ := hok
      have hregroup : ∀ m : SingleTypeKVCacheManager, rest + (m.held + heldBlocks managers) =
          rest + heldBlocks managers + m.held := by
        intro m
        rw [add_comm m.held, add_assoc]
      rw [heldBlocks_cons, hregroup] at h
      obtain ⟨hle, hnew, rfl, hacc, hframe, hblocks⟩ :=
        SingleTypeKVCacheManager.allocateNewBlocks_ok h hfirst
      rw [← hregroup, ← add_assoc] at hacc
      obtain ⟨hle', hflat, hlens, rfl, hacc', hframe', hblocks'⟩ := ih hacc hrest
      rw [List.length_drop] at hle'
      have htotal : totalMissing (manager :: managers) r numTokens =
          manager.numMissingBlocks r numTokens + totalMissing managers r numTokens := by
        simp [totalMissing]
      have hlen : new.length = manager.numMissingBlocks r numTokens := by
        rw [hnew, List.length_take_of_le hle]
      refine ⟨by omega, ?_, by simp [hlen, hlens], rfl, ?_, hframe.trans hframe', fun c => ?_⟩
      · rw [List.flatten_cons, hflat, htotal, List.take_add, ← hnew]
      · rw [htotal, ← List.drop_drop, heldBlocks_cons, ← add_assoc]
        exact hacc'
      · rw [hblocks', hblocks, List.flatten_cons]
        simp only [List.mem_append]
        by_cases hc : c ∈ news.flatten
        · simp [hc]
        · simp [hc]

/-- Enough free blocks for what is missing are enough for the allocation. -/
theorem allocateNewBlocks_exists {numTokens : ℕ}
    (h : Accounts pool free (rest + heldBlocks managers))
    (hle : totalMissing managers r numTokens ≤ free.length) :
    ∃ result, allocateNewBlocks r numTokens managers pool = .ok result := by
  induction managers generalizing pool free rest with
  | nil => exact ⟨_, rfl⟩
  | cons manager managers ih =>
      have htotal : totalMissing (manager :: managers) r numTokens =
          manager.numMissingBlocks r numTokens + totalMissing managers r numTokens := by
        simp [totalMissing]
      have hregroup : ∀ m : SingleTypeKVCacheManager, rest + (m.held + heldBlocks managers) =
          rest + heldBlocks managers + m.held := by
        intro m
        rw [add_comm m.held, add_assoc]
      rw [heldBlocks_cons, hregroup] at h
      obtain ⟨⟨new, manager₁, pool₁⟩, hfirst⟩ :
          ∃ result, manager.allocateNewBlocks pool r numTokens = .ok result := by
        unfold SingleTypeKVCacheManager.allocateNewBlocks
        by_cases hzero : manager.numMissingBlocks r numTokens = 0
        · simp [hzero]
        · obtain ⟨pool₁, hnew, -⟩ := h.getNewBlocks (n := manager.numMissingBlocks r numTokens)
            (by omega)
          simp [hzero, hnew]
      obtain ⟨-, -, rfl, hacc, -⟩ := SingleTypeKVCacheManager.allocateNewBlocks_ok h hfirst
      rw [← hregroup, ← add_assoc] at hacc
      obtain ⟨result, hrest⟩ := ih hacc (by rw [List.length_drop]; omega)
      exact ⟨(new :: result.1, extend r manager new :: result.2.1, result.2.2), by
        simp only [allocateNewBlocks, hfirst, hrest]⟩

/-- Adopting fills tables that were empty. -/
theorem adoptCachedBlocks_ok {hits : List (List BlockId)}
    (hok : adoptCachedBlocks r managers hits = .ok managers') :
    hits.length = managers.length ∧ (∀ manager ∈ managers, manager.getBlocks r = []) ∧
      managers' = managers.zipWith (fun manager blocks => manager.setBlocks r blocks) hits ∧
      heldBlocks managers' = heldBlocks managers + (hits.flatten : List BlockId) := by
  induction managers generalizing hits managers' with
  | nil =>
      cases hits with
      | nil =>
          simp only [adoptCachedBlocks, Except.ok.injEq] at hok
          subst hok
          simp
      | cons => cases hok
  | cons manager managers ih =>
      cases hits with
      | nil => cases hok
      | cons blocks hits =>
          simp only [adoptCachedBlocks] at hok
          split at hok
          · cases hok
          rename_i manager₁ hfirst
          split at hok
          · cases hok
          rename_i managers₁ hrest
          simp only [Except.ok.injEq] at hok
          subst hok
          simp only [SingleTypeKVCacheManager.adoptCachedBlocks, ne_eq, ite_not] at hfirst
          split at hfirst
          · rename_i hempty
            simp only [Except.ok.injEq] at hfirst
            subst hfirst
            obtain ⟨hlen, hall, rfl, hheld⟩ := ih hrest
            have hset := manager.held_setBlocks r blocks
            rw [hempty] at hset
            refine ⟨by simp [hlen], by simpa [hempty] using hall, rfl, ?_⟩
            have hset' : (manager.setBlocks r blocks).held =
                manager.held + (blocks : Multiset BlockId) := by simpa using hset
            rw [heldBlocks_cons, hset', hheld, heldBlocks_cons, List.flatten_cons,
              ← Multiset.coe_add]
            abel
          · cases hfirst

theorem adoptCachedBlocks_exists {hits : List (List BlockId)}
    (hlen : hits.length = managers.length)
    (hempty : ∀ manager ∈ managers, manager.getBlocks r = []) :
    ∃ managers', adoptCachedBlocks r managers hits = .ok managers' := by
  induction managers generalizing hits with
  | nil =>
      obtain rfl := List.length_eq_zero_iff.mp hlen
      exact ⟨_, rfl⟩
  | cons manager managers ih =>
      cases hits with
      | nil => cases hlen
      | cons blocks hits =>
          obtain ⟨hfirst, hrest⟩ := List.forall_mem_cons.mp hempty
          obtain ⟨managers', hok⟩ := ih (by simpa using hlen) hrest
          exact ⟨manager.setBlocks r blocks :: managers', by
            simp [adoptCachedBlocks, SingleTypeKVCacheManager.adoptCachedBlocks, hfirst, hok]⟩

theorem removeSkippedBlocks_spec (r : RequestId) (numComputedTokens : ℕ)
    (h : Accounts pool free (rest + heldBlocks managers))
    (hreserved : ∀ manager ∈ managers,
      manager.kvCacheSpec.isSkipping = true → pool.nullBlock.isSome) :
    ∃ managers' pool' free',
      removeSkippedBlocks r numComputedTokens managers pool = .ok (managers', pool') ∧
      Accounts pool' free' (rest + heldBlocks managers') ∧ pool.SameFrame pool' ∧
      (∀ c, (pool'.blocks c).isNull = (pool.blocks c).isNull ∧
        (pool'.blocks c).blockHash = (pool.blocks c).blockHash) ∧
      List.Forall₂ (Sheds pool.nullBlock r numComputedTokens) managers managers' := by
  induction managers generalizing pool free rest with
  | nil =>
      exact ⟨[], pool, free, rfl, h, BlockPool.SameFrame.refl _, fun c => ⟨rfl, rfl⟩, .nil⟩
  | cons manager managers ih =>
      obtain ⟨hfirst, hrest⟩ := List.forall_mem_cons.mp hreserved
      have hregroup : ∀ m : SingleTypeKVCacheManager, rest + (m.held + heldBlocks managers) =
          rest + heldBlocks managers + m.held := by
        intro m
        rw [add_comm m.held, add_assoc]
      rw [heldBlocks_cons, hregroup] at h
      obtain ⟨manager₁, pool₁, free₁, hok₁, hacc, hframe, hsame, hsheds⟩ :=
        SingleTypeKVCacheManager.removeSkippedBlocks_spec h hfirst
      rw [← hregroup, ← add_assoc] at hacc
      obtain ⟨managers₁, pool₂, free₂, hok₂, hacc', hframe', hsame', hsheds'⟩ := ih hacc
        (by rwa [hframe.nullBlock])
      rw [hframe.nullBlock] at hsheds'
      refine ⟨manager₁ :: managers₁, pool₂, free₂, by simp [removeSkippedBlocks, hok₁, hok₂],
        by rwa [heldBlocks_cons, ← add_assoc], hframe.trans hframe', fun c => ?_,
        .cons hsheds hsheds'⟩
      rw [(hsame' c).1, (hsame' c).2]
      exact hsame c

theorem free_spec (h : Accounts pool free (rest + heldBlocks managers)) :
    ∃ pool' free', KVCacheCoordinator.free r managers pool =
        .ok (managers.map (·.popBlocks r), pool') ∧
      Accounts pool' free' (rest + heldBlocks (managers.map (·.popBlocks r))) ∧
      pool.SameFrame pool' ∧
      ∀ c, (pool'.blocks c).isNull = (pool.blocks c).isNull ∧
        (pool'.blocks c).blockHash = (pool.blocks c).blockHash := by
  induction managers generalizing pool free rest with
  | nil => exact ⟨pool, free, rfl, h, BlockPool.SameFrame.refl _, fun c => ⟨rfl, rfl⟩⟩
  | cons manager managers ih =>
      have hregroup : ∀ m : SingleTypeKVCacheManager, rest + (m.held + heldBlocks managers) =
          rest + heldBlocks managers + m.held := by
        intro m
        rw [add_comm m.held, add_assoc]
      rw [heldBlocks_cons, hregroup] at h
      obtain ⟨pool₁, released, hok₁, hacc, hframe, hsame, -⟩ :=
        SingleTypeKVCacheManager.free_spec (r := r) h
      rw [← hregroup, ← add_assoc] at hacc
      obtain ⟨pool₂, free₂, hok₂, hacc', hframe', hsame'⟩ := ih hacc
      refine ⟨pool₂, free₂, by simp [KVCacheCoordinator.free, hok₁, hok₂],
        by rwa [List.map_cons, heldBlocks_cons, ← add_assoc], hframe.trans hframe', fun c => ?_⟩
      rw [(hsame' c).1, (hsame' c).2]
      exact hsame c

end KVCacheCoordinator

end Pvllm
