import Pvllm.Core.BlockPool
import Pvllm.Library.Refinement
import Mathlib.Data.List.Dedup

/-!
The queue of free blocks, call by call.

The queue is called in any order, by callers that may catch what it raises and go on. The
abstract queue is a list without repetition. `listCall` says what each call does to it, and
`call_agrees` that the pointers do the same. Each exception of `listCall` is raised before
the first assignment of the call, so the queue is left as it was.
-/

namespace Pvllm

namespace FreeKVCacheBlockQueue

open Refinement

/-- A call of the queue. -/
inductive Call where
  | popleft
  | popleftN (n : ℕ)
  | remove (b : BlockId)
  | append (b : BlockId)
  | appendN (blocks : List BlockId)
  | prependN (blocks : List BlockId)

def call (q : FreeKVCacheBlockQueue) (c : Call) :
    Except PyError (List BlockId × FreeKVCacheBlockQueue) :=
  match c with
  | .popleft => do
    let (b, q) ← q.popleft
    pure ([b], q)
  | .popleftN n => q.popleftN n
  | .remove b => do
    let q ← q.remove b
    pure ([], q)
  | .append b => do
    let q ← q.append b
    pure ([], q)
  | .appendN blocks => do
    let q ← q.appendN blocks
    pure ([], q)
  | .prependN blocks => do
    let q ← q.prependN blocks
    pure ([], q)

def listCall (l : List BlockId) (c : Call) : Except PyError (List BlockId × List BlockId) :=
  match c with
  | .popleft =>
    match l with
    | [] => .error (.valueError "No free blocks available")
    | b :: rest => .ok ([b], rest)
  | .popleftN n =>
    if n ≤ l.length then .ok (l.take n, l.drop n)
    else .error (.assertionError s!"asked for {n} free blocks but only {l.length} are free")
  | .remove b => if b ∈ l then .ok ([], l.erase b) else .error (notFree b)
  | .append b => .ok ([], l ++ [b])
  | .appendN blocks => .ok ([], l ++ blocks)
  | .prependN blocks => .ok ([], blocks ++ l)

def LegalCall (l : List BlockId) : Call → Prop
  | .append b => b ∉ l
  | .appendN blocks => blocks.Nodup ∧ ∀ b ∈ blocks, b ∉ l
  | .prependN blocks => blocks.Nodup ∧ ∀ b ∈ blocks, b ∉ l
  | _ => True

/-- A legal call does to the pointers what it does to the list. -/
theorem call_agrees {q : FreeKVCacheBlockQueue} {l : List BlockId} {c : Call}
    (h : Represents q l) (hlegal : LegalCall l c) :
    Agree Represents (q.call c) (listCall l c) := by
  cases c with
  | popleft =>
      cases l with
      | nil =>
          unfold call listCall
          dsimp only
          rw [popleft_nil h]
          exact .error _
      | cons b rest =>
          obtain ⟨q', hq', hrest⟩ := popleft_eq h
          unfold call listCall
          dsimp only
          rw [hq']
          exact .ok _ hrest
  | popleftN n =>
      unfold call listCall
      dsimp only
      split
      · rename_i hle
        obtain ⟨q', hq', hrest⟩ := popleftN_eq h hle
        rw [hq']
        exact .ok _ hrest
      · rename_i hlt
        rw [popleftN_error h (not_le.mp hlt)]
        exact .error _
  | remove b =>
      unfold call listCall
      dsimp only
      split
      · rename_i hb
        obtain ⟨q', hq', hrest⟩ := remove_eq h hb
        rw [hq']
        exact .ok _ hrest
      · rename_i hb
        rw [remove_error h hb]
        exact .error _
  | append b =>
      obtain ⟨q', hq', hrest⟩ := append_eq h hlegal
      unfold call listCall
      dsimp only
      rw [hq']
      exact .ok _ hrest
  | appendN blocks =>
      obtain ⟨hnodup, hnew⟩ := hlegal
      have hnd : (l ++ blocks).Nodup :=
        List.nodup_append'.mpr ⟨h.nodup, hnodup, fun b hl hb => hnew b hb hl⟩
      obtain ⟨q', hq', hrest⟩ := appendN_eq h hnd
      unfold call listCall
      dsimp only
      rw [hq']
      exact .ok _ hrest
  | prependN blocks =>
      obtain ⟨hnodup, hnew⟩ := hlegal
      have hnd : (blocks ++ l).Nodup :=
        List.nodup_append'.mpr ⟨hnodup, h.nodup, fun b hb hl => hnew b hb hl⟩
      obtain ⟨q', hq', hrest⟩ := prependN_eq h hnd
      unfold call listCall
      dsimp only
      rw [hq']
      exact .ok _ hrest

theorem popped_not_mem {l l' popped : List BlockId} {c : Call} (hl : l.Nodup)
    (h : listCall l c = .ok (popped, l')) {b : BlockId} (hb : b ∈ popped) : b ∉ l' := by
  cases c with
  | popleft =>
      cases l with
      | nil => cases h
      | cons a rest =>
          obtain ⟨rfl, rfl⟩ := Prod.mk.inj (Except.ok.inj h)
          rw [List.mem_singleton.mp hb]
          exact (List.nodup_cons.mp hl).1
  | popleftN n =>
      unfold listCall at h
      dsimp only at h
      split at h
      · obtain ⟨rfl, rfl⟩ := Prod.mk.inj (Except.ok.inj h)
        rw [← List.take_append_drop n l] at hl
        exact fun hdrop => (List.nodup_append'.mp hl).2.2 hb hdrop
      · cases h
  | remove a =>
      unfold listCall at h
      dsimp only at h
      split at h
      · obtain ⟨rfl, -⟩ := Prod.mk.inj (Except.ok.inj h)
        cases hb
      · cases h
  | append a =>
      obtain ⟨rfl, -⟩ := Prod.mk.inj (Except.ok.inj h)
      cases hb
  | appendN blocks =>
      obtain ⟨rfl, -⟩ := Prod.mk.inj (Except.ok.inj h)
      cases hb
  | prependN blocks =>
      obtain ⟨rfl, -⟩ := Prod.mk.inj (Except.ok.inj h)
      cases hb

/-- Both links of a block are cleared. -/
def Cleared (q : FreeKVCacheBlockQueue) (b : BlockId) : Prop :=
  q.links.prev (.block b) = none ∧ q.links.next (.block b) = none

/-- What the pointers spell out: forward from the fake head the list, backward from the fake
tail its reverse. -/
structure Spells (q : FreeKVCacheBlockQueue) (l : List BlockId) : Prop where
  nodup : l.Nodup
  forward : q.getAllFreeBlocks (l.length + 1) = some l
  backward : walkFrom ⟨q.links.next, q.links.prev⟩ (q.links.prev .tail) (l.length + 1) =
    some l.reverse
  count : q.numFreeBlocks = l.length
  cleared : ∀ b, b ∉ l → q.Cleared b

theorem Represents.spells {q : FreeKVCacheBlockQueue} {l : List BlockId} (h : Represents q l) :
    Spells q l where
  nodup := h.nodup
  forward := h.walk (Nat.lt_succ_self _)
  backward := h.walkBack (Nat.lt_succ_self _)
  count := h.count
  cleared := h.unlinked

def afterCalls (blocks : List BlockId) (calls : List Call) :
    List (Except PyError (List BlockId)) × FreeKVCacheBlockQueue :=
  run call (init blocks) calls

def listAfterCalls (blocks : List BlockId) (calls : List Call) :
    List (Except PyError (List BlockId)) × List BlockId :=
  run listCall blocks calls

theorem afterCalls_agree {blocks : List BlockId} (hblocks : blocks.Nodup) {calls : List Call}
    (hcalls : LegalRun listCall LegalCall blocks calls) :
    (afterCalls blocks calls).1 = (listAfterCalls blocks calls).1 ∧
      Represents (afterCalls blocks calls).2 (listAfterCalls blocks calls).2 := by
  have hstep : ∀ q l c, Represents q l → LegalCall l c →
      Agree Represents (call q c) (listCall l c) := fun _ _ _ h hlegal => call_agrees h hlegal
  exact run_refines hstep (represents_init hblocks) hcalls

theorem cleared_of_popped {q : FreeKVCacheBlockQueue} {l : List BlockId} {c : Call}
    (h : Represents q l) (hlegal : LegalCall l c) {popped : List BlockId}
    (hpopped : (perform call q c).1 = .ok popped) {b : BlockId} (hb : b ∈ popped) :
    (perform call q c).2.Cleared b := by
  obtain ⟨hreply, hafter⟩ := (call_agrees h hlegal).perform h
  rw [hreply] at hpopped
  apply hafter.unlinked
  unfold perform at hpopped ⊢
  cases hcall : listCall l c with
  | ok result =>
      obtain ⟨popped', l'⟩ := result
      rw [hcall] at hpopped
      obtain rfl := Except.ok.inj hpopped
      exact popped_not_mem h.nodup hcall hb
  | error e =>
      rw [hcall] at hpopped
      cases hpopped

end FreeKVCacheBlockQueue

/-! ### Freeing blocks -/

namespace BlockPool

open FreeKVCacheBlockQueue

variable {H : Type} {pool : BlockPool H}

/-- The blocks whose count falls to zero, each at the place where it is named last. -/
def fallen (pool : BlockPool H) (ordered : List BlockId) : List BlockId :=
  ordered.dedup.filter fun b =>
    (pool.blocks b).isNull = false ∧ (pool.blocks b).refCnt = ordered.count b

/-- Where the blocks go whose count falls to zero: with prefix caching those without a hash to
the front and the others to the back, and without it all of them to the back. -/
def afterFreeing (pool : BlockPool H) (free ordered : List BlockId) : List BlockId :=
  if pool.enableCaching then
    ((pool.fallen ordered).filter fun b => (pool.blocks b).blockHash.isNone) ++
      (free ++ (pool.fallen ordered).filter fun b => (pool.blocks b).blockHash.isSome)
  else free ++ pool.fallen ordered

def release (pool : BlockPool H) (b : BlockId) : BlockPool H :=
  pool.modifyBlock b fun block => block.withRefCnt (block.refCnt - 1)

theorem release_blocks (b c : BlockId) : (pool.release b).blocks c =
    (pool.blocks c).withRefCnt ((pool.blocks c).refCnt - if c = b then 1 else 0) := by
  unfold release
  rw [modifyBlock_blocks]
  split <;> rfl

theorem spentFirst_release (b : BlockId) : (pool.release b).spentFirst = pool.spentFirst := by
  funext c
  have hcaching : (pool.release b).enableCaching = pool.enableCaching := rfl
  simp [spentFirst, release_blocks, hcaching]

theorem fallen_cons {b : BlockId} {rest : List BlockId}
    (hcount : ∀ c, (b :: rest).count c ≤ (pool.blocks c).refCnt)
    (hnull : (pool.blocks b).isNull = false) :
    pool.fallen (b :: rest) =
      if (pool.blocks b).refCnt = 1 then b :: (pool.release b).fallen rest
      else (pool.release b).fallen rest := by
  have hb := hcount b
  rw [List.count_cons_self] at hb
  have hfilter : rest.dedup.filter (fun c => (pool.blocks c).isNull = false ∧
      (pool.blocks c).refCnt = (b :: rest).count c) = (pool.release b).fallen rest := by
    apply List.filter_congr
    intro c hc
    have hc' := hcount c
    rw [decide_eq_decide, release_blocks, KVCacheBlock.withRefCnt_isNull,
      KVCacheBlock.withRefCnt_refCnt]
    rw [List.count_cons] at hc' ⊢
    simp only [beq_iff_eq, eq_comm (a := b)] at hc' ⊢
    apply and_congr_right
    intro _
    omega
  unfold fallen at hfilter ⊢
  by_cases hmem : b ∈ rest
  · have hpos := List.count_pos_iff.mpr hmem
    rw [List.dedup_cons_of_mem hmem, hfilter, if_neg (by omega)]
  · have hzero := List.count_eq_zero.mpr hmem
    rw [List.dedup_cons_of_notMem hmem, List.filter_cons, hfilter, List.count_cons_self, hzero,
      hnull]
    simp

/-- The loop of `free_blocks` finds the blocks whose count falls to zero in their order. -/
theorem dropReferences_fallen (ordered : List BlockId)
    (hcount : ∀ b, ordered.count b ≤ (pool.blocks b).refCnt)
    (hnull : ∀ b ∈ ordered, (pool.blocks b).isNull = false) :
    ∃ pool' : BlockPool H, pool.dropReferences ordered = .ok
      ((pool.fallen ordered).filter pool.spentFirst,
        (pool.fallen ordered).filter fun b => !pool.spentFirst b, pool') := by
  induction ordered generalizing pool with
  | nil => exact ⟨pool, rfl⟩
  | cons b rest ih =>
      have hb := hcount b
      rw [List.count_cons_self] at hb
      have hcount' : ∀ c, rest.count c ≤ ((pool.release b).blocks c).refCnt := by
        intro c
        have hc := hcount c
        rw [List.count_cons] at hc
        rw [release_blocks, KVCacheBlock.withRefCnt_refCnt]
        simp only [beq_iff_eq, eq_comm (a := b)] at hc
        omega
      obtain ⟨pool', hok⟩ := ih hcount' fun c hc => by
        rw [release_blocks]
        exact hnull c (List.mem_cons_of_mem _ hc)
      have hbnull := hnull b List.mem_cons_self
      rw [spentFirst_release] at hok
      have hone : ((pool.release b).blocks b).refCnt = (pool.blocks b).refCnt - 1 := by
        rw [release_blocks, KVCacheBlock.withRefCnt_refCnt, if_pos rfl]
      have hbnull' : ((pool.release b).blocks b).isNull = false := by
        rw [release_blocks, KVCacheBlock.withRefCnt_isNull]
        exact hbnull
      have hspent : pool.spentFirst b = true ↔ ((pool.release b).blocks b).blockHash = none ∧
          (pool.release b).enableCaching = true := by
        rw [← spentFirst_release b]
        exact spentFirst_iff
      have hrelease : (pool.modifyBlock b fun block => block.withRefCnt (block.refCnt - 1)) =
          pool.release b := rfl
      have hne : (pool.blocks b).refCnt ≠ 0 := by omega
      refine ⟨pool', ?_⟩
      rw [fallen_cons hcount hbnull]
      by_cases hlast : (pool.blocks b).refCnt = 1
      · have hzero : ((pool.release b).blocks b).refCnt = 0 := by omega
        rw [if_pos hlast]
        cases hs : pool.spentFirst b
        · rw [hs] at hspent
          simp [dropReferences, hne, hrelease, hok, hzero, hbnull', ← hspent, hs]
        · rw [hs] at hspent
          simp [dropReferences, hne, hrelease, hok, hzero, hbnull', ← hspent, hs]
      · have hpos : ((pool.release b).blocks b).refCnt ≠ 0 := by omega
        rw [if_neg hlast]
        simp [dropReferences, hne, hrelease, hok, hpos]

theorem mem_fallen {ordered : List BlockId} {b : BlockId} : b ∈ pool.fallen ordered ↔
    b ∈ ordered ∧ (pool.blocks b).isNull = false ∧ (pool.blocks b).refCnt = ordered.count b := by
  unfold fallen
  rw [List.mem_filter, List.mem_dedup, decide_eq_true_eq]

theorem dedup_filter {p : BlockId → Bool} {l : List BlockId} :
    (l.filter p).dedup = l.dedup.filter p := by
  induction l with
  | nil => rfl
  | cons b rest ih =>
      by_cases hp : p b
      · rw [List.filter_cons_of_pos hp]
        by_cases hmem : b ∈ rest
        · rw [List.dedup_cons_of_mem hmem, ← ih]
          exact List.dedup_cons_of_mem (List.mem_filter.mpr ⟨hmem, hp⟩)
        · rw [List.dedup_cons_of_notMem hmem, List.filter_cons_of_pos hp, ← ih]
          exact List.dedup_cons_of_notMem fun h => hmem (List.mem_filter.mp h).1
      · rw [List.filter_cons_of_neg hp, ih, List.dedup_cons]
        split
        · rfl
        · rw [List.filter_cons_of_neg hp]

theorem fallen_filter {ordered : List BlockId} :
    pool.fallen (ordered.filter fun b => !(pool.blocks b).isNull) = pool.fallen ordered := by
  unfold fallen
  rw [dedup_filter, List.filter_filter]
  apply List.filter_congr
  intro b _
  cases hnull : (pool.blocks b).isNull with
  | true => simp
  | false =>
      rw [List.count_filter (by simp [hnull])]
      simp

theorem nodup_fallen {ordered : List BlockId} : (pool.fallen ordered).Nodup :=
  (List.nodup_dedup ordered).filter _

/-- With prefix caching the blocks that are spent first are those without a hash. -/
theorem requeue_fallen {free ordered : List BlockId} :
    pool.requeue free (pool.fallen ordered) = pool.afterFreeing free ordered := by
  unfold requeue afterFreeing
  cases hcaching : pool.enableCaching with
  | true =>
      have hfirst : pool.spentFirst = fun b => (pool.blocks b).blockHash.isNone := by
        funext b
        simp [spentFirst, hcaching]
      have hlast : (fun b => !pool.spentFirst b) =
          fun b => (pool.blocks b).blockHash.isSome := by
        funext b
        simp [spentFirst, hcaching]
      rw [hlast, hfirst]
      rfl
  | false =>
      have hfirst : pool.spentFirst = fun _ => false := by
        funext b
        simp [spentFirst, hcaching]
      rw [hfirst]
      simp

/-- What `free_blocks` does to the list that the queue spells out. -/
theorem freeBlocks_afterFreeing {free ordered : List BlockId}
    (hqueue : Represents pool.freeBlockQueue free)
    (hfree : ∀ b ∈ free, (pool.blocks b).refCnt = 0)
    (hcount : ∀ b, (pool.blocks b).isNull = false → ordered.count b ≤ (pool.blocks b).refCnt) :
    ∃ pool', pool.freeBlocks ordered = .ok pool' ∧
      Represents pool'.freeBlockQueue (pool.afterFreeing free ordered) ∧
      ∀ b, b ∈ pool.fallen ordered ↔
        0 < (pool.blocks b).refCnt ∧ (pool'.blocks b).refCnt = 0 := by
  set kept := ordered.filter fun b => !(pool.blocks b).isNull with hkept
  have hkeptCount : ∀ b, kept.count b = if (pool.blocks b).isNull then 0 else ordered.count b := by
    intro b
    cases hnull : (pool.blocks b).isNull with
    | true =>
        rw [List.count_eq_zero.mpr (by simp [hkept, hnull])]
        rfl
    | false =>
        rw [hkept, List.count_filter (by simp [hnull])]
        rfl
  have hle : ∀ b, kept.count b ≤ (pool.blocks b).refCnt := by
    intro b
    rw [hkeptCount]
    split
    · exact Nat.zero_le _
    · rename_i hnull
      exact hcount b (Bool.not_eq_true _ ▸ hnull)
  have hnull : ∀ b ∈ kept, (pool.blocks b).isNull = false := fun b hb => by
    simpa using (List.mem_filter.mp hb).2
  obtain ⟨released, pool', hok, hpool', hblocks, -⟩ := dropReferences_eq pool kept hle hnull
  obtain ⟨pool'', hok'⟩ := dropReferences_fallen kept hle hnull
  rw [hok', Except.ok.injEq, Prod.mk.injEq, Prod.mk.injEq] at hok
  obtain ⟨-, -, rfl⟩ := hok
  rw [fallen_filter] at hok'
  have hnew : ∀ b ∈ pool.fallen ordered, b ∉ free := by
    intro b hb hmem
    obtain ⟨hordered, -, heq⟩ := mem_fallen.mp hb
    rw [hfree b hmem] at heq
    exact List.count_eq_zero.mp heq.symm hordered
  have hnodup := nodup_requeue pool hqueue.nodup nodup_fallen hnew
  obtain ⟨q₁, hq₁, hrep₁⟩ := prependN_eq hqueue (by
    rw [requeue, ← List.append_assoc] at hnodup
    exact (List.nodup_append.mp hnodup).1)
  obtain ⟨q₂, hq₂, hrep₂⟩ := appendN_eq hrep₁ (by
    rw [List.append_assoc]
    exact hnodup)
  rw [List.append_assoc, ← requeue, requeue_fallen] at hrep₂
  have hqueue' : pool''.freeBlockQueue = pool.freeBlockQueue := by rw [hpool']
  refine ⟨{ pool'' with freeBlockQueue := q₂ }, ?_, hrep₂, fun b => ?_⟩
  · simp [freeBlocks, ← hkept, hok', hqueue', hq₁, hq₂]
  · rw [mem_fallen]
    show _ ↔ 0 < (pool.blocks b).refCnt ∧ (pool''.blocks b).refCnt = 0
    rw [hblocks, KVCacheBlock.withRefCnt_refCnt, hkeptCount]
    cases hb : (pool.blocks b).isNull with
    | true => simp; omega
    | false =>
        have := hcount b hb
        have hpos : b ∈ ordered ↔ 0 < ordered.count b := List.count_pos_iff.symm
        rw [hpos]
        simp only [Bool.false_eq_true, if_false, true_and]
        omega

/-- The queue is its list, whatever legal calls are made of it, and freeing blocks puts those
whose count falls to zero where `afterFreeing` says. -/
theorem freeQueue_refines {blocks : List BlockId} (hblocks : blocks.Nodup) {calls : List Call}
    (hcalls : Refinement.LegalRun listCall LegalCall blocks calls) :
    (afterCalls blocks calls).1 = (listAfterCalls blocks calls).1 ∧
      Spells (afterCalls blocks calls).2 (listAfterCalls blocks calls).2 ∧
      (∀ (c : Call) (popped : List BlockId), LegalCall (listAfterCalls blocks calls).2 c →
        (Refinement.perform call (afterCalls blocks calls).2 c).1 = .ok popped →
        ∀ b ∈ popped, (Refinement.perform call (afterCalls blocks calls).2 c).2.Cleared b) ∧
      ∀ (pool : BlockPool H) (ordered : List BlockId),
        pool.freeBlockQueue = (afterCalls blocks calls).2 →
        (∀ b ∈ (listAfterCalls blocks calls).2, (pool.blocks b).refCnt = 0) →
        (∀ b, (pool.blocks b).isNull = false → ordered.count b ≤ (pool.blocks b).refCnt) →
        ∃ pool', pool.freeBlocks ordered = .ok pool' ∧
          Spells pool'.freeBlockQueue
            (pool.afterFreeing (listAfterCalls blocks calls).2 ordered) ∧
          (pool.fallen ordered).Sublist ordered ∧
          ∀ b, b ∈ pool.fallen ordered ↔
            0 < (pool.blocks b).refCnt ∧ (pool'.blocks b).refCnt = 0 := by
  obtain ⟨hreplies, hqueue⟩ := afterCalls_agree hblocks hcalls
  refine ⟨hreplies, hqueue.spells, fun c popped hlegal hpopped b hb =>
    cleared_of_popped hqueue hlegal hpopped hb, fun pool ordered hpool hfree hcount => ?_⟩
  obtain ⟨pool', hok, hafter, hfallen⟩ :=
    freeBlocks_afterFreeing (hpool ▸ hqueue) hfree hcount
  exact ⟨pool', hok, hafter.spells, List.filter_sublist.trans (List.dedup_sublist ordered),
    hfallen⟩

/-- A pool with prefix caching whose blocks 0 and 1 are in use, 1 with a hash, and whose queue
is `[2]`. -/
def twoInUse : BlockPool ℕ where
  numGpuBlocks := 3
  enableCaching := true
  blocks := fun b =>
    if b = 0 then ⟨1, none, false⟩ else if b = 1 then ⟨1, some (7, 0), false⟩ else ⟨0, none, false⟩
  nullBlock := none
  freeBlockQueue := (afterCalls [0, 1, 2] [.popleftN 2, .remove 0]).2
  cachedBlockHashToBlock := .empty
  numEvictedBlocks := 0

/-- Two blocks are popped, and the removal of one of them raises. They are freed in the order
1, 0: block 1 has a hash, and 0 has none. -/
theorem freeQueue_refines_two :
    (afterCalls [0, 1, 2] [.popleftN 2, .remove 0]).1 = [.ok [0, 1], .error (notFree 0)] ∧
      ∃ pool', twoInUse.freeBlocks [1, 0] = .ok pool' ∧
        Spells pool'.freeBlockQueue [0, 2, 1] := by
  obtain ⟨hreplies, -, -, hfree⟩ := @freeQueue_refines ℕ [0, 1, 2] (by decide)
    [.popleftN 2, .remove 0] ⟨trivial, trivial, trivial⟩
  obtain ⟨pool', hok, hspells, -⟩ := hfree twoInUse [1, 0] rfl (by decide) (by
    intro b _
    by_cases h0 : b = 0
    · subst h0
      decide
    · by_cases h1 : b = 1
      · subst h1
        decide
      · rw [List.count_eq_zero.mpr (by simp [h0, h1])]
        exact Nat.zero_le _)
  exact ⟨hreplies, pool', hok, hspells⟩

/-- Without prefix caching a block that has no hash goes to the back of the queue. -/
theorem freed_to_back_without_caching : ∃ pool pool₁ pool₂ : BlockPool ℕ,
    BlockPool.init 2 false false false = .ok pool ∧ pool.getNewBlocks 1 = .ok ([0], pool₁) ∧
      (pool₁.blocks 0).blockHash = none ∧ pool₁.freeBlocks [0] = .ok pool₂ ∧
      pool₂.freeBlockQueue.getAllFreeBlocks 3 = some [1, 0] :=
  ⟨_, _, _, rfl, rfl, rfl, rfl, rfl⟩

end BlockPool

end Pvllm
