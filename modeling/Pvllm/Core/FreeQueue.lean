import Pvllm.Basic
import Pvllm.Library.Linked
import Mathlib.Tactic.Linarith

/-!
The queue of free blocks.

`FreeKVCacheBlockQueue` is an intrusive doubly linked list: two sentinel
nodes, and the link fields of the blocks themselves. Here the link fields of
all nodes are the two maps of `Links`, and an operation is the sequence of
assignments of the source to them. `Represents q l` says which list of block
ids the pointers spell out, and each operation is proved to be the list
operation it stands for: everything above this module speaks about the list.
-/

namespace Pvllm

open Linked

/-- A node of the queue: one of the two fake sentinels, or a block. -/
inductive FreeNode where
  | head
  | tail
  | block (id : BlockId)
deriving Repr, DecidableEq

/-- The counter and the link fields. -/
structure FreeKVCacheBlockQueue where
  numFreeBlocks : ℕ
  links : Links FreeNode

namespace FreeKVCacheBlockQueue

/-! ### The operations -/

/-- The queue over `blocks`, in their order. -/
def init (blocks : List BlockId) : FreeKVCacheBlockQueue where
  numFreeBlocks := blocks.length
  links := Links.linkThrough ⟨fun _ => none, fun _ => none⟩ .head (blocks.map .block) .tail

/-- Pop the least recently freed block. A sentinel is no block, and the head is not its own
successor. -/
def popleft (q : FreeKVCacheBlockQueue) : Except PyError (BlockId × FreeKVCacheBlockQueue) :=
  match q.links.next .head with
  | some (.block b) =>
    match q.links.next (.block b) with
    | some n => .ok (b, ⟨q.numFreeBlocks - 1, (q.links.link .head n).clear (.block b)⟩)
    | none => .error (.runtimeError (s!"block {b} is in the free list without a next link; "
        ++ "the list has been corrupted"))
  | _ =>
    if q.numFreeBlocks = 0 then .error (.valueError "No free blocks available")
    else .error (.assertionError
      s!"num_free_blocks ({q.numFreeBlocks}) is out of sync with the free list")

/-- The loop of `popleft_n`: take the current node, step, clear its links.
A sentinel is no block; with the counter in step with the list the loop ends
before it reaches one. -/
def popWalk (L : Links FreeNode) (curr : Option FreeNode) :
    ℕ → Except PyError (List BlockId × Links FreeNode × Option FreeNode)
  | 0 => .ok ([], L, curr)
  | n + 1 =>
    match curr with
    | some (.block b) =>
      match popWalk (L.clear (.block b)) (L.next (.block b)) n with
      | .ok (popped, L', curr') => .ok (b :: popped, L', curr')
      | .error e => .error e
    | _ => .error (.assertionError "curr_block is not None")

/-- Pop the first `n` free blocks, walking the list once. -/
def popleftN (q : FreeKVCacheBlockQueue) (n : ℕ) :
    Except PyError (List BlockId × FreeKVCacheBlockQueue) :=
  if n = 0 then
    .ok ([], q)
  else if q.numFreeBlocks < n then
    .error (.assertionError
      s!"asked for {n} free blocks but only {q.numFreeBlocks} are free")
  else
    match popWalk q.links (q.links.next .head) n with
    | .ok (popped, L, some curr) => .ok (popped, ⟨q.numFreeBlocks - n, L.link .head curr⟩)
    | .ok (popped, L, none) => .ok (popped, ⟨q.numFreeBlocks - n, L⟩)
    | .error e => .error e

def remove (q : FreeKVCacheBlockQueue) (b : BlockId) : Except PyError FreeKVCacheBlockQueue :=
  match q.links.prev (.block b), q.links.next (.block b) with
  | some p, some n => .ok ⟨q.numFreeBlocks - 1, (q.links.link p n).clear (.block b)⟩
  | _, _ => .error (.runtimeError (s!"remove() called on block {b}, which is not in the free "
      ++ "list; its ref_cnt accounting is wrong"))

def append (q : FreeKVCacheBlockQueue) (b : BlockId) : Except PyError FreeKVCacheBlockQueue :=
  match q.links.prev .tail with
  | some last =>
    .ok ⟨q.numFreeBlocks + 1, (q.links.link last (.block b)).link (.block b) .tail⟩
  | none => .error (.runtimeError "free list tail sentinel lost its prev link")

def appendN (q : FreeKVCacheBlockQueue) (blocks : List BlockId) :
    Except PyError FreeKVCacheBlockQueue :=
  if blocks = [] then
    .ok q
  else
    match q.links.prev .tail with
    | some last =>
      .ok ⟨q.numFreeBlocks + blocks.length, q.links.linkThrough last (blocks.map .block) .tail⟩
    | none => .error (.assertionError "free list tail sentinel lost its prev link")

def prependN (q : FreeKVCacheBlockQueue) (blocks : List BlockId) :
    Except PyError FreeKVCacheBlockQueue :=
  if blocks = [] then
    .ok q
  else
    match q.links.next .head with
    | some first =>
      .ok ⟨q.numFreeBlocks + blocks.length, q.links.linkThrough .head (blocks.map .block) first⟩
    | none => .error (.assertionError "free list head sentinel lost its next link")

/-- The walk of `get_all_free_blocks` from a node. -/
def walkFrom (L : Links FreeNode) (curr : Option FreeNode) : ℕ → Option (List BlockId)
  | 0 => none
  | fuel + 1 =>
    match curr with
    | some (.block b) => (walkFrom L (L.next (.block b)) fuel).map (b :: ·)
    | _ => some []

/-- Walk the queue front to back; `none` when the walk needs more steps than
`fuel` allows. -/
def getAllFreeBlocks (q : FreeKVCacheBlockQueue) (fuel : ℕ) : Option (List BlockId) :=
  walkFrom q.links (q.links.next .head) fuel

/-! ### The list a queue stands for -/

/-- The pointers of `q` spell out `l`, the counter is its length, and a block
outside of it has both links cleared. -/
structure Represents (q : FreeKVCacheBlockQueue) (l : List BlockId) : Prop where
  threaded : Threaded q.links .head .tail (l.map .block)
  nodup : l.Nodup
  count : q.numFreeBlocks = l.length
  unlinked : ∀ b, b ∉ l → q.links.prev (.block b) = none ∧ q.links.next (.block b) = none

theorem block_injective : Function.Injective FreeNode.block := fun _ _ h => by injection h

@[simp] theorem block_mem_map {b : BlockId} {l : List BlockId} :
    FreeNode.block b ∈ l.map FreeNode.block ↔ b ∈ l :=
  List.mem_map_of_injective block_injective

@[simp] theorem head_notMem_map (l : List BlockId) : FreeNode.head ∉ l.map FreeNode.block := by
  simp

@[simp] theorem tail_notMem_map (l : List BlockId) : FreeNode.tail ∉ l.map FreeNode.block := by
  simp

theorem nodup_nodes {l : List BlockId} (h : l.Nodup) :
    (FreeNode.head :: (l.map FreeNode.block ++ [FreeNode.tail])).Nodup := by
  have hmap := h.map block_injective
  refine List.nodup_cons.mpr ⟨by simp, List.nodup_append.mpr ⟨hmap, by simp, ?_⟩⟩
  rintro x hx y hy rfl
  rw [List.mem_singleton.mp hy] at hx
  exact tail_notMem_map l hx

theorem walkFrom_eq {L : Links FreeNode} {a z : FreeNode} {l : List BlockId} {fuel : ℕ}
    (hz : ∀ b, z ≠ .block b) (hfuel : l.length < fuel)
    (hseg : Segment L.next a (l.map .block) z) : walkFrom L (L.next a) fuel = some l := by
  induction l generalizing a fuel with
  | nil =>
      obtain ⟨n, rfl⟩ := Nat.exists_eq_succ_of_ne_zero (Nat.ne_of_gt hfuel)
      rw [List.map_nil, segment_nil] at hseg
      rw [hseg]
      cases z with
      | head => rfl
      | tail => rfl
      | block b => exact absurd rfl (hz b)
  | cons b l ih =>
      obtain ⟨n, rfl⟩ := Nat.exists_eq_succ_of_ne_zero (Nat.ne_of_gt (Nat.zero_lt_of_lt hfuel))
      rw [List.map_cons, segment_cons] at hseg
      have hrest := ih (by simpa using hfuel) hseg.2
      simp [walkFrom, hseg.1, hrest]

/-- The walk sees exactly the list, given one step more than its length. -/
theorem Represents.walk {q : FreeKVCacheBlockQueue} {l : List BlockId} (h : Represents q l)
    {fuel : ℕ} (hfuel : l.length < fuel) : q.getAllFreeBlocks fuel = some l :=
  walkFrom_eq (fun b hb => (by cases hb)) hfuel h.threaded.forward

/-- The same walk from the fake tail, along the other links, sees the reverse. -/
theorem Represents.walkBack {q : FreeKVCacheBlockQueue} {l : List BlockId} (h : Represents q l)
    {fuel : ℕ} (hfuel : l.length < fuel) :
    walkFrom ⟨q.links.next, q.links.prev⟩ (q.links.prev .tail) fuel = some l.reverse := by
  have hseg := h.threaded.backward
  rw [← List.map_reverse] at hseg
  exact @walkFrom_eq ⟨q.links.next, q.links.prev⟩ .tail .head _ _ (fun b hb => (by cases hb))
    (by rwa [List.length_reverse]) hseg

theorem represents_init {blocks : List BlockId} (h : blocks.Nodup) :
    Represents (init blocks) blocks where
  threaded := by
    have hnd := nodup_nodes h
    refine ⟨linkThrough_forward _ ?_, ?_⟩
    · rw [← List.cons_append] at hnd
      exact (List.nodup_append.mp hnd).1
    · exact linkThrough_backward _ (List.nodup_cons.mp hnd).2
  nodup := h
  count := rfl
  unlinked := by
    intro b hb
    have hb' : FreeNode.block b ∉ blocks.map FreeNode.block := by simpa using hb
    refine ⟨?_, ?_⟩
    · exact linkThrough_prev_of_notMem _ (by simpa using hb)
    · exact linkThrough_next_of_notMem _ (by simpa using hb)

/-! ### Popping -/

/-- The links after the nodes of `l` have been cleared in turn. -/
def clearAll (L : Links FreeNode) (l : List BlockId) : Links FreeNode :=
  l.foldl (fun L b => L.clear (.block b)) L

theorem clearAll_next (L : Links FreeNode) (l : List BlockId) (x : FreeNode) :
    (clearAll L l).next x = if x ∈ l.map FreeNode.block then none else L.next x := by
  induction l generalizing L with
  | nil => rfl
  | cons b l ih =>
      rw [clearAll, List.foldl_cons, ← clearAll, ih]
      by_cases hx : x = .block b
      · simp [hx, Links.clear]
      · simp [hx, Links.clear]

theorem clearAll_prev (L : Links FreeNode) (l : List BlockId) (x : FreeNode) :
    (clearAll L l).prev x = if x ∈ l.map FreeNode.block then none else L.prev x := by
  induction l generalizing L with
  | nil => rfl
  | cons b l ih =>
      rw [clearAll, List.foldl_cons, ← clearAll, ih]
      by_cases hx : x = .block b
      · simp [hx, Links.clear]
      · simp [hx, Links.clear]

/-- The loop pops the first nodes of a segment and clears them. The links it
works on have lost those of the nodes popped before, so they are compared to
the links `L₀` it started from. -/
theorem popWalk_eq {L₀ L : Links FreeNode} {a : FreeNode} {p rest : List BlockId}
    (hseg : Segment L₀.next a ((p ++ rest).map .block) .tail) (hnd : (p ++ rest).Nodup)
    (heq : ∀ b ∈ p ++ rest, L.next (.block b) = L₀.next (.block b)) :
    popWalk L (L₀.next a) p.length =
      .ok (p, clearAll L p, some (firstOf .tail (rest.map .block))) := by
  induction p generalizing a L with
  | nil => simpa [popWalk, clearAll] using hseg.next_first
  | cons b p ih =>
      rw [List.cons_append, List.map_cons, segment_cons] at hseg
      rw [List.cons_append, List.nodup_cons] at hnd
      have hrest := ih (L := L.clear (.block b)) hseg.2 hnd.2 fun c hc => by
        have hne : c ≠ b := fun e => hnd.1 (e ▸ hc)
        rw [← heq c (List.mem_cons_of_mem _ hc)]
        exact Function.update_of_ne (fun e => hne (block_injective e)) ..
      rw [List.length_cons, hseg.1]
      simp only [popWalk, heq b List.mem_cons_self, hrest, clearAll, List.foldl_cons]

theorem popleftN_append {q : FreeKVCacheBlockQueue} {p rest : List BlockId}
    (h : Represents q (p ++ rest)) :
    ∃ q', q.popleftN p.length = .ok (p, q') ∧ Represents q' rest := by
  by_cases hnil : p = []
  · subst hnil
    exact ⟨q, by simp [popleftN], h⟩
  have hnd := List.nodup_append.mp h.nodup
  have hwalk := popWalk_eq (L := q.links) h.threaded.forward h.nodup fun _ _ => rfl
  set first := firstOf FreeNode.tail (rest.map .block) with hfirst
  refine ⟨⟨q.numFreeBlocks - p.length, (clearAll q.links p).link .head first⟩, ?_, ?_⟩
  · have hle : ¬ q.numFreeBlocks < p.length := by
      rw [h.count, List.length_append]
      omega
    simp [popleftN, hnil, hle, hwalk]
  have hcut := Threaded.splice [] (p.map FreeNode.block)
    (rest.map FreeNode.block) [] (by simpa using h.threaded)
    (by simpa using nodup_nodes hnd.2.1)
  have hkept : ∀ x ∈ FreeNode.head :: (rest.map .block ++ [FreeNode.tail]),
      x ∉ p.map FreeNode.block := by
    intro x hx hx'
    obtain ⟨b, hb, rfl⟩ := List.mem_map.mp hx'
    exact hnd.2.2 b hb b (by simpa using hx) rfl
  have hnext : ∀ x ∈ FreeNode.head :: rest.map FreeNode.block,
      ((clearAll q.links p).link .head first).next x = (q.links.link .head first).next x := by
    intro x hx
    have hx' : x ∉ p.map FreeNode.block := by
      rcases List.mem_cons.mp hx with rfl | hx
      · exact hkept _ List.mem_cons_self
      · exact hkept x (List.mem_cons_of_mem _ (List.mem_append_left _ hx))
    by_cases hhead : x = .head
    · simp [Links.link, hhead]
    · simp only [Links.link, Function.update_of_ne hhead, clearAll_next, if_neg hx']
  have hprev : ∀ x ∈ FreeNode.tail :: (rest.map FreeNode.block).reverse,
      ((clearAll q.links p).link .head first).prev x = (q.links.link .head first).prev x := by
    intro x hx
    have hx' : x ∉ p.map FreeNode.block := by
      rcases List.mem_cons.mp hx with rfl | hx
      · exact hkept _ (by simp)
      · exact hkept x (List.mem_cons_of_mem _ (List.mem_append_left _ (List.mem_reverse.mp hx)))
    by_cases hlast : x = first
    · simp [Links.link, hlast]
    · simp only [Links.link, Function.update_of_ne hlast, clearAll_prev, if_neg hx']
  refine ⟨⟨hcut.forward.congr hnext, hcut.backward.congr hprev⟩, hnd.2.1, ?_, ?_⟩
  · simp [h.count]
  · intro b hb
    have hbfirst : FreeNode.block b ≠ first := by
      intro e
      have hmem := firstOf_mem FreeNode.tail (rest.map FreeNode.block)
      rw [← hfirst, ← e] at hmem
      exact hb (by simpa using hmem)
    have hcleared : (clearAll q.links p).prev (.block b) = none ∧
        (clearAll q.links p).next (.block b) = none := by
      rw [clearAll_prev, clearAll_next]
      by_cases hp : b ∈ p
      · simp [hp]
      · simpa [hp] using h.unlinked b (by simp [hp, hb])
    simpa [Links.link, hbfirst] using hcleared

theorem popleftN_eq {q : FreeKVCacheBlockQueue} {l : List BlockId} (h : Represents q l) {n : ℕ}
    (hn : n ≤ l.length) :
    ∃ q', q.popleftN n = .ok (l.take n, q') ∧ Represents q' (l.drop n) := by
  have h' : Represents q (l.take n ++ l.drop n) := by rwa [List.take_append_drop]
  simpa [Nat.min_eq_left hn] using popleftN_append h'

/-! ### Removing -/

theorem remove_eq {q : FreeKVCacheBlockQueue} {l : List BlockId} (h : Represents q l)
    {b : BlockId} (hb : b ∈ l) :
    ∃ q', q.remove b = .ok q' ∧ Represents q' (l.erase b) := by
  obtain ⟨l₁, l₂, rfl⟩ := List.append_of_mem hb
  have hnd := h.nodup
  have hb₁ : b ∉ l₁ := fun hm =>
    (List.nodup_append.mp hnd).2.2 b hm b List.mem_cons_self rfl
  have hb₂ : b ∉ l₂ := (List.nodup_cons.mp (List.nodup_append.mp hnd).2.1).1
  have herase : (l₁ ++ b :: l₂).erase b = l₁ ++ l₂ := by
    rw [List.erase_append_right _ hb₁, List.erase_cons_head]
  have hkept : (l₁ ++ l₂).Nodup := herase ▸ hnd.erase b
  have hthread := h.threaded
  rw [List.map_append, List.map_cons] at hthread
  obtain ⟨hprev, hnext⟩ := hthread.neighbours
  have hcut := Threaded.splice _ [FreeNode.block b] _ []
    (by simpa using hthread) (by simpa using nodup_nodes hkept)
  rw [List.append_nil] at hcut
  set p := lastOf FreeNode.head (l₁.map .block) with hp
  set n := firstOf FreeNode.tail (l₂.map .block) with hn
  have hpb : p ≠ .block b := by
    intro e
    have hmem := lastOf_mem FreeNode.head (l₁.map FreeNode.block)
    rw [← hp, e] at hmem
    exact hb₁ (by simpa using hmem)
  have hnb : n ≠ .block b := by
    intro e
    have hmem := firstOf_mem FreeNode.tail (l₂.map FreeNode.block)
    rw [← hn, e] at hmem
    exact hb₂ (by simpa using hmem)
  -- only the links of the block itself are cleared
  have hkeep : ∀ x : FreeNode, x ≠ .block b →
      ((q.links.link p n).clear (.block b)).next x = (q.links.link p n).next x ∧
      ((q.links.link p n).clear (.block b)).prev x = (q.links.link p n).prev x := by
    intro x hx
    exact ⟨Function.update_of_ne hx .., Function.update_of_ne hx ..⟩
  refine ⟨⟨q.numFreeBlocks - 1, (q.links.link p n).clear (.block b)⟩, ?_, ?_⟩
  · simp [remove, hprev, hnext]
  rw [herase]
  refine ⟨⟨?_, ?_⟩, hkept, ?_, ?_⟩
  · rw [List.map_append]
    refine hcut.forward.congr fun x hx => (hkeep x ?_).1
    rintro rfl
    have : b ∈ l₁ ++ l₂ := by simpa using hx
    simp [hb₁, hb₂] at this
  · rw [List.map_append]
    refine hcut.backward.congr fun x hx => (hkeep x ?_).2
    rintro rfl
    have : b ∈ l₁ ++ l₂ := by simpa [or_comm] using hx
    simp [hb₁, hb₂] at this
  · have hcount := h.count
    simp only [List.length_append, List.length_cons] at hcount ⊢
    omega
  · intro c hc
    by_cases hcb : c = b
    · simp [hcb, Links.clear]
    · -- a block out of the list is no neighbour of the one that goes
      have hcne : FreeNode.block c ≠ .block b := fun e => hcb (block_injective e)
      have hcl : c ∉ l₁ ++ b :: l₂ := by simpa [hcb] using hc
      have hcp : FreeNode.block c ≠ p := by
        intro e
        have hmem := lastOf_mem FreeNode.head (l₁.map FreeNode.block)
        rw [← hp, ← e] at hmem
        exact hc (List.mem_append_left _ (by simpa using hmem))
      have hcn : FreeNode.block c ≠ n := by
        intro e
        have hmem := firstOf_mem FreeNode.tail (l₂.map FreeNode.block)
        rw [← hn, ← e] at hmem
        exact hc (List.mem_append_right _ (by simpa using hmem))
      have hold := h.unlinked c hcl
      rw [(hkeep _ hcne).1, (hkeep _ hcne).2]
      simpa [Links.link, hcp, hcn] using hold

/-- Popping one block is removing the first. -/
theorem popleft_eq {q : FreeKVCacheBlockQueue} {b : BlockId} {l : List BlockId}
    (h : Represents q (b :: l)) : ∃ q', q.popleft = .ok (b, q') ∧ Represents q' l := by
  have hthread := h.threaded
  rw [List.map_cons] at hthread
  have hhead : q.links.next .head = some (.block b) := hthread.next_head
  obtain ⟨hprev, hnext⟩ :=
    @Threaded.neighbours _ _ _ _ _ [] _ hthread
  obtain ⟨q', hq', hrest⟩ := remove_eq h List.mem_cons_self
  rw [List.erase_cons_head] at hrest
  refine ⟨q', ?_, hrest⟩
  rw [remove, hprev, hnext, Except.ok.injEq] at hq'
  simp only [popleft, hhead, hnext, ← hq']
  rfl

theorem popleft_nil {q : FreeKVCacheBlockQueue} (h : Represents q []) :
    q.popleft = .error (.valueError "No free blocks available") := by
  have hhead : q.links.next .head = some .tail := h.threaded.next_head
  have hcount : q.numFreeBlocks = 0 := h.count
  simp [popleft, hhead, hcount]

theorem popleftN_error {q : FreeKVCacheBlockQueue} {l : List BlockId} (h : Represents q l) {n : ℕ}
    (hn : l.length < n) : q.popleftN n = .error (.assertionError
      s!"asked for {n} free blocks but only {l.length} are free") := by
  have hzero : n ≠ 0 := Nat.ne_of_gt (Nat.zero_lt_of_lt hn)
  rw [popleftN, if_neg hzero, h.count, if_pos hn]

/-- What `remove` says of a block that is not in the queue. -/
def notFree (b : BlockId) : PyError := .runtimeError
  (s!"remove() called on block {b}, which is not in the free "
    ++ "list; its ref_cnt accounting is wrong")

theorem remove_error {q : FreeKVCacheBlockQueue} {l : List BlockId} (h : Represents q l)
    {b : BlockId} (hb : b ∉ l) : q.remove b = .error (notFree b) := by
  rw [remove, (h.unlinked b hb).1]
  rfl

/-! ### Adding at either end -/

theorem appendN_eq {q : FreeKVCacheBlockQueue} {l blocks : List BlockId} (h : Represents q l)
    (hnd : (l ++ blocks).Nodup) :
    ∃ q', q.appendN blocks = .ok q' ∧ Represents q' (l ++ blocks) := by
  by_cases hnil : blocks = []
  · exact ⟨q, by simp [appendN, hnil], by simpa [hnil] using h⟩
  have hsplice := Threaded.splice (l.map FreeNode.block) [] []
    (blocks.map FreeNode.block) (by simpa using h.threaded)
    (by simpa [← List.map_append] using nodup_nodes hnd)
  rw [List.append_nil, ← List.map_append] at hsplice
  refine ⟨⟨q.numFreeBlocks + blocks.length, _⟩, ?_, hsplice, hnd, ?_, ?_⟩
  · simp [appendN, hnil, h.threaded.prev_tail, firstOf]
  · simp [h.count]
  · intro b hb
    rw [List.mem_append, not_or] at hb
    have hlast : FreeNode.block b ≠ lastOf .head (l.map .block) := by
      intro e
      have hmem := lastOf_mem FreeNode.head (l.map FreeNode.block)
      rw [← e] at hmem
      exact hb.1 (by simpa using hmem)
    rw [linkThrough_prev_of_notMem _ (by simpa [firstOf] using hb.2),
      linkThrough_next_of_notMem _ (by simpa [hlast] using hb.2)]
    exact h.unlinked b hb.1

/-- Appending one block is appending a list of one. -/
theorem append_eq {q : FreeKVCacheBlockQueue} {l : List BlockId} (h : Represents q l)
    {b : BlockId} (hb : b ∉ l) :
    ∃ q', q.append b = .ok q' ∧ Represents q' (l ++ [b]) := by
  have hnd : (l ++ [b]).Nodup := List.nodup_append.mpr ⟨h.nodup, List.nodup_singleton b,
    fun x hx y hy => by
      rw [List.mem_singleton.mp hy]
      rintro rfl
      exact hb hx⟩
  obtain ⟨q', hq', hrep⟩ := appendN_eq h hnd
  refine ⟨q', ?_, hrep⟩
  rw [appendN, if_neg (List.cons_ne_nil b []), h.threaded.prev_tail] at hq'
  rw [append, h.threaded.prev_tail]
  exact hq'

theorem prependN_eq {q : FreeKVCacheBlockQueue} {l blocks : List BlockId} (h : Represents q l)
    (hnd : (blocks ++ l).Nodup) :
    ∃ q', q.prependN blocks = .ok q' ∧ Represents q' (blocks ++ l) := by
  by_cases hnil : blocks = []
  · exact ⟨q, by simp [prependN, hnil], by simpa [hnil] using h⟩
  have hsplice := Threaded.splice [] [] (l.map FreeNode.block)
    (blocks.map FreeNode.block) (by simpa using h.threaded)
    (by simpa [← List.map_append] using nodup_nodes hnd)
  rw [List.nil_append, ← List.map_append] at hsplice
  refine ⟨⟨q.numFreeBlocks + blocks.length, _⟩, ?_, hsplice, hnd, ?_, ?_⟩
  · simp [prependN, hnil, h.threaded.next_head, lastOf]
  · simp [h.count, Nat.add_comm]
  · intro b hb
    rw [List.mem_append, not_or] at hb
    have hfirst : FreeNode.block b ≠ firstOf .tail (l.map .block) := by
      intro e
      have hmem := firstOf_mem FreeNode.tail (l.map FreeNode.block)
      rw [← e] at hmem
      exact hb.2 (by simpa using hmem)
    rw [linkThrough_prev_of_notMem _ (by simpa [hfirst] using hb.1),
      linkThrough_next_of_notMem _ (by simpa [lastOf] using hb.1)]
    exact h.unlinked b hb.2

end FreeKVCacheBlockQueue

end Pvllm
