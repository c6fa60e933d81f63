import Mathlib.Data.List.Nodup
import Mathlib.Logic.Function.Basic

/-!
Doubly linked lists as pairs of partial link maps.

A list lives in two maps, `next` and `prev`, between a head node and a tail
node that are not part of it. `Segment next a l z` says that following `next`
from `a` visits `l` in order and then arrives at `z`; a list is *threaded*
when both directions are such segments. Every mutation the code below
performs is one of two shapes: a run of nodes is linked in between two
neighbours, or a run is bypassed by linking its two neighbours directly.
Both are `linkThrough`, with and without nodes in the middle, and
`Threaded.splice` says what it does to the list.
-/

namespace Pvllm.Linked

variable {ν : Type*}

/-! ### Segments -/

/-- Following `next` from `a` visits `l` and then arrives at `z`. -/
def Segment (next : ν → Option ν) (a : ν) : List ν → ν → Prop
  | [], z => next a = some z
  | b :: l, z => next a = some b ∧ Segment next b l z

/-- The last node of `a :: l`. -/
def lastOf (a : ν) : List ν → ν
  | [] => a
  | b :: l => lastOf b l

/-- The first node of `l ++ [z]`. -/
def firstOf (z : ν) : List ν → ν
  | [] => z
  | b :: _ => b

@[simp] theorem segment_nil (next : ν → Option ν) (a z : ν) :
    Segment next a [] z ↔ next a = some z := Iff.rfl

@[simp] theorem segment_cons (next : ν → Option ν) (a b z : ν) (l : List ν) :
    Segment next a (b :: l) z ↔ next a = some b ∧ Segment next b l z := Iff.rfl

theorem segment_append_cons (next : ν → Option ν) (a b z : ν) (l₁ l₂ : List ν) :
    Segment next a (l₁ ++ b :: l₂) z ↔ Segment next a l₁ b ∧ Segment next b l₂ z := by
  induction l₁ generalizing a with
  | nil => simp
  | cons c l₁ ih => simp [ih, and_assoc]

theorem segment_append (next : ν → Option ν) (a z : ν) (l₁ l₂ : List ν) :
    Segment next a (l₁ ++ l₂) z ↔
      Segment next a l₁ (firstOf z l₂) ∧ Segment next (lastOf a l₁) l₂ z := by
  induction l₁ generalizing a with
  | nil =>
      cases l₂ with
      | nil => simp [firstOf, lastOf]
      | cons b l₂ => simp [firstOf, lastOf]
  | cons c l₁ ih => simp [ih, lastOf, and_assoc]

/-- A segment depends on the links of its nodes only. -/
theorem Segment.congr {next next' : ν → Option ν} {a z : ν} {l : List ν}
    (h : Segment next a l z) (heq : ∀ x ∈ a :: l, next' x = next x) : Segment next' a l z := by
  induction l generalizing a with
  | nil => exact (heq a (by simp)).trans h
  | cons b l ih =>
      exact ⟨(heq a (by simp)).trans h.1, ih h.2 fun x hx => heq x (List.mem_cons_of_mem _ hx)⟩

theorem lastOf_mem (a : ν) (l : List ν) : lastOf a l ∈ a :: l := by
  induction l generalizing a with
  | nil => simp [lastOf]
  | cons b l ih => exact List.mem_cons_of_mem _ (ih b)

theorem firstOf_mem (z : ν) (l : List ν) : firstOf z l ∈ l ++ [z] := by
  cases l <;> simp [firstOf]

/-- The link of the last node is the only one that says where a segment ends. -/
theorem Segment.redirect {next next' : ν → Option ν} {a w z : ν} {l : List ν}
    (h : Segment next a l w) (hnd : (a :: l).Nodup)
    (heq : ∀ x ∈ a :: l, x ≠ lastOf a l → next' x = next x)
    (hlast : next' (lastOf a l) = some z) : Segment next' a l z := by
  induction l generalizing a with
  | nil => exact hlast
  | cons b l ih =>
      have hab : a ≠ lastOf b l := by
        intro e
        exact (List.nodup_cons.mp hnd).1 (e ▸ lastOf_mem b l)
      refine ⟨(heq a (by simp) hab).trans h.1, ih h.2 (List.nodup_cons.mp hnd).2 ?_ hlast⟩
      exact fun x hx hne => heq x (List.mem_cons_of_mem _ hx) hne

theorem Segment.next_lastOf {next : ν → Option ν} {a z : ν} {l : List ν}
    (h : Segment next a l z) : next (lastOf a l) = some z := by
  induction l generalizing a with
  | nil => exact h
  | cons b l ih => exact ih h.2

theorem Segment.next_first {next : ν → Option ν} {a z : ν} {l : List ν}
    (h : Segment next a l z) : next a = some (firstOf z l) := by
  cases l with
  | nil => exact h
  | cons b l => exact h.1

theorem firstOf_reverse (z : ν) (l : List ν) : firstOf z l.reverse = lastOf z l := by
  induction l generalizing z with
  | nil => rfl
  | cons b l ih =>
      rw [List.reverse_cons, lastOf, ← ih]
      cases l.reverse <;> rfl

theorem lastOf_reverse (z : ν) (l : List ν) : lastOf z l.reverse = firstOf z l := by
  rw [← firstOf_reverse, List.reverse_reverse]

/-- Replacing the middle of a segment: the new links agree with the old ones
outside, and run through `bs` from the end of `l₁` to the start of `l₂`. -/
theorem Segment.splice {next next' : ν → Option ν} {a z : ν} {l₁ mid l₂ : List ν} (bs : List ν)
    (h : Segment next a (l₁ ++ mid ++ l₂) z) (hnd : (a :: l₁).Nodup)
    (hbefore : ∀ x ∈ a :: l₁, x ≠ lastOf a l₁ → next' x = next x)
    (hafter : ∀ x ∈ l₂, next' x = next x)
    (hmid : Segment next' (lastOf a l₁) bs (firstOf z l₂)) :
    Segment next' a (l₁ ++ bs ++ l₂) z := by
  rw [List.append_assoc, segment_append] at h
  have hrest : Segment next' (lastOf a l₁) (bs ++ l₂) z := by
    refine (segment_append ..).mpr ⟨hmid, ?_⟩
    cases l₂ with
    | nil => exact hmid.next_lastOf
    | cons c l₂ =>
        have hc := ((segment_append_cons ..).mp h.2).2
        exact ⟨hmid.next_lastOf, hc.congr hafter⟩
  rw [List.append_assoc, segment_append]
  exact ⟨h.1.redirect hnd hbefore hrest.next_first, hrest⟩

/-! ### Two directions -/

/-- The two link maps of a doubly linked list. -/
structure Links (ν : Type*) where
  prev : ν → Option ν
  next : ν → Option ν

/-- `l` is threaded between `head` and `tail` in both directions. -/
structure Threaded (L : Links ν) (head tail : ν) (l : List ν) : Prop where
  forward : Segment L.next head l tail
  backward : Segment L.prev tail l.reverse head

theorem Threaded.prev_tail {L : Links ν} {head tail : ν} {l : List ν}
    (h : Threaded L head tail l) : L.prev tail = some (lastOf head l) := by
  rw [h.backward.next_first, firstOf_reverse]

theorem Threaded.next_head {L : Links ν} {head tail : ν} {l : List ν}
    (h : Threaded L head tail l) : L.next head = some (firstOf tail l) := h.forward.next_first

/-- The neighbours of a node in the middle of a threaded list. -/
theorem Threaded.neighbours {L : Links ν} {head tail b : ν} {l₁ l₂ : List ν}
    (h : Threaded L head tail (l₁ ++ b :: l₂)) :
    L.prev b = some (lastOf head l₁) ∧ L.next b = some (firstOf tail l₂) := by
  refine ⟨?_, ((segment_append_cons ..).mp h.forward).2.next_first⟩
  have hb := h.backward
  rw [List.reverse_append, List.reverse_cons, List.append_assoc, List.singleton_append,
    segment_append_cons] at hb
  rw [hb.2.next_first, firstOf_reverse]

variable [DecidableEq ν]

/-- Make `b` the successor of `a`. -/
def Links.link (L : Links ν) (a b : ν) : Links ν where
  prev := Function.update L.prev b (some a)
  next := Function.update L.next a (some b)

def Links.clear (L : Links ν) (a : ν) : Links ν where
  prev := Function.update L.prev a none
  next := Function.update L.next a none

/-- Link `a` through the nodes of `bs` to `z`. -/
def Links.linkThrough (L : Links ν) (a : ν) : List ν → ν → Links ν
  | [], z => L.link a z
  | b :: bs, z => (L.link a b).linkThrough b bs z

theorem linkThrough_next_of_notMem (L : Links ν) {a x z : ν} {bs : List ν} (h : x ∉ a :: bs) :
    (L.linkThrough a bs z).next x = L.next x := by
  induction bs generalizing L a with
  | nil => exact Function.update_of_ne (by simpa using h) ..
  | cons b bs ih =>
      rw [Links.linkThrough, ih (L.link a b) fun hx => h (List.mem_cons_of_mem _ hx)]
      exact Function.update_of_ne (fun e => h (by simp [e])) ..

theorem linkThrough_prev_of_notMem (L : Links ν) {a x z : ν} {bs : List ν} (h : x ∉ bs ++ [z]) :
    (L.linkThrough a bs z).prev x = L.prev x := by
  induction bs generalizing L a with
  | nil => exact Function.update_of_ne (by simpa using h) ..
  | cons b bs ih =>
      rw [Links.linkThrough, ih (L.link a b) fun hx => h (List.mem_cons_of_mem _ hx)]
      exact Function.update_of_ne (fun e => h (by simp [e])) ..

theorem linkThrough_forward (L : Links ν) {a z : ν} {bs : List ν} (h : (a :: bs).Nodup) :
    Segment (L.linkThrough a bs z).next a bs z := by
  induction bs generalizing L a with
  | nil => exact Function.update_self ..
  | cons b bs ih =>
      refine ⟨?_, ih (L.link a b) (List.nodup_cons.mp h).2⟩
      rw [Links.linkThrough, linkThrough_next_of_notMem _ (List.nodup_cons.mp h).1]
      exact Function.update_self ..

theorem linkThrough_backward (L : Links ν) {a z : ν} {bs : List ν} (h : (bs ++ [z]).Nodup) :
    Segment (L.linkThrough a bs z).prev z bs.reverse a := by
  induction bs generalizing L a with
  | nil => exact Function.update_self ..
  | cons b bs ih =>
      rw [List.cons_append, List.nodup_cons] at h
      rw [List.reverse_cons, segment_append_cons]
      refine ⟨ih (L.link a b) h.2, ?_⟩
      rw [segment_nil, Links.linkThrough, linkThrough_prev_of_notMem _ h.1]
      exact Function.update_self ..

/-- Linking `bs` between the two halves of a list, or linking the halves
directly when `bs` is empty. The halves need not have been neighbours: what
was threaded between them is cut out. -/
theorem Threaded.splice {L : Links ν} {head tail : ν} (l₁ mid l₂ bs : List ν)
    (h : Threaded L head tail (l₁ ++ mid ++ l₂))
    (hnd : (head :: (l₁ ++ bs ++ l₂ ++ [tail])).Nodup) :
    Threaded (L.linkThrough (lastOf head l₁) bs (firstOf tail l₂)) head tail
      (l₁ ++ bs ++ l₂) := by
  have hnd' : ((head :: l₁) ++ (bs ++ (l₂ ++ [tail]))).Nodup := by
    simpa using hnd
  have hlast := lastOf_mem head l₁
  have hfirst := firstOf_mem tail l₂
  have hfront : (head :: l₁).Nodup := (List.nodup_append.mp hnd').1
  have hrest : (bs ++ (l₂ ++ [tail])).Nodup := (List.nodup_append.mp hnd').2.1
  have hback : (l₂ ++ [tail]).Nodup := (List.nodup_append.mp hrest).2.1
  have hsep : ∀ x ∈ head :: l₁, ∀ y ∈ bs ++ (l₂ ++ [tail]), x ≠ y :=
    (List.nodup_append.mp hnd').2.2
  have hsep' : ∀ x ∈ bs, ∀ y ∈ l₂ ++ [tail], x ≠ y := (List.nodup_append.mp hrest).2.2
  have hbs : (lastOf head l₁ :: bs).Nodup :=
    List.nodup_cons.mpr ⟨fun hx => hsep _ hlast _ (List.mem_append_left _ hx) rfl,
      (List.nodup_append.mp hrest).1⟩
  have hbs' : (bs ++ [firstOf tail l₂]).Nodup :=
    List.nodup_append.mpr ⟨(List.nodup_append.mp hrest).1, by simp, fun x hx y hy => by
      rw [List.mem_singleton.mp hy]
      exact hsep' x hx _ hfirst⟩
  constructor
  · refine h.forward.splice bs hfront ?_ ?_ (linkThrough_forward L hbs)
    · intro x hx hne
      refine linkThrough_next_of_notMem L fun hx' => ?_
      rcases List.mem_cons.mp hx' with rfl | hx'
      · exact hne rfl
      · exact hsep x hx x (List.mem_append_left _ hx') rfl
    · intro x hx
      have hx' : x ∈ l₂ ++ [tail] := List.mem_append_left _ hx
      refine linkThrough_next_of_notMem L fun hmem => ?_
      rcases List.mem_cons.mp hmem with rfl | hmem
      · exact hsep _ hlast _ (List.mem_append_right _ hx') rfl
      · exact hsep' x hmem x hx' rfl
  · have hb := h.backward
    have hmid := linkThrough_backward L (a := lastOf head l₁) hbs'
    rw [List.reverse_append, List.reverse_append, ← List.append_assoc] at hb ⊢
    refine hb.splice bs.reverse ?_ ?_ ?_ ?_
    · simpa using List.nodup_reverse.mpr hback
    · intro x hx hne
      rw [lastOf_reverse] at hne
      have hx' : x ∈ l₂ ++ [tail] := by simpa [or_comm] using hx
      refine linkThrough_prev_of_notMem L fun hmem => ?_
      rcases List.mem_append.mp hmem with hmem | hmem
      · exact hsep' x hmem x hx' rfl
      · exact hne (List.mem_singleton.mp hmem)
    · intro x hx
      have hx' : x ∈ head :: l₁ := List.mem_cons_of_mem _ (List.mem_reverse.mp hx)
      refine linkThrough_prev_of_notMem L fun hmem => ?_
      rcases List.mem_append.mp hmem with hmem | hmem
      · exact hsep x hx' x (List.mem_append_left _ hmem) rfl
      · rw [List.mem_singleton.mp hmem] at hx'
        exact hsep _ hx' _ (List.mem_append_right _ hfirst) rfl
    · rw [lastOf_reverse, firstOf_reverse]
      exact hmid

end Pvllm.Linked
