import Mathlib.Data.List.Nodup

/-!
Queues in which one element outlasts another.

A queue is served from its front. An element outlasts another if it stands behind it, or
does not stand in the queue at all. What is served, taken out or put in at either end
keeps this, as long as the element that goes first is not put in behind the other.
-/

namespace Pvllm

variable {α : Type*} {queue : List α} {b c : α}

/-- `b` does not leave the queue before `c` does. -/
def Outlasts (queue : List α) (b c : α) : Prop := b ∈ queue → [c, b].Sublist queue

/-- As long as `c` is in the queue, `b` has not been served. -/
theorem Outlasts.not_mem_take {n : ℕ} (h : Outlasts queue b c) (hnodup : queue.Nodup)
    (hc : c ∈ queue.drop n) : b ∉ queue.take n := by
  intro hb
  have hsub := h (List.mem_of_mem_take hb)
  rw [← List.take_append_drop n queue] at hnodup hsub
  obtain ⟨front, back, heq, hfront, hback⟩ := List.sublist_append_iff.mp hsub
  have hapart := (List.nodup_append.mp hnodup).2.2
  cases front with
  | nil =>
      rw [List.nil_append] at heq
      subst heq
      exact hapart b hb b (hback.subset (by simp)) rfl
  | cons a front =>
      rw [List.cons_append, List.cons.injEq] at heq
      exact hapart a (hfront.subset List.mem_cons_self) a (heq.1 ▸ hc) rfl

/-- Serving from the front. -/
theorem Outlasts.drop {n : ℕ} (h : Outlasts queue b c) (hnodup : queue.Nodup)
    (hc : c ∈ queue.drop n) : Outlasts (queue.drop n) b c := by
  intro hb
  have hsub := h (List.mem_of_mem_drop hb)
  rw [← List.take_append_drop n queue] at hnodup hsub
  obtain ⟨front, back, heq, hfront, hback⟩ := List.sublist_append_iff.mp hsub
  cases front with
  | nil =>
      rw [List.nil_append] at heq
      rwa [heq]
  | cons a front =>
      rw [List.cons_append, List.cons.injEq] at heq
      have hapart := (List.nodup_append.mp hnodup).2.2
      exact absurd rfl (hapart a (hfront.subset List.mem_cons_self) a (heq.1 ▸ hc))

/-- Taking out of the middle. -/
theorem Outlasts.filter {p : α → Bool} (h : Outlasts queue b c) (hc : p c = true) :
    Outlasts (queue.filter p) b c := by
  intro hb
  obtain ⟨hmem, hp⟩ := List.mem_filter.mp hb
  have hsub := (h hmem).filter p
  rwa [List.filter_cons_of_pos hc, List.filter_cons_of_pos hp, List.filter_nil] at hsub

/-- Putting in at the front. -/
theorem Outlasts.append_left {front : List α} (h : Outlasts queue b c) (hb : b ∉ front) :
    Outlasts (front ++ queue) b c := by
  intro hmem
  exact (h ((List.mem_append.mp hmem).resolve_left hb)).trans (List.sublist_append_right ..)

/-- Putting in at the back. -/
theorem Outlasts.append_right {back : List α} (h : Outlasts queue b c) (hc : c ∈ queue) :
    Outlasts (queue ++ back) b c := by
  intro hmem
  rcases List.mem_append.mp hmem with hb | hb
  · exact (h hb).trans (List.sublist_append_left ..)
  · exact (List.singleton_sublist.mpr hc).append (List.singleton_sublist.mpr hb)

theorem pair_sublist_of_sublist {l l' : List α} (hsub : l'.Sublist l) (hnodup : l.Nodup)
    (hpair : [c, b].Sublist l) (hc : c ∈ l') (hb : b ∈ l') : [c, b].Sublist l' := by
  induction hsub with
  | slnil => exact absurd hc List.not_mem_nil
  | @cons l' l a hsub ih =>
      obtain ⟨ha, hnodup⟩ := List.nodup_cons.mp hnodup
      rcases List.sublist_cons_iff.mp hpair with hpair | ⟨rest, heq, -⟩
      · exact ih hnodup hpair hc hb
      · rw [List.cons.injEq] at heq
        exact absurd (hsub.subset (heq.1 ▸ hc)) ha
  | @cons_cons l' l a hsub ih =>
      obtain ⟨ha, hnodup⟩ := List.nodup_cons.mp hnodup
      rcases List.sublist_cons_iff.mp hpair with hpair | ⟨rest, heq, hrest⟩
      · have hin : ∀ x ∈ [c, b], x ∈ a :: l' → x ∈ l' := fun x hx hmem =>
          (List.mem_cons.mp hmem).resolve_left fun heq => ha (heq ▸ hpair.subset hx)
        exact (ih hnodup hpair (hin c (by simp) hc) (hin b (by simp) hb)).cons a
      · obtain ⟨rfl, rfl⟩ := List.cons.inj heq
        have hb' : b ∈ l := hrest.subset (List.mem_singleton_self b)
        have hin : b ∈ l' := (List.mem_cons.mp hb).resolve_left fun heq => ha (heq ▸ hb')
        exact (List.singleton_sublist.mpr hin).cons_cons c

/-- Of a list without repetitions, put in last element first, the earlier element
outlasts its successor. -/
theorem outlasts_reverse {l released : List α} {i : ℕ} (hnodup : l.Nodup)
    (hsub : released.Sublist l.reverse) (hb : l[i]? = some b) (hc : l[i + 1]? = some c)
    (hmem : c ∈ released) : Outlasts released b c := by
  intro hb'
  have hnodup' : l.reverse.Nodup := List.nodup_reverse.mpr hnodup
  have hpair : [c, b].Sublist l.reverse := by
    have hsplit : [b, c].Sublist l := by
      rw [← List.take_append_drop (i + 1) l]
      refine (List.singleton_sublist.mpr ?_).append (List.singleton_sublist.mpr ?_)
      · exact List.mem_of_getElem? (by rw [List.getElem?_take, if_pos (Nat.lt_succ_self i), hb])
      · exact List.mem_of_getElem? (i := 0) (by rw [List.getElem?_drop, Nat.add_zero, hc])
    have hreverse := List.reverse_sublist.mpr hsplit
    simpa using hreverse
  exact pair_sublist_of_sublist hsub hnodup' hpair hmem hb'

end Pvllm
