import Mathlib.Order.Bounds.Basic
import Mathlib.Order.Nat

/-!
Shrinking a candidate until everyone accepts it.

Several parties each have a set of values they can serve, and a candidate is
passed round: a party either accepts it or replaces it by a smaller one that
is still above everything it could serve. `Lowers P c c'` is what one such
answer guarantees. Answers compose (`Lowers.trans`), so a whole round is again
one; a round that returns its own candidate has found the greatest common
value (`Lowers.isGreatest`), and a round that does not has lost no candidate
(`Lowers.restart`).
-/

namespace Pvllm

/-- The answer `c'` to the candidate `c`, by a party that can serve `P`. -/
structure Lowers {α : Type*} [PartialOrder α] (P : α → Prop) (c c' : α) : Prop where
  le : c' ≤ c
  accepts : c' = c → P c
  keeps : ∀ l, l ≤ c → P l → l ≤ c'

namespace Lowers

variable {α : Type*} [PartialOrder α] {P Q : α → Prop} {c c' c'' : α}

/-- Two answers in a row are one answer for both parties. -/
theorem trans (h : Lowers P c c') (h' : Lowers Q c' c'') : Lowers (fun l => P l ∧ Q l) c c'' where
  le := h'.le.trans h.le
  accepts e := by
    have hc : c' = c := le_antisymm h.le (e ▸ h'.le)
    subst hc
    exact ⟨h.accepts rfl, h'.accepts e⟩
  keeps l hl hPQ := h'.keeps l (h.keeps l hl hPQ.1) hPQ.2

/-- Nobody to ask: the candidate stands. -/
theorem rfl' : Lowers (fun _ => True) c c := ⟨le_rfl, fun _ => trivial, fun _ hl _ => hl⟩

theorem congr (h : Lowers P c c') (hPQ : ∀ l, P l ↔ Q l) : Lowers Q c c' :=
  ⟨h.le, fun e => (hPQ c).mp (h.accepts e), fun l hl hQ => h.keeps l hl ((hPQ l).mpr hQ)⟩

/-- A candidate everyone accepts is the greatest. -/
theorem isGreatest (h : Lowers P c c) : IsGreatest {l | P l ∧ l ≤ c} c :=
  ⟨⟨h.accepts rfl, le_rfl⟩, fun _ hl => hl.2⟩

/-- Going on from a smaller candidate loses nothing. -/
theorem restart (h : Lowers P c c') {m : α} (hm : IsGreatest {l | P l ∧ l ≤ c'} m) :
    IsGreatest {l | P l ∧ l ≤ c} m :=
  ⟨⟨hm.1.1, hm.1.2.trans h.le⟩, fun l hl => hm.2 ⟨hl.1, h.keeps l hl.2 hl.1⟩⟩

end Lowers

end Pvllm
