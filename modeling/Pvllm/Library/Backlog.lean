import Mathlib.Algebra.BigOperators.Group.List.Basic
import Mathlib.Algebra.Order.BigOperators.Group.List
import Mathlib.Algebra.Order.Ring.Nat

/-!
The work left in a line that is served from its head.

Every job has a size, and of the first one some is done already. The backlog is
what is left: serving the head takes from it, and so does everybody who leaves
the line, whoever it is.
-/

namespace Pvllm

variable {α : Type*} {size done done' : α → ℕ} {line line' : List α} {a : α}

/-- What is left of the first job, and all of the others. -/
def backlog (size done : α → ℕ) : List α → ℕ
  | [] => 0
  | a :: rest => size a - done a + (rest.map size).sum

theorem backlog_le_sum (size done : α → ℕ) (line : List α) :
    backlog size done line ≤ (line.map size).sum := by
  cases line with
  | nil => exact Nat.le_refl 0
  | cons a rest =>
      rw [List.map_cons, List.sum_cons, backlog]
      exact Nat.add_le_add_right (Nat.sub_le ..) _

/-- Whoever leaves the line, the backlog does not grow, if of a job that stays the first no
less is done. -/
theorem backlog_sublist (h : line'.Sublist line)
    (hdone : ∀ a, line.head? = some a → line'.head? = some a → done a ≤ done' a) :
    backlog size done' line' ≤ backlog size done line := by
  cases h with
  | slnil => exact Nat.le_refl 0
  | @cons _ rest a hrest =>
      calc backlog size done' line' ≤ (line'.map size).sum := backlog_le_sum ..
        _ ≤ (rest.map size).sum := (hrest.map size).sum_le_sum fun _ _ => Nat.zero_le _
        _ ≤ backlog size done (a :: rest) := Nat.le_add_left ..
  | @cons_cons rest' rest a hrest =>
      have hsum : (rest'.map size).sum ≤ (rest.map size).sum :=
        (hrest.map size).sum_le_sum fun _ _ => Nat.zero_le _
      have hhead := hdone a rfl rfl
      rw [backlog, backlog]
      omega

/-- Serving the head takes from it. -/
theorem backlog_lt (hhead : line.head? = some a) (hbelow : done a < size a)
    (hmore : done a < done' a) : backlog size done' line < backlog size done line := by
  obtain ⟨rest, rfl⟩ := List.head?_eq_some_iff.mp hhead
  rw [backlog, backlog]
  omega

/-- While the head is not done there is something left. -/
theorem backlog_pos (hhead : line.head? = some a) (hbelow : done a < size a) :
    0 < backlog size done line := by
  obtain ⟨rest, rfl⟩ := List.head?_eq_some_iff.mp hhead
  rw [backlog]
  omega

end Pvllm
