import Mathlib.Data.List.Infix
import Mathlib.Data.Nat.Notation
import Mathlib.Data.Int.Notation
import Mathlib.Order.Nat

/-!
Where a list occurs in another.

`find` walks over a text from a place on and answers the first index at which a list
occurs. A place may be counted from the end of the text, as `str.find` and slices
count a negative one; `place` is where it comes to stand.
-/

namespace Pvllm

/-- The index a place stands for: a negative one is counted from the end, and stops at the
beginning. -/
def place (length : ℕ) (start : ℤ) : ℕ :=
  if start < 0 then (length + start).toNat else start.toNat

variable {α : Type*} [DecidableEq α] {text sub : List α} {start : ℤ} {i : ℕ}

/-- The first index from `start` on at which `sub` occurs in `text`. -/
def find (text sub : List α) (start : ℤ) : Option ℕ :=
  (List.range' (place text.length start) (text.length + 1 - place text.length start)).find?
    fun i => sub.isPrefixOf (text.drop i)

theorem find_eq_some_iff : find text sub start = some i ↔
    place text.length start ≤ i ∧ i ≤ text.length ∧ sub <+: text.drop i ∧
      ∀ j, place text.length start ≤ j → j < i → ¬ sub <+: text.drop j := by
  unfold find
  rw [List.find?_range'_eq_some, List.mem_range'_1, List.isPrefixOf_iff_prefix]
  simp only [Bool.not_eq_true', ← Bool.not_eq_true, List.isPrefixOf_iff_prefix]
  constructor
  · rintro ⟨hoccurs, ⟨hle, hlt⟩, hfirst⟩
    exact ⟨hle, by omega, hoccurs, hfirst⟩
  · rintro ⟨hle, hlt, hoccurs, hfirst⟩
    exact ⟨hoccurs, ⟨hle, by omega⟩, hfirst⟩

/-- An occurrence ends within the text. -/
theorem find_end (h : find text sub start = some i) : i + sub.length ≤ text.length := by
  obtain ⟨-, hle, hoccurs, -⟩ := find_eq_some_iff.mp h
  have hlength := hoccurs.length_le
  rw [List.length_drop] at hlength
  omega

/-- The empty list occurs at once. -/
theorem find_nil (h : place text.length start ≤ text.length) :
    find text [] start = some (place text.length start) := by
  rw [find_eq_some_iff]
  refine ⟨le_rfl, h, List.nil_prefix, fun j hle hlt => ?_⟩
  omega

/-- What a slice `text[:-k]` leaves, and the text itself for `k = 0`. -/
def dropTail (text : List α) (k : ℤ) : List α :=
  if k = 0 then text else text.take (place text.length (-k))

omit [DecidableEq α] in
theorem dropTail_of_nonneg {k : ℤ} (h : 0 ≤ k) :
    dropTail text k = text.take (text.length - k).toNat := by
  unfold dropTail place
  split
  · rename_i hzero
    rw [hzero, Int.sub_zero, Int.toNat_natCast, List.take_length]
  · rw [if_pos (by omega), Int.sub_eq_add_neg]

end Pvllm
