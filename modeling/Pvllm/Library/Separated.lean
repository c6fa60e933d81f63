import Mathlib.Data.List.Basic

/-!
Parts joined by a separator.

Where no part but the first holds the separator, the parts can be read back from the
end, so that equal texts have equal parts. The first part may hold anything. A number
in decimal is such a part.
-/

namespace Pvllm

variable {α : Type*} {x : α}

theorem append_cons_inj_of_not_mem {l l' t t' : List α} (ht : x ∉ t) (ht' : x ∉ t') :
    l ++ x :: t = l' ++ x :: t' ↔ l = l' ∧ t = t' := by
  constructor
  · intro h
    rcases List.append_eq_append_iff.mp h with ⟨m, hm, htail⟩ | ⟨m, hm, htail⟩
    · cases m with
      | nil =>
          rw [List.append_nil] at hm
          exact ⟨hm.symm, (List.cons.inj htail).2⟩
      | cons y m =>
          -- The separator of the right-hand side would stand in `t`.
          obtain ⟨-, htail⟩ := List.cons.inj htail
          exact absurd (htail ▸ List.mem_append_right m List.mem_cons_self) ht
    · cases m with
      | nil =>
          rw [List.append_nil] at hm
          exact ⟨hm, (List.cons.inj htail).2.symm⟩
      | cons y m =>
          obtain ⟨-, htail⟩ := List.cons.inj htail
          exact absurd (htail ▸ List.mem_append_right m List.mem_cons_self) ht'
  · rintro ⟨rfl, rfl⟩
    rfl

/-- What stands before the first separator, and what stands after it. -/
theorem append_cons_inj_of_not_mem_left {l l' t t' : List α} (hl : x ∉ l) (hl' : x ∉ l') :
    l ++ x :: t = l' ++ x :: t' ↔ l = l' ∧ t = t' := by
  rw [← List.reverse_inj]
  simp only [List.reverse_append, List.reverse_cons, List.append_assoc, List.singleton_append]
  rw [append_cons_inj_of_not_mem (by rwa [List.mem_reverse]) (by rwa [List.mem_reverse]),
    List.reverse_inj, List.reverse_inj, and_comm]

def separated (x : α) (head : List α) (parts : List (List α)) : List α :=
  head ++ parts.flatMap (x :: ·)

@[simp] theorem separated_nil (head : List α) : separated x head [] = head := by
  simp [separated]

@[simp] theorem separated_cons (head part : List α) (parts : List (List α)) :
    separated x head (part :: parts) = separated x (head ++ x :: part) parts := by
  simp [separated]

theorem intercalate_eq_separated (head : List α) (parts : List (List α)) :
    [x].intercalate (head :: parts) = separated x head parts := by
  induction parts generalizing head with
  | nil => simp
  | cons part parts ih =>
      rw [List.intercalate_cons_cons, ih, separated_cons]
      simp [separated]

/-- As many parts without the separator in them are equal if what they make is. -/
theorem separated_inj {head head' : List α} {parts parts' : List (List α)}
    (hlength : parts.length = parts'.length) (hparts : ∀ part ∈ parts, x ∉ part)
    (hparts' : ∀ part ∈ parts', x ∉ part) :
    separated x head parts = separated x head' parts' ↔ head = head' ∧ parts = parts' := by
  induction parts generalizing head head' parts' with
  | nil =>
      obtain rfl : parts' = [] := List.length_eq_zero_iff.mp hlength.symm
      simp
  | cons part parts ih =>
      cases parts' with
      | nil => cases hlength
      | cons part' parts' =>
          rw [separated_cons, separated_cons, ih (Nat.succ.inj hlength)
              (fun p hp => hparts p (List.mem_cons_of_mem _ hp))
              (fun p hp => hparts' p (List.mem_cons_of_mem _ hp)),
            append_cons_inj_of_not_mem (hparts part List.mem_cons_self)
              (hparts' part' List.mem_cons_self), List.cons.injEq, and_assoc]

/-- Texts without the separator are equal if what they make is, however many they are. -/
theorem separated_inj_of_not_mem {head head' : List α} {parts parts' : List (List α)}
    (hhead : x ∉ head) (hhead' : x ∉ head') (hparts : ∀ part ∈ parts, x ∉ part)
    (hparts' : ∀ part ∈ parts', x ∉ part) :
    separated x head parts = separated x head' parts' ↔ head = head' ∧ parts = parts' := by
  induction parts generalizing head head' parts' with
  | nil =>
      cases parts' with
      | nil => simp
      | cons part' parts' =>
          refine ⟨fun h => absurd ?_ hhead, fun h => absurd h.2 (List.cons_ne_nil _ _).symm⟩
          rw [separated_nil] at h
          rw [h]
          simp [separated]
  | cons part parts ih =>
      cases parts' with
      | nil =>
          refine ⟨fun h => absurd ?_ hhead', fun h => absurd h.2 (List.cons_ne_nil _ _)⟩
          rw [separated_nil] at h
          rw [← h]
          simp [separated]
      | cons part' parts' =>
          have hrest := ih (hparts part List.mem_cons_self) (hparts' part' List.mem_cons_self)
            (fun p hp => hparts p (List.mem_cons_of_mem _ hp))
            (fun p hp => hparts' p (List.mem_cons_of_mem _ hp))
          calc separated x head (part :: parts) = separated x head' (part' :: parts')
              ↔ head ++ x :: separated x part parts = head' ++ x :: separated x part' parts' := by
                simp [separated]
            _ ↔ head = head' ∧ part :: parts = part' :: parts' := by
                rw [append_cons_inj_of_not_mem_left hhead hhead', hrest, List.cons.injEq]

/-! ### Numbers -/

theorem not_mem_toDigits {c : Char} (hc : c.isDigit = false) (n : ℕ) :
    c ∉ Nat.toDigits 10 n := by
  intro h
  exact absurd (Nat.isDigit_of_mem_toDigits (by decide) (by decide) h) (by simp [hc])

theorem toDigits_injective : Function.Injective (Nat.toDigits 10) := by
  intro n n' h
  calc
    n = Nat.ofDigitChars 10 (Nat.toDigits 10 n) 0 := Nat.ofDigitChars_ten_toDigits.symm
    _ = Nat.ofDigitChars 10 (Nat.toDigits 10 n') 0 := by rw [h]
    _ = n' := Nat.ofDigitChars_ten_toDigits

theorem toList_toString_nat (n : ℕ) : (toString n).toList = Nat.toDigits 10 n :=
  Nat.toList_repr

end Pvllm
