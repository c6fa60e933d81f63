import Mathlib.Algebra.Order.Floor.Semiring
import Mathlib.Algebra.Order.Field.Power
import Mathlib.Data.Nat.Cast.Order.Field
import Mathlib.Data.Rat.Floor
import Mathlib.Tactic.Linarith

/-!
Binary floating point, for numbers that are not negative.

A number is a significand of bounded size and an exponent, which is not bounded here. What
an operation gives is rounded to the nearest number, and from the middle between two to the
one with the even significand. A result that is rounded never passes a number.
-/

namespace Pvllm

/-- The integer nearest to a quotient, and the even one of two. -/
def roundDiv (n d : ℕ) : ℕ :=
  let floor := n / d
  let left := 2 * (n % d)
  if left < d ∨ left = d ∧ floor % 2 = 0 then floor else floor + 1

theorem roundDiv_le {n d k : ℕ} (hd : 0 < d) (h : n ≤ k * d) : roundDiv n d ≤ k := by
  have hdivision := Nat.div_add_mod n d
  have hfloor : n / d ≤ k := Nat.div_le_of_le_mul (by rwa [Nat.mul_comm] at h)
  unfold roundDiv
  dsimp only
  split
  · exact hfloor
  · -- what is left over keeps the quotient below `k`
    rename_i hleft
    by_contra hlt
    have hall : n / d = k := by omega
    rw [hall, Nat.mul_comm] at hdivision
    omega

theorem roundDiv_one (n : ℕ) : roundDiv n 1 = n := by
  unfold roundDiv
  simp [Nat.mod_one]

/-- A significand of one leading bit and `fractionBits` more, and the exponent of its unit. -/
structure BinaryFloat (fractionBits : ℕ) where
  significand : ℕ
  exponent : ℤ
  fits : significand < 2 ^ (fractionBits + 1)
deriving Repr, DecidableEq

abbrev Binary64 : Type := BinaryFloat 52

namespace BinaryFloat

variable {f : ℕ}

def value (x : BinaryFloat f) : ℚ := x.significand * 2 ^ x.exponent

def excess (f m : ℕ) : ℕ := m.log2 - f

/-- The number nearest to `m * 2 ^ e`. -/
def round (m : ℕ) (e : ℤ) : BinaryFloat f :=
  let significand := roundDiv m (2 ^ excess f m)
  if h : significand < 2 ^ (f + 1) then ⟨significand, e + excess f m, h⟩
  else ⟨2 ^ f, e + excess f m + 1, Nat.pow_lt_pow_right one_lt_two (Nat.lt_succ_self f)⟩

def ofNat (n : ℕ) : BinaryFloat f := round n 0

def mul (x y : BinaryFloat f) : BinaryFloat f :=
  round (x.significand * y.significand) (x.exponent + y.exponent)

def trunc (x : BinaryFloat f) : ℕ :=
  match x.exponent with
  | .ofNat e => x.significand * 2 ^ e
  | .negSucc e => x.significand / 2 ^ (e + 1)

/-! ### Rounding -/

theorem lt_two_pow_excess (f m : ℕ) : m < 2 ^ (f + 1) * 2 ^ excess f m := by
  rw [← Nat.pow_add]
  refine Nat.lt_of_lt_of_le Nat.lt_log2_self (Nat.pow_le_pow_right Nat.two_pos ?_)
  unfold excess
  omega

theorem two_pow_excess_le {m : ℕ} (h : excess f m ≠ 0) : 2 ^ f * 2 ^ excess f m ≤ m := by
  have hzero : m ≠ 0 := by
    rintro rfl
    exact h (Nat.zero_sub f)
  rw [← Nat.pow_add]
  refine Nat.le_trans (Nat.pow_le_pow_right Nat.two_pos ?_) (Nat.log2_self_le hzero)
  unfold excess at h ⊢
  omega

theorem value_round (m : ℕ) (e : ℤ) :
    (round m e : BinaryFloat f).value =
      roundDiv m (2 ^ excess f m) * 2 ^ (e + excess f m) := by
  have hle : roundDiv m (2 ^ excess f m) ≤ 2 ^ (f + 1) :=
    roundDiv_le (Nat.two_pow_pos _) (lt_two_pow_excess f m).le
  unfold round value
  dsimp only
  split
  · rfl
  · rename_i hbig
    rw [Nat.le_antisymm hle (not_lt.mp hbig), zpow_add_one₀ two_ne_zero]
    push_cast
    ring

theorem exists_grid {m : ℕ} {e : ℤ} (hexcess : excess f m ≠ 0) {x : BinaryFloat f}
    (h : m * (2 : ℚ) ^ e ≤ x.value) : ∃ k : ℕ, x.value = k * (2 : ℚ) ^ (e + excess f m) := by
  have hfits : (x.significand : ℚ) < 2 ^ (f + 1) := by exact_mod_cast x.fits
  have hleading : (2 : ℚ) ^ (f : ℤ) * 2 ^ (excess f m : ℤ) ≤ m := by
    rw [zpow_natCast, zpow_natCast]
    exact_mod_cast two_pow_excess_le hexcess
  have hexponent : e + excess f m ≤ x.exponent := by
    have hlt : (2 : ℚ) ^ ((f : ℤ) + excess f m + e) < 2 ^ ((f : ℤ) + 1 + x.exponent) := by
      calc (2 : ℚ) ^ ((f : ℤ) + excess f m + e)
          = 2 ^ (f : ℤ) * 2 ^ (excess f m : ℤ) * 2 ^ e := by
            rw [zpow_add₀ two_ne_zero, zpow_add₀ two_ne_zero]
        _ ≤ m * 2 ^ e := mul_le_mul_of_nonneg_right hleading (by positivity)
        _ ≤ x.significand * 2 ^ x.exponent := h
        _ < 2 ^ (f + 1) * 2 ^ x.exponent := mul_lt_mul_of_pos_right hfits (by positivity)
        _ = 2 ^ ((f : ℤ) + 1 + x.exponent) := by
            rw [zpow_add₀ two_ne_zero, ← zpow_natCast (2 : ℚ) (f + 1), Nat.cast_succ]
    have := (zpow_lt_zpow_iff_right₀ one_lt_two).mp hlt
    omega
  refine ⟨x.significand * 2 ^ (x.exponent - (e + excess f m)).toNat, ?_⟩
  have hsplit : x.exponent = (x.exponent - (e + excess f m)).toNat + (e + excess f m) := by
    omega
  unfold value
  conv_lhs => rw [hsplit, zpow_add₀ two_ne_zero, zpow_natCast]
  push_cast
  ring

theorem value_round_le {m : ℕ} {e : ℤ} {x : BinaryFloat f} (h : m * (2 : ℚ) ^ e ≤ x.value) :
    (round m e : BinaryFloat f).value ≤ x.value := by
  rw [value_round]
  by_cases hexcess : excess f m = 0
  · rw [hexcess, Nat.pow_zero, roundDiv_one, Nat.cast_zero, add_zero]
    exact h
  · obtain ⟨k, hk⟩ := exists_grid hexcess h
    rw [hk, zpow_add₀ two_ne_zero, mul_comm ((2 : ℚ) ^ e), ← mul_assoc] at h
    have hgrid : m ≤ k * 2 ^ excess f m := by
      have := le_of_mul_le_mul_right h (by positivity)
      rw [zpow_natCast] at this
      exact_mod_cast this
    have hrounded : (roundDiv m (2 ^ excess f m) : ℚ) ≤ k := by
      exact_mod_cast roundDiv_le (Nat.two_pow_pos _) hgrid
    rw [hk]
    exact mul_le_mul_of_nonneg_right hrounded (by positivity)

/-! ### The operations -/

theorem value_ofNat_le {n : ℕ} (h : n ≤ 2 ^ (f + 1)) : (ofNat n : BinaryFloat f).value ≤ n := by
  rcases h.lt_or_eq with hlt | rfl
  · have hexact := @value_round_le f n 0 ⟨n, 0, hlt⟩ le_rfl
    unfold value at hexact
    rwa [zpow_zero, mul_one] at hexact
  · have hexact := @value_round_le f (2 ^ (f + 1)) 0
      ⟨2 ^ f, 1, Nat.pow_lt_pow_right one_lt_two (Nat.lt_succ_self f)⟩ (by
        unfold value
        push_cast
        rw [mul_one, pow_succ])
    refine hexact.trans_eq ?_
    unfold value
    push_cast
    rw [pow_succ]

theorem value_mul_le {x y : BinaryFloat f} (hy : y.value ≤ 1) : (x.mul y).value ≤ x.value := by
  apply value_round_le
  have hproduct : ((x.significand * y.significand : ℕ) : ℚ) * 2 ^ (x.exponent + y.exponent) =
      x.value * y.value := by
    unfold value
    rw [zpow_add₀ two_ne_zero]
    push_cast
    ring
  rw [hproduct]
  exact mul_le_of_le_one_right (by unfold value; positivity) hy

theorem trunc_le (x : BinaryFloat f) : (x.trunc : ℚ) ≤ x.value := by
  unfold trunc value
  split
  · rename_i e he
    rw [he]
    push_cast
    exact le_rfl
  · rename_i e he
    rw [he, zpow_negSucc, ← div_eq_mul_inv]
    exact_mod_cast Nat.cast_div_le (α := ℚ) (m := x.significand) (n := 2 ^ (e + 1))

/-- A share of an integer that fits is at most that integer. -/
theorem trunc_mul_ofNat_le {n : ℕ} (h : n ≤ 2 ^ (f + 1)) {y : BinaryFloat f}
    (hy : y.value ≤ 1) : ((ofNat n).mul y).trunc ≤ n := by
  have hle : (((ofNat n).mul y).trunc : ℚ) ≤ n :=
    (trunc_le _).trans ((value_mul_le hy).trans (value_ofNat_le h))
  exact_mod_cast hle

end BinaryFloat

end Pvllm
