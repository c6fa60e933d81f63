import Pvllm.Sim.Grammar
import Mathlib.Data.Int.SuccPred
import Mathlib.Tactic.Linarith

/-!
The bounds of a schema.

The validator compares a value with the bounds as they are written. The generator first
makes them the ends of a range it draws from: integers by `int()`, towards zero, and numbers
by moving an exclusive bound a little. `InBounds` is the validator's view; the integers and
the rationals that have it are described exactly (`inBounds_intCast_iff`,
`forall_not_inBounds_iff`), and so are the generator's ranges.
-/

namespace Pvllm.Grammar

open Json (Fields)

/-! ### The numbers that a schema sets -/

def numberAt (fields : Fields) (key : String) : Option ℚ := (fields.get key).bind Json.number?

/-- What is at the key, if there is anything, is a number. -/
def Numeric (fields : Fields) (key : String) : Prop :=
  ∀ value, fields.get key = some value → value.number? ≠ none

/-- What is at the key, if there is anything, is a natural number. -/
def Natural (fields : Fields) (key : String) : Prop :=
  ∀ value, fields.get key = some value → ∃ n : ℕ, value.number? = some (n : ℚ)

theorem Natural.numeric {fields : Fields} {key : String} (h : Natural fields key) :
    Numeric fields key := by
  intro value hvalue
  obtain ⟨n, hn⟩ := h value hvalue
  rw [hn]
  exact Option.some_ne_none _

theorem Natural.numberAt {fields : Fields} {key : String} (h : Natural fields key) :
    ∃ n : Option ℕ, numberAt fields key = n.map (Nat.cast : ℕ → ℚ) := by
  unfold Grammar.numberAt
  cases hget : fields.get key with
  | none => exact ⟨none, rfl⟩
  | some value =>
      obtain ⟨n, hn⟩ := h value hget
      exact ⟨some n, hn⟩

theorem Numeric.cases {fields : Fields} {key : String} (h : Numeric fields key) :
    fields.get key = none ∨
      ∃ value q, fields.get key = some value ∧ value.number? = some q := by
  cases hget : fields.get key with
  | none => exact Or.inl rfl
  | some value =>
      obtain ⟨q, hq⟩ := Option.ne_none_iff_exists'.mp (h value hget)
      exact Or.inr ⟨value, q, rfl, hq⟩

theorem intAt_eq {fields : Fields} {key : String} (h : Numeric fields key) :
    intAt fields key = .ok ((numberAt fields key).map trunc) := by
  unfold intAt numberAt
  obtain hnone | ⟨value, q, hvalue, hq⟩ := h.cases
  · rw [hnone]
    rfl
  · rw [hvalue, Option.bind_some, hq]
    simp only [toInt, hq]
    rfl

theorem floatAt_eq {fields : Fields} {key : String} (h : Numeric fields key) :
    floatAt fields key = .ok (numberAt fields key) := by
  unfold floatAt numberAt
  obtain hnone | ⟨value, q, hvalue, hq⟩ := h.cases
  · rw [hnone]
    rfl
  · rw [hvalue, Option.bind_some, hq]
    simp only [toFloat, hq]
    rfl

theorem getInt_eq {fields : Fields} {key : String} {default : ℤ} (h : Numeric fields key) :
    getInt fields key default = .ok (((numberAt fields key).map trunc).getD default) := by
  unfold getInt numberAt
  obtain hnone | ⟨value, q, hvalue, hq⟩ := h.cases
  · rw [hnone]
    rfl
  · rw [hvalue, Option.bind_some, hq]
    simp only [toInt, hq]
    rfl

theorem checkAt_iff {fields : Fields} {key : String} {meets : ℚ → Bool} {path : List Char}
    {failure : Failure} (h : Numeric fields key) :
    checkAt fields key meets path failure = .ok () ↔
      ∀ b ∈ numberAt fields key, meets b = true := by
  unfold checkAt numberAt
  obtain hnone | ⟨value, q, hvalue, hq⟩ := h.cases
  · simp [hnone]
  · rw [hvalue, Option.bind_some, hq]
    simp only [toFloat, hq, Option.mem_some_iff, forall_eq']
    show check (meets q) path failure = .ok () ↔ _
    unfold check
    split <;> simp_all

@[simp] theorem trunc_intCast (n : ℤ) : trunc n = n := by
  unfold trunc
  split
  · exact Int.floor_intCast n
  · exact Int.ceil_intCast n

@[simp] theorem trunc_natCast (n : ℕ) : trunc n = n := trunc_intCast n

/-! ### Being within the bounds -/

/-- A number meets the four bounds that a schema may set. -/
structure InBounds (fields : Fields) (q : ℚ) : Prop where
  minimum : ∀ b ∈ numberAt fields "minimum", b ≤ q
  maximum : ∀ b ∈ numberAt fields "maximum", q ≤ b
  exclusiveMinimum : ∀ b ∈ numberAt fields "exclusiveMinimum", b < q
  exclusiveMaximum : ∀ b ∈ numberAt fields "exclusiveMaximum", q < b

/-- The four bounds are numbers. -/
structure NumericBounds (fields : Fields) : Prop where
  minimum : Numeric fields "minimum"
  maximum : Numeric fields "maximum"
  exclusiveMinimum : Numeric fields "exclusiveMinimum"
  exclusiveMaximum : Numeric fields "exclusiveMaximum"

theorem okAnd_iff {α : Type} {x : Except GrammarError Unit} {f : Except GrammarError α} {a : α} :
    (x >>= fun _ => f) = .ok a ↔ x = .ok () ∧ f = .ok a := by
  cases x with
  | error e => exact ⟨fun h => (by cases h), fun h => (by cases h.1)⟩
  | ok u => exact ⟨fun h => ⟨rfl, h⟩, fun h => h.2⟩

theorem validateBounds_iff {fields : Fields} {q : ℚ} {path : List Char}
    (h : NumericBounds fields) :
    validateBounds q fields path = .ok () ↔ InBounds fields q := by
  unfold validateBounds
  rw [okAnd_iff, okAnd_iff, okAnd_iff, checkAt_iff h.minimum, checkAt_iff h.maximum,
    checkAt_iff h.exclusiveMinimum, checkAt_iff h.exclusiveMaximum]
  simp only [decide_eq_true_eq]
  exact ⟨fun ⟨h₁, h₂, h₃, h₄⟩ => ⟨h₁, h₂, h₃, h₄⟩, fun ⟨h₁, h₂, h₃, h₄⟩ => ⟨h₁, h₂, h₃, h₄⟩⟩

/-! ### The integers within the bounds -/

def least (fields : Fields) : Option ℤ :=
  match numberAt fields "exclusiveMinimum" with
  | none => (numberAt fields "minimum").map (⌈·⌉)
  | some b => raiseTo ((numberAt fields "minimum").map (⌈·⌉)) (⌊b⌋ + 1)

def greatest (fields : Fields) : Option ℤ :=
  match numberAt fields "exclusiveMaximum" with
  | none => (numberAt fields "maximum").map (⌊·⌋)
  | some b => lowerTo ((numberAt fields "maximum").map (⌊·⌋)) (⌈b⌉ - 1)

theorem inBounds_intCast_iff {fields : Fields} {n : ℤ} :
    InBounds fields n ↔ (∀ l ∈ least fields, l ≤ n) ∧ ∀ h ∈ greatest fields, n ≤ h := by
  have hlow : (∀ l ∈ least fields, l ≤ n) ↔ (∀ b ∈ numberAt fields "minimum", b ≤ (n : ℚ)) ∧
      ∀ b ∈ numberAt fields "exclusiveMinimum", b < (n : ℚ) := by
    unfold least
    cases numberAt fields "minimum" <;> cases numberAt fields "exclusiveMinimum" <;>
      simp [raiseTo, Int.ceil_le, Int.floor_lt]
  have hhigh : (∀ h ∈ greatest fields, n ≤ h) ↔ (∀ b ∈ numberAt fields "maximum", (n : ℚ) ≤ b) ∧
      ∀ b ∈ numberAt fields "exclusiveMaximum", (n : ℚ) < b := by
    unfold greatest
    cases numberAt fields "maximum" <;> cases numberAt fields "exclusiveMaximum" <;>
      simp [lowerTo, Int.le_floor, Int.lt_ceil]
  rw [hlow, hhigh]
  exact ⟨fun ⟨h₁, h₂, h₃, h₄⟩ => ⟨⟨h₁, h₃⟩, h₂, h₄⟩, fun ⟨⟨h₁, h₃⟩, h₂, h₄⟩ => ⟨h₁, h₂, h₃, h₄⟩⟩

/-- No integer is within the bounds when the least is above the greatest. -/
theorem forall_not_inBounds_intCast_iff {fields : Fields} :
    (∀ n : ℤ, ¬ InBounds fields n) ↔ ∃ l ∈ least fields, ∃ h ∈ greatest fields, h < l := by
  simp only [inBounds_intCast_iff]
  constructor
  · intro hall
    cases hl : least fields with
    | none =>
        cases hh : greatest fields with
        | none => exact absurd ⟨by simp [hl], by simp [hh]⟩ (hall 0)
        | some h => exact absurd ⟨by simp [hl], by simp [hh]⟩ (hall h)
    | some l =>
        cases hh : greatest fields with
        | none => exact absurd ⟨by simp [hl], by simp [hh]⟩ (hall l)
        | some h =>
            refine ⟨l, rfl, h, rfl, ?_⟩
            by_contra hle
            exact hall l ⟨by simp [hl], by simp [hh]; omega⟩
  · rintro ⟨l, hl, h, hh, hlt⟩ n ⟨hlow, hhigh⟩
    have := hlow l hl
    have := hhigh h hh
    omega

/-! ### The rationals within the bounds -/

/-- A lower bound and an upper bound that no number can meet both of. -/
inductive Crossed (fields : Fields) : Prop
  | closed {a b : ℚ} : a ∈ numberAt fields "minimum" → b ∈ numberAt fields "maximum" →
      b < a → Crossed fields
  | openAbove {a b : ℚ} : a ∈ numberAt fields "minimum" →
      b ∈ numberAt fields "exclusiveMaximum" → b ≤ a → Crossed fields
  | openBelow {a b : ℚ} : a ∈ numberAt fields "exclusiveMinimum" →
      b ∈ numberAt fields "maximum" → b ≤ a → Crossed fields
  | opened {a b : ℚ} : a ∈ numberAt fields "exclusiveMinimum" →
      b ∈ numberAt fields "exclusiveMaximum" → b ≤ a → Crossed fields

theorem exists_between_bounds {a a' b b' : ℚ} (h₁ : a ≤ b) (h₂ : a < b') (h₃ : a' < b)
    (h₄ : a' < b') : ∃ q, a ≤ q ∧ q ≤ b ∧ a' < q ∧ q < b' := by
  refine ⟨(max a a' + min b b') / 2, ?_, ?_, ?_, ?_⟩
  · rcases max_cases a a' with h | h <;> rcases min_cases b b' with h' | h' <;> linarith
  · rcases max_cases a a' with h | h <;> rcases min_cases b b' with h' | h' <;> linarith
  · rcases max_cases a a' with h | h <;> rcases min_cases b b' with h' | h' <;> linarith
  · rcases max_cases a a' with h | h <;> rcases min_cases b b' with h' | h' <;> linarith

theorem getD_lt_getD {x y : Option ℚ} {far : ℚ} (hfar : 0 < far) (hx : ∀ a ∈ x, |a| < far)
    (hy : ∀ b ∈ y, |b| < far) (h : ∀ a ∈ x, ∀ b ∈ y, a < b) : x.getD (-far) < y.getD far := by
  cases x with
  | none =>
      cases y with
      | none => exact neg_lt_self hfar
      | some b => exact (abs_lt.mp (hy b rfl)).1
  | some a =>
      cases y with
      | none => exact (abs_lt.mp (hx a rfl)).2
      | some b => exact h a rfl b rfl

theorem getD_le_getD {x y : Option ℚ} {far : ℚ} (hfar : 0 < far) (hx : ∀ a ∈ x, |a| < far)
    (hy : ∀ b ∈ y, |b| < far) (h : ∀ a ∈ x, ∀ b ∈ y, a ≤ b) : x.getD (-far) ≤ y.getD far := by
  cases x with
  | none =>
      cases y with
      | none => exact (neg_lt_self hfar).le
      | some b => exact (abs_lt.mp (hy b rfl)).1.le
  | some a =>
      cases y with
      | none => exact (abs_lt.mp (hx a rfl)).2.le
      | some b => exact h a rfl b rfl

theorem exists_far (w x y z : Option ℚ) : ∃ far : ℚ, 0 < far ∧ (∀ a ∈ w, |a| < far) ∧
    (∀ a ∈ x, |a| < far) ∧ (∀ a ∈ y, |a| < far) ∧ ∀ a ∈ z, |a| < far := by
  have hw := abs_nonneg (w.getD 0)
  have hx := abs_nonneg (x.getD 0)
  have hy := abs_nonneg (y.getD 0)
  have hz := abs_nonneg (z.getD 0)
  refine ⟨|w.getD 0| + |x.getD 0| + |y.getD 0| + |z.getD 0| + 1, by linarith, ?_, ?_, ?_, ?_⟩
  · rintro a rfl
    simp only [Option.getD_some] at hw ⊢
    linarith
  · rintro a rfl
    simp only [Option.getD_some] at hx ⊢
    linarith
  · rintro a rfl
    simp only [Option.getD_some] at hy ⊢
    linarith
  · rintro a rfl
    simp only [Option.getD_some] at hz ⊢
    linarith

/-- No number is within the bounds when two of them cross. -/
theorem forall_not_inBounds_iff {fields : Fields} :
    (∀ q, ¬ InBounds fields q) ↔ Crossed fields := by
  constructor
  · intro hall
    by_contra hcrossed
    obtain ⟨far, hfar, h₁, h₂, h₃, h₄⟩ := exists_far (numberAt fields "minimum")
      (numberAt fields "exclusiveMinimum") (numberAt fields "maximum")
      (numberAt fields "exclusiveMaximum")
    obtain ⟨q, hmin, hmax, hexmin, hexmax⟩ := exists_between_bounds
      (getD_le_getD hfar h₁ h₃ fun a ha b hb => not_lt.mp fun h => hcrossed (.closed ha hb h))
      (getD_lt_getD hfar h₁ h₄ fun a ha b hb => not_le.mp fun h => hcrossed (.openAbove ha hb h))
      (getD_lt_getD hfar h₂ h₃ fun a ha b hb => not_le.mp fun h => hcrossed (.openBelow ha hb h))
      (getD_lt_getD hfar h₂ h₄ fun a ha b hb => not_le.mp fun h => hcrossed (.opened ha hb h))
    apply hall q
    constructor
    · intro b hb
      rwa [hb] at hmin
    · intro b hb
      rwa [hb] at hmax
    · intro b hb
      rwa [hb] at hexmin
    · intro b hb
      rwa [hb] at hexmax
  · rintro (⟨ha, hb, h⟩ | ⟨ha, hb, h⟩ | ⟨ha, hb, h⟩ | ⟨ha, hb, h⟩) q hq
    · exact absurd (le_trans (hq.minimum _ ha) (hq.maximum _ hb)) (not_le.mpr h)
    · exact absurd (lt_of_le_of_lt (hq.minimum _ ha) (hq.exclusiveMaximum _ hb)) (not_lt.mpr h)
    · exact absurd (lt_of_lt_of_le (hq.exclusiveMinimum _ ha) (hq.maximum _ hb)) (not_lt.mpr h)
    · exact absurd (lt_trans (hq.exclusiveMinimum _ ha) (hq.exclusiveMaximum _ hb))
        (not_lt.mpr h)

/-! ### The ranges that are drawn from -/

theorem integerRange_ok {fields : Fields} (h : NumericBounds fields) :
    ∃ low high, integerRange fields = .ok (low, high) := by
  unfold integerRange integerBounds
  rw [intAt_eq h.minimum, intAt_eq h.exclusiveMinimum, intAt_eq h.maximum,
    intAt_eq h.exclusiveMaximum]
  exact ⟨_, _, rfl⟩

/-- Every number that is drawn is within the bounds. -/
theorem numberRange_ok {fields : Fields} (h : NumericBounds fields) :
    ∃ low high, numberRange fields = .ok (low, high) ∧
      ∀ q, low ≤ q → q ≤ high → InBounds fields q := by
  unfold numberRange
  rw [floatAt_eq h.minimum, floatAt_eq h.exclusiveMinimum, floatAt_eq h.maximum,
    floatAt_eq h.exclusiveMaximum]
  refine ⟨_, _, rfl, fun q hlow hhigh => ⟨?_, ?_, ?_, ?_⟩⟩
  · intro b hb
    rw [Option.mem_def] at hb
    rw [hb] at hlow
    cases hex : numberAt fields "exclusiveMinimum" with
    | none =>
        rw [hex] at hlow
        exact hlow
    | some b' =>
        rw [hex] at hlow
        exact le_trans (le_max_left _ _) hlow
  · intro b hb
    rw [Option.mem_def] at hb
    rw [hb] at hhigh
    cases hex : numberAt fields "exclusiveMaximum" with
    | none =>
        rw [hex] at hhigh
        exact hhigh
    | some b' =>
        rw [hex] at hhigh
        exact le_trans hhigh (min_le_left _ _)
  · intro b hb
    rw [Option.mem_def] at hb
    rw [hb] at hlow
    have hlt : b < b + exclusiveEpsilon := lt_add_of_pos_right b (by norm_num [exclusiveEpsilon])
    cases hmin : numberAt fields "minimum" with
    | none =>
        rw [hmin] at hlow
        exact lt_of_lt_of_le hlt hlow
    | some b' =>
        rw [hmin] at hlow
        exact lt_of_lt_of_le hlt (le_trans (le_max_right _ _) hlow)
  · intro b hb
    rw [Option.mem_def] at hb
    rw [hb] at hhigh
    have hlt : b - exclusiveEpsilon < b := sub_lt_self b (by norm_num [exclusiveEpsilon])
    cases hmax : numberAt fields "maximum" with
    | none =>
        rw [hmax] at hhigh
        exact lt_of_le_of_lt hhigh hlt
    | some b' =>
        rw [hmax] at hhigh
        exact lt_of_le_of_lt (le_trans hhigh (min_le_right _ _)) hlt

/-! ### Counts -/

/-- A count is between the numbers at two keys. -/
def Within (fields : Fields) (low high : String) (n : ℕ) : Prop :=
  (∀ b ∈ numberAt fields low, b ≤ n) ∧ ∀ b ∈ numberAt fields high, (n : ℚ) ≤ b

/-- The range of a count whose bounds have defaults, the upper one above the lower. -/
theorem countRange {fields : Fields} {lowKey highKey : String} (hlow : Natural fields lowKey)
    (hhigh : Natural fields highKey) (a b : ℕ) : ∃ low high : ℕ,
      getInt fields lowKey a = .ok (low : ℤ) ∧
      getInt fields highKey (max (low : ℤ) b) = .ok (high : ℤ) ∧
      (numberAt fields lowKey = none → low = a) ∧
      (∀ n, low ≤ n → n ≤ high → Within fields lowKey highKey n) ∧
      (high < low → numberAt fields lowKey ≠ none →
        ∀ n, ¬ Within fields lowKey highKey n) ∧
      (high < low → numberAt fields lowKey = none → Within fields lowKey highKey 0) := by
  obtain ⟨x, hx⟩ := hlow.numberAt
  obtain ⟨y, hy⟩ := hhigh.numberAt
  refine ⟨x.getD a, y.getD (max (x.getD a) b), ?_, ?_, ?_, ?_, ?_, ?_⟩
  · rw [getInt_eq hlow.numeric, hx]
    cases x <;> simp
  · rw [getInt_eq hhigh.numeric, hy]
    cases y <;> simp
  · intro hnone
    rw [hx, Option.map_eq_none_iff] at hnone
    rw [hnone, Option.getD_none]
  · intro n hle hge
    unfold Within
    rw [hx, hy]
    cases x <;> cases y <;> simp_all
  · intro hlt hsome n hn
    unfold Within at hn
    rw [hx] at hn hsome
    rw [hy] at hn
    cases x <;> cases y <;> simp_all
    omega
  · intro hlt hnone
    unfold Within
    rw [hnone, hy]
    cases y <;> simp

end Pvllm.Grammar
