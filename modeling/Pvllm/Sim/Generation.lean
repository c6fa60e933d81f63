import Pvllm.Sim.Bounds
import Mathlib.Data.List.GetD

/-!
What the generator of JSON values can come to.

Three questions are asked of each kind of schema: whether any value can come of it, whether
each refusal of bounds is right and nothing else is raised, and whether each value passes the
validator. For a schema whose keywords have values of the right types the answers are exact.
`Yields`, `Refuses` and `Accepts` of `Soundness` put them together over a whole schema.
-/

namespace Pvllm.Grammar

open Json (Fields)

/-! ### Schemas -/

/-- The keywords that are supported have values of the types they should have, and there is
no regular expression. -/
structure WellTyped (fields : Fields) : Prop where
  ref : ∀ value, fields.get "$ref" = some value → ∃ name, value = .str name
  enum : ∀ value, fields.get "enum" = some value →
    ∃ options, value = .arr options ∧ (options.length : ℤ) ≤ 2 ^ 63
  combinators : ∀ name ∈ ["anyOf", "oneOf", "allOf"], ∀ value, fields.get name = some value →
    ∃ branches, value = .arr branches
  properties : ∀ value, fields.get "properties" = some value →
    ∃ properties, value = .obj properties ∧ (properties.map (·.1)).Nodup
  required : ∀ value, fields.get "required" = some value →
    ∃ names : List (List Char), value = .arr (names.map .str)
  minItems : Natural fields "minItems"
  maxItems : Natural fields "maxItems"
  minLength : Natural fields "minLength"
  maxLength : Natural fields "maxLength"
  bounds : NumericBounds fields
  pattern : fields.get "pattern" = none

/-- The schemas within a schema: the subschemas, and those that are referred to. -/
inductive Visited (root : Json) : Json → Prop
  | root : Visited root root
  | ref {fields : Fields} {ref target : Json} : Visited root (.obj fields) →
      fields.get "$ref" = some ref → resolveRef ref root (.obj fields) = .ok target →
      Visited root target
  | branch {fields : Fields} {name : String} {branches : List Json} {branch : Json} :
      Visited root (.obj fields) → name ∈ ["anyOf", "oneOf", "allOf"] →
      fields.get name = some (.arr branches) → branch ∈ branches → Visited root branch
  | property {fields properties : Fields} {property : List Char × Json} :
      Visited root (.obj fields) → fields.get "properties" = some (.obj properties) →
      property ∈ properties → Visited root property.2
  | items {fields : Fields} {items : Json} : Visited root (.obj fields) →
      fields.get "items" = some items → Visited root items

/-- Every schema within the schema is well typed. -/
def WellFormed (root : Json) : Prop := ∀ fields, Visited root (.obj fields) → WellTyped fields

/-! ### Exceptions -/

/-- A refusal of the bounds of a schema is right: no value is within them. -/
def Unsatisfiable (fields : Fields) : Refusal → Prop
  | .items _ _ => ∀ n, ¬ Within fields "minItems" "maxItems" n
  | .lengths _ _ => ∀ n, ¬ Within fields "minLength" "maxLength" n
  | .integers _ _ => ∀ n : ℤ, ¬ InBounds fields n
  | .numbers _ _ => ∀ q, ¬ InBounds fields q
  | _ => True

/-- The exception is a refusal, and right when it is one of bounds. -/
def Justified : GrammarError → Prop
  | .unsupported (.obj fields) refusal => Unsatisfiable fields refusal
  | .unsupported _ _ => True
  | .assertion _ _ => False
  | .raised _ => False

/-! ### The generator of random numbers -/

theorem leads_integers_ok {low high n : ℤ} : (integers low high).Leads (.ok n) ↔
    (low ≤ n ∧ n < high) ∧ -2 ^ 63 ≤ low ∧ high ≤ 2 ^ 63 := by
  unfold integers
  split
  · split
    · rename_i hfits
      simp only [Draws.leads_integer, Draws.leads_pure, Except.ok.injEq]
      constructor
      · rintro ⟨m, hlow, hhigh, rfl⟩
        exact ⟨⟨hlow, hhigh⟩, hfits⟩
      · rintro ⟨⟨hlow, hhigh⟩, -⟩
        exact ⟨n, hlow, hhigh, rfl⟩
    · rename_i hfits
      simp only [Draws.leads_fail, reduceCtorEq, false_iff]
      exact fun h => hfits h.2
  · rename_i hlt
    simp only [Draws.leads_fail, reduceCtorEq, false_iff]
    omega

theorem fails_integers {R : GrammarError → Prop} {low high : ℤ} (hR : ¬ R (.raised "ValueError")) :
    (integers low high).Fails R ↔ low < high ∧ -2 ^ 63 ≤ low ∧ high ≤ 2 ^ 63 := by
  unfold integers
  split
  · rename_i hlt
    split
    · rename_i hfits
      refine iff_of_true ?_ ⟨hlt, hfits⟩
      rintro e ⟨n, -, -, hn⟩
      cases hn
    · rename_i hfits
      rw [Draws.fails_fail]
      exact iff_of_false hR fun h => hfits h.2
  · rename_i hlt
    rw [Draws.fails_fail]
    exact iff_of_false hR fun h => hlt h.1

theorem leads_uniform_ok {low high q : ℚ} :
    (uniform low high).Leads (.ok q) ↔ low ≤ q ∧ q ≤ high := by
  unfold uniform
  split
  · simp only [Draws.leads_uniform, Draws.leads_pure, Except.ok.injEq]
    constructor
    · rintro ⟨m, hlow, hhigh, rfl⟩
      exact ⟨hlow, hhigh⟩
    · rintro ⟨hlow, hhigh⟩
      exact ⟨q, hlow, hhigh, rfl⟩
  · rename_i hle
    simp only [Draws.leads_fail, reduceCtorEq, false_iff]
    exact fun h => hle (le_trans h.1 h.2)

theorem fails_uniform {R : GrammarError → Prop} {low high : ℚ} (h : low ≤ high) :
    (uniform low high).Fails R := by
  unfold uniform
  rw [dif_pos h]
  rintro e ⟨q, -, -, hq⟩
  cases hq

theorem fails_word {R : GrammarError → Prop} : word.Fails R := by
  intro e he
  unfold word at he
  rw [Draws.leads_bind_error] at he
  obtain he | ⟨n, -, hn⟩ := he
  · unfold integers at he
    rw [dif_pos (by decide), if_pos (by decide)] at he
    obtain ⟨n, -, -, hn⟩ := he
    cases hn
  · cases hn

theorem possible_word {P : List Char → Prop} (hP : ∀ value ∈ words, P value) :
    word.Possible P := by
  refine ⟨words.getD 0 [], ?_, hP _ (by decide)⟩
  unfold word
  rw [Draws.leads_bind_ok]
  exact ⟨0, leads_integers_ok.mpr (by decide), rfl⟩

theorem possible_words {n : ℕ} :
    (Draws.each (fun _ => word) (List.replicate n ())).Possible fun _ => True :=
  Draws.possible_each.mpr fun _ _ => possible_word fun _ _ => trivial

theorem fails_words {R : GrammarError → Prop} {n : ℕ} :
    (Draws.each (fun _ => word) (List.replicate n ())).Fails R :=
  Draws.fails_each.mpr fun _ _ _ _ _ => fails_word

/-! ### Strings -/

/-- A string can be generated. -/
def StringYields (fields : Fields) : Prop :=
  formatted fields ≠ none ∨
    ∃ minimum maximum, lengthBounds fields = .ok (minimum, maximum) ∧ minimum ≤ maximum

/-- The string of a format has a length within the bounds. -/
def StringAccepts (fields : Fields) : Prop :=
  ∀ value, formatted fields = some value → Within fields "minLength" "maxLength" value.length

theorem lengthBounds_ok {fields : Fields} (h : WellTyped fields) : ∃ minimum maximum : ℕ,
    lengthBounds fields = .ok ((minimum : ℤ), (maximum : ℤ)) ∧
      (∀ n, minimum ≤ n → n ≤ maximum → Within fields "minLength" "maxLength" n) ∧
      (maximum < minimum → ∀ n, ¬ Within fields "minLength" "maxLength" n) := by
  obtain ⟨minimum, maximum, hmin, hmax, hnone, hwithin, hnot, -⟩ :=
    countRange h.minLength h.maxLength 0 24
  refine ⟨minimum, maximum, ?_, hwithin, fun hlt => hnot hlt fun hnum => ?_⟩
  · unfold lengthBounds
    show (getInt fields "minLength" ((0 : ℕ) : ℤ) >>= _) = _
    rw [hmin]
    show (getInt fields "maxLength" (max (minimum : ℤ) ((24 : ℕ) : ℤ)) >>= _) = _
    rw [hmax]
    rfl
  · have := hnone hnum
    omega

theorem fails_growString {R : GrammarError → Prop} (minimum : ℤ) (fuel : ℕ) (value : List Char) :
    (growString minimum fuel value).Fails R := by
  induction fuel generalizing value with
  | zero => exact Draws.fails_pure
  | succ fuel ih =>
      unfold growString
      split
      · rw [Draws.fails_bind]
        exact ⟨fails_word, fun next _ => ih _⟩
      · exact Draws.fails_pure

theorem possible_growString (minimum : ℤ) (fuel : ℕ) (value : List Char) :
    (growString minimum fuel value).Possible fun _ => True := by
  induction fuel generalizing value with
  | zero => exact Draws.possible_pure.mpr trivial
  | succ fuel ih =>
      unfold growString
      split
      · rw [Draws.possible_bind]
        exact possible_word fun next _ => ih _
      · exact Draws.possible_pure.mpr trivial

theorem le_length_growString {minimum : ℤ} {fuel : ℕ} {value result : List Char}
    (hfuel : minimum ≤ value.length + fuel)
    (h : (growString minimum fuel value).Leads (.ok result)) : minimum ≤ result.length := by
  induction fuel generalizing value with
  | zero =>
      obtain rfl : result = value := Except.ok.inj h
      simpa using hfuel
  | succ fuel ih =>
      unfold growString at h
      split at h
      · obtain ⟨next, -, hnext⟩ := Draws.leads_bind_ok.mp h
        apply ih _ hnext
        simp only [List.length_append, List.length_cons]
        push_cast at hfuel ⊢
        omega
      · rename_i hlt
        obtain rfl : result = value := Except.ok.inj h
        omega

section
variable {generateRegexMatch : Json → Draws GrammarError (List Char)} {schema : Json}
  {fields : Fields}

theorem possible_generateString (h : WellTyped fields) {P : Json → Prop}
    (hP : ∀ value, P (.str value)) :
    (generateString generateRegexMatch schema fields).Possible P ↔ StringYields fields := by
  unfold generateString StringYields
  rw [h.pattern]
  cases hformat : formatted fields with
  | some value => simp [hP]
  | none =>
      obtain ⟨minimum, maximum, hbounds, -⟩ := lengthBounds_ok h
      simp only [hbounds, Draws.ofExcept_ok_bind, Except.ok.injEq, Prod.mk.injEq]
      split
      · rename_i hlt
        simp only [Draws.possible_fail, false_iff]
        rintro (hne | ⟨_, _, ⟨rfl, rfl⟩, hle⟩)
        · exact hne rfl
        · omega
      · rename_i hle
        refine iff_of_true ?_ (Or.inr ⟨_, _, ⟨rfl, rfl⟩, not_lt.mp hle⟩)
        rw [Draws.possible_bind]
        refine possible_word fun first _ => ?_
        rw [Draws.possible_bind]
        obtain ⟨value, hvalue, -⟩ := possible_growString minimum (minimum : ℤ).toNat first
        exact ⟨value, hvalue, Draws.possible_pure.mpr (hP _)⟩

theorem fails_generateString (h : WellTyped fields) :
    (generateString generateRegexMatch (.obj fields) fields).Fails Justified := by
  unfold generateString
  rw [h.pattern]
  cases hformat : formatted fields with
  | some value => exact Draws.fails_pure
  | none =>
      obtain ⟨minimum, maximum, hbounds, -, hnot⟩ := lengthBounds_ok h
      simp only [hbounds, Draws.ofExcept_ok_bind]
      split
      · rename_i hlt
        rw [Draws.fails_fail]
        exact hnot (by omega)
      · rw [Draws.fails_bind]
        exact ⟨fails_word, fun first _ => Draws.fails_bind.mpr
          ⟨fails_growString _ _ _, fun _ _ => Draws.fails_pure⟩⟩

theorem validateString_iff {fullmatch : Json → List Char → Bool} {value : List Char}
    {path : List Char} (h : WellTyped fields) :
    validateString fullmatch (.str value) fields path = .ok () ↔
      Within fields "minLength" "maxLength" value.length := by
  unfold validateString Within
  rw [h.pattern]
  show (checkAt fields "minLength" _ path _ >>= fun _ => checkAt fields "maxLength" _ path _ >>=
    fun _ => Except.ok ()) = _ ↔ _
  rw [okAnd_iff, okAnd_iff, checkAt_iff h.minLength.numeric, checkAt_iff h.maxLength.numeric]
  simp

/-- A string is no object. -/
theorem generateString_isObject :
    (generateString generateRegexMatch schema fields).Always
      fun value => value.isObject = false := by
  unfold generateString
  split
  · exact Draws.always_bind.mpr fun _ _ => Draws.always_pure.mpr rfl
  · split
    · exact Draws.always_pure.mpr rfl
    · refine Draws.always_bind.mpr fun bounds _ => ?_
      dsimp only
      split
      · exact Draws.always_fail
      · exact Draws.always_bind.mpr fun _ _ => Draws.always_bind.mpr fun _ _ =>
          Draws.always_pure.mpr rfl

/-- Only the strings of a format can have a length that is not within the bounds. -/
theorem always_generateString (h : WellTyped fields) {P : Json → Prop}
    (hP : ∀ value, P (.str value) ↔ Within fields "minLength" "maxLength" value.length) :
    (generateString generateRegexMatch schema fields).Always P ↔ StringAccepts fields := by
  unfold generateString StringAccepts
  rw [h.pattern]
  cases hformat : formatted fields with
  | some value =>
      simp only [Draws.always_pure, hP, Option.some.injEq, forall_eq']
  | none =>
      refine iff_of_true ?_ fun value hvalue => (by cases hvalue)
      obtain ⟨minimum, maximum, hbounds, hwithin, -⟩ := lengthBounds_ok h
      simp only [hbounds, Draws.ofExcept_ok_bind]
      split
      · exact Draws.always_fail
      · rename_i hle
        rw [Draws.always_bind]
        intro first _
        rw [Draws.always_bind]
        intro value hvalue
        rw [Draws.always_pure, hP]
        have hlength := le_length_growString (by omega) hvalue
        apply hwithin
        · rw [List.length_take]
          omega
        · rw [List.length_take]
          omega

end

/-! ### Numbers -/

/-- The range is one of 64-bit integers. -/
def Fits (low high : ℤ) : Prop := -2 ^ 63 ≤ low ∧ high < 2 ^ 63

/-- An integer can be generated. -/
def IntegerYields (fields : Fields) : Prop :=
  ∃ low high, integerRange fields = .ok (low, high) ∧ low ≤ high ∧ Fits low high

/-- A refusal of the bounds of an integer is right, and there is no other failure. -/
def IntegerRefuses (fields : Fields) : Prop :=
  ∀ low high, integerRange fields = .ok (low, high) →
    (high < low → ∃ l ∈ least fields, ∃ h ∈ greatest fields, h < l) ∧
      (low ≤ high → Fits low high)

/-- Every integer that can be generated is within the bounds. -/
def IntegerAccepts (fields : Fields) : Prop :=
  ∀ low high, integerRange fields = .ok (low, high) → low ≤ high → Fits low high →
    (∀ l ∈ least fields, l ≤ low) ∧ ∀ h ∈ greatest fields, high ≤ h

/-- A number can be generated. -/
def NumberYields (fields : Fields) : Prop :=
  ∃ low high, numberRange fields = .ok (low, high) ∧ low ≤ high

/-- A refusal of the bounds of a number is right. -/
def NumberRefuses (fields : Fields) : Prop :=
  ∀ low high, numberRange fields = .ok (low, high) → high < low → Crossed fields

section
variable {schema : Json} {fields : Fields}

theorem leads_generateInteger {low high : ℤ} (hrange : integerRange fields = .ok (low, high))
    {value : Json} : (generateInteger schema fields).Leads (.ok value) ↔
      Fits low high ∧ ∃ n : ℤ, value = .int n ∧ low ≤ n ∧ n ≤ high := by
  unfold generateInteger
  simp only [hrange, Draws.ofExcept_ok_bind]
  split
  · rename_i hlt
    simp only [Draws.leads_fail, reduceCtorEq, false_iff]
    rintro ⟨-, n, -, hlow, hhigh⟩
    omega
  · simp only [Draws.leads_bind_ok, leads_integers_ok, Draws.leads_pure, Except.ok.injEq, Fits]
    constructor
    · rintro ⟨n, ⟨⟨hlow, hhigh⟩, hfits⟩, rfl⟩
      exact ⟨by omega, n, rfl, hlow, by omega⟩
    · rintro ⟨hfits, n, rfl, hlow, hhigh⟩
      exact ⟨n, by omega, rfl⟩

theorem possible_generateInteger (h : WellTyped fields) {P : Json → Prop}
    (hP : ∀ n, P (.int n)) :
    (generateInteger schema fields).Possible P ↔ IntegerYields fields := by
  obtain ⟨low, high, hrange⟩ := integerRange_ok h.bounds
  unfold Draws.Possible IntegerYields
  simp only [leads_generateInteger hrange, hrange, Except.ok.injEq, Prod.mk.injEq]
  constructor
  · rintro ⟨_, ⟨hfits, n, rfl, hlow, hhigh⟩, -⟩
    exact ⟨low, high, ⟨rfl, rfl⟩, le_trans hlow hhigh, hfits⟩
  · rintro ⟨_, _, ⟨rfl, rfl⟩, hle, hfits⟩
    exact ⟨.int low, ⟨hfits, low, rfl, le_rfl, hle⟩, hP low⟩

theorem fails_generateInteger (h : WellTyped fields) :
    (generateInteger (.obj fields) fields).Fails Justified ↔ IntegerRefuses fields := by
  obtain ⟨low, high, hrange⟩ := integerRange_ok h.bounds
  unfold generateInteger IntegerRefuses
  simp only [hrange, Draws.ofExcept_ok_bind, Except.ok.injEq, Prod.mk.injEq]
  split
  · rename_i hlt
    rw [Draws.fails_fail]
    show (∀ n : ℤ, ¬ InBounds fields n) ↔ _
    rw [forall_not_inBounds_intCast_iff]
    constructor
    · rintro hcrossed _ _ ⟨rfl, rfl⟩
      exact ⟨fun _ => hcrossed, fun hle => absurd hlt (not_lt.mpr hle)⟩
    · intro hall
      exact (hall low high ⟨rfl, rfl⟩).1 hlt
  · rename_i hle
    rw [Draws.fails_bind, fails_integers (fun hraised => hraised)]
    constructor
    · rintro ⟨⟨-, hlow, hhigh⟩, -⟩ _ _ ⟨rfl, rfl⟩
      exact ⟨fun hlt => absurd hlt hle, fun _ => ⟨hlow, by omega⟩⟩
    · intro hall
      obtain ⟨hlow, hhigh⟩ := (hall low high ⟨rfl, rfl⟩).2 (not_lt.mp hle)
      exact ⟨⟨by omega, hlow, by omega⟩, fun _ _ => Draws.fails_pure⟩

theorem always_generateInteger (h : WellTyped fields) {P : Json → Prop}
    (hP : ∀ n : ℤ, P (.int n) ↔ InBounds fields n) :
    (generateInteger schema fields).Always P ↔ IntegerAccepts fields := by
  obtain ⟨low, high, hrange⟩ := integerRange_ok h.bounds
  unfold Draws.Always IntegerAccepts
  simp only [leads_generateInteger hrange, hrange, Except.ok.injEq, Prod.mk.injEq]
  constructor
  · rintro hall _ _ ⟨rfl, rfl⟩ hle hfits
    have hlow := hall (.int low) ⟨hfits, low, rfl, le_rfl, hle⟩
    have hhigh := hall (.int high) ⟨hfits, high, rfl, hle, le_rfl⟩
    exact ⟨(inBounds_intCast_iff.mp ((hP low).mp hlow)).1,
      (inBounds_intCast_iff.mp ((hP high).mp hhigh)).2⟩
  · rintro hall _ ⟨hfits, n, rfl, hlow, hhigh⟩
    obtain ⟨hleast, hgreatest⟩ := hall low high ⟨rfl, rfl⟩ (le_trans hlow hhigh) hfits
    apply (hP n).mpr
    exact inBounds_intCast_iff.mpr ⟨fun l hl => le_trans (hleast l hl) hlow,
      fun m hm => le_trans hhigh (hgreatest m hm)⟩

/-- An integer is no object. -/
theorem generateInteger_isObject :
    (generateInteger schema fields).Always fun value => value.isObject = false := by
  unfold generateInteger
  refine Draws.always_bind.mpr fun bounds _ => ?_
  dsimp only
  split
  · exact Draws.always_fail
  · exact Draws.always_bind.mpr fun _ _ => Draws.always_pure.mpr rfl

theorem possible_generateNumber (h : WellTyped fields) {P : Json → Prop}
    (hP : ∀ q, P (.float q)) :
    (generateNumber schema fields).Possible P ↔ NumberYields fields := by
  obtain ⟨low, high, hrange, -⟩ := numberRange_ok h.bounds
  unfold generateNumber NumberYields
  simp only [hrange, Draws.ofExcept_ok_bind, Except.ok.injEq, Prod.mk.injEq]
  split
  · rename_i hlt
    simp only [Draws.possible_fail, false_iff]
    rintro ⟨_, _, ⟨rfl, rfl⟩, hle⟩
    exact absurd hlt (not_lt.mpr hle)
  · rename_i hle
    refine iff_of_true ?_ ⟨low, high, ⟨rfl, rfl⟩, not_lt.mp hle⟩
    rw [Draws.possible_bind]
    exact ⟨low, leads_uniform_ok.mpr ⟨le_rfl, not_lt.mp hle⟩, Draws.possible_pure.mpr (hP _)⟩

theorem fails_generateNumber (h : WellTyped fields) :
    (generateNumber (.obj fields) fields).Fails Justified ↔ NumberRefuses fields := by
  obtain ⟨low, high, hrange, -⟩ := numberRange_ok h.bounds
  unfold generateNumber NumberRefuses
  simp only [hrange, Draws.ofExcept_ok_bind, Except.ok.injEq, Prod.mk.injEq]
  split
  · rename_i hlt
    rw [Draws.fails_fail]
    show (∀ q, ¬ InBounds fields q) ↔ _
    rw [forall_not_inBounds_iff]
    constructor
    · rintro hcrossed _ _ ⟨rfl, rfl⟩ _
      exact hcrossed
    · intro hall
      exact hall low high ⟨rfl, rfl⟩ hlt
  · rename_i hle
    refine iff_of_true ?_ ?_
    · exact Draws.fails_bind.mpr ⟨fails_uniform (not_lt.mp hle), fun _ _ => Draws.fails_pure⟩
    · rintro _ _ ⟨rfl, rfl⟩ hlt
      exact absurd hlt hle

/-- A number that was rounded is put back between the bounds. -/
theorem always_generateNumber (h : WellTyped fields) {P : Json → Prop}
    (hP : ∀ q, InBounds fields q → P (.float q)) : (generateNumber schema fields).Always P := by
  obtain ⟨low, high, hrange, hwithin⟩ := numberRange_ok h.bounds
  unfold generateNumber
  simp only [hrange, Draws.ofExcept_ok_bind]
  split
  · exact Draws.always_fail
  · rename_i hle
    rw [Draws.always_bind]
    intro q _
    rw [Draws.always_pure]
    exact hP _ (hwithin _ (le_min (le_max_right _ _) (not_lt.mp hle)) (min_le_right _ _))

end

/-! ### Arrays -/

/-- An array of so many items can be generated, when it is known for which schemas a value
can. -/
def ItemsYield (yields : Json → Prop) (fields : Fields) (count : ℕ) : Prop :=
  match fields.get "items" with
  | none | some .null => True
  | some (.arr _) => False
  | some items => 0 < count → yields items

/-- What is needed of the schema of the items, for the failures to be right. -/
def ItemsRefuse (refuses : Json → Prop) (fields : Fields) (count : ℕ) : Prop :=
  match fields.get "items" with
  | none | some .null | some (.arr _) => True
  | some items => 0 < count → refuses items

/-- What is needed of the schema of the items, for the arrays to be accepted. -/
def ItemsAccept (accepts : Json → Prop) (fields : Fields) (count : ℕ) : Prop :=
  match fields.get "items" with
  | some (.obj items) => 0 < count → accepts (.obj items)
  | _ => True

/-- An array can be generated. -/
def ArrayYields (yields : Json → Prop) (fields : Fields) : Prop :=
  ∃ low high, itemBounds fields = .ok (low, high) ∧ low ≤ high ∧ high < 2 ^ 63 ∧
    ItemsYield yields fields low.toNat

/-- The failures of an array schema are right. When the bounds cross though no `minItems`
is set, it is the default that was above `maxItems`. -/
def ArrayRefuses (refuses : Json → Prop) (fields : Fields) : Prop :=
  ∀ low high, itemBounds fields = .ok (low, high) →
    (high < low → numberAt fields "minItems" ≠ none) ∧
      (low ≤ high → high < 2 ^ 63 ∧ ItemsRefuse refuses fields high.toNat)

/-- The arrays are accepted. -/
def ArrayAccepts (accepts : Json → Prop) (fields : Fields) : Prop :=
  ∀ low high, itemBounds fields = .ok (low, high) → low ≤ high → high < 2 ^ 63 →
    ItemsAccept accepts fields high.toNat

theorem itemBounds_ok {fields : Fields} (h : WellTyped fields) : ∃ low high : ℕ,
    itemBounds fields = .ok ((low : ℤ), (high : ℤ)) ∧
      (∀ n, low ≤ n → n ≤ high → Within fields "minItems" "maxItems" n) ∧
      (high < low → ((∀ n, ¬ Within fields "minItems" "maxItems" n) ↔
        numberAt fields "minItems" ≠ none)) := by
  obtain ⟨low, high, hlow, hhigh, -, hwithin, hnot, hzero⟩ :=
    countRange h.minItems h.maxItems 1 3
  refine ⟨low, high, ?_, hwithin, fun hlt => ⟨fun hall hnone => ?_, hnot hlt⟩⟩
  · unfold itemBounds
    show (getInt fields "minItems" ((1 : ℕ) : ℤ) >>= _) = _
    rw [hlow]
    show (getInt fields "maxItems" (max (low : ℤ) ((3 : ℕ) : ℤ)) >>= _) = _
    rw [hhigh]
    rfl
  · exact hall 0 (hzero hlt hnone)

section
variable {generate : Json → Draws GrammarError Json} {schema : Json} {fields : Fields}

theorem possible_replicate {p : Draws GrammarError Json} {n : ℕ} :
    (Draws.each (fun _ => p) (List.replicate n ())).Possible (fun _ => True) ↔
      (0 < n → p.Possible fun _ => True) := by
  rw [Draws.possible_each]
  simp only [List.mem_replicate]
  exact ⟨fun h hn => h () ⟨by omega, trivial⟩, fun h _ hn => h (by omega)⟩

theorem fails_replicate {p : Draws GrammarError Json} {n : ℕ} {R : GrammarError → Prop} :
    (Draws.each (fun _ => p) (List.replicate n ())).Fails R ↔ (0 < n → p.Fails R) := by
  rw [Draws.fails_each]
  constructor
  · intro h hn
    obtain ⟨n, rfl⟩ := Nat.exists_eq_add_of_lt hn
    exact h [] () (List.replicate (0 + n) ()) rfl fun _ hmem => absurd hmem List.not_mem_nil
  · intro h before a after heq _
    apply h
    have := congrArg List.length heq
    simp only [List.length_replicate, List.length_append, List.length_cons] at this
    omega

theorem leads_replicate {α : Type} {p : Draws GrammarError α} {n : ℕ} {a : α}
    (h : p.Leads (.ok a)) : (Draws.each (fun _ => p) (List.replicate n ())).Leads
      (.ok (List.replicate n a)) := by
  rw [Draws.leads_each_ok, List.forall₂_iff_get]
  simpa using fun _ _ => h

theorem leads_of_mem_replicate {α : Type} {p : Draws GrammarError α} {n : ℕ} {results : List α}
    {a : α} (h : (Draws.each (fun _ => p) (List.replicate n ())).Leads (.ok results))
    (ha : a ∈ results) : p.Leads (.ok a) := by
  rw [Draws.leads_each_ok, List.forall₂_iff_get] at h
  obtain ⟨i, hi, rfl⟩ := List.mem_iff_getElem.mp ha
  exact h.2 i (by rw [h.1]; exact hi) hi

theorem possible_generateItems {yields : Json → Prop} {count : ℕ} {P : Json → Prop}
    (hsub : ∀ items, fields.get "items" = some items →
      ((generate items).Possible (fun _ => True) ↔ yields items))
    (hP : ∀ items, P (.arr items)) :
    (generateItems generate schema fields count).Possible P ↔ ItemsYield yields fields count := by
  have hdone : ∀ {α : Type} {p : Draws GrammarError α} {f : α → List Json},
      (p >>= fun a => pure (.arr (f a))).Possible P ↔ p.Possible fun _ => True := by
    intro α p f
    rw [Draws.possible_bind]
    exact exists_congr fun a => and_congr_right fun _ =>
      iff_of_true (Draws.possible_pure.mpr (hP _)) trivial
  unfold generateItems ItemsYield
  cases hitems : fields.get "items" with
  | none => exact iff_of_true (hdone.mpr possible_words) trivial
  | some items =>
      have hsub := hsub items hitems
      cases items with
      | null => exact iff_of_true (hdone.mpr possible_words) trivial
      | arr items => exact iff_of_false Draws.possible_fail not_false
      | bool b => rw [hdone, possible_replicate, hsub]
      | int n => rw [hdone, possible_replicate, hsub]
      | float q => rw [hdone, possible_replicate, hsub]
      | str s => rw [hdone, possible_replicate, hsub]
      | obj items => rw [hdone, possible_replicate, hsub]

theorem fails_generateItems {refuses : Json → Prop} {count : ℕ}
    (hsub : ∀ items, fields.get "items" = some items →
      ((generate items).Fails Justified ↔ refuses items)) :
    (generateItems generate (.obj fields) fields count).Fails Justified ↔
      ItemsRefuse refuses fields count := by
  have hdone : ∀ {α : Type} {p : Draws GrammarError α} {f : α → Json},
      (p >>= fun a => pure (f a)).Fails Justified ↔ p.Fails Justified := by
    intro α p f
    rw [Draws.fails_bind]
    exact and_iff_left fun _ _ => Draws.fails_pure
  unfold generateItems ItemsRefuse
  cases hitems : fields.get "items" with
  | none => exact iff_of_true (hdone.mpr fails_words) trivial
  | some items =>
      have hsub := hsub items hitems
      cases items with
      | null => exact iff_of_true (hdone.mpr fails_words) trivial
      | arr items => exact iff_of_true (Draws.fails_fail.mpr trivial) trivial
      | bool b => rw [hdone, fails_replicate, hsub]
      | int n => rw [hdone, fails_replicate, hsub]
      | float q => rw [hdone, fails_replicate, hsub]
      | str s => rw [hdone, fails_replicate, hsub]
      | obj items => rw [hdone, fails_replicate, hsub]

theorem checkItems_ok {validate : Json → List Char → Except GrammarError Unit} {path : List Char}
    {index : ℕ} {items : List Json} (h : ∀ item ∈ items, ∀ path, validate item path = .ok ()) :
    checkItems validate path index items = .ok () := by
  induction items generalizing index with
  | nil => rfl
  | cons item rest ih =>
      rw [List.forall_mem_cons] at h
      unfold checkItems
      rw [okAnd_iff]
      exact ⟨h.1 _, ih h.2⟩

/-- What the validator says of an array. -/
theorem validateArray_iff {validate : Json → Json → List Char → Except GrammarError Unit}
    {items : List Json} {path : List Char} (h : WellTyped fields) :
    validateArray validate (.arr items) fields path = .ok () ↔
      Within fields "minItems" "maxItems" items.length ∧
        ∀ schema, fields.get "items" = some (.obj schema) →
          checkItems (fun item => validate item (.obj schema)) path 0 items = .ok () := by
  unfold validateArray Within
  simp only [okAnd_iff, checkAt_iff h.minItems.numeric, checkAt_iff h.maxItems.numeric,
    decide_eq_true_eq, and_assoc]
  refine and_congr_right fun _ => and_congr_right fun _ => ?_
  cases hitems : fields.get "items" with
  | none => simp
  | some items =>
      cases items <;> simp

theorem always_generateItems {accepts : Json → Prop} {count : ℕ} {P : Json → Prop}
    {validate : Json → Json → List Char → Except GrammarError Unit} {path : List Char}
    (hsub : ∀ items, fields.get "items" = some items → ∀ path,
      ((generate items).Always (fun value => validate value items path = .ok ()) ↔
        accepts items))
    (hP : ∀ items : List Json, items.length = count → (P (.arr items) ↔
      ∀ schema, fields.get "items" = some (.obj schema) →
        checkItems (fun item => validate item (.obj schema)) path 0 items = .ok ())) :
    (generateItems generate schema fields count).Always P ↔ ItemsAccept accepts fields count := by
  have hlength : ∀ {β : Type} {p : Draws GrammarError β} {values : List β},
      (Draws.each (fun _ => p) (List.replicate count ())).Leads (.ok values) →
      values.length = count := by
    intro β p values hvalues
    rw [← (Draws.leads_each_ok.mp hvalues).length_eq, List.length_replicate]
  have hdone : ∀ {β : Type} {p : Draws GrammarError β} {f : List β → List Json},
      (Draws.each (fun _ => p) (List.replicate count ()) >>= fun a => pure (.arr (f a))).Always P ↔
        ∀ values, (Draws.each (fun _ => p) (List.replicate count ())).Leads (.ok values) →
          P (.arr (f values)) := by
    intro β p f
    simp only [Draws.always_bind, Draws.always_pure]
    rfl
  have hfree : (∀ schema, fields.get "items" ≠ some (.obj schema)) →
      ∀ items : List Json, items.length = count → P (.arr items) :=
    fun hno items hcount => (hP items hcount).mpr fun schema hschema => absurd hschema (hno schema)
  unfold generateItems ItemsAccept
  cases hitems : fields.get "items" with
  | none =>
      refine iff_of_true (hdone.mpr fun values hvalues => ?_) trivial
      exact hfree (by simp [hitems]) _ (by rw [List.length_map, hlength hvalues])
  | some items =>
      have hsub := hsub items hitems
      cases items with
      | null =>
          refine iff_of_true (hdone.mpr fun values hvalues => ?_) trivial
          exact hfree (by simp [hitems]) _ (by rw [List.length_map, hlength hvalues])
      | arr items => exact iff_of_true Draws.always_fail trivial
      | bool b =>
          exact iff_of_true (hdone.mpr fun _ h => hfree (by simp [hitems]) _ (hlength h)) trivial
      | int n =>
          exact iff_of_true (hdone.mpr fun _ h => hfree (by simp [hitems]) _ (hlength h)) trivial
      | float q =>
          exact iff_of_true (hdone.mpr fun _ h => hfree (by simp [hitems]) _ (hlength h)) trivial
      | str s =>
          exact iff_of_true (hdone.mpr fun _ h => hfree (by simp [hitems]) _ (hlength h)) trivial
      | obj items =>
          dsimp only
          rw [hdone]
          constructor
          · intro hall hcount
            apply (hsub (path ++ '[' :: Nat.toDigits 10 0 ++ [']'])).mp
            intro value hvalue
            -- an array of one value, again and again, may come of the schema
            have hcheck := (hP _ (List.length_replicate ..)).mp
              (hall (List.replicate count value) (leads_replicate hvalue)) items hitems
            obtain ⟨n, rfl⟩ := Nat.exists_eq_add_of_lt hcount
            rw [List.replicate_succ, checkItems, okAnd_iff] at hcheck
            exact hcheck.1
          · intro haccepts values hvalues
            rw [hP _ (hlength hvalues)]
            intro schema hschema
            rw [hitems, Option.some.injEq] at hschema
            cases hschema
            apply checkItems_ok
            intro value hmem path'
            have hpos : 0 < count := by
              rw [← hlength hvalues]
              exact List.length_pos_of_mem hmem
            exact (hsub path').mpr (haccepts hpos) value (leads_of_mem_replicate hvalues hmem)

theorem ItemsYield.of_le {yields : Json → Prop} {m n : ℕ} (hle : m ≤ n)
    (h : ItemsYield yields fields n) : ItemsYield yields fields m := by
  unfold ItemsYield at h ⊢
  split at h
  · trivial
  · trivial
  · exact h
  · exact fun hm => h (by omega)

theorem ItemsRefuse.of_le {refuses : Json → Prop} {m n : ℕ} (hle : m ≤ n)
    (h : ItemsRefuse refuses fields n) : ItemsRefuse refuses fields m := by
  unfold ItemsRefuse at h ⊢
  split at h
  · trivial
  · trivial
  · trivial
  · exact fun hm => h (by omega)

theorem ItemsAccept.of_le {accepts : Json → Prop} {m n : ℕ} (hle : m ≤ n)
    (h : ItemsAccept accepts fields n) : ItemsAccept accepts fields m := by
  unfold ItemsAccept at h ⊢
  split at h
  · exact fun hm => h (by omega)
  · trivial

/-- An array is no object. -/
theorem generateArray_isObject :
    (generateArray generate schema fields).Always fun value => value.isObject = false := by
  unfold generateArray
  refine Draws.always_bind.mpr fun bounds _ => ?_
  dsimp only
  split
  · exact Draws.always_fail
  · refine Draws.always_bind.mpr fun count _ => ?_
    unfold generateItems
    split
    · exact Draws.always_bind.mpr fun _ _ => Draws.always_pure.mpr rfl
    · exact Draws.always_bind.mpr fun _ _ => Draws.always_pure.mpr rfl
    · exact Draws.always_fail
    · exact Draws.always_bind.mpr fun _ _ => Draws.always_pure.mpr rfl

theorem possible_generateArray {yields : Json → Prop} {P : Json → Prop} (h : WellTyped fields)
    (hsub : ∀ items, fields.get "items" = some items →
      ((generate items).Possible (fun _ => True) ↔ yields items))
    (hP : ∀ items, P (.arr items)) :
    (generateArray generate schema fields).Possible P ↔ ArrayYields yields fields := by
  obtain ⟨low, high, hbounds, -⟩ := itemBounds_ok h
  unfold generateArray ArrayYields
  simp only [hbounds, Draws.ofExcept_ok_bind, Except.ok.injEq, Prod.mk.injEq]
  split
  · rename_i hlt
    refine iff_of_false Draws.possible_fail ?_
    rintro ⟨_, _, ⟨rfl, rfl⟩, hle, -⟩
    exact absurd hlt (not_lt.mpr hle)
  · rename_i hle
    rw [Draws.possible_bind]
    simp only [possible_generateItems hsub hP]
    constructor
    · rintro ⟨count, hcount, hitems⟩
      obtain ⟨⟨hlow, -⟩, -, hhigh⟩ := leads_integers_ok.mp hcount
      exact ⟨low, high, ⟨rfl, rfl⟩, by omega, by omega, hitems.of_le (by omega)⟩
    · rintro ⟨_, _, ⟨rfl, rfl⟩, _, hhigh, hitems⟩
      exact ⟨low, leads_integers_ok.mpr (by omega), hitems⟩

theorem fails_generateArray {refuses : Json → Prop} (h : WellTyped fields)
    (hsub : ∀ items, fields.get "items" = some items →
      ((generate items).Fails Justified ↔ refuses items)) :
    (generateArray generate (.obj fields) fields).Fails Justified ↔
      ArrayRefuses refuses fields := by
  obtain ⟨low, high, hbounds, -, hcrossed⟩ := itemBounds_ok h
  unfold generateArray ArrayRefuses
  simp only [hbounds, Draws.ofExcept_ok_bind, Except.ok.injEq, Prod.mk.injEq]
  split
  · rename_i hlt
    rw [Draws.fails_fail]
    show (∀ n, ¬ Within fields "minItems" "maxItems" n) ↔ _
    rw [hcrossed (by omega)]
    constructor
    · rintro hmin _ _ ⟨rfl, rfl⟩
      exact ⟨fun _ => hmin, fun hle => absurd hlt (not_lt.mpr hle)⟩
    · intro hall
      exact (hall low high ⟨rfl, rfl⟩).1 hlt
  · rename_i hle
    rw [Draws.fails_bind, fails_integers (fun hraised => hraised)]
    simp only [fails_generateItems hsub]
    constructor
    · rintro ⟨⟨-, -, hfits⟩, hitems⟩ _ _ ⟨rfl, rfl⟩
      refine ⟨fun hlt => absurd hlt hle, fun _ => ⟨by omega, ?_⟩⟩
      exact hitems high (leads_integers_ok.mpr (by omega))
    · intro hall
      obtain ⟨hhigh, hitems⟩ := (hall low high ⟨rfl, rfl⟩).2 (not_lt.mp hle)
      refine ⟨by omega, fun count hcount => ?_⟩
      obtain ⟨⟨-, hlt⟩, -⟩ := leads_integers_ok.mp hcount
      exact hitems.of_le (by omega)

theorem always_generateArray {accepts : Json → Prop} {P : Json → Prop}
    {validate : Json → Json → List Char → Except GrammarError Unit} {path : List Char}
    (h : WellTyped fields)
    (hsub : ∀ items, fields.get "items" = some items → ∀ path,
      ((generate items).Always (fun value => validate value items path = .ok ()) ↔
        accepts items))
    (hP : ∀ items : List Json, (P (.arr items) ↔
      Within fields "minItems" "maxItems" items.length ∧
        ∀ schema, fields.get "items" = some (.obj schema) →
          checkItems (fun item => validate item (.obj schema)) path 0 items = .ok ())) :
    (generateArray generate schema fields).Always P ↔ ArrayAccepts accepts fields := by
  obtain ⟨low, high, hbounds, hwithin, -⟩ := itemBounds_ok h
  have hitems : ∀ count, low ≤ count → count ≤ high →
      ((generateItems generate schema fields count).Always P ↔
        ItemsAccept accepts fields count) := by
    intro count hlow hhigh
    apply always_generateItems hsub
    intro items hcount
    rw [hP, hcount]
    exact and_iff_right (hwithin count hlow hhigh)
  unfold generateArray ArrayAccepts
  simp only [hbounds, Draws.ofExcept_ok_bind, Except.ok.injEq, Prod.mk.injEq]
  split
  · rename_i hlt
    refine iff_of_true Draws.always_fail ?_
    rintro _ _ ⟨rfl, rfl⟩ hle
    exact absurd hlt (not_lt.mpr hle)
  · rename_i hle
    rw [Draws.always_bind]
    constructor
    · rintro hall _ _ ⟨rfl, rfl⟩ - hhigh
      exact (hitems high (by omega) le_rfl).mp (hall high (leads_integers_ok.mpr (by omega)))
    · intro haccepts count hcount
      obtain ⟨⟨hlow, hlt⟩, -, hhigh⟩ := leads_integers_ok.mp hcount
      apply (hitems count.toNat (by omega) (by omega)).mpr
      exact (haccepts low high ⟨rfl, rfl⟩ (not_lt.mp hle) (by omega)).of_le (by omega)

end

/-! ### Objects -/

/-- An object can be generated. -/
def ObjectYields (yields : Json → Prop) (fields : Fields) : Prop :=
  ∃ ps names, properties fields = .ok ps ∧ required fields = .ok names ∧
    (∀ p ∈ ps, yields p.2) ∧ ∀ name ∈ names, name ∈ ps.map (·.1)

/-- The failures of an object schema are right. The properties are generated in turn. -/
def ObjectRefuses (yields refuses : Json → Prop) (fields : Fields) : Prop :=
  ∀ ps, properties fields = .ok ps → ∀ before p after, ps = before ++ p :: after →
    (∀ earlier ∈ before, yields earlier.2) → refuses p.2

/-- The objects are accepted. -/
def ObjectAccepts (yields accepts : Json → Prop) (fields : Fields) : Prop :=
  ObjectYields yields fields → ∀ ps, properties fields = .ok ps → ∀ p ∈ ps, accepts p.2

theorem properties_ok {fields : Fields} (h : WellTyped fields) :
    ∃ ps, properties fields = .ok ps ∧ (ps.map (·.1)).Nodup := by
  unfold properties
  cases hget : fields.get "properties" with
  | none => exact ⟨[], rfl, List.nodup_nil⟩
  | some value =>
      obtain ⟨ps, rfl, hnodup⟩ := h.properties value hget
      exact ⟨ps, rfl, hnodup⟩

theorem get_properties {fields ps : Fields} (h : properties fields = .ok ps) {p : List Char × Json}
    (hp : p ∈ ps) : fields.get "properties" = some (.obj ps) := by
  unfold properties at h
  split at h
  · rw [Except.ok.injEq] at h
    rw [← h] at hp
    cases hp
  · rename_i hget
    rw [Except.ok.injEq] at h
    rw [hget, h]
  · split at h
    · cases h
    · rw [Except.ok.injEq] at h
      rw [← h] at hp
      cases hp

theorem required_ok {fields : Fields} (h : WellTyped fields) :
    ∃ names, required fields = .ok names := by
  unfold required
  cases hget : fields.get "required" with
  | none => exact ⟨[], rfl⟩
  | some value =>
      obtain ⟨names, rfl⟩ := h.required value hget
      refine ⟨names, ?_⟩
      clear hget
      show (names.map Json.str).mapM _ = _
      induction names with
      | nil => rfl
      | cons name rest ih =>
          rw [List.map_cons, List.mapM_cons, ih]
          rfl

theorem checkRequired_iff {value : Fields} {path : List Char} {names : List (List Char)} :
    checkRequired value path names = .ok () ↔ ∀ name ∈ names, name ∈ value.map (·.1) := by
  induction names with
  | nil => simp [checkRequired]
  | cons name rest ih =>
      unfold checkRequired
      rw [okAnd_iff, ih, List.forall_mem_cons]
      apply and_congr_left
      intro _
      unfold check
      split
      · rename_i hmem
        simpa using hmem
      · rename_i hmem
        simpa using hmem

theorem checkProperties_iff {validate : Json → Json → List Char → Except GrammarError Unit}
    {value ps : Fields} {path : List Char} :
    checkProperties validate value path ps = .ok () ↔
      ∀ p ∈ ps, ∀ field, value.find? (fun field => field.1 = p.1) = some field →
        validate field.2 p.2 (path ++ '.' :: p.1) = .ok () := by
  induction ps with
  | nil => simp [checkProperties]
  | cons p rest ih =>
      obtain ⟨name, subschema⟩ := p
      unfold checkProperties
      rw [List.forall_mem_cons, ← ih]
      cases hfind : value.find? fun field => field.1 = name with
      | none => simp [okAnd_iff]
      | some field => simp [okAnd_iff]

theorem forall_find_zip_iff {ps : Fields} {values : List Json}
    {P : List Char × Json → Json → Prop} (hnodup : (ps.map (·.1)).Nodup)
    (hlength : ps.length = values.length) :
    (∀ p ∈ ps, ∀ field, ((ps.map (·.1)).zip values).find? (fun field => field.1 = p.1) =
      some field → P p field.2) ↔ List.Forall₂ P ps values := by
  induction ps generalizing values with
  | nil =>
      obtain rfl := List.eq_nil_of_length_eq_zero hlength.symm
      simp
  | cons p rest ih =>
      cases values with
      | nil => simp at hlength
      | cons value values =>
          rw [List.map_cons, List.nodup_cons] at hnodup
          rw [List.forall₂_cons, List.forall_mem_cons, ← ih hnodup.2 (Nat.succ.inj hlength)]
          apply and_congr
          · simp
          · refine forall_congr' fun p' => forall_congr' fun hp' => forall_congr' fun field => ?_
            have hne : p.1 ≠ p'.1 := fun heq => hnodup.1 (by
              rw [heq]
              exact List.mem_map_of_mem hp')
            simp [hne]

section
variable {generate : Json → Draws GrammarError Json} {schema : Json} {fields ps : Fields}
  {names : List (List Char)}

theorem leads_generateObject (hps : properties fields = .ok ps)
    (hnames : required fields = .ok names) {value : Json} :
    (generateObject generate schema fields).Leads (.ok value) ↔
      (∀ name ∈ names, name ∈ ps.map (·.1)) ∧ ∃ values,
        (Draws.each (fun p => generate p.2) ps).Leads (.ok values) ∧
          ((ps ≠ [] ∧ value = .obj ((ps.map (·.1)).zip values)) ∨
            (ps = [] ∧ ∃ text, word.Leads (.ok text) ∧
              value = .obj [("result".toList, .str text)])) := by
  have hmissing : ∀ values, (Draws.each (fun p => generate p.2) ps).Leads (.ok values) →
      (names.filter (fun name => !(((ps.map (·.1)).zip values).map (·.1)).contains name) ≠ [] ↔
        ¬ ∀ name ∈ names, name ∈ ps.map (·.1)) := by
    intro values hvalues
    have hlength := (Draws.leads_each_ok.mp hvalues).length_eq
    rw [List.map_fst_zip (by simp [hlength]), ne_eq, List.filter_eq_nil_iff]
    simp
  unfold generateObject
  simp only [hps, hnames, Draws.ofExcept_ok_bind, Draws.leads_bind_ok]
  constructor
  · rintro ⟨values, hvalues, hvalue⟩
    split at hvalue
    · cases hvalue
    · rename_i hno
      rw [hmissing values hvalues, not_not] at hno
      refine ⟨hno, values, hvalues, ?_⟩
      split at hvalue
      · rename_i hnil
        obtain ⟨text, htext, hdone⟩ := Draws.leads_bind_ok.mp hvalue
        exact Or.inr ⟨hnil, text, htext, Except.ok.inj hdone⟩
      · rename_i hne
        exact Or.inl ⟨hne, Except.ok.inj hvalue⟩
  · rintro ⟨hall, values, hvalues, hvalue⟩
    refine ⟨values, hvalues, ?_⟩
    rw [if_neg (by rw [hmissing values hvalues]; exact not_not.mpr hall)]
    obtain ⟨hne, rfl⟩ | ⟨hnil, text, htext, rfl⟩ := hvalue
    · rw [if_neg hne]
      rfl
    · rw [if_pos hnil]
      exact Draws.leads_bind_ok.mpr ⟨text, htext, rfl⟩

theorem possible_generateObject {yields : Json → Prop} {P : Json → Prop} (h : WellTyped fields)
    (hsub : ∀ ps, properties fields = .ok ps → ∀ p ∈ ps,
      ((generate p.2).Possible (fun _ => True) ↔ yields p.2))
    (hP : ∀ value, P (.obj value)) :
    (generateObject generate schema fields).Possible P ↔ ObjectYields yields fields := by
  obtain ⟨ps, hps, -⟩ := properties_ok h
  obtain ⟨names, hnames⟩ := required_ok h
  unfold Draws.Possible ObjectYields
  simp only [leads_generateObject hps hnames, hps, hnames, Except.ok.injEq]
  constructor
  · rintro ⟨_, ⟨hall, values, hvalues, -⟩, -⟩
    refine ⟨ps, names, rfl, rfl, fun p hp => ?_, hall⟩
    exact (hsub ps hps p hp).mp (Draws.possible_each.mp ⟨values, hvalues, trivial⟩ p hp)
  · rintro ⟨_, _, rfl, rfl, hyields, hall⟩
    obtain ⟨values, hvalues, -⟩ := Draws.possible_each.mpr fun p hp =>
      (hsub _ hps p hp).mpr (hyields p hp)
    by_cases hnil : ps = []
    · obtain ⟨text, htext, -⟩ := possible_word (P := fun _ => True) fun _ _ => trivial
      exact ⟨_, ⟨hall, values, hvalues, Or.inr ⟨hnil, text, htext, rfl⟩⟩, hP _⟩
    · exact ⟨_, ⟨hall, values, hvalues, Or.inl ⟨hnil, rfl⟩⟩, hP _⟩

theorem fails_generateObject {yields refuses : Json → Prop} (h : WellTyped fields)
    (hyields : ∀ ps, properties fields = .ok ps → ∀ p ∈ ps,
      ((generate p.2).Possible (fun _ => True) ↔ yields p.2))
    (hrefuses : ∀ ps, properties fields = .ok ps → ∀ p ∈ ps,
      ((generate p.2).Fails Justified ↔ refuses p.2)) :
    (generateObject generate (.obj fields) fields).Fails Justified ↔
      ObjectRefuses yields refuses fields := by
  obtain ⟨ps, hps, -⟩ := properties_ok h
  obtain ⟨names, hnames⟩ := required_ok h
  have hrest : ∀ values, Draws.Fails Justified
      (if names.filter (fun name => !(((ps.map (·.1)).zip values).map (·.1)).contains name) ≠ []
        then .fail (.unsupported (.obj fields) (.missing (names.filter fun name =>
          !(((ps.map (·.1)).zip values).map (·.1)).contains name)))
        else if ps = [] then do
          let value ← word
          pure (.obj [("result".toList, .str value)])
        else pure (Json.obj ((ps.map (·.1)).zip values))) := by
    intro values
    split
    · exact Draws.fails_fail.mpr trivial
    · split
      · exact Draws.fails_bind.mpr ⟨fails_word, fun _ _ => Draws.fails_pure⟩
      · exact Draws.fails_pure
  unfold generateObject ObjectRefuses
  simp only [hps, hnames, Draws.ofExcept_ok_bind, Except.ok.injEq, forall_eq']
  rw [Draws.fails_bind]
  refine (and_iff_left fun values _ => hrest values).trans ?_
  rw [Draws.fails_each]
  refine forall_congr' fun before => forall_congr' fun p => forall_congr' fun after =>
    forall_congr' fun heq => ?_
  have hmem : ∀ q ∈ before ++ p :: after, q ∈ ps := fun q hq => by rwa [heq]
  rw [hrefuses ps hps p (hmem p (List.mem_append_right _ List.mem_cons_self))]
  apply imp_congr_left
  refine forall_congr' fun earlier => forall_congr' fun hearlier => ?_
  exact hyields ps hps earlier (hmem earlier (List.mem_append_left _ hearlier))

theorem always_generateObject {yields accepts : Json → Prop} {P : Json → Prop}
    {validate : Json → Json → List Char → Except GrammarError Unit} {path : List Char}
    (h : WellTyped fields)
    (hyields : ∀ ps, properties fields = .ok ps → ∀ p ∈ ps,
      ((generate p.2).Possible (fun _ => True) ↔ yields p.2))
    (haccepts : ∀ ps, properties fields = .ok ps → ∀ p ∈ ps, ∀ path,
      ((generate p.2).Always (fun value => validate value p.2 path = .ok ()) ↔ accepts p.2))
    (hP : ∀ value : Fields, P (.obj value) ↔
      validateObject validate (.obj value) fields path = .ok ()) :
    (generateObject generate schema fields).Always P ↔ ObjectAccepts yields accepts fields := by
  obtain ⟨ps, hps, hnodup⟩ := properties_ok h
  obtain ⟨names, hnames⟩ := required_ok h
  have hvalid : ∀ value : Fields, P (.obj value) ↔ (∀ name ∈ names, name ∈ value.map (·.1)) ∧
      ∀ p ∈ ps, ∀ field, value.find? (fun field => field.1 = p.1) = some field →
        validate field.2 p.2 (path ++ '.' :: p.1) = .ok () := by
    intro value
    rw [hP, ← @checkRequired_iff value path names, ← checkProperties_iff]
    unfold validateObject
    rw [hnames, hps]
    exact okAnd_iff
  have heach : (Draws.each (fun p : List Char × Json => generate p.2) ps).Always
      (List.Forall₂ (fun p value => validate value p.2 (path ++ '.' :: p.1) = .ok ()) ps) ↔
      ((∀ p ∈ ps, yields p.2) → ∀ p ∈ ps, accepts p.2) := by
    rw [Draws.always_each]
    apply imp_congr
    · exact forall_congr' fun p => forall_congr' fun hp => hyields ps hps p hp
    · exact forall_congr' fun p => forall_congr' fun hp => haccepts ps hps p hp _
  have hfound : ∀ values, (Draws.each (fun p : List Char × Json => generate p.2) ps).Leads
      (.ok values) → (P (.obj ((ps.map (·.1)).zip values)) ↔
        (∀ name ∈ names, name ∈ ps.map (·.1)) ∧
          List.Forall₂ (fun p value => validate value p.2 (path ++ '.' :: p.1) = .ok ()) ps
            values) := by
    intro values hvalues
    have hlength := (Draws.leads_each_ok.mp hvalues).length_eq
    rw [hvalid, List.map_fst_zip (by simp [hlength])]
    exact and_congr_right fun _ => forall_find_zip_iff hnodup hlength
      (P := fun p value => validate value p.2 (path ++ '.' :: p.1) = .ok ())
  unfold Draws.Always ObjectAccepts ObjectYields
  simp only [leads_generateObject hps hnames, hps, hnames, Except.ok.injEq]
  constructor
  · rintro hall ⟨_, _, rfl, rfl, hyld, hnames'⟩ _ rfl p hp
    refine heach.mp (fun values hvalues => ?_) hyld p hp
    have hvalue := hall _ ⟨hnames', values, hvalues, Or.inl ⟨List.ne_nil_of_mem hp, rfl⟩⟩
    exact ((hfound values hvalues).mp hvalue).2
  · rintro haccept _ ⟨hnames', values, hvalues, ⟨-, rfl⟩ | ⟨hnil, text, -, rfl⟩⟩
    · refine (hfound values hvalues).mpr ⟨hnames', ?_⟩
      exact heach.mpr (fun hyld => haccept ⟨ps, names, rfl, rfl, hyld, hnames'⟩ ps rfl) values
        hvalues
    · subst hnil
      refine (hvalid _).mpr ⟨fun name hname => absurd (hnames' name hname) List.not_mem_nil, ?_⟩
      exact fun p hp => absurd hp List.not_mem_nil

end

end Pvllm.Grammar
