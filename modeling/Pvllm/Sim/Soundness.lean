import Pvllm.Sim.Generation

/-!
Whether a schema is sound.

A schema is sound when, whatever is drawn, the generator returns a value that the validator
accepts or refuses the schema, and refuses bounds only when no value is within them.
`Yields`, `Refuses` and `Accepts` go down the schema as the generator does. At the leaves
they compare the ranges that are drawn from with the bounds as they are written.
-/

namespace Pvllm.Grammar

open Json (Fields)

def elements : Json → List Json
  | .arr items => items
  | _ => []

/-- A value can be generated, and an object when one is asked for. -/
def Yields (root : Json) : ℕ → Bool → Json → Prop
  | 0, _, _ => False
  | fuel + 1, object, schema =>
    match schema with
    | .obj fields =>
      match head fields with
      | .ref ref => ∃ target, resolveRef ref root schema = .ok target ∧
          Yields root fuel object target
      | .const value => object = true → value.isObject = true
      | .enum options => ∃ option ∈ elements options, object = true → option.isObject = true
      | .combinator name branches => ∃ first, firstBranch schema name branches = .ok first ∧
          Yields root fuel object first
      | .allOf branches => ∀ branch ∈ elements branches, Yields root fuel true branch
      | .plain => unsupported fields = [] ∧
          match kind fields with
          | .object => ObjectYields (Yields root fuel false) fields
          | .array => object = false ∧ ArrayYields (Yields root fuel false) fields
          | .string => object = false ∧ StringYields fields
          | .integer => object = false ∧ IntegerYields fields
          | .number => object = false ∧ NumberYields fields
          | .boolean => object = false
          | .null => object = false
          | .other _ => False
    | _ => False

/-- The failures of the generator are refusals, and right. -/
def Refuses (root : Json) : ℕ → Json → Prop
  | 0, _ => True
  | fuel + 1, schema =>
    match schema with
    | .obj fields =>
      match head fields with
      | .ref ref => ∀ target, resolveRef ref root schema = .ok target → Refuses root fuel target
      | .const _ => True
      | .enum _ => True
      | .combinator name branches => ∀ first, firstBranch schema name branches = .ok first →
          Refuses root fuel first
      | .allOf branches => ∀ before branch after, elements branches = before ++ branch :: after →
          (∀ earlier ∈ before, Yields root fuel true earlier) → Refuses root fuel branch
      | .plain => unsupported fields = [] →
          match kind fields with
          | .object => ObjectRefuses (Yields root fuel false) (Refuses root fuel) fields
          | .array => ArrayRefuses (Refuses root fuel) fields
          | .integer => IntegerRefuses fields
          | .number => NumberRefuses fields
          | _ => True
    | _ => True

/-- The values of the generator are accepted by the validator. -/
def Accepts (root : Json) : ℕ → Json → Prop
  | 0, _ => True
  | fuel + 1, schema =>
    match schema with
    | .obj fields =>
      match head fields with
      | .ref ref => ∀ target, resolveRef ref root schema = .ok target → Accepts root fuel target
      | .const _ => True
      | .enum _ => True
      | .combinator name branches => ∀ first, firstBranch schema name branches = .ok first →
          Accepts root fuel first
      | .allOf _ => True
      | .plain => unsupported fields = [] →
          match kind fields with
          | .object => ObjectAccepts (Yields root fuel false) (Accepts root fuel) fields
          | .array => ArrayAccepts (Accepts root fuel) fields
          | .string => StringAccepts fields
          | .integer => IntegerAccepts fields
          | _ => True
    | _ => True

/-! ### The heads of a well-typed schema -/

theorem head_ref {fields : Fields} {ref : Json} (h : head fields = .ref ref) :
    fields.get "$ref" = some ref := by
  unfold head at h
  grind

theorem head_enum {fields : Fields} {options : Json} (h : head fields = .enum options) :
    fields.get "enum" = some options := by
  unfold head at h
  grind

theorem head_combinator {fields : Fields} {name : String} {branches : Json}
    (h : head fields = .combinator name branches) :
    name ∈ ["anyOf", "oneOf", "allOf"] ∧ fields.get name = some branches := by
  unfold head at h
  cases hany : fields.get "anyOf" with
  | some any =>
      have : Head.combinator "anyOf" any = .combinator name branches := by grind
      obtain ⟨rfl, rfl⟩ := Head.combinator.inj this
      exact ⟨by decide, hany⟩
  | none =>
      cases hone : fields.get "oneOf" with
      | some one =>
          have : Head.combinator "oneOf" one = .combinator name branches := by grind
          obtain ⟨rfl, rfl⟩ := Head.combinator.inj this
          exact ⟨by decide, hone⟩
      | none => grind

theorem head_allOf {fields : Fields} {branches : Json} (h : head fields = .allOf branches) :
    fields.get "allOf" = some branches := by
  unfold head at h
  grind

theorem firstBranch_ok {schema : Json} {name : String} {branches first : Json}
    (h : firstBranch schema name branches = .ok first) :
    ∃ rest, branches = .arr (first :: rest) := by
  unfold firstBranch at h
  split at h
  · exact ⟨_, by rw [Except.ok.inj h]⟩
  · split at h <;> cases h

section
variable {generateRegexMatch : Json → Draws GrammarError (List Char)}
  {fullmatch : Json → List Char → Bool} {root : Json}

/-! ### Whether a value can be generated -/

theorem possible_generateEnum {schema options : Json} {P : Json → Prop}
    (h : ∃ values, options = .arr values ∧ (values.length : ℤ) ≤ 2 ^ 63) :
    (generateEnum schema options).Possible P ↔ ∃ option ∈ elements options, P option := by
  obtain ⟨values, rfl, hlength⟩ := h
  unfold generateEnum elements
  dsimp only
  split
  · rename_i hnil
    simp [hnil]
  · rename_i hne
    rw [Draws.possible_bind]
    constructor
    · rintro ⟨n, hn, hP⟩
      obtain ⟨⟨hlow, hhigh⟩, -⟩ := leads_integers_ok.mp hn
      have hlt : n.toNat < values.length := by omega
      rw [Draws.possible_pure, List.getD_eq_getElem _ _ hlt] at hP
      exact ⟨_, List.getElem_mem hlt, hP⟩
    · rintro ⟨option, hmem, hP⟩
      obtain ⟨n, hn, rfl⟩ := List.mem_iff_getElem.mp hmem
      refine ⟨n, leads_integers_ok.mpr (by omega), ?_⟩
      apply Draws.possible_pure.mpr
      rw [Int.toNat_natCast, List.getD_eq_getElem _ _ hn]
      exact hP

theorem fails_generateEnum {schema options : Json}
    (h : ∃ values, options = .arr values ∧ (values.length : ℤ) ≤ 2 ^ 63) :
    (generateEnum schema options).Fails Justified := by
  obtain ⟨values, rfl, hlength⟩ := h
  unfold generateEnum
  dsimp only
  split
  · rw [Draws.fails_fail]
    cases schema <;> trivial
  · rename_i hne
    have := List.length_pos_of_ne_nil hne
    exact Draws.fails_bind.mpr ⟨(fails_integers (fun hraised => hraised)).mpr (by omega),
      fun _ _ => Draws.fails_pure⟩

theorem mem_generateEnum {schema options value : Json}
    (h : (generateEnum schema options).Leads (.ok value)) :
    ∃ values, options = .arr values ∧ value ∈ values := by
  unfold generateEnum at h
  split at h
  · rename_i values
    split at h
    · cases h
    · obtain ⟨n, hn, hvalue⟩ := Draws.leads_bind_ok.mp h
      obtain ⟨⟨hlow, hhigh⟩, -⟩ := leads_integers_ok.mp hn
      have hlt : n.toNat < values.length := by omega
      rw [Draws.leads_pure, Except.ok.injEq, List.getD_eq_getElem _ _ hlt] at hvalue
      exact ⟨values, rfl, by rw [hvalue]; exact List.getElem_mem hlt⟩
  · split at h <;> cases h

theorem objectOf_eq_ok {schema value : Json} {fields : Fields} :
    objectOf schema value = .ok fields ↔ value = .obj fields := by
  cases value <;> simp [objectOf]

theorem isObject_iff {value : Json} : value.isObject = true ↔ ∃ fields, value = .obj fields := by
  cases value <;> simp [Json.isObject]

theorem possible_allOfBranch {schema : Json} {p : Draws GrammarError Json} :
    (p >>= fun value => Draws.ofExcept (objectOf schema value)).Possible (fun _ => True) ↔
      p.Possible fun value => value.isObject = true := by
  rw [Draws.possible_bind]
  refine exists_congr fun value => and_congr_right fun _ => Iff.trans ?_ isObject_iff.symm
  refine exists_congr fun fields => ?_
  rw [Draws.leads_ofExcept, and_true, eq_comm, objectOf_eq_ok]

theorem fails_allOfBranch {schema : Json} {p : Draws GrammarError Json} :
    (p >>= fun value => Draws.ofExcept (objectOf schema value)).Fails Justified ↔
      p.Fails Justified := by
  rw [Draws.fails_bind]
  refine and_iff_left fun value _ e he => ?_
  rw [Draws.leads_ofExcept] at he
  unfold objectOf at he
  split at he
  · cases he
  · obtain rfl := Except.error.inj he
    cases schema <;> trivial

theorem possible_generateAllOf {generate : Json → Draws GrammarError Json} {schema : Json}
    {branches : List Json} {P : Json → Prop} (hP : ∀ fields, P (.obj fields)) :
    (generateAllOf generate schema (.arr branches)).Possible P ↔
      ∀ branch ∈ branches, (generate branch).Possible fun value => value.isObject = true := by
  unfold generateAllOf
  rw [Draws.possible_bind]
  simp only [Draws.possible_pure, hP]
  rw [Draws.possible_each]
  exact forall_congr' fun branch => forall_congr' fun _ => possible_allOfBranch

theorem fails_generateAllOf {generate : Json → Draws GrammarError Json} {schema : Json}
    {branches : List Json} :
    (generateAllOf generate schema (.arr branches)).Fails Justified ↔
      ∀ before branch after, branches = before ++ branch :: after →
        (∀ earlier ∈ before, (generate earlier).Possible fun value => value.isObject = true) →
          (generate branch).Fails Justified := by
  unfold generateAllOf
  rw [Draws.fails_bind]
  refine (and_iff_left fun _ _ => Draws.fails_pure).trans ?_
  rw [Draws.fails_each]
  refine forall_congr' fun before => forall_congr' fun branch => forall_congr' fun after =>
    forall_congr' fun _ => imp_congr ?_ fails_allOfBranch
  exact forall_congr' fun earlier => forall_congr' fun _ => possible_allOfBranch

/-- The value is an object, if one is asked for. -/
def Asked (object : Bool) (value : Json) : Prop := object = true → value.isObject = true

theorem asked_obj {object : Bool} {fields : Fields} : Asked object (.obj fields) := fun _ => rfl

theorem possible_asked_iff {object : Bool} {p : Draws GrammarError Json} {yields : Prop}
    (hno : p.Always fun value => value.isObject = false)
    (h : p.Possible (fun _ => True) ↔ yields) :
    p.Possible (Asked object) ↔ object = false ∧ yields := by
  rw [← h]
  constructor
  · rintro ⟨value, hvalue, hasked⟩
    refine ⟨?_, value, hvalue, trivial⟩
    cases object with
    | false => rfl
    | true => exact (hasked rfl).symm.trans (hno value hvalue)
  · rintro ⟨rfl, value, hvalue, -⟩
    exact ⟨value, hvalue, fun hfalse => (by cases hfalse)⟩

theorem asked_false {p : Draws GrammarError Json} :
    p.Possible (Asked false) ↔ p.Possible fun _ => True := by
  refine exists_congr fun value => and_congr_right fun _ => iff_of_true ?_ trivial
  exact fun hfalse => (by cases hfalse)

theorem asked_true {p : Draws GrammarError Json} :
    p.Possible (Asked true) ↔ p.Possible fun value => value.isObject = true := by
  refine exists_congr fun value => and_congr_right fun _ => ?_
  exact ⟨fun h => h rfl, fun h _ => h⟩

/-- A well-formed schema can be generated exactly when `Yields` says so. -/
theorem possible_generate_iff (hroot : WellFormed root) (fuel : ℕ) :
    ∀ (object : Bool) (schema : Json), Visited root schema →
      ((generate generateRegexMatch root fuel schema).Possible (Asked object) ↔
        Yields root fuel object schema) := by
  induction fuel with
  | zero => exact fun object schema _ => iff_of_false Draws.possible_fail not_false
  | succ fuel ih =>
      -- a reference, a branch, an item and a property are generated with less fuel
      intro object schema hvisited
      cases schema with
      | obj fields =>
          have htyped := hroot fields hvisited
          have hitems : ∀ items, Fields.get fields "items" = some items →
              ((generate generateRegexMatch root fuel items).Possible (fun _ => True) ↔
                Yields root fuel false items) := fun items hitems => by
            rw [← ih false items (hvisited.items hitems), asked_false]
          have hproperties : ∀ ps, properties fields = .ok ps → ∀ p ∈ ps,
              ((generate generateRegexMatch root fuel p.2).Possible (fun _ => True) ↔
                Yields root fuel false p.2) := fun ps hps p hp => by
            rw [← ih false p.2 (hvisited.property (get_properties hps hp) hp), asked_false]
          unfold generate Yields
          dsimp only
          cases hhead : head fields with
          | ref ref =>
              dsimp only
              cases htarget : resolveRef ref root (.obj fields) with
              | error e =>
                  refine iff_of_false Draws.possible_fail ?_
                  rintro ⟨_, hok, -⟩
                  cases hok
              | ok target =>
                  rw [Draws.ofExcept_ok_bind,
                    ih object target (hvisited.ref (head_ref hhead) htarget)]
                  simp
          | const value => exact Draws.possible_pure
          | enum options =>
              exact possible_generateEnum (htyped.enum options (head_enum hhead))
          | combinator name branches =>
              dsimp only
              cases hfirst : firstBranch (.obj fields) name branches with
              | error e =>
                  refine iff_of_false Draws.possible_fail ?_
                  rintro ⟨_, hok, -⟩
                  cases hok
              | ok first =>
                  obtain ⟨rest, rfl⟩ := firstBranch_ok hfirst
                  obtain ⟨hname, hget⟩ := head_combinator hhead
                  rw [Draws.ofExcept_ok_bind,
                    ih object first (hvisited.branch hname hget List.mem_cons_self)]
                  simp
          | allOf branches =>
              have hget := head_allOf hhead
              obtain ⟨list, rfl⟩ := htyped.combinators "allOf" (by decide) branches hget
              dsimp only
              rw [possible_generateAllOf fun fields => asked_obj]
              refine forall_congr' fun branch => forall_congr' fun hbranch => ?_
              rw [← ih true branch (hvisited.branch (by decide) hget hbranch), asked_true]
          | plain =>
              dsimp only
              by_cases hunsupported : unsupported fields = []
              · rw [if_neg (not_not.mpr hunsupported)]
                refine Iff.trans ?_ (and_iff_right hunsupported).symm
                cases kind fields with
                | object => exact possible_generateObject htyped hproperties fun _ => asked_obj
                | array =>
                    exact possible_asked_iff generateArray_isObject
                      (possible_generateArray htyped hitems fun _ => trivial)
                | string =>
                    exact possible_asked_iff generateString_isObject
                      (possible_generateString htyped fun _ => trivial)
                | integer =>
                    exact possible_asked_iff generateInteger_isObject
                      (possible_generateInteger htyped fun _ => trivial)
                | number =>
                    exact possible_asked_iff (always_generateNumber htyped fun _ _ => rfl)
                      (possible_generateNumber htyped fun _ => trivial)
                | boolean =>
                    refine (possible_asked_iff ?_ (iff_of_true ?_ trivial)).trans
                      (and_iff_left trivial)
                    · exact Draws.always_bind.mpr fun _ _ => Draws.always_pure.mpr rfl
                    · exact Draws.possible_bind.mpr ⟨0, leads_integers_ok.mpr (by decide),
                        Draws.possible_pure.mpr trivial⟩
                | null =>
                    exact (possible_asked_iff (Draws.always_pure.mpr rfl)
                      (iff_of_true (Draws.possible_pure.mpr trivial) trivial)).trans
                        (and_iff_left trivial)
                | other type => exact iff_of_false Draws.possible_fail not_false
              · rw [if_pos hunsupported]
                exact iff_of_false Draws.possible_fail fun h => hunsupported h.1
      | _ => exact iff_of_false Draws.possible_fail not_false

/-! ### Whether the failures are right -/

theorem justified_refusal {schema : Json} {refusal : Refusal}
    (h : ∀ fields, Unsatisfiable fields refusal) : Justified (.unsupported schema refusal) := by
  cases schema with
  | obj fields => exact h fields
  | _ => trivial

theorem justified_walk {ref : List Char} {schema : Json} {parts : List (List Char)} {node : Json}
    {e : GrammarError} (h : walk ref schema parts node = .error e) : Justified e := by
  induction parts generalizing node with
  | nil =>
      unfold walk at h
      split at h
      · cases h
      · rw [← Except.error.inj h]
        exact justified_refusal fun _ => trivial
  | cons part rest ih =>
      unfold walk at h
      split at h
      · split at h
        · exact ih h
        · rw [← Except.error.inj h]
          exact justified_refusal fun _ => trivial
      · rw [← Except.error.inj h]
        exact justified_refusal fun _ => trivial

theorem justified_resolveRef {ref root schema : Json} {e : GrammarError}
    (hname : ∃ name, ref = .str name) (h : resolveRef ref root schema = .error e) :
    Justified e := by
  obtain ⟨name, rfl⟩ := hname
  unfold resolveRef at h
  dsimp only at h
  split at h
  · exact justified_walk h
  · rw [← Except.error.inj h]
    exact justified_refusal fun _ => trivial

theorem justified_firstBranch {schema branches : Json} {name : String} {e : GrammarError}
    (hlist : ∃ list, branches = .arr list) (h : firstBranch schema name branches = .error e) :
    Justified e := by
  obtain ⟨list, rfl⟩ := hlist
  cases list with
  | nil =>
      rw [← Except.error.inj h]
      exact justified_refusal fun _ => trivial
  | cons first rest => cases h

/-- The failures of a well-formed schema are right exactly when `Refuses` says so. -/
theorem fails_generate_iff (hroot : WellFormed root) (fuel : ℕ) :
    ∀ schema : Json, Visited root schema →
      ((generate generateRegexMatch root fuel schema).Fails Justified ↔
        Refuses root fuel schema) := by
  induction fuel with
  | zero =>
      exact fun schema _ => iff_of_true
        (Draws.fails_fail.mpr (justified_refusal fun _ => trivial)) trivial
  | succ fuel ih =>
      intro schema hvisited
      cases schema with
      | obj fields =>
          have htyped := hroot fields hvisited
          have hitems : ∀ items, Fields.get fields "items" = some items →
              ((generate generateRegexMatch root fuel items).Fails Justified ↔
                Refuses root fuel items) := fun items hitems => ih items (hvisited.items hitems)
          have hrefuses : ∀ ps, properties fields = .ok ps → ∀ p ∈ ps,
              ((generate generateRegexMatch root fuel p.2).Fails Justified ↔
                Refuses root fuel p.2) := fun ps hps p hp =>
            ih p.2 (hvisited.property (get_properties hps hp) hp)
          have hyields : ∀ ps, properties fields = .ok ps → ∀ p ∈ ps,
              ((generate generateRegexMatch root fuel p.2).Possible (fun _ => True) ↔
                Yields root fuel false p.2) := fun ps hps p hp => by
            rw [← possible_generate_iff hroot fuel false p.2
              (hvisited.property (get_properties hps hp) hp), asked_false]
          unfold generate Refuses
          dsimp only
          cases hhead : head fields with
          | ref ref =>
              have hget := head_ref hhead
              dsimp only
              cases htarget : resolveRef ref root (.obj fields) with
              | error e =>
                  refine iff_of_true (Draws.fails_fail.mpr ?_) fun target hok => (by cases hok)
                  exact justified_resolveRef (htyped.ref ref hget) htarget
              | ok target =>
                  rw [Draws.ofExcept_ok_bind, ih target (hvisited.ref hget htarget)]
                  simp
          | const value => exact iff_of_true Draws.fails_pure trivial
          | enum options =>
              exact iff_of_true (fails_generateEnum (htyped.enum options (head_enum hhead))) trivial
          | combinator name branches =>
              obtain ⟨hname, hget⟩ := head_combinator hhead
              dsimp only
              cases hfirst : firstBranch (.obj fields) name branches with
              | error e =>
                  refine iff_of_true (Draws.fails_fail.mpr ?_) fun target hok => (by cases hok)
                  exact justified_firstBranch (htyped.combinators name hname branches hget) hfirst
              | ok first =>
                  obtain ⟨rest, rfl⟩ := firstBranch_ok hfirst
                  rw [Draws.ofExcept_ok_bind,
                    ih first (hvisited.branch hname hget List.mem_cons_self)]
                  simp
          | allOf branches =>
              have hget := head_allOf hhead
              obtain ⟨list, rfl⟩ := htyped.combinators "allOf" (by decide) branches hget
              dsimp only
              rw [fails_generateAllOf]
              refine forall_congr' fun before => forall_congr' fun branch =>
                forall_congr' fun after => forall_congr' fun heq => ?_
              have hmem : ∀ b ∈ before ++ branch :: after, Visited root b := fun b hb =>
                hvisited.branch (by decide) hget (by rwa [show list = _ from heq])
              -- a branch comes to be generated once those before it were
              refine imp_congr (forall_congr' fun earlier => forall_congr' fun hearlier => ?_)
                (ih branch (hmem branch (List.mem_append_right _ List.mem_cons_self)))
              rw [← asked_true]
              exact possible_generate_iff hroot fuel true earlier
                (hmem earlier (List.mem_append_left _ hearlier))
          | plain =>
              dsimp only
              by_cases hunsupported : unsupported fields = []
              · rw [if_neg (not_not.mpr hunsupported), forall_prop_of_true hunsupported]
                cases kind fields with
                | object => exact fails_generateObject htyped hyields hrefuses
                | array => exact fails_generateArray htyped hitems
                | string => exact iff_of_true (fails_generateString htyped) trivial
                | integer => exact fails_generateInteger htyped
                | number => exact fails_generateNumber htyped
                | boolean =>
                    exact iff_of_true (Draws.fails_bind.mpr
                      ⟨(fails_integers (fun hraised => hraised)).mpr (by decide),
                        fun _ _ => Draws.fails_pure⟩) trivial
                | null => exact iff_of_true Draws.fails_pure trivial
                | other type => exact iff_of_true (Draws.fails_fail.mpr trivial) trivial
              · rw [if_pos hunsupported, forall_prop_of_false hunsupported]
                exact iff_of_true (Draws.fails_fail.mpr trivial) trivial
      | _ => exact iff_of_true (Draws.fails_fail.mpr trivial) trivial

/-! ### Whether the values are accepted -/

theorem check_true {path : List Char} {failure : Failure} : check true path failure = .ok () := rfl

/-- The values of a well-formed schema are accepted exactly when `Accepts` says so. -/
theorem always_generate_iff (hroot : WellFormed root) (fuel : ℕ) :
    ∀ (limit : ℕ) (schema : Json) (path : List Char), fuel ≤ limit → Visited root schema →
      ((generate generateRegexMatch root fuel schema).Always
          (fun value => validate fullmatch root limit value schema path = .ok ()) ↔
        Accepts root fuel schema) := by
  induction fuel with
  | zero => exact fun limit schema path _ _ => iff_of_true Draws.always_fail trivial
  | succ fuel ih =>
      -- the validator may go at least as deep as the generator
      intro limit schema path hlimit hvisited
      obtain ⟨limit, rfl⟩ := Nat.exists_eq_add_of_lt (Nat.lt_of_lt_of_le (Nat.succ_pos _) hlimit)
      rw [Nat.zero_add] at hlimit ⊢
      have hlimit := Nat.le_of_succ_le_succ hlimit
      cases schema with
      | obj fields =>
          have htyped := hroot fields hvisited
          have hitems : ∀ items, Fields.get fields "items" = some items → ∀ path,
              ((generate generateRegexMatch root fuel items).Always
                  (fun value => validate fullmatch root limit value items path = .ok ()) ↔
                Accepts root fuel items) := fun items hitems path =>
            ih limit items path hlimit (hvisited.items hitems)
          have haccepts : ∀ ps, properties fields = .ok ps → ∀ p ∈ ps, ∀ path,
              ((generate generateRegexMatch root fuel p.2).Always
                  (fun value => validate fullmatch root limit value p.2 path = .ok ()) ↔
                Accepts root fuel p.2) := fun ps hps p hp path =>
            ih limit p.2 path hlimit (hvisited.property (get_properties hps hp) hp)
          have hyields : ∀ ps, properties fields = .ok ps → ∀ p ∈ ps,
              ((generate generateRegexMatch root fuel p.2).Possible (fun _ => True) ↔
                Yields root fuel false p.2) := fun ps hps p hp => by
            rw [← possible_generate_iff hroot fuel false p.2
              (hvisited.property (get_properties hps hp) hp), asked_false]
          unfold generate validate Accepts
          dsimp only
          cases hhead : head fields with
          | ref ref =>
              have hget := head_ref hhead
              dsimp only
              cases htarget : resolveRef ref root (.obj fields) with
              | error e => exact iff_of_true Draws.always_fail fun target hok => (by cases hok)
              | ok target =>
                  rw [Draws.ofExcept_ok_bind]
                  refine (ih limit target path hlimit (hvisited.ref hget htarget)).trans ?_
                  simp
          | const value =>
              refine iff_of_true (Draws.always_pure.mpr ?_) trivial
              dsimp only
              rw [Json.pyEq_refl, check_true]
          | enum options =>
              refine iff_of_true (fun value hvalue => ?_) trivial
              obtain ⟨values, rfl, hmem⟩ := mem_generateEnum hvalue
              dsimp only
              rw [List.any_eq_true.mpr ⟨value, hmem, Json.pyEq_refl value⟩, check_true]
          | combinator name branches =>
              obtain ⟨hname, hget⟩ := head_combinator hhead
              dsimp only
              cases hfirst : firstBranch (.obj fields) name branches with
              | error e => exact iff_of_true Draws.always_fail fun target hok => (by cases hok)
              | ok first =>
                  obtain ⟨rest, rfl⟩ := firstBranch_ok hfirst
                  rw [Draws.ofExcept_ok_bind]
                  refine (ih limit first path hlimit
                    (hvisited.branch hname hget List.mem_cons_self)).trans ?_
                  simp
          | allOf branches => exact iff_of_true (fun _ _ => rfl) trivial
          | plain =>
              dsimp only
              by_cases hunsupported : unsupported fields = []
              · rw [if_neg (not_not.mpr hunsupported), forall_prop_of_true hunsupported]
                cases kind fields with
                | object =>
                    exact always_generateObject htyped hyields haccepts fun _ => Iff.rfl
                | array =>
                    exact always_generateArray htyped hitems fun _ => validateArray_iff htyped
                | string => exact always_generateString htyped fun _ => validateString_iff htyped
                | integer =>
                    exact always_generateInteger htyped fun _ => validateBounds_iff htyped.bounds
                | number =>
                    exact iff_of_true (always_generateNumber htyped fun _ hq =>
                      (validateBounds_iff htyped.bounds).mpr hq) trivial
                | boolean =>
                    exact iff_of_true
                      (Draws.always_bind.mpr fun _ _ => Draws.always_pure.mpr rfl) trivial
                | null => exact iff_of_true (Draws.always_pure.mpr rfl) trivial
                | other type => exact iff_of_true Draws.always_fail trivial
              · rw [if_pos hunsupported, forall_prop_of_false hunsupported]
                exact iff_of_true Draws.always_fail trivial
      | _ => exact iff_of_true Draws.always_fail trivial

end

/-! ### Integers with a lower bound -/

theorem visited_leaf {fields : Fields} {schema : Json} (href : fields.get "$ref" = none)
    (hany : fields.get "anyOf" = none) (hone : fields.get "oneOf" = none)
    (hall : fields.get "allOf" = none) (hproperties : fields.get "properties" = none)
    (hitems : fields.get "items" = none) (h : Visited (.obj fields) schema) :
    schema = .obj fields := by
  induction h with
  | root => rfl
  | ref _ hget _ ih =>
      rw [Json.obj.inj ih, href] at hget
      cases hget
  | branch _ hname hget _ ih =>
      rw [Json.obj.inj ih] at hget
      simp only [List.mem_cons, List.not_mem_nil, or_false] at hname
      obtain rfl | rfl | rfl := hname <;> simp_all
  | property _ hget _ ih =>
      rw [Json.obj.inj ih, hproperties] at hget
      cases hget
  | items _ hget ih =>
      rw [Json.obj.inj ih, hitems] at hget
      cases hget

/-- `{"type": "integer", "minimum": minimum}`. -/
def integerFrom (minimum : Json) : Fields :=
  [("type".toList, .str "integer".toList), ("minimum".toList, minimum)]

theorem get_integerFrom {minimum : Json} {key : String} (htype : key ≠ "type")
    (hminimum : key ≠ "minimum") : (integerFrom minimum).get key = none := by
  have hne : ∀ {name : String}, key ≠ name → name.toList ≠ key.toList := fun hne heq =>
    hne (String.toList_inj.mp heq.symm)
  unfold Fields.get integerFrom
  rw [List.find?_cons_of_neg (by simpa only [decide_eq_true_eq] using hne htype),
    List.find?_cons_of_neg (by simpa only [decide_eq_true_eq] using hne hminimum)]
  rfl

theorem get_integerFrom_minimum {minimum : Json} :
    (integerFrom minimum).get "minimum" = some minimum := by
  simp [integerFrom, Fields.get]

theorem wellFormed_integerFrom {minimum : Json} (h : minimum.number? ≠ none) :
    WellFormed (.obj (integerFrom minimum)) := by
  have hnone : ∀ {key : String}, key ≠ "type" → key ≠ "minimum" →
      ∀ value, (integerFrom minimum).get key ≠ some value := fun htype hminimum value hget => by
    rw [get_integerFrom htype hminimum] at hget
    cases hget
  intro fields hvisited
  obtain rfl := Json.obj.inj (visited_leaf (get_integerFrom (by decide) (by decide))
    (get_integerFrom (by decide) (by decide)) (get_integerFrom (by decide) (by decide))
    (get_integerFrom (by decide) (by decide)) (get_integerFrom (by decide) (by decide))
    (get_integerFrom (by decide) (by decide)) hvisited)
  constructor
  · exact fun value hget => absurd hget (hnone (by decide) (by decide) value)
  · exact fun value hget => absurd hget (hnone (by decide) (by decide) value)
  · intro name hname value hget
    refine absurd hget (hnone ?_ ?_ value)
    · rintro rfl
      revert hname
      decide
    · rintro rfl
      revert hname
      decide
  · exact fun value hget => absurd hget (hnone (by decide) (by decide) value)
  · exact fun value hget => absurd hget (hnone (by decide) (by decide) value)
  · exact fun value hget => absurd hget (hnone (by decide) (by decide) value)
  · exact fun value hget => absurd hget (hnone (by decide) (by decide) value)
  · exact fun value hget => absurd hget (hnone (by decide) (by decide) value)
  · exact fun value hget => absurd hget (hnone (by decide) (by decide) value)
  · constructor
    · intro value hget
      rw [get_integerFrom_minimum, Option.some.injEq] at hget
      rwa [← hget]
    · exact fun value hget => absurd hget (hnone (by decide) (by decide) value)
    · exact fun value hget => absurd hget (hnone (by decide) (by decide) value)
    · exact fun value hget => absurd hget (hnone (by decide) (by decide) value)
  · exact get_integerFrom (by decide) (by decide)

theorem head_integerFrom {minimum : Json} : head (integerFrom minimum) = .plain := by
  simp [head, integerFrom, Fields.get]

theorem kind_integerFrom {minimum : Json} : kind (integerFrom minimum) = .integer := by
  simp [kind, kindOf, schemaType, integerFrom, Fields.get]

theorem numberAt_integerFrom {n : ℤ} :
    numberAt (integerFrom (.int n)) "minimum" = some (n : ℚ) := by
  unfold numberAt
  rw [get_integerFrom_minimum]
  rfl

theorem numberAt_integerFrom_none {minimum : Json} {key : String} (htype : key ≠ "type")
    (hminimum : key ≠ "minimum") : numberAt (integerFrom minimum) key = none := by
  unfold numberAt
  rw [get_integerFrom htype hminimum]
  rfl

theorem integerRange_integerFrom (n : ℤ) :
    integerRange (integerFrom (.int n)) = .ok (n, n + 100) := by
  have hbounds := (@wellFormed_integerFrom (.int n) (Option.some_ne_none _) _ .root).bounds
  unfold integerRange integerBounds
  rw [intAt_eq hbounds.minimum, intAt_eq hbounds.exclusiveMinimum, intAt_eq hbounds.maximum,
    intAt_eq hbounds.exclusiveMaximum, numberAt_integerFrom,
    numberAt_integerFrom_none (by decide) (by decide),
    numberAt_integerFrom_none (by decide) (by decide),
    numberAt_integerFrom_none (by decide) (by decide), Option.map_some, trunc_intCast]
  rfl

theorem least_integerFrom (n : ℤ) : least (integerFrom (.int n)) = some n := by
  unfold least
  rw [numberAt_integerFrom, numberAt_integerFrom_none (by decide) (by decide)]
  show some ⌈(n : ℚ)⌉ = some n
  rw [Int.ceil_intCast]

theorem greatest_integerFrom {minimum : Json} : greatest (integerFrom minimum) = none := by
  unfold greatest
  rw [numberAt_integerFrom_none (by decide) (by decide),
    numberAt_integerFrom_none (by decide) (by decide)]
  rfl

def noRegex : Json → Draws GrammarError (List Char) := fun _ => .fail (.raised "error")

def noMatch : Json → List Char → Bool := fun _ _ => false

/-! ### Soundness -/

/-- A value is accepted by the validator; an exception is a refusal, and right. -/
def Conforms (fullmatch : Json → List Char → Bool) (schema : Json) :
    Except GrammarError Json → Prop
  | .ok value => validateAgainstSchema fullmatch value (some schema) = .ok ()
  | .error e => Justified e

/-- Whatever the random source, the generator conforms, and the check of its value in
`generateForJson` does not fail. -/
structure Sound (generateRegexMatch : Json → Draws GrammarError (List Char))
    (fullmatch : Json → List Char → Bool) (schema : Json) : Prop where
  conforms : ∀ (τ : Type) (source : Source τ) (t : τ),
    Conforms fullmatch schema ((generateJson generateRegexMatch (some schema)).run source t)
  checked : ∀ (τ : Type) (source : Source τ) (t : τ) (path : List Char) (failure : Failure),
    (generateForJson generateRegexMatch fullmatch (some schema)).run source t ≠
      .error (.assertion path failure)

section
variable {generateRegexMatch : Json → Draws GrammarError (List Char)}
  {fullmatch : Json → List Char → Bool} {schema : Json}

theorem conforms_iff : (∀ (τ : Type) (source : Source τ) (t : τ),
      Conforms fullmatch schema
        ((generateJson generateRegexMatch (some schema)).run source t)) ↔
    (generate generateRegexMatch schema (maxDepth + 1) schema).Fails Justified ∧
      (generate generateRegexMatch schema (maxDepth + 1) schema).Always fun value =>
        validate fullmatch schema recursionLimit value schema ['$'] = .ok () := by
  rw [Draws.forall_run_iff]
  constructor
  · intro h
    exact ⟨fun e he => h (.error e) he, fun value hvalue => h (.ok value) hvalue⟩
  · rintro ⟨hfails, halways⟩ outcome houtcome
    cases outcome with
    | ok value => exact halways value houtcome
    | error e => exact hfails e houtcome

/-- When the generator conforms, what it comes to passes the check. -/
theorem checked_of_conforms (h : ∀ (τ : Type) (source : Source τ) (t : τ),
      Conforms fullmatch schema
        ((generateJson generateRegexMatch (some schema)).run source t))
    {τ : Type} {source : Source τ} {t : τ} {path : List Char} {failure : Failure} :
    (generateForJson generateRegexMatch fullmatch (some schema)).run source t ≠
      .error (.assertion path failure) := by
  intro hrun
  have hleads := Draws.leads_run source
    (generateForJson generateRegexMatch fullmatch (some schema)) t
  obtain ⟨hfails, halways⟩ := conforms_iff.mp h
  rw [hrun] at hleads
  obtain hleads | ⟨value, hvalue, hrest⟩ := Draws.leads_bind_error.mp hleads
  · exact hfails _ hleads
  · have hok := halways value hvalue
    obtain hrest | ⟨_, _, hdone⟩ := Draws.leads_bind_error.mp hrest
    · rw [Draws.leads_ofExcept] at hrest
      cases hrest.trans hok
    · cases hdone

/-- A well-formed schema is sound exactly when its refusals of bounds are right, nothing else
is raised, and its values are within the bounds, by its own ranges and lengths. -/
theorem schemaSound_iff (hschema : WellFormed schema) :
    Sound generateRegexMatch fullmatch schema ↔
      Refuses schema (maxDepth + 1) schema ∧ Accepts schema (maxDepth + 1) schema := by
  have hconforms := @conforms_iff generateRegexMatch fullmatch schema
  rw [fails_generate_iff hschema _ schema .root,
    always_generate_iff hschema _ recursionLimit schema ['$'] (by decide) .root] at hconforms
  rw [← hconforms]
  exact ⟨fun h => h.conforms, fun h => ⟨h, fun τ source t path failure => checked_of_conforms h⟩⟩

end

/-- From 1 on: the range that is drawn from is within the bounds. -/
theorem integerFrom_one_sound : Sound noRegex noMatch (.obj (integerFrom (.int 1))) := by
  refine (schemaSound_iff (wellFormed_integerFrom (by simp [Json.number?]))).mpr ⟨?_, ?_⟩
  · unfold Refuses
    dsimp only
    rw [head_integerFrom, kind_integerFrom]
    intro _ low high hrange
    rw [integerRange_integerFrom] at hrange
    obtain ⟨rfl, rfl⟩ := Prod.mk.inj (Except.ok.inj hrange)
    exact ⟨fun hlt => absurd hlt (by decide), fun _ => ⟨by decide, by decide⟩⟩
  · unfold Accepts
    dsimp only
    rw [head_integerFrom, kind_integerFrom]
    intro _ low high hrange _ _
    rw [integerRange_integerFrom] at hrange
    obtain ⟨rfl, rfl⟩ := Prod.mk.inj (Except.ok.inj hrange)
    rw [least_integerFrom, greatest_integerFrom]
    exact ⟨fun l hl => (Option.some.inj hl).ge, fun h hh => (by cases hh)⟩

/-- A minimum of 1.5 is drawn from as if it were 1, and the check of the value fails. -/
theorem half_minimum_asserts : WellFormed (.obj (integerFrom (.float (3 / 2)))) ∧
    (generateForJson noRegex noMatch (some (.obj (integerFrom (.float (3 / 2)))))).run
      Draws.replay [1] = .error (.assertion ['$'] .belowMinimum) := by
  refine ⟨wellFormed_integerFrom (by simp [Json.number?]), ?_⟩
  with_unfolding_all rfl

end Pvllm.Grammar
