import Mathlib.Data.Rat.Floor
import Mathlib.Data.List.Defs

/-!
JSON values as Python holds them.

An object is the list of its fields, in their order. A number is an integer or not
(`2` and `2.0` are equal, but of two types), and is taken as an exact rational.
-/

namespace Pvllm

inductive Json where
  | null
  | bool (b : Bool)
  | int (n : ℤ)
  | float (q : ℚ)
  | str (s : List Char)
  | arr (items : List Json)
  | obj (fields : List (List Char × Json))

namespace Json

abbrev Fields := List (List Char × Json)

/-- `fields.get(key)`. -/
def Fields.get (fields : Fields) (key : String) : Option Json :=
  (fields.find? fun field => field.1 = key.toList).map (·.2)

/-- `key in fields`. -/
def Fields.has (fields : Fields) (key : String) : Bool := (fields.get key).isSome

/-- A number: a truth value is one, too. -/
def number? : Json → Option ℚ
  | .bool b => some (if b then 1 else 0)
  | .int n => some n
  | .float q => some q
  | _ => none

/-- `bool(value)`. -/
def truthy : Json → Bool
  | .null => false
  | .bool b => b
  | .int n => n ≠ 0
  | .float q => q ≠ 0
  | .str s => !s.isEmpty
  | .arr items => !items.isEmpty
  | .obj fields => !fields.isEmpty

def isObject : Json → Bool
  | .obj _ => true
  | _ => false

mutual

/-- `==`. -/
def pyEq : Json → Json → Bool
  | .null, .null => true
  | .str s, .str t => s = t
  | .arr xs, .arr ys => eqItems xs ys
  | .obj fs, .obj gs => fs.length = gs.length && eqFields fs gs
  | a, b =>
    match a.number?, b.number? with
    | some p, some q => p = q
    | _, _ => false
termination_by structural a => a

def eqItems : List Json → List Json → Bool
  | [], [] => true
  | x :: xs, y :: ys => x.pyEq y && eqItems xs ys
  | _, _ => false
termination_by structural xs => xs

def eqFields : Fields → Fields → Bool
  | [], _ => true
  | field :: rest, gs => gs.any (fun field' => eqField field field') && eqFields rest gs
termination_by structural fs => fs

def eqField : List Char × Json → List Char × Json → Bool
  | (key, value), field' => key = field'.1 && value.pyEq field'.2
termination_by structural field => field

end

mutual

theorem pyEq_refl : ∀ value : Json, value.pyEq value = true
  | .null => rfl
  | .bool b => by simp [pyEq, number?]
  | .int n => by simp [pyEq, number?]
  | .float q => by simp [pyEq, number?]
  | .str s => by simp [pyEq]
  | .arr xs => by
      rw [pyEq]
      exact eqItems_refl xs
  | .obj fs => by
      rw [pyEq, eqFields_of_subset fs fs fun _ h => h]
      simp

theorem eqItems_refl : ∀ xs : List Json, eqItems xs xs = true
  | [] => rfl
  | x :: xs => by rw [eqItems, pyEq_refl x, eqItems_refl xs]; rfl

theorem eqFields_of_subset : ∀ fs gs : Fields, fs ⊆ gs → eqFields fs gs = true
  | [], _, _ => by rw [eqFields]
  | field :: rest, gs, h => by
      rw [eqFields, eqFields_of_subset rest gs fun _ hmem => h (List.mem_cons_of_mem _ hmem),
        Bool.and_true, List.any_eq_true]
      exact ⟨field, h List.mem_cons_self, eqField_refl field⟩

theorem eqField_refl : ∀ field : List Char × Json, eqField field field = true
  | (key, value) => by rw [eqField, pyEq_refl value]; simp

end

end Json

end Pvllm
