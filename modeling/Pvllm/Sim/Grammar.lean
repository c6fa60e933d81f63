import Pvllm.Library.Draws
import Pvllm.Sim.Json

/-!
Generating JSON values that satisfy a schema, and checking them.

`generate` follows a schema down and draws a value for it; `validate` goes down the same
schema with the value. They begin with the same tests (`head`) and differ from there on.
Regular expressions are generated elsewhere and are a parameter here.
-/

namespace Pvllm.Grammar

open Json (Fields)

/-- `_WORDS`. -/
def words : List (List Char) :=
  ["alpha", "bravo", "charlie", "delta", "echo", "foxtrot", "golf", "hotel", "india", "juliet",
    "kilo", "lima", "mike", "november", "oscar", "papa"].map String.toList

/-- `_UNSUPPORTED_KEYWORDS`. -/
def unsupportedKeywords : List String :=
  ["multipleOf", "uniqueItems", "prefixItems", "contains", "minContains", "maxContains", "not",
    "if", "then", "else", "dependentRequired", "dependentSchemas", "patternProperties",
    "propertyNames", "minProperties", "maxProperties"]

def maxDepth : ℕ := 12

/-! ### Exceptions -/

/-- What an `UnsupportedConstraintError` says. -/
inductive Refusal where
  | tooDeep
  | notASchema
  | remoteRef (ref : List Char)
  | unresolvedRef (ref : List Char)
  | refNotASchema (ref : List Char)
  | emptyEnum
  | emptyCombinator (name : String)
  | allOfValue
  | keywords (names : List String)
  | missing (names : List (List Char))
  | items (low high : ℤ)
  | tupleItems
  | lengths (low high : ℤ)
  | integers (low high : ℤ)
  | numbers (low high : ℚ)
  | unknownType (type : Json)
  | pattern (message : String)

/-- What a failed check of the validator says of the value at its path. -/
inductive Failure where
  | const
  | enum
  | expected (type : String)
  | missing (name : List Char)
  | tooFew
  | tooMany
  | tooShort
  | tooLong
  | pattern
  | belowMinimum
  | aboveMaximum
  | notAboveExclusiveMinimum
  | notBelowExclusiveMaximum

/-- An exception. An `UnsupportedConstraintError` is recorded with the schema it was raised for;
any other exception but the validator's own is recorded by its name. -/
inductive GrammarError where
  | unsupported (schema : Json) (refusal : Refusal)
  | assertion (path : List Char) (failure : Failure)
  | raised (exception : String)

/-! ### Python's conversions, and the generator of random numbers -/

/-- `int(q)`: towards zero. -/
def trunc (q : ℚ) : ℤ := if 0 ≤ q then ⌊q⌋ else ⌈q⌉

/-- `int(value)`, of a number. -/
def toInt (value : Json) : Except GrammarError ℤ :=
  match value.number? with
  | some q => .ok (trunc q)
  | none => .error (.raised "TypeError")

/-- `float(value)`, of a number. -/
def toFloat (value : Json) : Except GrammarError ℚ :=
  match value.number? with
  | some q => .ok q
  | none => .error (.raised "TypeError")

/-- `round(q, 4)`, half to even. -/
def round4 (q : ℚ) : ℚ :=
  let n := ⌊q * 10000⌋
  let rest := q * 10000 - n
  (if rest < 1 / 2 ∨ (rest = 1 / 2 ∧ n % 2 = 0) then n else n + 1 : ℤ) / 10000

/-- `rng.integers(low, high)`: the bounds are those of 64-bit integers. -/
def integers (low high : ℤ) : Draws GrammarError ℤ :=
  if h : low < high then
    if -2 ^ 63 ≤ low ∧ high ≤ 2 ^ 63 then .integer low high h pure
    else .fail (.raised "ValueError")
  else .fail (.raised "ValueError")

/-- `rng.uniform(low, high)`. -/
def uniform (low high : ℚ) : Draws GrammarError ℚ :=
  if h : low ≤ high then .uniform low high h pure else .fail (.raised "ValueError")

/-- `_WORDS[int(rng.integers(len(_WORDS)))]`. -/
def word : Draws GrammarError (List Char) := do
  let i ← integers 0 words.length
  pure (words.getD i.toNat [])

/-! ### Reading a schema -/

/-- What the chain of tests at the head of `_generate` and of `_validate` finds. -/
inductive Head where
  | ref (ref : Json)
  | const (value : Json)
  | enum (options : Json)
  | combinator (name : String) (branches : Json)
  | allOf (branches : Json)
  | plain

def head (fields : Fields) : Head :=
  match fields.get "$ref" with
  | some ref => .ref ref
  | none =>
  match fields.get "const" with
  | some value => .const value
  | none =>
  match fields.get "enum" with
  | some options => .enum options
  | none =>
  match fields.get "anyOf" with
  | some branches => .combinator "anyOf" branches
  | none =>
  match fields.get "oneOf" with
  | some branches => .combinator "oneOf" branches
  | none =>
  match fields.get "allOf" with
  | some branches => .allOf branches
  | none => .plain

/-- The type of a schema. No type is that of an object. -/
inductive Kind where
  | object
  | array
  | string
  | integer
  | number
  | boolean
  | null
  | other (type : Json)

def isNullName : Json → Bool
  | .str name => name = "null".toList
  | _ => false

/-- `schema.get("type")`, and of a union of types the first that is not `null`. -/
def schemaType (fields : Fields) : Json :=
  match fields.get "type" with
  | none => .null
  | some (.arr types) => (types.find? fun t => !isNullName t).getD (.str "null".toList)
  | some type => type

def kindOf : Json → Kind
  | .null => .object
  | .str name =>
    if name = "object".toList then .object
    else if name = "array".toList then .array
    else if name = "string".toList then .string
    else if name = "integer".toList then .integer
    else if name = "number".toList then .number
    else if name = "boolean".toList then .boolean
    else if name = "null".toList then .null
    else .other (.str name)
  | type => .other type

def kind (fields : Fields) : Kind := kindOf (schemaType fields)

/-- `_UNSUPPORTED_KEYWORDS & schema.keys()`. -/
def unsupported (fields : Fields) : List String := unsupportedKeywords.filter fields.has

/-- `ref[2:].split("/")`, followed down from the root. -/
def walk (ref : List Char) (schema : Json) : List (List Char) → Json → Except GrammarError Json
  | [], node =>
    if node.isObject then .ok node else .error (.unsupported schema (.refNotASchema ref))
  | part :: rest, node =>
    match node with
    | .obj fields =>
      match fields.find? (fun field => field.1 = part) with
      | some field => walk ref schema rest field.2
      | none => .error (.unsupported schema (.unresolvedRef ref))
    | _ => .error (.unsupported schema (.unresolvedRef ref))

def resolveRef (ref root schema : Json) : Except GrammarError Json :=
  match ref with
  | .str name =>
    if "#/".toList.isPrefixOf name then walk name schema ((name.drop 2).splitOn '/') root
    else .error (.unsupported schema (.remoteRef name))
  | _ => .error (.raised "AttributeError")

/-- `schema.get("properties") or {}`. -/
def properties (fields : Fields) : Except GrammarError Fields :=
  match fields.get "properties" with
  | none => .ok []
  | some (.obj fields) => .ok fields
  | some value => if value.truthy then .error (.raised "AttributeError") else .ok []

/-- `schema.get("required") or ()`, a list of names. -/
def required (fields : Fields) : Except GrammarError (List (List Char)) :=
  match fields.get "required" with
  | none => .ok []
  | some (.arr names) => names.mapM fun
      | .str name => .ok name
      | _ => .error (.raised "TypeError")
  | some value => if value.truthy then .error (.raised "TypeError") else .ok []

/-- `int(schema.get(key, default))`. -/
def getInt (fields : Fields) (key : String) (default : ℤ) : Except GrammarError ℤ :=
  match fields.get key with
  | none => .ok default
  | some value => toInt value

/-- `low` and `high` of `_generate_array`. -/
def itemBounds (fields : Fields) : Except GrammarError (ℤ × ℤ) := do
  let low ← getInt fields "minItems" 1
  let high ← getInt fields "maxItems" (max low 3)
  pure (low, high)

/-- `minimum` and `maximum` of `_generate_string`. -/
def lengthBounds (fields : Fields) : Except GrammarError (ℤ × ℤ) := do
  let minimum ← getInt fields "minLength" 0
  let maximum ← getInt fields "maxLength" (max minimum 24)
  pure (minimum, maximum)

def raiseTo {α : Type} [Max α] (low : Option α) (bound : α) : Option α :=
  some (match low with
    | none => bound
    | some low => max low bound)

def lowerTo {α : Type} [Min α] (high : Option α) (bound : α) : Option α :=
  some (match high with
    | none => bound
    | some high => min high bound)

/-- `int(schema[key])`, if the key is there. -/
def intAt (fields : Fields) (key : String) : Except GrammarError (Option ℤ) :=
  match fields.get key with
  | none => .ok none
  | some value => do
    let n ← toInt value
    pure (some n)

/-- `float(schema[key])`, if the key is there. -/
def floatAt (fields : Fields) (key : String) : Except GrammarError (Option ℚ) :=
  match fields.get key with
  | none => .ok none
  | some value => do
    let q ← toFloat value
    pure (some q)

/-- `_integer_bounds`. -/
def integerBounds (fields : Fields) : Except GrammarError (Option ℤ × Option ℤ) := do
  let low ← intAt fields "minimum"
  let exclusiveLow ← intAt fields "exclusiveMinimum"
  let low := match exclusiveLow with
    | none => low
    | some bound => raiseTo low (bound + 1)
  let high ← intAt fields "maximum"
  let exclusiveHigh ← intAt fields "exclusiveMaximum"
  let high := match exclusiveHigh with
    | none => high
    | some bound => lowerTo high (bound - 1)
  pure (low, high)

/-- The bounds of `_generate_integer`, with the defaults for those that are not set. -/
def integerRange (fields : Fields) : Except GrammarError (ℤ × ℤ) := do
  let (low, high) ← integerBounds fields
  let low := match low, high with
    | some low, _ => low
    | none, none => 0
    | none, some high => min 0 (high - 100)
  pure (low, high.getD (low + 100))

/-- `_EXCLUSIVE_EPSILON`. -/
def exclusiveEpsilon : ℚ := 1 / 1000

/-- The bounds of `_generate_number`. -/
def numberRange (fields : Fields) : Except GrammarError (ℚ × ℚ) := do
  let low ← floatAt fields "minimum"
  let exclusiveLow ← floatAt fields "exclusiveMinimum"
  let low := match exclusiveLow with
    | none => low
    | some bound => raiseTo low (bound + exclusiveEpsilon)
  let high ← floatAt fields "maximum"
  let exclusiveHigh ← floatAt fields "exclusiveMaximum"
  let high := match exclusiveHigh with
    | none => high
    | some bound => lowerTo high (bound - exclusiveEpsilon)
  let low := match low, high with
    | some low, _ => low
    | none, none => 0
    | none, some high => min 0 (high - 100)
  pure (low, high.getD (low + 100))

/-! ### Generating -/

/-- `_generate_object`, with the generator of the subschemas. -/
def generateObject (generate : Json → Draws GrammarError Json) (schema : Json) (fields : Fields) :
    Draws GrammarError Json := do
  let properties ← .ofExcept (properties fields)
  let required ← .ofExcept (required fields)
  let values ← .each (fun property => generate property.2) properties
  let result := (properties.map (·.1)).zip values
  let missing := required.filter fun name => !(result.map (·.1)).contains name
  if missing ≠ [] then .fail (.unsupported schema (.missing missing))
  else if properties = [] then do
    let value ← word
    pure (.obj [("result".toList, .str value)])
  else pure (.obj result)

/-- `count` items, each for the schema of the items. -/
def generateItems (generate : Json → Draws GrammarError Json) (schema : Json) (fields : Fields)
    (count : ℕ) : Draws GrammarError Json :=
  match fields.get "items" with
  | none | some .null => do
    let items ← .each (fun _ => word) (List.replicate count ())
    pure (.arr (items.map .str))
  | some (.arr _) => .fail (.unsupported schema .tupleItems)
  | some items => do
    let items ← .each (fun _ => generate items) (List.replicate count ())
    pure (.arr items)

/-- `_generate_array`. -/
def generateArray (generate : Json → Draws GrammarError Json) (schema : Json) (fields : Fields) :
    Draws GrammarError Json := do
  let (low, high) ← .ofExcept (itemBounds fields)
  if high < low then .fail (.unsupported schema (.items low high))
  else
    let count ← integers low (high + 1)
    generateItems generate schema fields count.toNat

/-- The loop that draws words until there are `minimum` characters. Each is one at least. -/
def growString (minimum : ℤ) : ℕ → List Char → Draws GrammarError (List Char)
  | 0, value => pure value
  | fuel + 1, value =>
    if value.length < minimum then do
      let next ← word
      growString minimum fuel (value ++ ' ' :: next)
    else pure value

def formatted (fields : Fields) : Option (List Char) :=
  match fields.get "format" with
  | some (.str format) =>
    if format = "date-time".toList then some "2026-01-01T00:00:00Z".toList
    else if format = "date".toList then some "2026-01-01".toList
    else if format = "email".toList then some "someone@example.com".toList
    else if format = "uuid".toList then some "00000000-0000-4000-8000-000000000000".toList
    else none
  | _ => none

/-- `_generate_string`, with the generator of regular expressions. -/
def generateString (generateRegexMatch : Json → Draws GrammarError (List Char)) (schema : Json)
    (fields : Fields) : Draws GrammarError Json :=
  match fields.get "pattern" with
  | some pattern => do
    let value ← generateRegexMatch pattern
    pure (.str value)
  | none =>
  match formatted fields with
  | some value => pure (.str value)
  | none => do
    let (minimum, maximum) ← .ofExcept (lengthBounds fields)
    if maximum < minimum then .fail (.unsupported schema (.lengths minimum maximum))
    else
      let first ← word
      let value ← growString minimum minimum.toNat first
      pure (.str (value.take maximum.toNat))

/-- `_generate_integer`. -/
def generateInteger (schema : Json) (fields : Fields) : Draws GrammarError Json := do
  let (low, high) ← .ofExcept (integerRange fields)
  if high < low then .fail (.unsupported schema (.integers low high))
  else
    let n ← integers low (high + 1)
    pure (.int n)

/-- `_generate_number`: drawn, rounded, and put back between the bounds. -/
def generateNumber (schema : Json) (fields : Fields) : Draws GrammarError Json := do
  let (low, high) ← .ofExcept (numberRange fields)
  if high < low then .fail (.unsupported schema (.numbers low high))
  else
    let q ← uniform low high
    pure (.float (min (max (round4 q) low) high))

/-- `options[int(rng.integers(len(options)))]`. -/
def generateEnum (schema : Json) (options : Json) : Draws GrammarError Json :=
  match options with
  | .arr options =>
    if options = [] then .fail (.unsupported schema .emptyEnum)
    else do
      let i ← integers 0 options.length
      pure (options.getD i.toNat .null)
  | options =>
    if options.truthy then .fail (.raised "TypeError")
    else .fail (.unsupported schema .emptyEnum)

def firstBranch (schema : Json) (name : String) (branches : Json) : Except GrammarError Json :=
  match branches with
  | .arr (first :: _) => .ok first
  | branches =>
    if branches.truthy then .error (.raised "TypeError")
    else .error (.unsupported schema (.emptyCombinator name))

/-- `merged.update(value)`, field by field. -/
def update (merged : Fields) (value : Fields) : Fields :=
  value.foldl (fun merged field =>
    if (merged.map (·.1)).contains field.1 then
      merged.map fun old => if old.1 = field.1 then field else old
    else merged ++ [field]) merged

/-- The value of a branch of an `allOf` is an object. -/
def objectOf (schema value : Json) : Except GrammarError Fields :=
  match value with
  | .obj fields => .ok fields
  | _ => .error (.unsupported schema .allOfValue)

/-- The branches of an `allOf`, merged. -/
def generateAllOf (generate : Json → Draws GrammarError Json) (schema : Json) (branches : Json) :
    Draws GrammarError Json :=
  match branches with
  | .arr branches => do
    let values ← .each (fun branch => do
      let value ← generate branch
      .ofExcept (objectOf schema value)) branches
    pure (.obj (values.foldl update []))
  | _ => .fail (.raised "TypeError")

/-- `_generate`, with `fuel` levels of nesting to go. -/
def generate (generateRegexMatch : Json → Draws GrammarError (List Char)) (root : Json) :
    ℕ → Json → Draws GrammarError Json
  | 0, schema => .fail (.unsupported schema .tooDeep)
  | fuel + 1, schema =>
    match schema with
    | .obj fields =>
      match head fields with
      | .ref ref => do
        let target ← .ofExcept (resolveRef ref root schema)
        generate generateRegexMatch root fuel target
      | .const value => pure value
      | .enum options => generateEnum schema options
      | .combinator name branches => do
        let first ← .ofExcept (firstBranch schema name branches)
        generate generateRegexMatch root fuel first
      | .allOf branches =>
        generateAllOf (generate generateRegexMatch root fuel) schema branches
      | .plain =>
        if unsupported fields ≠ [] then
          .fail (.unsupported schema (.keywords (unsupported fields)))
        else
          match kind fields with
          | .object => generateObject (generate generateRegexMatch root fuel) schema fields
          | .array => generateArray (generate generateRegexMatch root fuel) schema fields
          | .string => generateString generateRegexMatch schema fields
          | .integer => generateInteger schema fields
          | .number => generateNumber schema fields
          | .boolean => do
            let n ← integers 0 2
            pure (.bool (n ≠ 0))
          | .null => pure .null
          | .other type => .fail (.unsupported schema (.unknownType type))
    | _ => .fail (.unsupported schema .notASchema)

/-- `generate_json`. No schema means any object. -/
def generateJson (generateRegexMatch : Json → Draws GrammarError (List Char))
    (schema : Option Json) : Draws GrammarError Json :=
  let root := schema.getD (.obj [("type".toList, .str "object".toList)])
  generate generateRegexMatch root (maxDepth + 1) root

/-! ### Validating -/

/-- `assert condition, f"{path}: …"`. -/
def check (condition : Bool) (path : List Char) (failure : Failure) : Except GrammarError Unit :=
  if condition then .ok () else .error (.assertion path failure)

def checkAt (fields : Fields) (key : String) (meets : ℚ → Bool) (path : List Char)
    (failure : Failure) : Except GrammarError Unit :=
  match fields.get key with
  | none => .ok ()
  | some bound => do
    let bound ← toFloat bound
    check (meets bound) path failure

/-- `_validate_bounds`. -/
def validateBounds (value : ℚ) (fields : Fields) (path : List Char) :
    Except GrammarError Unit := do
  checkAt fields "minimum" (· ≤ value) path .belowMinimum
  checkAt fields "maximum" (value ≤ ·) path .aboveMaximum
  checkAt fields "exclusiveMinimum" (· < value) path .notAboveExclusiveMinimum
  checkAt fields "exclusiveMaximum" (value < ·) path .notBelowExclusiveMaximum

def checkItems (validate : Json → List Char → Except GrammarError Unit) (path : List Char) :
    ℕ → List Json → Except GrammarError Unit
  | _, [] => .ok ()
  | index, item :: rest => do
    validate item (path ++ '[' :: Nat.toDigits 10 index ++ [']'])
    checkItems validate path (index + 1) rest

def checkProperties (validate : Json → Json → List Char → Except GrammarError Unit)
    (value : Fields) (path : List Char) : Fields → Except GrammarError Unit
  | [] => .ok ()
  | (name, subschema) :: rest => do
    match value.find? (fun field => field.1 = name) with
    | none => .ok ()
    | some field => validate field.2 subschema (path ++ '.' :: name)
    checkProperties validate value path rest

def checkRequired (value : Fields) (path : List Char) :
    List (List Char) → Except GrammarError Unit
  | [] => .ok ()
  | name :: rest => do
    check ((value.map (·.1)).contains name) path (.missing name)
    checkRequired value path rest

/-- The object branch of `_validate`. -/
def validateObject (validate : Json → Json → List Char → Except GrammarError Unit) (value : Json)
    (fields : Fields) (path : List Char) : Except GrammarError Unit :=
  match value with
  | .obj value => do
    let required ← required fields
    checkRequired value path required
    let properties ← properties fields
    checkProperties validate value path properties
  | _ => .error (.assertion path (.expected "object"))

def validateArray (validate : Json → Json → List Char → Except GrammarError Unit) (value : Json)
    (fields : Fields) (path : List Char) : Except GrammarError Unit :=
  match value with
  | .arr items => do
    checkAt fields "minItems" (· ≤ items.length) path .tooFew
    checkAt fields "maxItems" ((items.length : ℚ) ≤ ·) path .tooMany
    match fields.get "items" with
    | some (.obj schema) => checkItems (fun item => validate item (.obj schema)) path 0 items
    | _ => .ok ()
  | _ => .error (.assertion path (.expected "array"))

def validateString (fullmatch : Json → List Char → Bool) (value : Json) (fields : Fields)
    (path : List Char) : Except GrammarError Unit :=
  match value with
  | .str value => do
    checkAt fields "minLength" (· ≤ value.length) path .tooShort
    checkAt fields "maxLength" ((value.length : ℚ) ≤ ·) path .tooLong
    match fields.get "pattern" with
    | some pattern => check (fullmatch pattern value) path .pattern
    | none => .ok ()
  | _ => .error (.assertion path (.expected "string"))

/-- `_validate`, in at most `limit` nested calls. -/
def validate (fullmatch : Json → List Char → Bool) (root : Json) :
    ℕ → Json → Json → List Char → Except GrammarError Unit
  | 0, _, _, _ => .error (.raised "RecursionError")
  | limit + 1, value, schema, path =>
    match schema with
    | .obj fields =>
      match head fields with
      | .ref ref => do
        let target ← resolveRef ref root schema
        validate fullmatch root limit value target path
      | .const expected => check (value.pyEq expected) path .const
      | .enum options =>
        match options with
        | .arr options => check (options.any value.pyEq) path .enum
        | _ => .error (.raised "TypeError")
      | .combinator _ branches =>
        match branches with
        | .arr (first :: _) => validate fullmatch root limit value first path
        | .arr [] => .error (.raised "IndexError")
        | _ => .error (.raised "TypeError")
      | .allOf _ => .ok ()
      | .plain =>
        match kind fields with
        | .object => validateObject (validate fullmatch root limit) value fields path
        | .array => validateArray (validate fullmatch root limit) value fields path
        | .string => validateString fullmatch value fields path
        | .integer =>
          match value with
          | .int n => validateBounds n fields path
          | _ => .error (.assertion path (.expected "integer"))
        | .number =>
          match value with
          | .int n => validateBounds n fields path
          | .float q => validateBounds q fields path
          | _ => .error (.assertion path (.expected "number"))
        | .boolean =>
          match value with
          | .bool _ => .ok ()
          | _ => .error (.assertion path (.expected "boolean"))
        | .null =>
          match value with
          | .null => .ok ()
          | _ => .error (.assertion path (.expected "null"))
        | .other _ => .ok ()
    | _ => .error (.raised "TypeError")

def recursionLimit : ℕ := 1000

/-- `validate_against_schema`. -/
def validateAgainstSchema (fullmatch : Json → List Char → Bool) (value : Json)
    (schema : Option Json) : Except GrammarError Unit :=
  match schema with
  | none => .ok ()
  | some schema => validate fullmatch schema recursionLimit value schema ['$']

/-- The `json` branch of `generate_for_constraint`: a value is generated, and checked. -/
def generateForJson (generateRegexMatch : Json → Draws GrammarError (List Char))
    (fullmatch : Json → List Char → Bool) (schema : Option Json) :
    Draws GrammarError Json := do
  let value ← generateJson generateRegexMatch schema
  .ofExcept (validateAgainstSchema fullmatch value schema)
  pure value

end Pvllm.Grammar
