import Assayist.Spec.Json

/-! The keywords of JSON Schema that the contract's schema uses, each as a predicate on a
value. -/

namespace Assayist

/-- The values that a schema accepts. -/
abbrev JsonSchema (F : Type) := Json F → Prop

namespace JsonSchema

section Strings

variable {F : Type}

/-- `{ "type": "string" }`, with whatever else is asked of the text. -/
def stringWhere (p : String → Prop) : JsonSchema F := fun v => ∃ s, v = .string s ∧ p s

def string : JsonSchema F := stringWhere fun _ => True

def enum (xs : List String) : JsonSchema F := stringWhere (· ∈ xs)

/-- `"minLength": n`, in characters. -/
def minLength (n : ℕ) : JsonSchema F := stringWhere fun s => n ≤ s.toList.length

/-- `"pattern": "^[..]\x7bn\x7d$"` for a class of characters. -/
def exactly (cls : Char → Bool) (n : ℕ) (s : String) : Prop :=
  s.toList.length = n ∧ ∀ c ∈ s.toList, cls c = true

def boolean : JsonSchema F := fun v => ∃ b, v = .bool b

end Strings

section Numbers

variable {F : Type} [F64 F]

/-- `{ "type": "integer", "minimum": lo }`, which a float without a fraction meets too. -/
def integer (lo : ℕ) : JsonSchema F := fun v =>
  (∃ n, v = .nat n ∧ lo ≤ n.toNat) ∨
    ∃ (x : F) (n : ℕ), v = .number (.float x) ∧ F64.isFinite x = true ∧ x = n ∧ lo ≤ n

/-- `{ "type": "number" }`, with whatever range is asked of it. -/
def numberWhere (p : F → Prop) : JsonSchema F := fun v =>
  ∃ n : Number F, v = .number n ∧ (∀ x, n = .float x → F64.isFinite x = true) ∧ p n.asF64

def number : JsonSchema F := numberWhere fun _ => True

/-- `"type": ["string", "number", "integer", "boolean"]`. -/
def scalar : JsonSchema F := fun v => string v ∨ number v ∨ boolean v

end Numbers

section Composites

variable {F : Type}

def arrayOf (items : JsonSchema F) : JsonSchema F := fun v =>
  ∃ xs, v = .array xs ∧ ∀ x ∈ xs, items x

/-- An object whose properties all meet `additionalProperties`. -/
def objectOf (additional : JsonSchema F) : JsonSchema F := fun v =>
  ∃ m, v = .object m ∧ ∀ e ∈ m, additional e.2

def anyObject : JsonSchema F := objectOf fun _ => True

/-- One of the `properties` of an object. -/
structure Property (F : Type) where
  name : String
  required : Bool
  schema : JsonSchema F

def required (name : String) (schema : JsonSchema F) : Property F := ⟨name, true, schema⟩

def optional (name : String) (schema : JsonSchema F) : Property F := ⟨name, false, schema⟩

/-- An object with `required` names and `"additionalProperties": false`. -/
def closedObject (ps : List (Property F)) : JsonSchema F := fun v =>
  ∃ m, v = .object m ∧ (ps.all fun p => !p.required || (m.lookup p.name).isSome) = true ∧
    ∀ e ∈ m, ∃ p, ps.find? (·.name == e.1) = some p ∧ p.schema e.2

/-- `"if": { "properties": { k: { "const": c } } }` with its `then`. -/
def whenConst (k c : String) (consequence : JsonSchema F) : JsonSchema F := fun v =>
  (∀ x, v.get k = some x → x = .string c) → consequence v

/-- `{ "required": ks }`. -/
def requires (ks : List String) : JsonSchema F := fun v => ∀ k ∈ ks, ∃ x, v.get k = some x

/-- `{ "properties": { k: schema } }`. -/
def property (k : String) (schema : JsonSchema F) : JsonSchema F := fun v =>
  ∀ x, v.get k = some x → schema x

/-- `oneOf`: exactly one of the schemas accepts the value. -/
def oneOf (schemas : List (JsonSchema F)) : JsonSchema F := fun v =>
  ∃! i : Fin schemas.length, schemas.get i v

end Composites

end JsonSchema

end Assayist
