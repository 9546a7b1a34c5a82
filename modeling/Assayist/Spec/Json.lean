import Assayist.Spec.Basic

/-! `serde_json::Value` as the sources use it: numbers keep the three forms the
parser gives them, and an object is the association list its map iterates. -/

namespace Assayist

/-- `serde_json::Number`: a `u64`, a negative `i64`, or a finite float. -/
inductive Number (F : Type) where
  | posInt (n : UInt64)
  | negInt (n : ℤ)
  | float (x : F)

inductive Json (F : Type) where
  | null
  | bool (b : Bool)
  | number (n : Number F)
  | string (s : String)
  | array (xs : List (Json F))
  | object (m : List (String × Json F))

namespace Number

variable {F : Type}

def asU64 : Number F → Option UInt64
  | .posInt n => some n
  | _ => none

def asI64 : Number F → Option ℤ
  | .posInt n => if n.toNat < 2 ^ 63 then some n.toNat else none
  | .negInt n => some n
  | .float _ => none

def asF64 [F64 F] : Number F → F
  | .posInt n => (n.toNat : F)
  | .negInt n => (n : F)
  | .float x => x

/-- `Display` of a number: the decimal digits of an integer, the shortest float
text otherwise. -/
def text [FloatText F] : Number F → String
  | .posInt n => toString n.toNat
  | .negInt n => toString n
  | .float x => FloatText.ryu x

end Number

namespace Json

variable {F : Type}

/-- `v.get(k)`. -/
def get (v : Json F) (k : String) : Option (Json F) :=
  match v with
  | .object m => m.lookup k
  | _ => none

/-- `v[k]`, which is `Null` on a missing key. -/
def index (v : Json F) (k : String) : Json F := (v.get k).getD .null

def asStr : Json F → Option String
  | .string s => some s
  | _ => none

def asBool : Json F → Option Bool
  | .bool b => some b
  | _ => none

def asU64 : Json F → Option UInt64
  | .number n => n.asU64
  | _ => none

def asI64 : Json F → Option ℤ
  | .number n => n.asI64
  | _ => none

def asF64 [F64 F] : Json F → Option F
  | .number n => some n.asF64
  | _ => none

def asArray : Json F → Option (List (Json F))
  | .array xs => some xs
  | _ => none

def asObject : Json F → Option (List (String × Json F))
  | .object m => some m
  | _ => none

def isNull : Json F → Bool
  | .null => true
  | _ => false

/-- `v.get(k).and_then(|x| x.as_str())`, and so on for the other readers. -/
def getStr (v : Json F) (k : String) : Option String := (v.get k).bind asStr

def getBool (v : Json F) (k : String) : Option Bool := (v.get k).bind asBool

def getU64 (v : Json F) (k : String) : Option UInt64 := (v.get k).bind asU64

def getF64 [F64 F] (v : Json F) (k : String) : Option F := (v.get k).bind asF64

def getArray (v : Json F) (k : String) : Option (List (Json F)) := (v.get k).bind asArray

/-- A `u64` as a JSON number. -/
def nat (n : UInt64) : Json F := .number (.posInt n)

/-- `json!(x)` for an `f64`: a value that is not finite becomes `null`. -/
def float [F64 F] (x : F) : Json F := if F64.isFinite x then .number (.float x) else .null

section Text

variable [FloatText F]

/-- The two-character escapes of a JSON string; other control characters are
written as `\u00xx`. -/
def escapeChar (c : Char) : List Char :=
  if c = '"' then ['\\', '"']
  else if c = '\\' then ['\\', '\\']
  else if c = '\n' then ['\\', 'n']
  else if c = '\r' then ['\\', 'r']
  else if c = '\t' then ['\\', 't']
  else if c.toNat = 8 then ['\\', 'b']
  else if c.toNat = 12 then ['\\', 'f']
  else if c.toNat < 32 then
    ['\\', 'u', '0', '0', Nat.digitChar (c.toNat / 16), Nat.digitChar (c.toNat % 16)]
  else [c]

def quote (s : String) : String :=
  String.ofList ('"' :: s.toList.flatMap escapeChar ++ ['"'])

mutual

/-- `v.to_string()`: compact JSON text. -/
def text : Json F → String
  | .null => "null"
  | .bool b => if b then "true" else "false"
  | .number n => n.text
  | .string s => quote s
  | .array xs => "[" ++ ",".intercalate (textItems xs) ++ "]"
  | .object m => "\x7b" ++ ",".intercalate (textFields m) ++ "\x7d"

def textItems : List (Json F) → List String
  | [] => []
  | x :: xs => text x :: textItems xs

def textFields : List (String × Json F) → List String
  | [] => []
  | (k, v) :: m => (quote k ++ ":" ++ text v) :: textFields m

end

end Text

end Json

end Assayist
