import Mathlib.Analysis.Real.Sqrt
import Mathlib.Data.Rat.Sqrt

/-! What the Rust sources take from the language: `f64` arithmetic, the float
text of the standard library, `u64` arithmetic under either build profile, and
the two ways a call can fail to return, an `Err` or a panic. -/

namespace Assayist

/-- The operations the sources perform on `f64`. Nothing is assumed of them, so a
statement over any `F` also holds of the rounded machine operations; "reading f64
arithmetic as exact" is the instance at `ℝ`. -/
class F64 (F : Type) extends Zero F, One F, Add F, Sub F, Mul F, Div F, NatCast F, IntCast F,
    LT F, LE F, BEq F, Max F where
  abs : F → F
  sqrt : F → F
  isFinite : F → Bool
  decLt : DecidableLT F
  decLe : DecidableLE F

attribute [reducible, instance] F64.decLt F64.decLe

noncomputable instance exactF64 : F64 ℝ where
  abs x := |x|
  sqrt := Real.sqrt
  isFinite _ := true
  decLt := Real.decidableLT
  decLe := Real.decidableLE

/-- Rational arithmetic, exact except for the square root of a non-square. It is
here so that the definitions can be run. -/
instance ratF64 : F64 ℚ where
  abs x := |x|
  sqrt := Rat.sqrt
  isFinite _ := true
  decLt := inferInstance
  decLe := inferInstance

instance atLeastTwo_two : Nat.AtLeastTwo 2 := ⟨by decide⟩

instance atLeastTwo_three : Nat.AtLeastTwo 3 := ⟨by decide⟩

instance atLeastTwo_five : Nat.AtLeastTwo 5 := ⟨by decide⟩

instance atLeastTwo_ninetyNine : Nat.AtLeastTwo 99 := ⟨by decide⟩

instance atLeastTwo_hundred : Nat.AtLeastTwo 100 := ⟨by decide⟩

@[simp] theorem abs_exact (x : ℝ) : F64.abs x = |x| := rfl

@[simp] theorem sqrt_exact (x : ℝ) : F64.sqrt x = √x := rfl

/-- The text forms of an `f64`: the `Display` and `FromStr` of the standard
library, and the shortest form `serde_json` writes. -/
class FloatText (F : Type) where
  display : F → String
  parse : String → Option F
  ryu : F → String

/-- The decimal digits of a fraction below 1, at most as many as the fuel. -/
def fractionDigits : ℕ → ℚ → List Char
  | 0, _ => []
  | fuel + 1, q =>
    if q = 0 then []
    else
      let d := (q * 10).floor
      Nat.digitChar d.toNat :: fractionDigits fuel (q * 10 - d)

/-- The whole part of a rational and the digits after its point. -/
def decimalText (q : ℚ) : String × String :=
  ((if q < 0 then "-" else "") ++ toString |q|.floor,
    String.ofList (fractionDigits 20 (|q| - |q|.floor)))

/-- The value of decimal text with an optional fraction part. -/
def decimalValue (cs : List Char) : Option ℚ :=
  let (whole, rest) := cs.span (· ≠ '.')
  let fraction := rest.drop 1
  if (whole ++ fraction).isEmpty ∨ !(whole ++ fraction).all Char.isDigit then none
  else some ((whole ++ fraction).foldl (fun q c => q * 10 + (c.toNat - '0'.toNat : ℕ)) 0
    / 10 ^ fraction.length)

/-- Decimal text of rationals with a short expansion, likewise so that definitions
can be run. -/
instance ratText : FloatText ℚ where
  display q :=
    let (whole, fraction) := decimalText q
    if fraction.isEmpty then whole else whole ++ "." ++ fraction
  parse s := match s.toList with
    | '-' :: cs => (decimalValue cs).map (- ·)
    | '+' :: cs => decimalValue cs
    | cs => decimalValue cs
  ryu q :=
    let (whole, fraction) := decimalText q
    whole ++ "." ++ if fraction.isEmpty then "0" else fraction

/-- Whether integer overflow panics (a debug build) or wraps (a release build). -/
class Build where
  overflowChecks : Bool

/-- The profile the binaries ship in. -/
@[reducible] def releaseBuild : Build := ⟨false⟩

/-- A build in which every overflow of an addition or a shift is a panic. -/
@[reducible] def checkedBuild : Build := ⟨true⟩

inductive Panic where
  | indexOutOfBounds
  | arithmeticOverflow
  deriving DecidableEq, Repr

/-- A computation that does not return a value either returns `Err` with a message
or panics. -/
inductive Abort where
  | error (msg : String)
  | panic (p : Panic)
  deriving DecidableEq, Repr

section U64

variable [Build]

/-- `a + b` on `u64`. -/
def addU64 (a b : UInt64) : Except Abort UInt64 :=
  if Build.overflowChecks && decide (2 ^ 64 ≤ a.toNat + b.toNat) then
    .error (.panic .arithmeticOverflow)
  else .ok (a + b)

/-- `xs.iter().sum::<u64>()`. -/
def sumU64 (xs : List UInt64) : Except Abort UInt64 := xs.foldlM addU64 0

/-- `1u64 << i`: an unchecked build masks the shift amount. -/
def oneShl (i : ℕ) : Except Abort UInt64 :=
  if Build.overflowChecks && decide (64 ≤ i) then .error (.panic .arithmeticOverflow)
  else .ok (1 <<< UInt64.ofNat i)

/-- An operation that overflows from `bound` on returns below it, and past it only where the
build does not check. -/
theorem checked_eq_ok {α : Type} {bound n : ℕ} {a c : α} :
    (if Build.overflowChecks && decide (bound ≤ n) then .error (.panic .arithmeticOverflow)
      else .ok a : Except Abort α) = .ok c ↔
      (Build.overflowChecks = true → n < bound) ∧ a = c := by
  cases hchecks : (Build.overflowChecks : Bool) with
  | false => simp
  | true =>
    by_cases hover : bound ≤ n
    · rw [decide_eq_true hover]
      exact iff_of_false (by simp) fun h => absurd hover (Nat.not_le.2 (h.1 rfl))
    · rw [decide_eq_false hover]
      simp only [Bool.and_false, Bool.false_eq_true, if_false, Except.ok.injEq, true_imp_iff]
      exact (and_iff_right (Nat.not_le.1 hover)).symm

end U64

/-- `haystack.contains(needle)` on strings. -/
def contains (haystack needle : String) : Bool := decide (needle.toList <:+: haystack.toList)

/-- The Unicode `White_Space` characters. -/
def isWhite (c : Char) : Bool :=
  let n := c.toNat
  (9 ≤ n && n ≤ 13) || n == 32 || n == 0x85 || n == 0xA0 || n == 0x1680 ||
    (0x2000 ≤ n && n ≤ 0x200A) || n == 0x2028 || n == 0x2029 || n == 0x202F || n == 0x205F ||
    n == 0x3000

/-- `s.trim()`. -/
def trim (s : String) : String :=
  String.ofList (((s.toList.dropWhile isWhite).reverse.dropWhile isWhite).reverse)

/-- `s.starts_with(p)`. -/
def startsWith (s p : String) : Bool := p.toList.isPrefixOf s.toList

/-- `s.ends_with(p)`. -/
def endsWith (s p : String) : Bool := p.toList.isSuffixOf s.toList

/-- `s.to_lowercase()`, as far as a search for an ASCII token can tell: the
Kelvin sign is the one character outside ASCII whose lower case puts an ASCII
letter next to its neighbours. -/
def toLowercase (id : String) : String :=
  String.ofList (id.toList.map fun c => if c = '\u212A' then 'k' else c.toLower)

/-- Characters without a printed form: control characters and the no-break space. -/
def unprinted (c : Char) : Bool := c.toNat < 0x20 || 0x7f ≤ c.toNat && c.toNat ≤ 0xa0

/-- The escapes of the standard library's string `Debug` form. -/
def debugEscape (c : Char) : List Char :=
  if c = '"' then ['\\', '"'] else if c = '\\' then ['\\', '\\']
  else if c = '\n' then ['\\', 'n'] else if c = '\r' then ['\\', 'r']
  else if c = '\t' then ['\\', 't'] else if c.toNat = 0 then ['\\', '0']
  else if unprinted c then ['\\', 'u', '\x7b'] ++ Nat.toDigits 16 c.toNat ++ ['\x7d']
  else [c]

/-- A string in `Debug` form. -/
def debugStr (s : String) : String :=
  String.ofList ('"' :: s.toList.flatMap debugEscape ++ ['"'])

/-- A list of strings in `Debug` form. -/
def debugList (xs : List String) : String := "[" ++ ", ".intercalate (xs.map debugStr) ++ "]"

/-- The value of a run of decimal digits, `none` when some character is not one. -/
def digitsValue : List Char → ℕ → Option ℕ
  | [], acc => some acc
  | c :: cs, acc => if c.isDigit then digitsValue cs (acc * 10 + (c.toNat - '0'.toNat)) else none

/-- `s.parse::<u64>()`: an optional `+`, at least one digit, no overflow. -/
def parseU64 (s : String) : Option UInt64 :=
  let cs := match s.toList with
    | '+' :: rest => rest
    | cs => cs
  if cs.isEmpty then none
  else
    match digitsValue cs 0 with
    | some n => if n < 2 ^ 64 then some (UInt64.ofNat n) else none
    | none => none

end Assayist
