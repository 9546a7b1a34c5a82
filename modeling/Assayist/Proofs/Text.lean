import Assayist.Spec.Basic

/-! Decimal text read back, and hexadecimal digits. -/

namespace Assayist

theorem digitsValue_of_digits (cs : List Char) (h : ∀ c ∈ cs, c.isDigit = true) (acc : ℕ) :
    digitsValue cs acc = some (Nat.ofDigitChars 10 cs acc) := by
  induction cs generalizing acc with
  | nil => rfl
  | cons c cs ih =>
    have hc : c.isDigit = true := h c List.mem_cons_self
    rw [digitsValue, if_pos hc, ih fun d hd => h d (List.mem_cons_of_mem _ hd),
      Nat.ofDigitChars_cons, Nat.mul_comm]

/-- The decimal text of a number: digits, the first of them no sign, that come to it. -/
theorem toList_nat (n : ℕ) : ∃ c cs, (toString n).toList = c :: cs ∧ c ≠ '+' ∧
    (∀ d ∈ c :: cs, d.isDigit = true) ∧ Nat.ofDigitChars 10 (c :: cs) 0 = n := by
  have hlist : (toString n).toList = Nat.toDigits 10 n := Nat.toList_repr
  have hdigits : ∀ c ∈ Nat.toDigits 10 n, c.isDigit = true := fun c hc =>
    Nat.isDigit_of_mem_toDigits (by decide) (by decide) hc
  have hvalue : Nat.ofDigitChars 10 (Nat.toDigits 10 n) 0 = n := Nat.ofDigitChars_ten_toDigits
  rw [hlist]
  cases hds : Nat.toDigits 10 n with
  | nil => exact absurd hds Nat.toDigits_ne_nil
  | cons c cs =>
    rw [hds] at hdigits hvalue
    refine ⟨c, cs, rfl, ?_, hdigits, hvalue⟩
    rintro rfl
    exact absurd (hdigits '+' List.mem_cons_self) (by decide)

theorem toString_nat_inj {m n : ℕ} (h : toString m = toString n) : m = n := by
  obtain ⟨c, cs, hm, -, -, hvalue⟩ := toList_nat m
  obtain ⟨d, ds, hn, -, -, hvalue'⟩ := toList_nat n
  rw [h, hn] at hm
  rw [← hvalue, ← hvalue', hm]

theorem toList_neg (n : ℕ) : (toString (Int.negSucc n)).toList =
    '-' :: (toString (n + 1)).toList := by
  have htext : toString (Int.negSucc n) = "-" ++ toString (n + 1) := rfl
  rw [htext, String.toList_append]
  rfl

/-- The decimal text of a number below `2 ^ 64` parses to it. -/
theorem parseU64_nat (n : ℕ) (h : n < 2 ^ 64) :
    parseU64 (toString n) = some (UInt64.ofNat n) := by
  obtain ⟨c, cs, hlist, hplus, hdigits, hvalue⟩ := toList_nat n
  have hval : digitsValue (c :: cs) 0 = some n := by
    rw [digitsValue_of_digits _ hdigits, hvalue]
  unfold parseU64
  rw [hlist]
  split
  · next heq => exact absurd (List.cons.inj heq).1 hplus
  · simp only [List.isEmpty_cons, Bool.false_eq_true, if_false, hval, if_pos h]

theorem parseU64_toString (n : UInt64) : parseU64 (toString n.toNat) = some n := by
  rw [parseU64_nat _ n.toNat_lt, UInt64.ofNat_toNat]

def hexDigit (c : Char) : Bool := "0123456789abcdef".toList.contains c

theorem hexDigit_digitChar : ∀ d < 16, hexDigit (Nat.digitChar d) = true := by decide

def hexValue (c : Char) : ℕ := if c.isDigit then c.toNat - 48 else c.toNat - 87

theorem hexValue_digitChar : ∀ d < 16, hexValue (Nat.digitChar d) = d := by decide

end Assayist
