import Assayist.Lib.Reading
import Assayist.Proofs.Text
import Assayist.Spec.Schema

/-! The text that `serde_json` writes of strings and of numbers, read back: no two strings have
one text, and no two numbers. -/

namespace Assayist

open Reading

section Strings

/-- The character that a two-character escape stands for. -/
def escaped (c : Char) : Char :=
  if c = 'n' then '\n' else if c = 'r' then '\r' else if c = 't' then '\t'
  else if c = 'b' then Char.ofNat 8 else if c = 'f' then Char.ofNat 12 else c

/-- The first character of a JSON string, and what follows it. -/
def unescape : List Char → Option (Char × List Char)
  | [] => none
  | c :: cs =>
    if c ≠ '\\' then some (c, cs)
    else match cs with
      | 'u' :: _ :: _ :: high :: low :: rest =>
        some (Char.ofNat (16 * hexValue high + hexValue low), rest)
      | e :: rest => some (escaped e, rest)
      | [] => none

theorem unescape_escapeChar (c : Char) (rest : List Char) :
    unescape (Json.escapeChar c ++ rest) = some (c, rest) := by
  unfold Json.escapeChar
  split_ifs with h1 h2 h3 h4 h5 h6 h7 h8
  · rw [h1]; rfl
  · rw [h2]; rfl
  · rw [h3]; rfl
  · rw [h4]; rfl
  · rw [h5]; rfl
  · have hc : c = Char.ofNat 8 := by rw [← h6, Char.ofNat_toNat]
    rw [hc]
    rfl
  · have hc : c = Char.ofNat 12 := by rw [← h7, Char.ofNat_toNat]
    rw [hc]
    rfl
  · have hhigh := hexValue_digitChar (c.toNat / 16) (by omega)
    have hlow := hexValue_digitChar (c.toNat % 16) (by omega)
    have hc : 16 * (c.toNat / 16) + c.toNat % 16 = c.toNat := Nat.div_add_mod c.toNat 16
    change some (Char.ofNat (16 * hexValue _ + hexValue _), rest) = _
    rw [hhigh, hlow, hc, Char.ofNat_toNat]
  · simp [unescape, h2]

theorem escapeChar_starts (c : Char) :
    Starts (fun d => True ∧ d ≠ '"') (Json.escapeChar c) := by
  unfold Json.escapeChar
  split_ifs with h1 h2 h3 h4 h5 h6 h7 h8
  iterate 8 exact ⟨'\\', _, rfl, trivial, by decide⟩
  exact ⟨c, [], rfl, trivial, h1⟩

theorem read_quote {k l : String} {r s : List Char}
    (h : (Json.quote k).toList ++ r = (Json.quote l).toList ++ s) : k = l ∧ r = s := by
  unfold Json.quote at h
  rw [String.toList_ofList, String.toList_ofList, List.cons_append, List.cons_append,
    List.cons_append, List.cons_append, List.append_assoc, List.append_assoc] at h
  have hread : ∀ c ∈ k.toList, ∀ d ∈ l.toList,
      ReadAs Eq Json.escapeChar (fun _ => True) c d := by
    intro c _ d _ r s _ _ h
    have heq := congrArg unescape h
    rw [unescape_escapeChar, unescape_escapeChar, Option.some.injEq, Prod.mk.injEq] at heq
    exact heq
  have hclose : (fun _ : Char => True) '"' := trivial
  obtain ⟨hall, hrs⟩ := read_flatMap hclose (fun c _ => escapeChar_starts c)
    (fun c _ => escapeChar_starts c) hread (List.cons.inj h).2
  rw [List.forall₂_eq_eq_eq] at hall
  exact ⟨String.toList_injective hall, hrs⟩

end Strings

section Numbers

variable {F : Type} [F64 F] [FloatText F]

def numberChars : List Char := "0123456789+-.eE".toList

def floatMarks : List Char := ['.', 'e', 'E']

/-- What the number printing of `serde_json` does with finite floats: JSON numbers with a
fraction or an exponent, a different one for each float. -/
structure FloatsPrinted (F : Type) [F64 F] [FloatText F] : Prop where
  chars : ∀ x : F, F64.isFinite x = true → ∀ c ∈ (FloatText.ryu x).toList, c ∈ numberChars
  marked : ∀ x : F, F64.isFinite x = true → ∃ c ∈ (FloatText.ryu x).toList, c ∈ floatMarks
  apart : ∀ x y : F, F64.isFinite x = true → F64.isFinite y = true →
    FloatText.ryu x = FloatText.ryu y → x = y

theorem numberChar_of_digit {c : Char} (h : c.isDigit = true) :
    c ∈ numberChars ∧ c ∉ floatMarks := by
  have hlow : 48 ≤ c.toNat := by
    simp only [Char.isDigit, Bool.and_eq_true, decide_eq_true_eq] at h
    exact h.1
  have hhigh : c.toNat ≤ 57 := by
    simp only [Char.isDigit, Bool.and_eq_true, decide_eq_true_eq] at h
    exact h.2
  have hall : ∀ n ≤ 57, 48 ≤ n → Char.ofNat n ∈ numberChars ∧ Char.ofNat n ∉ floatMarks := by
    decide
  have hc := hall c.toNat hhigh hlow
  rwa [Char.ofNat_toNat] at hc

omit [F64 F] in
theorem integer_chars {n : Number F} (h : ∀ x, n ≠ .float x) :
    ∀ c ∈ n.text.toList, c ∈ numberChars ∧ c ∉ floatMarks := by
  have hnat (k : ℕ) : ∀ c ∈ (toString k).toList, c ∈ numberChars ∧ c ∉ floatMarks := by
    intro c hc
    obtain ⟨d, ds, hlist, -, hdigits, -⟩ := toList_nat k
    rw [hlist] at hc
    exact numberChar_of_digit (hdigits c hc)
  cases n with
  | posInt n => exact hnat n.toNat
  | negInt n =>
    intro c hc
    cases n with
    | ofNat k => exact hnat k c hc
    | negSucc k =>
      rw [Number.text, toList_neg] at hc
      rcases List.mem_cons.1 hc with rfl | hc
      · decide
      · exact hnat (k + 1) c hc
  | float x => exact absurd rfl (h x)

theorem number_chars (hF : FloatsPrinted F) {n : Number F} (h : n.parsed) :
    ∀ c ∈ n.text.toList, c ∈ numberChars := by
  cases n with
  | float x => exact hF.chars x h
  | posInt n => exact fun c hc => (integer_chars (by simp) c hc).1
  | negInt n => exact fun c hc => (integer_chars (by simp) c hc).1

theorem number_starts (hF : FloatsPrinted F) {n : Number F} (h : n.parsed) :
    Starts (· ∈ numberChars) n.text.toList := by
  have hne : n.text.toList ≠ [] := by
    cases n with
    | posInt n =>
      obtain ⟨c, cs, hlist, -⟩ := toList_nat n.toNat
      rw [Number.text, hlist]
      exact List.cons_ne_nil c cs
    | negInt n =>
      obtain ⟨k, rfl⟩ := Int.eq_negSucc_of_lt_zero h.2
      rw [Number.text, toList_neg]
      exact List.cons_ne_nil _ _
    | float x =>
      obtain ⟨c, hc, -⟩ := hF.marked x h
      exact List.ne_nil_of_mem hc
  obtain ⟨c, cs, hcs⟩ := List.exists_cons_of_ne_nil hne
  exact ⟨c, cs, hcs, number_chars hF h c (hcs ▸ List.mem_cons_self)⟩

theorem float_apart (hF : FloatsPrinted F) {x : F} (hx : F64.isFinite x = true) {n : Number F}
    (hn : ∀ y, n ≠ .float y) : (Number.float x).text ≠ n.text := by
  intro h
  obtain ⟨c, hc, hmark⟩ := hF.marked x hx
  have hmem : c ∈ n.text.toList := h ▸ hc
  exact (integer_chars hn c hmem).2 hmark

omit [F64 F] in
theorem minus_apart (m : UInt64) {n : ℤ} (hn : n < 0) :
    (Number.posInt m : Number F).text ≠ (Number.negInt n : Number F).text := by
  intro h
  obtain ⟨k, rfl⟩ := Int.eq_negSucc_of_lt_zero hn
  obtain ⟨c, cs, hlist, -, hdigits, -⟩ := toList_nat m.toNat
  have hminus : '-' ∈ (toString m.toNat).toList := by
    rw [show toString m.toNat = toString (Int.negSucc k) from h, toList_neg]
    exact List.mem_cons_self
  rw [hlist] at hminus
  exact absurd (hdigits '-' hminus) (by decide)

/-- The text of a number is that of no other. -/
theorem number_text_inj (hF : FloatsPrinted F) {m n : Number F} (hm : m.parsed) (hn : n.parsed)
    (h : m.text = n.text) : m = n := by
  cases m with
  | posInt a =>
    cases n with
    | posInt b => rw [UInt64.toNat_inj.1 (toString_nat_inj h)]
    | negInt b => exact absurd h (minus_apart a hn.2)
    | float y => exact absurd h.symm (float_apart hF hn (by simp))
  | negInt a =>
    cases n with
    | posInt b => exact absurd h.symm (minus_apart b hm.2)
    | negInt b =>
      obtain ⟨k, rfl⟩ := Int.eq_negSucc_of_lt_zero hm.2
      obtain ⟨l, rfl⟩ := Int.eq_negSucc_of_lt_zero hn.2
      have hlist := congrArg String.toList h
      rw [Number.text, Number.text, toList_neg, toList_neg] at hlist
      have hdigits := toString_nat_inj (String.toList_injective (List.cons.inj hlist).2)
      rw [Nat.succ.inj hdigits]
    | float y => exact absurd h.symm (float_apart hF hn (by simp))
  | float x =>
    cases n with
    | posInt b => exact absurd h (float_apart hF hm (by simp))
    | negInt b => exact absurd h (float_apart hF hm (by simp))
    | float y => rw [hF.apart x y hm hn h]

end Numbers

end Assayist
