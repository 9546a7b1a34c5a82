import Mathlib.Algebra.Order.Ring.Nat
import Mathlib.Data.List.Induction
import Mathlib.Data.List.Lex

/-! Numerals in a base with a fixed number of places, the most significant digit first. They
read back as what they were written from, and compare as their values do. -/

namespace Numerals

def value (b : ℕ) (ds : List ℕ) : ℕ := ds.foldl (fun n d => n * b + d) 0

def fixed (b : ℕ) : ℕ → ℕ → List ℕ
  | 0, _ => []
  | w + 1, n => fixed b w (n / b) ++ [n % b]

section Digits

variable {b : ℕ}

theorem value_concat (ds : List ℕ) (d : ℕ) : value b (ds ++ [d]) = value b ds * b + d := by
  simp [value]

theorem value_lt {ds : List ℕ} (h : ∀ d ∈ ds, d < b) : value b ds < b ^ ds.length := by
  induction ds using List.reverseRecOn with
  | nil => exact Nat.one_pos
  | append_singleton ds d ih =>
    obtain ⟨hds, hd⟩ := List.forall_mem_append.1 h
    have hlt : d < b := hd d (List.mem_singleton_self d)
    have hmul := Nat.mul_le_mul_right b (ih hds)
    rw [Nat.succ_mul] at hmul
    rw [value_concat, List.length_append, List.length_singleton, Nat.pow_succ]
    omega

theorem length_fixed (w n : ℕ) : (fixed b w n).length = w := by
  induction w generalizing n with
  | zero => rfl
  | succ w ih => rw [fixed, List.length_append, ih, List.length_singleton]

theorem lt_of_mem_fixed (hb : 0 < b) {w n d : ℕ} (h : d ∈ fixed b w n) : d < b := by
  induction w generalizing n with
  | zero => exact absurd h List.not_mem_nil
  | succ w ih =>
    rcases List.mem_append.1 h with h | h
    · exact ih h
    · rw [List.mem_singleton.1 h]
      exact Nat.mod_lt n hb

theorem div_lt_pow {w n : ℕ} (h : n < b ^ (w + 1)) : n / b < b ^ w :=
  Nat.div_lt_of_lt_mul (by rwa [Nat.mul_comm, ← Nat.pow_succ])

theorem value_fixed {w n : ℕ} (h : n < b ^ w) : value b (fixed b w n) = n := by
  induction w generalizing n with
  | zero =>
    rw [Nat.pow_zero, Nat.lt_one_iff] at h
    rw [h]
    rfl
  | succ w ih => rw [fixed, value_concat, ih (div_lt_pow h), Nat.mul_comm, Nat.div_add_mod]

/-- The last places of a number are a numeral of their own. -/
theorem fixed_add (v w n : ℕ) : fixed b (v + w) n = fixed b v (n / b ^ w) ++ fixed b w n := by
  induction w generalizing n with
  | zero => simp [fixed]
  | succ w ih =>
    rw [← Nat.add_assoc, fixed, ih, fixed, List.append_assoc, Nat.div_div_eq_div_mul,
      Nat.pow_succ, Nat.mul_comm b]

theorem fixed_mod (w n : ℕ) : fixed b w (n % b ^ w) = fixed b w n := by
  induction w generalizing n with
  | zero => rfl
  | succ w ih =>
    rw [fixed, fixed, Nat.pow_succ, Nat.mul_comm, Nat.mod_mul_right_div_self, ih,
      Nat.mod_mul_right_mod]

end Digits

section Order

/-- Texts that begin with equally many entries compare by those first. -/
theorem append_lt_append {α : Type} [LinearOrder α] {xs ys us vs : List α}
    (h : xs.length = ys.length) : xs ++ us < ys ++ vs ↔ xs < ys ∨ xs = ys ∧ us < vs := by
  induction xs generalizing ys with
  | nil =>
    rw [List.length_nil, eq_comm, List.length_eq_zero_iff] at h
    simp [h]
  | cons x xs ih =>
    cases ys with
    | nil => simp at h
    | cons y ys =>
      have hlen : xs.length = ys.length := by simpa using h
      rw [List.cons_append, List.cons_append, List.cons_lt_cons_iff, List.cons_lt_cons_iff, ih hlen,
        List.cons.injEq]
      tauto

theorem lt_iff_div_mod (b m n : ℕ) :
    m < n ↔ m / b < n / b ∨ m / b = n / b ∧ m % b < n % b := by
  have hm := Nat.div_add_mod m b
  have hn := Nat.div_add_mod n b
  apply Iff.intro
  · intro h
    rcases (Nat.div_le_div_right (c := b) h.le).lt_or_eq with hlt | heq
    · exact .inl hlt
    · rw [heq] at hm
      exact .inr ⟨heq, by omega⟩
  · rintro (hlt | ⟨heq, hlt⟩)
    · exact Nat.lt_of_div_lt_div hlt
    · rw [heq] at hm
      omega

/-- Numerals of one width compare as numbers. -/
theorem fixed_lt_iff {b w m n : ℕ} (hm : m < b ^ w) (hn : n < b ^ w) :
    fixed b w m < fixed b w n ↔ m < n := by
  induction w generalizing m n with
  | zero =>
    rw [Nat.pow_zero, Nat.lt_one_iff] at hm hn
    simp [hm, hn]
  | succ w ih =>
    have hlen : (fixed b w (m / b)).length = (fixed b w (n / b)).length := by
      rw [length_fixed, length_fixed]
    have hinj : fixed b w (m / b) = fixed b w (n / b) ↔ m / b = n / b := by
      refine ⟨fun h => ?_, congrArg _⟩
      rw [← value_fixed (div_lt_pow hm), h, value_fixed (div_lt_pow hn)]
    rw [fixed, fixed, append_lt_append hlen, ih (div_lt_pow hm) (div_lt_pow hn), hinj,
      lt_iff_div_mod b m n, List.cons_lt_cons_iff]
    simp

/-- Digits written in an ordered alphabet compare as digits. -/
theorem map_lt_map {α : Type} [LinearOrder α] {b : ℕ} {f : ℕ → α}
    (hf : ∀ d < b, ∀ e < b, d < e → f d < f e) {xs ys : List ℕ} (hx : ∀ d ∈ xs, d < b)
    (hy : ∀ d ∈ ys, d < b) : xs.map f < ys.map f ↔ xs < ys := by
  have hlt {d e : ℕ} (hd : d < b) (he : e < b) : f d < f e ↔ d < e := by
    refine ⟨fun h => ?_, hf d hd e he⟩
    by_contra hge
    rcases (not_lt.1 hge).lt_or_eq with hgt | heq
    · exact lt_asymm h (hf e he d hd hgt)
    · rw [heq] at h
      exact lt_irrefl _ h
  have heq {d e : ℕ} (hd : d < b) (he : e < b) : f d = f e ↔ d = e := by
    refine ⟨fun h => ?_, congrArg f⟩
    apply le_antisymm
    · exact not_lt.1 fun hgt => (hf e he d hd hgt).ne h.symm
    · exact not_lt.1 fun hgt => (hf d hd e he hgt).ne h
  induction xs generalizing ys with
  | nil => cases ys <;> simp
  | cons x xs ih =>
    cases ys with
    | nil => simp
    | cons y ys =>
      obtain ⟨hx0, hx⟩ := List.forall_mem_cons.1 hx
      obtain ⟨hy0, hy⟩ := List.forall_mem_cons.1 hy
      have htail : xs.map f < ys.map f ↔ xs < ys := ih hx hy
      rw [List.map_cons, List.map_cons, List.cons_lt_cons_iff, List.cons_lt_cons_iff, hlt hx0 hy0,
        heq hx0 hy0, htail]

end Order

section Text

/-- A number's digits, padded to a width that holds them, are its numeral of that width. -/
theorem leftpad_toDigits {b w n : ℕ} (hb : 1 < b) (hn : n < b ^ (w + 1)) :
    (Nat.toDigits b n).leftpad (w + 1) '0' = (fixed b (w + 1) n).map Nat.digitChar := by
  induction w generalizing n with
  | zero =>
    have hlt : n < b := by simpa using hn
    rw [Nat.toDigits_of_lt_base hlt]
    simp [fixed, List.leftpad, Nat.mod_eq_of_lt hlt]
  | succ w ih =>
    rw [fixed, List.map_append, List.map_singleton]
    rcases Nat.lt_or_ge n b with hlt | hge
    · have hzero := ih (n := 0) (Nat.pow_pos (by omega))
      rw [Nat.toDigits_zero] at hzero
      rw [Nat.div_eq_of_lt hlt, Nat.mod_eq_of_lt hlt, ← hzero, Nat.toDigits_of_lt_base hlt]
      simp [List.leftpad, List.replicate_succ']
    · rw [Nat.toDigits_of_base_le hb hge, ← ih (div_lt_pow hn)]
      simp [List.leftpad]

end Text

end Numerals
