import Mathlib.Order.Interval.Set.Basic
import Mathlib.Order.Interval.Set.Disjoint
import Mathlib.Data.Nat.Find

/-! Stretches of the natural numbers, by where they start and how long they are, and stretches
laid out one after the other at a stride, with starts that may wrap. -/

namespace Strides

def stretch (start len : ℕ) : Set ℕ := Set.Ico start (start + len)

def Apart (s t : Set ℕ) : Prop := ∀ x ∈ s, x ∉ t

variable {start start' len len' : ℕ}

theorem apart_stretch_iff : Apart (stretch start len) (stretch start' len') ↔
    start + len ≤ start' ∨ start' + len' ≤ start ∨ len = 0 ∨ len' = 0 := by
  have hdisjoint : Apart (stretch start len) (stretch start' len') ↔
      Disjoint (stretch start len) (stretch start' len') := Set.disjoint_left.symm
  rw [hdisjoint, stretch, stretch, Set.Ico_disjoint_Ico]
  omega

/-- Of two stretches the one that starts first ends before the other, unless that is empty. -/
theorem apart_stretch_of_lt (h : start < start') :
    Apart (stretch start len) (stretch start' len') ↔ len ≤ start' - start ∨ len' = 0 := by
  rw [apart_stretch_iff]
  omega

/-- Stretches as long as their stride, with starts modulo `w`, are apart exactly when none of
the starts wraps. -/
theorem strided_iff {w s n : ℕ} (hpos : 0 < s) (hlt : s < w) :
    (∀ i j, i < j → j < n → Apart (stretch (i * s % w) s) (stretch (j * s % w) s)) ↔
      (n - 1) * s < w := by
  apply Iff.intro
  · intro h
    by_contra hover
    have hwraps : ∃ k, w ≤ k * s := ⟨n - 1, Nat.not_lt.1 hover⟩
    -- the first stretch that wraps starts within the first of all
    obtain ⟨k, hk, hfirst⟩ : ∃ k, w ≤ k * s ∧ ∀ j < k, j * s < w :=
      ⟨Nat.find hwraps, Nat.find_spec hwraps, fun j hj => Nat.not_le.1 (Nat.find_min hwraps hj)⟩
    have hkpos : 0 < k := by
      rcases Nat.eq_zero_or_pos k with rfl | hkpos
      · omega
      · exact hkpos
    have hkle : k ≤ n - 1 := by
      by_contra hgt
      exact absurd (hfirst (n - 1) (by omega)) hover
    have hprev := hfirst (k - 1) (by omega)
    have hstep : k * s = (k - 1) * s + s := by
      rw [← Nat.succ_mul, Nat.succ_eq_add_one, Nat.sub_add_cancel hkpos]
    have hstart : k * s % w = k * s - w := by
      rw [Nat.mod_eq_sub_mod hk, Nat.mod_eq_of_lt (by omega)]
    have hapart := h 0 k hkpos (by omega)
    rw [Nat.zero_mul, Nat.zero_mod, hstart, apart_stretch_iff] at hapart
    omega
  · intro hfits i j hij hj
    have hle : i * s + s ≤ j * s := by
      rw [← Nat.succ_mul]
      exact Nat.mul_le_mul_right s hij
    have hlast : j * s ≤ (n - 1) * s := Nat.mul_le_mul_right s (by omega)
    rw [Nat.mod_eq_of_lt (by omega), Nat.mod_eq_of_lt (by omega), apart_stretch_iff]
    exact Or.inl hle

end Strides
