import Assayist.Lib.Spread
import Mathlib.Tactic.LinearCombination
import Mathlib.Tactic.Positivity

/-! The least-squares line through points: it is the one line whose residuals sum to zero, alone
and against the abscissas, so that scaling the residuals leaves it where it is, and every other
line has a greater sum of squared residuals. -/

namespace LeastSquares

section Field

variable {K : Type} [Field K]

def dx (ps : List (K × K)) (p : K × K) : K := p.1 - Spread.mean (ps.map Prod.fst)

def dy (ps : List (K × K)) (p : K × K) : K := p.2 - Spread.mean (ps.map Prod.snd)

def sxx (ps : List (K × K)) : K := (ps.map fun p => dx ps p * dx ps p).sum

def sxy (ps : List (K × K)) : K := (ps.map fun p => dx ps p * dy ps p).sum

def syy (ps : List (K × K)) : K := (ps.map fun p => dy ps p * dy ps p).sum

def slope (ps : List (K × K)) : K := sxy ps / sxx ps

def intercept (ps : List (K × K)) : K :=
  Spread.mean (ps.map Prod.snd) - slope ps * Spread.mean (ps.map Prod.fst)

def residual (a b : K) (p : K × K) : K := p.2 - (a + b * p.1)

def sse (a b : K) (ps : List (K × K)) : K := (ps.map fun p => residual a b p * residual a b p).sum

def scaled (c : K) (ps : List (K × K)) : List (K × K) :=
  ps.map fun p =>
    (p.1, intercept ps + slope ps * p.1 + c * residual (intercept ps) (slope ps) p)

section Sums

variable {α : Type} (r x : α → K) (c d : K) (ps : List α)

theorem sum_shift : (ps.map fun p => r p + (c + d * x p)).sum =
    (ps.map r).sum + (ps.length * c + d * (ps.map x).sum) := by
  induction ps with
  | nil => simp
  | cons p ps ih =>
    simp only [List.map_cons, List.sum_cons, List.length_cons, Nat.cast_add, Nat.cast_one, ih]
    ring

theorem sum_mul_shift : (ps.map fun p => (r p + (c + d * x p)) * x p).sum =
    (ps.map fun p => r p * x p).sum +
      (c * (ps.map x).sum + d * (ps.map fun p => x p * x p).sum) := by
  induction ps with
  | nil => simp
  | cons p ps ih =>
    simp only [List.map_cons, List.sum_cons, ih]
    ring

theorem sum_sq_shift :
    (ps.map fun p => (r p + (c + d * x p)) * (r p + (c + d * x p))).sum =
      (ps.map fun p => r p * r p).sum + 2 * c * (ps.map r).sum +
        2 * d * (ps.map fun p => r p * x p).sum +
        (ps.length * c ^ 2 + 2 * c * d * (ps.map x).sum +
          d ^ 2 * (ps.map fun p => x p * x p).sum) := by
  induction ps with
  | nil => simp
  | cons p ps ih =>
    simp only [List.map_cons, List.sum_cons, List.length_cons, Nat.cast_add, Nat.cast_one, ih]
    ring

end Sums

variable {ps : List (K × K)}

/-- The residuals from any line, from those of the fitted one. -/
theorem residual_eq (ps : List (K × K)) (a b : K) (p : K × K) :
    residual a b p = residual (intercept ps) (slope ps) p +
      (Spread.mean (ps.map Prod.snd) - a - b * Spread.mean (ps.map Prod.fst) +
        (slope ps - b) * dx ps p) := by
  unfold residual dx intercept
  ring

theorem residual_fit (ps : List (K × K)) (p : K × K) :
    residual (intercept ps) (slope ps) p = dy ps p + (0 + -slope ps * dx ps p) := by
  unfold residual intercept dx dy
  ring

theorem sum_residual_mul (h : sxx ps ≠ 0) :
    (ps.map fun p => residual (intercept ps) (slope ps) p * dx ps p).sum = 0 := by
  have hsum := sum_mul_shift (dy ps) (dx ps) 0 (-slope ps) ps
  have hxy : (ps.map fun p => dy ps p * dx ps p).sum = sxy ps := by
    simp only [sxy, mul_comm]
  rw [hxy, ← sxx, slope, neg_mul, div_mul_cancel₀ _ h] at hsum
  simp only [residual_fit ps]
  rw [slope, hsum]
  ring

theorem sxy_eq (h : sxx ps ≠ 0) : sxy ps = slope ps * sxx ps := (div_mul_cancel₀ _ h).symm

/-- What a fit leaves of the spread of the ordinates. -/
theorem sse_fit (h : sxx ps ≠ 0) :
    sse (intercept ps) (slope ps) ps = syy ps - slope ps ^ 2 * sxx ps := by
  have hxy : (ps.map fun p => dy ps p * dx ps p).sum = slope ps * sxx ps := by
    rw [← sxy_eq h, sxy]
    simp only [mul_comm]
  unfold sse
  simp only [residual_fit ps]
  rw [sum_sq_shift, hxy, ← syy, ← sxx]
  ring

variable [CharZero K]

theorem sum_dx (ps : List (K × K)) : (ps.map (dx ps)).sum = 0 := by
  have hsum := Spread.sum_sub_mean (ps.map Prod.fst)
  rwa [List.map_map] at hsum

theorem sum_dy (ps : List (K × K)) : (ps.map (dy ps)).sum = 0 := by
  have hsum := Spread.sum_sub_mean (ps.map Prod.snd)
  rwa [List.map_map] at hsum

theorem sum_residual (ps : List (K × K)) :
    (ps.map (residual (intercept ps) (slope ps))).sum = 0 := by
  have hsum := sum_shift (dy ps) (dx ps) 0 (-slope ps) ps
  rw [sum_dy, sum_dx] at hsum
  rw [List.map_congr_left fun p _ => residual_fit ps p, hsum]
  ring

theorem cast_length_ne (h : sxx ps ≠ 0) : (ps.length : K) ≠ 0 := by
  rw [Nat.cast_ne_zero]
  intro hlen
  rw [List.length_eq_zero_iff.1 hlen] at h
  exact h rfl

/-- No other line has residuals that cancel, both alone and against the abscissas. -/
theorem line_unique (h : sxx ps ≠ 0) {a b : K} (hsum : (ps.map (residual a b)).sum = 0)
    (hmul : (ps.map fun p => residual a b p * dx ps p).sum = 0) :
    a = intercept ps ∧ b = slope ps := by
  rw [List.map_congr_left fun p _ => residual_eq ps a b p, sum_shift, sum_residual, sum_dx,
    mul_zero, add_zero, zero_add, mul_eq_zero, or_iff_right (cast_length_ne h)] at hsum
  simp only [residual_eq ps a b] at hmul
  rw [sum_mul_shift, sum_residual_mul h, sum_dx, ← sxx, mul_zero, zero_add, zero_add, mul_eq_zero,
    or_iff_left h, sub_eq_zero] at hmul
  refine ⟨?_, hmul.symm⟩
  rw [intercept, hmul]
  linear_combination -hsum

/-- The squared residuals from any line, from those of the fitted one. -/
theorem sse_eq (h : sxx ps ≠ 0) (a b : K) :
    sse a b ps = sse (intercept ps) (slope ps) ps +
      (ps.length * (Spread.mean (ps.map Prod.snd) - a - b * Spread.mean (ps.map Prod.fst)) ^ 2 +
        (slope ps - b) ^ 2 * sxx ps) := by
  unfold sse
  simp only [residual_eq ps a b]
  rw [sum_sq_shift, sum_residual, sum_residual_mul h, sum_dx, ← sxx]
  ring

section Scaled

variable (c : K)

omit [CharZero K] in
theorem scaled_fst (ps : List (K × K)) : (scaled c ps).map Prod.fst = ps.map Prod.fst := by
  simp [scaled]

omit [CharZero K] in
theorem sxx_scaled (ps : List (K × K)) : sxx (scaled c ps) = sxx ps := by
  unfold sxx dx
  rw [scaled_fst, scaled, List.map_map]
  rfl

omit [CharZero K] in
theorem residual_scaled (ps : List (K × K)) (p : K × K) :
    residual (intercept ps) (slope ps)
        (p.1, intercept ps + slope ps * p.1 + c * residual (intercept ps) (slope ps) p) =
      c * residual (intercept ps) (slope ps) p := by
  unfold residual
  ring

/-- Scaling the residuals leaves the fitted line where it is. -/
theorem fit_scaled (h : sxx ps ≠ 0) :
    intercept (scaled c ps) = intercept ps ∧ slope (scaled c ps) = slope ps := by
  have hsum : ((scaled c ps).map (residual (intercept ps) (slope ps))).sum = 0 := by
    have hmap : (scaled c ps).map (residual (intercept ps) (slope ps)) =
        ps.map fun p => c * residual (intercept ps) (slope ps) p := by
      rw [scaled, List.map_map]
      exact List.map_congr_left fun p _ => residual_scaled c ps p
    rw [hmap, List.sum_map_mul_left, sum_residual, mul_zero]
  have hmul : ((scaled c ps).map fun p =>
      residual (intercept ps) (slope ps) p * dx (scaled c ps) p).sum = 0 := by
    have hmap : ((scaled c ps).map fun p =>
          residual (intercept ps) (slope ps) p * dx (scaled c ps) p) =
        ps.map fun p => c * (residual (intercept ps) (slope ps) p * dx ps p) := by
      unfold dx
      rw [scaled_fst, scaled, List.map_map]
      refine List.map_congr_left fun p _ => ?_
      rw [Function.comp_apply, residual_scaled, mul_assoc]
    rw [hmap, List.sum_map_mul_left, sum_residual_mul h, mul_zero]
  rw [← sxx_scaled c] at h
  obtain ⟨ha, hb⟩ := line_unique h hsum hmul
  exact ⟨ha.symm, hb.symm⟩

theorem sse_scaled (h : sxx ps ≠ 0) :
    sse (intercept (scaled c ps)) (slope (scaled c ps)) (scaled c ps) =
      c ^ 2 * sse (intercept ps) (slope ps) ps := by
  obtain ⟨ha, hb⟩ := fit_scaled c h
  rw [ha, hb, sse, sse, ← List.sum_map_mul_left, scaled, List.map_map]
  refine congrArg List.sum (List.map_congr_left fun p _ => ?_)
  rw [Function.comp_apply, residual_scaled]
  ring

theorem sxy_scaled (h : sxx ps ≠ 0) : sxy (scaled c ps) = sxy ps := by
  have hsxx : sxx (scaled c ps) ≠ 0 := by rwa [sxx_scaled]
  rw [sxy_eq hsxx, sxy_eq h, (fit_scaled c h).2, sxx_scaled]

theorem syy_scaled (h : sxx ps ≠ 0) :
    syy (scaled c ps) = syy ps - (1 - c ^ 2) * sse (intercept ps) (slope ps) ps := by
  have hsxx : sxx (scaled c ps) ≠ 0 := by rwa [sxx_scaled]
  have hsse := sse_scaled c h
  rw [sse_fit hsxx, (fit_scaled c h).2, sxx_scaled] at hsse
  linear_combination hsse + sse_fit h

end Scaled

end Field

section Ordered

variable {K : Type} [Field K] [LinearOrder K] [IsStrictOrderedRing K] {ps : List (K × K)}

theorem sum_sq_nonneg {α : Type} (f : α → K) (xs : List α) :
    0 ≤ (xs.map fun x => f x * f x).sum :=
  List.sum_nonneg fun y hy => by
    obtain ⟨x, -, rfl⟩ := List.mem_map.1 hy
    exact mul_self_nonneg _

theorem sum_sq_eq_zero {α : Type} {f : α → K} {xs : List α} :
    (xs.map fun x => f x * f x).sum = 0 ↔ ∀ x ∈ xs, f x = 0 := by
  induction xs with
  | nil => simp
  | cons x xs ih =>
    rw [List.map_cons, List.sum_cons, List.forall_mem_cons, ← ih,
      add_eq_zero_iff_of_nonneg (mul_self_nonneg _) (sum_sq_nonneg f xs), mul_self_eq_zero]

/-- A line that no other comes nearer to the points than, or as near. -/
def IsFit (a b : K) (ps : List (K × K)) : Prop :=
  ∀ a' b', sse a b ps ≤ sse a' b' ps ∧ (sse a' b' ps = sse a b ps → a' = a ∧ b' = b)

theorem isFit (h : sxx ps ≠ 0) : IsFit (intercept ps) (slope ps) ps := by
  intro a b
  have hlen : (0 : K) ≤ ps.length := Nat.cast_nonneg _
  have hsxx : 0 ≤ sxx ps := sum_sq_nonneg _ _
  have hshift : 0 ≤ ps.length *
      (Spread.mean (ps.map Prod.snd) - a - b * Spread.mean (ps.map Prod.fst)) ^ 2 := by
    positivity
  have hturn : 0 ≤ (slope ps - b) ^ 2 * sxx ps := by positivity
  rw [sse_eq h a b]
  refine ⟨by linarith, fun heq => ?_⟩
  have hshift0 : ps.length *
      (Spread.mean (ps.map Prod.snd) - a - b * Spread.mean (ps.map Prod.fst)) ^ 2 = 0 := by
    linarith
  have hturn0 : (slope ps - b) ^ 2 * sxx ps = 0 := by linarith
  rw [mul_eq_zero, or_iff_left h, sq_eq_zero_iff, sub_eq_zero] at hturn0
  rw [mul_eq_zero, or_iff_right (cast_length_ne h), sq_eq_zero_iff] at hshift0
  refine ⟨?_, hturn0.symm⟩
  rw [intercept, hturn0]
  linear_combination -hshift0

/-- Points on a line have it fitted. -/
theorem sse_eq_zero_iff (h : sxx ps ≠ 0) :
    sse (intercept ps) (slope ps) ps = 0 ↔ ∃ a b, ∀ p ∈ ps, p.2 = a + b * p.1 := by
  have hzero (a b : K) : sse a b ps = 0 ↔ ∀ p ∈ ps, p.2 = a + b * p.1 := by
    rw [sse, sum_sq_eq_zero]
    exact forall₂_congr fun p _ => sub_eq_zero
  apply Iff.intro
  · intro hfit
    exact ⟨_, _, (hzero _ _).1 hfit⟩
  · rintro ⟨a, b, hline⟩
    have hab := (hzero a b).2 hline
    exact le_antisymm (hab ▸ (isFit h a b).1) (sum_sq_nonneg _ _)

theorem slope_of_line (h : sxx ps ≠ 0) {a b : K} (hline : ∀ p ∈ ps, p.2 = a + b * p.1) :
    slope ps = b := by
  have hab : sse a b ps = 0 := by
    rw [sse, sum_sq_eq_zero]
    exact fun p hp => sub_eq_zero.2 (hline p hp)
  have hfit := (sse_eq_zero_iff h).2 ⟨a, b, hline⟩
  exact ((isFit h a b).2 (hab.trans hfit.symm)).2.symm

end Ordered

end LeastSquares
