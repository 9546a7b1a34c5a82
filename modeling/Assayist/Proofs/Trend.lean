import Assayist.Lib.LeastSquares
import Assayist.Proofs.Drift
import Assayist.Proofs.Exact

/-! When `drift` takes a series for a trend. The regression is the least-squares one and its
standard error the usual one, but a standard error of zero counts as none, so that a series
loses its trend when nothing is left of its residuals. -/

namespace Assayist

open LeastSquares

section Fit

variable {ys : List ℝ}

def points (ys : List ℝ) : List (ℝ × ℝ) :=
  ((List.range ys.length).map fun i : ℕ => (i : ℝ)).zip ys

theorem points_fst (ys : List ℝ) :
    (points ys).map Prod.fst = (List.range ys.length).map fun i : ℕ => (i : ℝ) :=
  List.map_fst_zip (by simp)

theorem points_snd (ys : List ℝ) : (points ys).map Prod.snd = ys :=
  List.map_snd_zip (by simp)

theorem length_points (ys : List ℝ) : (points ys).length = ys.length := by
  rw [← List.length_map (f := Prod.snd), points_snd]

theorem sxx_points_pos (h : 2 ≤ ys.length) : 0 < sxx (points ys) := by
  refine lt_of_le_of_ne (sum_sq_nonneg _ _) fun hzero => ?_
  have hall := sum_sq_eq_zero.1 hzero.symm
  have hmean {i : ℕ} (hi : i < ys.length) :
      (i : ℝ) = Spread.mean ((points ys).map Prod.fst) := by
    have hmem : (i : ℝ) ∈ (points ys).map Prod.fst := by
      rw [points_fst]
      exact List.mem_map_of_mem (List.mem_range.2 hi)
    obtain ⟨p, hp, hpi⟩ := List.mem_map.1 hmem
    rw [← hpi]
    exact sub_eq_zero.1 (hall p hp)
  have hone : ((1 : ℕ) : ℝ) = (0 : ℕ) := (hmean (by omega)).trans (hmean (by omega)).symm
  exact absurd (Nat.cast_injective hone) (by decide)

noncomputable def remainder (ys : List ℝ) : ℝ :=
  sse (intercept (points ys)) (slope (points ys)) (points ys)

theorem remainder_nonneg (ys : List ℝ) : 0 ≤ remainder ys := sum_sq_nonneg _ _

noncomputable def slopeError (ys : List ℝ) : ℝ :=
  √(remainder ys / (ys.length - 2) / sxx (points ys))

/-- The regression of a series is the least-squares one. -/
theorem linreg_exact (h : 3 ≤ ys.length) :
    linregSlopeStderr ys = (slope (points ys), slopeError ys) := by
  have hlen : ¬ ys.length < 3 := by omega
  have hxs : (do let i ← List.range ys.length; pure (i : ℝ)) = (points ys).map Prod.fst := by
    rw [points_fst]
    simp [List.map_eq_flatMap]
  have hzip : ((points ys).map Prod.fst).zip ys = points ys := by
    rw [points_fst]
    rfl
  have hmean : Spread.mean ys = Spread.mean ((points ys).map Prod.snd) := by
    rw [points_snd]
  have hsxx : (((points ys).map Prod.fst).map fun x =>
      (x - Spread.mean ((points ys).map Prod.fst)) *
        (x - Spread.mean ((points ys).map Prod.fst))).sum = sxx (points ys) := by
    rw [List.map_map]
    rfl
  have hne : ¬ (sxx (points ys) == 0) = true := by
    rw [beq_iff_eq]
    exact (sxx_points_pos (by omega)).ne'
  unfold linregSlopeStderr
  rw [if_neg hlen]
  simp only [List.map_id', sum_exact, mean_exact, hxs, hzip, hmean, hsxx]
  rw [if_neg hne]
  rfl

theorem slopeError_pos (h : 3 ≤ ys.length) : 0 < slopeError ys ↔ remainder ys ≠ 0 := by
  have hlen : (3 : ℝ) ≤ ys.length := by exact_mod_cast h
  have hsxx : 0 < sxx (points ys) := sxx_points_pos (by omega)
  rw [slopeError, Real.sqrt_pos, div_pos_iff_of_pos_right hsxx,
    div_pos_iff_of_pos_right (by linarith), lt_iff_le_and_ne, and_iff_right (remainder_nonneg ys),
    ne_comm]

theorem slopeError_sq (h : 3 ≤ ys.length) :
    slopeError ys ^ 2 * (sxx (points ys) * (ys.length - 2)) = remainder ys := by
  have hlen : (3 : ℝ) ≤ ys.length := by exact_mod_cast h
  have hsxx : 0 < sxx (points ys) := sxx_points_pos (by omega)
  have hn : (0 : ℝ) < ys.length - 2 := by linarith
  have hrem := remainder_nonneg ys
  rw [slopeError, Real.sq_sqrt (by positivity)]
  field_simp

/-- A series moves with its indices: its squared correlation with them is above
`4 / (n + 2)`. -/
def Correlated (ys : List ℝ) : Prop :=
  4 * (sxx (points ys) * syy (points ys)) < (ys.length + 2) * sxy (points ys) ^ 2

theorem steep_iff (h : 3 ≤ ys.length) :
    (2 * slopeError ys) ^ 2 < slope (points ys) ^ 2 ↔ Correlated ys := by
  have hlen : (3 : ℝ) ≤ ys.length := by exact_mod_cast h
  have hsxx : 0 < sxx (points ys) := sxx_points_pos (by omega)
  have hscale : 0 < sxx (points ys) * (sxx (points ys) * (ys.length - 2)) :=
    mul_pos hsxx (mul_pos hsxx (by linarith))
  have hrem := slopeError_sq h
  rw [remainder, sse_fit hsxx.ne'] at hrem
  rw [Correlated, sxy_eq hsxx.ne', ← sub_pos, ← mul_pos_iff_of_pos_left hscale,
    ← sub_pos (b := 4 * _)]
  refine iff_of_eq (congrArg (0 < ·) ?_)
  linear_combination -4 * sxx (points ys) * hrem

/-- A series is flagged when it moves with its indices and its residuals are not all zero. -/
theorem trends_exact (h : 3 ≤ ys.length) :
    trends ys = true ↔ remainder ys ≠ 0 ∧ Correlated ys := by
  unfold trends
  rw [linreg_exact h, Bool.and_eq_true, decide_eq_true_iff, decide_eq_true_iff, slopeError_pos h]
  refine and_congr_right fun hrem => ?_
  have herr := (slopeError_pos h).2 hrem
  rw [← steep_iff h, sq_lt_sq, abs_of_pos (mul_pos two_pos herr), ← lt_div_iff₀ herr,
    ← abs_of_pos herr, ← abs_div, abs_of_pos herr]
  rfl

/-- The series with the same fitted line and its residuals scaled. -/
noncomputable def scaleResiduals (c : ℝ) (ys : List ℝ) : List ℝ :=
  (scaled c (points ys)).map Prod.snd

theorem length_scaleResiduals (c : ℝ) (ys : List ℝ) :
    (scaleResiduals c ys).length = ys.length := by
  rw [scaleResiduals, List.length_map, scaled, List.length_map, length_points]

theorem points_scaleResiduals (c : ℝ) (ys : List ℝ) :
    points (scaleResiduals c ys) = scaled c (points ys) := by
  have hfst : (scaled c (points ys)).map Prod.fst =
      (List.range (scaleResiduals c ys).length).map fun i : ℕ => (i : ℝ) := by
    rw [scaled_fst, points_fst, length_scaleResiduals]
  exact (List.zip_of_prod hfst rfl).symm

theorem remainder_scaleResiduals (h : 3 ≤ ys.length) (c : ℝ) :
    remainder (scaleResiduals c ys) = c ^ 2 * remainder ys := by
  rw [remainder, points_scaleResiduals]
  exact sse_scaled c (sxx_points_pos (by omega)).ne'

/-- Smaller residuals leave a series no less correlated with its indices. -/
theorem correlated_scaleResiduals (h : 3 ≤ ys.length) {c : ℝ} (hc : c ∈ Set.Icc 0 1)
    (hcorr : Correlated ys) : Correlated (scaleResiduals c ys) := by
  have hsxx : 0 < sxx (points ys) := sxx_points_pos (by omega)
  have hrem := remainder_nonneg ys
  have hsq : c ^ 2 ≤ 1 := pow_le_one₀ hc.1 hc.2
  have hsyy : syy (scaled c (points ys)) ≤ syy (points ys) := by
    rw [syy_scaled c hsxx.ne', ← remainder]
    exact sub_le_self _ (mul_nonneg (sub_nonneg.2 hsq) hrem)
  unfold Correlated
  rw [points_scaleResiduals, length_scaleResiduals, sxx_scaled, sxy_scaled c hsxx.ne']
  calc 4 * (sxx (points ys) * syy (scaled c (points ys)))
      ≤ 4 * (sxx (points ys) * syy (points ys)) := by gcongr
    _ < (ys.length + 2) * sxy (points ys) ^ 2 := hcorr

def ExactLine (ys : List ℝ) : Prop :=
  ∃ a b : ℝ, b ≠ 0 ∧ ∀ i (hi : i < ys.length), ys[i] = a + b * i

theorem mem_points {p : ℝ × ℝ} :
    p ∈ points ys ↔ ∃ i, ∃ hi : i < ys.length, ((i : ℝ), ys[i]) = p := by
  simp [List.mem_iff_getElem, points]

theorem exactLine_iff (h : 3 ≤ ys.length) :
    ExactLine ys ↔ remainder ys = 0 ∧ Correlated ys := by
  have hlen : (3 : ℝ) ≤ ys.length := by exact_mod_cast h
  have hsxx : 0 < sxx (points ys) := sxx_points_pos (by omega)
  have hline (a b : ℝ) : (∀ i (hi : i < ys.length), ys[i] = a + b * i) ↔
      ∀ p ∈ points ys, p.2 = a + b * p.1 := by
    apply Iff.intro
    · intro hab p hp
      obtain ⟨i, hi, rfl⟩ := mem_points.1 hp
      exact hab i hi
    · intro hab i hi
      exact hab _ (mem_points.2 ⟨i, hi, rfl⟩)
  have hcorr (hrem : remainder ys = 0) : Correlated ys ↔ slope (points ys) ≠ 0 := by
    have hsyy := sse_fit hsxx.ne'
    rw [← remainder, hrem, eq_comm, sub_eq_zero] at hsyy
    have hn : (0 : ℝ) < ys.length - 2 := by linarith
    have hpos : 0 < sxx (points ys) ^ 2 * (ys.length - 2) := by positivity
    have hgap : (ys.length + 2) * (slope (points ys) * sxx (points ys)) ^ 2 -
          4 * (sxx (points ys) * (slope (points ys) ^ 2 * sxx (points ys))) =
        sxx (points ys) ^ 2 * (ys.length - 2) * slope (points ys) ^ 2 := by
      ring
    rw [Correlated, hsyy, sxy_eq hsxx.ne', ← sub_pos, hgap, mul_pos_iff_of_pos_left hpos,
      sq_pos_iff]
  apply Iff.intro
  · rintro ⟨a, b, hb, hab⟩
    have hrem := (sse_eq_zero_iff hsxx.ne').2 ⟨a, b, (hline a b).1 hab⟩
    refine ⟨hrem, (hcorr hrem).2 ?_⟩
    rwa [slope_of_line hsxx.ne' ((hline a b).1 hab)]
  · rintro ⟨hrem, hmoves⟩
    obtain ⟨a, b, hab⟩ := (sse_eq_zero_iff hsxx.ne').1 hrem
    rw [hcorr hrem, slope_of_line hsxx.ne' hab] at hmoves
    exact ⟨a, b, hmoves, (hline a b).2 hab⟩

/-- What the flag does under a scaling of the residuals: it is lost on a series that becomes an
exact line. -/
theorem trends_scaleResiduals (h : 3 ≤ ys.length) {c : ℝ} (hc : c ∈ Set.Icc 0 1) :
    (trends ys = true → trends (scaleResiduals c ys) = true) ↔
      remainder ys = 0 ∨ c ≠ 0 ∨ ¬Correlated ys := by
  have hlen : 3 ≤ (scaleResiduals c ys).length := by rwa [length_scaleResiduals]
  rw [trends_exact h, trends_exact hlen, remainder_scaleResiduals h]
  apply Iff.intro
  · intro hkeep
    by_contra hlost
    push Not at hlost
    obtain ⟨hrem, rfl, hcorr⟩ := hlost
    obtain ⟨hrem', -⟩ := hkeep ⟨hrem, hcorr⟩
    exact hrem' (by ring)
  · rintro hkeep ⟨hrem, hcorr⟩
    refine ⟨?_, correlated_scaleResiduals h hc hcorr⟩
    have hc0 : c ≠ 0 := (hkeep.resolve_left hrem).resolve_right (not_not.2 hcorr)
    exact mul_ne_zero (pow_ne_zero 2 hc0) hrem

theorem trends_exactLine (h : 3 ≤ ys.length) :
    (ExactLine ys → trends ys = true) ↔ ¬ExactLine ys := by
  rw [trends_exact h, exactLine_iff h]
  tauto

/-- The regression is right, and a trend outlasts a scaling of its residuals except where the
scaled series is an exact line, which has none. -/
theorem trend_fit (h : 3 ≤ ys.length) {c : ℝ} (hc : c ∈ Set.Icc 0 1) :
    (∃ a b, IsFit a b (points ys) ∧ IsFit a b (points (scaleResiduals c ys)) ∧
        linregSlopeStderr ys = (b, √(sse a b (points ys) / (ys.length - 2) / sxx (points ys)))) ∧
      (∀ (cfg : Config ℝ) (gb gc : Group ℝ) (id : String) (base : List ℝ) (d : DriftDetail ℝ),
        driftJudge cfg gb gc id base = some d → gc.samples[id]? = some ys →
          (d.status = .trending ↔ driftedFrom cfg base ys = false ∧ trends ys = true)) ∧
      (((trends ys = true → trends (scaleResiduals c ys) = true) ∧
          (ExactLine ys → trends ys = true)) ↔
        ¬ExactLine ys ∧ (c ≠ 0 ∨ ¬Correlated ys)) := by
  have hsxx : sxx (points ys) ≠ 0 := (sxx_points_pos (by omega)).ne'
  refine ⟨⟨_, _, isFit hsxx, ?_, linreg_exact h⟩,
    fun cfg gb gc id base d hd hys => driftJudge_trending hd hys, ?_⟩
  · have hsxx' : sxx (scaled c (points ys)) ≠ 0 := by rwa [sxx_scaled]
    have hfit := isFit hsxx'
    rwa [(fit_scaled c hsxx).1, (fit_scaled c hsxx).2, ← points_scaleResiduals] at hfit
  · rw [trends_scaleResiduals h hc, trends_exactLine h, exactLine_iff h]
    tauto

theorem points_bent : points [0, 10, 21] = [(0, 0), (1, 10), (2, 21)] := by
  simp [points, List.range_succ]

theorem not_exactLine_bent : ¬ExactLine [0, 10, 21] := by
  rintro ⟨a, b, -, hab⟩
  have h0 := hab 0 (by decide)
  have h1 := hab 1 (by decide)
  have h2 := hab 2 (by decide)
  simp only [List.getElem_cons_zero, List.getElem_cons_succ] at h0 h1 h2
  push_cast at h0 h1 h2
  linarith

theorem correlated_bent : Correlated [0, 10, 21] := by
  unfold Correlated
  rw [points_bent]
  norm_num [sxx, syy, sxy, dx, dy, Spread.mean]

theorem trends_bent : trends ([0, 10, 21] : List ℝ) = true :=
  (trends_exact (by decide)).2 ⟨fun hzero =>
    not_exactLine_bent ((exactLine_iff (by decide)).2 ⟨hzero, correlated_bent⟩), correlated_bent⟩

/-- A growing series that is no exact line keeps its flag with half its residuals. -/
theorem trend_fit_bent : trends ([0, 10, 21] : List ℝ) = true ∧
    trends (scaleResiduals (1 / 2) [0, 10, 21]) = true := by
  have hlen : 3 ≤ ([0, 10, 21] : List ℝ).length := by decide
  have hhalf : (1 / 2 : ℝ) ∈ Set.Icc 0 1 := by norm_num
  have hkeep := (trend_fit hlen hhalf).2.2.2 ⟨not_exactLine_bent, .inl (by norm_num)⟩
  exact ⟨trends_bent, hkeep.1 trends_bent⟩

/-- A counter that goes up by one has no trend, and a flagged series loses its flag with its
residuals. -/
theorem trend_lost : (ExactLine [0, 1, 2] ∧ trends ([0, 1, 2] : List ℝ) = false) ∧
    trends ([0, 10, 21] : List ℝ) = true ∧
    trends (scaleResiduals 0 [0, 10, 21]) = false := by
  have hcounter : ExactLine [0, 1, 2] := by
    refine ⟨0, 1, one_ne_zero, fun i hi => ?_⟩
    match i, hi with
    | 0, _ => simp
    | 1, _ => simp
    | 2, _ => simp
  have hrem := (exactLine_iff (by decide)).1 hcounter
  have hflat : remainder (scaleResiduals 0 [0, 10, 21]) = 0 := by
    rw [remainder_scaleResiduals (by decide)]
    ring
  refine ⟨⟨hcounter, ?_⟩, trends_bent, ?_⟩
  · rw [← Bool.not_eq_true, trends_exact (by decide)]
    exact fun h => h.1 hrem.1
  · rw [← Bool.not_eq_true, trends_exact (by rw [length_scaleResiduals]; decide)]
    exact fun h => h.1 hflat

end Fit

end Assayist
