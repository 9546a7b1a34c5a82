import Assayist.Proofs.Exact
import Assayist.Proofs.Regressed

/-! The least p-value the permutation test can give two groups of given sizes, whatever
their samples: what the shuffles that leave the groups whole already amount to. Groups of
constant value, far enough apart, attain it. -/

namespace Assayist

/-- How many of a seed's shuffles leave groups of two sizes whole. -/
def floorCount (resamples : ℕ) (seed : UInt64) (na nb : ℕ) : ℕ :=
  (resamplesOf resamples seed (Resampling.labels na nb)).countP (Resampling.unmixed na nb)

/-- The p-value floor of a configuration at two group sizes. -/
noncomputable def pFloor (cfg : Config ℝ) (na nb : ℕ) : ℝ :=
  (floorCount cfg.resamples cfg.seed na nb + 1) / (cfg.resamples + 1)

theorem floorCount_le (resamples : ℕ) (seed : UInt64) (a b : List ℝ) :
    floorCount resamples seed a.length b.length ≤ farCount resamples seed a b :=
  Resampling.countP_unmixed_le _ _ _ a b (by positivity)

theorem floorCount_mono {k j : ℕ} (h : k ≤ j) (seed : UInt64) (na nb : ℕ) :
    floorCount k seed na nb ≤ floorCount j seed na nb := by
  obtain ⟨i, rfl⟩ := Nat.exists_eq_add_of_le h
  exact (Resampling.trials_prefix _ k i _ _).sublist.countP_le

section Gate

variable {cfg : Config ℝ} {id : String}

/-- No samples make a metric regressed where the floor is not below the threshold. -/
theorem Condemned.floor {as bs : List (Metric ℝ)} (h : Condemned cfg id as bs) :
    0 ≤ cfg.noiseThreshold ∧ pFloor cfg as.length bs.length < cfg.pThreshold := by
  have ha : valuesOf as ≠ [] := by
    intro hnil
    have hlen := h.enoughA
    simp [List.map_eq_nil_iff.1 hnil] at hlen
  have hb : valuesOf bs ≠ [] := by
    intro hnil
    have hlen := h.enoughB
    simp [List.map_eq_nil_iff.1 hnil] at hlen
  refine ⟨?_, ?_⟩
  · have hquiet := (withinCov_exact _ _).1 (not_lt.1 h.quiet)
    exact (cov_nonneg _).trans hquiet.1
  · refine lt_of_le_of_lt ?_ h.significant
    have hfloor := floorCount_le cfg.resamples cfg.seed (valuesOf as) (valuesOf bs)
    have hfloor' : (floorCount cfg.resamples cfg.seed as.length bs.length : ℝ) ≤
        farCount cfg.resamples cfg.seed (valuesOf as) (valuesOf bs) := by
      rw [valuesOf, valuesOf, List.length_map, List.length_map] at hfloor
      exact_mod_cast hfloor
    rw [permutationP_exact ha hb, pFloor]
    gcongr

def sample (id : String) (pol : Polarity) (v : ℝ) : Metric ℝ :=
  { id, value := v, contaminated := false, polarity := pol }

theorem valuesOf_replicate (pol : Polarity) (n : ℕ) (v : ℝ) :
    valuesOf (List.replicate n (sample id pol v)) = List.replicate n v := by
  simp [valuesOf, sample]

theorem mean_replicate_exact {n : ℕ} (hn : 2 ≤ n) (v : ℝ) : mean (List.replicate n v) = v := by
  rw [mean_exact, Spread.mean_replicate (by omega)]

theorem cov_replicate {n : ℕ} (hn : 2 ≤ n) (v : ℝ) : cov (List.replicate n v) ≤ 0 := by
  rw [cov_le_iff (by simpa using hn) le_rfl, Spread.spread_replicate]
  simp

theorem permutationP_replicate (cfg : Config ℝ) {na nb : ℕ} (hna : 2 ≤ na) (hnb : 2 ≤ nb) {x y : ℝ}
    (hfar : 1 / 10 ^ 12 * (na * nb) < |y - x|) :
    permutationP (List.replicate na x) (List.replicate nb y) cfg.resamples cfg.seed =
      pFloor cfg na nb := by
  have hne {n : ℕ} (hn : 2 ≤ n) (v : ℝ) : List.replicate n v ≠ [] := by
    rw [Ne, List.replicate_eq_nil_iff]
    omega
  have hna' : na ≠ 0 := by omega
  have hnb' : nb ≠ 0 := by omega
  have hcount := Resampling.countP_valued fisherYates cfg.resamples (.new cfg.seed) hna' hnb'
    (by positivity) hfar
  rw [Resampling.valued_labels] at hcount
  rw [permutationP_exact (hne hna x) (hne hnb y), farCount, List.length_replicate, resamplesOf,
    hcount]
  rfl

/-- Values that are worse in B than in A, as far apart as one likes. -/
theorem worse_exists {pol : Polarity} (hpol : pol ≠ .unknown) {far : ℝ} (hfar : 0 < far) :
    ∃ x y : ℝ, |y - x| = far ∧ 1 / 2 ≤ |relDelta x y| ∧
      badDirection pol (relDelta x y) = some true := by
  have hrel {x y : ℝ} (hx : x ≠ 0) : relDelta x y = (y - x) / x := by simp [relDelta, hx]
  cases pol with
  | unknown => exact absurd rfl hpol
  | lowerBetter =>
    have hone : relDelta far (2 * far) = 1 := by
      rw [hrel hfar.ne']
      field_simp
      ring
    refine ⟨far, 2 * far, ?_, ?_, ?_⟩
    · rw [two_mul, add_sub_cancel_right, abs_of_pos hfar]
    · rw [hone]
      norm_num
    · simp [hone, badDirection]
  | higherBetter =>
    have hhalf : relDelta (2 * far) far = -(1 / 2) := by
      rw [hrel (by positivity)]
      field_simp
      ring
    refine ⟨2 * far, far, ?_, ?_, ?_⟩
    · rw [abs_sub_comm, two_mul, add_sub_cancel_right, abs_of_pos hfar]
    · rw [hhalf]
      norm_num
    · simp [hhalf, badDirection]

/-- Two groups of constant value make a metric regressed where the floor is below the
threshold. -/
theorem condemned_replicate {pol : Polarity} {na nb : ℕ} (hna : 2 ≤ na) (hnb : 2 ≤ nb) {x y : ℝ}
    (hign : ignored cfg id = false) (hnoise : 0 ≤ cfg.noiseThreshold)
    (hfloor : pFloor cfg na nb < cfg.pThreshold) (hfar : 1 / 10 ^ 12 * (na * nb) < |y - x|)
    (hstrong : cfg.minEffect ≤ |relDelta x y|) (hbad : badDirection pol (relDelta x y) = some true) :
    Condemned cfg id (List.replicate na (sample id pol x)) (List.replicate nb (sample id pol y)) := by
  have hshift : shiftOf (List.replicate na (sample id pol x)) (List.replicate nb (sample id pol y)) =
      relDelta x y := by
    rw [shiftOf, valuesOf_replicate, valuesOf_replicate, mean_replicate_exact hna,
      mean_replicate_exact hnb]
  have hlead : leadPolarity (List.replicate na (sample id pol x)) = pol := by
    obtain ⟨n, rfl⟩ := Nat.exists_eq_add_of_le hna
    rw [Nat.add_comm, List.replicate_succ]
    rfl
  refine ⟨?_, ?_, hign, ?_, ?_, ?_, ?_, ?_⟩
  · rwa [List.length_replicate]
  · rwa [List.length_replicate]
  · intro m hm
    rcases List.mem_append.1 hm with hm | hm
    · rw [List.eq_of_mem_replicate hm]
      rfl
    · rw [List.eq_of_mem_replicate hm]
      rfl
  · rw [valuesOf_replicate, valuesOf_replicate, permutationP_replicate cfg hna hnb hfar]
    exact hfloor
  · rw [hshift]
    exact hstrong
  · rw [valuesOf_replicate, valuesOf_replicate, not_lt, withinCov_exact]
    exact ⟨(cov_replicate hna x).trans hnoise, (cov_replicate hnb y).trans hnoise⟩
  · rw [hlead, hshift]
    exact hbad

end Gate

end Assayist
