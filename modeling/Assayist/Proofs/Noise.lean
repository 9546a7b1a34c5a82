import Assayist.Proofs.Power
import Assayist.Proofs.Signs

/-! The noise gate of `ab`. A group counts as noisy by its deviation relative to its mean; a
group whose mean is zero has no such ratio, and counts as free of noise. -/

namespace Assayist

section Gate

/-- The deviation of a group exceeds the threshold's share of its mean. A group of mean zero
has a ratio of 0 by definition, which only a negative threshold is below. -/
def Spreads (noise : ℝ) (xs : List ℝ) : Prop :=
  (mean xs ≠ 0 ∧ noise * |mean xs| < stddev xs) ∨ (mean xs = 0 ∧ noise < 0)

theorem lt_cov_iff {noise : ℝ} {xs : List ℝ} : noise < cov xs ↔ Spreads noise xs := by
  rw [cov_exact, Spreads]
  by_cases hmean : mean xs = 0
  · simp [hmean]
  · have hpos : 0 < |mean xs| := abs_pos.2 hmean
    rw [if_neg hmean, lt_div_iff₀ hpos]
    simp [hmean, stddev]

theorem lt_withinCov_iff {noise : ℝ} {xs ys : List ℝ} :
    noise < withinCov xs ys ↔ Spreads noise xs ∨ Spreads noise ys := by
  rw [← lt_cov_iff, ← lt_cov_iff]
  exact lt_max_iff

variable [FloatText ℝ] [Build] {a b : List (Json ℝ)} {cfg : Config ℝ} {rep : AbReport ℝ}

noncomputable def samplesOf (id : String) (runs : List (Json ℝ)) : List ℝ :=
  valuesOf (pooledMetrics id runs)

theorem detail_noisy_iff (h : ab a b cfg = .ok rep) {d : AbDetail ℝ} (hd : d ∈ rep.detail) :
    d.noisy = true ↔ Spreads cfg.noiseThreshold (samplesOf d.id a) ∨
      Spreads cfg.noiseThreshold (samplesOf d.id b) := by
  obtain ⟨-, -, hnoisy⟩ := detail_numbers h hd
  rw [hnoisy, decide_eq_true_iff, lt_withinCov_iff]
  rfl

theorem directed_quiet (h : ab a b cfg = .ok rep) {d : AbDetail ℝ} (hd : d ∈ rep.detail)
    {worse : Bool} (hstatus : d.status = directed worse) : d.noisy = false := by
  obtain ⟨-, -, -, hmetric⟩ := status_iff.1 ⟨rep, h, d, hd, rfl, hstatus⟩
  obtain ⟨-, -, -, -, hquiet, -⟩ := metricStatus_directed.1 hmetric
  obtain ⟨-, -, hnoisy⟩ := detail_numbers h hd
  rw [hnoisy]
  exact decide_eq_false hquiet

/-- `ab` marks a compared metric noisy exactly when a side deviates by more than the
threshold's share of its mean, zero or not. -/
def NoiseByMean (a b : List (Json ℝ)) (cfg : Config ℝ) : Prop :=
  ∀ rep, ab a b cfg = .ok rep → ∀ d ∈ rep.detail,
    (d.outcome.2.noisy = true ↔
      cfg.noiseThreshold * |mean (samplesOf d.id a)| < stddev (samplesOf d.id a) ∨
      cfg.noiseThreshold * |mean (samplesOf d.id b)| < stddev (samplesOf d.id b))

/-- A compared metric is marked noisy exactly when the values of a side spread, and is then
neither regressed nor improved. -/
theorem noisy_iff_spreads (h : ab a b cfg = .ok rep) :
    rep.outcome.perMetric = rep.detail.map AbDetail.outcome ∧
      ∀ d ∈ rep.detail,
        (d.outcome.2.noisy = true ↔ Spreads cfg.noiseThreshold (samplesOf d.id a) ∨
          Spreads cfg.noiseThreshold (samplesOf d.id b)) ∧
        (d.outcome.2.noisy = true → d.status ≠ .regressed ∧ d.status ≠ .improved) := by
  refine ⟨ab_perMetric h, ?_⟩
  intro d hd
  refine ⟨detail_noisy_iff h hd, ?_⟩
  intro hnoisy
  change d.noisy = true at hnoisy
  have hquiet {worse : Bool} (hstatus : d.status = directed worse) : False := by
    have hfalse := directed_quiet h hd hstatus
    rw [hnoisy] at hfalse
    cases hfalse
  exact ⟨fun hs => @hquiet true hs, fun hs => @hquiet false hs⟩

end Gate

section Centred

attribute [local instance] releaseBuild wholeText

noncomputable def consumedCarrier : Carrier "hostmem.mem_consumed_kib|value" .lowerBetter where
  run := (gaugeCarrier "hostmem.mem_consumed_kib" "KiBy").run
  graded := (gaugeCarrier "hostmem.mem_consumed_kib" "KiBy").graded
  tenancyFree := (gaugeCarrier "hostmem.mem_consumed_kib" "KiBy").tenancyFree
  reduces v := by
    rw [← consumed_polarity]
    exact (gaugeCarrier "hostmem.mem_consumed_kib" "KiBy").reduces v

theorem Carrier.samplesOf_map {id : String} {pol : Polarity} (c : Carrier id pol) (vs : List ℝ) :
    samplesOf id (vs.map c.run) = vs := by
  unfold samplesOf valuesOf
  rw [c.pooled_map, List.map_map]
  exact List.map_id vs

theorem permutationP_le_one {a b : List ℝ} (ha : a ≠ []) (hb : b ≠ []) (resamples : ℕ)
    (seed : UInt64) : permutationP a b resamples seed ≤ 1 := by
  have hcount : farCount resamples seed a b ≤ resamples := by
    refine List.countP_le_length.trans ?_
    rw [resamplesOf, Resampling.length_trials]
  have hcount' : (farCount resamples seed a b : ℝ) ≤ resamples := by exact_mod_cast hcount
  have hpos : (0 : ℝ) < resamples + 1 := by positivity
  rw [permutationP_exact ha hb, div_le_one hpos]
  linarith

/-- A test that calls every difference significant. -/
noncomputable def anySignificant : Config ℝ := { Config.default with pThreshold := 2 }

/-- Memory that went down and up by as much, and then rose, is not noisy but regressed. -/
theorem centred_regressed :
    ¬ NoiseByMean ([-100, 100].map consumedCarrier.run) ([200, 200].map consumedCarrier.run)
        anySignificant ∧
      ∃ rep, ab ([-100, 100].map consumedCarrier.run) ([200, 200].map consumedCarrier.run)
          anySignificant = .ok rep ∧
        ∃ d ∈ rep.detail, d.id = "hostmem.mem_consumed_kib|value" ∧ d.status = .regressed := by
  have hmean : mean [(-100 : ℝ), 100] = 0 := by
    rw [mean_exact]
    norm_num [Spread.mean]
  have hmean' : mean [(200 : ℝ), 200] = 200 := mean_replicate_exact le_rfl 200
  have hspread : 0 < stddev [(-100 : ℝ), 100] := by
    rw [stddev, variance_exact le_rfl]
    apply Real.sqrt_pos.2
    norm_num [Spread.spread, Spread.squares, Spread.mean]
  have hsteady : stddev [(200 : ℝ), 200] = 0 := by
    rw [stddev, variance_exact le_rfl]
    norm_num [Spread.spread, Spread.squares, Spread.mean]
  have hsig : permutationP [(-100 : ℝ), 100] [200, 200] anySignificant.resamples
      anySignificant.seed < 2 :=
    (permutationP_le_one (by simp) (by simp) _ _).trans_lt one_lt_two
  have hlist : ∃ rep, ab ([-100, 100].map consumedCarrier.run) ([200, 200].map consumedCarrier.run)
      anySignificant = .ok rep ∧ Listed "hostmem.mem_consumed_kib|value" rep := by
    rw [listed_iff]
    refine ⟨consumedCarrier.sound_map _ _ _, ?_⟩
    have ha : valuesOf (pooledMetrics "hostmem.mem_consumed_kib|value"
        ([-100, 100].map consumedCarrier.run)) = [-100, 100] := consumedCarrier.samplesOf_map _
    have hb : valuesOf (pooledMetrics "hostmem.mem_consumed_kib|value"
        ([200, 200].map consumedCarrier.run)) = [200, 200] := consumedCarrier.samplesOf_map _
    have hshift : relDelta (0 : ℝ) 200 = 1 := by norm_num [relDelta]
    refine ⟨?_, ?_, rfl, ?_, ?_, ?_, ?_, ?_⟩
    · rw [consumedCarrier.pooled_map]
      exact le_rfl
    · rw [consumedCarrier.pooled_map]
      exact le_rfl
    · rw [consumedCarrier.pooled_map, consumedCarrier.pooled_map]
      simp [sample]
    · rw [ha, hb]
      exact hsig
    · rw [shiftOf, ha, hb, hmean, hmean', hshift]
      norm_num [anySignificant, Config.default]
    · rw [ha, hb, lt_withinCov_iff, Spreads, Spreads, hmean, hmean', hsteady]
      norm_num [anySignificant, Config.default]
    · rw [shiftOf, ha, hb, hmean, hmean', hshift, consumedCarrier.pooled_map]
      simp [leadPolarity, sample, badDirection]
  refine ⟨?_, hlist⟩
  intro hnoise
  obtain ⟨rep, hrep, d, hd, hid, hstatus⟩ := hlist
  have hquiet : d.noisy = false := 
    directed_quiet hrep hd (show d.status = directed true from hstatus)
  have hmarked := (hnoise rep hrep d hd).2
  rw [hid, consumedCarrier.samplesOf_map, consumedCarrier.samplesOf_map, hmean] at hmarked
  change _ → d.noisy = true at hmarked
  rw [hquiet, abs_zero, mul_zero] at hmarked
  exact absurd (hmarked (.inl hspread)) (by decide)

theorem centred_unmarked :
    ∃ rep, ab ([-100, 100].map consumedCarrier.run) ([200, 200].map consumedCarrier.run)
        Config.default = .ok rep ∧
      rep.outcome.perMetric = rep.detail.map AbDetail.outcome ∧
      ∀ d ∈ rep.detail,
        (d.outcome.2.noisy = true ↔
          Spreads Config.default.noiseThreshold
              (samplesOf d.id ([-100, 100].map consumedCarrier.run)) ∨
            Spreads Config.default.noiseThreshold
              (samplesOf d.id ([200, 200].map consumedCarrier.run))) ∧
        (d.outcome.2.noisy = true → d.status ≠ .regressed ∧ d.status ≠ .improved) := by
  have hreport : ∃ rep, ab ([-100, 100].map consumedCarrier.run)
      ([200, 200].map consumedCarrier.run) Config.default = .ok rep := by
    refine ab_ok_iff.2 ⟨consumedCarrier.sound_map _ _ _, "hostmem.mem_consumed_kib|value", ?_, ?_⟩
    · rw [consumedCarrier.pooled_map]
      exact le_rfl
    · rw [consumedCarrier.pooled_map]
      exact le_rfl
  obtain ⟨rep, hrep⟩ := hreport
  exact ⟨rep, hrep, noisy_iff_spreads hrep⟩

end Centred

end Assayist
