import Assayist.Proofs.Drift
import Assayist.Proofs.Floor
import Assayist.Spec.Adapter

/-! Which way a verdict points. A relative delta has the sign of the shift of the mean only
over a positive mean, so where A or the baseline averages below zero the two senses of a
direction change places. -/

namespace Assayist

section Directions

variable {F : Type} [F64 F]

/-- The second mean is on the wrong side of the first for the polarity. -/
def worse (pol : Polarity) (m m' : F) : Prop :=
  match pol with
  | .lowerBetter => m < m'
  | .higherBetter => m' < m
  | .unknown => False

/-- Two means over which a relative delta has the sense that `ab` takes it to have. -/
def upright (ma mb : F) : Prop := (0 < ma ∧ mb ≠ ma) ∨ (ma = 0 ∧ 0 < mb)

end Directions

section Deltas

theorem relDelta_of_ne {ma mb : ℝ} (h : ma ≠ 0) : relDelta ma mb = (mb - ma) / ma := by
  simp [relDelta, h]

theorem driftRel_of_ne {base cand : ℝ} (h : base ≠ 0) :
    driftRel base cand = (cand - base) / base := by
  simp [driftRel, h]

theorem badDirection_bad {pol : Polarity} {rel : ℝ} :
    badDirection pol rel = some true ↔
      (pol = .lowerBetter ∧ 0 < rel) ∨ (pol = .higherBetter ∧ rel < 0) := by
  cases pol with
  | lowerBetter => simp [badDirection]
  | higherBetter => simp [badDirection]
  | unknown => simp [badDirection]

theorem badDirection_zero (pol : Polarity) : badDirection pol (0 : ℝ) ≠ some true := by
  simp [badDirection_bad]

/-- Over a positive mean the delta has the sign of the shift. -/
theorem delta_of_pos {m m' : ℝ} (h : 0 < m) :
    (0 < (m' - m) / m ↔ m < m') ∧ ((m' - m) / m < 0 ↔ m' < m) := by
  rw [div_pos_iff, div_neg_iff, sub_pos, sub_neg]
  simp [h, h.not_gt]

theorem delta_of_neg {m m' : ℝ} (h : m < 0) :
    (0 < (m' - m) / m ↔ m' < m) ∧ ((m' - m) / m < 0 ↔ m < m') := by
  rw [div_pos_iff, div_neg_iff, sub_pos, sub_neg]
  simp [h, h.not_gt]

theorem relDelta_zero {mb : ℝ} : relDelta 0 mb = if mb = 0 then 0 else 1 := by
  simp [relDelta]

/-- A rise of the mean reads as a rise exactly over upright means. -/
theorem rise_iff_upright {ma mb : ℝ} :
    (ma ≠ mb ∧ (0 < relDelta ma mb ↔ ma < mb)) ↔ upright ma mb := by
  unfold upright
  rcases lt_trichotomy ma 0 with hneg | rfl | hpos
  · rw [relDelta_of_ne hneg.ne, (delta_of_neg hneg).1]
    refine iff_of_false ?_ ?_
    · rintro ⟨hne, hsame⟩
      rcases lt_or_gt_of_ne hne with h | h
      · exact h.not_gt (hsame.2 h)
      · exact h.not_gt (hsame.1 h)
    · rintro (⟨h, _⟩ | ⟨h, _⟩)
      · exact hneg.not_gt h
      · exact hneg.ne h
  · rw [relDelta_zero]
    by_cases hzero : mb = 0
    · simp [hzero]
    · simp [hzero, Ne.symm hzero]
  · rw [relDelta_of_ne hpos.ne', (delta_of_pos hpos).1]
    simp [hpos, hpos.ne', ne_comm]

/-- And so does a fall. -/
theorem fall_iff_upright {ma mb : ℝ} :
    (mb ≠ ma ∧ (relDelta ma mb < 0 ↔ mb < ma)) ↔ upright ma mb := by
  unfold upright
  rcases lt_trichotomy ma 0 with hneg | rfl | hpos
  · rw [relDelta_of_ne hneg.ne, (delta_of_neg hneg).2]
    refine iff_of_false ?_ ?_
    · rintro ⟨hne, hsame⟩
      rcases lt_or_gt_of_ne hne with h | h
      · exact h.not_gt (hsame.2 h)
      · exact h.not_gt (hsame.1 h)
    · rintro (⟨h, _⟩ | ⟨h, _⟩)
      · exact hneg.not_gt h
      · exact hneg.ne h
  · rw [relDelta_zero]
    by_cases hzero : mb = 0
    · simp [hzero]
    · have hone : ¬ (1 : ℝ) < 0 := not_lt.2 zero_le_one
      rw [if_neg hzero]
      simp only [hone, false_iff, not_lt, lt_irrefl, false_and, false_or, true_and, ne_eq, hzero,
        not_false_iff]
      exact ⟨fun h => lt_of_le_of_ne h (Ne.symm hzero), le_of_lt⟩
  · rw [relDelta_of_ne hpos.ne', (delta_of_pos hpos).2]
    simp [hpos, hpos.ne']

theorem judged_iff {bad : Prop} {x y : ℝ} :
    ((bad → x < y) ∧ (¬ bad → y < x)) ↔ x ≠ y ∧ (bad ↔ x < y) := by
  by_cases hbad : bad
  · simp only [hbad, true_imp_iff, not_true_eq_false, false_imp_iff, and_true, true_iff]
    exact ⟨fun h => ⟨h.ne, h⟩, fun h => h.2⟩
  · simp only [hbad, false_imp_iff, not_false_iff, true_imp_iff, true_and, false_iff, not_lt]
    exact ⟨fun h => ⟨h.ne', h.le⟩, fun h => lt_of_le_of_ne h.2 (Ne.symm h.1)⟩

/-- Both directions of `ab` point the right way exactly over upright means. -/
theorem relDelta_points_iff {pol : Polarity} {ma mb : ℝ} (hpol : pol ≠ .unknown) :
    ((badDirection pol (relDelta ma mb) = some true → worse pol ma mb) ∧
      (badDirection pol (relDelta ma mb) = some false → worse pol mb ma)) ↔ upright ma mb := by
  cases pol with
  | unknown => exact absurd rfl hpol
  | lowerBetter =>
    rw [← rise_iff_upright, ← judged_iff]
    simp [badDirection, worse]
  | higherBetter =>
    rw [← fall_iff_upright, ← judged_iff]
    simp [badDirection, worse]

theorem imp_gt_iff {x y : ℝ} : (x < y → y < x) ↔ ¬ x < y :=
  ⟨fun h hlt => hlt.not_gt (h hlt), fun h hlt => absurd hlt h⟩

/-- The bad direction of `drift` points the right way over a mean that is not negative, and
over a negative one as long as the candidate is no better. -/
theorem driftRel_points_iff {pol : Polarity} {base cand : ℝ} :
    (badDirection pol (driftRel base cand) = some true → worse pol base cand) ↔
      0 ≤ base ∨ ¬ worse pol cand base := by
  rw [badDirection_bad]
  rcases lt_trichotomy base 0 with hneg | rfl | hpos
  · rw [driftRel_of_ne hneg.ne, (delta_of_neg hneg).1, (delta_of_neg hneg).2]
    cases pol with
    | lowerBetter => simpa [worse, hneg.not_ge] using imp_gt_iff (x := cand) (y := base)
    | higherBetter => simpa [worse, hneg.not_ge] using imp_gt_iff (x := base) (y := cand)
    | unknown => simp [worse]
  · simp [driftRel]
  · rw [driftRel_of_ne hpos.ne', (delta_of_pos hpos).1, (delta_of_pos hpos).2]
    cases pol with
    | lowerBetter => simp [worse, hpos.le]
    | higherBetter => simp [worse, hpos.le]
    | unknown => simp [worse]

end Deltas

section Ab

variable {F : Type} [F64 F]

/-- A metric that `ab` gives a direction: enough clean samples on both sides, all three tests
passed, and a polarity to judge by. -/
structure Tested (cfg : Config F) (id : String) (as bs : List (Metric F)) : Prop where
  enoughA : 2 ≤ as.length
  enoughB : 2 ≤ bs.length
  counted : ignored cfg id = false
  clean : ∀ m ∈ as ++ bs, m.contaminated = false
  significant : permutationP (valuesOf as) (valuesOf bs) cfg.resamples cfg.seed < cfg.pThreshold
  strong : cfg.minEffect ≤ F64.abs (shiftOf as bs)
  quiet : ¬ cfg.noiseThreshold < withinCov (valuesOf as) (valuesOf bs)
  known : leadPolarity as ≠ .unknown

theorem directed_iff_tested {cfg : Config F} {id : String} {as bs : List (Metric F)}
    {worse : Bool} (hlena : 2 ≤ as.length) (hlenb : 2 ≤ bs.length) :
    metricStatus cfg id as bs = directed worse ↔
      Tested cfg id as bs ∧ badDirection (leadPolarity as) (shiftOf as bs) = some worse := by
  rw [metricStatus_directed]
  apply Iff.intro
  · intro h
    obtain ⟨hign, hcl, hsig, hstrong, hquiet, hbad⟩ := h
    refine ⟨⟨hlena, hlenb, hign, hcl, hsig, hstrong, hquiet, ?_⟩, hbad⟩
    intro hunknown
    rw [hunknown] at hbad
    cases hbad
  · intro h
    obtain ⟨h, hbad⟩ := h
    exact ⟨h.counted, h.clean, h.significant, h.strong, h.quiet, hbad⟩

variable [FloatText F] [Build]

/-- What is said of every direction that `ab` reports is said of every id whose tests give it
one. -/
theorem directed_forall_iff (a b : List (Json F)) (cfg : Config F) (P : String → Bool → Prop) :
    (∀ rep, ab a b cfg = .ok rep → ∀ d ∈ rep.detail, ∀ bad, d.status = directed bad →
        P d.id bad) ↔
      (Sound a b cfg → ∀ id, Tested cfg id (pooledMetrics id a) (pooledMetrics id b) → ∀ bad,
        badDirection (leadPolarity (pooledMetrics id a))
          (shiftOf (pooledMetrics id a) (pooledMetrics id b)) = some bad → P id bad) := by
  apply Iff.intro
  · intro h hsound id htested bad hbad
    have hmetric := (directed_iff_tested htested.enoughA htested.enoughB).2 ⟨htested, hbad⟩
    obtain ⟨rep, hrep, d, hd, rfl, hstatus⟩ :=
      status_iff.2 ⟨hsound, htested.enoughA, htested.enoughB, hmetric⟩
    exact h rep hrep d hd bad hstatus
  · intro h rep hrep d hd bad hstatus
    obtain ⟨hsound, hlena, hlenb, hmetric⟩ := status_iff.1 ⟨rep, hrep, d, hd, rfl, hstatus⟩
    obtain ⟨htested, hbad⟩ := (directed_iff_tested hlena hlenb).1 hmetric
    exact h hsound d.id htested bad hbad

/-- Every direction that `ab` reports is the one in which the means moved. -/
def AbPoints (a b : List (Json F)) (cfg : Config F) : Prop :=
  ∀ rep, ab a b cfg = .ok rep → ∀ d ∈ rep.detail,
    let ma := mean (valuesOf (pooledMetrics d.id a))
    let mb := mean (valuesOf (pooledMetrics d.id b))
    let pol := leadPolarity (pooledMetrics d.id a)
    (d.status = .regressed → worse pol ma mb) ∧ (d.status = .improved → worse pol mb ma)

/-- One id at a time: an id whose tests give it a direction gets the right one. -/
theorem abPoints_iff {a b : List (Json F)} {cfg : Config F} :
    AbPoints a b cfg ↔ Sound a b cfg → ∀ id,
      let as := pooledMetrics id a
      let bs := pooledMetrics id b
      let pol := leadPolarity as
      Tested cfg id as bs →
        (badDirection pol (shiftOf as bs) = some true →
            worse pol (mean (valuesOf as)) (mean (valuesOf bs))) ∧
          (badDirection pol (shiftOf as bs) = some false →
            worse pol (mean (valuesOf bs)) (mean (valuesOf as))) := by
  have hsides := directed_forall_iff a b cfg fun id bad =>
    let ma := mean (valuesOf (pooledMetrics id a))
    let mb := mean (valuesOf (pooledMetrics id b))
    if bad then worse (leadPolarity (pooledMetrics id a)) ma mb
    else worse (leadPolarity (pooledMetrics id a)) mb ma
  simp only [Bool.forall_bool, directed, Bool.false_eq_true, if_false, if_true] at hsides
  unfold AbPoints
  simp only [and_comm (a := _ = Status.regressed → _)]
  rw [hsides]
  simp only [and_comm]

end Ab

section Drift

variable {F : Type} [F64 F] [FloatText F] [Build]

/-- Two samples a side that are not ignored and beyond the drift band. -/
structure Drifted (cfg : Config F) (id : String) (bs cs : List (Metric F)) : Prop where
  enoughB : 2 ≤ bs.length
  enoughC : 2 ≤ cs.length
  counted : ignored cfg id = false
  beyond : driftedFrom cfg (valuesOf bs) (valuesOf cs) = true

/-- `drift` reports an id as bad exactly when all runs reduce and the id's metrics drifted in
the bad direction. -/
theorem driftBad_iff {baseline candidate : List (Json F)} {cfg : Config F} {id : String} :
    (∃ rep, drift baseline candidate cfg = .ok rep ∧
      ∃ d ∈ rep.detail, d.id = id ∧ d.status = .driftBad) ↔
      (∀ run ∈ baseline ++ candidate, ∃ ms, reduce run = .ok ms) ∧
        Drifted cfg id (pooledMetrics id baseline) (pooledMetrics id candidate) ∧
        badDirection (leadPolarity (pooledMetrics id baseline))
          (driftRel (mean (valuesOf (pooledMetrics id baseline)))
            (mean (valuesOf (pooledMetrics id candidate)))) = some true := by
  rw [List.forall_mem_append, ← reduces_exists, ← reduces_exists]
  apply Iff.intro
  · intro h
    obtain ⟨rep, hrep, d, hd, rfl, hstatus⟩ := h
    obtain ⟨pb, pc, hpb, hpc, -, rfl⟩ := drift_eq_ok.1 hrep
    obtain ⟨hlenb, hlenc, hign⟩ := mem_driftDetails.1 ⟨d, hd, rfl⟩
    rw [driftDetails_status hd, values_own, values_own, polarity_groupOf rfl] at hstatus
    rw [← own_tagged hpb, ← own_tagged hpc]
    exact ⟨⟨⟨pb, hpb⟩, ⟨pc, hpc⟩⟩, ⟨by simpa using hlenb, by simpa using hlenc, hign, hstatus.1⟩,
      hstatus.2⟩
  · intro h
    obtain ⟨⟨⟨pb, hpb⟩, ⟨pc, hpc⟩⟩, hdrifted, hbad⟩ := h
    rw [← own_tagged hpb, ← own_tagged hpc] at hdrifted hbad
    have hlenb : 2 ≤ (own id (tagged baseline pb)).length := by simpa using hdrifted.enoughB
    have hlenc : 2 ≤ (own id (tagged candidate pc)).length := by simpa using hdrifted.enoughC
    obtain ⟨d, hd, rfl⟩ := mem_driftDetails.2 ⟨hlenb, hlenc, hdrifted.counted⟩
    refine ⟨_, drift_eq_ok.2 ⟨pb, pc, hpb, hpc, List.ne_nil_of_mem hd, rfl⟩, d, hd, rfl, ?_⟩
    rw [driftDetails_status hd, values_own, values_own, polarity_groupOf rfl]
    exact ⟨hdrifted.beyond, hbad⟩

/-- Every bad drift that `drift` reports is one in which the mean moved the wrong way. -/
def DriftPoints (baseline candidate : List (Json F)) (cfg : Config F) : Prop :=
  ∀ rep, drift baseline candidate cfg = .ok rep → ∀ d ∈ rep.detail, d.status = .driftBad →
    worse (leadPolarity (pooledMetrics d.id baseline))
      (mean (valuesOf (pooledMetrics d.id baseline)))
      (mean (valuesOf (pooledMetrics d.id candidate)))

theorem driftPoints_iff {baseline candidate : List (Json F)} {cfg : Config F} :
    DriftPoints baseline candidate cfg ↔
      (∀ run ∈ baseline ++ candidate, ∃ ms, reduce run = .ok ms) → ∀ id,
        let bs := pooledMetrics id baseline
        let cs := pooledMetrics id candidate
        let pol := leadPolarity bs
        Drifted cfg id bs cs →
          badDirection pol (driftRel (mean (valuesOf bs)) (mean (valuesOf cs))) = some true →
            worse pol (mean (valuesOf bs)) (mean (valuesOf cs)) := by
  unfold DriftPoints
  apply Iff.intro
  · intro h hreduce id bs cs pol hdrifted hbad
    obtain ⟨rep, hrep, d, hd, rfl, hstatus⟩ := driftBad_iff.2 ⟨hreduce, hdrifted, hbad⟩
    exact h rep hrep d hd hstatus
  · intro h rep hrep d hd hstatus
    obtain ⟨hreduce, hdrifted, hbad⟩ := driftBad_iff.1 ⟨rep, hrep, d, hd, rfl, hstatus⟩
    exact h hreduce d.id hdrifted hbad

end Drift

section Signed

variable [FloatText ℝ] [Build]

/-- `ab` points the right way exactly when the means of every metric it gives a direction are
upright, and `drift` exactly when no metric that drifted to the better side has a negative
baseline mean. -/
theorem direction_iff (a b : List (Json ℝ)) (cfg : Config ℝ) :
    (AbPoints a b cfg ↔ (Sound a b cfg → ∀ id,
      Tested cfg id (pooledMetrics id a) (pooledMetrics id b) →
        upright (mean (valuesOf (pooledMetrics id a))) (mean (valuesOf (pooledMetrics id b))))) ∧
    (DriftPoints a b cfg ↔ ((∀ run ∈ a ++ b, ∃ ms, reduce run = .ok ms) → ∀ id,
      Drifted cfg id (pooledMetrics id a) (pooledMetrics id b) →
        0 ≤ mean (valuesOf (pooledMetrics id a)) ∨
          ¬ worse (leadPolarity (pooledMetrics id a)) (mean (valuesOf (pooledMetrics id b)))
            (mean (valuesOf (pooledMetrics id a))))) := by
  apply And.intro
  · rw [abPoints_iff]
    apply imp_congr_right
    intro _
    apply forall_congr'
    intro id
    apply imp_congr_right
    intro htested
    exact relDelta_points_iff htested.known
  · rw [driftPoints_iff]
    apply imp_congr_right
    intro _
    apply forall_congr'
    intro id
    apply imp_congr_right
    intro _
    exact driftRel_points_iff

end Signed

section Inverted

attribute [local instance] releaseBuild wholeText

/-- A run whose host had that much less memory available after the target came up. -/
def consumedRun (kib : ℤ) : Json ℝ :=
  .object [("series", .array [hostmemGauge "hostmem.mem_consumed_kib" kib])]

theorem consumed_polarity :
    polarityOf "hostmem.mem_consumed_kib|value" "KiBy" = .lowerBetter := by
  decide +kernel

theorem reduce_consumed {kib : ℤ} (h : kib < 0) :
    reduce (consumedRun kib) =
      .ok [sample "hostmem.mem_consumed_kib|value" .lowerBetter (kib : ℝ)] := by
  have hjson : intJson kib = (.number (.negInt kib) : Json ℝ) := if_pos h
  unfold consumedRun hostmemGauge
  rw [hjson, ← consumed_polarity]
  rfl

theorem pooled_consumed {kib : ℤ} (h : kib < 0) :
    pooledMetrics "hostmem.mem_consumed_kib|value" [consumedRun kib, consumedRun kib] =
      List.replicate 2 (sample "hostmem.mem_consumed_kib|value" .lowerBetter (kib : ℝ)) := by
  simp [pooledMetrics, reduce_consumed h, Except.toOption, sample, List.replicate]

/-- Where the baseline gave memory back, giving back twice as much is reported as bad. -/
theorem consumed_inverted :
    ¬ DriftPoints [consumedRun (-100), consumedRun (-100)] [consumedRun (-200), consumedRun (-200)]
      Config.default := by
  have hneg : (-100 : ℤ) < 0 ∧ (-200 : ℤ) < 0 := by decide
  have hbase := pooled_consumed hneg.1
  have hcand := pooled_consumed hneg.2
  have hrel : driftRel ((-100 : ℤ) : ℝ) ((-200 : ℤ) : ℝ) = 1 := by
    rw [driftRel_of_ne (by norm_num)]
    norm_num
  have hstd : stddev (List.replicate 2 ((-100 : ℤ) : ℝ)) = 0 := by
    rw [stddev, variance_exact (by simp), Spread.spread_replicate]
    simp
  intro h
  have hworse := driftPoints_iff.1 h ?_ "hostmem.mem_consumed_kib|value" ?_ ?_
  · rw [hbase, hcand, valuesOf_replicate, valuesOf_replicate, mean_replicate_exact le_rfl,
      mean_replicate_exact le_rfl] at hworse
    change ((-100 : ℤ) : ℝ) < ((-200 : ℤ) : ℝ) at hworse
    norm_num at hworse
  · intro run hrun
    simp only [List.mem_append, List.mem_cons, List.not_mem_nil, or_false] at hrun
    rcases hrun with (rfl | rfl) | (rfl | rfl)
    · exact ⟨_, reduce_consumed hneg.1⟩
    · exact ⟨_, reduce_consumed hneg.1⟩
    · exact ⟨_, reduce_consumed hneg.2⟩
    · exact ⟨_, reduce_consumed hneg.2⟩
  · rw [hbase, hcand]
    refine ⟨le_rfl, le_rfl, rfl, ?_⟩
    rw [valuesOf_replicate, valuesOf_replicate, driftedFrom, hstd,
      mean_replicate_exact le_rfl, mean_replicate_exact le_rfl, hrel]
    norm_num [Config.default]
  · rw [hbase, hcand, valuesOf_replicate, valuesOf_replicate, mean_replicate_exact le_rfl,
      mean_replicate_exact le_rfl, hrel]
    simp [leadPolarity, sample, List.replicate, badDirection]

end Inverted

end Assayist
