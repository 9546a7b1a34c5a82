import Assayist.Proofs.Power
import Assayist.Proofs.Signs

/-! A shift away from a baseline mean of zero. `drift` takes its relative delta to be none, so
it never calls the metric drifted, however far beyond the band the candidate lies. -/

namespace Assayist

section Shifted

/-- A metric that is not ignored, averages zero at baseline, and lies beyond the band in the
bad direction in the candidate; without spread any distance is beyond. -/
structure ZeroShifted (cfg : Config ℝ) (id : String) (bs cs : List (Metric ℝ)) : Prop where
  enoughB : 2 ≤ bs.length
  enoughC : 2 ≤ cs.length
  counted : ignored cfg id = false
  zero : mean (valuesOf bs) = 0
  bad : worse (leadPolarity bs) 0 (mean (valuesOf cs))
  beyond : cfg.driftK * stddev (valuesOf bs) < |mean (valuesOf cs)| ∨ stddev (valuesOf bs) = 0

theorem driftRel_zero (cand : ℝ) : driftRel 0 cand = 0 := by
  simp [driftRel]

variable [FloatText ℝ] [Build] {baseline candidate : List (Json ℝ)} {cfg : Config ℝ}

/-- Every such shift is reported as bad and fails the run. -/
def DriftCatches (baseline candidate : List (Json ℝ)) (cfg : Config ℝ) : Prop :=
  ∀ rep, drift baseline candidate cfg = .ok rep → ∀ id,
    ZeroShifted cfg id (pooledMetrics id baseline) (pooledMetrics id candidate) →
      (∃ d ∈ rep.detail, d.id = id ∧ d.status = .driftBad) ∧ rep.outcome.verdict = .fail

theorem not_driftBad {id : String} (hzero : mean (valuesOf (pooledMetrics id baseline)) = 0) :
    ¬ ∃ rep, drift baseline candidate cfg = .ok rep ∧
      ∃ d ∈ rep.detail, d.id = id ∧ d.status = .driftBad := by
  intro h
  obtain ⟨-, -, hbad⟩ := driftBad_iff.1 h
  rw [hzero, driftRel_zero] at hbad
  exact badDirection_zero _ hbad

theorem drift_reduces {rep : DriftReport ℝ} (h : drift baseline candidate cfg = .ok rep) :
    ∀ run ∈ baseline ++ candidate, ∃ ms, reduce run = .ok ms := by
  obtain ⟨pb, pc, hpb, hpc, -, -⟩ := drift_eq_ok.1 h
  rw [List.forall_mem_append, ← reduces_exists, ← reduces_exists]
  exact ⟨⟨pb, hpb⟩, ⟨pc, hpc⟩⟩

/-- Where the runs reduce, a metric with two samples a side that is not ignored makes a
report. -/
theorem drift_reports (hreduce : ∀ run ∈ baseline ++ candidate, ∃ ms, reduce run = .ok ms)
    {id : String} (hlenb : 2 ≤ (pooledMetrics id baseline).length)
    (hlenc : 2 ≤ (pooledMetrics id candidate).length) (hign : ignored cfg id = false) :
    ∃ rep, drift baseline candidate cfg = .ok rep := by
  rw [List.forall_mem_append, ← reduces_exists, ← reduces_exists] at hreduce
  obtain ⟨⟨pb, hpb⟩, ⟨pc, hpc⟩⟩ := hreduce
  rw [← own_tagged hpb, List.length_map] at hlenb
  rw [← own_tagged hpc, List.length_map] at hlenc
  exact drift_ok_iff.2 ⟨pb, pc, hpb, hpc, id, hlenb, hlenc, hign⟩

/-- `drift` catches the shifts from zero only where there is none to catch. -/
theorem driftCatches_iff (baseline candidate : List (Json ℝ)) (cfg : Config ℝ) :
    DriftCatches baseline candidate cfg ↔
      ((∀ run ∈ baseline ++ candidate, ∃ ms, reduce run = .ok ms) → ∀ id,
        ¬ ZeroShifted cfg id (pooledMetrics id baseline) (pooledMetrics id candidate)) := by
  apply Iff.intro
  · intro hcatches hreduce id hshift
    obtain ⟨rep, hrep⟩ := drift_reports hreduce hshift.enoughB hshift.enoughC hshift.counted
    obtain ⟨hentry, -⟩ := hcatches rep hrep id hshift
    exact not_driftBad hshift.zero ⟨rep, hrep, hentry⟩
  · intro hnone rep hrep id hshift
    exact absurd hshift (hnone (drift_reduces hrep) id)

end Shifted

section Unreported

attribute [local instance] releaseBuild wholeText

/-- A latency that was zero throughout and is one throughout. -/
theorem latency_from_zero :
    ¬ DriftCatches [latencyCarrier.run 0, latencyCarrier.run 0]
      [latencyCarrier.run 1, latencyCarrier.run 1] Config.default := by
  have hbase := latencyCarrier.pooled 2 0
  have hcand := latencyCarrier.pooled 2 1
  change pooledMetrics _ [latencyCarrier.run 0, latencyCarrier.run 0] = _ at hbase
  change pooledMetrics _ [latencyCarrier.run 1, latencyCarrier.run 1] = _ at hcand
  have hshift : ZeroShifted Config.default "workload:latency_ns"
      (pooledMetrics "workload:latency_ns" [latencyCarrier.run 0, latencyCarrier.run 0])
      (pooledMetrics "workload:latency_ns" [latencyCarrier.run 1, latencyCarrier.run 1]) := by
    rw [hbase, hcand]
    refine ⟨le_rfl, le_rfl, rfl, ?_, ?_, .inr ?_⟩
    · rw [valuesOf_replicate, mean_replicate_exact le_rfl]
    · rw [valuesOf_replicate, mean_replicate_exact le_rfl]
      exact one_pos
    · rw [valuesOf_replicate, stddev, variance_exact (by simp), Spread.spread_replicate]
      simp
  intro hcatches
  obtain ⟨rep, hrep⟩ := drift_reports (latencyCarrier.sound_map Config.default [0, 0] [1, 1]).2
    hshift.enoughB hshift.enoughC hshift.counted
  obtain ⟨hentry, -⟩ := hcatches rep hrep _ hshift
  exact not_driftBad hshift.zero ⟨rep, hrep, hentry⟩

end Unreported

end Assayist
