import Assayist.Proofs.Budget
import Assayist.Proofs.Comparable

/-! A comparison that tested nothing must not pass. The guard looks at the entries of the
report: `drift` makes none for an ignored id, `ab` and `triad` do, and so pass a comparison
in which every id is ignored. -/

namespace Assayist

section Hollow

variable {F : Type} [F64 F] [FloatText F] [Build]

/-- A pass rests on a test: some id with two samples a side was tested and not ignored, and
where all of them are ignored there is no verdict. -/
structure PassTested (mode : String) (a b : List (Json F)) (cfg : Config F) : Prop where
  tested : ∀ rep, judge mode a b cfg = .ok rep → rep.outcome.verdict = .pass →
    ∃ id, Paired id a b ∧ ignored cfg id = false ∧ id ∈ rep.tested
  refused : (∀ id, Paired id a b → ignored cfg id = true) → ∃ e, judge mode a b cfg = .error e

/-- A pass rests on a test in `drift`; in `ab` and `triad` unless a comparison can be made
and everything in it is ignored. -/
theorem passTested_iff (mode : String) (a b : List (Json F)) (cfg : Config F) :
    PassTested mode a b cfg ↔
      mode = "longitudinal_drift" ∨ ¬ Sound a b cfg ∨ (∀ id, ¬ Paired id a b) ∨
        ∃ id, Paired id a b ∧ ignored cfg id = false := by
  apply Iff.intro
  · intro h
    by_contra hno
    simp only [not_or, not_not, not_forall] at hno
    obtain ⟨hmode, hsound, ⟨id, hpair⟩, hcount⟩ := hno
    have hignored : ∀ id, Paired id a b → ignored cfg id = true := by
      intro id hpair
      by_contra hign
      exact hcount ⟨id, hpair, by simpa using hign⟩
    refine judge_error_iff.1 (h.refused hignored) ?_
    rw [Gradeable, if_neg hmode]
    exact ⟨hsound, id, hpair⟩
  · intro hcond
    -- wherever there is a verdict, there is an id that counts
    have hcounts : Gradeable mode a b cfg → ∃ id, Paired id a b ∧ ignored cfg id = false := by
      intro hgrade
      unfold Gradeable at hgrade
      split_ifs at hgrade with hmode
      · exact hgrade.2
      · obtain ⟨hsound, id, hpair⟩ := hgrade
        rcases hcond with hdrift | hunsound | hnone | hcount
        · exact absurd hdrift hmode
        · exact absurd hsound hunsound
        · exact absurd hpair (hnone id)
        · exact hcount
    refine ⟨fun rep hrep _ => ?_, fun hignored => judge_error_iff.2 fun hgrade => ?_⟩
    · obtain ⟨id, hpair, hign⟩ := hcounts (judge_ok_iff.1 ⟨rep, hrep⟩)
      exact ⟨id, hpair, hign, (judge_tested hrep id).2 ⟨hpair, hign⟩⟩
    · obtain ⟨id, hpair, hign⟩ := hcounts hgrade
      rw [hignored id hpair] at hign
      exact absurd hign (by decide)

end Hollow

section Runs

attribute [local instance] releaseBuild

def blindConfig : Config ℚ := { Config.default with ignore := ["block."] }

def blockRuns : List (Json ℚ) :=
  [sampleRun [oneReadFragment 0 0], sampleRun [oneReadFragment 0 0]]

theorem blockRuns_ignored (id : String) (h : Paired id blockRuns blockRuns) :
    ignored blindConfig id = true := by
  have hall : ∀ run ∈ blockRuns, ∀ m ∈ (reduce run).toOption.getD [],
      ignored blindConfig m.id = true := by
    decide +kernel
  obtain ⟨m, hm⟩ := List.exists_mem_of_length_pos (Nat.lt_of_lt_of_le Nat.zero_lt_two h.1)
  obtain ⟨run, hrun, ms, hms, hmem, rfl⟩ := mem_pooledMetrics.1 hm
  refine hall run hrun m ?_
  rw [hms]
  exact hmem

theorem blockRuns_gradeable (mode : String) (hmode : mode ≠ "longitudinal_drift") :
    Gradeable mode blockRuns blockRuns blindConfig := by
  have hpair : 2 ≤ (pooledMetrics "block.io_bytes:read|0:0|value" blockRuns).length := by
    decide +kernel
  refine gradeable_of_uniform "single_tenant" "block.io_bytes:read|0:0|value" (fun run hrun => ?_)
    (by decide +kernel) ⟨hpair, hpair⟩ fun h => absurd h hmode
  simp only [blockRuns, List.cons_append, List.nil_append, List.mem_cons, List.not_mem_nil,
    or_false, or_self] at hrun
  rw [hrun]
  exact ⟨rfl, rfl⟩

/-- Under that gate `ab` and `triad` give a verdict, and it tested nothing. -/
theorem hollow_verdict :
    ¬ PassTested "ab_permutation" blockRuns blockRuns blindConfig ∧
    ¬ PassTested "subsystem_triad" blockRuns blockRuns blindConfig := by
  refine ⟨fun h => ?_, fun h => ?_⟩
  · exact judge_error_iff.1 (h.refused blockRuns_ignored) (blockRuns_gradeable _ (by decide))
  · exact judge_error_iff.1 (h.refused blockRuns_ignored) (blockRuns_gradeable _ (by decide))

end Runs

end Assayist
