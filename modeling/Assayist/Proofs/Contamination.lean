import Assayist.Proofs.Budget
import Assayist.Proofs.Comparable

/-! A series whose probe is over budget, or that overflowed, taints the metrics made of
it. In `ab` and `triad` a tainted metric that is compared decides the verdict; `drift`
collects the taint and never looks at it. -/

namespace Assayist

section Tainted

variable {F : Type}

/-- The three reasons to distrust a series: its source is over budget, its keys were
truncated, or those of the whole run were. -/
def Tainted (run s : Json F) : Prop :=
  (s.getStr "source").getD "" ∈ overbudgetSources run ∨ flagged s = true ∨
    globalOverflow run = true

theorem seriesHead_tainted [FloatText F] {run s : Json F} :
    (seriesHead (overbudgetSources run) (globalOverflow run) s).contaminated = true ↔
      Tainted run s := by
  unfold Tainted flagged seriesHead
  simp only [Bool.or_eq_true, List.contains_iff_mem, or_assoc]

variable [F64 F] [FloatText F] [Build]

/-- Some run of a group has a tainted series behind a metric id. -/
def TaintedId (id : String) (runs : List (Json F)) : Prop :=
  ∃ run ∈ runs, ∃ s ∈ (run.getArray "series").getD [], Tainted run s ∧
    ∃ ms, metricsOf run s = .ok ms ∧ ∃ m ∈ ms, m.id = id

/-- A run's metrics carry the taint of their series. -/
theorem tainted_metric {run s : Json F} {total ms : List (Metric F)} (h : reduce run = .ok total)
    (hs : s ∈ (run.getArray "series").getD []) (ht : Tainted run s)
    (hms : metricsOf run s = .ok ms) {m : Metric F} (hm : m ∈ ms) :
    m ∈ total ∧ m.contaminated = true := by
  obtain ⟨parts, hparts, rfl⟩ := reduce_eq_ok.1 h
  obtain ⟨part, hpart, hs⟩ := Results.exists_right hparts hs
  obtain rfl : part = ms := Except.ok.inj (hs.symm.trans hms)
  refine ⟨?_, ?_⟩
  · rw [List.append_assoc]
    exact List.mem_append_left _ (List.mem_flatten.2 ⟨part, hpart, hm⟩)
  · obtain ⟨field, value, rfl⟩ := seriesMetrics_head hms hm
    exact seriesHead_tainted.2 ht

end Tainted

section Verdict

variable {F : Type} [F64 F] [FloatText F] [Build] {a b : List (Json F)} {cfg : Config F}

/-- A tainted metric that is compared and counts. -/
def TaintedPair (id : String) (a b : List (Json F)) (cfg : Config F) : Prop :=
  Paired id a b ∧ ignored cfg id = false ∧ (TaintedId id a ∨ TaintedId id b)

theorem ab_tainted {r : AbReport F} (h : ab a b cfg = .ok r) {id : String}
    (ht : TaintedPair id a b cfg) : r.outcome.verdict = .contaminated := by
  obtain ⟨hpair, hign, hside⟩ := ht
  obtain ⟨d, hd, hid⟩ := (ab_entry h id).2 hpair
  obtain ⟨run, hrun, s, hs, htaint, ms, hms, m, hm, hmid⟩ :
      ∃ run, (run ∈ a ∨ run ∈ b) ∧ ∃ s ∈ (run.getArray "series").getD [], Tainted run s ∧
        ∃ ms, metricsOf run s = .ok ms ∧ ∃ m ∈ ms, m.id = id := by
    rcases hside with ⟨run, hrun, hrest⟩ | ⟨run, hrun, hrest⟩
    · exact ⟨run, .inl hrun, hrest⟩
    · exact ⟨run, .inr hrun, hrest⟩
  obtain ⟨hsound, -⟩ := ab_ok_iff.1 ⟨r, h⟩
  obtain ⟨total, htotal⟩ := hsound.2 run (List.mem_append.2 hrun)
  obtain ⟨hmem, hc⟩ := tainted_metric htotal hs htaint hms hm
  subst hmid
  exact ab_contaminated h hrun htotal hmem hc hd hid hign

theorem drift_untainted {r : DriftReport F} (h : drift a b cfg = .ok r) :
    r.outcome.verdict ≠ .contaminated := by
  obtain ⟨pa, pb, -, -, -, rfl⟩ := drift_eq_ok.1 h
  change driftVerdict _ ≠ _
  unfold driftVerdict
  split_ifs
  · decide
  · decide

/-- A mode honours contamination: where a tainted metric counts, no verdict passes or
fails. -/
def ContaminationWins (mode : String) (a b : List (Json F)) (cfg : Config F) : Prop :=
  ∀ rep, judge mode a b cfg = .ok rep → ∀ id, TaintedPair id a b cfg →
    rep.outcome.verdict = .contaminated

/-- Contamination wins in `ab` and `triad`, and in `drift` exactly where there is none to
win, or no verdict. -/
theorem contaminationWins_iff (mode : String) (a b : List (Json F)) (cfg : Config F) :
    ContaminationWins mode a b cfg ↔
      mode ≠ "longitudinal_drift" ∨ ¬ Readable (a ++ b) ∨ ∀ id, ¬ TaintedPair id a b cfg := by
  apply Iff.intro
  · intro hwins
    by_cases hmode : mode = "longitudinal_drift"
    · right
      by_cases hread : Readable (a ++ b)
      · right
        intro id ht
        -- the tainted id itself is something to compare, so drift gives a verdict
        have hgrade : Gradeable mode a b cfg := by
          rw [Gradeable, if_pos hmode]
          exact ⟨hread, id, ht.1, ht.2.1⟩
        obtain ⟨rep, hrep⟩ := judge_ok_iff.2 hgrade
        have hverdict := hwins rep hrep id ht
        cases judge_judged hrep with
        | ab hne _ => exact hne hmode
        | drift _ h => exact drift_untainted h hverdict
        | triad hne _ => exact hne hmode
      · exact .inl hread
    · exact .inl hmode
  · intro hcond rep hrep id ht
    cases judge_judged hrep with
    | ab _ h => exact ab_tainted h ht
    | drift hmode h =>
      rcases hcond with hne | hread | hnone
      · exact absurd hmode hne
      · exact absurd (driftComparable_iff.1 (drift_ok_iff.1 ⟨_, h⟩)).1 hread
      · exact absurd ht (hnone id)
    | triad _ h =>
      obtain ⟨base, hbase, -, hkeep, -⟩ := triad_base h
      exact hkeep (ab_tainted hbase ht)

end Verdict

section Runs

attribute [local instance] releaseBuild

def costlyRun : Json ℚ := sampleRun [oneReadFragment 0 500]

def costlyBytes : Json ℚ :=
  seriesJson "block.io_bytes:read" "By" "counter" "block_rq_complete" (some "0:0")
    (bounded "device" 1) (.object [("value", .nat 512), ("start_unix_nano", .nat 0)])

theorem costlyRun_tainted :
    TaintedId "block.io_bytes:read|0:0|value" [costlyRun, costlyRun] := by
  refine ⟨costlyRun, List.mem_cons_self, costlyBytes,
    List.mem_cons_of_mem _ List.mem_cons_self, .inl (by decide +kernel), ?_⟩
  have hok : (metricsOf costlyRun costlyBytes).isOk = true := by decide +kernel
  obtain ⟨ms, hms⟩ := Results.exists_ok hok
  refine ⟨ms, hms, List.mem_map.1 ?_⟩
  rw [seriesMetrics_ids hms]
  decide +kernel

/-- Two over-budget runs a side: drift passes them. -/
theorem drift_passes_costly :
    ¬ ContaminationWins "longitudinal_drift" [costlyRun, costlyRun] [costlyRun, costlyRun]
      Config.default := by
  intro hwins
  have hpool :
      2 ≤ (pooledMetrics "block.io_bytes:read|0:0|value" [costlyRun, costlyRun]).length := by
    decide +kernel
  have hok : (judge "longitudinal_drift" [costlyRun, costlyRun] [costlyRun, costlyRun]
      Config.default).isOk = true := by
    decide +kernel
  obtain ⟨rep, hrep⟩ := Results.exists_ok hok
  have hverdict := hwins rep hrep _ ⟨⟨hpool, hpool⟩, by decide, .inl costlyRun_tainted⟩
  cases judge_judged hrep with
  | ab hmode _ => exact hmode rfl
  | drift _ h => exact drift_untainted h hverdict
  | triad hmode _ => exact hmode rfl

end Runs

end Assayist
