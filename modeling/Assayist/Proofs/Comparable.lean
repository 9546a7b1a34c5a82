import Assayist.Proofs.Regressed

/-! When a mode of the gate gives a verdict at all, and which metrics its report then has
an entry for. `ab` and `triad` list every id with two samples a side, ignored or not;
`drift` passes over the ignored ones. -/

namespace Assayist

section Paired

variable {F : Type} [F64 F] [FloatText F] [Build]

/-- An id with at least two samples on both sides. -/
def Paired (id : String) (a b : List (Json F)) : Prop :=
  2 ≤ (pooledMetrics id a).length ∧ 2 ≤ (pooledMetrics id b).length

def Readable (runs : List (Json F)) : Prop := ∀ run ∈ runs, ∃ ms, reduce run = .ok ms

/-- The mode gives a verdict: it finds something to compare, after `ab` and `triad` have
admitted the runs. -/
def Gradeable (mode : String) (a b : List (Json F)) (cfg : Config F) : Prop :=
  if mode = "longitudinal_drift" then
    Readable (a ++ b) ∧ ∃ id, Paired id a b ∧ ignored cfg id = false
  else Sound a b cfg ∧ ∃ id, Paired id a b

theorem length_pooledMetrics {runs : List (Json F)} {parts : List (List (Metric F))}
    (h : Reduces runs parts) (id : String) :
    (pooledMetrics id runs).length = (own id (tagged runs parts)).length := by
  rw [← own_tagged h, List.length_map]

theorem readable_append {a b : List (Json F)} :
    Readable (a ++ b) ↔ (∃ pa, Reduces a pa) ∧ ∃ pb, Reduces b pb := by
  unfold Readable
  rw [List.forall_mem_append, reduces_exists, reduces_exists]

theorem paired_iff {a b : List (Json F)} {pa pb : List (List (Metric F))} (ha : Reduces a pa)
    (hb : Reduces b pb) (id : String) :
    Paired id a b ↔ 2 ≤ (own id (tagged a pa)).length ∧ 2 ≤ (own id (tagged b pb)).length := by
  unfold Paired
  rw [length_pooledMetrics ha, length_pooledMetrics hb]

theorem driftComparable_iff {a b : List (Json F)} {cfg : Config F} :
    DriftComparable a b cfg ↔
      Readable (a ++ b) ∧ ∃ id, Paired id a b ∧ ignored cfg id = false := by
  rw [readable_append]
  apply Iff.intro
  · intro h
    obtain ⟨pa, pb, ha, hb, id, hlena, hlenb, hign⟩ := h
    exact ⟨⟨⟨pa, ha⟩, pb, hb⟩, id, (paired_iff ha hb id).2 ⟨hlena, hlenb⟩, hign⟩
  · intro h
    obtain ⟨⟨⟨pa, ha⟩, pb, hb⟩, id, hpair, hign⟩ := h
    obtain ⟨hlena, hlenb⟩ := (paired_iff ha hb id).1 hpair
    exact ⟨pa, pb, ha, hb, id, hlena, hlenb, hign⟩

inductive Judged (mode : String) (a b : List (Json F)) (cfg : Config F) : Report F → Prop where
  | ab {r : AbReport F} (hmode : mode ≠ "longitudinal_drift") (h : ab a b cfg = .ok r) :
      Judged mode a b cfg (.ab r)
  | drift {r : DriftReport F} (hmode : mode = "longitudinal_drift") (h : drift a b cfg = .ok r) :
      Judged mode a b cfg (.drift r)
  | triad {r : TriadReport F} (hmode : mode ≠ "longitudinal_drift") (h : triad a b cfg = .ok r) :
      Judged mode a b cfg (.triad r)

theorem judge_judged {mode : String} {a b : List (Json F)} {cfg : Config F} {rep : Report F}
    (h : judge mode a b cfg = .ok rep) : Judged mode a b cfg rep := by
  unfold judge at h
  split_ifs at h with hab hdrift
  · obtain ⟨r, hr, rfl⟩ := Results.map_eq_ok.1 h
    refine .ab ?_ hr
    rw [hab]
    decide
  · obtain ⟨r, hr, rfl⟩ := Results.map_eq_ok.1 h
    exact .drift hdrift hr
  · obtain ⟨r, hr, rfl⟩ := Results.map_eq_ok.1 h
    exact .triad hdrift hr

/-- A triad report is an `ab` report: its entries are the same, and its verdict differs
only where the overhead fails a comparison that is not contaminated. -/
theorem triad_base {a b : List (Json F)} {cfg : Config F} {r : TriadReport F}
    (h : triad a b cfg = .ok r) :
    ∃ base, ab a b cfg = .ok base ∧ r.detail = base.detail ∧
      (base.outcome.verdict = .contaminated → r.outcome.verdict = .contaminated) ∧
      (r.outcome.verdict = .pass → base.outcome.verdict = .pass) := by
  obtain ⟨base, hbase, hr⟩ := Results.bind_eq_ok.1 h
  refine ⟨base, hbase, ?_⟩
  rw [← Results.pure_eq_ok.1 hr]
  by_cases hover : (overhead b).verdict = .fail
  · rw [if_pos hover]
    refine ⟨rfl, fun hc => if_pos hc, fun hpass => ?_⟩
    simp only at hpass
    split_ifs at hpass
  · rw [if_neg hover]
    exact ⟨rfl, id, id⟩

theorem triad_ok {a b : List (Json F)} {cfg : Config F} {base : AbReport F}
    (h : ab a b cfg = .ok base) : ∃ rep, triad a b cfg = .ok rep := by
  unfold triad
  rw [h]
  exact ⟨_, rfl⟩

/-- A mode gives a verdict exactly where it is gradeable. -/
theorem judge_ok_iff {mode : String} {a b : List (Json F)} {cfg : Config F} :
    (∃ rep, judge mode a b cfg = .ok rep) ↔ Gradeable mode a b cfg := by
  unfold Gradeable
  by_cases hdrift : mode = "longitudinal_drift"
  · rw [if_pos hdrift, ← driftComparable_iff, ← drift_ok_iff]
    apply Iff.intro
    · intro h
      obtain ⟨rep, hrep⟩ := h
      cases judge_judged hrep with
      | ab hmode h => exact absurd hdrift hmode
      | drift hmode h => exact ⟨_, h⟩
      | triad hmode h => exact absurd hdrift hmode
    · intro h
      obtain ⟨r, hr⟩ := h
      refine ⟨.drift r, ?_⟩
      unfold judge
      rw [hdrift, if_neg (by decide), if_pos rfl, hr]
      rfl
  · rw [if_neg hdrift]
    unfold Paired
    rw [← ab_ok_iff]
    apply Iff.intro
    · intro h
      obtain ⟨rep, hrep⟩ := h
      cases judge_judged hrep with
      | ab hmode h => exact ⟨_, h⟩
      | drift hmode h => exact absurd hmode hdrift
      | triad hmode h => exact triad_ab h
    · intro h
      obtain ⟨base, hbase⟩ := h
      unfold judge
      by_cases hab : mode = "ab_permutation"
      · rw [if_pos hab, hbase]
        exact ⟨.ab base, rfl⟩
      · obtain ⟨r, hr⟩ := triad_ok hbase
        rw [if_neg hab, if_neg hdrift, hr]
        exact ⟨.triad r, rfl⟩

/-- Reproducible runs of one tenancy with an id in common are gradeable. -/
theorem gradeable_of_uniform (t id : String) {mode : String} {a b : List (Json F)} {cfg : Config F}
    (huniform : ∀ run ∈ a ++ b, gradeOf run = "reproducible" ∧ tenancyOf run = some t)
    (hok : ∀ run ∈ a ++ b, (reduce run).isOk = true) (hpair : Paired id a b)
    (hcount : mode = "longitudinal_drift" → ignored cfg id = false) :
    Gradeable mode a b cfg := by
  have hread : Readable (a ++ b) := fun run hrun => Results.exists_ok (hok run hrun)
  unfold Gradeable
  split_ifs with hmode
  · exact ⟨hread, id, hpair, hcount hmode⟩
  · exact ⟨⟨admissible_of_uniform huniform, hread⟩, id, hpair⟩

theorem judge_error_iff {mode : String} {a b : List (Json F)} {cfg : Config F} :
    (∃ e, judge mode a b cfg = .error e) ↔ ¬ Gradeable mode a b cfg := by
  rw [← judge_ok_iff]
  apply Iff.intro
  · rintro ⟨e, he⟩ ⟨rep, hrep⟩
    rw [he] at hrep
    cases hrep
  · intro h
    exact Results.exists_error fun rep hrep => h ⟨rep, hrep⟩

end Paired

section Entries

variable {F : Type} [F64 F] [FloatText F] [Build] {a b : List (Json F)} {cfg : Config F}

/-- The ids a report has tested: `ab` and `triad` list ignored ids untested. -/
def Report.tested : Report F → List String
  | .ab r => (r.detail.filter fun d => d.status ≠ .ignored).map (·.id)
  | .drift r => r.detail.map (·.id)
  | .triad r => (r.detail.filter fun d => d.status ≠ .ignored).map (·.id)

theorem ab_entry {r : AbReport F} (h : ab a b cfg = .ok r) (id : String) :
    (∃ d ∈ r.detail, d.id = id) ↔ Paired id a b := by
  obtain ⟨notes, pa, pb, -, ha, hb, -, rfl⟩ := ab_eq_ok.1 h
  rw [paired_iff ha hb]
  apply Iff.intro
  · intro h
    obtain ⟨d, hd, rfl⟩ := h
    obtain ⟨hlena, hlenb, -⟩ := mem_abDetails_own.1 hd
    exact ⟨hlena, hlenb⟩
  · intro h
    obtain ⟨hlena, hlenb⟩ := h
    obtain ⟨d, hd, rfl, -⟩ := abJudge_own cfg hlena hlenb
    exact ⟨d, mem_abDetails_own.2 ⟨hlena, hlenb, hd⟩, rfl⟩

theorem ab_untested {r : AbReport F} (h : ab a b cfg = .ok r) {d : AbDetail F}
    (hd : d ∈ r.detail) : d.status = .ignored ↔ ignored cfg d.id = true := by
  obtain ⟨notes, pa, pb, -, -, -, -, rfl⟩ := ab_eq_ok.1 h
  obtain ⟨id, -, hjudge⟩ := mem_abDetails.1 hd
  obtain ⟨bvals, -, -, -, rfl, hstatus⟩ := abJudge_spec hjudge
  rw [hstatus, statusOf, abStatus_ignored]

/-- `ab` tests the ids it compares and does not ignore. -/
theorem ab_tested {r : AbReport F} (h : ab a b cfg = .ok r) (id : String) :
    id ∈ (r.detail.filter fun d => d.status ≠ .ignored).map (·.id) ↔
      Paired id a b ∧ ignored cfg id = false := by
  rw [← ab_entry h, List.mem_map]
  simp only [List.mem_filter, decide_eq_true_eq]
  apply Iff.intro
  · intro h
    obtain ⟨d, ⟨hd, htested⟩, rfl⟩ := h
    rw [ne_eq, ab_untested h hd, Bool.not_eq_true] at htested
    exact ⟨⟨d, hd, rfl⟩, htested⟩
  · intro h
    obtain ⟨⟨d, hd, rfl⟩, hign⟩ := h
    refine ⟨d, ⟨hd, ?_⟩, rfl⟩
    rw [ne_eq, ab_untested h hd, hign]
    exact Bool.false_ne_true

theorem drift_tested {r : DriftReport F} (h : drift a b cfg = .ok r) (id : String) :
    id ∈ r.detail.map (·.id) ↔ Paired id a b ∧ ignored cfg id = false := by
  obtain ⟨pa, pb, ha, hb, -, rfl⟩ := drift_eq_ok.1 h
  rw [paired_iff ha hb, List.mem_map, and_assoc]
  exact mem_driftDetails

theorem judge_tested {mode : String} {rep : Report F} (h : judge mode a b cfg = .ok rep)
    (id : String) : id ∈ rep.tested ↔ Paired id a b ∧ ignored cfg id = false := by
  cases judge_judged h with
  | ab _ hab => exact ab_tested hab id
  | drift _ hdrift => exact drift_tested hdrift id
  | triad _ htriad =>
    obtain ⟨base, hbase, hdetail, -⟩ := triad_base htriad
    unfold Report.tested
    simp only [hdetail]
    exact ab_tested hbase id

end Entries

end Assayist
