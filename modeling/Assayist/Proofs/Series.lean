import Assayist.Lib.Results
import Assayist.Spec.Reduce

/-! What `reduce` makes of a run: each series yields metrics under one head, or none,
and a run's metrics are those of its series followed by its report and its spans. -/

namespace Assayist

variable {F : Type}

def yields (s : Json F) : Bool :=
  (s.get "data").isSome &&
    ["histogram", "counter", "gauge"].contains ((s.getStr "kind").getD "")

def isCounter (s : Json F) : Bool :=
  (s.get "data").isSome && (s.getStr "kind").getD "" == "counter"

@[simp] theorem SeriesHead.metric_id (h : SeriesHead) (field : String) (x : F) :
    (h.metric field x).id = h.base ++ "|" ++ field := rfl

@[simp] theorem SeriesHead.metric_value (h : SeriesHead) (field : String) (x : F) :
    (h.metric field x).value = x := rfl

@[simp] theorem SeriesHead.metric_contaminated (h : SeriesHead) (field : String) (x : F) :
    (h.metric field x).contaminated = h.contaminated := rfl

theorem SeriesHead.metric_polarity (h : SeriesHead) (field : String) (x : F) :
    (h.metric field x).polarity = polarityOf (h.base ++ "|" ++ field) h.unit := by
  rw [SeriesHead.metric]

theorem seriesHead_unit [FloatText F] (overbudget : List String) (overflow : Bool)
    (s : Json F) : (seriesHead overbudget overflow s).unit = (s.getStr "unit").getD "" := rfl

/-- What the field of a metric decides is listed with the fields. -/
theorem zipWith_metric_map {β : Type} {head : SeriesHead} {f : Metric F → β} {g : String → β}
    (hfg : ∀ field value, f (head.metric field value) = g field) {fields : List String}
    {values : List F} (h : values.length = fields.length) :
    (List.zipWith head.metric fields values).map f = fields.map g := by
  induction fields generalizing values with
  | nil => simp
  | cons field fields ih =>
    cases values with
    | nil => simp at h
    | cons value values =>
      rw [List.zipWith_cons_cons, List.map_cons, List.map_cons, hfg,
        ih (by simpa using h)]

theorem zipWith_metric_id (head : SeriesHead) (fields : List String) (values : List F)
    (h : values.length = fields.length) :
    (List.zipWith head.metric fields values).map (·.id) =
      fields.map fun field => head.base ++ "|" ++ field :=
  zipWith_metric_map (fun _ _ => rfl) h

/-- The last fields of a series' metric ids, under a window. -/
def seriesFields [F64 F] (win : Option F) (s : Json F) : List String :=
  if (s.get "data").isNone then []
  else
    let kind := (s.getStr "kind").getD ""
    if kind = "histogram" then ["mean", "p50", "p99"]
    else if kind = "counter" then
      if win.any fun w => decide (0 < w) then ["value", "rate"] else ["value"]
    else if kind = "gauge" then ["value"]
    else []

section OneSeries

variable [F64 F] {overbudget : List String} {overflow : Bool} {win : Option F} {s : Json F}

theorem seriesFields_eq_nil : seriesFields win s = [] ↔ yields s = false := by
  unfold seriesFields yields
  cases s.get "data" with
  | none => simp
  | some data =>
    simp only [Option.isNone_some, Bool.false_eq_true, if_false, Option.isSome_some, Bool.true_and]
    split_ifs with hh hc hw hg
    · simp [hh]
    · simp [hc]
    · simp [hc]
    · simp [hg]
    · simp [hh, hc, hg]

theorem mem_seriesFields {field : String} (h : field ∈ seriesFields win s) :
    field ∈ ["mean", "p50", "p99", "value", "rate"] := by
  unfold seriesFields at h
  generalize (s.getStr "kind").getD "" = kind at h
  dsimp only at h
  split_ifs at h
  · exact absurd h List.not_mem_nil
  · exact List.mem_append_left ["value", "rate"] h
  · exact List.mem_append_right ["mean", "p50", "p99"] h
  · rw [List.mem_singleton.1 h]
    decide
  · rw [List.mem_singleton.1 h]
    decide
  · exact absurd h List.not_mem_nil

theorem seriesFields_single (h : (seriesFields win s).length = 1) :
    seriesFields win s = ["value"] := by
  unfold seriesFields at h ⊢
  by_cases hd : (s.get "data").isNone = true
  · simp [hd] at h
  · simp only [if_neg hd] at h ⊢
    split_ifs at h ⊢
    · simp at h
    · simp at h
    · rfl
    · rfl

theorem rate_mem_seriesFields (hc : isCounter s = true) :
    "rate" ∈ seriesFields win s ↔ ∃ w, win = some w ∧ 0 < w := by
  unfold isCounter at hc
  rw [Bool.and_eq_true, beq_iff_eq] at hc
  have hdata : (s.get "data").isNone = false := by rw [← Option.not_isSome, hc.1]; rfl
  unfold seriesFields
  simp only [hdata, Bool.false_eq_true, if_false, hc.2, if_true,
    show ("counter" : String) ≠ "histogram" by decide]
  cases win with
  | none => simp
  | some w => by_cases hw : 0 < w <;> simp [hw]

variable [FloatText F] [Build] {ms : List (Metric F)}

/-- A series yields one metric for each of its fields, all under its head. -/
theorem seriesMetrics_fields (h : seriesMetrics overbudget overflow win s = .ok ms) :
    ∃ values : List F, values.length = (seriesFields win s).length ∧
      ms = List.zipWith (seriesHead overbudget overflow s).metric (seriesFields win s) values := by
  unfold seriesMetrics at h
  unfold seriesFields
  cases hd : s.get "data" with
  | none =>
    rw [hd] at h
    exact ⟨[], rfl, (Results.pure_eq_ok.1 h).symm⟩
  | some data =>
    simp only [hd, beq_iff_eq] at h
    simp only [Option.isNone_some, Bool.false_eq_true, if_false]
    generalize (s.getStr "kind").getD "" = kind at h ⊢
    by_cases hh : kind = "histogram"
    · simp only [if_pos hh, Results.bind_eq_ok, Results.pure_eq_ok] at h ⊢
      obtain ⟨⟨m, p50, p99⟩, -, rfl⟩ := h
      exact ⟨[m, p50, p99], rfl, rfl⟩
    by_cases hc : kind = "counter"
    · simp only [if_neg hh, if_pos hc] at h ⊢
      cases win with
      | none => exact ⟨[_], rfl, (Results.pure_eq_ok.1 h).symm⟩
      | some w =>
        by_cases hw : 0 < w
        · simp only [if_pos hw] at h
          simp only [Option.any_some, hw, decide_true, if_true]
          exact ⟨[_, _], rfl, (Results.pure_eq_ok.1 h).symm⟩
        · simp only [if_neg hw] at h
          simp only [Option.any_some, hw, decide_false, Bool.false_eq_true, if_false]
          exact ⟨[_], rfl, (Results.pure_eq_ok.1 h).symm⟩
    by_cases hg : kind = "gauge"
    · simp only [if_neg hh, if_neg hc, if_pos hg] at h ⊢
      exact ⟨[_], rfl, (Results.pure_eq_ok.1 h).symm⟩
    · simp only [if_neg hh, if_neg hc, if_neg hg] at h ⊢
      exact ⟨[], rfl, (Results.pure_eq_ok.1 h).symm⟩

theorem seriesMetrics_ids (h : seriesMetrics overbudget overflow win s = .ok ms) :
    ms.map (·.id) =
      (seriesFields win s).map fun field =>
        (seriesHead overbudget overflow s).base ++ "|" ++ field := by
  obtain ⟨values, hlen, rfl⟩ := seriesMetrics_fields h
  exact zipWith_metric_id _ _ values hlen

theorem seriesMetrics_mem (h : seriesMetrics overbudget overflow win s = .ok ms) {m : Metric F}
    (hm : m ∈ ms) : ∃ field ∈ seriesFields win s, ∃ value,
      m = (seriesHead overbudget overflow s).metric field value := by
  obtain ⟨values, -, rfl⟩ := seriesMetrics_fields h
  rw [← List.map_uncurry_zip_eq_zipWith] at hm
  obtain ⟨⟨field, value⟩, hmem, rfl⟩ := List.mem_map.1 hm
  exact ⟨field, (List.of_mem_zip hmem).1, value, rfl⟩

theorem seriesMetrics_head (h : seriesMetrics overbudget overflow win s = .ok ms) {m : Metric F}
    (hm : m ∈ ms) : ∃ field value, m = (seriesHead overbudget overflow s).metric field value := by
  obtain ⟨field, -, value, rfl⟩ := seriesMetrics_mem h hm
  exact ⟨field, value, rfl⟩

theorem seriesMetrics_eq_nil (h : seriesMetrics overbudget overflow win s = .ok ms) :
    ms = [] ↔ yields s = false := by
  have hfields : seriesFields win s = [] ↔ yields s = false := seriesFields_eq_nil
  rw [← hfields, ← List.map_eq_nil_iff (f := Metric.id), seriesMetrics_ids h,
    List.map_eq_nil_iff]

/-- The metrics of a series are all contaminated when its head is, or when there are
none. -/
theorem seriesMetrics_contaminated (h : seriesMetrics overbudget overflow win s = .ok ms) :
    (∀ m ∈ ms, m.contaminated = true) ↔
      yields s = true → (seriesHead overbudget overflow s).contaminated = true := by
  refine ⟨fun hall hy => ?_, fun hc m hm => ?_⟩
  · obtain ⟨m, hm⟩ : ∃ m, m ∈ ms := List.exists_mem_of_ne_nil _ fun he => by
      rw [(seriesMetrics_eq_nil h).1 he] at hy
      exact absurd hy (by decide)
    obtain ⟨field, value, rfl⟩ := seriesMetrics_head h hm
    exact hall _ hm
  · obtain ⟨field, value, rfl⟩ := seriesMetrics_head h hm
    refine hc (Bool.eq_true_of_not_eq_false fun hy => ?_)
    rw [(seriesMetrics_eq_nil h).2 hy] at hm
    exact absurd hm (List.not_mem_nil)

/-- A counter series has a rate exactly when the run has a positive window. -/
theorem seriesMetrics_rate (h : seriesMetrics overbudget overflow win s = .ok ms)
    (hc : isCounter s = true) :
    (∃ m ∈ ms, m.id = (seriesHead overbudget overflow s).base ++ "|rate") ↔
      ∃ w, win = some w ∧ 0 < w := by
  have heq (field : String) : (seriesHead overbudget overflow s).base ++ "|" ++ field =
      (seriesHead overbudget overflow s).base ++ "|rate" ↔ field = "rate" := by
    rw [show ("|rate" : String) = "|" ++ "rate" from rfl, ← String.append_assoc,
      String.append_right_inj]
  have hmem : (∃ m ∈ ms, m.id = (seriesHead overbudget overflow s).base ++ "|rate") ↔
      (seriesHead overbudget overflow s).base ++ "|rate" ∈ ms.map (·.id) := by
    rw [List.mem_map]
  rw [hmem, seriesMetrics_ids h, ← rate_mem_seriesFields hc, List.mem_map]
  simp only [heq, exists_eq_right]

end OneSeries

theorem spanMetric_polarity [F64 F] {sp : Json F} {m : Metric F} (h : spanMetric sp = some m) :
    m.polarity = .lowerBetter := by
  unfold spanMetric at h
  split at h
  · rw [← Option.some.inj h]
  · cases h

theorem spanMetric_id [F64 F] {sp : Json F} {m : Metric F} (h : spanMetric sp = some m) :
    ∃ name, m.id = "span:" ++ name ++ "|dur" := by
  unfold spanMetric at h
  split at h
  · rw [← Option.some.inj h]
    exact ⟨_, rfl⟩
  · cases h

section Run

variable [F64 F] [FloatText F] [Build]

def metricsOf (run : Json F) (s : Json F) : Except Abort (List (Metric F)) :=
  seriesMetrics (overbudgetSources run) (globalOverflow run) (windowNs run) s

/-- A run's metrics are those of its series, its report and its spans, in order. -/
theorem reduce_eq_ok {run : Json F} {ms : List (Metric F)} :
    reduce run = .ok ms ↔
      ∃ parts, List.Forall₂ (fun s part => metricsOf run s = .ok part)
        ((run.getArray "series").getD []) parts ∧
        ms = parts.flatten ++ workloadMetrics run ++ spanMetrics run := by
  unfold reduce runSeriesMetrics metricsOf
  simp only [Results.bind_eq_ok, Results.map_eq_ok, Results.pure_eq_ok, Results.mapM_eq_ok]
  apply Iff.intro
  · intro h
    obtain ⟨_, ⟨parts, hparts, rfl⟩, rfl⟩ := h
    exact ⟨parts, hparts, rfl⟩
  · intro h
    obtain ⟨parts, hparts, rfl⟩ := h
    exact ⟨_, ⟨parts, hparts, rfl⟩, rfl⟩

/-- A run without series always reduces. -/
theorem reduce_no_series {run : Json F} (h : run.getArray "series" = none) :
    ∃ ms, reduce run = .ok ms := by
  refine ⟨_, reduce_eq_ok.2 ⟨[], ?_, rfl⟩⟩
  rw [h]
  exact .nil

end Run

end Assayist
