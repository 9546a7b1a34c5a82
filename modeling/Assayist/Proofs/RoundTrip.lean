import Assayist.Proofs.CarriedViews

/-! A run exported to OTLP and imported again, as the gate reduces it. -/

namespace Assayist

section Imported

variable {F : Type} [F64 F] [FloatText F] (hash : String → String → ℕ → String)
  (run : AssayRun F) (ts : UInt64)

theorem nested_metrics :
    nested (exportAt hash run ts) "resourceMetrics" "scopeMetrics" "metrics" =
      exportMetrics run ts := by
  simp [nested, exportAt, Json.getArray, Json.get, Json.asArray, List.lookup_cons]

theorem nested_spans :
    nested (exportAt hash run ts) "resourceSpans" "scopeSpans" "spans" =
      exportSpans hash run := by
  simp [nested, exportAt, Json.getArray, Json.get, Json.asArray, List.lookup_cons]

def seriesOf (m : Json F) : Option (Json F) :=
  if startsWith ((m.getStr "name").getD "") "assayist.probe." then none else metricToSeries m

omit [FloatText F] in
theorem seriesOf_probe {pm m : Json F} (hm : m ∈ probeMetrics ts pm) : seriesOf m = none := by
  have hfraction : startsWith "assayist.probe.steady_cpu_fraction" "assayist.probe." = true := by
    decide
  have htime : startsWith "assayist.probe.run_time_ns" "assayist.probe." = true := by decide
  unfold probeMetrics at hm
  simp only [List.mem_cons, List.not_mem_nil, or_false] at hm
  rcases hm with rfl | rfl
  · exact if_pos hfraction
  · exact if_pos htime

/-- No series hides behind a probe's name. -/
def NotProbe (s : Json F) : Prop :=
  ∀ name, s.getStr "name" = some name → startsWith name "assayist.probe." = false

omit [FloatText F] in
theorem seriesOf_exported (hF : FloatCasts F) {s : Json F} (h : SeriesSchema s)
    (hname : NotProbe s) : (seriesToMetric ts s).bind seriesOf = some (carried s) := by
  have hcarried : ∃ m, seriesToMetric ts s = some m ∧ m.getStr "name" = s.getStr "name" ∧
      metricToSeries m = some (carried s) := series_carried hF h
  obtain ⟨m, hm, hmname, hback⟩ := hcarried
  obtain ⟨name, hs⟩ := h.name
  rw [hm, Option.bind_some, seriesOf, hmname, hs, Option.getD_some, hname name hs]
  exact hback

theorem imported_series (hF : FloatCasts F) (hseries : ∀ s ∈ run.series, SeriesSchema s)
    (hnames : ∀ s ∈ run.series, NotProbe s) :
    (importRun (exportAt hash run ts)).series = run.series.map carried := by
  have himport : (importRun (exportAt hash run ts)).series =
      (exportMetrics run ts).filterMap seriesOf := by
    rw [← nested_metrics hash]
    rfl
  have hprobes : (run.selfMetrics.flatMap (probeMetrics ts)).filterMap seriesOf = [] := by
    refine List.filterMap_eq_nil_iff.2 fun m hm => ?_
    obtain ⟨pm, -, hm⟩ := List.mem_flatMap.1 hm
    exact seriesOf_probe ts hm
  rw [himport, exportMetrics, List.filterMap_append, hprobes, List.append_nil,
    List.filterMap_filterMap]
  calc run.series.filterMap (fun s => (seriesToMetric ts s).bind seriesOf)
      = run.series.filterMap (fun s => some (carried s)) :=
        List.filterMap_congr fun s hs => seriesOf_exported ts hF (hseries s hs) (hnames s hs)
    _ = run.series.map carried := by rw [← List.filterMap_eq_map]; rfl

theorem filterMap_mapIdx {α β γ : Type} {f : ℕ → α → β} {g : β → Option γ} {k : ℕ → α → γ}
    (h : ∀ i x, g (f i x) = some (k i x)) (xs : List α) :
    (xs.mapIdx f).filterMap g = xs.mapIdx k := by
  induction xs generalizing f k with
  | nil => rfl
  | cons x xs ih =>
    rw [List.mapIdx_cons, List.filterMap_cons_some (h 0 x), ih fun i y => h (i + 1) y,
      List.mapIdx_cons]

theorem imported_spans :
    (importRun (exportAt hash run ts)).spans.filterMap spanMetric =
      run.spans.map carriedSpan := by
  have himport : (importRun (exportAt hash run ts)).spans =
      (exportSpans hash run).map (importSpan (exportSpans hash run)) := by
    rw [← nested_spans hash run ts]
    rfl
  rw [himport, List.filterMap_map, exportSpans]
  refine (filterMap_mapIdx (k := fun _ sp => carriedSpan sp) (fun i sp => ?_) run.spans).trans ?_
  · exact spanMetric_carried _ run.runId _ _ i sp
  · rw [List.mapIdx_eq_zipIdx_map, ← Function.comp_def carriedSpan, ← List.map_map,
      List.zipIdx_map_fst]

end Imported

section Views

variable {F : Type} [F64 F] [FloatText F] [Build]

/-- What the gate sees of a run without a report: its series one after the other, then
its spans. -/
theorem reduce_views {run : AssayRun F} (hreport : run.workloadReport = none)
    {vs : List (String × F × Polarity)} :
    (∃ total, reduce run.toJson = .ok total ∧ total.map view = vs) ↔
      ∃ parts, List.Forall₂ (fun s part =>
          seriesViews (overBudgetIds run.selfMetrics) false s = .ok part) run.series parts ∧
        vs = parts.flatten ++ (run.spans.filterMap spanMetric).map view := by
  have hworkload : workloadMetrics run.toJson = [] := by
    rw [workloadMetrics, toJson_workloadReport, hreport]
  have hspans : spanMetrics run.toJson = run.spans.filterMap spanMetric := rfl
  have hmetrics (s : Json F) : metricsOf run.toJson s =
      seriesMetrics (overBudgetIds run.selfMetrics) false none s := by
    rw [metricsOf, globalOverflow_toJson, windowNs_toJson, overbudgetSources_toJson]
  simp only [reduce_eq_ok, toJson_series, Option.getD_some, hworkload, hspans, List.append_nil,
    hmetrics, seriesViews, Results.map_eq_ok]
  apply Iff.intro
  · intro h
    obtain ⟨total, ⟨parts, hparts, rfl⟩, rfl⟩ := h
    refine ⟨parts.map (List.map view), ?_, by rw [List.map_append, List.map_flatten]⟩
    exact List.forall₂_map_right_iff.2 (hparts.imp fun s part h => ⟨part, h, rfl⟩)
  · intro h
    obtain ⟨views, hviews, rfl⟩ := h
    obtain ⟨parts, hparts, rfl⟩ := Results.exists_map hviews
    exact ⟨_, ⟨parts, hparts, rfl⟩, by rw [List.map_append, List.map_flatten]⟩

theorem length_seriesViews {overbudget : List String} {overflow : Bool} {s : Json F}
    {vs : List (String × F × Polarity)} (h : seriesViews overbudget overflow s = .ok vs) :
    vs.length = (seriesFields (none : Option F) s).length := by
  obtain ⟨ms, hms, rfl⟩ := Results.map_eq_ok.1 h
  obtain ⟨values, hlen, rfl⟩ := seriesMetrics_fields hms
  rw [List.length_map, List.length_zipWith, hlen, Nat.min_self]

theorem length_parts {overbudget overbudget' : List String} {overflow overflow' : Bool}
    {ss : List (Json F)}
    {parts parts' : List (List (String × F × Polarity))}
    (h : List.Forall₂ (fun s part => seriesViews overbudget overflow s = .ok part) ss parts)
    (h' : List.Forall₂
      (fun s part => seriesViews overbudget' overflow' (carried s) = .ok part) ss parts')
    (hschema : ∀ s ∈ ss, SeriesSchema s) : parts'.map List.length = parts.map List.length := by
  induction h generalizing parts' with
  | nil => rw [List.forall₂_nil_left_iff.1 h']
  | @cons s part ss parts hs _ ih =>
    obtain ⟨part', parts', hs', hss', rfl⟩ := List.forall₂_cons_left_iff.1 h'
    obtain ⟨hshead, hstail⟩ := List.forall_mem_cons.1 hschema
    obtain ⟨kind, data, hkind, hdata, -⟩ := hshead.data
    rw [List.map_cons, List.map_cons, ih hss' hstail, length_seriesViews hs,
      length_seriesViews hs', (seriesFields_carried hkind hdata).2.2]

omit [FloatText F] [Build] in
/-- The spans of the schema look the same afterwards when each is kept. -/
theorem spans_view_iff {sps : List (Json F)} (h : ∀ sp ∈ sps, SpanSchema sp) :
    ((sps.filterMap spanMetric).map view).length = ((sps.map carriedSpan).map view).length ∧
      ((sps.map carriedSpan).map view = (sps.filterMap spanMetric).map view ↔
        ∀ sp ∈ sps, spanKept sp) := by
  induction sps with
  | nil => simp
  | cons sp sps ih =>
    obtain ⟨hsp, hsps⟩ := List.forall_mem_cons.1 h
    obtain ⟨m, hm, hview⟩ := carriedSpan_view_iff hsp
    obtain ⟨hlen, hiff⟩ := ih hsps
    rw [List.filterMap_cons_some hm, List.map_cons, List.map_cons, List.map_cons,
      List.forall_mem_cons, List.cons_eq_cons, hview, hiff]
    exact ⟨by rw [List.length_cons, List.length_cons, hlen], Iff.rfl⟩

def withoutReport (run : AssayRun F) : AssayRun F := { run with workloadReport := none }

/-- What a run keeps over the bridge: the ids, values and polarities that it reduces to,
and the contamination of an overflowed series. -/
def SurvivesOtlp (hash : String → String → ℕ → String) (run : AssayRun F) (ts : UInt64)
    (total : List (Metric F)) : Prop :=
  (∃ total', reduce (importRun (exportAt hash run ts)).toJson = .ok total' ∧
    total'.map view = total.map view) ∧
  ∀ (i : ℕ) (s : Json F), run.series[i]? = some s → flagged s = true →
    ∃ s', (importRun (exportAt hash run ts)).series[i]? = some s' ∧
      (seriesHead (overbudgetSources (importRun (exportAt hash run ts)).toJson)
        (globalOverflow (importRun (exportAt hash run ts)).toJson) s').contaminated = true

/-- A series that the bridge carries whole: it has no label and no overflow flag, and its
counts are kept. -/
def Portable (s : Json F) : Prop := labelled s = false ∧ flagged s = false ∧ countsKept s

variable {hash : String → String → ℕ → String} {run : AssayRun F} {ts : UInt64}

theorem imported_views_iff (hF : FloatCasts F) (hseries : ∀ s ∈ run.series, SeriesSchema s)
    (hnames : ∀ s ∈ run.series, NotProbe s) (hspans : ∀ sp ∈ run.spans, SpanSchema sp)
    {total : List (Metric F)} (h : reduce (withoutReport run).toJson = .ok total) :
    (∃ total', reduce (importRun (exportAt hash run ts)).toJson = .ok total' ∧
        total'.map view = total.map view) ↔
      (∀ s ∈ run.series, labelled s = false ∧ countsKept s) ∧ ∀ sp ∈ run.spans, spanKept sp := by
  have hbefore : ∃ parts, List.Forall₂ (fun s part =>
        seriesViews (overBudgetIds run.selfMetrics) false s = .ok part) run.series parts ∧
      total.map view = parts.flatten ++ (run.spans.filterMap spanMetric).map view :=
    (@reduce_views F _ _ _ (withoutReport run) rfl _).1 ⟨total, h, rfl⟩
  obtain ⟨parts, hparts, htotal⟩ := hbefore
  obtain ⟨hspanlen, hspaniff⟩ := spans_view_iff hspans
  have hreport : (importRun (exportAt hash run ts)).workloadReport = none := rfl
  rw [reduce_views hreport, imported_series hash run ts hF hseries hnames,
    imported_spans hash run ts, htotal, ← hspaniff]
  simp only [List.forall₂_map_left_iff]
  apply Iff.intro
  · intro hafter
    obtain ⟨parts', hparts', heq⟩ := hafter
    have hlens := length_parts hparts hparts' hseries
    have hflat : parts.flatten.length = parts'.flatten.length := by
      rw [List.length_flatten, List.length_flatten, hlens]
    obtain ⟨hparteq, hspaneq⟩ := List.append_inj heq hflat
    obtain rfl : parts' = parts := List.eq_iff_flatten_eq.2 ⟨hparteq.symm, hlens⟩
    refine ⟨fun s hs => ?_, hspaneq.symm⟩
    obtain ⟨part, -, hbefore, hafter⟩ :=
      Results.exists_right (Results.forall₂_and hparts hparts') hs
    exact (carried_views_iff hF (hseries s hs) hbefore).1 hafter
  · intro hkept
    obtain ⟨hkept, hspaneq⟩ := hkept
    refine ⟨parts, ?_, by rw [hspaneq]⟩
    have hboth := (List.forall₂_and_left _ _).2
      ⟨fun s hs => And.intro (hseries s hs) (hkept s hs), hparts⟩
    refine hboth.imp fun s part hs => ?_
    obtain ⟨⟨hschema, hkept⟩, hbefore⟩ := hs
    exact (carried_views_iff hF hschema hbefore).2 hkept

omit [Build] in
/-- Nothing of an imported run is contaminated. -/
theorem imported_clean (s : Json F) :
    (seriesHead (overbudgetSources (importRun (exportAt hash run ts)).toJson)
      (globalOverflow (importRun (exportAt hash run ts)).toJson) (carried s)).contaminated =
        false := by
  have hflag : (carried s).getBool "cardinality_overflow" = none := by
    unfold carried carriedAttrs
    cases s.getStr "source" <;> cases s.getStr "key" <;> rfl
  have hover : overbudgetSources (importRun (exportAt hash run ts)).toJson = [] := rfl
  rw [globalOverflow_toJson, hover, seriesHead, hflag]
  rfl

/-- A run of the schema survives the bridge exactly when its series are portable and the
durations of its spans are kept. -/
theorem survivesOtlp_iff (hF : FloatCasts F) (hseries : ∀ s ∈ run.series, SeriesSchema s)
    (hnames : ∀ s ∈ run.series, NotProbe s) (hspans : ∀ sp ∈ run.spans, SpanSchema sp)
    {total : List (Metric F)} (h : reduce (withoutReport run).toJson = .ok total) :
    SurvivesOtlp hash run ts total ↔
      (∀ s ∈ run.series, Portable s) ∧ ∀ sp ∈ run.spans, spanKept sp := by
  have hflags : (∀ (i : ℕ) (s : Json F), run.series[i]? = some s → flagged s = true →
        ∃ s', (importRun (exportAt hash run ts)).series[i]? = some s' ∧
          (seriesHead (overbudgetSources (importRun (exportAt hash run ts)).toJson)
            (globalOverflow (importRun (exportAt hash run ts)).toJson) s').contaminated = true) ↔
      ∀ s ∈ run.series, flagged s = false := by
    rw [imported_series hash run ts hF hseries hnames]
    refine ⟨fun hall s hs => ?_, fun hall i s hi hflag => ?_⟩
    · obtain ⟨i, hi⟩ := List.getElem?_of_mem hs
      refine Bool.eq_false_of_not_eq_true fun hflag => ?_
      obtain ⟨s', hs', hcont⟩ := hall i s hi hflag
      rw [List.getElem?_map, hi, Option.map_some, Option.some.injEq] at hs'
      rw [← hs', imported_clean] at hcont
      exact Bool.false_ne_true hcont
    · rw [hall s (List.mem_of_getElem? hi)] at hflag
      exact absurd hflag Bool.false_ne_true
  rw [SurvivesOtlp, imported_views_iff hF hseries hnames hspans h, hflags]
  apply Iff.intro
  · intro hkept
    obtain ⟨⟨hviews, hsp⟩, hflag⟩ := hkept
    exact ⟨fun s hs => ⟨(hviews s hs).1, hflag s hs, (hviews s hs).2⟩, hsp⟩
  · intro hport
    obtain ⟨hport, hsp⟩ := hport
    exact ⟨⟨fun s hs => ⟨(hport s hs).1, (hport s hs).2.2⟩, hsp⟩, fun s hs => (hport s hs).2.1⟩

end Views

section Runs

attribute [local instance] releaseBuild

theorem ratCasts : FloatCasts ℚ := ⟨fun _ _ => rfl, fun h => absurd h (by simp)⟩

/-- Sixteen hexadecimal digits from a span's name and place, in place of the digest. -/
def plainHash (_runId name : String) (i : ℕ) : String :=
  let n := name.toList.foldl (fun n c => n * 131 + c.toNat) i % 2 ^ 64
  String.ofList ((Nat.toDigits 16 n).leftpad 16 '0')

/-- One device's byte counter and a boot span, under the given labels. -/
def countedRun (labels : List (String × Json ℚ)) : AssayRun ℚ :=
  .assemble "0123456789abcdef0123456789abcdef" sampleIdentity sampleFingerprint (.object [])
    [{ series := [.object [("name", .string "block.io_bytes"), ("unit", .string "By"),
        ("kind", .string "counter"), ("source", .string "block_rq_complete"),
        ("key", .string "259:0"), ("labels", .object labels),
        ("data", .object [("value", .nat 4096), ("start_unix_nano", .nat 5)])]]
       selfMetrics := [], captureMeta := none }]
    [.object [("name", .string "boot"), ("start_unix_nano", .nat 10),
      ("end_unix_nano", .nat 20)]]

theorem countedRun_schema (labels : List (String × Json ℚ)) :
    (∀ s ∈ (countedRun labels).series, SeriesSchema s) ∧
      (∀ s ∈ (countedRun labels).series, NotProbe s) ∧
      ∀ sp ∈ (countedRun labels).spans, SpanSchema sp := by
  refine ⟨fun s hs => ?_, fun s hs => ?_, fun sp hsp => ?_⟩
  · rw [List.mem_singleton.1 hs]
    refine ⟨⟨_, rfl⟩, ⟨_, rfl⟩, ⟨_, rfl⟩, fun v hv => ⟨labels, (Option.some.inj hv).symm⟩, ?_⟩
    exact ⟨_, _, rfl, rfl, .counter ⟨⟨_, rfl, .inl ⟨_, rfl⟩⟩⟩⟩
  · rw [List.mem_singleton.1 hs]
    intro name hname
    rw [← Option.some.inj hname]
    decide
  · rw [List.mem_singleton.1 hsp]
    exact ⟨⟨_, rfl⟩, ⟨_, rfl, .inl ⟨_, rfl⟩⟩, ⟨_, rfl, .inl ⟨_, rfl⟩⟩⟩

theorem countedRun_reduces (labels : List (String × Json ℚ)) :
    ∃ total, reduce (withoutReport (countedRun labels)).toJson = .ok total :=
  ⟨_, rfl⟩

theorem unlabelled_survives :
    ∃ total, reduce (withoutReport (countedRun [])).toJson = .ok total ∧
      SurvivesOtlp plainHash (countedRun []) 0 total := by
  obtain ⟨total, htotal⟩ := countedRun_reduces []
  obtain ⟨hseries, hnames, hspans⟩ := countedRun_schema []
  refine ⟨total, htotal, (survivesOtlp_iff ratCasts hseries hnames hspans htotal).2 ⟨?_, ?_⟩⟩
  · intro s hs
    rw [List.mem_singleton.1 hs]
    refine ⟨by decide, by decide, fun kind data hkind hdata => ?_⟩
    rw [← Option.some.inj hkind, ← Option.some.inj hdata]
    exact ⟨fun _ => rfl, fun h => absurd h (by decide)⟩
  · intro sp hsp start stop hstart hstop
    rw [List.mem_singleton.1 hsp] at hstart hstop ⊢
    rw [← Option.some.inj hstart, ← Option.some.inj hstop]
    rfl

/-- A counter labelled with its VM comes back under another metric id. -/
theorem labels_lost :
    (∀ s ∈ (countedRun [("vm_id", .string "vm1")]).series, SeriesSchema s) ∧
    (∀ s ∈ (countedRun [("vm_id", .string "vm1")]).series, NotProbe s) ∧
    (∀ sp ∈ (countedRun [("vm_id", .string "vm1")]).spans, SpanSchema sp) ∧
    ∃ total, reduce (withoutReport (countedRun [("vm_id", .string "vm1")])).toJson = .ok total ∧
      ¬ SurvivesOtlp plainHash (countedRun [("vm_id", .string "vm1")]) 0 total := by
  obtain ⟨hseries, hnames, hspans⟩ := countedRun_schema [("vm_id", .string "vm1")]
  obtain ⟨total, htotal⟩ := countedRun_reduces [("vm_id", .string "vm1")]
  refine ⟨hseries, hnames, hspans, total, htotal, fun h => ?_⟩
  have hlabel := ((imported_views_iff ratCasts hseries hnames hspans htotal).1 h.1).1 _
    (List.mem_singleton.2 rfl)
  exact absurd hlabel.1 (by decide)

end Runs

end Assayist
