import Assayist.Proofs.Carry
import Assayist.Proofs.Labels

/-! What the gate sees of a series before and after the OTLP bridge: the values of its
metrics, and their ids. -/

namespace Assayist

section Values

variable {F : Type} [F64 F] [Build]

/-- The values of a series' metrics in a run without a window. -/
def dataValues (kind : String) (data : Json F) : Except Abort (List F) :=
  if kind = "histogram" then do
    let (m, p50, p99) ← histogramStats data
    pure [m, p50, p99]
  else if kind = "counter" ∨ kind = "gauge" then pure [(data.getF64 "value").getD 0]
  else pure []

theorem seriesMetrics_values [FloatText F] {overbudget : List String} {overflow : Bool}
    {s data : Json F}
    {kind : String} (hkind : s.getStr "kind" = some kind) (hdata : s.get "data" = some data) :
    seriesMetrics overbudget overflow none s =
      List.zipWith (seriesHead overbudget overflow s).metric (seriesFields none s) <$>
        dataValues kind data := by
  unfold seriesMetrics dataValues seriesFields
  simp only [hkind, hdata, Option.getD_some, beq_iff_eq, Option.isNone_some, Bool.false_eq_true,
    if_false]
  by_cases hh : kind = "histogram"
  · simp only [if_pos hh]
    cases histogramStats data <;> rfl
  by_cases hc : kind = "counter"
  · subst hc
    rfl
  by_cases hg : kind = "gauge"
  · subst hg
    rfl
  · have hneither : ¬ (kind = "counter" ∨ kind = "gauge") := by simp [hc, hg]
    simp only [if_neg hh, if_neg hc, if_neg hg, if_neg hneither]
    rfl

/-- What must hold of the counts of a series for its values to come back: a counter reads
the same as a `uint64`, and a log2 mean taken from the sum does not need a count that was
written as a float. -/
def CountsKept (kind : String) (data : Json F) : Prop :=
  (kind = "counter" → (data.getF64 "value").getD 0 = ((readBack (data.get "value")).toNat : F)) ∧
  (kind = "histogram" → data.getStr "layout" = some "log2" → ∀ sum c,
    data.getF64 "sum" = some sum → data.getF64 "count" = some c → 0 < c →
    data.getU64 "count" = none → log2Mean (bucketsOf data) = .ok (sum / c))

variable (hF : FloatCasts F) {data : Json F}

theorem log2Stats_eq_ok (hlayout : data.getStr "layout" = some "log2") {m p50 p99 : F} :
    histogramStats data = .ok (m, p50, p99) ↔ log2MeanOf data (bucketsOf data) = .ok m ∧
      log2Percentile (bucketsOf data) (1 / 2) = .ok p50 ∧
      log2Percentile (bucketsOf data) (99 / 100) = .ok p99 := by
  have hne : ("log2" == "explicit") = false := by decide
  unfold histogramStats
  simp only [hlayout, Option.getD_some, hne, Bool.false_eq_true, if_false]
  rw [Results.bind_eq_ok]
  simp only [Results.bind_eq_ok, Results.pure_eq_ok, Prod.mk.injEq]
  apply Iff.intro
  · intro h
    obtain ⟨m', hm, p, hp, q, hq, rfl, rfl, rfl⟩ := h
    exact ⟨hm, hp, hq⟩
  · intro h
    obtain ⟨hm, hp, hq⟩ := h
    exact ⟨m, hm, p50, hp, p99, hq, rfl, rfl, rfl⟩

theorem dataValues_histogram {m p50 p99 : F} :
    dataValues "histogram" data = .ok [m, p50, p99] ↔ histogramStats data = .ok (m, p50, p99) := by
  simp only [dataValues, if_true]
  rw [Results.bind_eq_ok]
  simp [Results.pure_eq_ok]

omit [Build] in
theorem carriedData_log2 (hlayout : data.getStr "layout" = some "log2") :
    carriedData "histogram" data = .object ([("layout", .string "log2"),
      ("buckets", natArray (bucketsOf data)), ("count", .nat (readBack (data.get "count")))] ++
      sumField data) := by
  simp only [carriedData, hlayout, if_true]

omit [Build] in
theorem carriedData_explicit (hlayout : data.getStr "layout" = some "explicit") :
    carriedData "histogram" data = .object ([("layout", .string "explicit"),
      ("buckets", natArray (bucketsOf data)),
      ("explicit_bounds", .array ((boundsOf data).map Json.float)),
      ("count", .nat (readBack (data.get "count")))] ++ sumField data) := by
  simp only [carriedData, hlayout, if_true, Option.some.injEq,
    show ("explicit" : String) ≠ "log2" by decide, if_false]

omit [Build] in
theorem bucketsOf_carried (h : HistogramSchema data) :
    bucketsOf (carriedData "histogram" data) = bucketsOf data := by
  have hbuckets : (carriedData "histogram" data).get "buckets" =
      some (natArray (bucketsOf data)) := by
    rcases h.layout with hlayout | hlayout
    · rw [carriedData_log2 hlayout]
      rfl
    · rw [carriedData_explicit hlayout]
      rfl
  rw [bucketsOf, hbuckets, Option.getD_some, u64s_natArray]

omit [Build] in
include hF in
theorem sum_carried (h : HistogramSchema data) (hlayout : data.getStr "layout" = some "log2") :
    (carriedData "histogram" data).getF64 "sum" = data.getF64 "sum" := by
  have hget : (carriedData "histogram" data).get "sum" = (sumField data).lookup "sum" := by
    rw [carriedData_log2 hlayout]
    rfl
  rw [Json.getF64, hget]
  unfold sumField
  cases hsum : data.getF64 "sum" with
  | none => rfl
  | some s => rw [List.lookup_cons_self, Option.bind_some, h.asF64_sum hF hsum]

include hF in
/-- The mean of a log2 histogram comes back unless it was taken from the sum under a
count that is left behind. -/
theorem log2MeanOf_carried_iff (h : HistogramSchema data)
    (hlayout : data.getStr "layout" = some "log2") {m : F}
    (hm : log2MeanOf data (bucketsOf data) = .ok m) :
    log2MeanOf (carriedData "histogram" data) (bucketsOf data) = .ok m ↔
      ∀ sum c, data.getF64 "sum" = some sum → data.getF64 "count" = some c → 0 < c →
        data.getU64 "count" = none → log2Mean (bucketsOf data) = .ok (sum / c) := by
  have hsum := sum_carried hF h hlayout
  have hcount : (carriedData "histogram" data).getF64 "count" =
      some ((readBack (data.get "count")).toNat : F) := by
    rw [carriedData_log2 hlayout]
    rfl
  obtain ⟨v, hv, hc⟩ := h.count
  rcases hc with ⟨n, rfl⟩ | ⟨x, k, rfl, -, -⟩
  · have hback : readBack (data.get "count") = n := by rw [hv]; rfl
    have hf : data.getF64 "count" = some (n.toNat : F) := by rw [Json.getF64, hv]; rfl
    have hu : data.getU64 "count" = some n := by rw [Json.getU64, hv]; rfl
    have hsame : log2MeanOf (carriedData "histogram" data) (bucketsOf data) =
        log2MeanOf data (bucketsOf data) := by
      rw [log2MeanOf, log2MeanOf, hsum, hcount, hback, hf]
    rw [hsame, hm, hu]
    simp
  · have hback : readBack (data.get "count") = 0 := by rw [hv]; rfl
    have hf : data.getF64 "count" = some x := by rw [Json.getF64, hv]; rfl
    have hu : data.getU64 "count" = none := by rw [Json.getU64, hv]; rfl
    rw [log2MeanOf, hf] at hm
    rw [log2MeanOf, hsum, hcount, hback, hf, hu]
    cases hs : data.getF64 "sum" with
    | none =>
      rw [hs] at hm
      simp only at hm ⊢
      simp [hm]
    | some sum =>
      rw [hs] at hm
      simp only [UInt64.toNat_zero, if_neg hF.zero] at hm ⊢
      by_cases hx : 0 < x
      · rw [if_pos hx] at hm
        rw [← Results.pure_eq_ok.1 hm]
        simp [hx]
      · rw [if_neg hx] at hm
        simp [hx, hm]

omit [Build] in
include hF in
theorem bounds_carried (h : HistogramSchema data)
    (hlayout : data.getStr "layout" = some "explicit") :
    boundsOf (carriedData "histogram" data) = boundsOf data := by
  have hget : (carriedData "histogram" data).get "explicit_bounds" =
      some (.array ((boundsOf data).map Json.float)) := by
    rw [carriedData_explicit hlayout]
    rfl
  have hbounds : boundsOf (carriedData "histogram" data) =
      f64s (.array ((boundsOf data).map Json.float)) := by
    rw [boundsOf, hget, Option.getD_some]
  rw [hbounds, h.f64s_carried hF]

include hF in
theorem explicitStats_carried (h : HistogramSchema data)
    (hlayout : data.getStr "layout" = some "explicit") :
    histogramStats (carriedData "histogram" data) = histogramStats data := by
  have hlayout' : (carriedData "histogram" data).getStr "layout" = some "explicit" := by
    rw [carriedData_explicit hlayout]
    rfl
  have hbuckets := bucketsOf_carried h
  have hbounds := bounds_carried hF h hlayout
  unfold bucketsOf at hbuckets
  unfold boundsOf at hbounds
  unfold histogramStats
  simp only [hlayout, hlayout', Option.getD_some, BEq.rfl, if_true, hbuckets, hbounds]

include hF in
theorem log2Stats_carried_iff (h : HistogramSchema data)
    (hlayout : data.getStr "layout" = some "log2") {m p50 p99 : F}
    (hstats : histogramStats data = .ok (m, p50, p99)) :
    histogramStats (carriedData "histogram" data) = .ok (m, p50, p99) ↔
      CountsKept "histogram" data := by
  have hlayout' : (carriedData "histogram" data).getStr "layout" = some "log2" := by
    rw [carriedData_log2 hlayout]
    rfl
  obtain ⟨hm, hp50, hp99⟩ := (log2Stats_eq_ok hlayout).1 hstats
  rw [log2Stats_eq_ok hlayout', bucketsOf_carried h, log2MeanOf_carried_iff hF h hlayout hm]
  simp [CountsKept, hlayout, hp50, hp99]

include hF in
theorem dataValues_carried_iff {kind : String} (h : DataSchema kind data) {vs : List F}
    (hvs : dataValues kind data = .ok vs) :
    dataValues kind (carriedData kind data) = .ok vs ↔ CountsKept kind data := by
  cases h with
  | histogram h =>
    obtain ⟨⟨m, p50, p99⟩, hstats, hvs⟩ := Results.bind_eq_ok.1 hvs
    rw [← Results.pure_eq_ok.1 hvs, dataValues_histogram]
    rcases h.layout with hlayout | hlayout
    · exact log2Stats_carried_iff hF h hlayout hstats
    · rw [explicitStats_carried hF h hlayout, hstats]
      simp [CountsKept, hlayout]
  | counter h =>
    have hvalue : dataValues "counter" data = .ok [(data.getF64 "value").getD 0] := rfl
    have hback : dataValues "counter" (carriedData "counter" data) =
        .ok [((readBack (data.get "value")).toNat : F)] := rfl
    rw [hvalue, Except.ok.injEq] at hvs
    rw [← hvs, hback]
    simp [CountsKept, eq_comm]
  | gauge h =>
    have hget : (carriedData "gauge" data).getF64 "value" =
        Json.asF64 (Json.float ((data.getF64 "value").getD 0) : Json F) := rfl
    have hback : dataValues "gauge" (carriedData "gauge" data) = dataValues "gauge" data := by
      have hval (d : Json F) : dataValues "gauge" d = .ok [(d.getF64 "value").getD 0] := rfl
      rw [hval, hval, hget, h.asF64_value hF, Option.getD_some]
    rw [hback, hvs]
    simp [CountsKept]

end Values

section Views

variable {F : Type} [F64 F]

def view (m : Metric F) : String × F × Polarity := (m.id, m.value, m.polarity)

omit [F64 F] in
theorem zipWith_metric_value (head : SeriesHead) {fields : List String} {values : List F}
    (h : values.length = fields.length) :
    (List.zipWith head.metric fields values).map (·.value) = values := by
  induction fields generalizing values with
  | nil => rw [List.eq_nil_of_length_eq_zero h]; rfl
  | cons field fields ih =>
    cases values with
    | nil => simp at h
    | cons value values =>
      rw [List.zipWith_cons_cons, List.map_cons, ih (by simpa using h)]
      rfl

omit [F64 F] in
/-- Metrics under two heads look the same when the bases and the values do. -/
theorem zipWith_view_iff {head head' : SeriesHead} (hunit : head'.unit = head.unit)
    {fields : List String} (hne : fields ≠ []) {values values' : List F}
    (hlen : values.length = fields.length) (hlen' : values'.length = fields.length) :
    (List.zipWith head'.metric fields values').map view =
        (List.zipWith head.metric fields values).map view ↔
      head'.base = head.base ∧ values' = values := by
  apply Iff.intro
  · intro h
    have hids := congrArg (List.map Prod.fst) h
    have hvalues := congrArg (List.map fun v => v.2.1) h
    rw [List.map_map, List.map_map] at hids hvalues
    change (List.zipWith head'.metric fields values').map (·.id) =
      (List.zipWith head.metric fields values).map (·.id) at hids
    change (List.zipWith head'.metric fields values').map (·.value) =
      (List.zipWith head.metric fields values).map (·.value) at hvalues
    rw [zipWith_metric_value head' hlen', zipWith_metric_value head hlen] at hvalues
    rw [zipWith_metric_id head' fields values' hlen', zipWith_metric_id head fields values hlen]
      at hids
    obtain ⟨field, hfield⟩ := List.exists_mem_of_ne_nil _ hne
    have hbase := List.map_inj_left.1 hids field hfield
    rw [String.append_left_inj, String.append_left_inj] at hbase
    exact ⟨hbase, hvalues⟩
  · intro h
    obtain ⟨hbase, rfl⟩ := h
    rw [List.map_zipWith, List.map_zipWith]
    congr 1
    funext field value
    simp only [view, SeriesHead.metric, hbase, hunit]

def labelled (s : Json F) : Bool := !(((s.get "labels").bind Json.asObject).getD []).isEmpty

variable [FloatText F]

omit [F64 F] in
theorem labelsSuffix_eq_empty (labels : Option (Json F)) :
    labelsSuffix labels = "" ↔ (labels.bind Json.asObject).getD [] = [] := by
  unfold labelsSuffix
  cases labels.bind Json.asObject with
  | none => simp
  | some m =>
    simp only [Option.getD_some]
    rw [← String.toList_inj, foldl_append_toList]
    apply Iff.intro
    · intro h
      have hpieces := List.flatMap_eq_nil_iff.1 h
      by_contra hne
      obtain ⟨e, he⟩ := List.exists_mem_of_ne_nil _ hne
      have hmem : (e.1, scalarToString e.2) ∈
          (m.map fun e => (e.1, scalarToString e.2)).mergeSort fun a b => decide (a.1 ≤ b.1) :=
        List.mem_mergeSort.2 (List.mem_map_of_mem he)
      exact absurd (hpieces _ hmem) (by simp)
    · rintro rfl
      simp

/-- A series comes back under the same base exactly when it has no label. -/
theorem seriesBase_carried_iff {s : Json F} (hname : ∃ name, s.getStr "name" = some name) :
    seriesBase (carried s) = seriesBase s ↔ labelled s = false := by
  obtain ⟨name, hname⟩ := hname
  have hcname : (carried s).getStr "name" = s.getStr "name" := by
    rw [hname]
    change (some ((s.getStr "name").getD "")) = _
    rw [hname]
    rfl
  have hckey : (carried s).getStr "key" = s.getStr "key" := by
    unfold carried carriedAttrs
    cases s.getStr "source" <;> cases s.getStr "key" <;> rfl
  have hclabels : labelsSuffix ((carried s).get "labels") = "" := by
    unfold carried carriedAttrs
    cases s.getStr "source" <;> cases s.getStr "key" <;> rfl
  simp only [seriesBase, seriesHead, hcname, hckey, hclabels]
  rw [String.append_right_inj, eq_comm, labelsSuffix_eq_empty, labelled, Bool.not_eq_false',
    List.isEmpty_iff]

end Views

section Series

variable {F : Type} [F64 F] [FloatText F] [Build]

def countsKept (s : Json F) : Prop :=
  ∀ kind data, s.getStr "kind" = some kind → s.get "data" = some data → CountsKept kind data

def seriesViews (overbudget : List String) (overflow : Bool) (s : Json F) :
    Except Abort (List (String × F × Polarity)) :=
  List.map view <$> seriesMetrics overbudget overflow none s

omit [FloatText F] [Build] in
theorem seriesFields_carried {s data : Json F} {kind : String} (hkind : s.getStr "kind" = some kind)
    (hdata : s.get "data" = some data) :
    (carried s).getStr "kind" = some kind ∧
      (carried s).get "data" = some (carriedData kind data) ∧
      seriesFields (none : Option F) (carried s) = seriesFields none s := by
  have hckind : (carried s).getStr "kind" = some ((s.getStr "kind").getD "") := rfl
  have hcdata : (carried s).get "data" =
      some (carriedData ((s.getStr "kind").getD "") ((s.get "data").getD .null)) := by
    unfold carried carriedAttrs
    cases s.getStr "source" <;> cases s.getStr "key" <;> rfl
  rw [hkind, Option.getD_some] at hckind hcdata
  rw [hdata, Option.getD_some] at hcdata
  refine ⟨hckind, hcdata, ?_⟩
  rw [seriesFields, seriesFields, hckind, hcdata, hkind, hdata]
  rfl

omit [FloatText F] in
theorem length_dataValues {s data : Json F} {kind : String} (hkind : s.getStr "kind" = some kind)
    (hdata : s.get "data" = some data) (h : DataSchema kind data) {d : Json F} {vs : List F}
    (hvs : dataValues kind d = .ok vs) :
    vs.length = (seriesFields (none : Option F) s).length ∧
      seriesFields (none : Option F) s ≠ [] := by
  rw [seriesFields, hkind, hdata]
  cases h with
  | histogram h =>
    obtain ⟨⟨m, p50, p99⟩, -, hvs⟩ := Results.bind_eq_ok.1 hvs
    rw [← Results.pure_eq_ok.1 hvs]
    exact ⟨rfl, by simp⟩
  | counter h =>
    rw [← Results.pure_eq_ok.1 hvs]
    exact ⟨rfl, by simp⟩
  | gauge h =>
    rw [← Results.pure_eq_ok.1 hvs]
    exact ⟨rfl, by simp⟩

theorem seriesViews_eq_ok {s data : Json F} {kind : String} (hkind : s.getStr "kind" = some kind)
    (hdata : s.get "data" = some data) {overbudget : List String} {overflow : Bool}
    {vs : List (String × F × Polarity)} :
    seriesViews overbudget overflow s = .ok vs ↔ ∃ values, dataValues kind data = .ok values ∧
      vs = (List.zipWith (seriesHead overbudget overflow s).metric (seriesFields none s) values).map
        view := by
  rw [seriesViews, seriesMetrics_values hkind hdata, Results.map_eq_ok]
  simp only [Results.map_eq_ok, exists_exists_and_eq_and]
  exact exists_congr fun values => and_congr_right fun _ => eq_comm

/-- The gate sees the same of a series exactly when it has no label and its counts are
kept. -/
theorem carried_views_iff (hF : FloatCasts F) {s : Json F} (h : SeriesSchema s)
    {overbudget overbudget' : List String} {overflow overflow' : Bool}
    {vs : List (String × F × Polarity)}
    (hvs : seriesViews overbudget overflow s = .ok vs) :
    seriesViews overbudget' overflow' (carried s) = .ok vs ↔ labelled s = false ∧ countsKept s := by
  obtain ⟨kind, data, hkind, hdata, hschema⟩ := h.data
  obtain ⟨hckind, hcdata, hfields⟩ := seriesFields_carried hkind hdata
  obtain ⟨values, hvalues, rfl⟩ := (seriesViews_eq_ok hkind hdata).1 hvs
  obtain ⟨hlen, hne⟩ := length_dataValues hkind hdata hschema hvalues
  have hkept : countsKept s ↔ CountsKept kind data := by
    refine ⟨fun hc => hc kind data hkind hdata, fun hc kind' data' hkind' hdata' => ?_⟩
    rw [hkind, Option.some.injEq] at hkind'
    rw [hdata, Option.some.injEq] at hdata'
    rwa [← hkind', ← hdata']
  have hunit : (seriesHead overbudget' overflow' (carried s)).unit =
      (seriesHead overbudget overflow s).unit := by
    obtain ⟨unit, hunit⟩ := h.unit
    change (some ((s.getStr "unit").getD "")).getD "" = (s.getStr "unit").getD ""
    rfl
  rw [seriesViews_eq_ok hckind hcdata, hfields, hkept, ← seriesBase_carried_iff h.name,
    ← dataValues_carried_iff hF hschema hvalues]
  apply Iff.intro
  · intro hcarried
    obtain ⟨values', hvalues', hview⟩ := hcarried
    have hlen' := (length_dataValues hkind hdata hschema hvalues').1
    obtain ⟨hbase, rfl⟩ := (zipWith_view_iff hunit hne hlen hlen').1 hview.symm
    exact ⟨hbase, hvalues'⟩
  · intro hcarried
    obtain ⟨hbase, hvalues'⟩ := hcarried
    exact ⟨values, hvalues', ((zipWith_view_iff hunit hne hlen hlen).2 ⟨hbase, rfl⟩).symm⟩

end Series

section Spans

variable {F : Type} [F64 F]

/-- The duration of a span is kept: its ends read the same as `uint64`s, or are as far
apart. -/
def spanKept (sp : Json F) : Prop :=
  ∀ start stop, sp.getF64 "start_unix_nano" = some start → sp.getF64 "end_unix_nano" = some stop →
    stop - start = ((readBack (sp.get "end_unix_nano")).toNat : F) -
      ((readBack (sp.get "start_unix_nano")).toNat : F)

def carriedSpan (sp : Json F) : Metric F where
  id := "span:" ++ (sp.getStr "name").getD "" ++ "|dur"
  value := ((readBack (sp.get "end_unix_nano")).toNat : F) -
    ((readBack (sp.get "start_unix_nano")).toNat : F)
  contaminated := false
  polarity := .lowerBetter

theorem spanMetric_carried [FloatText F] (raw : List (Json F)) (runId : String)
    (spanId : String → ℕ → String) (ids : List (String × String)) (i : ℕ) (sp : Json F) :
    spanMetric (importSpan raw (exportSpan runId spanId ids i sp)) = some (carriedSpan sp) := by
  have hstart (t : Json F) : (importSpan raw t).getF64 "start_unix_nano" =
      some ((strU64 (t.get "startTimeUnixNano")).toNat : F) := rfl
  have hstop (t : Json F) : (importSpan raw t).getF64 "end_unix_nano" =
      some ((strU64 (t.get "endTimeUnixNano")).toNat : F) := rfl
  have hname (t : Json F) : (importSpan raw t).getStr "name" = t.getStr "name" := by
    change some ((t.get "name").getD .null) >>= Json.asStr = _
    rw [Json.getStr]
    cases t.get "name" <;> rfl
  have hfields : (exportSpan runId spanId ids i sp).getStr "name" =
        some ((sp.getStr "name").getD "") ∧
      (exportSpan runId spanId ids i sp).get "startTimeUnixNano" =
        some (u64Str (sp.get "start_unix_nano")) ∧
      (exportSpan runId spanId ids i sp).get "endTimeUnixNano" =
        some (u64Str (sp.get "end_unix_nano")) := by
    unfold exportSpan
    cases (sp.getStr "parent").bind fun parent => ids.lookup parent <;> exact ⟨rfl, rfl, rfl⟩
  unfold spanMetric
  rw [hstart, hstop, hname, hfields.1, hfields.2.1, hfields.2.2, strU64_u64Str, strU64_u64Str]
  rfl

theorem isCount_asF64 {v : Json F} (h : isCount v) : ∃ x, Json.asF64 v = some x := by
  rcases h with ⟨n, rfl⟩ | ⟨x, n, rfl, -, -⟩
  · exact ⟨_, rfl⟩
  · exact ⟨x, rfl⟩

theorem carriedSpan_view_iff {sp : Json F} (h : SpanSchema sp) :
    ∃ m, spanMetric sp = some m ∧ (view (carriedSpan sp) = view m ↔ spanKept sp) := by
  obtain ⟨a, ha, hca⟩ := h.start
  obtain ⟨b, hb, hcb⟩ := h.stop
  obtain ⟨x, hx⟩ := isCount_asF64 hca
  obtain ⟨y, hy⟩ := isCount_asF64 hcb
  have hstart : sp.getF64 "start_unix_nano" = some x := by rw [Json.getF64, ha]; exact hx
  have hstop : sp.getF64 "end_unix_nano" = some y := by rw [Json.getF64, hb]; exact hy
  unfold spanMetric
  rw [hstart, hstop]
  refine ⟨_, rfl, ?_⟩
  simp [view, carriedSpan, spanKept, hstart, hstop, eq_comm]

end Spans

end Assayist
