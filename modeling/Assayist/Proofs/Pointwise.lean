import Assayist.Lib.Pieces
import Assayist.Proofs.Points

/-! The data points of an OTLP document against the series they are imported as. The import
reads the first point of each metric, under the first body the metric has. -/

namespace Assayist

section Owed

variable {F : Type}

/-- The bodies a metric can have, in the order the import looks for them. -/
def bodyNames : List String := ["exponentialHistogram", "histogram", "sum", "gauge"]

def bodyKind (body : String) : String :=
  if body = "sum" then "counter" else if body = "gauge" then "gauge" else "histogram"

def bodyPoints (m : Json F) (body : String) : List (Json F) :=
  (((m.get body).bind (·.get "dataPoints")).bind Json.asArray).getD []

/-- A data point in its place: the metric, the body and the point. -/
structure PlacedPoint (F : Type) where
  metric : Json F
  body : String
  point : Json F

def metricPoints (m : Json F) : List (PlacedPoint F) :=
  bodyNames.flatMap fun body => (bodyPoints m body).map fun p => ⟨m, body, p⟩

def isProbe (m : Json F) : Bool := startsWith ((m.getStr "name").getD "") "assayist.probe."

/-- The points of one metric that are owed a series. -/
def owedPoints (m : Json F) : List (PlacedPoint F) := if isProbe m then [] else metricPoints m

/-- A series made of one data point: it has the name and kind of its metric, and the source
and key of its own point. -/
structure CarriesPoint (d : PlacedPoint F) (s : Json F) : Prop where
  name : s.getStr "name" = d.metric.getStr "name"
  kind : s.getStr "kind" = some (bodyKind d.body)
  source : s.getStr "source" = dpAttr d.point "assayist.source"
  key : s.getStr "key" = dpAttr d.point "assayist.key"

/-- One series for each data point of a document, in document order. -/
def PointsKept [F64 F] (doc : Json F) : Prop :=
  List.Forall₂ CarriesPoint ((otlpMetrics doc).flatMap owedPoints) (importSeries doc)

def firstBody (m : Json F) : Option String := bodyNames.find? fun body => (m.get body).isSome

/-- A metric whose every data point is imported: it has none, or it has a name and one point
in all, under the first of its bodies. -/
def SinglePoint (m : Json F) : Prop :=
  metricPoints m = [] ∨
    (∃ name, m.getStr "name" = some name) ∧ (metricPoints m).length = 1 ∧
      ∃ body, firstBody m = some body ∧ bodyPoints m body ≠ []

end Owed

section Metric

variable {F : Type} {m : Json F}

theorem firstPoint_eq {v : Json F} {body : String} (h : m.get body = some v) :
    firstPoint v = (bodyPoints m body).head? := by
  unfold firstPoint bodyPoints item
  rw [h, Option.bind_some]
  cases v.get "dataPoints" with
  | none => rfl
  | some ps =>
    rw [Option.bind_some, Option.bind_some]
    cases ps.asArray with
    | none => rfl
    | some xs => rw [Option.bind_some, Option.getD_some, List.head?_eq_getElem?]

theorem firstBody_eq_some {body : String} (h : firstBody m = some body) :
    body ∈ bodyNames ∧ ∃ v, m.get body = some v := by
  have hsome := List.find?_some h
  exact ⟨List.mem_of_find?_eq_some h, Option.isSome_iff_exists.1 hsome⟩

theorem mem_metricPoints {body : String} {p : Json F} (hbody : body ∈ bodyNames)
    (hp : p ∈ bodyPoints m body) : ⟨m, body, p⟩ ∈ metricPoints m :=
  List.mem_flatMap.2 ⟨body, hbody, List.mem_map_of_mem hp⟩

variable [F64 F]

theorem metricData_eq (m : Json F) :
    (metricData m).map (fun d => (d.1, d.2.1)) = (firstBody m).bind fun body =>
      (bodyPoints m body).head?.map fun p => (bodyKind body, p) := by
  unfold metricData firstBody bodyNames
  simp only [List.find?_cons, List.find?_nil]
  cases heh : m.get "exponentialHistogram" with
  | some eh =>
    simp only [firstPoint_eq heh, Option.isSome_some, Option.bind_some]
    cases (bodyPoints m "exponentialHistogram").head? <;> rfl
  | none =>
  cases hh : m.get "histogram" with
  | some h =>
    simp only [firstPoint_eq hh, Option.isSome_some, Option.isSome_none, Option.bind_some]
    cases (bodyPoints m "histogram").head? <;> rfl
  | none =>
  cases hs : m.get "sum" with
  | some v =>
    simp only [firstPoint_eq hs, Option.isSome_some, Option.isSome_none, Option.bind_some]
    cases (bodyPoints m "sum").head? <;> rfl
  | none =>
  cases hg : m.get "gauge" with
  | some g =>
    simp only [Option.isSome_some, Option.isSome_none, Option.bind_some]
    change ((firstPoint g).bind _).map _ = _
    rw [firstPoint_eq hg]
    cases (bodyPoints m "gauge").head? <;> rfl
  | none => rfl

end Metric

section Series

variable {F : Type} [F64 F] {m s : Json F}

theorem importMetric_probe (h : isProbe m = true) : importMetric m = none := if_pos h

theorem importMetric_of_not_probe (h : isProbe m = false) : importMetric m = metricToSeries m :=
  if_neg (ne_true_of_eq_false h)

theorem isProbe_of_imported (h : importMetric m = some s) : isProbe m = false := by
  cases hprobe : isProbe m with
  | false => rfl
  | true =>
    rw [importMetric_probe hprobe] at h
    cases h

theorem name_of_imported (h : importMetric m = some s) :
    ∃ name, m.getStr "name" = some name := by
  rw [importMetric_of_not_probe (isProbe_of_imported h)] at h
  obtain ⟨name, hname, -⟩ := Option.bind_eq_some_iff.1 h
  exact ⟨name, hname⟩

theorem importMetric_carries (h : importMetric m = some s) :
    ∃ body p, firstBody m = some body ∧ (bodyPoints m body).head? = some p ∧
      CarriesPoint ⟨m, body, p⟩ s := by
  rw [importMetric_of_not_probe (isProbe_of_imported h)] at h
  obtain ⟨name, hname, h⟩ := Option.bind_eq_some_iff.1 h
  obtain ⟨⟨kind, p, data⟩, hdata, h⟩ := Option.bind_eq_some_iff.1 h
  have hplace := metricData_eq m
  rw [hdata, Option.map_some] at hplace
  obtain ⟨body, hbody, hpoint⟩ := Option.bind_eq_some_iff.1 hplace.symm
  obtain ⟨q, hq, hpair⟩ := Option.map_eq_some_iff.1 hpoint
  obtain ⟨hkind, rfl⟩ := Prod.mk.inj hpair
  have hs := Option.some.inj h
  refine ⟨body, q, hbody, hq, ?_⟩
  rw [← hs]
  refine ⟨?_, ?_, ?_, ?_⟩
  · exact hname.symm
  · exact congrArg some hkind.symm
  · change ((carrySourceKey q ++ [("data", data)]).lookup "source").bind Json.asStr = _
    unfold carrySourceKey
    cases dpAttr q "assayist.source" <;> cases dpAttr q "assayist.key" <;> rfl
  · change ((carrySourceKey q ++ [("data", data)]).lookup "key").bind Json.asStr = _
    unfold carrySourceKey
    cases dpAttr q "assayist.source" <;> cases dpAttr q "assayist.key" <;> rfl

/-- A named metric that is no probe's is imported once its first body has a point. -/
theorem exists_importMetric {name body : String} {p : Json F} (hprobe : isProbe m = false)
    (hname : m.getStr "name" = some name) (hbody : firstBody m = some body)
    (hp : (bodyPoints m body).head? = some p) : ∃ s, importMetric m = some s := by
  have hplace := metricData_eq m
  rw [hbody, Option.bind_some, hp, Option.map_some] at hplace
  obtain ⟨d, hd, -⟩ := Option.map_eq_some_iff.1 hplace
  rw [importMetric_of_not_probe hprobe, metricToSeries, hname]
  change ∃ s, (metricData m >>= _) = some s
  rw [hd]
  exact ⟨_, rfl⟩

def metricSeries (m : Json F) : List (Json F) := (importMetric m).toList

theorem importSeries_flatMap (doc : Json F) :
    importSeries doc = (otlpMetrics doc).flatMap metricSeries := by
  rw [importSeries_eq, List.filterMap_eq_flatMap_toList]
  rfl

theorem metricSeries_probe (h : isProbe m = true) : metricSeries m = [] := by
  rw [metricSeries, importMetric_probe h]
  rfl

/-- No metric makes more series than it has points. -/
theorem length_metricSeries_le (m : Json F) :
    (metricSeries m).length ≤ (owedPoints m).length := by
  unfold metricSeries
  cases h : importMetric m with
  | none => exact Nat.zero_le _
  | some s =>
    obtain ⟨body, p, hbody, hp, -⟩ := importMetric_carries h
    have hmem := mem_metricPoints (firstBody_eq_some hbody).1 (List.mem_of_mem_head? hp)
    rw [owedPoints, isProbe_of_imported h]
    exact List.length_pos_of_mem hmem

/-- A metric's points are all imported exactly when it has at most the one that is read. -/
theorem metric_kept_iff (hprobe : isProbe m = false) :
    List.Forall₂ CarriesPoint (metricPoints m) (metricSeries m) ↔ SinglePoint m := by
  unfold metricSeries
  apply Iff.intro
  · intro hall
    have hlen := hall.length_eq
    cases h : importMetric m with
    | none =>
      rw [h] at hlen
      exact Or.inl (List.eq_nil_of_length_eq_zero hlen)
    | some s =>
      rw [h] at hlen
      obtain ⟨body, p, hbody, hp, hcarries⟩ := importMetric_carries h
      refine Or.inr ⟨name_of_imported h, hlen, body, hbody, ?_⟩
      exact List.ne_nil_of_mem (List.mem_of_mem_head? hp)
  · intro hsingle
    rcases hsingle with hnone | ⟨⟨name, hname⟩, hone, body, hbody, hpoints⟩
    · cases h : importMetric m with
      | none =>
        rw [hnone]
        exact List.Forall₂.nil
      | some s =>
        obtain ⟨body, p, hbody, hp, -⟩ := importMetric_carries h
        have hmem := mem_metricPoints (firstBody_eq_some hbody).1 (List.mem_of_mem_head? hp)
        rw [hnone] at hmem
        cases hmem
    · have hq : (bodyPoints m body).head? = some ((bodyPoints m body).head hpoints) :=
        List.head?_eq_some_head hpoints
      obtain ⟨s, hs⟩ := exists_importMetric hprobe hname hbody hq
      obtain ⟨body', p, hbody', hp, hcarries⟩ := importMetric_carries hs
      obtain ⟨d, hd⟩ := List.length_eq_one_iff.1 hone
      have hmem := mem_metricPoints (firstBody_eq_some hbody').1 (List.mem_of_mem_head? hp)
      rw [hd] at hmem ⊢
      rw [hs, ← List.mem_singleton.1 hmem]
      exact List.Forall₂.cons hcarries List.Forall₂.nil

/-- Every data point of a document gets its series exactly when every metric that is no
probe's has a single one, where the import looks for it. -/
theorem pointsKept_iff (doc : Json F) :
    PointsKept doc ↔ ∀ m ∈ otlpMetrics doc, isProbe m = false → SinglePoint m := by
  unfold PointsKept
  rw [importSeries_flatMap, Pieces.forall₂_flatMap_iff fun m _ => length_metricSeries_le m]
  refine forall₂_congr fun m _ => ?_
  unfold owedPoints
  cases hprobe : isProbe m with
  | true =>
    rw [metricSeries_probe hprobe]
    simp
  | false =>
    have hkept := metric_kept_iff hprobe
    simpa using hkept

end Series

section Example

def twoPoints : Json ℚ :=
  .object [("resourceMetrics", .array [.object [("scopeMetrics", .array [.object [("metrics",
    .array [.object [("name", .string "netattrib.bytes"), ("unit", .string "By"),
      ("sum", .object [("dataPoints", .array [
        .object [("attributes", .array [kvStr "assayist.key" "tap0"]), ("asInt", .string "1")],
        .object [("attributes", .array [kvStr "assayist.key" "tap1"]),
          ("asInt", .string "2")]])])]])]])]])]

theorem twoPoints_dropped : ¬ PointsKept twoPoints := by
  intro h
  have hlen := h.length_eq
  revert hlen
  decide

end Example

end Assayist
