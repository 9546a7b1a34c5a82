import Assayist.Proofs.Assembly
import Assayist.Proofs.Text
import Assayist.Spec.Otlp
import Assayist.Spec.Schema

/-! What comes back of one series and of one span through the OTLP bridge: the fields
one by one, then the whole of each. -/

namespace Assayist

section Counts

variable {F : Type}

/-- What is left of a count once it has been written as a decimal `uint64`. -/
def readBack (v : Option (Json F)) : UInt64 := (v.bind Json.asU64).getD 0

theorem strU64_u64Str (v : Option (Json F)) : strU64 (some (u64Str v)) = readBack v := by
  unfold strU64 u64Str
  simp only [Option.bind_some, Json.asStr, parseU64_toString, Option.some_or, Option.getD_some]
  rfl

theorem strU64_bucket (n : UInt64) :
    strU64 (some (.string (toString (n.toNat : ℤ)) : Json F)) = n := by
  unfold strU64
  have htext : toString (n.toNat : ℤ) = toString n.toNat := rfl
  simp only [Option.bind_some, Json.asStr, htext, parseU64_toString, Option.some_or,
    Option.getD_some]

end Counts

section Buckets

variable {F : Type} [F64 F]

theorem filterMap_asI64 {bs : List (Json F)}
    (h : ∀ b ∈ bs, isCount b ∧ ∀ n, b = .nat n → n.toNat < 2 ^ 63) :
    bs.filterMap Json.asI64 = (bs.filterMap Json.asU64).map fun n => (n.toNat : ℤ) := by
  induction bs with
  | nil => rfl
  | cons b bs ih =>
    obtain ⟨⟨hb, hlt⟩, hbs⟩ := List.forall_mem_cons.1 h
    rcases hb with ⟨n, rfl⟩ | ⟨x, n, rfl, -, -⟩
    · have hi : Json.asI64 (.nat n : Json F) = some (n.toNat : ℤ) := by
        rw [Json.nat, Json.asI64, Number.asI64, if_pos (hlt n rfl)]
      have hu : Json.asU64 (.nat n : Json F) = some n := rfl
      rw [List.filterMap_cons_some hi, List.filterMap_cons_some hu, ih hbs, List.map_cons]
    · rw [List.filterMap_cons_none rfl, List.filterMap_cons_none rfl, ih hbs]

omit [F64 F] in
theorem strArrayU64_countStrings (ns : List UInt64) :
    strArrayU64 (some (countStrings (ns.map fun n => (n.toNat : ℤ)) : Json F)) = ns := by
  unfold strArrayU64 countStrings
  simp only [Option.bind_some, Json.asArray, Option.getD_some, List.map_map]
  calc ns.map _ = ns.map id := List.map_congr_left fun n _ => strU64_bucket n
    _ = ns := List.map_id _

omit [F64 F] in
theorem u64s_natArray (ns : List UInt64) : u64s (natArray ns : Json F) = ns := by
  unfold u64s natArray
  induction ns with
  | nil => rfl
  | cons n ns ih =>
    have hu : Json.asU64 (.nat n : Json F) = some n := rfl
    rw [List.map_cons, Json.asArray, Option.getD_some, List.filterMap_cons_some hu]
    rw [Json.asArray, Option.getD_some] at ih
    rw [ih]

/-- What the bridge relies on of `f64`: a parsed number casts to a finite float, and zero
is not positive. -/
structure FloatCasts (F : Type) [F64 F] : Prop where
  finite : ∀ n : Number F, n.parsed → F64.isFinite n.asF64 = true
  zero : ¬ (0 : F) < ((0 : ℕ) : F)

theorem FloatCasts.asF64_float (h : FloatCasts F) {n : Number F} (hn : n.parsed) :
    Json.asF64 (Json.float n.asF64 : Json F) = some n.asF64 := by
  rw [Json.float, if_pos (h.finite n hn)]
  rfl

theorem f64s_bounds (hF : FloatCasts F) {bs : List (Json F)} (h : ∀ b ∈ bs, isNumber b) :
    f64s (.array ((bs.filterMap Json.asF64).map Json.float) : Json F) =
      bs.filterMap Json.asF64 := by
  unfold f64s
  rw [Json.asArray, Option.getD_some]
  induction bs with
  | nil => rfl
  | cons b bs ih =>
    obtain ⟨⟨n, rfl, hn⟩, hbs⟩ := List.forall_mem_cons.1 h
    have hb : Json.asF64 (.number n : Json F) = some n.asF64 := rfl
    rw [List.filterMap_cons_some hb, List.map_cons,
      List.filterMap_cons_some (hF.asF64_float hn), ih hbs]

end Buckets

section Data

variable {F : Type} [F64 F]

def bucketsOf (data : Json F) : List UInt64 := u64s ((data.get "buckets").getD .null)

def boundsOf (data : Json F) : List F := f64s ((data.get "explicit_bounds").getD .null)

/-- The data of a series as the bridge brings it back. -/
def carriedData (kind : String) (data : Json F) : Json F :=
  if kind = "histogram" then
    if data.getStr "layout" = some "log2" then
      .object ([("layout", .string "log2"), ("buckets", natArray (bucketsOf data)),
        ("count", .nat (readBack (data.get "count")))] ++ sumField data)
    else
      .object ([("layout", .string "explicit"), ("buckets", natArray (bucketsOf data)),
        ("explicit_bounds", .array ((boundsOf data).map Json.float)),
        ("count", .nat (readBack (data.get "count")))] ++ sumField data)
  else if kind = "counter" then
    .object [("value", .nat (readBack (data.get "value"))),
      ("start_unix_nano", .nat (readBack (data.get "start_unix_nano")))]
  else
    .object [("value", .float ((data.getF64 "value").getD 0)),
      ("time_unix_nano", .nat (readBack (data.get "time_unix_nano")))]

variable (hF : FloatCasts F) {data : Json F}

omit [F64 F] in
theorem HistogramSchema.strArrayU64_buckets [F64 F] (h : HistogramSchema data) :
    strArrayU64 (some (countStrings (((data.getArray "buckets").getD []).filterMap
      Json.asI64) : Json F)) = bucketsOf data := by
  obtain ⟨bs, hbs, hall⟩ := h.buckets
  rw [Json.getArray, bucketsOf, hbs]
  simp only [Option.bind_some, Json.asArray, Option.getD_some]
  rw [filterMap_asI64 hall, strArrayU64_countStrings]
  rfl

theorem HistogramSchema.boundsOf_eq (h : HistogramSchema data) :
    ((data.getArray "explicit_bounds").getD []).filterMap Json.asF64 = boundsOf data := by
  rw [Json.getArray, boundsOf]
  cases hv : data.get "explicit_bounds" with
  | none => rfl
  | some v =>
    obtain ⟨bs, rfl, -⟩ := h.bounds v hv
    rfl

include hF in
theorem HistogramSchema.f64s_carried (h : HistogramSchema data) :
    f64s (.array ((boundsOf data).map Json.float) : Json F) = boundsOf data := by
  rw [boundsOf]
  cases hv : data.get "explicit_bounds" with
  | none => rfl
  | some v =>
    obtain ⟨bs, rfl, hall⟩ := h.bounds v hv
    exact f64s_bounds hF hall

include hF in
/-- A carried sum reads as the sum. -/
theorem HistogramSchema.asF64_sum (h : HistogramSchema data) {s : F}
    (hs : data.getF64 "sum" = some s) : Json.asF64 (Json.float s : Json F) = some s := by
  unfold Json.getF64 at hs
  obtain ⟨v, hv, hs⟩ := Option.bind_eq_some_iff.1 hs
  obtain ⟨n, rfl, hn⟩ := h.sum v hv
  rw [← Option.some.inj hs]
  exact hF.asF64_float hn

include hF in
theorem GaugeSchema.asF64_value (h : GaugeSchema data) :
    Json.asF64 (Json.float ((data.getF64 "value").getD 0) : Json F) =
      some ((data.getF64 "value").getD 0) := by
  obtain ⟨v, hv, n, rfl, hn⟩ := h.value
  rw [Json.getF64, hv]
  exact hF.asF64_float hn

variable {name unit : String} {attrs : List (Json F)} {ts : UInt64}

def exported (name unit : String) (body : List (String × Json F)) : Json F :=
  .object ([("name", .string name), ("unit", .string unit)] ++ body)

/-- A body that brings back the kind, the attributes and the data it was made of. -/
def BringsBack (kind : String) (data : Json F) (name unit : String) (attrs : List (Json F))
    (body : List (String × Json F)) : Prop :=
  ∃ dp, dp.get "attributes" = some (.array attrs) ∧
    metricData (exported name unit body) = some (kind, dp, carriedData kind data)

/-- The data point of a histogram up to what its layout adds. -/
def pointHead (data : Json F) (attrs : List (Json F)) (ts : UInt64) : List (String × Json F) :=
  [("attributes", .array attrs), ("timeUnixNano", .string (toString ts.toNat)),
    ("count", u64Str (data.get "count"))] ++ sumField data

theorem get_point (rest : List (String × Json F)) (k : String) :
    (Json.object (pointHead data attrs ts ++ rest)).get k =
      ((pointHead data attrs ts).lookup k).or (rest.lookup k) :=
  List.lookup_append

include hF in
/-- What a layout adds does not hide the sum. -/
theorem HistogramSchema.dpSum_point (h : HistogramSchema data) {rest : List (String × Json F)}
    (hrest : rest.lookup "sum" = none) :
    dpSum (.object (pointHead data attrs ts ++ rest)) = sumField data := by
  have hlookup : (pointHead data attrs ts).lookup "sum" = (sumField data).lookup "sum" := rfl
  unfold dpSum Json.getF64
  rw [get_point, hrest, Option.or_none, hlookup]
  unfold sumField
  cases hsum : data.getF64 "sum" with
  | none => rfl
  | some s =>
    have hs := h.asF64_sum hF hsum
    simp only [List.lookup_cons_self, Option.bind_some, hs]

theorem lookup_sumField {k : String} (hk : k ≠ "sum") : (sumField data).lookup k = none := by
  unfold sumField
  cases data.getF64 "sum" with
  | none => rfl
  | some s => rw [List.lookup_cons, beq_false_of_ne hk]; rfl

/-- The fields of a layout are read past the sum. -/
theorem get_point_layout {rest : List (String × Json F)} {k : String} (hk : k ≠ "sum")
    (hhead : [("attributes", Json.array attrs), ("timeUnixNano", .string (toString ts.toNat)),
      ("count", u64Str (data.get "count"))].lookup k = none) :
    (Json.object (pointHead data attrs ts ++ rest)).get k = rest.lookup k := by
  rw [get_point, pointHead, List.lookup_append, hhead, lookup_sumField hk]
  rfl

def log2Rest (data : Json F) : List (String × Json F) :=
  [("scale", .nat 0), ("zeroCount", .string "0"), ("positive", .object [("offset", .nat 0),
    ("bucketCounts", countStrings (((data.getArray "buckets").getD []).filterMap Json.asI64))])]

def explicitRest (data : Json F) : List (String × Json F) :=
  [("explicitBounds", .array ((((data.getArray "explicit_bounds").getD []).filterMap
      Json.asF64).map Json.float)),
    ("bucketCounts", countStrings (((data.getArray "buckets").getD []).filterMap Json.asI64))]

def histogramField (field : String) (point : List (String × Json F)) : List (String × Json F) :=
  [(field, .object [("aggregationTemporality", .nat 2), ("dataPoints", .array [.object point])])]

theorem metricData_log2 (point : List (String × Json F)) :
    metricData (exported name unit (histogramField "exponentialHistogram" point)) =
      some ("histogram", .object point, .object ([("layout", .string "log2"),
        ("buckets", natArray (strArrayU64
          (((Json.object point).get "positive").bind (·.get "bucketCounts")))),
        ("count", .nat (strU64 ((Json.object point).get "count")))] ++
        dpSum (.object point))) := rfl

theorem metricData_explicit (point : List (String × Json F)) :
    metricData (exported name unit (histogramField "histogram" point)) =
      some ("histogram", .object point, .object ([("layout", .string "explicit"),
        ("buckets", natArray (strArrayU64 ((Json.object point).get "bucketCounts"))),
        ("explicit_bounds", ((Json.object point).get "explicitBounds").getD (.array [])),
        ("count", .nat (strU64 ((Json.object point).get "count")))] ++
        dpSum (.object point))) := rfl

include hF in
theorem log2_bringsBack (h : HistogramSchema data) (hlayout : data.getStr "layout" = some "log2") :
    ∃ body, seriesBody "histogram" data attrs ts = some body ∧
      BringsBack "histogram" data name unit attrs body := by
  have hbody : seriesBody "histogram" data attrs ts = some (histogramField "exponentialHistogram"
      (pointHead data attrs ts ++ log2Rest data)) := by
    change histogramBody data attrs ts = _
    unfold histogramBody
    simp only [hlayout, Option.getD_some, if_true]
    rfl
  refine ⟨_, hbody, .object (pointHead data attrs ts ++ log2Rest data), rfl, ?_⟩
  have hpositive : (Json.object (pointHead data attrs ts ++ log2Rest data)).get "positive" =
      (log2Rest data).lookup "positive" := get_point_layout (by decide) rfl
  have hbuckets : strArrayU64 (((Json.object (pointHead data attrs ts ++ log2Rest data)).get
      "positive").bind (·.get "bucketCounts")) = bucketsOf data := by
    rw [hpositive]
    exact h.strArrayU64_buckets
  have hcount : (Json.object (pointHead data attrs ts ++ log2Rest data)).get "count" =
      some (u64Str (data.get "count")) := rfl
  have hsum : dpSum (.object (pointHead data attrs ts ++ log2Rest data)) = sumField data :=
    h.dpSum_point hF rfl
  rw [metricData_log2, hbuckets, hcount, strU64_u64Str, hsum]
  simp only [carriedData, hlayout, if_true]

include hF in
theorem explicit_bringsBack (h : HistogramSchema data)
    (hlayout : data.getStr "layout" = some "explicit") :
    ∃ body, seriesBody "histogram" data attrs ts = some body ∧
      BringsBack "histogram" data name unit attrs body := by
  have hbody : seriesBody "histogram" data attrs ts = some (histogramField "histogram"
      (pointHead data attrs ts ++ explicitRest data)) := by
    change histogramBody data attrs ts = _
    unfold histogramBody
    simp only [hlayout, Option.getD_some, show ("explicit" : String) ≠ "log2" by decide, if_true,
      if_false]
    rfl
  refine ⟨_, hbody, .object (pointHead data attrs ts ++ explicitRest data), rfl, ?_⟩
  have hcounts : (Json.object (pointHead data attrs ts ++ explicitRest data)).get "bucketCounts" =
      (explicitRest data).lookup "bucketCounts" := get_point_layout (by decide) rfl
  have hbuckets : strArrayU64 ((Json.object (pointHead data attrs ts ++ explicitRest data)).get
      "bucketCounts") = bucketsOf data := by
    rw [hcounts]
    exact h.strArrayU64_buckets
  have hbounds : (Json.object (pointHead data attrs ts ++ explicitRest data)).get
      "explicitBounds" = some (.array ((boundsOf data).map Json.float)) := by
    rw [get_point_layout (by decide) rfl, ← h.boundsOf_eq]
    rfl
  have hcount : (Json.object (pointHead data attrs ts ++ explicitRest data)).get "count" =
      some (u64Str (data.get "count")) := rfl
  have hsum : dpSum (.object (pointHead data attrs ts ++ explicitRest data)) = sumField data :=
    h.dpSum_point hF rfl
  rw [metricData_explicit, hbuckets, hbounds, hcount, strU64_u64Str, hsum, Option.getD_some]
  simp only [carriedData, hlayout, if_true, Option.some.injEq,
    show ("explicit" : String) ≠ "log2" by decide, if_false]

theorem counter_bringsBack :
    ∃ body, seriesBody "counter" data attrs ts = some body ∧
      BringsBack "counter" data name unit attrs body := by
  have hdata : carriedData "counter" data =
      .object [("value", .nat (strU64 (some (u64Str (data.get "value"))))),
        ("start_unix_nano", .nat (strU64 (some (u64Str (data.get "start_unix_nano")))))] := by
    rw [strU64_u64Str, strU64_u64Str]
    rfl
  unfold BringsBack
  rw [hdata]
  exact ⟨_, rfl, .object [("attributes", .array attrs), ("asInt", u64Str (data.get "value")),
    ("startTimeUnixNano", u64Str (data.get "start_unix_nano")),
    ("timeUnixNano", u64Str (data.get "start_unix_nano"))], rfl, rfl⟩

include hF in
theorem gauge_bringsBack (h : GaugeSchema data) :
    ∃ body, seriesBody "gauge" data attrs ts = some body ∧
      BringsBack "gauge" data name unit attrs body := by
  have hdata : carriedData "gauge" data =
      .object [("value", .float ((Json.asF64 (Json.float ((data.getF64 "value").getD 0))).getD 0)),
        ("time_unix_nano", .nat (strU64 (some (u64Str (data.get "time_unix_nano")))))] := by
    rw [strU64_u64Str, h.asF64_value hF, Option.getD_some]
    rfl
  unfold BringsBack
  rw [hdata]
  exact ⟨_, rfl, .object [("attributes", .array attrs),
    ("asDouble", .float ((data.getF64 "value").getD 0)),
    ("timeUnixNano", u64Str (data.get "time_unix_nano"))], rfl, rfl⟩

include hF in
theorem seriesBody_bringsBack {kind : String} (h : DataSchema kind data) :
    ∃ body, seriesBody kind data attrs ts = some body ∧
      BringsBack kind data name unit attrs body := by
  cases h with
  | histogram h =>
    rcases h.layout with hlayout | hlayout
    · exact log2_bringsBack hF h hlayout
    · exact explicit_bringsBack hF h hlayout
  | counter h => exact counter_bringsBack
  | gauge h => exact gauge_bringsBack hF h

end Data

section Series

variable {F : Type} [F64 F] (hF : FloatCasts F) {s : Json F} {ts : UInt64}

def carriedAttrs (s : Json F) : List (String × Json F) :=
  (match s.getStr "source" with
    | some src => [("source", .string src)]
    | none => []) ++
  (match s.getStr "key" with
    | some key => [("key", .string key)]
    | none => [])

/-- A series as the bridge brings it back: its labels and its overflow flag are not
among the fields. -/
def carried (s : Json F) : Json F :=
  .object ([("name", .string ((s.getStr "name").getD "")),
    ("unit", .string ((s.getStr "unit").getD "")),
    ("kind", .string ((s.getStr "kind").getD ""))] ++ carriedAttrs s ++
    [("data", carriedData ((s.getStr "kind").getD "") ((s.get "data").getD .null))])

omit [F64 F] in
theorem carrySourceKey_eq {dp : Json F} (h : dp.get "attributes" = some (.array (seriesAttrs s))) :
    carrySourceKey dp = carriedAttrs s := by
  unfold carrySourceKey dpAttr carriedAttrs
  rw [h]
  unfold seriesAttrs
  cases s.getStr "source" <;> cases s.getStr "key" <;> rfl

include hF in
/-- A series of the schema survives the bridge, as carried. -/
theorem series_carried (h : SeriesSchema s) :
    ∃ m, seriesToMetric ts s = some m ∧ m.getStr "name" = s.getStr "name" ∧
      metricToSeries m = some (carried s) := by
  obtain ⟨name, hname⟩ := h.name
  obtain ⟨unit, hunit⟩ := h.unit
  obtain ⟨kind, data, hkind, hdata, hschema⟩ := h.data
  have hback : ∃ body, seriesBody kind data (seriesAttrs s) ts = some body ∧
      BringsBack kind data name unit (seriesAttrs s) body := seriesBody_bringsBack hF hschema
  obtain ⟨body, hbody, dp, hattrs, hmetric⟩ := hback
  refine ⟨exported name unit body, ?_, by rw [hname]; rfl, ?_⟩
  · simp only [seriesToMetric, hname, hunit, hkind, hdata, hbody, Option.bind_eq_bind,
      Option.bind_some, Option.getD_some]
    rfl
  · have hn : (exported name unit body).getStr "name" = some name := rfl
    have hu : (exported name unit body).getStr "unit" = some unit := rfl
    simp only [metricToSeries, hn, hu, hmetric, carrySourceKey_eq hattrs, Option.bind_eq_bind,
      Option.bind_some, Option.getD_some, carried, hname, hunit, hkind, hdata]
    rfl

end Series

end Assayist
