import Assayist.Spec.Contract

/-! OTLP export of a run and import of an OTLP document. -/

namespace Assayist

section Attributes

variable {F : Type}

def kvStr (key v : String) : Json F :=
  .object [("key", .string key), ("value", .object [("stringValue", .string v)])]

def kvInt (key : String) (v : ℤ) : Json F :=
  .object [("key", .string key), ("value", .object [("intValue", .string (toString v))])]

def kvBool (key : String) (v : Bool) : Json F :=
  .object [("key", .string key), ("value", .object [("boolValue", .bool v)])]

/-- `v as i64` on a `u64`. -/
def asI64Cast (v : UInt64) : ℤ := (BitVec.ofNat 64 v.toNat).toInt

/-- A `uint64` as a decimal string, "0" when missing. -/
def u64Str (v : Option (Json F)) : Json F :=
  .string (toString ((v.bind Json.asU64).getD 0).toNat)

/-- An attribute of a scalar of any type. -/
def anyKv [FloatText F] (key : String) (v : Json F) : Json F :=
  let any : Json F := match v with
    | .string s => .object [("stringValue", .string s)]
    | .bool b => .object [("boolValue", .bool b)]
    | .number (.float x) => .object [("doubleValue", .number (.float x))]
    | .number n => .object [("intValue", .string n.text)]
    | other => .object [("stringValue", .string other.text)]
  .object [("key", .string key), ("value", any)]

def attributesFrom [FloatText F] (v : Option (Json F)) : List (Json F) :=
  ((v.bind Json.asObject).getD []).map fun (k, x) => anyKv k x

end Attributes

section Export

variable {F : Type}

def resourceAttributes (run : AssayRun F) : List (Json F) :=
  let f := run.fingerprint
  let id := run.identity
  [kvStr "host.name" f.hostname, kvStr "os.version" f.kernelVersion,
    kvStr "os.description" f.osRelease, kvStr "host.cpu.model.name" f.cpuModel,
    kvInt "assayist.host.cpu_count_logical" f.cpuCountLogical.toNat,
    kvInt "assayist.host.cpu_count_physical" f.cpuCountPhysical.toNat,
    kvBool "assayist.host.smt_enabled" f.smtEnabled,
    kvStr "assayist.host.cpu_governor" f.cpuGovernor, kvStr "assayist.host.thp" f.thpSetting,
    kvInt "assayist.host.memory_bytes" (asI64Cast f.totalMemoryBytes),
    kvBool "assayist.host.kvm" f.kvmPresent, kvStr "assayist.run.tenancy" f.tenancy,
    kvStr "assayist.target_adapter" id.targetAdapter,
    kvStr "assayist.target_adapter_version" id.targetAdapterVersion,
    kvStr "assayist.workload_driver" id.workloadDriver,
    kvStr "assayist.workload_driver_version" id.workloadDriverVersion,
    kvStr "assayist.sut_git_sha" id.sutGitSha, kvStr "assayist.params_hash" id.paramsHash,
    kvStr "assayist.benchmark_def_sha" id.benchmarkDefSha,
    kvStr "assayist.grade" run.grade.asStr] ++
  (match run.outcome.bind (·.getStr "verdict") with
    | some v => [kvStr "assayist.gate.verdict" v]
    | none => [])

/-- The first span id under each name, over the spans from the `i`-th on. -/
def idByName (spanId : String → ℕ → String) : ℕ → List (Json F) → List (String × String)
  | _, [] => []
  | i, s :: ss =>
    let name := (s.getStr "name").getD ""
    (name, spanId name i) :: idByName spanId (i + 1) ss

/-- One exported span. `spanId name i` is the id hashed from the run id, the name and
the index. -/
def exportSpan [FloatText F] (runId : String) (spanId : String → ℕ → String)
    (ids : List (String × String)) (i : ℕ) (s : Json F) : Json F :=
  let name := (s.getStr "name").getD ""
  .object ([("traceId", .string runId), ("spanId", .string (spanId name i))] ++
    (match (s.getStr "parent").bind fun parent => ids.lookup parent with
      | some pid => [("parentSpanId", .string pid)]
      | none => []) ++
    [("name", .string name), ("kind", .nat 1),
      ("startTimeUnixNano", u64Str (s.get "start_unix_nano")),
      ("endTimeUnixNano", u64Str (s.get "end_unix_nano")),
      ("attributes", .array (attributesFrom (s.get "attributes")))])

/-- The export's spans. `hash` is the span-id hash of the run id, a name and an
index. -/
def exportSpans [FloatText F] (hash : String → String → ℕ → String) (run : AssayRun F) :
    List (Json F) :=
  let ids := idByName (hash run.runId) 0 run.spans
  run.spans.mapIdx (exportSpan run.runId (hash run.runId) ids)

variable [F64 F]

def countStrings (buckets : List ℤ) : Json F := .array (buckets.map fun b => .string (toString b))

/-- `data.sum` carried over when present. -/
def sumField (data : Json F) : List (String × Json F) :=
  match data.getF64 "sum" with
  | some s => [("sum", .float s)]
  | none => []

def histogramBody (data : Json F) (attrs : List (Json F)) (ts : UInt64) :
    Option (List (String × Json F)) :=
  let layout := (data.getStr "layout").getD "log2"
  let ts : Json F := .string (toString ts.toNat)
  let buckets := ((data.getArray "buckets").getD []).filterMap Json.asI64
  let head := [("attributes", .array attrs), ("timeUnixNano", ts),
    ("count", u64Str (data.get "count"))] ++ sumField data
  if layout = "log2" then
    let dp : Json F := .object (head ++ [("scale", .nat 0), ("zeroCount", .string "0"),
      ("positive", .object [("offset", .nat 0), ("bucketCounts", countStrings buckets)])])
    some [("exponentialHistogram", .object [("aggregationTemporality", .nat 2),
      ("dataPoints", .array [dp])])]
  else if layout = "explicit" then
    let bounds := ((data.getArray "explicit_bounds").getD []).filterMap Json.asF64
    let dp : Json F := .object (head ++ [("explicitBounds", .array (bounds.map Json.float)),
      ("bucketCounts", countStrings buckets)])
    some [("histogram", .object [("aggregationTemporality", .nat 2),
      ("dataPoints", .array [dp])])]
  else none

/-- The attributes of a series' data point: its source and its key. -/
def seriesAttrs (s : Json F) : List (Json F) :=
  (match s.getStr "source" with
    | some src => [kvStr "assayist.source" src]
    | none => []) ++
  (match s.getStr "key" with
    | some key => [kvStr "assayist.key" key]
    | none => [])

def seriesBody (kind : String) (data : Json F) (attrs : List (Json F)) (ts : UInt64) :
    Option (List (String × Json F)) :=
  if kind = "histogram" then histogramBody data attrs ts
  else if kind = "counter" then
    let dp : Json F := .object [("attributes", .array attrs), ("asInt", u64Str (data.get "value")),
      ("startTimeUnixNano", u64Str (data.get "start_unix_nano")),
      ("timeUnixNano", u64Str (data.get "start_unix_nano"))]
    some [("sum", .object [("isMonotonic", .bool true), ("aggregationTemporality", .nat 2),
      ("dataPoints", .array [dp])])]
  else if kind = "gauge" then
    let dp : Json F := .object [("attributes", .array attrs),
      ("asDouble", .float ((data.getF64 "value").getD 0)),
      ("timeUnixNano", u64Str (data.get "time_unix_nano"))]
    some [("gauge", .object [("dataPoints", .array [dp])])]
  else none

def seriesToMetric (ts : UInt64) (s : Json F) : Option (Json F) := do
  let name ← s.getStr "name"
  let unit := (s.getStr "unit").getD ""
  let kind ← s.getStr "kind"
  let data ← s.get "data"
  let body ← seriesBody kind data (seriesAttrs s) ts
  pure (.object ([("name", .string name), ("unit", .string unit)] ++ body))

/-- A probe's cost as two metrics. -/
def probeMetrics (ts : UInt64) (pm : Json F) : List (Json F) :=
  let ts : Json F := .string (toString ts.toNat)
  let attrs : List (Json F) :=
    (match pm.getStr "probe_id" with
      | some pid => [kvStr "assayist.probe.id" pid]
      | none => []) ++
    (match pm.getStr "attach_kind" with
      | some ak => [kvStr "assayist.probe.attach_kind" ak]
      | none => []) ++
    (match pm.getBool "over_budget" with
      | some ob => [kvBool "assayist.probe.over_budget" ob]
      | none => [])
  [.object [("name", .string "assayist.probe.steady_cpu_fraction"), ("unit", .string "1"),
      ("gauge", .object [("dataPoints", .array [.object [("attributes", .array attrs),
        ("asDouble", .float ((pm.getF64 "steady_cpu_fraction").getD 0)),
        ("timeUnixNano", ts)]])])],
    .object [("name", .string "assayist.probe.run_time_ns"), ("unit", .string "ns"),
      ("sum", .object [("isMonotonic", .bool true), ("aggregationTemporality", .nat 2),
        ("dataPoints", .array [.object [("attributes", .array attrs),
          ("asInt", u64Str (pm.get "run_time_ns")), ("timeUnixNano", ts)]])])]]

def exportMetrics (run : AssayRun F) (ts : UInt64) : List (Json F) :=
  run.series.filterMap (seriesToMetric ts) ++ run.selfMetrics.flatMap (probeMetrics ts)

variable [FloatText F]

/-- Both signals of a run in one document. -/
def exportAt (hash : String → String → ℕ → String) (run : AssayRun F) (ts : UInt64) : Json F :=
  let resource : Json F := .object [("attributes", .array (resourceAttributes run))]
  let scope : Json F := .object [("name", .string "assayist")]
  .object
    [("resourceSpans", .array [.object [("resource", resource),
        ("scopeSpans", .array [.object [("scope", scope),
          ("spans", .array (exportSpans hash run))]])]]),
     ("resourceMetrics", .array [.object [("resource", resource),
        ("scopeMetrics", .array [.object [("scope", scope),
          ("metrics", .array (exportMetrics run ts))]])]])]

end Export

section Readers

variable {F : Type}

/-- `v.get(i)` on an array. -/
def item (v : Json F) (i : ℕ) : Option (Json F) := v.asArray.bind (·[i]?)

def attrVal (attrs : Json F) (key : String) : Option (Json F) :=
  attrs.asArray.bind fun xs =>
    (xs.find? fun a => (a.index "key").asStr == some key).map (·.index "value")

def attrStr (attrs : Json F) (key : String) : Option String :=
  (attrVal attrs key).bind (·.getStr "stringValue")

/-- `s.parse::<i64>()`. -/
def readI64 (s : String) : Option ℤ :=
  match s.toList with
  | '-' :: ds =>
    if ds.isEmpty then none
    else (digitsValue ds 0).bind fun n => if n ≤ 2 ^ 63 then some (-(n : ℤ)) else none
  | _ => (parseU64 s).bind fun n => if n.toNat < 2 ^ 63 then some n.toNat else none

def attrInt (attrs : Json F) (key : String) : Option ℤ :=
  ((attrVal attrs key).bind (·.get "intValue")).bind fun v =>
    (v.asStr.bind readI64).or v.asI64

def attrBool (attrs : Json F) (key : String) : Option Bool :=
  (attrVal attrs key).bind (·.getBool "boolValue")

/-- A `u64` from a decimal string or a number, 0 when it is neither. -/
def strU64 (v : Option (Json F)) : UInt64 :=
  (v.bind fun x => (x.asStr.bind parseU64).or x.asU64).getD 0

def strArrayU64 (v : Option (Json F)) : List UInt64 :=
  ((v.bind Json.asArray).getD []).map fun x => strU64 (some x)

def dpAttr (dp : Json F) (key : String) : Option String :=
  (dp.get "attributes").bind fun attrs => attrStr attrs key

/-- The plain value of an attribute. -/
def plainValue [F64 F] (v : Option (Json F)) : Json F :=
  match v.bind (·.getStr "stringValue") with
  | some s => .string s
  | none =>
    match v.bind (·.getBool "boolValue") with
    | some b => .bool b
    | none =>
      match v.bind (·.getF64 "doubleValue") with
      | some d => .float d
      | none =>
        match (v.bind (·.get "intValue")).bind fun i => i.asStr.bind readI64 with
        | some n => if n < 0 then .number (.negInt n) else .nat (.ofNat n.toNat)
        | none => .null

/-- An attribute list as an object. -/
def kvListToObject [F64 F] (v : Option (Json F)) : List (String × Json F) :=
  ((v.bind Json.asArray).getD []).foldl (fun m kv =>
    match kv.getStr "key" with
    | some k => sortedInsert m k (plainValue (kv.get "value"))
    | none => m) []
where
  /-- Insertion into a map kept in key order. -/
  sortedInsert (m : List (String × Json F)) (k : String) (v : Json F) : List (String × Json F) :=
    match m with
    | [] => [(k, v)]
    | (l, w) :: m =>
      if k = l then (k, v) :: m
      else if k < l then (k, v) :: (l, w) :: m
      else (l, w) :: sortedInsert m k v

end Readers

section Import

variable {F : Type}

/-- The arrays two levels down: every `inner` list of every `outer` entry. -/
def nested (doc : Json F) (outer middle inner : String) : List (Json F) :=
  ((doc.getArray outer).getD []).flatMap fun r =>
    ((r.getArray middle).getD []).flatMap fun s => (s.getArray inner).getD []

/-- The name under each span id, the last one winning. -/
def nameById (raw : List (Json F)) (id : String) : Option String :=
  (raw.reverse.filterMap fun s => match s.getStr "spanId", s.getStr "name" with
    | some i, some n => some (i, n)
    | _, _ => none).lookup id

variable [F64 F]

/-- One imported span, without the private carrier of the run id. -/
def importSpan (raw : List (Json F)) (s : Json F) : Json F :=
  let attrs := kvListToObject (s.get "attributes")
  .object ([("name", (s.get "name").getD .null),
    ("start_unix_nano", .nat (strU64 (s.get "startTimeUnixNano"))),
    ("end_unix_nano", .nat (strU64 (s.get "endTimeUnixNano")))] ++
    (match (s.getStr "parentSpanId").bind (nameById raw) with
      | some name => [("parent", .string name)]
      | none => []) ++
    (if attrs.isEmpty then [] else [("attributes", .object attrs)]))

def importSpans (doc : Json F) : List (Json F) :=
  let raw := nested doc "resourceSpans" "scopeSpans" "spans"
  raw.map (importSpan raw)

/-- The source and key an exported data point carries. -/
def carrySourceKey (dp : Json F) : List (String × Json F) :=
  (match dpAttr dp "assayist.source" with
    | some src => [("source", .string src)]
    | none => []) ++
  (match dpAttr dp "assayist.key" with
    | some key => [("key", .string key)]
    | none => [])

def dpSum (dp : Json F) : List (String × Json F) :=
  match dp.getF64 "sum" with
  | some s => [("sum", .float s)]
  | none => []

/-- The first data point of a metric body. -/
def firstPoint (body : Json F) : Option (Json F) := (body.get "dataPoints").bind (item · 0)

def natArray (xs : List UInt64) : Json F := .array (xs.map .nat)

/-- The kind, data point and data of a metric, by the first body it has. -/
def metricData (m : Json F) : Option (String × Json F × Json F) :=
  match m.get "exponentialHistogram" with
  | some eh => do
    let dp ← firstPoint eh
    let buckets := strArrayU64 ((dp.get "positive").bind (·.get "bucketCounts"))
    pure ("histogram", dp, .object ([("layout", .string "log2"), ("buckets", natArray buckets),
      ("count", .nat (strU64 (dp.get "count")))] ++ dpSum dp))
  | none =>
    match m.get "histogram" with
    | some h => do
      let dp ← firstPoint h
      pure ("histogram", dp, .object ([("layout", .string "explicit"),
        ("buckets", natArray (strArrayU64 (dp.get "bucketCounts"))),
        ("explicit_bounds", (dp.get "explicitBounds").getD (.array [])),
        ("count", .nat (strU64 (dp.get "count")))] ++ dpSum dp))
    | none =>
      match m.get "sum" with
      | some s => do
        let dp ← firstPoint s
        pure ("counter", dp, .object [("value", .nat (strU64 (dp.get "asInt"))),
          ("start_unix_nano", .nat (strU64 (dp.get "timeUnixNano")))])
      | none => do
        let g ← m.get "gauge"
        let dp ← firstPoint g
        pure ("gauge", dp, .object [("value", .float ((dp.getF64 "asDouble").getD 0)),
          ("time_unix_nano", .nat (strU64 (dp.get "timeUnixNano")))])

def metricToSeries (m : Json F) : Option (Json F) := do
  let name ← m.getStr "name"
  let unit := (m.getStr "unit").getD ""
  let (kind, dp, data) ← metricData m
  pure (.object ([("name", .string name), ("unit", .string unit), ("kind", .string kind)] ++
    carrySourceKey dp ++ [("data", data)]))

/-- Probe-cost metrics are not series. -/
def importSeries (doc : Json F) : List (Json F) :=
  (nested doc "resourceMetrics" "scopeMetrics" "metrics").filterMap fun m =>
    if startsWith ((m.getStr "name").getD "") "assayist.probe." then none else metricToSeries m

def importAttrs (doc : Json F) : Json F :=
  (((doc.get "resourceSpans").bind (item · 0)).or
    ((doc.get "resourceMetrics").bind (item · 0))).elim (.array [])
    fun r => (r.index "resource").index "attributes"

/-- `n as u32` and `n as u64` on an `i64`. -/
def castU32 (n : ℤ) : UInt32 := UInt32.ofNat (n % 2 ^ 32).toNat

def castU64 (n : ℤ) : UInt64 := UInt64.ofNat (n % 2 ^ 64).toNat

/-- The run id: the trace id of the first span. -/
def importRunId (doc : Json F) : String :=
  ((nested doc "resourceSpans" "scopeSpans" "spans").head?.bind (·.getStr "traceId")).getD ""

/-- Import an OTLP document. The run grades `valid`. -/
def importRun (doc : Json F) : AssayRun F :=
  let attrs := importAttrs doc
  let str (key default : String) : String := (attrStr attrs key).getD default
  let run : AssayRun F :=
    { schemaVersion := schemaVersion
      runId := importRunId doc
      identity :=
        { targetAdapter := str "assayist.target_adapter" "unknown"
          targetAdapterVersion := str "assayist.target_adapter_version" "unknown"
          workloadDriver := str "assayist.workload_driver" "unknown"
          workloadDriverVersion := str "assayist.workload_driver_version" "unknown"
          sutGitSha := str "assayist.sut_git_sha" "unknown"
          params := .object []
          paramsHash := str "assayist.params_hash" ""
          benchmarkDefSha := str "assayist.benchmark_def_sha" ""
          source := "imported" }
      fingerprint :=
        { hostname := str "host.name" ""
          kernelVersion := str "os.version" ""
          osRelease := str "os.description" ""
          cpuModel := str "host.cpu.model.name" ""
          cpuCountLogical := castU32 ((attrInt attrs "assayist.host.cpu_count_logical").getD 0)
          cpuCountPhysical := castU32 ((attrInt attrs "assayist.host.cpu_count_physical").getD 0)
          smtEnabled := (attrBool attrs "assayist.host.smt_enabled").getD false
          cpuGovernor := str "assayist.host.cpu_governor" "unknown"
          thpSetting := str "assayist.host.thp" "unknown"
          totalMemoryBytes := castU64 ((attrInt attrs "assayist.host.memory_bytes").getD 0)
          kvmPresent := (attrBool attrs "assayist.host.kvm").getD false
          tenancy := str "assayist.run.tenancy" "single_tenant"
          tuningRequested := .object []
          tuningReadback := .object []
          numaTopology := none
          pinningLayout := none
          mitigations := none
          microcodeVersion := none
          nestedVirt := none }
      spans := importSpans doc
      series := importSeries doc
      selfMetrics := []
      gate := .object []
      outcome := none
      workloadReport := none
      grade := .invalid }
  { run with grade := run.computeGrade false }

end Import

end Assayist
