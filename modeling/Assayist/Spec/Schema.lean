import Assayist.Spec.Reduce

/-! What the run schema asks of the fields of a series and of a span that the gate and
the OTLP bridge read. -/

namespace Assayist

section Schema

variable {F : Type} [F64 F]

/-- A number as a JSON parser leaves it: a negative integer fits an `i64`, and a float is
finite. -/
def Number.parsed : Number F → Prop
  | .posInt _ => True
  | .negInt n => -2 ^ 63 ≤ n ∧ n < 0
  | .float x => F64.isFinite x = true

/-- `{ "type": "number" }`. -/
def isNumber (v : Json F) : Prop := ∃ n : Number F, v = .number n ∧ n.parsed

/-- `{ "type": "integer", "minimum": 0 }`, which a float without a fraction meets too. -/
def isCount (v : Json F) : Prop :=
  (∃ n, v = .nat n) ∨ ∃ (x : F) (n : ℕ), v = .number (.float x) ∧ F64.isFinite x = true ∧ x = n

/-- `$defs/HistogramData`, with bucket counts below `2 ^ 63`. -/
structure HistogramSchema (data : Json F) : Prop where
  layout : data.getStr "layout" = some "log2" ∨ data.getStr "layout" = some "explicit"
  buckets : ∃ bs, data.get "buckets" = some (.array bs) ∧
    ∀ b ∈ bs, isCount b ∧ ∀ n, b = .nat n → n.toNat < 2 ^ 63
  bounds : ∀ v, data.get "explicit_bounds" = some v → ∃ bs, v = .array bs ∧ ∀ b ∈ bs, isNumber b
  sum : ∀ v, data.get "sum" = some v → isNumber v
  count : ∃ v, data.get "count" = some v ∧ isCount v

/-- `$defs/CounterData`. -/
structure CounterSchema (data : Json F) : Prop where
  value : ∃ v, data.get "value" = some v ∧ isCount v

/-- `$defs/GaugeData`. -/
structure GaugeSchema (data : Json F) : Prop where
  value : ∃ v, data.get "value" = some v ∧ isNumber v

/-- `data` under the schema that its series' kind selects. -/
inductive DataSchema : String → Json F → Prop where
  | histogram {data : Json F} (h : HistogramSchema data) : DataSchema "histogram" data
  | counter {data : Json F} (h : CounterSchema data) : DataSchema "counter" data
  | gauge {data : Json F} (h : GaugeSchema data) : DataSchema "gauge" data

/-- `$defs/MetricSeries`. -/
structure SeriesSchema (s : Json F) : Prop where
  name : ∃ name, s.getStr "name" = some name
  unit : ∃ unit, s.getStr "unit" = some unit
  source : ∃ source, s.getStr "source" = some source
  labels : ∀ v, s.get "labels" = some v → ∃ m, v = .object m
  data : ∃ kind data, s.getStr "kind" = some kind ∧ s.get "data" = some data ∧
    DataSchema kind data

/-- `$defs/LifecycleSpan`. -/
structure SpanSchema (sp : Json F) : Prop where
  name : ∃ name, sp.getStr "name" = some name
  start : ∃ v, sp.get "start_unix_nano" = some v ∧ isCount v
  stop : ∃ v, sp.get "end_unix_nano" = some v ∧ isCount v

end Schema

end Assayist
