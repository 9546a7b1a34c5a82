import Assayist.Spec.Json
import Assayist.Spec.Stats

/-! Reducing a run to scalar metrics: histograms become mean, p50 and p99,
counters a value and a rate, gauges a value, spans a duration, and the workload
report its numeric leaves. -/

namespace Assayist

inductive Polarity where
  | lowerBetter
  | higherBetter
  | unknown
  deriving DecidableEq, Repr

structure Metric (F : Type) where
  id : String
  value : F
  contaminated : Bool
  polarity : Polarity

def polarityOf (id unit : String) : Polarity :=
  let l := toLowercase id
  if contains l "bytes" || contains l "packets" || contains l "throughput" || contains l "iops"
      || unit == "By" then .higherBetter
  else if contains l "mem_consumed" || contains l "memory_consumed" || contains l "rss" then
    .lowerBetter
  else if contains l "on_cpu" || contains l "utilis" || contains l "cpu_ns" then .unknown
  else if unit == "ns" || unit == "us" || unit == "ms" || unit == "s" then .lowerBetter
  else .unknown

section Flatten

variable {F : Type} [F64 F]

mutual

/-- Every numeric leaf of a JSON value, keyed by its dotted path. -/
def flattenNumbers (path : String) : Json F → List (String × F)
  | .object m => flattenFields path m
  | .number n => [(path, n.asF64)]
  | _ => []

def flattenFields (path : String) : List (String × Json F) → List (String × F)
  | [] => []
  | (k, v) :: m =>
    flattenNumbers (if path.isEmpty then k else path ++ "." ++ k) v ++ flattenFields path m

end

def u64s (v : Json F) : List UInt64 := (v.asArray.getD []).filterMap Json.asU64

def f64s (v : Json F) : List F := (v.asArray.getD []).filterMap Json.asF64

end Flatten

section Labels

variable {F : Type} [FloatText F]

def scalarToString : Json F → String
  | .string s => s
  | other => other.text

/-- Canonical suffix for a series' labels, sorted by label key. -/
def labelsSuffix (labels : Option (Json F)) : String :=
  match labels.bind Json.asObject with
  | none => ""
  | some obj =>
    let pairs := obj.map fun (k, v) => (k, scalarToString v)
    let pairs := pairs.mergeSort fun a b => decide (a.1 ≤ b.1)
    pairs.foldl (fun s (k, v) => s ++ ("|" ++ k ++ "=" ++ v)) ""

end Labels

section Series

variable {F : Type}

/-- The probe ids that reported `over_budget`. -/
def overbudgetSources (run : Json F) : List String :=
  ((run.getArray "self_metrics").getD []).filterMap fun pc =>
    if (pc.getBool "over_budget").getD false then pc.getStr "probe_id" else none

variable [F64 F]

def windowNs (run : Json F) : Option F := (run.get "capture_meta").bind (·.getF64 "window_ns")

def globalOverflow (run : Json F) : Bool :=
  ((run.get "capture_meta").bind (·.getBool "cardinality_overflow")).getD false

/-- What every metric of a series shares: the id up to its last field, the unit
its polarity is read from, and the contamination flag. -/
structure SeriesHead where
  base : String
  unit : String
  contaminated : Bool

def SeriesHead.metric (h : SeriesHead) (field : String) (value : F) : Metric F :=
  { id := h.base ++ "|" ++ field, value, contaminated := h.contaminated
    polarity := polarityOf (h.base ++ "|" ++ field) h.unit }

def seriesHead [FloatText F] (overbudget : List String) (overflow : Bool) (s : Json F) : SeriesHead :=
  let name := (s.getStr "name").getD ""
  let source := (s.getStr "source").getD ""
  let base := match s.getStr "key" with
    | some k => name ++ "|" ++ k
    | none => name
  { base := base ++ labelsSuffix (s.get "labels")
    unit := (s.getStr "unit").getD ""
    contaminated := overbudget.contains source || (s.getBool "cardinality_overflow").getD false
      || overflow }

/-- The midpoint-weighted total of an explicit histogram, from bucket `i`. -/
def explicitWeighted (bounds : List F) : ℕ → F → List UInt64 → Except Abort F
  | _, acc, [] => pure acc
  | i, acc, b :: bs => do
    let (lo, hi) ← explicitEdges bounds i
    explicitWeighted bounds (i + 1) (acc + (b.toNat : F) * (lo + hi) / 2) bs

variable [Build]

def explicitMean (buckets : List UInt64) (bounds : List F) : Except Abort F := do
  let total ← sumU64 buckets
  if total = 0 then pure 0
  else
    let acc ← explicitWeighted bounds 0 0 buckets
    pure (acc / (total.toNat : F))

/-- The exact mean of a log2 histogram that carries `sum` and a positive `count`,
the bucket estimate otherwise. -/
def log2MeanOf (data : Json F) (buckets : List UInt64) : Except Abort F :=
  match data.getF64 "sum", data.getF64 "count" with
  | some s, some c => if 0 < c then pure (s / c) else log2Mean buckets
  | _, _ => log2Mean buckets

/-- Mean, p50 and p99 of a histogram's `data`. -/
def histogramStats (data : Json F) : Except Abort (F × F × F) := do
  let layout := (data.getStr "layout").getD "log2"
  let buckets := u64s ((data.get "buckets").getD .null)
  if layout == "explicit" then
    let bounds := f64s ((data.get "explicit_bounds").getD .null)
    let m ← explicitMean buckets bounds
    let p50 ← explicitPercentile buckets bounds (1 / 2)
    let p99 ← explicitPercentile buckets bounds (99 / 100)
    pure (m, p50, p99)
  else
    let m ← log2MeanOf data buckets
    let p50 ← log2Percentile buckets (1 / 2)
    let p99 ← log2Percentile buckets (99 / 100)
    pure (m, p50, p99)

/-- The metrics of one series, by its kind. -/
def seriesMetrics [FloatText F] (overbudget : List String) (overflow : Bool) (win : Option F)
    (s : Json F) : Except Abort (List (Metric F)) :=
  let h := seriesHead overbudget overflow s
  match s.get "data" with
  | none => pure []
  | some data =>
    let kind := (s.getStr "kind").getD ""
    if kind == "histogram" then do
      let (m, p50, p99) ← histogramStats data
      pure [h.metric "mean" m, h.metric "p50" p50, h.metric "p99" p99]
    else if kind == "counter" then
      let value := (data.getF64 "value").getD 0
      match win with
      | some w =>
        if 0 < w then
          pure [h.metric "value" value, h.metric "rate" (value / w * ((10 ^ 9 : ℕ) : F))]
        else pure [h.metric "value" value]
      | none => pure [h.metric "value" value]
    else if kind == "gauge" then
      pure [h.metric "value" ((data.getF64 "value").getD 0)]
    else pure []

end Series

section Reduce

variable {F : Type} [F64 F]

/-- The unit a workload report's key names in its ending. -/
def reportUnit (k : String) : String :=
  if endsWith k "_ns" then "ns" else if endsWith k "_us" then "us"
  else if endsWith k "_ms" then "ms" else ""

def workloadMetrics (run : Json F) : List (Metric F) :=
  match run.get "workload_report" with
  | none => []
  | some rep => (flattenNumbers "" rep).map fun (k, n) =>
    { id := "workload:" ++ k, value := n, contaminated := false
      polarity := polarityOf ("workload:" ++ k) (reportUnit k) }

def spanMetric (sp : Json F) : Option (Metric F) :=
  match sp.getF64 "start_unix_nano", sp.getF64 "end_unix_nano" with
  | some s, some e => some
    { id := "span:" ++ (sp.getStr "name").getD "" ++ "|dur", value := e - s
      contaminated := false, polarity := .lowerBetter }
  | _, _ => none

def spanMetrics (run : Json F) : List (Metric F) :=
  ((run.getArray "spans").getD []).filterMap spanMetric

variable [FloatText F] [Build]

/-- The metrics of the `series` array, in order. -/
def runSeriesMetrics (run : Json F) : Except Abort (List (Metric F)) :=
  List.flatten <$> ((run.getArray "series").getD []).mapM
    (seriesMetrics (overbudgetSources run) (globalOverflow run) (windowNs run))

def reduce (run : Json F) : Except Abort (List (Metric F)) := do
  let ms ← runSeriesMetrics run
  pure (ms ++ workloadMetrics run ++ spanMetrics run)

end Reduce

end Assayist
