import Assayist.Spec.Reduce
import Std.Data.TreeMap

/-! The decision gate: collecting samples by metric across a group of runs, the
admission check, and the three modes. -/

namespace Assayist

structure Config (F : Type) where
  pThreshold : F
  noiseThreshold : F
  minEffect : F
  resamples : ℕ
  driftK : F
  seed : UInt64
  ignore : List String
  allowUngraded : Bool
  strictSingleCell : Bool

def Config.default {F : Type} [F64 F] : Config F where
  pThreshold := 1 / 100
  noiseThreshold := 5 / 100
  minEffect := 5 / 100
  resamples := 10000
  driftK := 3
  seed := 0xA55A1571D0000001
  ignore := []
  allowUngraded := false
  strictSingleCell := false

section Runs

variable {F : Type}

def gradeOf (run : Json F) : String :=
  match run.getStr "grade" with
  | some g => g
  | none =>
    match run.get "fingerprint" with
    | none => "invalid"
    | some fp =>
      let core := ["kernel_version", "cpu_model", "tenancy", "cpu_governor"]
      if core.all fun k => ((fp.get k).map fun v => !v.isNull).getD false then "valid"
      else "invalid"

def tenancyOf (run : Json F) : Option String :=
  (run.get "fingerprint").bind (·.getStr "tenancy")

def paramsHash (run : Json F) : String :=
  ((run.get "identity").bind (·.getStr "params_hash")).getD "_"

end Runs

/-- Per-metric samples across a group of runs, with contamination, polarity and
the parameterisation cells seen. -/
structure Group (F : Type) where
  samples : Std.TreeMap String (List F)
  contaminated : Std.TreeMap String Bool
  polarity : Std.TreeMap String Polarity
  cells : Std.TreeMap String (List String)

section Collect

variable {F : Type}

def Group.empty : Group F := ⟨∅, ∅, ∅, ∅⟩

def Group.push (cell : String) (g : Group F) (m : Metric F) : Group F where
  samples := g.samples.alter m.id fun v => some (v.getD [] ++ [m.value])
  contaminated := g.contaminated.alter m.id fun c => some (c.getD false || m.contaminated)
  polarity := g.polarity.alter m.id fun p => some (p.getD m.polarity)
  cells := g.cells.alter m.id fun cs =>
    some (if (cs.getD []).contains cell then cs.getD [] else cs.getD [] ++ [cell])

variable [F64 F] [FloatText F] [Build]

def collectRun (g : Group F) (run : Json F) : Except Abort (Group F) := do
  let ms ← reduce run
  pure (ms.foldl (Group.push (paramsHash run)) g)

def collect (runs : List (Json F)) : Except Abort (Group F) := runs.foldlM collectRun Group.empty

end Collect

section Admission

variable {F : Type}

def ungradedError (label grade : String) : String :=
  label ++ " run grade is '" ++ grade ++
    "', not 'reproducible'; pass --allow-ungraded to override"

def ungradedNote (label grade : String) : String :=
  label ++ " run admitted at grade '" ++ grade ++ "' (--allow-ungraded)"

/-- The admission of one run: its note and its tenancy are added to what the runs
before it left. -/
def admitRun (cfg : Config F) (label : String) (acc : List String × List String) (run : Json F) :
    Except Abort (List String × List String) :=
  let g := gradeOf run
  if g ≠ "reproducible" ∧ cfg.allowUngraded = false then
    .error (.error (ungradedError label g))
  else
    .ok (if g ≠ "reproducible" then acc.1 ++ [ungradedNote label g] else acc.1,
      acc.2 ++ (tenancyOf run).toList)

/-- Adjacent duplicates removed, as `Vec::dedup` does. -/
def dedup (xs : List String) : List String := xs.destutter (· ≠ ·)

def crossTenancyError (classes : List String) : String :=
  "refusing to compare across tenancy classes: " ++ debugList classes

/-- Whether two groups are fit for a gated comparison: the notes, or the first
inadmissible run, or the tenancy classes that differ. -/
def validate (a b : List (Json F)) (cfg : Config F) : Except Abort (List String) := do
  let acc ← a.foldlM (admitRun cfg "A") ([], [])
  let (notes, tenancies) ← b.foldlM (admitRun cfg "B") acc
  let classes := dedup (tenancies.mergeSort fun s t => decide (s ≤ t))
  if 1 < classes.length then .error (.error (crossTenancyError classes)) else .ok notes

end Admission

inductive Verdict where
  | pass
  | fail
  | contaminated
  deriving DecidableEq, Repr

def Verdict.asStr : Verdict → String
  | .pass => "pass"
  | .fail => "fail"
  | .contaminated => "contaminated"

inductive Status where
  | ignored
  | contaminated
  | stable
  | regressed
  | improved
  | changed
  deriving DecidableEq, Repr

def Status.asStr : Status → String
  | .ignored => "ignored"
  | .contaminated => "contaminated"
  | .stable => "stable"
  | .regressed => "regressed"
  | .improved => "improved"
  | .changed => "changed"

/-- One `per_metric` entry of an outcome. -/
structure MetricOutcome (F : Type) where
  delta : F
  p : F
  significant : Bool
  noisy : Bool

structure Outcome (F : Type) where
  verdict : Verdict
  perMetric : List (String × MetricOutcome F)
  notes : List String

section Ab

variable {F : Type} [F64 F]

def badDirection (pol : Polarity) (relDelta : F) : Option Bool :=
  match pol with
  | .lowerBetter => some (decide (0 < relDelta))
  | .higherBetter => some (decide (relDelta < 0))
  | .unknown => none

/-- The relative delta, read as full away from a zero mean. -/
def relDelta (ma mb : F) : F :=
  if !(ma == 0) then (mb - ma) / ma else if mb == 0 then 0 else 1

def ignored (cfg : Config F) (id : String) : Bool := cfg.ignore.any fun pat => contains id pat

/-- A metric as `ab` judged it. -/
structure AbDetail (F : Type) where
  id : String
  status : Status
  meanA : F
  meanB : F
  relDelta : F
  p : F
  significant : Bool
  noisy : Bool
  cov : F
  nA : ℕ
  nB : ℕ
  cells : List String

/-- The status of a compared metric. -/
def abStatus (isIgnored isContaminated significant strong noisy : Bool) (bad : Option Bool) :
    Status :=
  if isIgnored then .ignored
  else if isContaminated then .contaminated
  else if !significant || !strong || noisy then .stable
  else match bad with
    | some true => .regressed
    | some false => .improved
    | none => .changed

/-- The loop body of `ab` for one metric of A, `none` when it is not comparable. -/
def abJudge (cfg : Config F) (ga gb : Group F) (id : String) (avals : List F) :
    Option (AbDetail F) :=
  match gb.samples[id]? with
  | none => none
  | some bvals =>
    if avals.length < 2 ∨ bvals.length < 2 then none
    else
      let contaminated := (ga.contaminated[id]?).getD false || (gb.contaminated[id]?).getD false
      let ma := mean avals
      let mb := mean bvals
      let rel := relDelta ma mb
      let p := permutationP avals bvals cfg.resamples cfg.seed
      let cov := withinCov avals bvals
      let significant := decide (p < cfg.pThreshold)
      let strong := decide (cfg.minEffect ≤ F64.abs rel)
      let noisy := decide (cfg.noiseThreshold < cov)
      let pol := (ga.polarity[id]?).getD .unknown
      some
        { id, meanA := ma, meanB := mb, relDelta := rel, p, significant, noisy, cov
          nA := avals.length, nB := bvals.length, cells := (ga.cells[id]?).getD []
          status := abStatus (ignored cfg id) contaminated significant strong noisy
            (badDirection pol rel) }

structure AbReport (F : Type) where
  outcome : Outcome F
  detail : List (AbDetail F)

def AbDetail.outcome (d : AbDetail F) : String × MetricOutcome F :=
  (d.id, { delta := d.relDelta, p := d.p, significant := d.significant, noisy := d.noisy })

def nothingComparableError (na nb : ℕ) : String :=
  "no metric was comparable: no series appears in both groups with at least two samples per " ++
  "group (A has " ++ toString na ++ " series, B has " ++ toString nb ++
  "). A comparison this small cannot be gated; add more repeats per group."

def singleCellNote (ids : List String) : String :=
  "regressions in a single parameterisation cell (possible noise): " ++ debugList ids ++
  "; verdict is fail but confirm across cells or pass --strict-single-cell to treat as definitive"

/-- The verdict over the judged metrics: contamination wins, then a regression. -/
def abVerdict (detail : List (AbDetail F)) : Verdict :=
  if detail.any fun d => d.status = .contaminated then .contaminated
  else if detail.any fun d => d.status = .regressed then .fail
  else .pass

def singleCellRegressions (detail : List (AbDetail F)) : List String :=
  (detail.filter fun d => d.status = .regressed ∧ d.cells.length < 2).map (·.id)

def abNotes (cfg : Config F) (notes : List String) (detail : List (AbDetail F)) : List String :=
  let single := singleCellRegressions detail
  if abVerdict detail = .fail ∧ single ≠ [] ∧ cfg.strictSingleCell = false then
    notes ++ [singleCellNote single]
  else notes

variable [FloatText F] [Build]

def ab (a b : List (Json F)) (cfg : Config F) : Except Abort (AbReport F) := do
  let notes ← validate a b cfg
  let ga ← collect a
  let gb ← collect b
  let detail := ga.samples.toList.filterMap fun (id, avals) => abJudge cfg ga gb id avals
  if detail.isEmpty then
    throw (.error (nothingComparableError ga.samples.size gb.samples.size))
  pure
    { outcome :=
        { verdict := abVerdict detail, perMetric := detail.map AbDetail.outcome
          notes := abNotes cfg notes detail }
      detail }

end Ab

inductive DriftStatus where
  | driftBad
  | drift
  | trending
  | stable
  deriving DecidableEq, Repr

def DriftStatus.asStr : DriftStatus → String
  | .driftBad => "drift_bad"
  | .drift => "drift"
  | .trending => "trending"
  | .stable => "stable"

section Drift

variable {F : Type} [F64 F]

/-- A metric as `drift` judged it. -/
structure DriftDetail (F : Type) where
  id : String
  status : DriftStatus
  baseMean : F
  baseStd : F
  candMean : F
  relDelta : F
  drifted : Bool
  slope : F
  slopeStderr : F

/-- Unlike `ab`, a shift away from a zero baseline mean counts as none. -/
def driftRel (baseMean candMean : F) : F :=
  if !(baseMean == 0) then (candMean - baseMean) / baseMean else 0

def driftStatus (drifted bad trending : Bool) : DriftStatus :=
  if drifted && bad then .driftBad
  else if drifted then .drift
  else if trending then .trending
  else .stable

/-- The loop body of `drift` for one baseline metric, `none` when it is skipped. -/
def driftJudge (cfg : Config F) (gb gc : Group F) (id : String) (baseVals : List F) :
    Option (DriftDetail F) :=
  match gc.samples[id]? with
  | none => none
  | some candVals =>
    if baseVals.length < 2 ∨ candVals.length < 2 then none
    else if ignored cfg id then none
    else
      let baseMean := mean baseVals
      let baseStd := stddev baseVals
      let candMean := mean candVals
      let rel := driftRel baseMean candMean
      let levelShift :=
        if 0 < baseStd then decide (cfg.driftK * baseStd < F64.abs (candMean - baseMean))
        else decide (cfg.minEffect ≤ F64.abs rel)
      let (slope, stderr) := linregSlopeStderr candVals
      let trending := decide (0 < stderr) && decide (2 < F64.abs (slope / stderr))
      let pol := (gb.polarity[id]?).getD .unknown
      let drifted := levelShift && decide (cfg.minEffect ≤ F64.abs rel)
      let bad := (badDirection pol rel).getD false
      some
        { id, baseMean, baseStd, candMean, relDelta := rel, drifted, slope, slopeStderr := stderr
          status := driftStatus drifted bad trending }

structure DriftReport (F : Type) where
  outcome : Outcome F
  detail : List (DriftDetail F)

def DriftDetail.outcome (d : DriftDetail F) : String × MetricOutcome F :=
  (d.id, { delta := d.relDelta, p := 0, significant := d.drifted, noisy := false })

def nothingDriftedError (nb nc : ℕ) : String :=
  "no metric was comparable: no series appears in both baseline and candidate with at least two " ++
  "samples each (baseline has " ++ toString nb ++ " series, candidate has " ++ toString nc ++
  "). Add more samples per side."

def driftVerdict (detail : List (DriftDetail F)) : Verdict :=
  if detail.any fun d => d.status = .driftBad then .fail else .pass

variable [FloatText F] [Build]

/-- The drift mode. It reads both groups without the admission check. -/
def drift (baseline candidate : List (Json F)) (cfg : Config F) :
    Except Abort (DriftReport F) := do
  let gb ← collect baseline
  let gc ← collect candidate
  let detail := gb.samples.toList.filterMap fun (id, vals) => driftJudge cfg gb gc id vals
  if detail.isEmpty then
    throw (.error (nothingDriftedError gb.samples.size gc.samples.size))
  let verdict := driftVerdict detail
  pure
    { outcome :=
        { verdict, perMetric := detail.map DriftDetail.outcome
          notes := if verdict = .pass then ["no bad-direction drift beyond band"] else [] }
      detail }

end Drift

section Triad

variable {F : Type} [F64 F]

/-- The overhead section of a triad report. -/
structure Overhead (F : Type) where
  verdict : Verdict
  worst : Std.TreeMap String F
  overBudget : List String

/-- One probe cost folded into the worst fractions and the over-budget probes. -/
def foldCost (acc : Std.TreeMap String F × List String) (pc : Json F) :
    Std.TreeMap String F × List String :=
  let id := (pc.getStr "probe_id").getD ""
  let frac := (pc.getF64 "steady_cpu_fraction").getD 0
  let ob := (pc.getBool "over_budget").getD false
  (acc.1.alter id fun e =>
      let e := e.getD 0
      some (if e < frac then frac else e),
    if ob && !acc.2.contains id then acc.2 ++ [id] else acc.2)

def overhead (b : List (Json F)) : Overhead F :=
  let (worst, overBudget) :=
    b.foldl (fun acc run => ((run.getArray "self_metrics").getD []).foldl foldCost acc) (∅, [])
  { verdict := if overBudget.isEmpty then .pass else .fail, worst, overBudget }

structure TriadReport (F : Type) where
  outcome : Outcome F
  detail : List (AbDetail F)
  overhead : Overhead F

variable [FloatText F] [Build]

def triad (a b : List (Json F)) (cfg : Config F) : Except Abort (TriadReport F) := do
  let base ← ab a b cfg
  let oh := overhead b
  let outcome :=
    if oh.verdict = .fail then
      { base.outcome with
        verdict := if base.outcome.verdict = .contaminated then .contaminated else .fail
        notes := base.outcome.notes ++ ["subsystem overhead over budget; see report.overhead"] }
    else base.outcome
  pure { outcome, detail := base.detail, overhead := oh }

end Triad

end Assayist
