import Assayist.Spec.Gate

/-! The `assayist-gate` binary: its flags, the groups each mode reads, the report
it writes and the exit code that carries the verdict. -/

namespace Assayist

structure Args (F : Type) where
  mode : String
  a : List String
  b : List String
  baseline : List String
  candidate : List String
  out : String
  cfg : Config F

/-- The multi-value list that bare positional arguments feed into. -/
inductive Slot where
  | a
  | b
  | baseline
  | candidate
  deriving DecidableEq, Repr

def Slot.ofFlag (arg : String) : Option Slot :=
  if arg = "--a" then some .a
  else if arg = "--b" then some .b
  else if arg = "--baseline" then some .baseline
  else if arg = "--candidate" then some .candidate
  else none

section Parse

variable {F : Type}

def Args.push (args : Args F) (slot : Slot) (path : String) : Args F :=
  match slot with
  | .a => { args with a := args.a ++ [path] }
  | .b => { args with b := args.b ++ [path] }
  | .baseline => { args with baseline := args.baseline ++ [path] }
  | .candidate => { args with candidate := args.candidate ++ [path] }

/-- The flags followed by a value. -/
def valueFlags : List String :=
  ["--mode", "--out", "--p-threshold", "--noise-threshold", "--min-effect", "--resamples",
    "--drift-k", "--seed", "--ignore"]

/-- A parsed value, or the `bad` message of its flag. -/
def parsed {α : Type} (v : Option α) (flag : String) : Except String α :=
  match v with
  | some x => .ok x
  | none => .error ("bad " ++ flag)

/-- What a flag does with its value. -/
def setValue [FloatText F] (args : Args F) (flag v : String) : Except String (Args F) :=
  if flag = "--mode" then .ok { args with mode := v }
  else if flag = "--out" then .ok { args with out := v }
  else if flag = "--p-threshold" then do
    let x ← parsed (FloatText.parse v) flag
    .ok { args with cfg := { args.cfg with pThreshold := x } }
  else if flag = "--noise-threshold" then do
    let x ← parsed (FloatText.parse v) flag
    .ok { args with cfg := { args.cfg with noiseThreshold := x } }
  else if flag = "--min-effect" then do
    let x ← parsed (FloatText.parse v) flag
    .ok { args with cfg := { args.cfg with minEffect := x } }
  else if flag = "--resamples" then do
    let n ← parsed (parseU64 v) flag
    .ok { args with cfg := { args.cfg with resamples := n.toNat } }
  else if flag = "--drift-k" then do
    let x ← parsed (FloatText.parse v) flag
    .ok { args with cfg := { args.cfg with driftK := x } }
  else if flag = "--seed" then do
    let n ← parsed (parseU64 v) flag
    .ok { args with cfg := { args.cfg with seed := n } }
  else .ok { args with cfg := { args.cfg with ignore := args.cfg.ignore ++ [v] } }

/-- The flags that stand alone. -/
def setSwitch (args : Args F) (flag : String) : Option (Args F) :=
  if flag = "--allow-ungraded" then
    some { args with cfg := { args.cfg with allowUngraded := true } }
  else if flag = "--strict-single-cell" then
    some { args with cfg := { args.cfg with strictSingleCell := true } }
  else none

/-- The loop of `parse_args` from one argument on, with the list that positional
arguments currently feed into. -/
def parseFrom [FloatText F] (args : Args F) (cur : Option Slot) :
    List String → Except String (Args F)
  | [] => .ok args
  | arg :: rest =>
    if valueFlags.contains arg then
      match rest with
      | [] => .error ("missing value after " ++ arg)
      | v :: rest =>
        match setValue args arg v with
        | .ok args => parseFrom args none rest
        | .error e => .error e
    else
      match Slot.ofFlag arg with
      | some slot => parseFrom args (some slot) rest
      | none =>
        match setSwitch args arg with
        | some args => parseFrom args none rest
        | none =>
          if startsWith arg "--" then .error ("unknown flag " ++ arg)
          else
            match cur with
            | some slot => parseFrom (args.push slot arg) cur rest
            | none => .error ("stray argument " ++ arg)

variable [F64 F]

def Args.initial : Args F where
  mode := "ab_permutation"
  a := []
  b := []
  baseline := []
  candidate := []
  out := "-"
  cfg := .default

def parseArgs [FloatText F] (argv : List String) : Except String (Args F) :=
  parseFrom .initial none argv

end Parse

section Report

variable {F : Type} [F64 F]

/-- What a mode returned. -/
inductive Report (F : Type) where
  | ab (r : AbReport F)
  | drift (r : DriftReport F)
  | triad (r : TriadReport F)

def Report.outcome : Report F → Outcome F
  | .ab r => r.outcome
  | .drift r => r.outcome
  | .triad r => r.outcome

def MetricOutcome.toJson (m : MetricOutcome F) : Json F :=
  .object [("delta", .float m.delta), ("noisy", .bool m.noisy), ("p", .float m.p),
    ("significant", .bool m.significant)]

def strings (xs : List String) : Json F := .array (xs.map .string)

def Outcome.toJson (o : Outcome F) : Json F :=
  .object [("notes", strings o.notes),
    ("per_metric", .object (o.perMetric.map fun (id, m) => (id, m.toJson))),
    ("verdict", .string o.verdict.asStr)]

def AbDetail.toJson (d : AbDetail F) : Json F :=
  .object [("cells", strings d.cells), ("cov", .float d.cov), ("id", .string d.id),
    ("mean_a", .float d.meanA), ("mean_b", .float d.meanB), ("n_a", .nat (.ofNat d.nA)),
    ("n_b", .nat (.ofNat d.nB)), ("p", .float d.p), ("rel_delta", .float d.relDelta),
    ("status", .string d.status.asStr)]

def DriftDetail.toJson (d : DriftDetail F) : Json F :=
  .object [("base_mean", .float d.baseMean), ("base_std", .float d.baseStd),
    ("cand_mean", .float d.candMean), ("id", .string d.id), ("rel_delta", .float d.relDelta),
    ("slope", .float d.slope), ("slope_stderr", .float d.slopeStderr),
    ("status", .string d.status.asStr)]

def Overhead.toJson (o : Overhead F) : Json F :=
  .object [("over_budget", strings o.overBudget), ("verdict", .string o.verdict.asStr),
    ("worst_steady_cpu_fraction", .object (o.worst.toList.map fun (id, x) => (id, .float x)))]

def Report.mode : Report F → String
  | .ab _ => "ab_permutation"
  | .drift _ => "longitudinal_drift"
  | .triad _ => "subsystem_triad"

def Report.details : Report F → Json F
  | .ab r => .array (r.detail.map AbDetail.toJson)
  | .drift r => .array (r.detail.map DriftDetail.toJson)
  | .triad r => .array (r.detail.map AbDetail.toJson)

def Report.overhead : Report F → List (String × Json F)
  | .triad r => [("overhead", r.overhead.toJson)]
  | _ => []

/-- The document the gate writes. -/
def Report.toJson (r : Report F) : Json F :=
  .object [("outcome", r.outcome.toJson),
    ("report", .object ([("detail", r.details), ("mode", .string r.mode)] ++ r.overhead))]

end Report

section Run

variable {F : Type} [F64 F] [FloatText F] [Build]

/-- What the gate finds outside itself: each path's run or the error of reading
it, and whether the report can be written. -/
structure Disk (F : Type) where
  read : String → Except String (Json F)
  write : String → Json F → Except String Unit

def Disk.load (disk : Disk F) (paths : List String) : Except Abort (List (Json F)) :=
  paths.mapM fun p => match disk.read p with
    | .ok v => .ok v
    | .error e => .error (.error e)

/-- The two groups a mode reads, in the order it judges them. -/
def Args.groups (args : Args F) : List String × List String :=
  if args.mode = "longitudinal_drift" then (args.baseline, args.candidate) else (args.a, args.b)

def missingGroups (mode : String) : String :=
  if mode = "longitudinal_drift" then "longitudinal_drift needs --baseline and --candidate"
  else mode ++ " needs --a and --b run files"

/-- The mode's function. -/
def judge (mode : String) (a b : List (Json F)) (cfg : Config F) : Except Abort (Report F) :=
  if mode = "ab_permutation" then .ab <$> ab a b cfg
  else if mode = "longitudinal_drift" then .drift <$> drift a b cfg
  else .triad <$> triad a b cfg

/-- `run()`: the arguments, the groups, the verdict, and the report where `--out`
wants it. -/
def gateRun (disk : Disk F) (argv : List String) : Except Abort (Report F) :=
  match parseArgs argv with
  | .error e => .error (.error e)
  | .ok args => do
    unless ["ab_permutation", "longitudinal_drift", "subsystem_triad"].contains args.mode do
      throw (.error ("unknown mode '" ++ args.mode ++ "'"))
    let a ← disk.load args.groups.1
    let b ← disk.load args.groups.2
    if a.isEmpty || b.isEmpty then
      throw (.error (missingGroups args.mode))
    let result ← judge args.mode a b args.cfg
    if args.out ≠ "-" then
      match disk.write args.out result.toJson with
      | .ok () => pure ()
      | .error e => throw (.error e)
    pure result

/-- `main()`: 0 pass, 2 fail, 3 contaminated, 1 an error, and the runtime's 101 for
a panic. -/
def gateMain (result : Except Abort (Report F)) : UInt8 :=
  match result with
  | .ok r =>
    let verdict := ((r.toJson.get "outcome").bind (·.getStr "verdict")).getD "pass"
    if verdict = "pass" then 0
    else if verdict = "fail" then 2
    else if verdict = "contaminated" then 3
    else 0
  | .error (.error _) => 1
  | .error (.panic _) => 101

end Run

end Assayist
