import Assayist.Spec.Contract
import Assayist.Spec.GateMain
import Assayist.Spec.Def

/-! The orchestrator's side of the gate: the arguments it hands over, how it reads
the way the process ended, and the exit status `assayist run` leaves. -/

namespace Assayist

structure GateThresholds (F : Type) where
  pThreshold : F
  noiseThreshold : F
  resamples : UInt64
  ignore : List String
  allowUngraded : Bool

/-- How a process ended: with an exit code, or killed by a signal. -/
inductive ExitStatus where
  | exited (code : UInt8)
  | signaled (signal : ℕ)
  deriving DecidableEq, Repr

/-- `status.code()`, absent when a signal ended the process. -/
def ExitStatus.code : ExitStatus → Option ℤ
  | .exited code => some code.toNat
  | .signaled _ => none

structure ProcessOutput where
  status : ExitStatus
  stdout : String
  stderr : String

structure GateOutput (F : Type) where
  outcome : Json F
  verdict : String
  exitCode : ℤ

section Argv

variable {F : Type} [FloatText F]

/-- The argument vector of the gate process. -/
def gateArgv (mode : String) (a b : List String) (th : GateThresholds F) : List String :=
  ["--mode", mode] ++ ["--a"] ++ a ++ ["--b"] ++ b ++
  ["--p-threshold", FloatText.display th.pThreshold] ++
  ["--noise-threshold", FloatText.display th.noiseThreshold] ++
  ["--resamples", toString th.resamples.toNat] ++
  th.ignore.flatMap (fun ig => ["--ignore", ig]) ++
  (if th.allowUngraded then ["--allow-ungraded"] else [])

end Argv

section Groups

variable {F : Type} [BEq F]

/-- The cells that have `v` for the dimension `dim`. -/
def selectCells (dim : String) (v : Json F) (cells : List (Cell F)) : List (Cell F) :=
  cells.filter fun c =>
    match c.params.get dim with
    | some x => x.beq v
    | none => false

/-- Groups A and B of `run_cmd`: label, SUT sha and cells. With `compare` they are the two
levels of that dimension, `none` where taking these would panic; without it both run every
cell. -/
def cellGroups (d : BenchmarkDef F) (cells : List (Cell F)) (aSut bSut : String) :
    Option (List (String × String × List (Cell F))) :=
  match d.compare with
  | some dim => do
    let values ← d.parameterise.lookup dim
    let v0 ← values[0]?
    let v1 ← values[1]?
    pure [("a", aSut, selectCells dim v0 cells), ("b", bSut, selectCells dim v1 cells)]
  | none => some [("a", aSut, cells), ("b", bSut, cells)]

end Groups

section Exit

variable {F : Type}

/-- The verdict an exit code stands for when the output carries none. -/
def verdictOfCode (code : ℤ) : String :=
  if code = 0 then "pass" else if code = 2 then "fail" else if code = 3 then "contaminated"
  else "unknown"

/-- `run_gate` from the result of running the process on. `parse` reads JSON
text. -/
def runGate (parse : String → Option (Json F)) (bin : String)
    (output : Except String ProcessOutput) : Except String (GateOutput F) :=
  match output with
  | .error e => .error ("launching gate `" ++ bin ++ "`: " ++ e)
  | .ok out =>
    let code := out.status.code.getD (-1)
    if code = 1 then .error ("gate error: " ++ trim out.stderr)
    else
      let outcome := (parse (trim out.stdout)).getD .null
      let verdict := ((outcome.get "outcome").bind (·.getStr "verdict")).getD (verdictOfCode code)
      .ok { outcome, verdict, exitCode := code }

/-- `exit_code.clamp(0, 255) as u8`. -/
def clampCode (code : ℤ) : UInt8 := UInt8.ofNat (max 0 (min 255 code)).toNat

/-- The exit status `run_cmd` computes from the result of `run_gate`. -/
def runCmdExit (result : Except String (GateOutput F)) : UInt8 :=
  match result with
  | .error _ => 1
  | .ok outcome => clampCode outcome.exitCode

/-- The thresholds `run_cmd` takes from an accepted definition. -/
def thresholdsOf [F64 F] (d : BenchmarkDef F) (allowUngraded : Bool) : GateThresholds F where
  pThreshold := d.gate.pThreshold.getD (1 / 100)
  noiseThreshold := d.gate.noiseThreshold.getD (5 / 100)
  resamples := d.gate.resamples.getD 10000
  ignore := d.gate.ignore
  allowUngraded

/-- The configuration the gate works with under given thresholds: everything the
thresholds do not name keeps the gate's own default. -/
def GateThresholds.config [F64 F] (th : GateThresholds F) : Config F :=
  { Config.default with
    pThreshold := th.pThreshold
    noiseThreshold := th.noiseThreshold
    resamples := th.resamples.toNat
    ignore := th.ignore
    allowUngraded := th.allowUngraded }

end Exit

end Assayist
