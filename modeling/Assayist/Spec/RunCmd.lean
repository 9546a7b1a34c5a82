import Assayist.Spec.Capture
import Assayist.Spec.Firecracker
import Assayist.Spec.HostPrep
import Assayist.Spec.Run
import Assayist.Spec.RunGate
import Assayist.Spec.Targets

/-! `assayist run`: every cell of both groups is run so many times, each run is written to a file of
its own, and the gate judges the files. What the command calls on answers from a world. -/

namespace Assayist

open Effect

structure RunArgs where
  defPath : String
  repeats : UInt32
  aSut : String
  bSut : String
  outDir : String
  duration : UInt64
  allowUngraded : Bool
  applyPrep : Bool
  deriving DecidableEq, Repr

section Parse

def RunArgs.initial : RunArgs where
  defPath := ""
  repeats := 3
  aSut := "unknown-a"
  bSut := "unknown-b"
  outDir := "assayist-out"
  duration := 30
  allowUngraded := false
  applyPrep := false

/-- The flags of `assayist run` followed by a value. -/
def runValueFlags : List String := ["--repeat", "--a-sut", "--b-sut", "--out", "--duration"]

def RunArgs.setValue (ra : RunArgs) (flag v : String) : Except String RunArgs :=
  if flag = "--repeat" then do
    let n ← parsed (parseU32 v) flag
    .ok { ra with repeats := n }
  else if flag = "--a-sut" then .ok { ra with aSut := v }
  else if flag = "--b-sut" then .ok { ra with bSut := v }
  else if flag = "--out" then .ok { ra with outDir := v }
  else do
    let n ← parsed (parseU64 v) flag
    .ok { ra with duration := n }

/-- The loop of `parse_run_args` from one argument on. -/
def parseRunFrom (ra : RunArgs) (defPath : Option String) :
    List String → Except String (RunArgs × Option String)
  | [] => .ok (ra, defPath)
  | arg :: rest =>
    if runValueFlags.contains arg then
      match rest with
      | [] => .error ("missing value after " ++ arg)
      | v :: rest =>
        match ra.setValue arg v with
        | .ok ra => parseRunFrom ra defPath rest
        | .error e => .error e
    else if arg = "--allow-ungraded" then parseRunFrom { ra with allowUngraded := true } defPath rest
    else if arg = "--apply-prep" then parseRunFrom { ra with applyPrep := true } defPath rest
    else if startsWith arg "--" then .error ("unknown flag " ++ arg)
    else if defPath.isSome then .error ("unexpected argument " ++ arg)
    else parseRunFrom ra (some arg) rest

def parseRunArgs (args : List String) : Except String RunArgs :=
  match parseRunFrom .initial none args with
  | .error e => .error e
  | .ok (_, none) => .error "run needs a <def.yaml> path"
  | .ok (ra, some path) =>
    if ra.repeats = 0 then .error "--repeat must be > 0" else .ok { ra with defPath := path }

end Parse

namespace RunCmd

/-- What one run of a cell calls on, by what it answers: the directory of its fragments, the clock
as its targets are made, the driver, the adapters, the host, its id, and the write of its file. -/
structure Call (F : Type) where
  workDir : Except String Unit
  nowNanos : ℕ → UInt64
  env : RunEnv F
  versions : AdapterVersions
  host : HostFiles
  later : HostFiles
  pinningLayout : Option (List (String × Json F))
  runId : String
  write : Except String Unit

/-- What `assayist run` finds outside itself. `load` reads and parses a definition, `defDir` is its
directory, and `gate` runs the gate on arguments and on the runs that were written. -/
structure World (F : Type) where
  load : String → Except String (BenchmarkDef F × String)
  defDir : String → String
  sha256Hex : String → String
  pid : UInt32
  sys : HostPrep.Sysfs
  host : HostFiles
  later : HostFiles
  outDir : Except String Unit
  call : String → ℕ → ℕ → Call F
  gate : List String → List (String × AssayRun F) → Except String ProcessOutput
  parse : String → Option (Json F)
  bin : String

/-- A run of the schedule: its group, with the SUT of it, its cell, and which of the repeats. -/
structure Slot (F : Type) where
  group : String
  sut : String
  cell : Cell F
  ci : ℕ
  i : ℕ

/-- The run files, as written, the lists for the gate, the runs that were started, and the arguments
that the gate was started with. -/
structure State (F : Type) where
  files : List (String × AssayRun F)
  aFiles : List String
  bFiles : List String
  started : List (String × ℕ × ℕ)
  argv : Option (List String)

def State.new {F : Type} : State F := ⟨[], [], [], [], none⟩

/-- Steps that stop with an exit status, which a panic does with 101. -/
abbrev Command (F : Type) := Steps UInt8 (State F)

def abortStatus : Abort → UInt8
  | .error _ => 1
  | .panic _ => 101

section Steps

variable {F α : Type}

/-- Go on with a result, or report its error and stop with a status. -/
def orStop (status : UInt8) {ε : Type} (r : Except ε α) : Command F α :=
  give (r.mapError fun _ => status)

def orAbort (r : Except Abort α) : Command F α := give (r.mapError abortStatus)

end Steps

section Cells

variable {F : Type}

def Slot.name (s : Slot F) (sep : String) : String :=
  s.group ++ sep ++ toString s.ci ++ sep ++ toString s.i

/-- The file of a run. -/
def Slot.path (s : Slot F) (ra : RunArgs) : String := joinPath ra.outDir (s.name "_" ++ ".json")

/-- The directory of a run's fragments. -/
def Slot.workDir (s : Slot F) (ra : RunArgs) : String :=
  joinPath (joinPath ra.outDir "frags") (s.name "-")

/-- Note a written run for the gate. -/
def State.wrote (s : State F) (slot : Slot F) (path : String) (run : AssayRun F) : State F :=
  { s with
    files := s.files ++ [(path, run)]
    aFiles := if slot.group = "a" then s.aFiles ++ [path] else s.aFiles
    bFiles := if slot.group = "a" then s.bFiles else s.bFiles ++ [path] }

variable [F64 F] [FloatText F] [Build]

def Slot.vars (s : Slot F) (w : World F) (ra : RunArgs) : Vars :=
  let vars := Adapter.vars s.cell.params s.sut
  let dir := w.defDir ra.defPath
  if dir = "" then vars else Vars.insert "def_dir" dir vars

/-- What a run has gathered once it has been driven. -/
def Slot.gathered (s : Slot F) (sha : String) (c : Call F) (art : RunArtifacts F) : Gathered F where
  defSha := sha
  sut := s.sut
  versions := c.versions
  host := c.host
  later := c.later
  pinningLayout := c.pinningLayout
  fragments := art.fragments
  spans := art.spans
  workloadReport := art.workloadReport

/-- The run's target. -/
def Slot.target (s : Slot F) (w : World F) (ra : RunArgs) (d : BenchmarkDef F) :
    Except Abort (Built (FirecrackerTarget ⊕ OtherTarget)) :=
  let host : Host := ⟨w.pid, (w.call s.group s.ci s.i).nowNanos⟩
  let pinThreads := (HostPrep.fromValue d.hostPrep).pinThreads
  buildTarget (fun i v => selectTarget host (otherTarget w.pid) d pinThreads i v) d (s.vars w ra)
    pinThreads

/-- The body of the loops: drive one run and write it. -/
def runCell (w : World F) (ra : RunArgs) (d : BenchmarkDef F) (sha : String) (slot : Slot F) :
    Command F Unit := do
  let c := w.call slot.group slot.ci slot.i
  let _ ← orAbort (slot.target w ra d)
  orStop 1 c.workDir
  let plan ← orStop 1 (planGadgets d.capture ra.duration (slot.workDir ra) (slot.vars w ra))
  update fun s => { s with started := s.started ++ [(slot.group, slot.ci, slot.i)] }
  let art ← orStop 1 (runOf { c.env with gadgets := plan } none).1
  let run ← orAbort (cellRun c.runId d slot.cell (slot.gathered sha c art))
  orStop 1 c.write
  update fun s => s.wrote slot (slot.path ra) run

/-- The loops over the groups, their cells and the repeats. -/
def runGroups (w : World F) (ra : RunArgs) (d : BenchmarkDef F) (sha : String)
    (groups : List (String × String × List (Cell F))) : Command F Unit :=
  groups.forM fun (group, sut, cells) =>
    cells.zipIdx.forM fun (cell, ci) =>
      (List.range ra.repeats.toNat).forM fun i => runCell w ra d sha ⟨group, sut, cell, ci, i⟩

end Cells

section Run

variable {F : Type} [F64 F] [FloatText F] [Build]

/-- The fingerprint that `assayist run` starts from. -/
def firstFingerprint (w : World F) (ra : RunArgs) (d : BenchmarkDef F) :
    Except Abort (Fingerprint F) :=
  let knobs := (HostPrep.fromValue d.hostPrep).knobs
  if ra.applyPrep then HostPrep.prepare w.sys w.host knobs d.tenancy
  else HostPrep.observe w.host w.later knobs d.tenancy

/-- `run_cmd`, up to its exit status. -/
def runCmd (w : World F) (args : List String) : Command F UInt8 := do
  let ra ← orStop 64 (parseRunArgs args)
  let (d, sha) ← orStop 1 (w.load ra.defPath)
  orStop 1 d.validate
  let fp ← orAbort (firstFingerprint w ra d)
  if ra.applyPrep && !fp.tuningConsistent then throw 1
  orStop 1 w.outDir
  let groups ← give (match cellGroups d (expandCells w.sha256Hex d) ra.aSut ra.bSut with
    | some groups => .ok groups
    | none => .error 101)
  runGroups w ra d sha groups
  let s ← look
  let argv := gateArgv d.gate.mode s.aFiles s.bFiles (thresholdsOf d ra.allowUngraded)
  update fun s => { s with argv := some argv }
  pure (runCmdExit (runGate w.parse w.bin (w.gate argv s.files)))

/-- How the command ends, and what it leaves. -/
def outcome (w : World F) (args : List String) : Except UInt8 UInt8 × State F :=
  exec (runCmd w args) .new

/-- The exit status. -/
def status (w : World F) (args : List String) : UInt8 :=
  match (outcome w args).1 with
  | .ok code => code
  | .error code => code

end Run

end RunCmd

end Assayist
