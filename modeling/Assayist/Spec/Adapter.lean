import Assayist.Lib.Steps
import Assayist.Spec.Netattrib
import Assayist.Spec.Stats

/-! The run driver: bring the target up, register its VMs, run the gadgets across
the workload, and wind everything down. What every call outside the driver returns
is an argument of the model, and every such call is logged. -/

namespace Assayist

open Effect

structure NetAttribution where
  tap : String
  ifindex : UInt32
  guestMac : String
  netnsInum : UInt32

/-- A target by what its methods answer in one run. -/
structure TargetAnswers (F : Type) where
  version : String
  provision : Except String Unit
  start : Except String Unit
  reachSteady : Except String Unit
  spans : Except String (List (Json F))
  teardown : Except String Unit
  pinningLayout : Option (Json F)
  residentFiles : List (String × String)
  netAttribution : List NetAttribution

/-- A plain target, or a fanout over inner targets. -/
inductive Target (F : Type) where
  | single (t : TargetAnswers F)
  | fanout (inners : List (TargetAnswers F))

structure WorkloadAnswers (F : Type) where
  version : String
  start : Except String Unit
  stop : Except String Unit
  report : Except String (Json F)

structure GadgetInvocation where
  gadget : String
  probe : String
  args : List String
  outPath : String

/-- Everything a run of the driver calls on, by what it answers. -/
structure RunEnv (F : Type) where
  target : Target F
  workload : WorkloadAnswers F
  gadgets : List GadgetInvocation
  /-- `cat /proc/meminfo` before provisioning and after reaching steady. -/
  meminfoBefore : Except String String
  meminfoAfter : Except String String
  /-- Spawning, and waiting on, the `i`-th gadget. -/
  spawn : ℕ → Except String Unit
  wait : ℕ → Except String (Fragment F)
  /-- Resident and total pages of a file, when they can be measured. -/
  sampleResidency : String → Option (UInt64 × UInt64)
  /-- The clock, at a fanout's provision and once all its instances are steady. -/
  provisionNs : UInt64
  steadyNs : UInt64
  /-- The `k`-th id `new_run_id` returns in the run. -/
  newRunId : ℕ → String
  /-- What becomes of the `k`-th attribution command. -/
  exchange : ℕ → Exchange

/-- The target methods that can fail. -/
inductive Method where
  | provision
  | start
  | reachSteady
  | spans
  | teardown
  deriving DecidableEq, Repr

inductive WorkloadMethod where
  | start
  | stop
  | report
  deriving DecidableEq, Repr

/-- A call that returned, with whether it returned `Ok`. -/
inductive Event where
  | target (m : Method) (ok : Bool)
  | inner (i : ℕ) (m : Method) (ok : Bool)
  | spawn (i : ℕ) (ok : Bool)
  | wait (i : ℕ) (ok : Bool)
  | workload (m : WorkloadMethod) (ok : Bool)
  | command (line : String) (ok : Bool)
  deriving DecidableEq, Repr

structure RunState (F : Type) where
  log : List Event
  session : Option AttributionSession
  /-- How many run ids were drawn. -/
  ids : ℕ
  /-- The aggregate span a fanout recorded. -/
  fanoutSpans : List (Json F)

/-- A step of the driver. -/
abbrev Driver (F : Type) := Steps String (RunState F)

def isOk {ε α : Type} : Except ε α → Bool
  | .ok _ => true
  | .error _ => false

/-- `Ok(())` for any `Ok`. -/
def unit {α : Type} (r : Except String α) : Except String Unit := r.map fun _ => ()

section Calls

variable {F : Type}

def emit (e : Event) : Driver F Unit := update fun s => { s with log := s.log ++ [e] }

def innerAnswer (t : TargetAnswers F) : Method → Except String Unit
  | .provision => t.provision
  | .start => t.start
  | .reachSteady => t.reachSteady
  | .spans => unit t.spans
  | .teardown => t.teardown

/-- A fanout's inner targets in order, stopping at the first that fails. -/
def eachInner (m : Method) : ℕ → List (TargetAnswers F) → Driver F Unit
  | _, [] => pure ()
  | i, t :: ts => do
    emit (.inner i m (isOk (innerAnswer t m)))
    give (innerAnswer t m)
    eachInner m (i + 1) ts

/-- A fanout's teardown reaches every inner target and keeps the last error. -/
def teardownInners : ℕ → List (TargetAnswers F) → Except String Unit →
    Driver F (Except String Unit)
  | _, [], last => pure last
  | i, t :: ts, last => do
    emit (.inner i .teardown (isOk t.teardown))
    teardownInners (i + 1) ts (match t.teardown with
      | .ok () => last
      | .error e => .error e)

/-- The name of a fanout's aggregate span: that of the first instance's last span. -/
def aggregateName (inners : List (TargetAnswers F)) : String :=
  ((inners.head?.bind fun t => t.spans.toOption).bind
    fun s => s.getLast?.bind (·.getStr "name")).getD "reach_steady"

def aggregateSpan (env : RunEnv F) (inners : List (TargetAnswers F)) : Json F :=
  .object [("name", .string (aggregateName inners)),
    ("start_unix_nano", .nat env.provisionNs), ("end_unix_nano", .nat env.steadyNs)]

/-- The body of a target method, before its return is logged. -/
def methodBody (env : RunEnv F) (m : Method) : Driver F Unit :=
  match env.target, m with
  | .single t, m => give (innerAnswer t m)
  | .fanout inners, .reachSteady => do
    eachInner .reachSteady 0 inners
    -- `reach_steady` asks the first instance for its spans to name the aggregate
    if let t :: _ := inners then emit (.inner 0 .spans (isOk t.spans))
    update fun s => { s with fanoutSpans := s.fanoutSpans ++ [aggregateSpan env inners] }
  | .fanout _, .spans => pure ()
  | .fanout inners, .teardown => do
    let r ← teardownInners 0 inners (.ok ())
    give r
  | .fanout inners, m => eachInner m 0 inners

/-- A target method as the driver calls it. -/
def callTarget (env : RunEnv F) (m : Method) : Driver F Unit := do
  let r ← attempt (methodBody env m)
  emit (.target m (isOk r))
  give r

def callSpans (env : RunEnv F) : Driver F (List (Json F)) := do
  callTarget env .spans
  match env.target with
  | .single t => give t.spans
  | .fanout _ =>
    let s ← look
    pure s.fanoutSpans

def Target.netAttribution : Target F → List NetAttribution
  | .single t => t.netAttribution
  | .fanout inners => inners.flatMap (·.netAttribution)

/-- A fanout keys each instance's files by its index. -/
def Target.residentFiles : Target F → List (String × String)
  | .single t => t.residentFiles
  | .fanout inners =>
    (inners.zipIdx.map fun (t, i) =>
      t.residentFiles.map fun (_, path) => ("instance" ++ toString i, path)).flatten

def callWorkload {α : Type} (m : WorkloadMethod) (r : Except String α) : Driver F α := do
  emit (.workload m (isOk r))
  give r

/-- One command on the session's control channel, an error when there is no
session. -/
def sendCommand (env : RunEnv F) (line : String) : Driver F Unit := do
  let s ← look
  match s.session with
  | none => give (.error "no attribution session")
  | some session =>
    let (r, client) := session.client.command env.exchange line
    update fun s => { s with session := some { session with client } }
    emit (.command line (isOk r))
    give r

end Calls

section Attribution

variable {F : Type}

def reserveHandle : Driver F ℕ := do
  let s ← look
  match s.session with
  | none => give (.error "no attribution session")
  | some session =>
    let (handle, table) := session.table.reserve
    update fun s => { s with session := some { session with table } }
    pure handle

def drawRunId (env : RunEnv F) : Driver F String := do
  let s ← look
  update fun s => { s with ids := s.ids + 1 }
  pure (env.newRunId s.ids)

def recordProvenance (p : VmProvenance) : Driver F Unit :=
  update fun s => { s with session := s.session.map fun session =>
    { session with table := session.table.insert p } }

/-- Reserve a handle, tell the owner, and record provenance once it accepts. -/
def register (env : RunEnv F) (vmId : String) (na : NetAttribution) : Driver F ℕ := do
  let handle ← reserveHandle
  sendCommand env (addLine na.ifindex handle na.netnsInum)
  recordProvenance
    { handle, vmId, tap := na.tap, guestMac := na.guestMac, ifindex := na.ifindex
      netnsInum := na.netnsInum }
  pure handle

/-- Remove every handle this run registered, ignoring failures. -/
def deregisterAll (env : RunEnv F) : List ℕ → Driver F Unit
  | [] => pure ()
  | h :: hs => do
    let _ ← attempt (sendCommand env (removeLine h))
    deregisterAll env hs

/-- The cleanup of an abort path. -/
def abandon (env : RunEnv F) (attributed : List ℕ) (e : String) {α : Type} : Driver F α := do
  deregisterAll env attributed
  let _ ← attempt (callTarget env .teardown)
  give (.error e)

def noTapError : String :=
  "attribution enabled but the target set up no tap (note: tap networking is cold boot only, so " ++
  "a snapshot-restore def will not have one even with the key set); set `network: tap` on a " ++
  "cold-boot target"

/-- Register each VM and mark it running. -/
def registerAll (env : RunEnv F) : List NetAttribution → List ℕ → Driver F (List ℕ)
  | [], attributed => pure attributed
  | na :: vms, attributed => do
    let vmId ← drawRunId env
    match ← attempt (register env vmId na) with
    | .error e => abandon env attributed e
    | .ok handle =>
      -- recorded before the state command, so a failing one still removes the entry
      match ← attempt (sendCommand env (stateLine handle lifecycleRunning)) with
      | .error e => abandon env (attributed ++ [handle]) e
      | .ok () => registerAll env vms (attributed ++ [handle])

def attributeVms (env : RunEnv F) : Driver F (List ℕ) := do
  let s ← look
  if s.session.isNone then pure []
  else if env.target.netAttribution.isEmpty then abandon env [] noTapError
  else registerAll env env.target.netAttribution []

end Attribution

section Gadgets

variable {F : Type}

/-- Spawn the gadgets from the `i`-th on. -/
def spawnAll (env : RunEnv F) (attributed : List ℕ) : ℕ → List GadgetInvocation → Driver F Unit
  | _, [] => pure ()
  | i, _ :: gs => do
    emit (.spawn i (isOk (env.spawn i)))
    match env.spawn i with
    | .error e => abandon env attributed e
    | .ok () => spawnAll env attributed (i + 1) gs

/-- Wait on the gadgets from the `i`-th on. -/
def waitAll (env : RunEnv F) (attributed : List ℕ) :
    ℕ → List GadgetInvocation → List (Fragment F) → Driver F (List (Fragment F))
  | _, [], fragments => pure fragments
  | i, _ :: gs, fragments => do
    emit (.wait i (isOk (env.wait i)))
    match env.wait i with
    | .error e => do
      let _ ← attempt (callWorkload .stop env.workload.stop)
      abandon env attributed e
    | .ok f => waitAll env attributed (i + 1) gs (fragments ++ [f])

end Gadgets

section Memory

variable {F : Type}

/-- `n.parse::<i64>()`. -/
def parseI64 (s : String) : Option ℤ :=
  match s.toList with
  | '-' :: ds =>
    if ds.isEmpty then none
    else (digitsValue ds 0).bind fun n => if n ≤ 2 ^ 63 then some (-(n : ℤ)) else none
  | _ => (parseU64 s).bind fun n => if n.toNat < 2 ^ 63 then some n.toNat else none

/-- The lines of a text. -/
def linesOf (text : String) : List (List Char) := text.toList.splitOn '\n'

/-- The words of a line. -/
def wordsOf (line : List Char) : List (List Char) :=
  (line.splitOnP isWhite).filter fun w => !w.isEmpty

def meminfoField (text name : String) : ℤ :=
  (((linesOf text).find? fun l => name.toList.isPrefixOf l).bind fun l =>
    ((wordsOf l)[1]?).bind fun w => parseI64 (String.ofList w)).getD 0

/-- `MemAvailable` and `Cached`, in KiB. -/
def parseMeminfo (text : String) : ℤ × ℤ :=
  (meminfoField text "MemAvailable:", meminfoField text "Cached:")

def sampleMeminfo (out : Except String String) : ℤ × ℤ :=
  match out with
  | .ok text => parseMeminfo text
  | .error _ => parseMeminfo ""

/-- An `i64` as a JSON number. -/
def intJson (n : ℤ) : Json F :=
  if n < 0 then .number (.negInt n) else .nat (.ofNat n.toNat)

def hostmemGauge (name : String) (value : ℤ) : Json F :=
  .object [("name", .string name), ("unit", .string "KiBy"), ("kind", .string "gauge"),
    ("source", .string "hostmem"),
    ("cardinality", .object [("class", .string "singleton")]),
    ("data", .object [("value", intJson value), ("time_unix_nano", .nat 0)])]

/-- How far available memory dropped and the page cache grew between two samples. -/
def hostmemFragment (before after : ℤ × ℤ) : Fragment F where
  series := [hostmemGauge "hostmem.mem_consumed_kib" (before.1 - after.1),
    hostmemGauge "hostmem.cached_delta_kib" (after.2 - before.2)]
  selfMetrics := []
  captureMeta := some (.object [("gadget", .string "hostmem"),
    ("source", .string "/proc/meminfo")])

variable [F64 F]

def residentGauge (n : ℕ) (label name : String) (value : Json F) : Json F :=
  .object ([("name", .string name), ("unit", .string "1"), ("kind", .string "gauge"),
    ("source", .string "resident")] ++
    (if label.isEmpty then [] else [("key", .string label)]) ++
    [("cardinality",
      if 1 < n ∧ label.isEmpty = false then
        .object [("class", .string "bounded"), ("key_source", .string "guest_index"),
          ("max_keys", .nat (.ofNat n))]
      else .object [("class", .string "singleton")]),
     ("data", .object [("value", value), ("time_unix_nano", .nat 0)])])

def residentSeries (n : ℕ) (sample : String × UInt64 × UInt64) : List (Json F) :=
  let (label, resident, total) := sample
  let fraction : F := if 0 < total then (resident.toNat : F) / (total.toNat : F) else 0
  [residentGauge n label "resident.snapshot_resident_pages" (.nat resident),
    residentGauge n label "resident.snapshot_total_pages" (.nat total),
    residentGauge n label "resident.snapshot_fraction" (.float fraction)]

/-- Per-guest snapshot residency, absent when nothing was measurable. -/
def residentFragment (samples : List (String × UInt64 × UInt64)) : Option (Fragment F) :=
  if samples.isEmpty then none
  else some
    { series := samples.flatMap (residentSeries samples.length)
      selfMetrics := []
      captureMeta := some (.object [("gadget", .string "resident"),
        ("source", .string "mincore")]) }

end Memory

section Drive

variable {F : Type}

structure RunArtifacts (F : Type) where
  fragments : List (Fragment F)
  spans : List (Json F)
  workloadReport : Json F
  vmAttribution : Option (Json F)

def residentSamples (env : RunEnv F) : List (String × UInt64 × UInt64) :=
  env.target.residentFiles.filterMap fun (label, path) =>
    (env.sampleResidency path).map fun (r, t) => (label, r, t)

/-- The rewritten fragments and the provenance recorded with them. -/
def attributeFragments (session : Option AttributionSession) (attributed : List ℕ)
    (fragments : List (Fragment F)) : List (Fragment F) × Option (Json F) :=
  match session with
  | some session =>
    if attributed.isEmpty then (fragments, none)
    else
      let (fragments, unknown) := rewriteVmIdLabels session.table [] fragments
      (fragments, some (.object ([("vms", session.table.provenanceJson)] ++
        (if unknown.isEmpty then []
         else [("unresolved_handles", .array (unknown.map .string))]))))
  | none => (fragments, none)

variable [F64 F]

/-- Wind down: the workload, the spans, the map entries, then the target. -/
def windDown (env : RunEnv F) (attributed : List ℕ) (fragments : List (Fragment F)) :
    Driver F (RunArtifacts F) := do
  let _ ← attempt (callWorkload .stop env.workload.stop)
  let report ← attempt (callWorkload .report env.workload.report)
  let spans ← callSpans env
  deregisterAll env attributed
  let teardown ← attempt (callTarget env .teardown)
  let fragments := fragments ++
    [hostmemFragment (sampleMeminfo env.meminfoBefore) (sampleMeminfo env.meminfoAfter)] ++
    (residentFragment (residentSamples env)).toList
  let s ← look
  let (fragments, vmAttribution) := attributeFragments s.session attributed fragments
  give teardown
  pure
    { fragments, spans, vmAttribution
      workloadReport := match report with
        | .ok v => v
        | .error _ => .null }

/-- Drive one run. -/
def executeRun (env : RunEnv F) : Driver F (RunArtifacts F) := do
  callTarget env .provision
  callTarget env .start
  callTarget env .reachSteady
  let attributed ← attributeVms env
  spawnAll env attributed 0 env.gadgets
  match ← attempt (callWorkload .start env.workload.start) with
  | .error e => abandon env attributed e
  | .ok () =>
    let fragments ← waitAll env attributed 0 env.gadgets []
    windDown env attributed fragments

def RunState.initial (session : Option AttributionSession) : RunState F :=
  { log := [], session, ids := 0, fanoutSpans := [] }

/-- A run from its start: how it ended, and the state it left. -/
def runOf (env : RunEnv F) (session : Option AttributionSession) :
    Except String (RunArtifacts F) × RunState F :=
  exec (executeRun env) (.initial session)

end Drive

end Assayist
