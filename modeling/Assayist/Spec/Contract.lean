import Assayist.Spec.Json

/-! The producer-side contract types: a run's identity and fingerprint, capture
fragments, and how fragments are assembled into one graded run. -/

namespace Assayist

inductive Grade where
  | reproducible
  | valid
  | invalid
  deriving DecidableEq, Repr

def Grade.asStr : Grade → String
  | .reproducible => "reproducible"
  | .valid => "valid"
  | .invalid => "invalid"

def schemaVersion : String := "0.1.0"

structure Identity (F : Type) where
  targetAdapter : String
  targetAdapterVersion : String
  workloadDriver : String
  workloadDriverVersion : String
  sutGitSha : String
  params : Json F
  paramsHash : String
  benchmarkDefSha : String
  source : String

structure Fingerprint (F : Type) where
  hostname : String
  kernelVersion : String
  osRelease : String
  cpuModel : String
  cpuCountLogical : UInt32
  cpuCountPhysical : UInt32
  smtEnabled : Bool
  cpuGovernor : String
  thpSetting : String
  totalMemoryBytes : UInt64
  kvmPresent : Bool
  tenancy : String
  tuningRequested : Json F
  tuningReadback : Json F
  numaTopology : Option (Json F)
  pinningLayout : Option (Json F)
  mitigations : Option (Json F)
  microcodeVersion : Option String
  nestedVirt : Option Bool

/-- A capture gadget's fragment. -/
structure Fragment (F : Type) where
  series : List (Json F)
  selfMetrics : List (Json F)
  captureMeta : Option (Json F)

structure AssayRun (F : Type) where
  schemaVersion : String
  runId : String
  identity : Identity F
  fingerprint : Fingerprint F
  spans : List (Json F)
  series : List (Json F)
  selfMetrics : List (Json F)
  gate : Json F
  outcome : Option (Json F)
  workloadReport : Option (Json F)
  grade : Grade

section Grading

variable {F : Type}

def Fingerprint.hasExtended (fp : Fingerprint F) : Bool :=
  fp.numaTopology.isSome && fp.pinningLayout.isSome && fp.mitigations.isSome
    && fp.microcodeVersion.isSome && fp.nestedVirt.isSome

section Equality

variable [BEq F]

def Number.beq : Number F → Number F → Bool
  | .posInt m, .posInt n => m == n
  | .negInt m, .negInt n => m == n
  | .float x, .float y => x == y
  | _, _ => false

mutual

/-- `==` on JSON values. -/
def Json.beq : Json F → Json F → Bool
  | .null, .null => true
  | .bool b, .bool c => b == c
  | .number m, .number n => m.beq n
  | .string s, .string t => s == t
  | .array xs, .array ys => Json.beqItems xs ys
  | .object m, .object n => Json.beqFields m n
  | _, _ => false

def Json.beqItems : List (Json F) → List (Json F) → Bool
  | [], [] => true
  | x :: xs, y :: ys => x.beq y && Json.beqItems xs ys
  | _, _ => false

def Json.beqFields : List (String × Json F) → List (String × Json F) → Bool
  | [], [] => true
  | (k, v) :: m, (l, w) :: n => k == l && v.beq w && Json.beqFields m n
  | _, _ => false

end

/-- Host prep took effect: requested tuning equals read-back. -/
def Fingerprint.tuningConsistent (fp : Fingerprint F) : Bool :=
  fp.tuningRequested.beq fp.tuningReadback

/-- The grade of a run, given whether any probe ran. -/
def AssayRun.computeGrade (run : AssayRun F) (probesRan : Bool) : Grade :=
  if !run.fingerprint.tuningConsistent then .invalid
  else if run.identity.source == "imported" then .valid
  else
    let selfMetricsOk := !probesRan || !run.selfMetrics.isEmpty
    if run.fingerprint.hasExtended && selfMetricsOk then .reproducible else .valid

/-- Merge the fragments into a run and stamp its grade. -/
def AssayRun.assemble (runId : String) (identity : Identity F) (fingerprint : Fingerprint F)
    (gate : Json F) (fragments : List (Fragment F)) (spans : List (Json F)) : AssayRun F :=
  let probesRan := fragments.any fun f => !f.series.isEmpty || f.captureMeta.isSome
  let run : AssayRun F :=
    { schemaVersion := Assayist.schemaVersion, runId, identity, fingerprint, spans
      series := fragments.flatMap (·.series)
      selfMetrics := fragments.flatMap (·.selfMetrics)
      gate, outcome := none, workloadReport := none, grade := .invalid }
  { run with grade := run.computeGrade probesRan }

end Equality

end Grading

section Serialise

variable {F : Type}

/-- A field that is skipped when absent. -/
def optField (k : String) (v : Option (Json F)) : List (String × Json F) :=
  match v with
  | some v => [(k, v)]
  | none => []

def Identity.toJson (i : Identity F) : Json F :=
  .object [("target_adapter", .string i.targetAdapter),
    ("target_adapter_version", .string i.targetAdapterVersion),
    ("workload_driver", .string i.workloadDriver),
    ("workload_driver_version", .string i.workloadDriverVersion),
    ("sut_git_sha", .string i.sutGitSha), ("params", i.params),
    ("params_hash", .string i.paramsHash), ("benchmark_def_sha", .string i.benchmarkDefSha),
    ("source", .string i.source)]

def Fingerprint.toJson (fp : Fingerprint F) : Json F :=
  .object ([("hostname", .string fp.hostname), ("kernel_version", .string fp.kernelVersion),
    ("os_release", .string fp.osRelease), ("cpu_model", .string fp.cpuModel),
    ("cpu_count_logical", .nat fp.cpuCountLogical.toUInt64),
    ("cpu_count_physical", .nat fp.cpuCountPhysical.toUInt64),
    ("smt_enabled", .bool fp.smtEnabled), ("cpu_governor", .string fp.cpuGovernor),
    ("thp_setting", .string fp.thpSetting), ("total_memory_bytes", .nat fp.totalMemoryBytes),
    ("kvm_present", .bool fp.kvmPresent), ("tenancy", .string fp.tenancy),
    ("tuning_requested", fp.tuningRequested), ("tuning_readback", fp.tuningReadback)] ++
    optField "numa_topology" fp.numaTopology ++ optField "pinning_layout" fp.pinningLayout ++
    optField "mitigations" fp.mitigations ++
    optField "microcode_version" (fp.microcodeVersion.map .string) ++
    optField "nested_virt" (fp.nestedVirt.map .bool))

/-- The serialised run. There is no `capture_meta` field to serialise. -/
def AssayRun.toJson (run : AssayRun F) : Json F :=
  .object ([("schema_version", .string run.schemaVersion), ("run_id", .string run.runId),
    ("identity", run.identity.toJson), ("fingerprint", run.fingerprint.toJson),
    ("spans", .array run.spans), ("series", .array run.series),
    ("self_metrics", .array run.selfMetrics), ("gate", run.gate)] ++
    optField "outcome" run.outcome ++ optField "workload_report" run.workloadReport ++
    [("grade", .string run.grade.asStr)])

end Serialise

end Assayist
