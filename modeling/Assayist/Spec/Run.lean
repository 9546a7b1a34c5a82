import Assayist.Spec.Contract
import Assayist.Spec.Def
import Assayist.Spec.HostPrep
import Assayist.Spec.Owner

/-! One run as `run_cmd` assembles it: the run id, the identity of its cell, the gate
context, and what the capture left. -/

namespace Assayist

/-- The versions of the running adapters. -/
structure AdapterVersions where
  target : String
  workload : String

/-- `{n:032x}`. -/
def hex32 (n : ℕ) : String := String.ofList ((Nat.toDigits 16 n).leftpad 32 '0')

/-- The run id at a time since the epoch: 48 bits of milliseconds over 80 bits of entropy,
in hexadecimal. `sha256` is the digest, `counter` the process's own. -/
def newRunId (sha256 : List UInt8 → List UInt8) (nanos : ℕ) (pid counter : UInt64) : String :=
  let ms := nanos / 10 ^ 6 &&& (1 <<< 48 - 1)
  let digest := sha256 (Owner.leBytes 16 nanos ++ Owner.leBytes 8 pid.toNat ++
    Owner.leBytes 8 counter.toNat)
  let entropy := (digest.take 10).foldl (fun entropy b => entropy <<< 8 ||| b.toNat) 0
  hex32 (ms <<< 80 ||| entropy)

section Build

variable {F : Type}

def buildIdentity (d : BenchmarkDef F) (params : Json F)
    (paramsHash benchmarkDefSha sutGitSha : String) (versions : AdapterVersions) : Identity F where
  targetAdapter := d.target.adapter
  targetAdapterVersion := versions.target
  workloadDriver := d.workload.driver
  workloadDriverVersion := versions.workload
  sutGitSha
  params
  paramsHash
  benchmarkDefSha
  source := "captured"

variable [F64 F]

/-- The gate context. The baseline reference is empty at capture time. -/
def buildGateContext (d : BenchmarkDef F) (baselineRef : String) : Json F :=
  .object [("mode", .string d.gate.mode), ("baseline_ref", .string baselineRef),
    ("p_threshold", .float (d.gate.pThreshold.getD (1 / 100))),
    ("noise_threshold", .float (d.gate.noiseThreshold.getD (5 / 100))),
    ("resamples", .nat (d.gate.resamples.getD 10000)),
    ("ignore", .array (d.gate.ignore.map .string)), ("tenancy", .string d.tenancy)]

/-- What `run_cmd` has gathered when it assembles a run of a cell: the host as it reads its
facts and, later, its tuning, and what the adapters and the gadgets left. -/
structure Gathered (F : Type) where
  defSha : String
  sut : String
  versions : AdapterVersions
  host : HostFiles
  later : HostFiles
  pinningLayout : Option (List (String × Json F))
  fragments : List (Fragment F)
  spans : List (Json F)
  workloadReport : Json F

/-- This run's own pinning folded into a fingerprint. -/
def Gathered.pin (g : Gathered F) (fp : Fingerprint F) : Fingerprint F :=
  match g.pinningLayout with
  | some layout => { fp with pinningLayout := some (.object layout) }
  | none => fp

/-- The run of a cell that `run_cmd` writes. -/
def cellRun [Build] (runId : String) (d : BenchmarkDef F) (cell : Cell F) (g : Gathered F) :
    Except Abort (AssayRun F) := do
  let identity := buildIdentity d cell.params cell.paramsHash g.defSha g.sut g.versions
  let gate := buildGateContext d ""
  let fp ← HostPrep.observe g.host g.later (HostPrep.knobsOf d.hostPrep) d.tenancy
  let assay := AssayRun.assemble runId identity (g.pin fp) gate g.fragments g.spans
  pure (if g.workloadReport.isNull then assay
    else { assay with workloadReport := some g.workloadReport })

end Build

end Assayist
