import Assayist.Spec.Def
import Assayist.Spec.Render
import Mathlib.Data.Nat.Digits.Defs

/-! The firecracker target as its definition configures it, and the targets of a run: one, or
one for each of the instances that run side by side. -/

namespace Assayist

/-- `s.parse::<u32>()`. -/
def parseU32 (s : String) : Option UInt32 :=
  (parseU64 s).bind fun n => if n.toNat < 2 ^ 32 then some n.toUInt32 else none

/-- `a * b` on `u32`. -/
def mulU32 [Build] (a b : UInt32) : Except Abort UInt32 :=
  if Build.overflowChecks && decide (2 ^ 32 ≤ a.toNat * b.toNat) then
    .error (.panic .arithmeticOverflow)
  else .ok (a * b)

section Target

variable {F : Type} [FloatText F]

/-- A setting as text: a string as it stands, anything else as JSON. -/
def settingText : Json F → String
  | .string s => s
  | other => other.text

/-- Read a config key, render its references, fall back to `default`. -/
def cfg (config : List (String × Json F)) (vars : Vars) (key default : String) : String :=
  match config.lookup key with
  | some (.string s) => render s vars
  | some other => other.text
  | none => default

def base36Digits : List Char := "0123456789abcdefghijklmnopqrstuvwxyz".toList

/-- Lower-case base36. -/
def base36 (n : ℕ) : String :=
  if n = 0 then "0"
  else String.ofList ((Nat.digits 36 n).reverse.map fun d => base36Digits.getD d '0')

/-- `{b:02x}` of a byte. -/
def hexByte (b : ℕ) : String := String.ofList [Nat.digitChar (b / 16), Nat.digitChar (b % 16)]

/-- A deterministic locally-administered MAC from the index of an instance. -/
def guestMacFor (index : UInt64) : String :=
  "02:00:00:00:" ++ hexByte (index.toNat / 256 % 256) ++ ":" ++ hexByte (index.toNat % 256)

structure FirecrackerTarget where
  bin : String
  sock : String
  vcpu : String
  memMib : String
  smt : Bool
  kernel : String
  rootfs : String
  bootArgs : String
  fromSnapshot : Option (String × String)
  snapshotOut : Option (String × String)
  readiness : Option String
  preRestore : Option String
  memBackend : String
  uffdHandler : Option String
  streamSource : Option String
  streamBin : String
  streamWsmeta : String
  streamPrefetch : Bool
  streamDir : String
  pinThreads : Bool
  cpuBase : UInt32
  tap : Option String
  guestMac : String
  deriving DecidableEq

/-- The target of a process at a time on its clock. -/
def firecrackerTarget (pid : UInt32) (nowNanos : UInt64) (config : List (String × Json F))
    (vars : Vars) (pinThreads : Bool) : FirecrackerTarget :=
  let g := cfg config vars
  let inst := (vars.lookup "instance").map ("-" ++ ·)
  let sock := g "api_sock"
    ("/tmp/assayist-fc-" ++ toString pid.toNat ++ inst.getD "" ++ ".sock")
  let instance' := ((vars.lookup "instance").bind parseU64).getD 0
  { bin := g "bin" "firecracker"
    sock
    vcpu := (vars.lookup "vcpu").getD (g "vcpu" "1")
    memMib := (vars.lookup "mem_mib").getD (g "mem_mib" "128")
    smt := g "smt" "false" ∈ ["true", "on", "1"]
    kernel := g "kernel" ""
    rootfs := g "rootfs" ""
    bootArgs := g "boot_args" "console=ttyS0 reboot=k panic=1"
    fromSnapshot := (config.lookup "from_snapshot").map fun _ =>
      (g "from_snapshot" "", g "mem_file" "")
    snapshotOut := (config.lookup "snapshot_out").map fun _ =>
      (g "snapshot_out" "", g "snapshot_mem" "")
    readiness := (config.lookup "readiness").map fun _ => g "readiness" ""
    preRestore := (config.lookup "pre_restore").map fun _ => g "pre_restore" ""
    memBackend := if toLowercase (g "mem_backend" "File") = "uffd" then "Uffd" else "File"
    uffdHandler := (config.lookup "uffd_handler").map fun _ => g "uffd_handler" ""
    streamSource := ((config.lookup "stream_source").map fun _ => g "stream_source" "").filter
      fun s => trim s != ""
    streamBin := g "stream_bin" "bpfoliod"
    streamWsmeta := g "stream_wsmeta" ""
    streamPrefetch := toLowercase (g "stream_prefetch" "false") ∈ ["stream", "true", "on"]
    streamDir := sock ++ ".stream." ++ toString nowNanos.toNat
    pinThreads
    cpuBase := ((vars.lookup "cpu_base").bind parseU32).getD 0
    tap :=
      if toLowercase (g "network" "") = "tap" then
        some ("asy" ++ base36 pid.toNat ++ "-" ++ toString instance'.toNat)
      else none
    guestMac := guestMacFor instance' }

namespace FirecrackerTarget

/-- The count that the machine is configured with. -/
def vcpuCount (t : FirecrackerTarget) : UInt64 := (parseU64 t.vcpu).getD 1

def memSizeMib (t : FirecrackerTarget) : UInt64 := (parseU64 t.memMib).getD 128

/-- The socket that the userfaultfd handler listens on. -/
def uffdUds (t : FirecrackerTarget) : String := t.sock ++ ".uffd"

/-- What a snapshot's memory is restored from: the kind of backend and its path. -/
def memBackendOf (t : FirecrackerTarget) (mem : String) : Except String (String × String) :=
  if t.memBackend = "Uffd" then
    match t.uffdHandler.filter fun h => trim h != "" with
    | some _ => .ok ("Uffd", t.uffdUds)
    | none => .error "mem_backend: uffd needs a uffd_handler command"
  else
    match t.streamSource with
    | some _ => .ok ("File", t.streamDir ++ "/mem")
    | none => .ok ("File", mem)

/-- The logical CPU that `pin_cmd` pins the thread of a vCPU to: `cpu=$((base + n))`. -/
def pinnedCpu (t : FirecrackerTarget) (n : ℕ) : ℕ := t.cpuBase.toNat + n

end FirecrackerTarget

/-- `json!` of an object, whose map iterates in the order of its keys. -/
def jsonObject (m : List (String × Json F)) : Json F :=
  .object (m.mergeSort fun a b => a.1 ≤ b.1)

end Target

/-- A request to the API of firecracker. -/
structure ApiRequest where
  method : String
  path : String
  body : String
  deriving DecidableEq

namespace FirecrackerTarget

/-- The command line that sends a request. -/
def apiCmd (t : FirecrackerTarget) (r : ApiRequest) : String :=
  "curl -fsS --unix-socket '" ++ t.sock ++ "' -X " ++ r.method ++ " 'http://localhost" ++ r.path ++
    "' -H 'Content-Type: application/json' -d '" ++ r.body ++ "'"

section Requests

variable (F : Type) [FloatText F]

/-- The requests of `provision` where nothing fails. -/
def provisionRequests (t : FirecrackerTarget) : Except String (List ApiRequest) :=
  match t.fromSnapshot with
  | some (snap, mem) => do
    let (type, path) ← t.memBackendOf mem
    let backend : Json F :=
      jsonObject [("backend_type", .string type), ("backend_path", .string path)]
    let body := jsonObject [("snapshot_path", .string snap), ("mem_backend", backend),
      ("resume_vm", .bool true)]
    pure [⟨"PUT", "/snapshot/load", body.text⟩]
  | none =>
    let machine : Json F := jsonObject [("vcpu_count", .nat t.vcpuCount),
      ("mem_size_mib", .nat t.memSizeMib), ("smt", .bool t.smt)]
    let boot : Json F := jsonObject [("kernel_image_path", .string t.kernel),
      ("boot_args", .string t.bootArgs)]
    let drive : Json F := jsonObject [("drive_id", .string "rootfs"),
      ("path_on_host", .string t.rootfs), ("is_root_device", .bool true),
      ("is_read_only", .bool false)]
    let iface (tap : String) : Json F := jsonObject [("iface_id", .string "eth0"),
      ("host_dev_name", .string tap), ("guest_mac", .string t.guestMac)]
    .ok ([⟨"PUT", "/machine-config", machine.text⟩, ⟨"PUT", "/boot-source", boot.text⟩,
        ⟨"PUT", "/drives/rootfs", drive.text⟩] ++
      (t.tap.map fun tap => ⟨"PUT", "/network-interfaces/eth0", (iface tap).text⟩).toList)

/-- In restore mode the VM is already resumed. -/
def startRequests (t : FirecrackerTarget) : List ApiRequest :=
  if t.fromSnapshot.isSome then []
  else [⟨"PUT", "/actions", "\x7b\"action_type\":\"InstanceStart\"\x7d"⟩]

/-- The requests of `reach_steady`: the snapshot of the steady VM, if one is asked for. -/
def steadyRequests (t : FirecrackerTarget) : List ApiRequest :=
  match t.snapshotOut with
  | some (snap, mem) =>
    let body : Json F := jsonObject [("snapshot_type", .string "Full"),
      ("snapshot_path", .string snap), ("mem_file_path", .string mem)]
    [⟨"PATCH", "/vm", "\x7b\"state\":\"Paused\"\x7d"⟩, ⟨"PUT", "/snapshot/create", body.text⟩,
      ⟨"PATCH", "/vm", "\x7b\"state\":\"Resumed\"\x7d"⟩]
  | none => []

/-- What a target asks of the API from `provision` on until it is steady. -/
def requests (t : FirecrackerTarget) : List ApiRequest :=
  match t.provisionRequests F with
  | .ok rs => rs ++ t.startRequests ++ t.steadyRequests F
  | .error _ => []

end Requests

end FirecrackerTarget

section Build

variable {F τ : Type} [FloatText F]

/-- What a run asks of the machine it is on: the process it is, and the clock as it makes the
`i`-th target. -/
structure Host where
  pid : UInt32
  nowNanos : ℕ → UInt64

/-- Build the `i`-th target by the name of its adapter. `others` makes those of the adapters
that are not firecracker. -/
def selectTarget (host : Host) (others : BenchmarkDef F → Vars → Bool → τ) (d : BenchmarkDef F)
    (pinThreads : Bool) (i : ℕ) (vars : Vars) : FirecrackerTarget ⊕ τ :=
  if d.target.adapter = "firecracker" then
    .inl (firecrackerTarget host.pid (host.nowNanos i) d.target.config vars pinThreads)
  else .inr (others d vars pinThreads)

/-- A setting of the cell, or else of the target, as it is written. -/
def declared (d : BenchmarkDef F) (vars : Vars) (key : String) : Option String :=
  (vars.lookup key).or ((d.target.config.lookup key).map settingText)

/-- A declared setting as a number, at least 1. -/
def declaredU32 (d : BenchmarkDef F) (vars : Vars) (key : String) : UInt32 :=
  max (((declared d vars key).bind parseU32).getD 1) 1

/-- How many sandboxes to bring up concurrently. -/
def instancesOf (d : BenchmarkDef F) (vars : Vars) : UInt32 := declaredU32 d vars "instances"

/-- The variables of an instance: its index and, where its threads are pinned, its first CPU. -/
def instanceVars [Build] (vars : Vars) (pinThreads : Bool) (vcpu : UInt32) (i : ℕ) :
    Except Abort Vars :=
  let v := Vars.insert "instance" (toString i) vars
  if pinThreads then do
    let base ← mulU32 (UInt32.ofNat i) vcpu
    pure (Vars.insert "cpu_base" (toString base.toNat) v)
  else pure v

/-- A run's target: one, or several at once. -/
inductive Built (τ : Type) where
  | single (t : τ)
  | fanout (inners : List τ)

/-- Build the run's target; `select` makes the `i`-th. -/
def buildTarget [Build] (select : ℕ → Vars → τ) (d : BenchmarkDef F) (vars : Vars)
    (pinThreads : Bool) : Except Abort (Built τ) :=
  let n := instancesOf d vars
  if n ≤ 1 then pure (.single (select 0 vars))
  else do
    let vcpu := declaredU32 d vars "vcpu"
    let inners ← (List.range n.toNat).mapM fun i => do
      let v ← instanceVars vars pinThreads vcpu i
      pure (select i v)
    pure (.fanout inners)

end Build

end Assayist
