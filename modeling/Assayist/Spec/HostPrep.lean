import Assayist.Spec.Adapter
import Assayist.Spec.Contract

/-! What `run_cmd` reads of its host: the facts under `/proc`, `/sys` and `/etc`, the tuning a
definition asks for, and the fingerprint of the two; and what it writes there to tune it. -/

namespace Assayist

/-- The files of a host as the process can read them. -/
structure HostFiles where
  read : String → Option String
  entries : String → Option (List String)
  present : String → Bool

namespace HostPrep

section Text

def readTrim (files : HostFiles) (path : String) : Option String := (files.read path).map trim

/-- `s.lines()`: a carriage return goes with its newline, and an empty last line is no line. -/
def lines (s : String) : List String :=
  let pieces := s.toList.splitOn '\n'
  let ended := pieces.dropLast.map fun l => if l.getLast? = some '\r' then l.dropLast else l
  let last := pieces.getLast?.toList.filter fun l => !l.isEmpty
  (ended ++ last).map String.ofList

/-- `l.split_once(':')`. -/
def splitOnce (l : String) : Option (String × String) :=
  match l.toList.span (· ≠ ':') with
  | (_, []) => none
  | (k, _ :: v) => some (String.ofList k, String.ofList v)

def stripPrefix (p s : String) : Option String :=
  if startsWith s p then some (String.ofList (s.toList.drop p.toList.length)) else none

/-- `s.strip_prefix('[')` with `strip_suffix(']')`. -/
def unbracket : List Char → Option String
  | '[' :: cs => if cs.getLast? = some ']' then some (String.ofList cs.dropLast) else none
  | _ => none

end Text

section Facts

def cpuinfoField (cpuinfo key : String) : Option String :=
  (lines cpuinfo).findSome? fun l => match splitOnce l with
    | some (k, v) => if trim k = key then some (trim v) else none
    | none => none

/-- The cores seen so far, and those of the current processor's ids that have been read. -/
structure CoreScan where
  cores : List String
  phys : Option String
  core : Option String

/-- A blank line ends a processor. -/
def CoreScan.close (scan : CoreScan) : CoreScan :=
  match scan.phys, scan.core with
  | some p, some c => { scan with cores := scan.cores.insert (p ++ ":" ++ c) }
  | _, _ => scan

def CoreScan.line (scan : CoreScan) (l : String) : CoreScan :=
  let scan := match splitOnce l with
    | some (k, v) =>
      if trim k = "physical id" then { scan with phys := some (trim v) }
      else if trim k = "core id" then { scan with core := some (trim v) }
      else if trim k = "processor" then { scan with phys := none, core := none }
      else scan
    | none => scan
  if (trim l).isEmpty then scan.close else scan

/-- The logical and the physical processors, never less than one. -/
def cpuCounts (cpuinfo : String) : UInt32 × UInt32 :=
  let logical := UInt32.ofNat ((lines cpuinfo).countP fun l => match splitOnce l with
    | some (k, _) => decide (trim k = "processor")
    | none => false)
  let scan := ((lines cpuinfo).foldl CoreScan.line ⟨[], none, none⟩).close
  let physical := if scan.cores.isEmpty then logical else UInt32.ofNat scan.cores.length
  (max logical 1, max physical 1)

def osPrettyName (files : HostFiles) : Option String :=
  (files.read "/etc/os-release").bind fun text =>
    (lines text).findSome? fun l => (stripPrefix "PRETTY_NAME=" l).map fun v =>
      String.ofList (((v.toList.dropWhile (· = '"')).reverse.dropWhile (· = '"')).reverse)

/-- The bracketed setting of `always madvise [never]`. -/
def thpActive (files : HostFiles) : Option String :=
  (readTrim files "/sys/kernel/mm/transparent_hugepage/enabled").bind fun text =>
    (wordsOf text.toList).findSome? unbracket

/-- `a * b` on `u64`. -/
def mulU64 [Build] (a b : UInt64) : Except Abort UInt64 :=
  if Build.overflowChecks && decide (2 ^ 64 ≤ a.toNat * b.toNat) then
    .error (.panic .arithmeticOverflow)
  else .ok (a * b)

/-- `MemTotal` in KiB. -/
def meminfoTotal (files : HostFiles) : Option UInt64 :=
  (files.read "/proc/meminfo").bind fun text =>
    ((lines text).findSome? (stripPrefix "MemTotal:")).bind fun rest =>
      (wordsOf rest.toList).head?.bind fun w => parseU64 (String.ofList w)

variable {F : Type}

/-- The entries of a map in the order of its keys, unless there are none. -/
def namedTexts (entries : List (String × String)) : Option (Json F) :=
  let sorted := entries.mergeSort fun a b => !decide (b.1 < a.1)
  if sorted.isEmpty then none else some (.object (sorted.map fun e => (e.1, .string e.2)))

def numaTopology (files : HostFiles) : Option (Json F) :=
  (files.entries "/sys/devices/system/node").bind fun names =>
    namedTexts (names.filterMap fun name => (stripPrefix "node" name).bind fun id =>
      if id.toList.all Char.isDigit then
        some (name,
          (readTrim files ("/sys/devices/system/node/" ++ name ++ "/cpulist")).getD "")
      else none)

def mitigations (files : HostFiles) : Option (Json F) :=
  (files.entries "/sys/devices/system/cpu/vulnerabilities").bind fun names =>
    namedTexts (names.filterMap fun name =>
      (readTrim files ("/sys/devices/system/cpu/vulnerabilities/" ++ name)).map fun v =>
        (name, v))

def nestedVirt (files : HostFiles) : Option Bool :=
  ["/sys/module/kvm_intel/parameters/nested", "/sys/module/kvm_amd/parameters/nested"].findSome?
    fun path => (readTrim files path).map fun v => v == "Y" || v == "1"

structure Facts (F : Type) where
  hostname : String
  kernelVersion : String
  osRelease : String
  cpuModel : String
  cpuCountLogical : UInt32
  cpuCountPhysical : UInt32
  smtEnabled : Bool
  cpuGovernor : String
  thpSetting : String
  totalMemoryBytes : UInt64
  kvmPresent : Bool
  numaTopology : Option (Json F)
  mitigations : Option (Json F)
  microcodeVersion : Option String
  nestedVirt : Option Bool

def orErr {α : Type} (x : Option α) (msg : String) : Except Abort α :=
  match x with
  | some a => .ok a
  | none => .error (.error msg)

/-- `LinuxHost::facts`. -/
def facts [Build] (files : HostFiles) : Except Abort (Facts F) := do
  let cpuinfo := (readTrim files "/proc/cpuinfo").getD ""
  let counts := cpuCounts cpuinfo
  let hostname ← orErr (readTrim files "/proc/sys/kernel/hostname") "cannot read hostname"
  let kernelVersion ←
    orErr (readTrim files "/proc/sys/kernel/osrelease") "cannot read kernel version"
  let kb ← orErr (meminfoTotal files) "cannot read MemTotal"
  let totalMemoryBytes ← mulU64 kb 1024
  pure
    { hostname, kernelVersion
      osRelease := (osPrettyName files).getD "unknown"
      cpuModel := (cpuinfoField cpuinfo "model name").getD "unknown"
      cpuCountLogical := counts.1
      cpuCountPhysical := counts.2
      smtEnabled := ((readTrim files "/sys/devices/system/cpu/smt/active").map (· == "1")).getD
        false
      cpuGovernor := (readTrim files
        "/sys/devices/system/cpu/cpu0/cpufreq/scaling_governor").getD "unknown"
      thpSetting := (thpActive files).getD "unknown"
      totalMemoryBytes
      kvmPresent := files.present "/dev/kvm"
      numaTopology := HostPrep.numaTopology files
      mitigations := HostPrep.mitigations files
      microcodeVersion := cpuinfoField cpuinfo "microcode"
      nestedVirt := HostPrep.nestedVirt files }

end Facts

section Tuning

/-- The tuning knobs a definition can ask for. -/
structure TuningKnobs where
  cpuGovernor : Option String
  smt : Option Bool
  thp : Option String

variable {F : Type}

def TuningKnobs.toValue (knobs : TuningKnobs) : Json F :=
  .object (optField "cpu_governor" (knobs.cpuGovernor.map .string) ++
    optField "smt" (knobs.smt.map .bool) ++ optField "thp" (knobs.thp.map .string))

/-- A boolean, or one of the words YAML leaves as a string. -/
def asBool : Json F → Option Bool
  | .bool b => some b
  | .string s =>
    let word := String.ofList (s.toList.map Char.toLower)
    if ["on", "yes", "true", "1"].contains word then some true
    else if ["off", "no", "false", "0"].contains word then some false
    else none
  | _ => none

/-- The knobs of a `host_prep` block. -/
def knobsOf (v : Json F) : TuningKnobs where
  cpuGovernor := v.getStr "cpu_governor"
  smt := (v.get "smt").bind asBool
  thp := v.getStr "thp"

/-- A `host_prep` block: the knobs, and whether the target is to pin its threads. -/
structure Block where
  knobs : TuningKnobs
  pinThreads : Bool

/-- `HostPrep::from_value`. -/
def fromValue (v : Json F) : Block where
  knobs := knobsOf v
  pinThreads := ((v.get "pin_threads").bind asBool).getD false

/-- `LinuxHost::read_tuning`: only the knobs that were asked for. -/
def readTuning (files : HostFiles) (want : TuningKnobs) : TuningKnobs where
  cpuGovernor := if want.cpuGovernor.isSome then
      readTrim files "/sys/devices/system/cpu/cpu0/cpufreq/scaling_governor"
    else none
  smt := if want.smt.isSome then
      (readTrim files "/sys/devices/system/cpu/smt/active").map (· == "1")
    else none
  thp := if want.thp.isSome then thpActive files else none

def buildFingerprint (facts : Facts F) (requested readback : TuningKnobs) (tenancy : String)
    (pinningLayout : Option (Json F)) : Fingerprint F where
  hostname := facts.hostname
  kernelVersion := facts.kernelVersion
  osRelease := facts.osRelease
  cpuModel := facts.cpuModel
  cpuCountLogical := facts.cpuCountLogical
  cpuCountPhysical := facts.cpuCountPhysical
  smtEnabled := facts.smtEnabled
  cpuGovernor := facts.cpuGovernor
  thpSetting := facts.thpSetting
  totalMemoryBytes := facts.totalMemoryBytes
  kvmPresent := facts.kvmPresent
  tenancy
  tuningRequested := requested.toValue
  tuningReadback := readback.toValue
  numaTopology := facts.numaTopology
  pinningLayout
  mitigations := facts.mitigations
  microcodeVersion := facts.microcodeVersion
  nestedVirt := facts.nestedVirt

/-- The fingerprint of the host as it stands, `later` when the tuning is read back. -/
def observe [Build] (files later : HostFiles) (knobs : TuningKnobs) (tenancy : String) :
    Except Abort (Fingerprint F) := do
  let facts ← facts files
  let readback := readTuning later knobs
  pure (buildFingerprint facts knobs readback tenancy none)

end Tuning

section Apply

/-- What the kernel makes of a write below `/sys`, a failure or the host as it is then; and the
error of a directory that cannot be listed. -/
structure Sysfs where
  write : String → String → HostFiles → Except String HostFiles
  listError : String

def writeSysfs (sys : Sysfs) (path value : String) (files : HostFiles) :
    Except Abort HostFiles :=
  match sys.write path value files with
  | .ok files => .ok files
  | .error e => .error (.error ("writing '" ++ value ++ "' to " ++ path ++ ": " ++ e))

def cpuDir : String := "/sys/devices/system/cpu"

def governorPath (name : String) : String :=
  cpuDir ++ "/" ++ name ++ "/cpufreq/scaling_governor"

def smtControl : String := cpuDir ++ "/smt/control"

def thpEnabled : String := "/sys/kernel/mm/transparent_hugepage/enabled"

/-- A name such as `cpu0`. -/
def isCpuN (name : String) : Bool :=
  match stripPrefix "cpu" name with
  | some n => !n.isEmpty && n.toList.all Char.isDigit
  | none => false

/-- One entry of the directory of CPUs, with the count of the nodes that were written. -/
def setGovernorOf (sys : Sysfs) (gov : String) (s : HostFiles × ℕ) (name : String) :
    Except Abort (HostFiles × ℕ) :=
  if isCpuN name && s.1.present (governorPath name) then do
    let files ← writeSysfs sys (governorPath name) gov s.1
    pure (files, s.2 + 1)
  else pure s

/-- Write the governor to the cpufreq node of every online CPU; a host without one is an error. -/
def setGovernor (sys : Sysfs) (gov : String) (files : HostFiles) : Except Abort HostFiles :=
  match files.entries cpuDir with
  | none => .error (.error ("listing cpus: " ++ sys.listError))
  | some names => do
    let s ← names.foldlM (setGovernorOf sys gov) (files, 0)
    if s.2 = 0 then
      .error (.error "no cpufreq scaling_governor present; cannot set the CPU governor")
    else pure s.1

def setSmt (sys : Sysfs) (on : Bool) (files : HostFiles) : Except Abort HostFiles :=
  if files.present smtControl then writeSysfs sys smtControl (if on then "on" else "off") files
  else
    .error (.error ("SMT control not available (" ++ smtControl ++ " missing)"))

/-- `LinuxHost::apply_tuning`: the host as the writes leave it. -/
def applyTuning (sys : Sysfs) (want : TuningKnobs) (files : HostFiles) :
    Except Abort HostFiles := do
  let files ← match want.cpuGovernor with
    | some gov => setGovernor sys gov files
    | none => pure files
  let files ← match want.smt with
    | some on => setSmt sys on files
    | none => pure files
  match want.thp with
  | some thp => writeSysfs sys thpEnabled thp files
  | none => pure files

/-- Apply the tuning, and take the fingerprint of the host as it is then. -/
def prepare {F : Type} [Build] (sys : Sysfs) (files : HostFiles) (knobs : TuningKnobs)
    (tenancy : String) : Except Abort (Fingerprint F) := do
  let tuned ← applyTuning sys knobs files
  let facts ← facts tuned
  let readback := readTuning tuned knobs
  pure (buildFingerprint facts knobs readback tenancy none)

end Apply

end HostPrep

end Assayist
