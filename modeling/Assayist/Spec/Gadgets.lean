import Assayist.Spec.Contract
import Assayist.Spec.Stats
import Mathlib.Data.UInt

/-! The fragments the kvm, block and ctrlplane loaders write at the end of their
window: the series read out of the kernel maps, and the cost of each attached
program. -/

namespace Assayist

/-- A loaded program's run-time counters. -/
structure ProgStats where
  runTimeNs : UInt64
  runCnt : UInt64

/-- A window: its wall time and the budget as a fraction of one core. -/
structure Window (F : Type) where
  wallNs : UInt64
  budget : F

section Cost

variable {F : Type} [F64 F]

def steadyFraction (w : Window F) (st : ProgStats) : F :=
  if 0 < w.wallNs then (st.runTimeNs.toNat : F) / (w.wallNs.toNat : F) else 0

def overBudget (w : Window F) (st : ProgStats) : Bool := decide (w.budget < steadyFraction w st)

def probeCost (w : Window F) (attachKind probeId : String) (st : ProgStats) (hotPath : Bool) :
    Json F :=
  .object [("probe_id", .string probeId), ("attach_kind", .string attachKind),
    ("run_time_ns", .nat st.runTimeNs), ("run_cnt", .nat st.runCnt),
    ("mean_ns", .float
      (if 0 < st.runCnt then (st.runTimeNs.toNat : F) / (st.runCnt.toNat : F) else 0)),
    ("steady_cpu_fraction", .float (steadyFraction w st)),
    ("over_budget", .bool (overBudget w st)), ("hot_path", .bool hotPath)]

end Cost

section Series

variable {F : Type}

/-- The observations in a slot array. -/
def slotCount (slots : List UInt32) : UInt64 := (slots.map UInt32.toUInt64).sum

def slotsJson (slots : List UInt32) : Json F := .array (slots.map fun c => .nat c.toUInt64)

def log2Data (slots : List UInt32) (count : UInt64) : Json F :=
  .object [("layout", .string "log2"), ("buckets", slotsJson slots), ("count", .nat count)]

def bounded (keySource : String) (maxKeys : UInt64) : Json F :=
  .object [("class", .string "bounded"), ("key_source", .string keySource),
    ("max_keys", .nat maxKeys)]

def singleton : Json F := .object [("class", .string "singleton")]

/-- A series record, with its optional key. -/
def seriesJson (name unit kind source : String) (key : Option String)
    (cardinality data : Json F) : Json F :=
  .object ([("name", .string name), ("unit", .string unit), ("kind", .string kind),
    ("source", .string source)] ++
    (match key with
      | some k => [("key", .string k)]
      | none => []) ++
    [("cardinality", cardinality), ("data", data)])

end Series

section Kvm

variable {F : Type}

def vmxReasons : List (UInt32 × String) :=
  [(0, "EXCEPTION_NMI"), (1, "EXTERNAL_INTERRUPT"), (2, "TRIPLE_FAULT"), (7, "INTERRUPT_WINDOW"),
    (12, "HLT"), (18, "VMCALL"), (28, "CR_ACCESS"), (30, "IO_INSTRUCTION"), (31, "MSR_READ"),
    (32, "MSR_WRITE"), (44, "APIC_ACCESS"), (48, "EPT_VIOLATION"), (49, "EPT_MISCONFIG"),
    (52, "PREEMPTION_TIMER")]

def svmReasons : List (UInt32 × String) :=
  [(0x060, "INTR"), (0x061, "NMI"), (0x078, "HLT"), (0x07b, "IOIO"), (0x07c, "MSR"),
    (0x081, "VMMCALL"), (0x400, "NPF")]

def reasonName (vendor : String) (r : UInt32) : String :=
  let named :=
    if vendor = "amd" then svmReasons.lookup r
    else if vendor = "intel" then vmxReasons.lookup r
    else none
  named.getD ("reason_" ++ toString r.toNat)

/-- One entry of the kvm gadget's histogram map. -/
structure KvmHist where
  cgroupId : UInt64
  exitReason : UInt32
  slots : List UInt32

structure KvmCapture (F : Type) where
  vendor : String
  perGuest : Bool
  maxKeys : UInt64
  hists : List KvmHist
  maxEntries : UInt64
  exitStats : ProgStats
  entryStats : ProgStats
  window : Window F

def kvmSeries (c : KvmCapture F) (h : KvmHist) : Option (Json F) :=
  let count := slotCount h.slots
  if count = 0 then none
  else some (seriesJson ("kvm.exit_handling_latency:" ++ reasonName c.vendor h.exitReason) "ns"
    "histogram" "kvm_exit" (if c.perGuest then some (toString h.cgroupId.toNat) else none)
    (if c.perGuest then bounded "cgroup_id" c.maxKeys else singleton)
    (log2Data h.slots count))

/-- The map filled: distinct keys pressed against its capacity. -/
def kvmOverflow (c : KvmCapture F) : Bool := decide (c.maxEntries.toNat ≤ c.hists.length)

def kvmFragment [F64 F] (c : KvmCapture F) : Fragment F where
  series := c.hists.filterMap (kvmSeries c)
  selfMetrics := [probeCost c.window "tracepoint" "kvm_exit" c.exitStats true,
    probeCost c.window "tracepoint" "kvm_entry" c.entryStats true]
  captureMeta := some (.object [("gadget", .string "assayist-capture-kvm"),
    ("window_ns", .nat c.window.wallNs), ("cpu_vendor", .string c.vendor),
    ("per_guest", .bool c.perGuest), ("cardinality_overflow", .bool (kvmOverflow c))])

end Kvm

section Block

variable {F : Type}

def subslots : ℕ := 4

def maxOctaves : ℕ := 40

/-- `a + b` on `u32`. -/
def addU32 [Build] (a b : UInt32) : Except Abort UInt32 :=
  if Build.overflowChecks && decide (2 ^ 32 ≤ a.toNat + b.toNat) then
    .error (.panic .arithmeticOverflow)
  else .ok (a + b)

/-- The log-linear sub-buckets summed back to one slot an octave. -/
def collapseToLog2 [Build] (slots : List UInt32) : Except Abort (List UInt32) :=
  (List.range maxOctaves).mapM fun o =>
    ((slots.drop (o * subslots)).take subslots).foldlM addU32 0

/-- Upper edges of the log-linear buckets, the last bucket being open-ended. -/
def logLinearBounds [F64 F] : List F :=
  (List.range (maxOctaves * subslots - 1)).map fun s =>
    ((2 ^ (s / subslots) : ℕ) : F) * (1 + (((s % subslots : ℕ) : F) + 1) / (subslots : F))

/-- One entry of the block gadget's map. -/
structure BlkStat where
  dev : UInt32
  isWrite : Bool
  slots : List UInt32
  totalBytes : UInt64

structure BlockCapture (F : Type) where
  maxKeys : UInt64
  hires : Bool
  stats : List BlkStat
  issueStats : ProgStats
  completeStats : ProgStats
  window : Window F

def devStr (dev : UInt32) : String :=
  toString (dev >>> 20).toNat ++ ":" ++ toString (dev &&& 0xFFFFF).toNat

def blockHistData [F64 F] [Build] (hires : Bool) (slots : List UInt32) (count : UInt64) :
    Except Abort (Json F) :=
  if hires then
    .ok (.object [("layout", .string "explicit"), ("buckets", slotsJson slots),
      ("explicit_bounds", .array (logLinearBounds.map Json.float)), ("count", .nat count)])
  else do
    let octaves ← collapseToLog2 slots
    pure (log2Data octaves count)

def blockSeries [F64 F] [Build] (c : BlockCapture F) (st : BlkStat) :
    Except Abort (List (Json F)) :=
  let count := slotCount st.slots
  if count = 0 then pure []
  else do
    let rw := if st.isWrite then "write" else "read"
    let data ← blockHistData c.hires st.slots count
    let card := bounded "device" c.maxKeys
    pure [seriesJson ("block.io_latency:" ++ rw) "ns" "histogram" "block_rq_complete"
        (some (devStr st.dev)) card data,
      seriesJson ("block.io_bytes:" ++ rw) "By" "counter" "block_rq_complete"
        (some (devStr st.dev)) card
        (.object [("value", .nat st.totalBytes), ("start_unix_nano", .nat 0)])]

def blockFragment [F64 F] [Build] (c : BlockCapture F) : Except Abort (Fragment F) := do
  let series ← c.stats.mapM (blockSeries c)
  pure
    { series := series.flatten
      selfMetrics := [probeCost c.window "tracepoint" "block_rq_issue" c.issueStats true,
        probeCost c.window "tracepoint" "block_rq_complete" c.completeStats true]
      captureMeta := some (.object [("gadget", .string "assayist-capture-block"),
        ("window_ns", .nat c.window.wallNs)]) }

end Block

section Ctrlplane

variable {F : Type}

/-- A run-queue histogram and an on-CPU total, by cgroup. -/
structure RunqHist where
  cgroupId : UInt64
  slots : List UInt32

structure OnCpu where
  cgroupId : UInt64
  ns : UInt64

structure CtrlplaneCapture (F : Type) where
  names : List (UInt64 × String)
  maxKeys : UInt64
  runq : List RunqHist
  oncpu : List OnCpu
  wakeupStats : ProgStats
  wakeupNewStats : ProgStats
  switchStats : ProgStats
  window : Window F

def nameFor (c : CtrlplaneCapture F) (id : UInt64) : String :=
  (c.names.lookup id).getD (toString id.toNat)

def runqSeries (c : CtrlplaneCapture F) (h : RunqHist) : Option (Json F) :=
  let count := slotCount h.slots
  if count = 0 then none
  else some (seriesJson "sched.runqueue_latency" "ns" "histogram" "sched_switch"
    (some (nameFor c h.cgroupId)) (bounded "cgroup_id" c.maxKeys) (log2Data h.slots count))

def oncpuSeries (c : CtrlplaneCapture F) (o : OnCpu) : Json F :=
  seriesJson "sched.on_cpu_ns" "ns" "counter" "sched_switch" (some (nameFor c o.cgroupId))
    (bounded "cgroup_id" c.maxKeys)
    (.object [("value", .nat o.ns), ("start_unix_nano", .nat 0)])

def ctrlplaneFragment [F64 F] (c : CtrlplaneCapture F) : Fragment F where
  series := c.runq.filterMap (runqSeries c) ++ c.oncpu.map (oncpuSeries c)
  selfMetrics := [probeCost c.window "tp_btf" "sched_wakeup" c.wakeupStats true,
    probeCost c.window "tp_btf" "sched_wakeup_new" c.wakeupNewStats true,
    probeCost c.window "tp_btf" "sched_switch" c.switchStats true]
  captureMeta := some (.object [("gadget", .string "assayist-capture-ctrlplane"),
    ("window_ns", .nat c.window.wallNs), ("filter_enabled", .bool (!c.names.isEmpty)),
    ("components", .array (c.names.map fun (_, n) => .string n))])

end Ctrlplane

end Assayist
