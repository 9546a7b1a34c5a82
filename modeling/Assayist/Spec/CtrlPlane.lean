import Assayist.Spec.Kvm
import Mathlib.Logic.Function.Basic

/-! The control-plane gadget in the kernel. A task's wakeup is stamped in one map and its next
turn on a CPU adds the wait to its cgroup's histogram in another; a third holds the time that each
cgroup has been on a CPU. The handlers run on every CPU at once, and here each goes one call of a
map helper at a time, so that those of different CPUs may mix in any order. -/

namespace Assayist

namespace CtrlPlane

/-- `struct hist`, the slots of the other log2 gadget. -/
abbrev Hist := KvmGadget.Hist

/-- `struct oncpu`: which cgroup is on the CPU, and since when; no time means none. -/
structure Oncpu where
  ts : UInt64
  cgroupId : UInt64
  deriving DecidableEq, Repr

/-- What the handlers read of a `task_struct`. -/
structure Task where
  pid : UInt32
  cgroup : UInt64
  deriving DecidableEq, Repr

/-- The `filter_enabled` constant and the keys of the `allowed` map, which is filled before the
handlers are attached. -/
structure Filter where
  enabled : Bool
  allowed : List UInt64
  deriving Repr

def allowedCg (flt : Filter) (cgid : UInt64) : Bool :=
  if !flt.enabled then true else flt.allowed.contains cgid

/-- The maps that all CPUs share. -/
structure Maps where
  wakeupTs : BoundedMap UInt32 UInt64
  runq : BoundedMap UInt64 Hist
  oncpuNs : BoundedMap UInt64 UInt64

def Maps.new : Maps := ⟨.empty 262144, .empty 4096, .empty 4096⟩

/-- The locals of `on_switch` that outlive its first part. -/
structure Switch where
  now : UInt64
  next : Task
  deriving DecidableEq, Repr

/-- Where a CPU stands in a handler: what it does next. -/
inductive Pc where
  | idle
  /-- `record_wakeup`: is the task's cgroup allowed? -/
  | wakeup (p : Task)
  /-- `record_wakeup`: stamp the wakeup. -/
  | stamp (p : Task)
  /-- `on_switch`: look at this CPU's record. -/
  | record (l : Switch)
  /-- Look up the counter of the slice that ended. -/
  | account (l : Switch) (delta : UInt64)
  /-- The counter was found. -/
  | add (l : Switch) (delta : UInt64)
  /-- The counter was not found. -/
  | insert (l : Switch) (delta : UInt64)
  /-- Is the next task's cgroup allowed? -/
  | permit (l : Switch)
  /-- Look up the next task's wakeup. -/
  | woken (l : Switch)
  /-- Look up the histogram of its wait. -/
  | latency (l : Switch) (d : UInt64)
  /-- The histogram was not found: make one of zeroes. -/
  | create (l : Switch) (d : UInt64)
  /-- Look it up again. -/
  | again (l : Switch) (d : UInt64)
  | bump (l : Switch) (d : UInt64)
  /-- Delete the wakeup. -/
  | forget (l : Switch)
  /-- Set this CPU's record. -/
  | leave (l : Switch) (ok : Bool)
  deriving DecidableEq, Repr

/-- A CPU: its entry of the `oncpu_cur` map, and where it stands. -/
structure Core where
  cur : Oncpu
  pc : Pc
  deriving DecidableEq, Repr

structure State (Cpu : Type) where
  maps : Maps
  cores : Cpu → Core

def State.new {Cpu : Type} : State Cpu := ⟨.new, fun _ => ⟨⟨0, 0⟩, .idle⟩⟩

/-- A CPU enters a handler or takes its next step there. The scheduler's tracepoints fire with
interrupts off, so a CPU enters a handler only when it is in none. -/
inductive Event (Cpu : Type) where
  | wakeup (cpu : Cpu) (p : Task)
  | switch (cpu : Cpu) (now : UInt64) (next : Task)
  | step (cpu : Cpu) (clock : UInt64)
  deriving DecidableEq, Repr

/-- The next step of a CPU in a handler. -/
def advance (flt : Filter) (clock : UInt64) (m : Maps) (core : Core) : Maps × Core :=
  match core.pc with
  | .idle => (m, core)
  | .wakeup p => (m, { core with pc := if allowedCg flt p.cgroup then .stamp p else .idle })
  | .stamp p =>
    ({ m with wakeupTs := m.wakeupTs.update p.pid clock }, { core with pc := .idle })
  | .record l =>
    (m, { core with pc := if core.cur.ts != 0 then .account l (l.now - core.cur.ts) else .permit l })
  | .account l delta =>
    let acc := m.oncpuNs.lookup core.cur.cgroupId
    (m, { core with pc := if acc.isSome then .add l delta else .insert l delta })
  | .add l delta =>
    ({ m with oncpuNs := m.oncpuNs.modify core.cur.cgroupId (· + delta) },
      { core with pc := .permit l })
  | .insert l delta =>
    ({ m with oncpuNs := m.oncpuNs.create core.cur.cgroupId delta }, { core with pc := .permit l })
  | .permit l =>
    (m, { core with pc := if allowedCg flt l.next.cgroup then .woken l else .leave l false })
  | .woken l =>
    match m.wakeupTs.lookup l.next.pid with
    | some ts => (m, { core with pc := .latency l (l.now - ts) })
    | none => (m, { core with pc := .leave l true })
  | .latency l d =>
    let h := m.runq.lookup l.next.cgroup
    (m, { core with pc := if h.isSome then .bump l d else .create l d })
  | .create l d =>
    ({ m with runq := m.runq.create l.next.cgroup (Vector.replicate KvmGadget.maxSlots 0) },
      { core with pc := .again l d })
  | .again l d =>
    -- the map is full: the sample is dropped
    let h := m.runq.lookup l.next.cgroup
    (m, { core with pc := if h.isSome then .bump l d else .forget l })
  | .bump l d =>
    ({ m with runq := m.runq.modify l.next.cgroup (KvmGadget.Hist.bump · d) },
      { core with pc := .forget l })
  | .forget l =>
    ({ m with wakeupTs := m.wakeupTs.delete l.next.pid }, { core with pc := .leave l true })
  | .leave l ok =>
    (m, { core with cur := if ok then ⟨l.now, l.next.cgroup⟩ else ⟨0, 0⟩, pc := .idle })

variable {Cpu : Type} [DecidableEq Cpu]

def State.set (s : State Cpu) (cpu : Cpu) (mc : Maps × Core) : State Cpu :=
  ⟨mc.1, Function.update s.cores cpu mc.2⟩

/-- A CPU that is in a handler does not enter one. -/
def enter (s : State Cpu) (cpu : Cpu) (pc : Pc) : Option (State Cpu) :=
  if (s.cores cpu).pc = .idle then some (s.set cpu (s.maps, { s.cores cpu with pc })) else none

def step (flt : Filter) (s : State Cpu) : Event Cpu → Option (State Cpu)
  | .wakeup cpu p => enter s cpu (.wakeup p)
  | .switch cpu now next => enter s cpu (.record ⟨now, next⟩)
  | .step cpu clock => some (s.set cpu (advance flt clock s.maps (s.cores cpu)))

def run (flt : Filter) (s : State Cpu) (evs : List (Event Cpu)) : Option (State Cpu) :=
  evs.foldlM (step flt) s

end CtrlPlane

end Assayist
