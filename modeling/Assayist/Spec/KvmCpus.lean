import Assayist.Spec.Kvm
import Mathlib.Data.Fintype.Basic
import Mathlib.Logic.Function.Basic

/-! The handlers of the kvm gadget on the CPUs of a machine, one call of a map helper at a time, so
that those of different CPUs may mix in any order. A thread is on one CPU at a time, and the handlers
run with preemption off. -/

namespace Assayist

namespace KvmCpus

open KvmGadget

/-- Where a CPU stands in a handler: what it does next for a thread. -/
inductive Pc where
  | idle
  /-- `handle_kvm_exit`: stash the exit. -/
  | stash (tid : UInt32) (now : UInt64) (exitReason : UInt32) (cgroup : UInt64)
  /-- `handle_kvm_entry`: look up the thread's exit. -/
  | exit (tid : UInt32)
  /-- Look up the histogram of the latency. -/
  | find (tid : UInt32) (hk : HistKey) (delta : UInt64)
  /-- It was not found: make one of zeroes. -/
  | create (tid : UInt32) (hk : HistKey) (delta : UInt64)
  /-- Look it up again. -/
  | again (tid : UInt32) (hk : HistKey) (delta : UInt64)
  | bump (tid : UInt32) (hk : HistKey) (delta : UInt64)
  /-- Delete the exit. -/
  | forget (tid : UInt32)
  deriving DecidableEq, Repr

/-- The thread that a handler runs for. -/
def Pc.tid : Pc → Option UInt32
  | idle => none
  | stash tid _ _ _ | exit tid | find tid _ _ | create tid _ _ | again tid _ _ | bump tid _ _
  | forget tid => some tid

structure State (Cpu : Type) where
  maps : Maps
  cores : Cpu → Pc

def State.new {Cpu : Type} : State Cpu := ⟨.new, fun _ => .idle⟩

/-- A tracepoint fires on the thread that is on a CPU, or a CPU takes its next step in a handler at
the time its clock shows. -/
inductive Event (Cpu : Type) where
  | kvmExit (cpu : Cpu) (tid : UInt32) (now : UInt64) (exitReason : UInt32) (cgroup : UInt64)
  | kvmEntry (cpu : Cpu) (tid : UInt32)
  | step (cpu : Cpu) (clock : UInt64)
  deriving DecidableEq, Repr

def advance (perGuest : Bool) (clock : UInt64) (m : Maps) : Pc → Maps × Pc
  | .idle => (m, .idle)
  | .stash tid now exitReason cgroup =>
    (handleKvmExit perGuest m tid now exitReason cgroup, .idle)
  | .exit tid =>
    match m.exitStart.lookup tid with
    | none => (m, .idle)
    | some st => (m, .find tid ⟨st.cgroupId, st.exitReason⟩ (clock - st.ts))
  | .find tid hk delta =>
    (m, if (m.hists.lookup hk).isSome then .bump tid hk delta else .create tid hk delta)
  | .create tid hk delta =>
    ({ m with hists := m.hists.create hk (Vector.replicate maxSlots 0) }, .again tid hk delta)
  | .again tid hk delta =>
    -- the map is full: the sample is dropped
    (m, if (m.hists.lookup hk).isSome then .bump tid hk delta else .forget tid)
  | .bump tid hk delta => ({ m with hists := m.hists.modify hk (·.bump delta) }, .forget tid)
  | .forget tid => ({ m with exitStart := m.exitStart.delete tid }, .idle)

variable {Cpu : Type} [DecidableEq Cpu]

def State.set (s : State Cpu) (cpu : Cpu) (r : Maps × Pc) : State Cpu :=
  ⟨r.1, Function.update s.cores cpu r.2⟩

variable [Fintype Cpu]

/-- A CPU enters a handler when it is in none, and no other CPU is in one for the thread. -/
def enter (s : State Cpu) (cpu : Cpu) (tid : UInt32) (pc : Pc) : Option (State Cpu) :=
  if s.cores cpu = .idle ∧ ∀ c, (s.cores c).tid ≠ some tid then some (s.set cpu (s.maps, pc))
  else none

def step (perGuest : Bool) (s : State Cpu) : Event Cpu → Option (State Cpu)
  | .kvmExit cpu tid now exitReason cgroup => enter s cpu tid (.stash tid now exitReason cgroup)
  | .kvmEntry cpu tid => enter s cpu tid (.exit tid)
  | .step cpu clock => some (s.set cpu (advance perGuest clock s.maps (s.cores cpu)))

def run (perGuest : Bool) (s : State Cpu) (evs : List (Event Cpu)) : Option (State Cpu) :=
  evs.foldlM (step perGuest) s

end KvmCpus

end Assayist
