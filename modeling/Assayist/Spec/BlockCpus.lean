import Assayist.Spec.Block
import Mathlib.Logic.Function.Basic

/-! The handlers of the block gadget on the CPUs of a machine, one call of a map helper and one atomic
addition at a time, so that those of different CPUs may mix in any order. -/

namespace Assayist

namespace BlockCpus

open BlockGadget

/-- Where a CPU stands in a handler: what it does next for a request. -/
inductive Pc where
  | idle
  /-- `handle_issue`: stash the request. -/
  | stash (k : RqKey) (bytes : UInt64) (rwbs : Char) (now : UInt64)
  /-- `handle_complete`: look up the request. -/
  | start (k : RqKey)
  /-- Look up the entry of its device. -/
  | find (k : RqKey) (bk : BlkKey) (delta bytes : UInt64)
  /-- It was not found: make one of zeroes. -/
  | create (k : RqKey) (bk : BlkKey) (delta bytes : UInt64)
  /-- Look it up again. -/
  | again (k : RqKey) (bk : BlkKey) (delta bytes : UInt64)
  | slot (k : RqKey) (bk : BlkKey) (delta bytes : UInt64)
  | bytes (k : RqKey) (bk : BlkKey) (bytes : UInt64)
  /-- Delete the request. -/
  | forget (k : RqKey)
  deriving DecidableEq, Repr

/-- The request that a handler runs for. -/
def Pc.request : Pc → Option RqKey
  | idle => none
  | stash k _ _ _ | start k | find k _ _ _ | create k _ _ _ | again k _ _ _ | slot k _ _ _
  | bytes k _ _ | forget k => some k

structure State (Cpu : Type) where
  maps : Maps
  cores : Cpu → Pc

def State.new {Cpu : Type} : State Cpu := ⟨.new, fun _ => .idle⟩

/-- A tracepoint fires on a CPU, or a CPU takes its next step in a handler at the time its clock
shows. -/
inductive Event (Cpu : Type) where
  | issue (cpu : Cpu) (dev : UInt32) (sector bytes : UInt64) (rwbs : Char) (now : UInt64)
  | complete (cpu : Cpu) (dev : UInt32) (sector : UInt64)
  | step (cpu : Cpu) (clock : UInt64)
  deriving DecidableEq, Repr

def advance (clock : UInt64) (m : Maps) : Pc → Maps × Pc
  | .idle => (m, .idle)
  | .stash k bytes rwbs now => (handleIssue m k.dev k.sector bytes rwbs now, .idle)
  | .start k =>
    -- the source keeps a pointer to the entry and reads its fields through it until the delete;
    -- here they are read at once, which differs only where two handlers of one request mix
    match m.inflight.lookup k with
    | none => (m, .idle)
    | some s => (m, .find k ⟨k.dev, s.isWrite⟩ (clock - s.ts) s.bytes)
  | .find k bk delta bytes =>
    (m, if (m.stats.lookup bk).isSome then .slot k bk delta bytes else .create k bk delta bytes)
  | .create k bk delta bytes =>
    ({ m with stats := m.stats.create bk .zero }, .again k bk delta bytes)
  | .again k bk delta bytes =>
    -- the map is full: the request is dropped
    (m, if (m.stats.lookup bk).isSome then .slot k bk delta bytes else .forget k)
  | .slot k bk delta bytes =>
    ({ m with stats := m.stats.modify bk fun st => { st with slots := st.slots.bump delta } },
      .bytes k bk bytes)
  | .bytes k bk bytes =>
    ({ m with stats := m.stats.modify bk fun st => { st with bytes := st.bytes + bytes } },
      .forget k)
  | .forget k => ({ m with inflight := m.inflight.delete k }, .idle)

variable {Cpu : Type} [DecidableEq Cpu]

def State.set (s : State Cpu) (cpu : Cpu) (r : Maps × Pc) : State Cpu :=
  ⟨r.1, Function.update s.cores cpu r.2⟩

/-- A CPU enters a handler when it is in none. -/
def enter (s : State Cpu) (cpu : Cpu) (pc : Pc) : Option (State Cpu) :=
  if s.cores cpu = .idle then some (s.set cpu (s.maps, pc)) else none

def step (s : State Cpu) : Event Cpu → Option (State Cpu)
  | .issue cpu dev sector bytes rwbs now =>
    enter s cpu (.stash ⟨dev, sector⟩ bytes rwbs now)
  | .complete cpu dev sector => enter s cpu (.start ⟨dev, sector⟩)
  | .step cpu clock => some (s.set cpu (advance clock s.maps (s.cores cpu)))

def run (s : State Cpu) (evs : List (Event Cpu)) : Option (State Cpu) := evs.foldlM step s

end BlockCpus

end Assayist
