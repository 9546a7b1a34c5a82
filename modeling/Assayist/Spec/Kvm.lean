import Assayist.Lib.BoundedMap
import Mathlib.Data.UInt

/-! The kvm gadget in the kernel: a thread's exit from the guest is stashed in one map, and
its next entry adds the time between them to a histogram in another. -/

namespace Assayist

/-- `(v > bound) << s`. -/
def above (v bound s : UInt64) : UInt64 := (if bound < v then (1 : UInt64) else 0) <<< s

/-- `log2_u64`, the floor of the base-2 logarithm without a branch, 0 for 0. -/
def log2U64 (v : UInt64) : UInt64 :=
  let r := above v 0xFFFFFFFF 5
  let v := v >>> r
  let shift := above v 0xFFFF 4
  let v := v >>> shift
  let r := r ||| shift
  let shift := above v 0xFF 3
  let v := v >>> shift
  let r := r ||| shift
  let shift := above v 0xF 2
  let v := v >>> shift
  let r := r ||| shift
  let shift := above v 0x3 1
  let v := v >>> shift
  let r := r ||| shift
  r ||| (v >>> 1)

namespace KvmGadget

def maxSlots : ℕ := 40

/-- `struct hist_key`, whose padding is always zero. -/
structure HistKey where
  cgroupId : UInt64
  exitReason : UInt32
  deriving DecidableEq, Repr

/-- `struct hist`. -/
abbrev Hist := Vector UInt32 maxSlots

/-- `struct exit_state`: what a thread's exit leaves for its next entry. -/
structure ExitState where
  ts : UInt64
  cgroupId : UInt64
  exitReason : UInt32
  deriving DecidableEq, Repr

/-- The gadget's maps. -/
structure Maps where
  exitStart : BoundedMap UInt32 ExitState
  hists : BoundedMap HistKey Hist

def Maps.new : Maps := ⟨.empty 131072, .empty 262144⟩

/-- A tracepoint firing on the current thread at the time the clock shows. -/
inductive Event where
  | kvmExit (tid : UInt32) (now : UInt64) (exitReason : UInt32) (cgroup : UInt64)
  | kvmEntry (tid : UInt32) (now : UInt64)
  deriving DecidableEq, Repr

def handleKvmExit (perGuest : Bool) (m : Maps) (tid : UInt32) (now : UInt64)
    (exitReason : UInt32) (cgroup : UInt64) : Maps :=
  let st : ExitState :=
    { ts := now, exitReason, cgroupId := if perGuest then cgroup else 0 }
  { m with exitStart := m.exitStart.update tid st }

/-- The histogram slot of a latency; the last one is open-ended. -/
def slotOf (delta : UInt64) : ℕ :=
  let slot := (log2U64 delta).toNat
  if maxSlots ≤ slot then maxSlots - 1 else slot

theorem slotOf_lt (delta : UInt64) : slotOf delta < maxSlots := by
  have hpos : 0 < maxSlots := by decide
  unfold slotOf
  dsimp only
  split_ifs with h
  · omega
  · omega

/-- `__sync_fetch_and_add(&h->slots[slot], 1)`. -/
def Hist.bump (h : Hist) (delta : UInt64) : Hist :=
  h.set (slotOf delta) (h.get ⟨slotOf delta, slotOf_lt delta⟩ + 1) (slotOf_lt delta)

/-- A key's histogram starts as zeroes, if the map has room for it. -/
def initHist (hists : BoundedMap HistKey Hist) (hk : HistKey) : BoundedMap HistKey Hist :=
  match hists.lookup hk with
  | some _ => hists
  | none => hists.create hk (Vector.replicate maxSlots 0)

def handleKvmEntry (m : Maps) (tid : UInt32) (now : UInt64) : Maps :=
  match m.exitStart.lookup tid with
  | none => m
  | some st =>
    let delta := now - st.ts
    let hk : HistKey := { cgroupId := st.cgroupId, exitReason := st.exitReason }
    let hists := initHist m.hists hk
    match hists.lookup hk with
    -- the map is full: the sample is dropped
    | none => { m with hists, exitStart := m.exitStart.delete tid }
    | some _ =>
      { hists := hists.modify hk (·.bump delta), exitStart := m.exitStart.delete tid }

def handle (perGuest : Bool) (m : Maps) : Event → Maps
  | .kvmExit tid now exitReason cgroup => handleKvmExit perGuest m tid now exitReason cgroup
  | .kvmEntry tid now => handleKvmEntry m tid now

/-- The maps after a sequence of events. -/
def run (perGuest : Bool) (evs : List Event) : Maps := evs.foldl (handle perGuest) .new

end KvmGadget

end Assayist
