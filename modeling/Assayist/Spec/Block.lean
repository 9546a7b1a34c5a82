import Assayist.Spec.Gadgets
import Assayist.Spec.Kvm

/-! The block gadget in the kernel: a request's issue is stashed in one map, and its completion
adds the time between them to its device's log-linear histogram in another. -/

namespace Assayist

namespace BlockGadget

def maxSlots : ℕ := maxOctaves * subslots

/-- `struct rq_key`, whose padding is always zero. -/
structure RqKey where
  dev : UInt32
  sector : UInt64
  deriving DecidableEq, Repr

/-- `struct rq_start`: stashed at issue, consumed at completion. -/
structure RqStart where
  ts : UInt64
  bytes : UInt64
  isWrite : Bool
  deriving DecidableEq, Repr

/-- `struct blk_key`, whose padding is always zero. -/
structure BlkKey where
  dev : UInt32
  isWrite : Bool
  deriving DecidableEq, Repr

/-- The slots of a log-linear histogram. -/
abbrev Slots := Vector UInt32 maxSlots

/-- `struct blk_stat`. -/
structure Stat where
  slots : Slots
  bytes : UInt64

/-- What `zero_stat` holds. -/
def Stat.zero : Stat := ⟨Vector.replicate maxSlots 0, 0⟩

/-- The gadget's maps, less the one that is never written. -/
structure Maps where
  inflight : BoundedMap RqKey RqStart
  stats : BoundedMap BlkKey Stat

def Maps.new : Maps := ⟨.empty 65536, .empty 1024⟩

/-- A tracepoint firing at the time the clock shows; `rwbs` is the first letter of the
request's flags. -/
inductive Event where
  | issue (dev : UInt32) (sector bytes : UInt64) (rwbs : Char) (now : UInt64)
  | complete (dev : UInt32) (sector now : UInt64)
  deriving DecidableEq, Repr

/-- What is not a read counts as a write. -/
def handleIssue (m : Maps) (dev : UInt32) (sector bytes : UInt64) (rwbs : Char) (now : UInt64) :
    Maps :=
  let s : RqStart := { ts := now, bytes, isWrite := rwbs != 'R' }
  { m with inflight := m.inflight.update { dev, sector } s }

/-- The octave of a latency; the last one is open-ended. -/
def octaveOf (delta : UInt64) : UInt64 :=
  let octave := log2U64 delta
  if UInt64.ofNat maxOctaves ≤ octave then UInt64.ofNat maxOctaves - 1 else octave

/-- The linear sub-bucket of a latency within the octave that starts at `base`. -/
def subOf (delta base : UInt64) : UInt64 :=
  let rem := if base < delta then delta - base else 0
  let sub := rem * UInt64.ofNat subslots / base
  if UInt64.ofNat subslots ≤ sub then UInt64.ofNat subslots - 1 else sub

/-- The histogram slot of a latency. -/
def slotOf (delta : UInt64) : ℕ :=
  let octave := octaveOf delta
  let base := 1 <<< octave
  let sub := subOf delta base
  let slot := octave * UInt64.ofNat subslots + sub
  (if UInt64.ofNat maxSlots ≤ slot then UInt64.ofNat maxSlots - 1 else slot).toNat

theorem slotOf_lt (delta : UInt64) : slotOf delta < maxSlots := by
  unfold slotOf
  dsimp only
  split_ifs with h
  · decide
  · exact UInt64.lt_iff_toNat_lt.1 (UInt64.not_le.1 h)

/-- `__sync_fetch_and_add(&st->slots[slot], 1)`. -/
def Slots.bump (slots : Slots) (delta : UInt64) : Slots :=
  slots.set (slotOf delta) (slots.get ⟨slotOf delta, slotOf_lt delta⟩ + 1) (slotOf_lt delta)

/-- A completed request: its latency is counted and its bytes are added. -/
def Stat.add (st : Stat) (delta bytes : UInt64) : Stat :=
  { slots := st.slots.bump delta, bytes := st.bytes + bytes }

/-- A key's entry starts as zeroes, if the map has room for it. -/
def initStat (stats : BoundedMap BlkKey Stat) (bk : BlkKey) : BoundedMap BlkKey Stat :=
  match stats.lookup bk with
  | some _ => stats
  | none => stats.create bk .zero

def handleComplete (m : Maps) (dev : UInt32) (sector now : UInt64) : Maps :=
  let k : RqKey := { dev, sector }
  match m.inflight.lookup k with
  | none => m
  | some s =>
    let delta := now - s.ts
    let bk : BlkKey := { dev, isWrite := s.isWrite }
    let stats := initStat m.stats bk
    match stats.lookup bk with
    -- the map is full: the request is dropped
    | none => { stats, inflight := m.inflight.delete k }
    | some _ =>
      { stats := stats.modify bk (·.add delta s.bytes), inflight := m.inflight.delete k }

def handle (m : Maps) : Event → Maps
  | .issue dev sector bytes rwbs now => handleIssue m dev sector bytes rwbs now
  | .complete dev sector now => handleComplete m dev sector now

/-- The maps after a sequence of events. -/
def run (evs : List Event) : Maps := evs.foldl handle .new

end BlockGadget

end Assayist
