import Assayist.Lib.BoundedMap
import Assayist.Spec.Gadgets

/-! The tap gadget: what it counts in the kernel, where every CPU may be in a program of its own and
each call of a map helper and each atomic addition is one step, and the fragment that its loader
writes. -/

namespace Assayist

namespace NetGadget

abbrev sizeBuckets : ℕ := 8

def sizeBounds : List UInt32 := [64, 128, 256, 512, 1024, 1500, 9000]

/-- The bucket of a packet's length; the last one is open-ended. -/
def sizeBucket (len : UInt64) : Fin sizeBuckets :=
  if len ≤ 64 then 0
  else if len ≤ 128 then 1
  else if len ≤ 256 then 2
  else if len ≤ 512 then 3
  else if len ≤ 1024 then 4
  else if len ≤ 1500 then 5
  else if len ≤ 9000 then 6
  else 7

/-- Packets that the host receives on a tap, and packets that it transmits there. -/
inductive Dir where
  | rx
  | tx
  deriving DecidableEq, Repr

abbrev Sizes := Vector UInt32 sizeBuckets

def Sizes.add (size : Sizes) (b : Fin sizeBuckets) : Sizes :=
  size.set b (size.get b + 1) b.isLt

/-- What `struct if_stat` holds of one direction. -/
structure DirStat where
  packets : UInt64
  bytes : UInt64
  size : Sizes
  deriving DecidableEq

/-- `struct if_stat`. -/
structure IfStat where
  rx : DirStat
  tx : DirStat
  deriving DecidableEq

def DirStat.zero : DirStat := ⟨0, 0, Vector.replicate sizeBuckets 0⟩

def IfStat.zero : IfStat := ⟨.zero, .zero⟩

def IfStat.modify (s : IfStat) (f : DirStat → DirStat) : Dir → IfStat
  | .rx => { s with rx := f s.rx }
  | .tx => { s with tx := f s.tx }

/-- An atomic addition to an entry. -/
inductive Change where
  | packets (dir : Dir)
  | bytes (dir : Dir) (len : UInt64)
  | size (dir : Dir) (bucket : Fin sizeBuckets)
  deriving DecidableEq, Repr

def IfStat.change (c : Change) (s : IfStat) : IfStat :=
  match c with
  | .packets dir => s.modify (fun d => { d with packets := d.packets + 1 }) dir
  | .bytes dir len => s.modify (fun d => { d with bytes := d.bytes + len }) dir
  | .size dir b => s.modify (fun d => { d with size := d.size.add b }) dir

/-- What a program is run on: the tap's interface index and the packet's length. -/
structure Packet where
  dir : Dir
  ifindex : UInt32
  len : UInt64
  deriving DecidableEq, Repr

/-- Where a CPU stands in `tap_rx` or `tap_tx`: what it does next. -/
inductive Pc where
  | idle
  /-- `stat_for`: look the entry up. -/
  | find (p : Packet)
  /-- It was not found: make one of zeroes. -/
  | create (p : Packet)
  /-- Look it up again. -/
  | again (p : Packet)
  | packets (p : Packet)
  | bytes (p : Packet)
  | size (p : Packet)
  deriving DecidableEq, Repr

abbrev Stats := BoundedMap UInt32 IfStat

structure State (Cpu : Type) where
  stats : Stats
  cores : Cpu → Pc

def State.new {Cpu : Type} : State Cpu := ⟨.empty 16384, fun _ => .idle⟩

/-- A packet enters a program on a CPU, or a CPU takes its next step there. The programs run with
bottom halves off, so a CPU enters one only when it is in none. -/
inductive Event (Cpu : Type) where
  | packet (cpu : Cpu) (p : Packet)
  | step (cpu : Cpu)
  deriving DecidableEq, Repr

def advance (m : Stats) : Pc → Stats × Pc
  | .idle => (m, .idle)
  | .find p => (m, if (m.lookup p.ifindex).isSome then .packets p else .create p)
  | .create p => (m.create p.ifindex .zero, .again p)
  -- the map is full: the packet is not counted
  | .again p => (m, if (m.lookup p.ifindex).isSome then .packets p else .idle)
  | .packets p => (m.modify p.ifindex (·.change (.packets p.dir)), .bytes p)
  | .bytes p => (m.modify p.ifindex (·.change (.bytes p.dir p.len)), .size p)
  | .size p => (m.modify p.ifindex (·.change (.size p.dir (sizeBucket p.len))), .idle)

variable {Cpu : Type} [DecidableEq Cpu]

def step (s : State Cpu) : Event Cpu → Option (State Cpu)
  | .packet cpu p =>
    if s.cores cpu = .idle then some { s with cores := Function.update s.cores cpu (.find p) }
    else none
  | .step cpu =>
    let r := advance s.stats (s.cores cpu)
    some ⟨r.1, Function.update s.cores cpu r.2⟩

def run (s : State Cpu) (evs : List (Event Cpu)) : Option (State Cpu) := evs.foldlM step s

end NetGadget

section Net

variable {F : Type}

open NetGadget

/-- One entry of the tap gadget's map, with the name that its interface index has by now. -/
structure NetEntry where
  name : String
  stat : IfStat

structure NetCapture (F : Type) where
  maxKeys : UInt64
  tx : Bool
  entries : List NetEntry
  interfaces : List String
  rxStats : ProgStats
  txStats : ProgStats
  window : Window F

def dirLabel : Dir → String
  | .rx => "rx"
  | .tx => "tx"

def sizeData (size : Sizes) (count : UInt64) : Json F :=
  .object [("layout", .string "explicit"),
    ("explicit_bounds", .array (sizeBounds.map fun b => .nat b.toUInt64)),
    ("buckets", slotsJson size.toList), ("count", .nat count)]

/-- The three series of a direction, if a packet was seen. -/
def pushDir (c : NetCapture F) (name : String) (dir : Dir) (d : DirStat) : List (Json F) :=
  if d.packets = 0 then []
  else
    let source := "tap_" ++ dirLabel dir
    let card := bounded "netdev" c.maxKeys
    [seriesJson ("net.tap_" ++ dirLabel dir ++ "_packets") "1" "counter" source (some name) card
        (.object [("value", .nat d.packets), ("start_unix_nano", .nat 0)]),
      seriesJson ("net.tap_" ++ dirLabel dir ++ "_bytes") "By" "counter" source (some name) card
        (.object [("value", .nat d.bytes), ("start_unix_nano", .nat 0)]),
      seriesJson ("net.tap_" ++ dirLabel dir ++ "_packet_size") "By" "histogram" source (some name)
        card (sizeData d.size (slotCount d.size.toList))]

def netSeries (c : NetCapture F) (e : NetEntry) : List (Json F) :=
  pushDir c e.name .rx e.stat.rx ++ if c.tx then pushDir c e.name .tx e.stat.tx else []

def netFragment [F64 F] (c : NetCapture F) : Fragment F where
  series := c.entries.flatMap (netSeries c)
  selfMetrics := probeCost c.window "xdp" "tap_rx" c.rxStats true ::
    if c.tx then [probeCost c.window "tc" "tap_tx" c.txStats true] else []
  captureMeta := some (.object [("gadget", .string "assayist-capture-net"),
    ("window_ns", .nat c.window.wallNs), ("interfaces", .array (c.interfaces.map .string)),
    ("tx_enabled", .bool c.tx)])

end Net

end Assayist
