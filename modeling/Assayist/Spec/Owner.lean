import Assayist.Spec.Adapter
import Mathlib.Data.List.InsertIdx

/-! The owner of the attribution map, the process at the other end of the control
channel: the map's bytes, the text protocol, and how one line is served. -/

namespace Assayist

namespace Owner

/-- The low `width` bytes of a number, in the little-endian order of the hosts the
gadgets run on. -/
def leBytes : ℕ → ℕ → List UInt8
  | 0, _ => []
  | width + 1, n => UInt8.ofNat (n % 256) :: leBytes width (n / 256)

def leValue : List UInt8 → ℕ
  | [] => 0
  | b :: bs => b.toNat + 256 * leValue bs

/-- The map's value. -/
structure VmCtx where
  vmId : UInt64
  netnsInum : UInt32
  lifecycleState : UInt8
  deriving DecidableEq, Repr

namespace VmCtx

/-- The shared layout, with three bytes of padding. -/
def asBytes (v : VmCtx) : List UInt8 :=
  leBytes 8 v.vmId.toNat ++ leBytes 4 v.netnsInum.toNat ++ [v.lifecycleState, 0, 0, 0]

def fromBytes (b : List UInt8) : VmCtx where
  vmId := .ofNat (leValue (b.take 8))
  netnsInum := .ofNat (leValue ((b.drop 8).take 4))
  lifecycleState := b.getD 12 0

end VmCtx

/-- What the kernel decides by itself: the capacity the map was created with, the
updates it refuses for a reason of its own, and where an update leaves its entry in
the order the keys are listed in. Updates are told apart by the command that makes
them, of which there is one. -/
structure Kernel where
  maxEntries : ℕ
  refuses : ℕ → Option String
  place : ℕ → ℕ

/-- A kernel hash map, as the keys and values its listing goes through. -/
structure BpfMap where
  entries : List (List UInt8 × List UInt8)
  nodup : (entries.map Prod.fst).Nodup

namespace BpfMap

def empty : BpfMap := ⟨[], List.nodup_nil⟩

def keys (m : BpfMap) : List (List UInt8) := m.entries.map Prod.fst

def lookup (m : BpfMap) (key : List UInt8) : Option (List UInt8) := m.entries.lookup key

/-- The entries under other keys. -/
def others (m : BpfMap) (key : List UInt8) : List (List UInt8 × List UInt8) :=
  m.entries.filter fun e => e.1 != key

theorem others_nodup (m : BpfMap) (key : List UInt8) :
    ((m.others key).map Prod.fst).Nodup :=
  m.nodup.sublist (List.filter_sublist.map Prod.fst)

theorem key_notMem_others (m : BpfMap) (key : List UInt8) :
    key ∉ (m.others key).map Prod.fst := by
  intro h
  obtain ⟨e, he, hkey⟩ := List.mem_map.1 h
  exact absurd hkey (by simpa using (List.mem_filter.1 he).2)

/-- A listing with an entry put in at some position. -/
theorem placed_perm {α : Type} (xs : List α) (i : ℕ) (x : α) :
    (xs.insertIdx (min i xs.length) x).Perm (x :: xs) :=
  List.perm_insertIdx x xs (Nat.min_le_right i xs.length)

/-- `map.update(key, value, ANY)`. -/
def update (kernel : Kernel) (k : ℕ) (m : BpfMap) (key value : List UInt8) :
    Except String BpfMap :=
  match kernel.refuses k with
  | some e => .error e
  | none =>
    if m.lookup key = none ∧ kernel.maxEntries ≤ m.entries.length then
      .error "Argument list too long (os error 7)"
    else .ok
      { entries :=
          (m.others key).insertIdx (min (kernel.place k) (m.others key).length) (key, value)
        nodup := by
          refine (((placed_perm _ _ _).map Prod.fst).nodup_iff).2 ?_
          exact List.nodup_cons.2 ⟨m.key_notMem_others key, m.others_nodup key⟩ }

/-- `map.delete(key)`, which cannot fail on a key that is there. -/
def delete (m : BpfMap) (key : List UInt8) : BpfMap := ⟨m.others key, m.others_nodup key⟩

end BpfMap

inductive Command where
  | add (ifindex : UInt32) (handle : UInt64) (netnsInum : UInt32)
  | state (handle : UInt64) (state : UInt8)
  | remove (handle : UInt64)
  deriving DecidableEq, Repr

/-- A wire state name's byte, in any case. -/
def stateFromName (name : List Char) : Option UInt8 :=
  match String.ofList (name.map Char.toUpper) with
  | "RUNNING" => some lifecycleRunning
  | "PAUSING" => some lifecyclePausing
  | "PAUSED" => some lifecyclePaused
  | "RESUMING" => some lifecycleResuming
  | _ => none

/-- The digits of an unsigned number below `bound`, one at a time. -/
def digitsBelow (bound : ℕ) : ℕ → List Char → Except String ℕ
  | acc, [] => .ok acc
  | acc, c :: cs =>
    if c.isDigit = false then .error "invalid digit found in string"
    else
      let next := acc * 10 + (c.toNat - '0'.toNat)
      if next < bound then digitsBelow bound next cs
      else .error "number too large to fit in target type"

/-- `s.parse()` on an unsigned type of `bound` values. -/
def parseUnsigned (bound : ℕ) : List Char → Except String ℕ
  | [] => .error "cannot parse integer from empty string"
  | ['+'] => .error "invalid digit found in string"
  | '+' :: ds => digitsBelow bound 0 ds
  | ds => digitsBelow bound 0 ds

def parseU32 (f : List Char) : Except String UInt32 := .ofNat <$> parseUnsigned (2 ^ 32) f

def parseHandle (f : List Char) : Except String UInt64 := .ofNat <$> parseUnsigned (2 ^ 64) f

/-- The next field, or an error that names it. -/
def nextField (missing : String) : List (List Char) → Except String (List Char × List (List Char))
  | [] => .error missing
  | f :: fs => .ok (f, fs)

/-- Parse one control line. What follows a command's fields is not read. -/
def parseCommand (line : String) : Except String Command := do
  let (verb, f) ← nextField "empty command" (wordsOf line.toList)
  match String.ofList verb with
  | "add" => do
    let (w, f) ← nextField "add needs an ifindex" f
    let ifindex ← parseU32 w
    let (w, f) ← nextField "add needs a handle" f
    let handle ← parseHandle w
    let (w, _) ← nextField "add needs a netns_inum" f
    let netnsInum ← parseU32 w
    pure (.add ifindex handle netnsInum)
  | "state" => do
    let (w, f) ← nextField "state needs a handle" f
    let handle ← parseHandle w
    let (name, _) ← nextField "state needs a state name" f
    match stateFromName name with
    | some state => pure (.state handle state)
    | none => throw ("unknown state '" ++ String.ofList name ++ "'")
  | "remove" => do
    let (w, _) ← nextField "remove needs a handle" f
    let handle ← parseHandle w
    pure (.remove handle)
  | other => throw ("unknown command '" ++ other ++ "'")

structure Stats where
  peakLive : ℕ
  finalLive : ℕ
  adds : ℕ
  states : ℕ
  removes : ℕ
  errors : ℕ
  deriving DecidableEq, Repr

def Stats.default : Stats := ⟨0, 0, 0, 0, 0, 0⟩

/-- The owner's fragment: it owns a map and attaches no probe, so it has neither series nor
program costs. -/
def fragment {F : Type} (stats : Stats) (windowNs : UInt64) : Fragment F where
  series := []
  selfMetrics := []
  captureMeta := some (.object [("gadget", .string "assayist-capture-netattrib"),
    ("window_ns", .nat windowNs), ("peak_live", .nat (.ofNat stats.peakLive)),
    ("final_live", .nat (.ofNat stats.finalLive)),
    ("commands", .object [("add", .nat (.ofNat stats.adds)),
      ("state", .nat (.ofNat stats.states)), ("remove", .nat (.ofNat stats.removes))]),
    ("command_errors", .nat (.ofNat stats.errors))])

/-- The first key whose value carries `handle`. -/
def keyForHandle (m : BpfMap) (handle : UInt64) : Option (List UInt8) :=
  m.keys.find? fun key =>
    match m.lookup key with
    | some v => (VmCtx.fromBytes v).vmId == handle
    | none => false

/-- The effect of a command on the map, and on its own counter. -/
def applyMap (kernel : Kernel) (k : ℕ) (m : BpfMap) (stats : Stats) :
    Command → Except String (BpfMap × Stats)
  | .add ifindex handle netnsInum =>
    let v : VmCtx := ⟨handle, netnsInum, lifecycleRunning⟩
    match m.update kernel k (leBytes 4 ifindex.toNat) v.asBytes with
    | .ok m => .ok (m, { stats with adds := stats.adds + 1 })
    | .error _ => .error ("adding ifindex " ++ toString ifindex.toNat)
  | .state handle state =>
    match keyForHandle m handle with
    | none => .error ("no entry for handle " ++ toString handle.toNat)
    | some key =>
      match m.lookup key with
      | none => .error ("entry for handle " ++ toString handle.toNat ++ " vanished")
      | some cur => do
        let v := { VmCtx.fromBytes cur with lifecycleState := state }
        let m ← m.update kernel k key v.asBytes
        pure (m, { stats with states := stats.states + 1 })
  | .remove handle =>
    match keyForHandle m handle with
    | none => .error ("no entry for handle " ++ toString handle.toNat)
    | some key => .ok (m.delete key, { stats with removes := stats.removes + 1 })

/-- Apply a command and refresh the occupancy. -/
def apply (kernel : Kernel) (k : ℕ) (m : BpfMap) (stats : Stats) (cmd : Command) :
    Except String (BpfMap × Stats) := do
  let (m, stats) ← applyMap kernel k m stats cmd
  let live := m.keys.length
  pure (m, { stats with finalLive := live, peakLive := max stats.peakLive live })

/-- The owner between two lines: the map, the bookkeeping, and how many lines it
served. -/
structure State where
  map : BpfMap
  stats : Stats
  served : ℕ

def State.new : State := ⟨.empty, .default, 0⟩

/-- One line served: the reply, and the state it leaves. -/
def serveLine (kernel : Kernel) (o : State) (line : String) : String × State :=
  match parseCommand (trim line) with
  | .error e =>
    ("err " ++ e, { o with stats := { o.stats with errors := o.stats.errors + 1 }
                           served := o.served + 1 })
  | .ok cmd =>
    match apply kernel o.served o.map o.stats cmd with
    | .ok (m, stats) => ("ok", { map := m, stats, served := o.served + 1 })
    | .error e =>
      ("err " ++ e, { o with stats := { o.stats with errors := o.stats.errors + 1 }
                             served := o.served + 1 })

/-- The lines of one peer served in order. -/
def serve (kernel : Kernel) (o : State) (lines : List String) : State :=
  lines.foldl (fun o line => (serveLine kernel o line).2) o

/-- The handles the map holds, one for each entry. -/
def State.handles (o : State) : List UInt64 :=
  o.map.entries.map fun e => (VmCtx.fromBytes e.2).vmId

end Owner

end Assayist
