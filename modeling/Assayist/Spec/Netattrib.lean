import Assayist.Spec.Contract
import Std.Data.TreeMap

/-! Per-VM attribution on the orchestrator's side: the handle table, the control
channel to the owner gadget, and the rewrite of `labels.vm_id` from the dense
handle a gadget emits to the id the run reports. -/

namespace Assayist

def lifecycleRunning : UInt8 := 0

def lifecyclePausing : UInt8 := 1

def lifecyclePaused : UInt8 := 2

def lifecycleResuming : UInt8 := 3

structure VmProvenance where
  handle : ℕ
  vmId : String
  tap : String
  guestMac : String
  ifindex : UInt32
  netnsInum : UInt32
  deriving DecidableEq, Repr

/-- Handles are a per-run counter from zero, so the `u64` counter does not wrap. -/
structure HandleTable where
  byHandle : Std.TreeMap ℕ VmProvenance
  next : ℕ

namespace HandleTable

def new : HandleTable := ⟨∅, 0⟩

/-- Reserve the next handle without recording provenance for it. -/
def reserve (t : HandleTable) : ℕ × HandleTable := (t.next, { t with next := t.next + 1 })

def insert (t : HandleTable) (p : VmProvenance) : HandleTable :=
  { t with byHandle := t.byHandle.insert p.handle p }

def get (t : HandleTable) (handle : ℕ) : Option VmProvenance := t.byHandle[handle]?

/-- The table as provenance, ascending by handle. -/
def provenanceJson {F : Type} (t : HandleTable) : Json F :=
  .array (t.byHandle.toList.map fun (_, p) =>
    .object [("handle", .nat (.ofNat p.handle)), ("vm_id", .string p.vmId),
      ("tap", .string p.tap), ("guest_mac", .string p.guestMac),
      ("ifindex", .nat p.ifindex.toUInt64), ("netns_inum", .nat p.netnsInum.toUInt64)])

end HandleTable

section Rewrite

variable {F : Type}

/-- An object's entry for `k` replaced in place. -/
def replaceField (m : List (String × Json F)) (k : String) (v : Json F) :
    List (String × Json F) :=
  m.map fun e => if e.1 = k then (k, v) else e

/-- `s["labels"]["vm_id"] = json!(id)` on a series that has such a label. -/
def setVmId (s : Json F) (id : String) : Json F :=
  match s with
  | .object m =>
    match m.lookup "labels" with
    | some (.object labels) =>
      .object (replaceField m "labels" (.object (replaceField labels "vm_id" (.string id))))
    | _ => s
  | _ => s

/-- The string under `labels.vm_id`. -/
def vmIdLabel (s : Json F) : Option String := (s.get "labels").bind (·.getStr "vm_id")

/-- One series rewritten: the series, and the unresolved handles seen so far. -/
def rewriteSeries (table : HandleTable) (unknown : List String) (s : Json F) :
    Json F × List String :=
  match vmIdLabel s with
  | none => (s, unknown)
  | some raw =>
    match parseU64 raw with
    | none => (s, unknown)
    | some handle =>
      match table.get handle.toNat with
      | some p => (setVmId s p.vmId, unknown)
      | none => (s, if unknown.contains raw then unknown else unknown ++ [raw])

def rewriteAll (table : HandleTable) : List String → List (Json F) → List (Json F) × List String
  | unknown, [] => ([], unknown)
  | unknown, s :: ss =>
    let (s, unknown) := rewriteSeries table unknown s
    let (ss, unknown) := rewriteAll table unknown ss
    (s :: ss, unknown)

/-- Rewrite every series from handle to id, and return the handles the table never
issued, in first-seen order. -/
def rewriteVmIdLabels (table : HandleTable) : List String → List (Fragment F) →
    List (Fragment F) × List String
  | unknown, [] => ([], unknown)
  | unknown, f :: fs =>
    let (series, unknown) := rewriteAll table unknown f.series
    let (fs, unknown) := rewriteVmIdLabels table unknown fs
    ({ f with series } :: fs, unknown)

end Rewrite

/-- The wire name of a lifecycle state. -/
def stateName (state : UInt8) : String :=
  if state = lifecyclePausing then "PAUSING"
  else if state = lifecyclePaused then "PAUSED"
  else if state = lifecycleResuming then "RESUMING"
  else "RUNNING"

/-- Where a command's exchange with the owner can break off. -/
inductive IoPhase where
  | sending
  | flushing
  | reading
  deriving DecidableEq, Repr

/-- What became of one command: an I/O error, or the reply line read. -/
inductive Exchange where
  | ioError (phase : IoPhase) (msg : String)
  | reply (line : String)
  deriving DecidableEq, Repr

def IoPhase.error (phase : IoPhase) (line msg : String) : String :=
  match phase with
  | .sending => "sending '" ++ line ++ "': " ++ msg
  | .flushing => "flushing '" ++ line ++ "': " ++ msg
  | .reading => "reading reply to '" ++ line ++ "': " ++ msg

/-- The client: whether an earlier I/O error desynchronised the channel, and how
many commands went over it. -/
structure ControlClient where
  poisoned : Bool
  sent : ℕ
  deriving DecidableEq, Repr

namespace ControlClient

def new : ControlClient := ⟨false, 0⟩

/-- `reply.strip_prefix("err")`. -/
def stripErr (reply : String) : Option String :=
  if startsWith reply "err" then some (String.ofList (reply.toList.drop 3)) else none

/-- What a reply says about the command it answers. -/
def readReply (line reply : String) : Except String Unit :=
  let reply := trim reply
  match stripErr reply with
  | some msg => .error ("attribution owner rejected '" ++ line ++ "':" ++ msg)
  | none =>
    if reply = "ok" then .ok ()
    else .error ("unexpected reply to '" ++ line ++ "': " ++ debugStr reply)

/-- One request and its reply. `exchange k` is what becomes of the `k`-th command
written to the channel. -/
def command (exchange : ℕ → Exchange) (c : ControlClient) (line : String) :
    Except String Unit × ControlClient :=
  if c.poisoned then
    (.error ("attribution control channel is desynchronised after an earlier I/O error, " ++
      "refusing '" ++ line ++ "'"), c)
  else
    match exchange c.sent with
    | .ioError phase msg => (.error (phase.error line msg), ⟨true, c.sent + 1⟩)
    | .reply reply => (readReply line reply, ⟨false, c.sent + 1⟩)

end ControlClient

def addLine (ifindex : UInt32) (handle : ℕ) (netnsInum : UInt32) : String :=
  "add " ++ toString ifindex.toNat ++ " " ++ toString handle ++ " " ++ toString netnsInum.toNat

def stateLine (handle : ℕ) (state : UInt8) : String :=
  "state " ++ toString handle ++ " " ++ stateName state

def removeLine (handle : ℕ) : String := "remove " ++ toString handle

/-- One run's attribution state. -/
structure AttributionSession where
  client : ControlClient
  table : HandleTable

/-- A call on a session. -/
inductive SessionCall where
  | register (vmId tap guestMac : String) (ifindex netnsInum : UInt32)
  | setState (handle : ℕ) (state : UInt8)
  | deregister (handle : ℕ)

namespace AttributionSession

def new : AttributionSession := ⟨.new, .new⟩

variable (exchange : ℕ → Exchange) (s : AttributionSession)

/-- Reserve a handle, tell the owner, and record provenance once it accepts. -/
def register (vmId tap guestMac : String) (ifindex netnsInum : UInt32) :
    Except String ℕ × AttributionSession :=
  let (handle, table) := s.table.reserve
  let (r, client) := s.client.command exchange (addLine ifindex handle netnsInum)
  match r with
  | .error e => (.error e, ⟨client, table⟩)
  | .ok () =>
    (.ok handle, ⟨client, table.insert { handle, vmId, tap, guestMac, ifindex, netnsInum }⟩)

def setState (handle : ℕ) (state : UInt8) : Except String Unit × AttributionSession :=
  let (r, client) := s.client.command exchange (stateLine handle state)
  (r, { s with client })

def deregister (handle : ℕ) : Except String Unit × AttributionSession :=
  let (r, client) := s.client.command exchange (removeLine handle)
  (r, { s with client })

/-- The session after a call. -/
def after : SessionCall → AttributionSession
  | .register vmId tap guestMac ifindex netnsInum =>
    (s.register exchange vmId tap guestMac ifindex netnsInum).2
  | .setState handle state => (s.setState exchange handle state).2
  | .deregister handle => (s.deregister exchange handle).2

end AttributionSession

end Assayist
