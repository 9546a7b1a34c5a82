import Assayist.Spec.Netattrib
import Mathlib.Logic.Relation

/-! The control channel with both of its ends: what the client has written and the owner has
not read, what the owner has answered and the client has not read, and the failures that can
come between. -/

namespace Assayist

/-- A call on the client. -/
inductive Call where
  | add (ifindex : UInt32) (handle : UInt64) (netnsInum : UInt32)
  | state (handle : UInt64) (state : UInt8)
  | remove (handle : UInt64)
  deriving DecidableEq, Repr

def Call.line : Call → String
  | .add ifindex handle netnsInum => addLine ifindex handle.toNat netnsInum
  | .state handle s => stateLine handle.toNat s
  | .remove handle => removeLine handle.toNat

/-- What came of one call. A call that was refused had no exchange. -/
structure CallResult where
  call : Call
  exchange : Option Exchange
  result : Except String Unit

/-- The channel: the client and the call it waits on, the text on its way to the owner, the
lines the owner has read with its replies, the text the owner has still to write, the text on
its way back, and what came of each call. -/
structure Channel where
  client : ControlClient
  pending : Option Call
  up : List Char
  served : List (String × String)
  owing : List Char
  down : List Char
  closed : Bool
  results : List CallResult

namespace Channel

def new : Channel := ⟨.new, none, [], [], [], [], false, []⟩

/-- A call over, with what became of its exchange. -/
def finish (ch : Channel) (call : Call) (e : Exchange) : Channel :=
  let (result, client) := ch.client.command (fun _ => e) call.line
  { ch with client, pending := none, results := ch.results ++ [⟨call, some e, result⟩] }

/-- A call that a client out of step does not send. -/
def refuse (ch : Channel) (exchange : ℕ → Exchange) (call : Call) : Channel :=
  let (result, client) := ch.client.command exchange call.line
  { ch with client, results := ch.results ++ [⟨call, none, result⟩] }

/-- The text of a call on the wire. -/
def wire (call : Call) : List Char := call.line.toList ++ ['\n']

/-- One step of either end. A write may fail after any part of the line, a read after any
part of the reply, which is then lost; the owner answers its lines in order, whenever it gets
to them, and its answers travel in pieces. -/
inductive Step : Channel → Channel → Prop where
  | refused {ch : Channel} (call : Call) (exchange : ℕ → Exchange) (hidle : ch.pending = none)
      (hpoisoned : ch.client.poisoned = true) : Step ch (ch.refuse exchange call)
  | sent {ch : Channel} (call : Call) (hidle : ch.pending = none)
      (hpoisoned : ch.client.poisoned = false) :
      Step ch { ch with pending := some call, up := ch.up ++ wire call }
  | sendFails {ch : Channel} (call : Call) (part : List Char) (msg : String)
      (hidle : ch.pending = none) (hpoisoned : ch.client.poisoned = false)
      (hpart : part <+: wire call) :
      Step ch ({ ch with up := ch.up ++ part }.finish call (.ioError .sending msg))
  | flushFails {ch : Channel} (call : Call) (msg : String) (hidle : ch.pending = none)
      (hpoisoned : ch.client.poisoned = false) :
      Step ch ({ ch with up := ch.up ++ wire call }.finish call (.ioError .flushing msg))
  | read {ch : Channel} (call : Call) (reply rest : List Char) (hpending : ch.pending = some call)
      (hdown : ch.down = reply ++ '\n' :: rest) (hline : '\n' ∉ reply) :
      Step ch ({ ch with down := rest }.finish call (.reply (String.ofList (reply ++ ['\n']))))
  | readFails {ch : Channel} (call : Call) (lost rest : List Char) (msg : String)
      (hpending : ch.pending = some call) (hdown : ch.down = lost ++ rest) :
      Step ch ({ ch with down := rest }.finish call (.ioError .reading msg))
  | readEnd {ch : Channel} (call : Call) (hpending : ch.pending = some call)
      (hclosed : ch.closed = true) (hline : '\n' ∉ ch.down) :
      Step ch ({ ch with down := [] }.finish call (.reply (String.ofList ch.down)))
  | serve {ch : Channel} (line rest : List Char) (reply : String) (hclosed : ch.closed = false)
      (hup : ch.up = line ++ '\n' :: rest) (hline : '\n' ∉ line) (hreply : '\n' ∉ reply.toList) :
      Step ch { ch with up := rest, served := ch.served ++ [(String.ofList line, reply)],
                        owing := ch.owing ++ reply.toList ++ ['\n'] }
  | deliver {ch : Channel} (part rest : List Char) (howing : ch.owing = part ++ rest) :
      Step ch { ch with owing := rest, down := ch.down ++ part }
  | close {ch : Channel} (howing : ch.owing = []) : Step ch { ch with closed := true }

/-- What a run of the two ends can come to. -/
def Reachable (ch : Channel) : Prop := Relation.ReflTransGen Step new ch

end Channel

end Assayist
