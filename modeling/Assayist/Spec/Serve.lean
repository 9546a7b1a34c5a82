import Assayist.Lib.Framing
import Assayist.Spec.Owner

/-! The owner's serve loop: the peers' sockets, what one read of a line takes off them, and
the iterations that poll them until the window closes. -/

namespace Assayist

namespace Owner

open Framing

def newline : UInt8 := 10

/-- What one read of a socket finds, or that it found nothing within its time-out. -/
abbrev Arrival := Framing.Arrival UInt8

/-- What a read of a line leaves: the caller's buffer, whether a time-out ended it, the
bytes the reader still holds, and what the socket has yet to bring. -/
structure Filled where
  line : List UInt8
  timedOut : Bool
  buffered : List UInt8
  coming : List Arrival
  deriving DecidableEq, Repr

/-- `BufRead::read_until(b'\n', line)` on a buffered socket. Bytes it moved into the buffer
before a time-out are consumed; the end of the stream is the end of the line. -/
def readUntil (line available : List UInt8) (coming : List Arrival) : Filled :=
  if newline ∈ available then
    let used := available.idxOf newline + 1
    ⟨line ++ available.take used, false, available.drop used, coming⟩
  else
    match coming with
    | [] => ⟨line ++ available, false, [], []⟩
    | .gap :: coming => ⟨line ++ available, true, [], coming⟩
    | .chunk b bs :: coming => readUntil (line ++ available) (b :: bs) coming
termination_by structural coming

/-- The bytes as text, if they are UTF-8. -/
def decode (bytes : List UInt8) : Option String := String.fromUTF8? ⟨bytes.toArray⟩

/-- A connected peer, with the lines executed for it and the replies sent to it. -/
structure Peer where
  buffered : List UInt8
  coming : List Arrival
  executed : List (List UInt8)
  replies : List String
  deriving DecidableEq, Repr

def Peer.new (coming : List Arrival) : Peer := ⟨[], coming, [], []⟩

/-- One turn of a peer, with a line buffer of its own. A time-out, the end of the stream and
a line that is not text are passed over. -/
def servePeer (kernel : Kernel) (o : State) (p : Peer) : State × Peer :=
  let filled := readUntil [] p.buffered p.coming
  let p := { p with buffered := filled.buffered, coming := filled.coming }
  if filled.timedOut = true ∨ filled.line = [] then (o, p)
  else
    match decode filled.line with
    | none => (o, p)
    | some text =>
      let (reply, o) := serveLine kernel o text
      (o, { p with executed := p.executed ++ [filled.line], replies := p.replies ++ [reply] })

/-- Every peer's turn, in the order they connected. -/
def servePeers (kernel : Kernel) : State → List Peer → State × List Peer
  | o, [] => (o, [])
  | o, p :: ps =>
    let (o, p) := servePeer kernel o p
    let (o, ps) := servePeers kernel o ps
    (o, p :: ps)

/-- One iteration, with the peer it accepts, if one is waiting. -/
def iteration (kernel : Kernel) (s : State × List Peer) (accepted : Option (List Arrival)) :
    State × List Peer :=
  servePeers kernel s.1 (s.2 ++ (accepted.map Peer.new).toList)

/-- The iterations until the window closes. -/
def serveLoop (kernel : Kernel) (s : State × List Peer) (window : List (Option (List Arrival))) :
    State × List Peer :=
  window.foldl (iteration kernel) s

end Owner

end Assayist
