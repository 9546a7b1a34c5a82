import Assayist.Spec.Serve
import Mathlib.Data.List.ReduceOption

/-! The serve loop and the streams it is sent. A turn moves what a peer is still to be heard
saying into what was executed for it, so that a peer with turns enough is heard saying what
its stream, its chunks and its time-outs make of it, whatever the other peers do. -/

namespace Assayist

namespace Owner

open Framing

variable (kernel : Kernel)

def turns (coming : List Arrival) : ℕ :=
  (coming.map fun a => match a with
    | .chunk _ rest => rest.length + 2
    | .gap => 1).sum

@[simp] theorem turns_nil : turns [] = 0 := rfl

@[simp] theorem turns_gap (coming : List Arrival) : turns (.gap :: coming) = 1 + turns coming := rfl

@[simp] theorem turns_chunk (b : UInt8) (bs : List UInt8) (coming : List Arrival) :
    turns (.chunk b bs :: coming) = bs.length + 2 + turns coming := rfl

theorem turns_eq_zero {coming : List Arrival} (h : turns coming = 0) : coming = [] := by
  cases coming with
  | nil => rfl
  | cons a coming =>
    cases a with
    | gap =>
      rw [turns_gap] at h
      omega
    | chunk b bs =>
      rw [turns_chunk] at h
      omega

/-- The lines a listener that holds `part` of one makes of bytes at hand and to come. -/
def toHear (part available : List UInt8) (coming : List Arrival) : List (List UInt8) :=
  (cut newline part available).1 ++ heard newline (cut newline part available).2 coming

abbrev Filled.Passed (filled : Filled) : Prop := filled.timedOut = true ∨ filled.line = []

/-- The line of a read, if any, and the lines after it. -/
def Filled.toHear (filled : Filled) : List (List UInt8) :=
  (if filled.Passed then [] else [filled.line]) ++
    Owner.toHear [] filled.buffered filled.coming

def Filled.turns (filled : Filled) : ℕ := filled.buffered.length + Owner.turns filled.coming

section Read

variable {line available : List UInt8}

theorem readUntil_found (coming : List Arrival) (h : newline ∈ available) :
    readUntil line available coming =
      ⟨line ++ available.take (available.idxOf newline + 1), false,
        available.drop (available.idxOf newline + 1), coming⟩ := by
  rw [readUntil.eq_def, if_pos h]

theorem readUntil_end (h : newline ∉ available) :
    readUntil line available [] = ⟨line ++ available, false, [], []⟩ := by
  rw [readUntil, if_neg h]

theorem readUntil_gap (coming : List Arrival) (h : newline ∉ available) :
    readUntil line available (.gap :: coming) = ⟨line ++ available, true, [], coming⟩ := by
  rw [readUntil, if_neg h]

theorem readUntil_chunk (b : UInt8) (bs : List UInt8) (coming : List Arrival)
    (h : newline ∉ available) :
    readUntil line available (.chunk b bs :: coming) =
      readUntil (line ++ available) (b :: bs) coming := by
  rw [readUntil, if_neg h]

theorem toHear_found (coming : List Arrival) (h : newline ∈ available) :
    toHear line available coming = (readUntil line available coming).toHear := by
  have hne : available.take (available.idxOf newline + 1) ≠ [] := by
    rw [Ne, List.take_eq_nil_iff]
    simp [List.ne_nil_of_mem h]
  rw [readUntil_found coming h, toHear, cut_first line h]
  simp [Filled.toHear, Filled.Passed, toHear, hne]

/-- A read takes the first of the lines, unless it ends with none. -/
theorem toHear_readUntil (available : List UInt8) (coming : List Arrival)
    (h : newline ∉ line) :
    toHear line available coming = (readUntil line available coming).toHear := by
  induction coming generalizing line available with
  | nil =>
    by_cases hmem : newline ∈ available
    · exact toHear_found [] hmem
    · rw [readUntil_end hmem, toHear, cut_none line hmem]
      simp [Filled.toHear, Filled.Passed, toHear, cut, heard]
  | cons a coming ih =>
    by_cases hmem : newline ∈ available
    · exact toHear_found (a :: coming) hmem
    · cases a with
      | gap =>
        rw [readUntil_gap coming hmem, toHear, cut_none line hmem]
        simp [Filled.toHear, Filled.Passed, toHear, cut, heard]
      | chunk b bs =>
        have hline : newline ∉ line ++ available := by simp [h, hmem]
        rw [readUntil_chunk b bs coming hmem, ← ih (b :: bs) hline, toHear, cut_none line hmem]
        rfl

theorem turns_found (coming : List Arrival) (h : newline ∈ available) :
    (readUntil line available coming).turns ≤ available.length + turns coming - 1 := by
  have hlt := List.idxOf_lt_length_of_mem h
  simp only [readUntil_found coming h, Filled.turns, List.length_drop]
  omega

theorem turns_readUntil (available : List UInt8) (coming : List Arrival) :
    (readUntil line available coming).turns ≤ available.length + turns coming - 1 := by
  induction coming generalizing line available with
  | nil =>
    by_cases hmem : newline ∈ available
    · exact turns_found [] hmem
    · simp [readUntil_end hmem, Filled.turns]
  | cons a coming ih =>
    by_cases hmem : newline ∈ available
    · exact turns_found (a :: coming) hmem
    · cases a with
      | gap =>
        simp only [readUntil_gap coming hmem, Filled.turns, turns_gap, List.length_nil]
        omega
      | chunk b bs =>
        have hrest := @ih (line ++ available) (b :: bs)
        rw [List.length_cons] at hrest
        rw [readUntil_chunk b bs coming hmem, turns_chunk]
        omega

end Read

namespace Peer

/-- The lines a peer is still to be heard saying, as far as they are text. -/
def pending (p : Peer) : List (List UInt8) :=
  (toHear [] p.buffered p.coming).filter fun line => (decode line).isSome

def filled (p : Peer) : Filled := readUntil [] p.buffered p.coming

def readOn (p : Peer) : Peer where
  buffered := p.filled.buffered
  coming := p.filled.coming
  executed := p.executed
  replies := p.replies

theorem pending_eq (p : Peer) :
    p.pending = p.filled.toHear.filter fun line => (decode line).isSome := by
  rw [pending, toHear_readUntil p.buffered p.coming List.not_mem_nil]
  rfl

end Peer

/-- A peer on its way to having `said` executed, `left` turns before it has. -/
structure Answered (said : List (List UInt8)) (left : ℕ) (p : Peer) : Prop where
  executed : p.executed ++ p.pending = said
  replies : p.replies.length = p.executed.length
  within : p.buffered.length + turns p.coming ≤ left

variable {said : List (List UInt8)} {left : ℕ} {p : Peer}

theorem servePeer_passed (o : State) (h : p.filled.Passed) :
    servePeer kernel o p = (o, p.readOn) := by
  unfold servePeer
  exact if_pos h

theorem servePeer_garbled (o : State) (h : ¬p.filled.Passed)
    (htext : decode p.filled.line = none) : servePeer kernel o p = (o, p.readOn) := by
  unfold servePeer
  refine (if_neg h).trans ?_
  rw [show decode (readUntil [] p.buffered p.coming).line = none from htext]
  rfl

theorem servePeer_line (o : State) (h : ¬p.filled.Passed) {text : String}
    (htext : decode p.filled.line = some text) :
    servePeer kernel o p =
      ((serveLine kernel o text).2,
        { p.readOn with
          executed := p.executed ++ [p.filled.line]
          replies := p.replies ++ [(serveLine kernel o text).1] }) := by
  unfold servePeer
  refine (if_neg h).trans ?_
  rw [show decode (readUntil [] p.buffered p.coming).line = some text from htext]
  dsimp only
  generalize serveLine kernel o text = served
  rfl

/-- A turn: the line it executes is the first of those still to be heard. -/
theorem servePeer_answered (o : State) (h : Answered said left p) :
    Answered said (left - 1) (servePeer kernel o p).2 := by
  have hsaid := h.executed
  have hwithin : p.filled.turns ≤ left - 1 :=
    (turns_readUntil p.buffered p.coming).trans (Nat.sub_le_sub_right h.within 1)
  rw [p.pending_eq, Filled.toHear] at hsaid
  by_cases hpass : p.filled.Passed
  · rw [if_pos hpass] at hsaid
    rw [servePeer_passed kernel o hpass]
    exact ⟨hsaid, h.replies, hwithin⟩
  · rw [if_neg hpass, List.singleton_append] at hsaid
    cases htext : decode p.filled.line with
    | none =>
      rw [List.filter_cons_of_neg (by simp [htext])] at hsaid
      rw [servePeer_garbled kernel o hpass htext]
      exact ⟨hsaid, h.replies, hwithin⟩
    | some text =>
      rw [List.filter_cons_of_pos (by simp [htext]), List.append_cons] at hsaid
      rw [servePeer_line kernel o hpass htext]
      exact ⟨hsaid, by simp [h.replies], hwithin⟩

/-- What the other peers' turns do to the owner does not matter to a peer. -/
theorem servePeers_answered (o : State) {ps : List Peer} {i : ℕ} (hp : ps[i]? = some p)
    (h : Answered said left p) :
    ∃ p', (servePeers kernel o ps).2[i]? = some p' ∧ Answered said (left - 1) p' := by
  induction ps generalizing o i with
  | nil => exact absurd hp (by simp)
  | cons q ps ih =>
    cases i with
    | zero =>
      rw [List.getElem?_cons_zero, Option.some.injEq] at hp
      subst hp
      exact ⟨_, rfl, servePeer_answered kernel o h⟩
    | succ i =>
      rw [List.getElem?_cons_succ] at hp
      exact ih (servePeer kernel o q).1 hp

theorem length_servePeers (o : State) (ps : List Peer) :
    (servePeers kernel o ps).2.length = ps.length := by
  induction ps generalizing o with
  | nil => rfl
  | cons q ps ih =>
    rw [servePeers, List.length_cons, List.length_cons, ih]

theorem length_serveLoop (s : State × List Peer) (window : List (Option (List Arrival))) :
    (serveLoop kernel s window).2.length = s.2.length + window.reduceOption.length := by
  induction window generalizing s with
  | nil => rfl
  | cons accepted window ih =>
    rw [serveLoop, List.foldl_cons, ← serveLoop, ih, iteration, length_servePeers]
    cases accepted with
    | none => simp
    | some coming => simp; omega

theorem serveLoop_answered (s : State × List Peer) (window : List (Option (List Arrival)))
    {i : ℕ} (hp : s.2[i]? = some p) (h : Answered said left p) :
    ∃ p', (serveLoop kernel s window).2[i]? = some p' ∧
      Answered said (left - window.length) p' := by
  induction window generalizing s p left with
  | nil => exact ⟨p, hp, h⟩
  | cons accepted window ih =>
    have hput : (s.2 ++ (accepted.map Peer.new).toList)[i]? = some p := by
      rw [List.getElem?_append_left (List.getElem?_eq_some_iff.1 hp).1, hp]
    obtain ⟨q, hq, hqn⟩ := servePeers_answered kernel s.1 hput h
    obtain ⟨r, hr, hrn⟩ := ih (iteration kernel s accepted) hq hqn
    refine ⟨r, hr, ?_⟩
    rwa [List.length_cons, Nat.add_comm, ← Nat.sub_sub]

/-- With turns enough, whatever else the loop accepts and serves, a peer has had executed
what its arrivals were heard to say. -/
theorem serveLoop_heard (o : State) (before later : List (Option (List Arrival)))
    {coming : List Arrival} (h : turns coming ≤ later.length) :
    ∃ p, (serveLoop kernel (o, []) (before ++ some coming :: later)).2[
        before.reduceOption.length]? = some p ∧
      p.executed = (heard newline [] coming).filter (fun line => (decode line).isSome) ∧
      p.replies.length = p.executed.length := by
  have hlen := length_serveLoop kernel (o, []) before
  rw [List.length_nil, Nat.zero_add] at hlen
  have hnew : Answered ((heard newline [] coming).filter fun line => (decode line).isSome)
      (turns coming) (.new coming) :=
    ⟨rfl, rfl, by simp [Peer.new]⟩
  have hput : ((serveLoop kernel (o, []) before).2 ++ [Peer.new coming])[
      before.reduceOption.length]? = some (Peer.new coming) := by
    rw [← hlen, List.getElem?_concat_length]
  obtain ⟨q, hq, hqn⟩ := servePeers_answered kernel (serveLoop kernel (o, []) before).1 hput hnew
  obtain ⟨p, hp, hpn⟩ := serveLoop_answered kernel
    (iteration kernel (serveLoop kernel (o, []) before) (some coming)) later hq hqn
  have hwithin := hpn.within
  have hbuffered : p.buffered = [] := List.eq_nil_of_length_eq_zero (by omega)
  have hcoming : p.coming = [] := turns_eq_zero (by omega)
  have hpending : p.pending = [] := by
    rw [Peer.pending, hbuffered, hcoming]
    rfl
  have hexecuted := hpn.executed
  rw [hpending, List.append_nil] at hexecuted
  refine ⟨p, ?_, hexecuted, hpn.replies⟩
  rw [serveLoop, List.foldl_append, List.foldl_cons]
  exact hp

/-- A stream of newline-terminated commands, as it arrives. -/
structure Sent where
  arrivals : List Arrival
  terminated : Whole newline (sent arrivals)

namespace Sent

def lines (s : Sent) : List (List UInt8) := (cut newline [] (sent s.arrivals)).1

/-- Every line executed once and in order, with one reply each, in every loop that gives
the peer its turns. -/
def Framed (s : Sent) : Prop :=
  ∀ (kernel : Kernel) (o : State) (before later : List (Option (List Arrival))),
    turns s.arrivals ≤ later.length →
    ∃ p, (serveLoop kernel (o, []) (before ++ some s.arrivals :: later)).2[
        before.reduceOption.length]? = some p ∧
      p.executed = s.lines ∧ p.replies.length = s.lines.length

/-- Lines survive exactly where every time-out falls between two of them, and all are
text: what was read of a line before a time-out is dropped with the turn's buffer. -/
theorem framed_iff (s : Sent) :
    s.Framed ↔ Aligned newline s.arrivals ∧ ∀ line ∈ s.lines, (decode line).isSome := by
  have hheard := heard_filter_iff s.terminated fun line => (decode line).isSome
  apply Iff.intro
  · intro h
    have hlater : turns s.arrivals ≤ (List.replicate (turns s.arrivals)
        (none : Option (List Arrival))).length := by
      rw [List.length_replicate]
    obtain ⟨p, hp, hlines, -⟩ := h ⟨0, fun _ => none, fun _ => 0⟩ .new [] _ hlater
    obtain ⟨q, hq, hexecuted, -⟩ :=
      serveLoop_heard ⟨0, fun _ => none, fun _ => 0⟩ .new [] _ hlater
    rw [hp, Option.some.injEq] at hq
    subst hq
    exact hheard.1 (hexecuted.symm.trans hlines)
  · intro h kernel o before later hlater
    obtain ⟨p, hp, hexecuted, hreplies⟩ := serveLoop_heard kernel o before later hlater
    have hlines : p.executed = s.lines := hexecuted.trans (hheard.2 h)
    exact ⟨p, hp, hlines, by rw [hreplies, hlines]⟩

/-- A removal whose line a time-out cuts in two. -/
def lateRemoval : Sent where
  arrivals := [.chunk 114 [101, 109], .gap, .chunk 111 [118, 101, 32, 49, 10]]
  terminated := by decide

/-- Its tail is executed in its place. -/
theorem tail_executed :
    (serveLoop ⟨4, fun _ => none, fun _ => 0⟩ (.new, [])
        (some lateRemoval.arrivals :: List.replicate 12 none)).2.map
      (fun p => (p.executed, p.replies)) =
        [([[111, 118, 101, 32, 49, 10]], ["err unknown command 'ove'"])] ∧
      ¬lateRemoval.Framed := by
  have hrun : (serveLoop ⟨4, fun _ => none, fun _ => 0⟩ (.new, [])
      (some lateRemoval.arrivals :: List.replicate 12 none)).2.map
        (fun p => (p.executed, p.replies)) =
      [([[111, 118, 101, 32, 49, 10]], ["err unknown command 'ove'"])] := by
    decide +kernel
  refine ⟨hrun, fun h => ?_⟩
  obtain ⟨p, hp, hlines, -⟩ :=
    h ⟨4, fun _ => none, fun _ => 0⟩ .new [] (List.replicate 12 none) (by decide)
  rw [List.nil_append] at hp
  have hmem := List.mem_map_of_mem (f := fun p => (p.executed, p.replies))
    (List.mem_of_getElem? hp)
  rw [hrun, List.mem_singleton] at hmem
  have hexecuted : p.executed = [[111, 118, 101, 32, 49, 10]] := (Prod.mk.inj hmem).1
  rw [hexecuted] at hlines
  exact absurd hlines (by decide)

end Sent

end Owner

end Assayist
