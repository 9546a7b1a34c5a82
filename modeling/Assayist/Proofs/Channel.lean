import Assayist.Proofs.Outcome
import Assayist.Proofs.Text
import Assayist.Spec.Channel

/-! Calls over the control channel against the owner's replies. While the client is in step
there is at most one call on the way, and every reply before its own has been read. -/

namespace Assayist

section Lines

def OneLine (s : String) : Prop := '\n' ∉ s.toList

theorem OneLine.append {s t : String} (hs : OneLine s) (ht : OneLine t) : OneLine (s ++ t) := by
  unfold OneLine
  rw [String.toList_append, List.mem_append, not_or]
  exact ⟨hs, ht⟩

theorem nat_oneLine (n : ℕ) : OneLine (toString n) := by
  obtain ⟨c, cs, hlist, -, hdigits, -⟩ := toList_nat n
  unfold OneLine
  rw [hlist]
  intro hmem
  exact absurd (hdigits '\n' hmem) (by decide)

theorem stateName_oneLine (s : UInt8) : OneLine (stateName s) := by
  unfold stateName OneLine
  split_ifs <;> decide

theorem Call.oneLine (call : Call) : OneLine call.line := by
  have hspace : OneLine " " := by unfold OneLine; decide
  cases call with
  | add ifindex handle netnsInum =>
    have hverb : OneLine "add " := by unfold OneLine; decide
    exact ((((hverb.append (nat_oneLine _)).append hspace).append (nat_oneLine _)).append
      hspace).append (nat_oneLine _)
  | state handle s =>
    have hverb : OneLine "state " := by unfold OneLine; decide
    exact ((hverb.append (nat_oneLine _)).append hspace).append (stateName_oneLine s)
  | remove handle =>
    have hverb : OneLine "remove " := by unfold OneLine; decide
    exact hverb.append (nat_oneLine _)

theorem cut_inj {u v : List Char} {us vs : List Char} (hu : '\n' ∉ u) (hv : '\n' ∉ v)
    (h : u ++ '\n' :: us = v ++ '\n' :: vs) : u = v ∧ us = vs := by
  induction u generalizing v with
  | nil =>
    cases v with
    | nil => exact ⟨rfl, (List.cons.inj h).2⟩
    | cons c v => exact absurd ((List.cons.inj h).1 ▸ List.mem_cons_self) hv
  | cons c u ih =>
    cases v with
    | nil => exact absurd ((List.cons.inj h).1 ▸ List.mem_cons_self) hu
    | cons d v =>
      obtain ⟨hcd, h⟩ := List.cons.inj h
      obtain ⟨huv, hrest⟩ := ih (fun hmem => hu (List.mem_cons_of_mem _ hmem))
        (fun hmem => hv (List.mem_cons_of_mem _ hmem)) h
      exact ⟨by rw [hcd, huv], hrest⟩

theorem trim_newline (s : String) : trim (s ++ "\n") = trim s := by
  have hwhite : isWhite '\n' = true := by decide
  have htext : (s ++ "\n").toList = s.toList ++ ['\n'] := String.toList_append
  unfold trim
  rw [htext, List.dropWhile_append]
  split_ifs with hempty
  · rw [List.isEmpty_iff.1 hempty, List.dropWhile_cons_of_pos hwhite]
    rfl
  · rw [List.reverse_append, List.reverse_singleton, List.singleton_append,
      List.dropWhile_cons_of_pos hwhite]

end Lines

namespace Channel

def failed (o : CallResult) : Prop := ∃ phase msg, o.exchange = some (.ioError phase msg)

/-- The client and the owner agree on what has been answered: nothing is on the way, or one
call is, or its whole answer is, or the owner is gone and nothing more will come. -/
inductive Agreed (ch : Channel) : Prop where
  | idle (hpending : ch.pending = none) (hup : ch.up = []) (howing : ch.owing = [])
      (hdown : ch.down = []) (hserved : ch.served.length = ch.results.length)
  | asked (call : Call) (hpending : ch.pending = some call) (hup : ch.up = wire call)
      (howing : ch.owing = []) (hdown : ch.down = [])
      (hserved : ch.served.length = ch.results.length)
  | answered (call : Call) (reply : String) (earlier : List (String × String))
      (hpending : ch.pending = some call) (hup : ch.up = [])
      (hserved : ch.served = earlier ++ [(call.line, reply)])
      (hearlier : earlier.length = ch.results.length) (hreply : '\n' ∉ reply.toList)
      (htext : ch.down ++ ch.owing = reply.toList ++ ['\n'])
  | ended (hclosed : ch.closed = true) (howing : ch.owing = []) (hdown : ch.down = [])

/-- A reply that was read was the owner's to that very call, or the end of the channel. -/
def OwnReply (served : List (String × String)) (k : ℕ) (o : CallResult) : Prop :=
  ∀ text, o.exchange = some (.reply text) → text = "" ∨
    ∃ reply, served[k]? = some (o.call.line, reply) ∧ text = reply ++ "\n"

def Judged (o : CallResult) : Prop :=
  match o.exchange with
  | some (.reply text) => o.result = ControlClient.readReply o.call.line text
  | _ => ∃ msg, o.result = .error msg

structure Log (served : List (String × String)) (results : List CallResult) : Prop where
  own : ∀ k o, results[k]? = some o → OwnReply served k o
  judged : ∀ o ∈ results, Judged o
  after : results.Pairwise fun o o' => failed o → ∃ msg, o'.result = .error msg

variable {served : List (String × String)} {results : List CallResult}

theorem Log.serve (h : Log served results) (e : String × String) :
    Log (served ++ [e]) results where
  own k o ho text htext := by
    rcases h.own k o ho text htext with hend | ⟨reply, hreply, htext⟩
    · exact .inl hend
    · have hlt : k < served.length := (List.getElem?_eq_some_iff.1 hreply).1
      refine .inr ⟨reply, ?_, htext⟩
      rw [List.getElem?_append_left hlt, hreply]
  judged := h.judged
  after := h.after

theorem Log.add (h : Log served results) {o : CallResult} (hown : OwnReply served results.length o)
    (hjudged : Judged o)
    (hafter : (∃ o' ∈ results, failed o') → ∃ msg, o.result = .error msg) :
    Log served (results ++ [o]) where
  own k o' ho' := by
    rcases Nat.lt_or_ge k results.length with hlt | hge
    · rw [List.getElem?_append_left hlt] at ho'
      exact h.own k o' ho'
    · rw [List.getElem?_append_right hge] at ho'
      have hk : k - results.length < [o].length := (List.getElem?_eq_some_iff.1 ho').1
      rw [List.length_singleton] at hk
      have hkeq : k = results.length := by omega
      rw [hkeq, Nat.sub_self] at ho'
      rw [hkeq, ← Option.some.inj ho']
      exact hown
  judged := by
    intro o' ho'
    rcases List.mem_append.1 ho' with hmem | hmem
    · exact h.judged o' hmem
    · rw [List.mem_singleton.1 hmem]
      exact hjudged
  after := by
    refine List.pairwise_append.2 ⟨h.after, List.pairwise_singleton _ _, fun o' ho' o'' ho'' => ?_⟩
    rw [List.mem_singleton.1 ho'']
    exact fun hfailed => hafter ⟨o', ho', hfailed⟩

structure Inv (ch : Channel) : Prop where
  log : Log ch.served ch.results
  agreed : ch.client.poisoned = false → Agreed ch
  waits : ch.client.poisoned = true → ch.pending = none
  sound : ch.client.poisoned = false → ¬ ∃ o ∈ ch.results, failed o
  quiet : ch.closed = true → ch.owing = []

theorem inv_new : Inv new where
  log := ⟨fun _ _ h => (by cases h), fun _ h => (by cases h), List.Pairwise.nil⟩
  agreed _ := .idle rfl rfl rfl rfl rfl
  waits _ := rfl
  sound _ h := by
    obtain ⟨o, ho, -⟩ := h
    cases ho
  quiet h := by cases h

variable {ch : Channel}

theorem finish_ioError (hp : ch.client.poisoned = false) (call : Call) (phase : IoPhase)
    (msg : String) : ch.finish call (.ioError phase msg) =
      { ch with
        client := ⟨true, ch.client.sent + 1⟩
        pending := none
        results := ch.results ++
          [⟨call, some (.ioError phase msg), .error (phase.error call.line msg)⟩] } := by
  unfold finish ControlClient.command
  rw [if_neg (by rw [hp]; decide)]

theorem finish_reply (hp : ch.client.poisoned = false) (call : Call) (text : String) :
    ch.finish call (.reply text) =
      { ch with
        client := ⟨false, ch.client.sent + 1⟩
        pending := none
        results := ch.results ++
          [⟨call, some (.reply text), ControlClient.readReply call.line text⟩] } := by
  unfold finish ControlClient.command
  rw [if_neg (by rw [hp]; decide)]

theorem inv_ioError (h : Inv ch) (hp : ch.client.poisoned = false) (up down : List Char)
    (call : Call) (phase : IoPhase) (msg : String) :
    Inv ({ ch with up := up, down := down }.finish call (.ioError phase msg)) := by
  have hfinish := finish_ioError (show { ch with up := up, down := down }.client.poisoned = false
    from hp) call phase msg
  rw [hfinish]
  refine ⟨h.log.add ?_ ⟨_, rfl⟩ fun hfailed => absurd hfailed (h.sound hp), ?_, fun _ => rfl, ?_,
    h.quiet⟩
  · intro text htext
    cases htext
  · intro hp'
    cases hp'
  · intro hp'
    cases hp'

/-- A reply that is the call's own, read off a channel that is then idle or ended. -/
theorem inv_reply (h : Inv ch) (hp : ch.client.poisoned = false) (down : List Char) {call : Call}
    {text : String}
    (hown : text = "" ∨ ∃ reply, ch.served[ch.results.length]? = some (call.line, reply) ∧
      text = reply ++ "\n")
    (hagreed : Agreed ({ ch with down := down }.finish call (.reply text))) :
    Inv ({ ch with down := down }.finish call (.reply text)) := by
  have hfinish := finish_reply (show { ch with down := down }.client.poisoned = false from hp)
    call text
  rw [hfinish] at hagreed ⊢
  have hjudged : Judged ⟨call, some (.reply text), ControlClient.readReply call.line text⟩ := by
    simp only [Judged]
  refine ⟨h.log.add ?_ hjudged fun hfailed => absurd hfailed (h.sound hp), fun _ => hagreed, ?_,
    ?_, h.quiet⟩
  · intro text' htext
    have heq : text = text' := Exchange.reply.inj (Option.some.inj htext)
    rw [← heq]
    exact hown
  · intro hp'
    cases hp'
  · intro _ hfailed
    obtain ⟨o, ho, hfailed⟩ := hfailed
    rcases List.mem_append.1 ho with hmem | hmem
    · exact h.sound hp ⟨o, hmem, hfailed⟩
    · rw [List.mem_singleton.1 hmem] at hfailed
      obtain ⟨phase, msg, hexchange⟩ := hfailed
      cases hexchange

theorem inv_refuse (h : Inv ch) (hidle : ch.pending = none) (hp : ch.client.poisoned = true)
    (exchange : ℕ → Exchange) (call : Call) : Inv (ch.refuse exchange call) := by
  unfold refuse ControlClient.command
  rw [if_pos hp]
  refine ⟨h.log.add ?_ ⟨_, rfl⟩ fun _ => ⟨_, rfl⟩, fun hp' => ?_, fun _ => hidle, fun hp' => ?_,
    h.quiet⟩
  · intro text htext
    cases htext
  · rw [hp] at hp'
    cases hp'
  · rw [hp] at hp'
    cases hp'

theorem agreed_sent (h : Agreed ch) (hidle : ch.pending = none) (call : Call) :
    Agreed { ch with pending := some call, up := ch.up ++ wire call } := by
  cases h with
  | idle hpending hup howing hdown hserved =>
    exact .asked call rfl (by rw [hup]; rfl) howing hdown hserved
  | asked call' hpending =>
    rw [hidle] at hpending
    cases hpending
  | answered call' reply earlier hpending =>
    rw [hidle] at hpending
    cases hpending
  | ended hclosed howing hdown => exact .ended hclosed howing hdown

/-- The owner reads the call that is on the way, and no other. -/
theorem agreed_serve (h : Agreed ch) {line rest : List Char} {reply : String}
    (hclosed : ch.closed = false) (hup : ch.up = line ++ '\n' :: rest) (hline : '\n' ∉ line)
    (hreply : '\n' ∉ reply.toList) :
    Agreed { ch with up := rest, served := ch.served ++ [(String.ofList line, reply)],
                     owing := ch.owing ++ reply.toList ++ ['\n'] } := by
  cases h with
  | idle hpending hnone =>
    rw [hnone] at hup
    simp at hup
  | asked call hpending hwire howing hdown hserved =>
    rw [hup] at hwire
    obtain ⟨hcall, hrest⟩ := cut_inj hline call.oneLine hwire
    refine .answered call reply ch.served hpending hrest ?_ hserved hreply ?_
    · rw [hcall, String.ofList_toList]
    · rw [hdown, howing]
      rfl
  | answered call' reply' earlier hpending hnone =>
    rw [hnone] at hup
    simp at hup
  | ended hclosed' =>
    rw [hclosed] at hclosed'
    cases hclosed'

theorem agreed_deliver (h : Agreed ch) {part rest : List Char} (howing : ch.owing = part ++ rest) :
    Agreed { ch with owing := rest, down := ch.down ++ part } := by
  cases h with
  | idle hpending hup hnone hdown hserved =>
    rw [howing, List.append_eq_nil_iff] at hnone
    exact .idle hpending hup hnone.2 (by rw [hdown, hnone.1]; rfl) hserved
  | asked call hpending hup hnone hdown hserved =>
    rw [howing, List.append_eq_nil_iff] at hnone
    exact .asked call hpending hup hnone.2 (by rw [hdown, hnone.1]; rfl) hserved
  | answered call reply earlier hpending hup hserved hearlier hreply htext =>
    refine .answered call reply earlier hpending hup hserved hearlier hreply ?_
    rw [List.append_assoc, ← howing]
    exact htext
  | ended hclosed hnone hdown =>
    rw [howing, List.append_eq_nil_iff] at hnone
    exact .ended hclosed hnone.2 (by rw [hdown, hnone.1]; rfl)

theorem agreed_close (h : Agreed ch) : Agreed { ch with closed := true } := by
  cases h with
  | idle hpending hup howing hdown hserved => exact .idle hpending hup howing hdown hserved
  | asked call hpending hup howing hdown hserved =>
    exact .asked call hpending hup howing hdown hserved
  | answered call reply earlier hpending hup hserved hearlier hreply htext =>
    exact .answered call reply earlier hpending hup hserved hearlier hreply htext
  | ended _ howing hdown => exact .ended rfl howing hdown

/-- A whole line that comes back answers the call that waits. -/
theorem inv_read (h : Inv ch) (hp : ch.client.poisoned = false) {call : Call}
    {reply rest : List Char} (hpending : ch.pending = some call)
    (hdown : ch.down = reply ++ '\n' :: rest) (hline : '\n' ∉ reply) :
    Inv ({ ch with down := rest }.finish call (.reply (String.ofList (reply ++ ['\n'])))) := by
  cases h.agreed hp with
  | idle hnone =>
    rw [hnone] at hpending
    cases hpending
  | asked call' _ _ _ hnone =>
    rw [hnone] at hdown
    simp at hdown
  | ended _ _ hnone =>
    rw [hnone] at hdown
    simp at hdown
  | answered call' reply' earlier hpending' hup hserved hearlier hreply htext =>
    have hcall : call' = call := Option.some.inj (hpending'.symm.trans hpending)
    rw [hdown, List.append_assoc, List.cons_append] at htext
    obtain ⟨hsame, hempty⟩ := cut_inj hline hreply htext
    obtain ⟨hrest, howing⟩ := List.append_eq_nil_iff.1 hempty
    refine inv_reply h hp rest (.inr ⟨reply', ?_, ?_⟩) ?_
    · rw [hserved, ← hearlier, List.getElem?_concat_length, hcall]
    · rw [hsame, String.ofList_append, String.ofList_toList]
    · have hfinish := finish_reply (show { ch with down := rest }.client.poisoned = false from hp)
        call (String.ofList (reply ++ ['\n']))
      rw [hfinish]
      refine .idle rfl hup howing hrest ?_
      change ch.served.length = (ch.results ++ _).length
      rw [hserved, List.length_append, List.length_append, hearlier]
      rfl

theorem inv_readEnd (h : Inv ch) (hp : ch.client.poisoned = false) (call : Call)
    (hclosed : ch.closed = true) (hline : '\n' ∉ ch.down) :
    Inv ({ ch with down := [] }.finish call (.reply (String.ofList ch.down))) := by
  have hdown : ch.down = [] := by
    cases h.agreed hp with
    | idle _ _ _ hdown => exact hdown
    | asked _ _ _ _ hdown => exact hdown
    | ended _ _ hdown => exact hdown
    | answered call' reply earlier _ _ _ _ _ htext =>
      rw [h.quiet hclosed, List.append_nil] at htext
      rw [htext] at hline
      exact absurd (List.mem_append_right _ (List.mem_singleton.2 rfl)) hline
  rw [hdown]
  refine inv_reply h hp [] (.inl rfl) ?_
  have hfinish := finish_reply (show { ch with down := [] }.client.poisoned = false from hp)
    call (String.ofList [])
  rw [hfinish]
  exact .ended hclosed (h.quiet hclosed) rfl

theorem Inv.inStep (h : Inv ch) {call : Call} (hpending : ch.pending = some call) :
    ch.client.poisoned = false := by
  cases hp : ch.client.poisoned with
  | false => rfl
  | true =>
    rw [h.waits hp] at hpending
    cases hpending

/-- Every step of either end keeps the two in agreement. -/
theorem inv_step {ch' : Channel} (h : Inv ch) (hstep : Step ch ch') : Inv ch' := by
  cases hstep with
  | refused call exchange hidle hp => exact inv_refuse h hidle hp exchange call
  | sent call hidle hp =>
    refine ⟨h.log, fun _ => agreed_sent (h.agreed hp) hidle call, fun hp' => ?_, h.sound, h.quiet⟩
    rw [hp] at hp'
    cases hp'
  | sendFails call part msg hidle hp _ =>
    exact inv_ioError h hp (ch.up ++ part) ch.down call .sending msg
  | flushFails call msg hidle hp =>
    exact inv_ioError h hp (ch.up ++ wire call) ch.down call .flushing msg
  | read call reply rest hpending hdown hline =>
    exact inv_read h (h.inStep hpending) hpending hdown hline
  | readFails call lost rest msg hpending _ =>
    exact inv_ioError h (h.inStep hpending) ch.up rest call .reading msg
  | readEnd call hpending hclosed hline =>
    exact inv_readEnd h (h.inStep hpending) call hclosed hline
  | serve line rest reply hclosed hup hline hreply =>
    refine ⟨h.log.serve _, fun hp => agreed_serve (h.agreed hp) hclosed hup hline hreply, h.waits,
      h.sound, fun hclosed' => ?_⟩
    rw [hclosed] at hclosed'
    cases hclosed'
  | deliver part rest howing =>
    refine ⟨h.log, fun hp => agreed_deliver (h.agreed hp) howing, h.waits, h.sound,
      fun hclosed => ?_⟩
    rw [h.quiet hclosed] at howing
    exact (List.append_eq_nil_iff.1 howing.symm).2
  | close howing =>
    exact ⟨h.log, fun hp => agreed_close (h.agreed hp), h.waits, h.sound, fun _ => howing⟩

theorem inv_reachable (h : Reachable ch) : Inv ch := by
  induction h with
  | refl => exact inv_new
  | tail _ hstep ih => exact inv_step ih hstep

/-- In every run of the two ends, whatever fails and however late the replies come: the `k`-th
call returns `Ok` only if the owner's `k`-th reply, to that very line, was `ok`; every reply
a call reads is its own; and after an I/O error every later call returns an error. -/
theorem results_own (h : Reachable ch) :
    (∀ (k : ℕ) (o : CallResult), ch.results[k]? = some o → o.result = .ok () →
      ∃ reply, ch.served[k]? = some (o.call.line, reply) ∧ trim reply = "ok") ∧
    (∀ (k : ℕ) (o : CallResult), ch.results[k]? = some o → OwnReply ch.served k o) ∧
    ∀ (k l : ℕ) (o o' : CallResult), k < l → ch.results[k]? = some o → ch.results[l]? = some o' →
      failed o → ∃ msg, o'.result = .error msg := by
  have hinv := inv_reachable h
  refine ⟨fun k o ho hok => ?_, hinv.log.own, fun k l o o' hkl ho ho' hfailed => ?_⟩
  · have hjudged := hinv.log.judged o (List.mem_of_getElem? ho)
    unfold Judged at hjudged
    cases he : o.exchange with
    | none =>
      rw [he] at hjudged
      obtain ⟨msg, hmsg⟩ := hjudged
      rw [hok] at hmsg
      cases hmsg
    | some e =>
      rw [he] at hjudged
      cases e with
      | ioError phase msg =>
        obtain ⟨msg', hmsg⟩ := hjudged
        rw [hok] at hmsg
        cases hmsg
      | reply text =>
        have htrim : trim text = "ok" := by
          rw [← readReply_isOk o.call.line, ← show o.result = _ from hjudged, hok]
          rfl
        rcases hinv.log.own k o ho text he with hend | ⟨reply, hreply, htext⟩
        · rw [hend] at htrim
          exact absurd htrim (by decide)
        · refine ⟨reply, hreply, ?_⟩
          rw [← trim_newline, ← htext]
          exact htrim
  · have hpair := List.pairwise_iff_getElem.1 hinv.log.after
    obtain ⟨hk, rfl⟩ := List.getElem?_eq_some_iff.1 ho
    obtain ⟨hl, rfl⟩ := List.getElem?_eq_some_iff.1 ho'
    exact hpair k l hk hl hkl hfailed

/-- A call answered in two pieces, one whose reply comes after the time-out, and one that is
refused. -/
theorem lateReply_own : ∃ ch : Channel, (ch.results.map fun o => isOk o.result) =
      [true, false, false] ∧ ch.down = ['o', 'k', '\n'] ∧
    (∀ (k : ℕ) (o : CallResult), ch.results[k]? = some o → o.result = .ok () →
      ∃ reply, ch.served[k]? = some (o.call.line, reply) ∧ trim reply = "ok") ∧
    (∀ (k : ℕ) (o : CallResult), ch.results[k]? = some o → OwnReply ch.served k o) ∧
    ∀ (k l : ℕ) (o o' : CallResult), k < l → ch.results[k]? = some o → ch.results[l]? = some o' →
      failed o → ∃ msg, o'.result = .error msg := by
  have hsent : Relation.ReflTransGen Step new _ := .single (.sent (.add 11 0 0) rfl rfl)
  have hserved := hsent.tail (.serve "add 11 0 0".toList [] "ok" rfl (by decide) (by decide)
    (by decide))
  have hpart := hserved.tail (.deliver ['o'] ['k', '\n'] (by decide))
  have hwhole := hpart.tail (.deliver ['k', '\n'] [] (by decide))
  have hread := hwhole.tail (.read (.add 11 0 0) ['o', 'k'] [] rfl (by decide) (by decide))
  have hsecond := hread.tail (.sent (.add 12 1 0) rfl (by decide))
  have htimeout := hsecond.tail (.readFails (.add 12 1 0) [] [] "timed out" rfl (by decide))
  have hlate := htimeout.tail (.serve "add 12 1 0".toList [] "ok" rfl (by decide) (by decide)
    (by decide))
  have hdown := hlate.tail (.deliver ['o', 'k', '\n'] [] (by decide))
  have hrefused := hdown.tail (.refused (.remove 0) (fun _ => .reply "ok\n") rfl (by decide))
  exact ⟨_, by decide, by decide, results_own hrefused⟩

end Channel

end Assayist
