import Assayist.Spec.Adapter

/-! What the driver's building blocks leave alone. Apart from registering VMs, they log
calls, advance the control client and record a fanout's span, and nothing else. -/

namespace Assayist

open Effect

variable {F : Type}

/-- A predicate on states that survives logging the events in `ok`, and a fanout's
span. -/
structure Logs (ok : Event → Prop) (P : RunState F → Prop) : Prop where
  log : ∀ s e, ok e → P s → P { s with log := s.log ++ [e] }
  span : ∀ s spans, P s → P { s with fanoutSpans := spans }

/-- And the control client's progress. -/
structure Frame (ok : Event → Prop) (P : RunState F → Prop) : Prop extends Logs ok P where
  client : ∀ s session client, s.session = some session → P s →
    P { s with session := some { session with client } }

section Logs

variable {ok : Event → Prop} {P : RunState F → Prop} (h : Logs ok P)

include h

theorem Logs.emit {e : Event} (he : ok e) : Keeps P (Assayist.emit e : Driver F Unit) :=
  .update fun s hs => h.log s e he hs

theorem Logs.callWorkload {α : Type} {m : WorkloadMethod} (hm : ∀ b, ok (.workload m b))
    (r : Except String α) : Keeps P (Assayist.callWorkload m r : Driver F α) :=
  (h.emit (hm _)).bind fun _ => .give r

theorem Logs.eachInner {m : Method} (hm : ∀ i b, ok (.inner i m b)) (ts : List (TargetAnswers F))
    (i : ℕ) : Keeps P (Assayist.eachInner m i ts) := by
  induction ts generalizing i with
  | nil => exact .pure ()
  | cons t ts ih => exact (h.emit (hm _ _)).bind fun _ => (Keeps.give _).bind fun _ => ih _

theorem Logs.methodBody (env : RunEnv F) {m : Method} (hne : m ≠ .teardown)
    (hm : ∀ m i b, m ≠ .teardown → ok (.inner i m b)) :
    Keeps P (Assayist.methodBody env m) := by
  unfold Assayist.methodBody
  cases env.target with
  | single t => exact .give _
  | fanout inners =>
    have heach := h.eachInner (fun i b => hm m i b hne) inners 0
    cases m with
    | provision => exact heach
    | start => exact heach
    | reachSteady =>
      refine heach.bind fun _ => ?_
      cases inners with
      | nil => exact .update fun s hs => h.span s _ hs
      | cons t ts =>
        exact (h.emit (hm .spans 0 _ (by decide))).bind fun _ =>
          .update fun s hs => h.span s _ hs
    | spans => exact .pure ()
    | teardown => exact absurd rfl hne

theorem Logs.teardownInners (hi : ∀ i b, ok (.inner i .teardown b)) (ts : List (TargetAnswers F))
    (i : ℕ) (last : Except String Unit) :
    Triple P (Assayist.teardownInners i ts last) (fun _ => P) fun _ _ => False := by
  induction ts generalizing i last with
  | nil => exact .pure fun _ hp => hp
  | cons t ts ih =>
    exact .bind (Q := fun _ => P) (.update fun s hs => h.log s _ (hi _ _) hs) fun _ => ih _ _

theorem Logs.callTarget (hinner : ∀ m i b, ok (.inner i m b)) (htarget : ∀ m b, ok (.target m b))
    (env : RunEnv F) (m : Method) : Keeps P (Assayist.callTarget env m) := by
  refine .bind (.attempt ?_) fun _ => (h.emit (htarget _ _)).bind fun _ => .give _
  by_cases hm : m = .teardown
  · subst hm
    unfold Assayist.methodBody
    cases env.target with
    | single t => exact .give _
    | fanout inners =>
      exact Triple.bind ((h.teardownInners (hinner _) inners 0 _).weaken (fun _ hp => hp)
        (fun _ _ hp => hp) fun _ _ hp => hp.elim) fun _ => Keeps.give _
  · exact h.methodBody env hm fun _ _ _ _ => hinner _ _ _

end Logs

section Command

theorem sendCommand_triple {env : RunEnv F} {P : RunState F → Prop}
    {Q : Except String Unit → RunState F → Prop} {line : String}
    (hopen : ∀ s, P s → s.session ≠ none)
    (hstep : ∀ s session r client, P s → s.session = some session →
      session.client.command env.exchange line = (r, client) →
      Q r { s with log := s.log ++ [.command line (isOk r)]
                   session := some { session with client } }) :
    Triple P (sendCommand env line) (fun u => Q (.ok u)) fun e => Q (.error e) := by
  intro s hs
  refine (wp_bind _ _ _ _ _).2 ?_
  rw [wp_look]
  cases hsession : s.session with
  | none => exact absurd hsession (hopen s hs)
  | some session =>
    have hq := hstep s session (session.client.command env.exchange line).1
      (session.client.command env.exchange line).2 hs hsession rfl
    refine (wp_bind _ _ _ _ _).2 ((wp_update _ _ _ _).2 ?_)
    refine (wp_bind _ _ _ _ _).2 ((wp_update _ _ _ _).2 ?_)
    refine (wp_give _ _ _ _).2 ⟨fun u hu => ?_, fun e he => ?_⟩
    · have hr : (session.client.command env.exchange line).1 = .ok u := hu
      rw [← hr]
      exact hq
    · have hr : (session.client.command env.exchange line).1 = .error e := he
      rw [← hr]
      exact hq

end Command

section Frame

variable {ok : Event → Prop} {P : RunState F → Prop} (h : Frame ok P)

include h

theorem Frame.sendCommand (hc : ∀ line b, ok (.command line b)) (env : RunEnv F)
    (line : String) : Keeps P (Assayist.sendCommand env line) := by
  intro s hs
  refine (wp_bind _ _ _ _ _).2 ?_
  rw [wp_look]
  cases hsession : s.session with
  | none => exact Keeps.give _ s hs
  | some session =>
    refine Triple.bind (P := fun s' => s' = s) (Q := fun _ => P)
      (.update fun s' hs' => ?_) (fun _ => ?_) s rfl
    · subst hs'
      exact h.client _ session _ hsession hs
    · exact (h.emit (hc _ _)).bind fun _ => .give _

theorem Frame.deregisterAll (hc : ∀ line b, ok (.command line b)) (env : RunEnv F)
    (hs : List ℕ) :
    Triple P (Assayist.deregisterAll env hs) (fun _ => P) fun _ _ => False := by
  induction hs with
  | nil => exact .pure fun _ hp => hp
  | cons handle hs ih => exact (h.sendCommand hc env _).attempt_then fun _ => ih

end Frame

section Exits

variable {ok : Event → Prop} {P E : RunState F → Prop} {env : RunEnv F}

/-- Spawning gadgets, where an abort path leaves `E`. -/
theorem Logs.spawnAll (h : Logs ok P) (hspawn : ∀ i b, ok (.spawn i b)) (attributed : List ℕ)
    (habandon : ∀ e Q, Triple P (abandon env attributed e : Driver F Unit) Q fun _ => E)
    (gs : List GadgetInvocation) (i : ℕ) :
    Triple P (Assayist.spawnAll env attributed i gs) (fun _ => P) fun _ => E := by
  induction gs generalizing i with
  | nil => exact .pure fun _ hs => hs
  | cons g gs ih =>
    refine .bind (Q := fun _ => P) (.update fun s hs => h.log s _ (hspawn _ _) hs) fun _ => ?_
    cases env.spawn i with
    | error e => exact habandon e _
    | ok u => exact ih (i + 1)

theorem Logs.waitAll (h : Logs ok P) (hwait : ∀ i b, ok (.wait i b))
    (hstop : ∀ b, ok (.workload .stop b)) (attributed : List ℕ)
    (habandon : ∀ e Q,
      Triple P (abandon env attributed e : Driver F (List (Fragment F))) Q fun _ => E)
    (gs : List GadgetInvocation) (i : ℕ) (fragments : List (Fragment F)) :
    Triple P (Assayist.waitAll env attributed i gs fragments) (fun _ => P) fun _ => E := by
  induction gs generalizing i fragments with
  | nil => exact .pure fun _ hs => hs
  | cons g gs ih =>
    refine .bind (Q := fun _ => P) (.update fun s hs => h.log s _ (hwait _ _) hs) fun _ => ?_
    cases env.wait i with
    | error e => exact (h.callWorkload hstop _).attempt_then fun _ => habandon e _
    | ok f => exact ih (i + 1) _

structure OnLog (ok : Event → Prop) (P : RunState F → Prop) : Prop where
  same : ∀ s s', s'.log = s.log → P s → P s'
  log : ∀ s e, ok e → P s → P { s with log := s.log ++ [e] }

variable (h : OnLog ok P)

include h

theorem OnLog.frame : Frame ok P where
  log := h.log
  span s _ hs := h.same s _ rfl hs
  client s _ _ _ hs := h.same s _ rfl hs

theorem OnLog.update {f : RunState F → RunState F} (hf : ∀ s, (f s).log = s.log) :
    Keeps P (Effect.update f : Driver F Unit) := .update fun s hs => h.same s _ (hf s) hs

theorem OnLog.register (hc : ∀ line b, ok (.command line b)) (vmId : String)
    (na : NetAttribution) : Keeps P (Assayist.register env vmId na) := by
  have hreserve : Keeps P (reserveHandle : Driver F ℕ) := by
    refine Keeps.look.bind fun s => ?_
    cases s.session with
    | none => exact .give _
    | some session => exact .bind (h.update fun _ => rfl) fun _ => .pure _
  exact .bind hreserve fun _ => .bind (h.frame.sendCommand hc env _) fun _ =>
    .bind (h.update fun _ => rfl) fun _ => .pure _

theorem OnLog.registerAll (hc : ∀ line b, ok (.command line b))
    (habandon : ∀ attributed e Q,
      Triple P (abandon env attributed e : Driver F (List ℕ)) Q fun _ => E)
    (vms : List NetAttribution) (attributed : List ℕ) :
    Triple P (Assayist.registerAll env vms attributed) (fun _ => P) fun _ => E := by
  induction vms generalizing attributed with
  | nil => exact .pure fun _ hs => hs
  | cons na vms ih =>
    refine .bind (Q := fun _ => P) (.bind (Q := fun _ => P) (fun _ hs => hs) fun _ =>
      .bind (Q := fun _ => P) (.update fun s hs => h.same s _ rfl hs) fun _ =>
        .pure fun _ hs => hs) fun vmId => ?_
    refine (h.register hc vmId na).attempt_then fun r => ?_
    cases r with
    | error e => exact habandon attributed e _
    | ok handle =>
      refine (h.frame.sendCommand hc env _).attempt_then fun r => ?_
      cases r with
      | error e => exact habandon _ e _
      | ok u => exact ih _

theorem OnLog.attributeVms (hc : ∀ line b, ok (.command line b))
    (habandon : ∀ attributed e Q,
      Triple P (abandon env attributed e : Driver F (List ℕ)) Q fun _ => E) :
    Triple P (Assayist.attributeVms env) (fun _ => P) fun _ => E := by
  refine .bind (Q := fun _ => P) (fun _ hs => hs) fun s => ?_
  split
  · exact .pure fun _ hs => hs
  · split
    · exact habandon [] _ _
    · exact h.registerAll hc habandon _ []

end Exits

end Assayist
