import Assayist.Proofs.Driver

/-! When each part of the driver returns, by what the calls it makes answer. -/

namespace Assayist

open Effect

section Inputs

variable {F : Type}

/-- Whether a target method returns `Ok`. A fanout asks every inner target, except for
its spans, which are its own. -/
def Target.answers (t : Target F) (m : Method) : Bool :=
  match t with
  | .single t => isOk (innerAnswer t m)
  | .fanout inners => decide (m = .spans) || inners.all fun t => isOk (innerAnswer t m)

def accepted (e : Exchange) : Prop := ∃ reply, e = .reply reply ∧ trim reply = "ok"

def accepts (env : RunEnv F) (c : ControlClient) (n : ℕ) : Prop :=
  ∀ j < n, c.poisoned = false ∧ accepted (env.exchange (c.sent + j))

/-- Attribution succeeds: there is no session, or every VM's two commands are accepted
and there is a VM. -/
def attributes (env : RunEnv F) : Option AttributionSession → Prop
  | none => True
  | some session => env.target.netAttribution ≠ [] ∧
    accepts env session.client (2 * env.target.netAttribution.length)

def windsDown (env : RunEnv F) (session : Option AttributionSession) : Prop :=
  attributes env session ∧ (∀ k < env.gadgets.length, isOk (env.spawn k) = true) ∧
    isOk env.workload.start = true ∧ ∀ k < env.gadgets.length, isOk (env.wait k) = true

end Inputs

section Calls

variable {F : Type} {env : RunEnv F} {P : RunState F → Prop}

theorem isOk_iff {ε α : Type} {r : Except ε α} : (∃ a, r = .ok a) ↔ isOk r = true := by
  cases r <;> simp [isOk]

theorem give_decides {α : Type} (r : Except String α) :
    Decides P (give r : Driver F α) (isOk r = true) P := (Decides.give r).congr isOk_iff

variable (h : Logs (fun _ => True) P)

include h

theorem emit_returns (e : Event) : Decides P (emit e : Driver F Unit) True P :=
  .returns (.update fun s hs => h.log s e trivial hs)

theorem eachInner_decides (m : Method) (ts : List (TargetAnswers F)) (i : ℕ) :
    Decides P (eachInner m i ts) ((ts.all fun t => isOk (innerAnswer t m)) = true) P := by
  induction ts generalizing i with
  | nil => exact (Decides.returns (.pure fun _ hs => hs)).congr (by simp)
  | cons t ts ih =>
    refine ((emit_returns h _).bind fun _ => (give_decides _).bind fun _ => ih (i + 1)).congr ?_
    simp

theorem methodBody_decides (env : RunEnv F) {m : Method} (hm : m ≠ .teardown) :
    Decides P (methodBody env m) (env.target.answers m = true) P := by
  unfold methodBody Target.answers
  cases env.target with
  | single t => exact give_decides _
  | fanout inners =>
    have heach := eachInner_decides h m inners 0
    cases m with
    | provision => exact heach.congr (by simp)
    | start => exact heach.congr (by simp)
    | reachSteady =>
      have hspan : Decides P (update fun s => { s with
          fanoutSpans := s.fanoutSpans ++ [aggregateSpan env inners] } : Driver F Unit) True P :=
        .returns (.update fun s hs => h.span s _ hs)
      refine Decides.congr (heach.bind (d := True) fun _ => ?_) (by simp)
      cases inners with
      | nil => exact hspan
      | cons t ts => exact ((emit_returns h _).bind fun _ => hspan).congr (by simp)
    | spans => exact (Decides.returns (.pure fun _ hs => hs)).congr (by simp)
    | teardown => exact absurd rfl hm

theorem callTarget_decides (env : RunEnv F) {m : Method} (hm : m ≠ .teardown) :
    Decides P (callTarget env m) (env.target.answers m = true) P := by
  refine ((methodBody_decides h env hm).attempt_bind (d := True) (fun u => ?_)
    fun e => ?_).congr (by simp)
  · exact ((emit_returns h _).bind fun _ => give_decides (.ok u)).congr (by simp [isOk])
  · exact .bind (.always _) fun _ => .give (fun _ hok => by cases hok) fun _ _ _ _ => trivial

end Calls

section Spans

variable {F : Type} {env : RunEnv F} {P Q E : RunState F → Prop}

theorem callTarget_answer {t : TargetAnswers F} (ht : env.target = .single t) (m : Method) :
    Triple P (callTarget env m) (fun _ _ => innerAnswer t m = .ok ()) fun _ _ => True := by
  refine .bind (Q := fun r _ => r = innerAnswer t m) (.attempt ?_) fun r => ?_
  · unfold methodBody
    rw [ht]
    exact .give (fun _ h _ _ => h.symm) fun _ h _ _ => h.symm
  · refine .bind (Q := fun _ _ => r = innerAnswer t m) (.update fun _ h => h) fun _ => ?_
    exact .give (fun u hr _ h => by rw [← h, hr]) fun _ _ _ _ => trivial

/-- Collecting the spans ends as the call of `spans` does. -/
theorem callSpans_triple (h : Triple P (callTarget env .spans) (fun _ => Q) fun _ => E) :
    Triple P (callSpans env) (fun _ => Q) fun _ => E := by
  unfold callSpans
  cases ht : env.target with
  | single t =>
    refine .bind ((h.and (callTarget_answer ht .spans)).weaken (fun _ h => h) (fun _ _ h => h)
      fun _ _ h => h.1) fun _ => ?_
    refine .give (fun _ _ _ h => h.1) fun e he s h => ?_
    -- the spans are read twice, and an error would have shown the first time
    have hok := h.2
    rw [innerAnswer, he] at hok
    cases hok
  | fanout inners =>
    refine h.bind fun _ => ?_
    exact .bind (Q := fun _ => Q) (fun _ h => h) fun _ => .pure fun _ h => h

end Spans

section Commands

variable {F : Type} {env : RunEnv F}

def channel (c : ControlClient) (s : RunState F) : Prop :=
  ∃ table, s.session = some ⟨c, table⟩

theorem readReply_isOk (line reply : String) :
    isOk (ControlClient.readReply line reply) = true ↔ trim reply = "ok" := by
  unfold ControlClient.readReply
  by_cases hok : trim reply = "ok"
  · have hstrip : ControlClient.stripErr "ok" = none := by decide
    simp [hok, hstrip, isOk]
  · cases hstrip : ControlClient.stripErr (trim reply) with
    | none => simp [hstrip, hok, isOk]
    | some msg => simp [hstrip, hok, isOk]

/-- A command is answered with `Ok` when the channel is in step and the reply is `ok`,
and then the channel stays in step. -/
theorem command_isOk (exchange : ℕ → Exchange) (c : ControlClient) (line : String) :
    (isOk (c.command exchange line).1 = true ↔
      c.poisoned = false ∧ accepted (exchange c.sent)) ∧
    (isOk (c.command exchange line).1 = true →
      (c.command exchange line).2 = ⟨false, c.sent + 1⟩) := by
  unfold ControlClient.command accepted
  cases hp : c.poisoned with
  | true => simp [isOk]
  | false =>
    cases he : exchange c.sent with
    | ioError phase msg => simp [isOk]
    | reply reply => simp [readReply_isOk]

theorem sendCommand_decides (c : ControlClient) (line : String) :
    Decides (channel c) (sendCommand env line)
      (c.poisoned = false ∧ accepted (env.exchange c.sent)) (channel ⟨false, c.sent + 1⟩) := by
  obtain ⟨hiff, hnext⟩ := command_isOk env.exchange c line
  intro s hs
  obtain ⟨table, hsession⟩ := hs
  refine (wp_bind _ _ _ _ _).2 ?_
  rw [wp_look, hsession]
  refine (wp_bind _ _ _ _ _).2 ?_
  rw [wp_update]
  refine (wp_bind _ _ _ _ _).2 ?_
  refine (wp_give _ _ _ _).2 ⟨fun u hu => ?_, fun e he => ?_⟩
  · have hok : isOk (c.command env.exchange line).1 = true := isOk_iff.1 ⟨u, hu⟩
    exact ⟨hiff.1 hok, table, congrArg (fun c => some (AttributionSession.mk c table)) (hnext hok)⟩
  · have herror : (c.command env.exchange line).1 = .error e := he
    rw [← hiff, herror]
    simp [isOk]

theorem accepts_zero (c : ControlClient) : accepts env c 0 ↔ True :=
  iff_of_true (fun _ hj => absurd hj (Nat.not_lt_zero _)) trivial

theorem accepts_succ (c : ControlClient) (n : ℕ) :
    accepts env c (n + 1) ↔ (c.poisoned = false ∧ accepted (env.exchange c.sent)) ∧
      accepts env ⟨false, c.sent + 1⟩ n := by
  apply Iff.intro
  · intro h
    refine ⟨h 0 (Nat.succ_pos n), fun j hj => ⟨rfl, ?_⟩⟩
    have hnext := (h (j + 1) (by omega)).2
    rwa [← Nat.add_right_comm c.sent j 1, Nat.add_assoc]
  · intro h j hj
    obtain ⟨hfirst, hrest⟩ := h
    cases j with
    | zero => exact hfirst
    | succ j =>
      have hnext := (hrest j (by omega)).2
      rw [Nat.add_right_comm, Nat.add_assoc] at hnext
      exact ⟨hfirst.1, hnext⟩

theorem abandon_never {α : Type} {P : RunState F → Prop} (attributed : List ℕ) (e : String)
    (Q : α → RunState F → Prop) :
    Triple P (abandon env attributed e : Driver F α) Q fun _ _ => True :=
  .bind (.always _) fun _ => .bind (Q := fun _ _ => True) (.always _) fun _ =>
    .give (fun _ hok => by cases hok) fun _ _ _ _ => trivial

theorem register_decides (c : ControlClient) (vmId : String) (na : NetAttribution) :
    Decides (channel c) (register env vmId na)
      (c.poisoned = false ∧ accepted (env.exchange c.sent)) (channel ⟨false, c.sent + 1⟩) := by
  have hreserve : Decides (channel c) (reserveHandle : Driver F ℕ) True (channel c) := by
    refine .returns fun s hs => ?_
    obtain ⟨table, hsession⟩ := hs
    refine (wp_bind _ _ _ _ _).2 ?_
    rw [wp_look, hsession]
    exact ⟨_, rfl⟩
  have hrecord (p : VmProvenance) : Decides (channel ⟨false, c.sent + 1⟩)
      (recordProvenance p : Driver F Unit) True (channel ⟨false, c.sent + 1⟩) := by
    refine .returns (.update fun s hs => ?_)
    obtain ⟨table, hsession⟩ := hs
    exact ⟨_, by rw [hsession, Option.map_some]⟩
  refine (hreserve.bind fun handle => (sendCommand_decides c _).bind fun _ =>
    (hrecord _).bind fun _ => Decides.returns (.pure fun _ hs => hs)).congr ?_
  simp

theorem registerAll_decides (vms : List NetAttribution) (attributed : List ℕ)
    (c : ControlClient) :
    Decides (channel c) (registerAll env vms attributed) (accepts env c (2 * vms.length))
      fun _ => True := by
  induction vms generalizing attributed c with
  | nil => exact (Decides.returns (.pure fun _ _ => trivial)).congr (accepts_zero c).symm
  | cons na vms ih =>
    have hdraw : Decides (channel c) (drawRunId env) True (channel c) := .returns fun s hs => hs
    refine (hdraw.bind fun vmId => (register_decides c vmId na).attempt_bind (fun handle =>
      (sendCommand_decides _ _).attempt_bind (fun _ => ih _ _)
        fun e => abandon_never _ e _) fun e => abandon_never _ e _).congr ?_
    rw [List.length_cons, Nat.mul_succ, accepts_succ, accepts_succ]
    simp

/-- The VMs of the target are attributed exactly when `attributes` says so. -/
theorem attributeVms_decides (session : Option AttributionSession) :
    Decides (fun s => s.session = session) (attributeVms env) (attributes env session)
      fun _ => True := by
  intro s hs
  refine (wp_bind _ _ _ _ _).2 ?_
  rw [wp_look, hs]
  cases session with
  | none => exact ⟨trivial, trivial⟩
  | some session =>
    simp only [Option.isNone_some, Bool.false_eq_true, if_false, attributes]
    cases hvms : env.target.netAttribution with
    | nil =>
      exact Decides.congr (.never (abandon_never (P := fun _ => True) [] _ _)) (by simp) s trivial
    | cons na vms =>
      refine (registerAll_decides (na :: vms) [] session.client).congr (by simp) s ?_
      exact ⟨session.table, hs⟩

end Commands

section Loops

variable {F : Type} {env : RunEnv F}

theorem forall_lt_cons {p : ℕ → Prop} {i n : ℕ} :
    (∀ k < n + 1, p (i + k)) ↔ p i ∧ ∀ k < n, p (i + 1 + k) := by
  apply Iff.intro
  · intro h
    refine ⟨h 0 (Nat.succ_pos n), fun k hk => ?_⟩
    have hk := h (k + 1) (by omega)
    rwa [Nat.add_right_comm, Nat.add_assoc]
  · intro h k hk
    obtain ⟨hfirst, hrest⟩ := h
    cases k with
    | zero => exact hfirst
    | succ k =>
      have hk := hrest k (by omega)
      rwa [Nat.add_right_comm, Nat.add_assoc] at hk

theorem spawnAll_decides (attributed : List ℕ) (gs : List GadgetInvocation) (i : ℕ) :
    Decides (fun _ => True) (spawnAll env attributed i gs)
      (∀ k < gs.length, isOk (env.spawn (i + k)) = true) fun _ => True := by
  induction gs generalizing i with
  | nil => exact (Decides.returns (.pure fun _ hs => hs)).congr (by simp)
  | cons g gs ih =>
    have hemit : Decides (fun _ => True) (emit (.spawn i (isOk (env.spawn i))) : Driver F Unit)
        True fun _ => True := .returns (.update fun _ _ => trivial)
    refine (hemit.bind (d := ∀ k < gs.length + 1, isOk (env.spawn (i + k)) = true)
      fun _ => ?_).congr (by simp)
    refine Decides.congr ?_ (forall_lt_cons (p := fun k => isOk (env.spawn k) = true)).symm
    cases env.spawn i with
    | error e => exact Decides.congr (.never (abandon_never attributed e _)) (by simp [isOk])
    | ok u => exact (ih (i + 1)).congr (by simp [isOk])

theorem waitAll_decides (attributed : List ℕ) (gs : List GadgetInvocation) (i : ℕ)
    (fragments : List (Fragment F)) :
    Decides (fun _ => True) (waitAll env attributed i gs fragments)
      (∀ k < gs.length, isOk (env.wait (i + k)) = true) fun _ => True := by
  induction gs generalizing i fragments with
  | nil => exact (Decides.returns (.pure fun _ hs => hs)).congr (by simp)
  | cons g gs ih =>
    have hemit : Decides (fun _ => True) (emit (.wait i (isOk (env.wait i))) : Driver F Unit)
        True fun _ => True := .returns (.update fun _ _ => trivial)
    refine (hemit.bind (d := ∀ k < gs.length + 1, isOk (env.wait (i + k)) = true)
      fun _ => ?_).congr (by simp)
    refine Decides.congr ?_ (forall_lt_cons (p := fun k => isOk (env.wait k) = true)).symm
    cases env.wait i with
    | error e =>
      refine Decides.congr (.never (.bind (.always _) fun _ => ?_)) (by simp [isOk])
      exact abandon_never attributed e _
    | ok f => exact (ih (i + 1) _).congr (by simp [isOk])

end Loops

end Assayist
