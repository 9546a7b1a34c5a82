import Assayist.Proofs.Outcome

/-! Where a run ends. What its calls answer decides how far the driver gets, and what is
left behind then follows from what each phase keeps and what its early exit leaves. -/

namespace Assayist

open Effect

variable {F : Type} [F64 F]

def comesUp (env : RunEnv F) : Prop :=
  env.target.answers .provision = true ∧ env.target.answers .start = true ∧
    env.target.answers .reachSteady = true

/-- The run gets as far as winding down, and its spans cannot be read. -/
def stopsAtSpans (env : RunEnv F) (session : Option AttributionSession) : Prop :=
  comesUp env ∧ windsDown env session ∧ env.target.answers .spans = false

/-- What the phases of a run leave, and what their early exits do: `Up` before the VMs are
attributed, then `Live`, `Spawned` and `Waited` with the handles registered; `Bare` where the
target does not come up, `Leaked` where the spans cannot be read, `Ended` at every other exit. -/
structure Phases (env : RunEnv F) (session : Option AttributionSession) (Up : RunState F → Prop)
    (Live Spawned Waited : List ℕ → RunState F → Prop) (Bare Ended Leaked : RunState F → Prop) :
    Prop where
  call : ∀ {m}, m ≠ .spans → m ≠ .teardown →
    Triple Up (callTarget env m) (fun _ => Up) fun _ => Bare
  registers : Triple (fun s => s.session = session ∧ Up s) (attributeVms env) Live
    fun _ s => ¬ attributes env session → Ended s
  spawn : comesUp env → attributes env session → ∀ attributed,
    Triple (Live attributed) (spawnAll env attributed 0 env.gadgets) (fun _ => Spawned attributed)
      fun _ => Ended
  workload : ∀ attributed, Keeps (Spawned attributed) (callWorkload .start env.workload.start)
  abandon : comesUp env → attributes env session →
    (∀ k < env.gadgets.length, isOk (env.spawn k) = true) → isOk env.workload.start = false →
    ∀ attributed e Q,
      Triple (Spawned attributed) (abandon env attributed e : Driver F (RunArtifacts F)) Q
        fun _ => Ended
  wait : comesUp env → attributes env session →
    (∀ k < env.gadgets.length, isOk (env.spawn k) = true) → isOk env.workload.start = true →
    ∀ attributed, Triple (Spawned attributed) (waitAll env attributed 0 env.gadgets [])
      (fun _ => Waited attributed) fun _ => Ended
  windDown : windsDown env session → ∀ attributed fragments,
    Triple (Waited attributed) (windDown env attributed fragments)
      (fun _ s => if env.target.answers .spans = true then Ended s else Leaked s)
      fun _ s => if env.target.answers .spans = true then Ended s else Leaked s

def endsIn (env : RunEnv F) (session : Option AttributionSession)
    (Bare Ended Leaked : RunState F → Prop) (s : RunState F) : Prop :=
  (¬ comesUp env ∧ Bare s) ∨ (comesUp env ∧ ¬ stopsAtSpans env session ∧ Ended s) ∨
    (stopsAtSpans env session ∧ Leaked s)

variable {env : RunEnv F} {session : Option AttributionSession} {Up : RunState F → Prop}
  {Live Spawned Waited : List ℕ → RunState F → Prop} {Bare Ended Leaked : RunState F → Prop}

/-- However the calls of a run answer, they decide how it ends. -/
theorem Phases.executeRun (h : Phases env session Up Live Spawned Waited Bare Ended Leaked) :
    Triple (fun s => s.session = session ∧ Up s) (executeRun env)
      (fun _ => endsIn env session Bare Ended Leaked)
      fun _ => endsIn env session Bare Ended Leaked := by
  have hlogs : Logs (fun _ => True) (fun s : RunState F => s.session = session) :=
    ⟨fun _ _ _ h => h, fun _ _ h => h⟩
  have hcall {m : Method} (hspans : m ≠ .spans) (hm : m ≠ .teardown)
      (hneeds : comesUp env → env.target.answers m = true) :
      Triple (fun s => s.session = session ∧ Up s) (callTarget env m)
        (fun _ s => env.target.answers m = true ∧ s.session = session ∧ Up s)
        fun _ => endsIn env session Bare Ended Leaked :=
    ((callTarget_decides hlogs env hm).along (h.call hspans hm)).weaken (fun _ h => h)
      (fun _ _ h => h) fun _ _ h => .inl ⟨fun hup => h.1 (hneeds hup), h.2⟩
  refine .bind (hcall (by decide) (by decide) fun h => h.1) fun _ => .assume fun hprovision => ?_
  refine .bind (hcall (by decide) (by decide) fun h => h.2.1) fun _ => .assume fun hstart => ?_
  refine .bind (hcall (by decide) (by decide) fun h => h.2.2) fun _ => .assume fun hsteady => ?_
  have hup : comesUp env := ⟨hprovision, hstart, hsteady⟩
  -- from here on an early end does not reach the spans
  have hearly {c : Prop} (hc : windsDown env session → c) (s : RunState F)
      (hs : ¬ c ∧ Ended s) : endsIn env session Bare Ended Leaked s :=
    .inr (.inl ⟨hup, fun hstop => hs.1 (hc hstop.2.1), hs.2⟩)
  have hattribute : Triple (fun s => s.session = session ∧ Up s) (attributeVms env)
      (fun attributed s => attributes env session ∧ Live attributed s)
      fun _ => endsIn env session Bare Ended Leaked :=
    ((attributeVms_decides session).along h.registers).weaken (fun _ h => ⟨h.1, h⟩)
      (fun _ _ h => ⟨h.1, h.2.2⟩) fun _ s h => hearly (fun hw => hw.1) s ⟨h.1, h.2 h.1⟩
  refine hattribute.bind fun attributed => .assume fun hattributes => ?_
  have hspawn : Triple (Live attributed) (spawnAll env attributed 0 env.gadgets)
      (fun _ s => (∀ k < env.gadgets.length, isOk (env.spawn k) = true) ∧ Spawned attributed s)
      fun _ => endsIn env session Bare Ended Leaked := by
    have hdecides : Decides (fun _ => True) (spawnAll env attributed 0 env.gadgets)
        (∀ k < env.gadgets.length, isOk (env.spawn k) = true) fun _ => True := by
      simpa only [Nat.zero_add] using spawnAll_decides attributed env.gadgets 0
    exact (hdecides.along (h.spawn hup hattributes attributed)).weaken (fun _ h => ⟨trivial, h⟩)
      (fun _ _ h => ⟨h.1, h.2.2⟩) fun _ s h => hearly (fun hw => hw.2.1) s h
  refine hspawn.bind fun _ => .assume fun hspawns => ?_
  have hworkload : Triple (Spawned attributed) (attempt (callWorkload .start env.workload.start))
      (fun r s => r = env.workload.start ∧ Spawned attributed s)
      fun _ => endsIn env session Bare Ended Leaked := by
    have hanswer : Triple (Spawned attributed)
        (callWorkload .start env.workload.start : Driver F Unit)
        (fun u _ => env.workload.start = .ok u) fun e _ => env.workload.start = .error e :=
      .bind (Q := fun _ _ => True) (.update fun _ _ => trivial) fun _ =>
        .give (fun _ hr _ _ => hr) fun _ hr _ _ => hr
    exact .attempt ((hanswer.and (h.workload attributed)).weaken (fun _ h => h)
      (fun _ _ h => ⟨h.1.symm, h.2⟩) fun _ _ h => ⟨h.1.symm, h.2⟩)
  refine hworkload.bind fun r => .assume fun hr => ?_
  cases r with
  | error e =>
    have hbad : isOk env.workload.start = false := by
      rw [← hr]
      rfl
    refine (h.abandon hup hattributes hspawns hbad attributed e
      fun _ => endsIn env session Bare Ended Leaked).weaken (fun _ h => h) (fun _ _ h => h)
      fun _ s h => ?_
    exact hearly (fun hw => hw.2.2.1) s ⟨by rw [hbad]; exact Bool.false_ne_true, h⟩
  | ok u =>
    have hgood : isOk env.workload.start = true := by
      rw [← hr]
      rfl
    have hwait : Triple (Spawned attributed) (waitAll env attributed 0 env.gadgets [])
        (fun _ s => (∀ k < env.gadgets.length, isOk (env.wait k) = true) ∧ Waited attributed s)
        fun _ => endsIn env session Bare Ended Leaked := by
      have hdecides : Decides (fun _ => True) (waitAll env attributed 0 env.gadgets [])
          (∀ k < env.gadgets.length, isOk (env.wait k) = true) fun _ => True := by
        simpa only [Nat.zero_add] using waitAll_decides attributed env.gadgets 0 []
      have halong := hdecides.along (h.wait hup hattributes hspawns hgood attributed)
      exact halong.weaken (fun _ h => ⟨trivial, h⟩)
        (fun _ _ h => ⟨h.1, h.2.2⟩) fun _ s h => hearly (fun hw => hw.2.2.2) s h
    refine hwait.bind fun fragments => .assume fun hwaits => ?_
    have hwinds : windsDown env session := ⟨hattributes, hspawns, hgood, hwaits⟩
    have hend (s : RunState F)
        (hs : if env.target.answers .spans = true then Ended s else Leaked s) :
        endsIn env session Bare Ended Leaked s := by
      by_cases hspans : env.target.answers .spans = true
      · rw [if_pos hspans] at hs
        refine .inr (.inl ⟨hup, fun hstop => ?_, hs⟩)
        rw [hstop.2.2] at hspans
        cases hspans
      · rw [if_neg hspans] at hs
        exact .inr (.inr ⟨⟨hup, hwinds, by simpa using hspans⟩, hs⟩)
    exact (h.windDown hwinds attributed fragments).weaken (fun _ h => h) (fun _ s hs => hend s hs)
      fun _ s hs => hend s hs

theorem Phases.runOf (h : Phases env session Up Live Spawned Waited Bare Ended Leaked)
    (hstart : Up (.initial session)) :
    endsIn env session Bare Ended Leaked (runOf env session).2 :=
  h.executeRun.exec ⟨rfl, hstart⟩

end Assayist
