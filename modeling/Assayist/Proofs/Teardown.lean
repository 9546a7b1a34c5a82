import Assayist.Proofs.Phases

/-! How often a run tears its target down. Every exit of the driver either calls
`teardown` once, or leaves through a `?` on a target method and does not. -/

namespace Assayist

open Effect

section Tally

def isTeardown : Event → Bool
  | .target .teardown _ => true
  | _ => false

def isBareFailure : Event → Bool
  | .target m false => decide (m ≠ .teardown)
  | _ => false

def isInnerTeardown (i : ℕ) : Event → Bool
  | .inner j .teardown _ => decide (j = i)
  | _ => false

/-- The inner targets of a fanout, none for a plain target. -/
def Target.width {F : Type} : Target F → ℕ
  | .single _ => 0
  | .fanout inners => inners.length

/-- The teardowns and bare failures of a log, over a target with `width` inners, each of
which every teardown reaches once. -/
structure Tally (width teardowns bare : ℕ) (log : List Event) : Prop where
  teardowns_eq : log.countP isTeardown = teardowns
  bare_eq : log.countP isBareFailure = bare
  inner_eq : ∀ i, log.countP (isInnerTeardown i) = if i < width then teardowns else 0

structure Neutral (e : Event) : Prop where
  teardown : isTeardown e = false
  bare : isBareFailure e = false
  inner : ∀ i, isInnerTeardown i e = false

theorem Tally.neutral {w t b : ℕ} {log : List Event} {e : Event} (h : Tally w t b log)
    (he : Neutral e) : Tally w t b (log ++ [e]) where
  teardowns_eq := by simp [List.countP_append, h.teardowns_eq, he.teardown]
  bare_eq := by simp [List.countP_append, h.bare_eq, he.bare]
  inner_eq i := by simp [List.countP_append, h.inner_eq i, he.inner i]

/-- The teardown of every inner target, from the `i`-th on. -/
def innerTeardowns {F : Type} : ℕ → List (TargetAnswers F) → List Event
  | _, [] => []
  | i, t :: ts => .inner i .teardown (isOk t.teardown) :: innerTeardowns (i + 1) ts

theorem innerTeardowns_inner {F : Type} (ts : List (TargetAnswers F)) (i j : ℕ) :
    (innerTeardowns i ts).countP (isInnerTeardown j) =
      if i ≤ j ∧ j < i + ts.length then 1 else 0 := by
  induction ts generalizing i with
  | nil =>
    rw [if_neg (by rw [List.length_nil]; omega)]
    rfl
  | cons t ts ih =>
    rw [innerTeardowns, List.countP_cons, ih, List.length_cons]
    by_cases hij : i = j
    · subst hij
      rw [if_neg (by omega), if_pos (by simp [isInnerTeardown]), if_pos (by omega)]
    · have hne : isInnerTeardown j (.inner i .teardown (isOk t.teardown)) = false := by
        simp [isInnerTeardown, hij]
      simp only [hne, Bool.false_eq_true, if_false, Nat.add_zero]
      exact if_congr (by omega) rfl rfl

theorem innerTeardowns_outer {F : Type} (ts : List (TargetAnswers F)) (i : ℕ) :
    (innerTeardowns i ts).countP isTeardown = 0 ∧
      (innerTeardowns i ts).countP isBareFailure = 0 := by
  induction ts generalizing i with
  | nil => exact ⟨rfl, rfl⟩
  | cons t ts ih => simp [innerTeardowns, isTeardown, isBareFailure, ih (i + 1)]

end Tally

section Drive

variable {F : Type} (env : RunEnv F)

def tallied (t b : ℕ) (s : RunState F) : Prop := Tally env.target.width t b s.log

/-- A run has ended with one teardown if `c` holds, and with one bare failure if not. -/
def endedIf (c : Prop) (s : RunState F) : Prop := (c ∧ tallied env 1 0 s) ∨ (¬ c ∧ tallied env 0 1 s)

variable {env}

theorem frame_tallied (t b : ℕ) : Frame Neutral (tallied env t b) where
  log _ _ he hs := hs.neutral he
  client _ _ _ _ hs := hs
  span _ _ hs := hs

theorem neutral_inner {i : ℕ} {m : Method} {ok : Bool} (hm : m ≠ .teardown) :
    Neutral (.inner i m ok) := by
  refine ⟨rfl, rfl, fun j => ?_⟩
  cases m <;> first | rfl | exact absurd rfl hm

theorem neutral_workload {m : WorkloadMethod} {ok : Bool} : Neutral (.workload m ok) :=
  ⟨rfl, rfl, fun _ => rfl⟩

theorem neutral_command {line : String} {ok : Bool} : Neutral (.command line ok) :=
  ⟨rfl, rfl, fun _ => rfl⟩

theorem callWorkload_tallied {α : Type} (t b : ℕ) (m : WorkloadMethod) (r : Except String α) :
    Keeps (tallied env t b) (callWorkload m r) :=
  (frame_tallied t b).callWorkload (fun _ => neutral_workload) r

theorem callTarget_bare {m : Method} (hm : m ≠ .teardown) :
    Triple (tallied env 0 0) (callTarget env m) (fun _ => tallied env 0 0)
      fun _ => tallied env 0 1 := by
  refine ((frame_tallied 0 0).methodBody env hm fun _ _ _ h => neutral_inner h).attempt_then
    fun r => ?_
  cases r with
  | ok u =>
    have he : Neutral (.target m true) := by
      refine ⟨?_, rfl, fun _ => rfl⟩
      cases m <;> first | rfl | exact absurd rfl hm
    refine .bind (Q := fun _ => tallied env 0 0) (.update fun _ h => h.neutral he) fun _ => ?_
    exact .give (fun _ _ _ h => h) fun _ herr => by cases herr
  | error e =>
    refine .bind (Q := fun _ => tallied env 0 1) (.update fun s hs => ?_) fun _ =>
      .give (fun _ hok => by cases hok) fun _ _ _ h => h
    have hcount : isTeardown (.target m false) = false := by
      cases m <;> first | rfl | exact absurd rfl hm
    refine ⟨?_, ?_, fun i => ?_⟩
    · simp [isOk, List.countP_append, hs.teardowns_eq, hcount]
    · simp [isOk, List.countP_append, hs.bare_eq, isBareFailure, hm]
    · simp [isOk, List.countP_append, hs.inner_eq i, isInnerTeardown]

theorem teardownInners_log (ts : List (TargetAnswers F)) (i : ℕ) (last : Except String Unit)
    (log : List Event) :
    Triple (fun s => s.log = log) (teardownInners i ts last : Driver F (Except String Unit))
      (fun _ s => s.log = log ++ innerTeardowns i ts) fun _ _ => False := by
  induction ts generalizing i last log with
  | nil => exact .pure fun s hs => by simpa [innerTeardowns] using hs
  | cons t ts ih =>
    refine .bind (Q := fun _ s => s.log = log ++ [.inner i .teardown (isOk t.teardown)])
      (.update fun s hs => by rw [hs]) fun _ => ?_
    refine (ih (i + 1) _ _).weaken (fun _ h => h) (fun _ s hs => ?_) fun _ _ h => h
    rw [hs, innerTeardowns]
    simp

/-- The body of `teardown` reaches every inner target, whatever they answer. -/
theorem methodBody_teardown (env : RunEnv F) (log : List Event) :
    Triple (fun s => s.log = log) (methodBody env .teardown)
      (fun _ s => s.log = log ++ match env.target with
        | .single _ => []
        | .fanout inners => innerTeardowns 0 inners)
      fun _ s => s.log = log ++ match env.target with
        | .single _ => []
        | .fanout inners => innerTeardowns 0 inners := by
  unfold methodBody
  cases env.target with
  | single t => exact .give (fun _ _ _ h => by simpa using h) fun _ _ _ h => by simpa using h
  | fanout inners =>
    refine .bind (Q := fun _ s => s.log = log ++ innerTeardowns 0 inners)
      ((teardownInners_log inners 0 _ log).weaken (fun _ h => h) (fun _ _ h => h)
        fun _ _ h => h.elim) fun r => ?_
    exact .give (fun _ _ _ h => h) fun _ _ _ h => h

theorem callTarget_teardown :
    Triple (tallied env 0 0) (callTarget env .teardown) (fun _ => tallied env 1 0)
      fun _ => tallied env 1 0 := by
  intro s hs
  have hbody := methodBody_teardown env s.log
  refine Triple.bind (P := fun s' => s' = s)
    (Q := fun _ s' => s'.log = s.log ++ match env.target with
      | .single _ => []
      | .fanout inners => innerTeardowns 0 inners)
    (.attempt (hbody.weaken (fun _ h => by rw [h]) (fun _ _ h => h) fun _ _ h => h))
    (fun r => ?_) s rfl
  refine .bind (Q := fun _ => tallied env 1 0) (.update fun s' hs' => ?_) fun _ =>
    .give (fun _ _ _ h => h) fun _ _ _ h => h
  unfold tallied Target.width at hs ⊢
  simp only [hs']
  cases htarget : env.target with
  | single t =>
    rw [htarget] at hs
    refine ⟨?_, ?_, fun i => ?_⟩
    · simp [List.countP_append, hs.teardowns_eq, isTeardown]
    · cases isOk r <;> simp [List.countP_append, hs.bare_eq, isBareFailure]
    · simpa [List.countP_append, isInnerTeardown] using hs.inner_eq i
  | fanout inners =>
    rw [htarget] at hs
    obtain ⟨hout, hbare⟩ := innerTeardowns_outer inners 0
    refine ⟨?_, ?_, fun i => ?_⟩
    · simp [List.countP_append, hs.teardowns_eq, hout, isTeardown]
    · cases isOk r <;> simp [List.countP_append, hs.bare_eq, hbare, isBareFailure]
    · simp [List.countP_append, hs.inner_eq i, innerTeardowns_inner, isInnerTeardown]

theorem attempt_teardown :
    Triple (tallied env 0 0) (attempt (callTarget env .teardown)) (fun _ => tallied env 1 0)
      fun _ _ => False := .attempt callTarget_teardown

theorem deregisterAll_live (hs : List ℕ) :
    Triple (tallied env 0 0) (deregisterAll env hs) (fun _ => tallied env 0 0)
      fun _ _ => False :=
  (frame_tallied 0 0).deregisterAll (fun _ _ => neutral_command) env hs

/-- The cleanup of an abort path tears down once. -/
theorem abandon_ended {α : Type} (attributed : List ℕ) (e : String) (Q : α → RunState F → Prop) :
    Triple (tallied env 0 0) (abandon env attributed e : Driver F α) Q fun _ => tallied env 1 0 :=
  .bind ((deregisterAll_live attributed).weaken (fun _ h => h) (fun _ _ h => h)
      fun _ _ h => h.elim) fun _ =>
    .bind (attempt_teardown.weaken (fun _ h => h) (fun _ _ h => h) fun _ _ h => h.elim) fun _ =>
      .give (fun _ hok => by cases hok) fun _ _ _ h => h

theorem onLog_tallied (t b : ℕ) : OnLog Neutral (tallied env t b) where
  same s s' hlog hs := by
    rw [tallied, hlog]
    exact hs
  log _ _ he hs := hs.neutral he

theorem attributeVms_ended :
    Triple (tallied env 0 0) (attributeVms env) (fun _ => tallied env 0 0)
      fun _ => tallied env 1 0 :=
  (onLog_tallied 0 0).attributeVms (fun _ _ => neutral_command) abandon_ended

theorem spawnAll_ended (attributed : List ℕ) (gs : List GadgetInvocation) (i : ℕ) :
    Triple (tallied env 0 0) (spawnAll env attributed i gs) (fun _ => tallied env 0 0)
      fun _ => tallied env 1 0 :=
  (frame_tallied 0 0).spawnAll (fun _ _ => ⟨rfl, rfl, fun _ => rfl⟩) attributed
    (abandon_ended attributed) gs i

theorem waitAll_ended (attributed : List ℕ) (gs : List GadgetInvocation) (i : ℕ)
    (fragments : List (Fragment F)) :
    Triple (tallied env 0 0) (waitAll env attributed i gs fragments)
      (fun _ => tallied env 0 0) fun _ => tallied env 1 0 :=
  (frame_tallied 0 0).waitAll (fun _ _ => ⟨rfl, rfl, fun _ => rfl⟩)
    (fun _ => neutral_workload) attributed (abandon_ended attributed) gs i fragments

theorem callSpans_ended :
    Triple (tallied env 0 0) (callSpans env)
      (fun _ s => env.target.answers .spans = true ∧ tallied env 0 0 s)
      fun _ s => ¬ env.target.answers .spans = true ∧ tallied env 0 1 s := by
  have hlogs : Logs (fun _ => True) (fun _ : RunState F => True) :=
    ⟨fun _ _ _ _ => trivial, fun _ _ _ => trivial⟩
  refine callSpans_triple ?_
  exact ((callTarget_decides hlogs env (by decide)).along (callTarget_bare (by decide))).weaken
    (fun _ h => ⟨trivial, h⟩) (fun _ _ h => ⟨h.1, h.2.2⟩) fun _ _ h => h

variable [F64 F]

theorem windDown_ended (attributed : List ℕ) (fragments : List (Fragment F)) :
    Triple (tallied env 0 0) (windDown env attributed fragments)
      (fun _ => endedIf env (env.target.answers .spans = true))
      fun _ => endedIf env (env.target.answers .spans = true) := by
  refine (callWorkload_tallied 0 0 .stop _).attempt_then fun _ => ?_
  refine (callWorkload_tallied 0 0 .report _).attempt_then fun _ => ?_
  refine .bind (Q := fun _ s => env.target.answers .spans = true ∧ tallied env 0 0 s)
    (callSpans_ended.weaken (fun _ h => h) (fun _ _ h => h) fun _ _ h => .inr h) fun _ => ?_
  refine .assume fun hspans => ?_
  refine .bind ((deregisterAll_live attributed).weaken (fun _ h => h) (fun _ _ h => h)
    fun _ _ h => h.elim) fun _ => ?_
  refine .bind (attempt_teardown.weaken (fun _ h => h) (fun _ _ h => h)
    fun _ _ h => h.elim) fun _ => ?_
  refine .bind (Q := fun _ => tallied env 1 0) (fun _ h => h) fun s => ?_
  refine .bind (Q := fun _ => tallied env 1 0)
    (.give (fun _ _ _ h => h) fun _ _ _ h => .inl ⟨hspans, h⟩) fun _ => ?_
  exact .pure fun _ h => .inl ⟨hspans, h⟩

/-- What a run's target and calls must answer for the target to be torn down: provisioning,
starting and settling succeed, and so do the spans where the run gets to them. -/
def tearsDown (env : RunEnv F) (session : Option AttributionSession) : Prop :=
  env.target.answers .provision = true ∧ env.target.answers .start = true ∧
    env.target.answers .reachSteady = true ∧
    (windsDown env session → env.target.answers .spans = true)

/-- What each phase of a run leaves of its target. -/
theorem phases_tallied (session : Option AttributionSession) :
    Phases env session (tallied env 0 0) (fun _ => tallied env 0 0) (fun _ => tallied env 0 0)
      (fun _ => tallied env 0 0) (tallied env 0 1) (tallied env 1 0) (tallied env 0 1) where
  call _ hm := callTarget_bare hm
  registers := attributeVms_ended.weaken (fun _ h => h.2) (fun _ _ h => h) fun _ _ h _ => h
  spawn _ _ attributed := spawnAll_ended attributed env.gadgets 0
  workload _ := callWorkload_tallied 0 0 .start _
  abandon _ _ _ _ attributed e Q := abandon_ended attributed e Q
  wait _ _ _ _ attributed := waitAll_ended attributed env.gadgets 0 []
  windDown _ attributed fragments := by
    have hend (s : RunState F) (hs : endedIf env (env.target.answers .spans = true) s) :
        if env.target.answers .spans = true then tallied env 1 0 s else tallied env 0 1 s := by
      rcases hs with ⟨hspans, h⟩ | ⟨hspans, h⟩
      · rwa [if_pos hspans]
      · rwa [if_neg hspans]
    exact (windDown_ended attributed fragments).weaken (fun _ h => h) (fun _ s hs => hend s hs)
      fun _ s hs => hend s hs

omit [F64 F] in
theorem tearsDown_iff (session : Option AttributionSession) :
    tearsDown env session ↔ comesUp env ∧ ¬ stopsAtSpans env session := by
  apply Iff.intro
  · intro h
    refine ⟨⟨h.1, h.2.1, h.2.2.1⟩, fun hstop => ?_⟩
    have hspans := h.2.2.2 hstop.2.1
    rw [hstop.2.2] at hspans
    cases hspans
  · intro h
    obtain ⟨hup, hstop⟩ := h
    refine ⟨hup.1, hup.2.1, hup.2.2, fun hwinds => ?_⟩
    by_contra hspans
    exact hstop ⟨hup, hwinds, by simpa using hspans⟩

end Drive

section Result

variable {F : Type} [F64 F]

/-- `teardown` was called exactly once, and so on every inner target of a fanout. -/
def TornDown (env : RunEnv F) (log : List Event) : Prop :=
  log.countP isTeardown = 1 ∧ ∀ i < env.target.width, log.countP (isInnerTeardown i) = 1

/-- A run tears its target down exactly once unless `provision`, `start` or `reach_steady`
fails, or `spans` does in a run that gets as far. -/
theorem tornDown_iff (env : RunEnv F) (session : Option AttributionSession) :
    TornDown env (runOf env session).2.log ↔ tearsDown env session := by
  have hstart : tallied env 0 0 (RunState.initial session) :=
    ⟨rfl, rfl, fun i => by simp [RunState.initial]⟩
  have hleft {s : RunState F} (h : tallied env 0 1 s) : ¬ TornDown env s.log := fun htorn =>
    absurd (h.teardowns_eq.symm.trans htorn.1) (by decide)
  rw [tearsDown_iff]
  rcases (phases_tallied session).runOf hstart with ⟨hup, h⟩ | ⟨hup, hstop, h⟩ | ⟨hstop, h⟩
  · exact iff_of_false (hleft h) fun hc => hup hc.1
  · refine iff_of_true ⟨h.teardowns_eq, fun i hi => ?_⟩ ⟨hup, hstop⟩
    rw [h.inner_eq i, if_pos hi]
  · exact iff_of_false (hleft h) fun hc => hc.2 hstop

end Result

section Runs

def startFails : RunEnv ℚ where
  target := .single
    { version := "1", provision := .ok (), start := .error "boot timed out"
      reachSteady := .ok (), spans := .ok [], teardown := .ok (), pinningLayout := none
      residentFiles := [], netAttribution := [] }
  workload := ⟨"1", .ok (), .ok (), .ok .null⟩
  gadgets := []
  meminfoBefore := .ok ""
  meminfoAfter := .ok ""
  spawn _ := .ok ()
  wait _ := .error ""
  sampleResidency _ := none
  provisionNs := 0
  steadyNs := 0
  newRunId _ := ""
  exchange _ := .reply "ok"

/-- A VM that is provisioned and fails to start is left behind. -/
theorem start_failure_leaks : ¬ TornDown startFails (runOf startFails none).2.log := by
  intro h
  exact absurd h.1 (by decide)

end Runs

end Assayist
