import Assayist.Proofs.Phases
import Assayist.Spec.Capture

/-! What becomes of the gadgets that were spawned, in a capture of its own and in a run.
Either waits on them in order, so what is left running after a failure is told by how many
were spawned and how many were waited on or killed. -/

namespace Assayist

open Effect

section Log

/-- The gadget's handle is given up: waited on, whatever comes of it, or killed. -/
def consumes (i : ℕ) : GadgetEvent → Bool
  | .spawn _ _ => false
  | .wait j _ => decide (j = i)
  | .kill j => decide (j = i)

def Tended (log : List GadgetEvent) : Prop :=
  ∀ i, .spawn i true ∈ log → log.countP (consumes i) = 1

/-- The first `j` gadgets were spawned, and the first `m` consumed, once each. -/
structure Watched (j m : ℕ) (log : List GadgetEvent) : Prop where
  spawned : ∀ i, .spawn i true ∈ log ↔ i < j
  consumed : ∀ i, log.countP (consumes i) = if i < m then 1 else 0

variable {j m : ℕ} {log : List GadgetEvent}

theorem Watched.nil : Watched 0 0 [] where
  spawned i := by simp
  consumed i := by simp

theorem Watched.tended_iff_le (h : Watched j m log) : Tended log ↔ j ≤ m := by
  apply Iff.intro
  · intro htended
    by_contra hlt
    have hone := htended m ((h.spawned m).2 (by omega))
    rw [h.consumed, if_neg (Nat.lt_irrefl m)] at hone
    cases hone
  · intro hle i hi
    have hlt := (h.spawned i).1 hi
    rw [h.consumed, if_pos (by omega)]

theorem Watched.spawn (h : Watched j m log) : Watched (j + 1) m (log ++ [.spawn j true]) where
  spawned i := by
    rw [List.mem_append, h.spawned, List.mem_singleton, GadgetEvent.spawn.injEq]
    simp only [and_true]
    omega
  consumed i := by simp [List.countP_append, consumes, h.consumed i]

theorem Watched.spawn_failed (h : Watched j m log) (i : ℕ) :
    Watched j m (log ++ [.spawn i false]) where
  spawned k := by simp [h.spawned k]
  consumed k := by simp [List.countP_append, consumes, h.consumed k]

theorem Watched.consume (h : Watched j m log) {e : GadgetEvent}
    (hspawn : ∀ i, e ≠ .spawn i true) (he : ∀ i, consumes i e = decide (m = i)) :
    Watched j (m + 1) (log ++ [e]) where
  spawned i := by
    have hne := hspawn i
    rw [List.mem_append, List.mem_singleton, h.spawned]
    exact or_iff_left fun heq => hne heq.symm
  consumed i := by
    rw [List.countP_append, List.countP_singleton, he, h.consumed]
    by_cases hi : m = i
    · subst hi
      simp
    · simp only [hi, decide_false, Bool.false_eq_true, if_false, Nat.add_zero]
      exact if_congr (by omega) rfl rfl

theorem Watched.wait (h : Watched j m log) (ok : Bool) :
    Watched j (m + 1) (log ++ [.wait m ok]) :=
  h.consume (fun _ heq => nomatch heq) fun _ => rfl

theorem Watched.kill (h : Watched j m log) : Watched j (m + 1) (log ++ [.kill m]) :=
  h.consume (fun _ heq => nomatch heq) fun _ => rfl

/-- Every answer but the last of `n`, from the `i`-th on, is good. -/
def allButLast (ok : ℕ → Bool) (i n : ℕ) : Prop := ∀ k, k + 1 < n → ok (i + k) = true

variable (ok : ℕ → Bool) {i n : ℕ}

/-- Stopping at a first bad answer is stopping at the last. -/
theorem allButLast_bad (h : ok i = false) : allButLast ok i (n + 1) ↔ i + (n + 1) ≤ i + 1 := by
  apply Iff.intro
  · intro hall
    by_contra hlt
    have hi := hall 0 (by omega)
    rw [Nat.add_zero, h] at hi
    cases hi
  · intro hle k hk
    omega

theorem allButLast_good (h : ok i = true) :
    allButLast ok i (n + 1) ↔ allButLast ok (i + 1) n := by
  apply Iff.intro
  · intro hall k hk
    rw [Nat.add_right_comm]
    exact hall (k + 1) (by omega)
  · intro hall k hk
    cases k with
    | zero => exact h
    | succ k =>
      rw [← Nat.add_assoc, Nat.add_right_comm]
      exact hall k (by omega)

end Log

section Capture

variable {F : Type} {runner : Runner F} {j m : ℕ}

theorem record_watched {e : GadgetEvent} {j' m' : ℕ}
    (h : ∀ log, Watched j m log → Watched j' m' (log ++ [e])) :
    Triple (Watched j m) (record e) (fun _ => Watched j' m') fun _ _ => False := .update h

theorem killAll_watched (k : ℕ) :
    Triple (Watched j m) (killAll (List.range' m k)) (fun _ => Watched j (m + k))
      fun _ _ => False := by
  induction k generalizing m with
  | zero => exact .pure fun _ h => h
  | succ k ih =>
    rw [List.range'_succ]
    refine .bind (record_watched fun _ h => h.kill) fun _ => ?_
    have hrest := ih (m := m + 1)
    rwa [Nat.add_right_comm m 1 k] at hrest

/-- Spawning a plan: all of it, or none of it is left. -/
theorem spawnPlan_watched (plan : List GadgetInvocation) (i : ℕ) :
    Triple (Watched i 0) (spawnPlan runner i plan (List.range' 0 i))
      (fun hs log => (hs = List.range' 0 (i + plan.length) ∧
        ∀ k < plan.length, isOk (runner.spawn (i + k)) = true) ∧ Watched (i + plan.length) 0 log)
      fun _ log => (∃ k < plan.length, isOk (runner.spawn (i + k)) = false) ∧
        ∃ j, Watched j j log := by
  induction plan generalizing i with
  | nil => exact .pure fun _ h => ⟨⟨rfl, fun k hk => absurd hk (Nat.not_lt_zero k)⟩, h⟩
  | cons g plan ih =>
    cases hspawn : runner.spawn i with
    | ok u =>
      rw [spawnPlan, hspawn]
      refine .bind (Q := fun _ => Watched (i + 1) 0)
        ((record_watched fun _ h => h.spawn).weaken (fun _ h => h) (fun _ _ h => h)
          fun _ _ h => h.elim) fun _ => ?_
      have hrange : List.range' 0 i ++ [i] = List.range' 0 (i + 1) := by
        rw [List.range'_concat, Nat.one_mul, Nat.zero_add]
      simp only [hrange]
      have hcons (k : ℕ) : i + 1 + k = i + (k + 1) := by omega
      refine (ih (i + 1)).weaken (fun _ h => h) (fun hs log h => ?_) fun _ log h => ?_
      · obtain ⟨⟨hhs, hall⟩, h⟩ := h
        rw [List.length_cons, ← hcons]
        refine ⟨⟨hhs, fun k hk => ?_⟩, h⟩
        cases k with
        | zero =>
          rw [Nat.add_zero, hspawn]
          rfl
        | succ k =>
          rw [← hcons]
          exact hall k (by omega)
      · obtain ⟨⟨k, hk, hbad⟩, h⟩ := h
        rw [hcons] at hbad
        exact ⟨⟨k + 1, by simpa using hk, hbad⟩, h⟩
    | error e =>
      rw [spawnPlan, hspawn]
      refine .bind (Q := fun _ => Watched i 0)
        ((record_watched fun _ h => h.spawn_failed i).weaken (fun _ h => h) (fun _ _ h => h)
          fun _ _ h => h.elim) fun _ => ?_
      refine .bind (Q := fun _ => Watched i (0 + i))
        ((killAll_watched i).weaken (fun _ h => h) (fun _ _ h => h) fun _ _ h => h.elim)
        fun _ => .give (fun _ hok => by cases hok) fun _ _ log h => ?_
      rw [Nat.zero_add] at h
      exact ⟨⟨0, Nat.succ_pos _, by rw [Nat.add_zero, hspawn]; rfl⟩, i, h⟩

/-- Waiting on a plan stops at the first gadget that fails. -/
theorem waitPlan_watched (plan : List GadgetInvocation) (i : ℕ) (fragments : List (Fragment F)) :
    Triple (Watched j i) (waitPlan runner (plan.zip (List.range' i plan.length)) fragments)
      (fun _ log => Watched j (i + plan.length) log ∧
        allButLast (fun k => isOk (runner.wait k)) i plan.length)
      fun _ log => ∃ m, Watched j m log ∧
        (allButLast (fun k => isOk (runner.wait k)) i plan.length ↔ i + plan.length ≤ m) := by
  induction plan generalizing i fragments with
  | nil => exact .pure fun _ h => ⟨h, fun k hk => absurd hk (Nat.not_lt_zero _)⟩
  | cons g plan ih =>
    rw [List.length_cons, List.range'_succ, List.zip_cons_cons]
    refine .bind (Q := fun _ => Watched j (i + 1))
      ((record_watched fun _ h => h.wait _).weaken (fun _ h => h) (fun _ _ h => h)
        fun _ _ h => h.elim) fun _ => ?_
    refine .bind (Q := fun _ log => isOk (runner.wait i) = true ∧ Watched j (i + 1) log)
      (.give (fun f hf log h => ⟨by rw [hf]; rfl, h⟩) fun e he log h => ?_) fun f =>
        .assume fun hok => ?_
    · exact ⟨i + 1, h, allButLast_bad _ (by rw [he]; rfl)⟩
    · have hlen : i + (plan.length + 1) = i + 1 + plan.length := by omega
      rw [allButLast_good (fun k => isOk (runner.wait k)) hok, hlen]
      exact ih (i + 1) _

/-- A gadget fails to spawn, or none but the last fails when it is waited on. -/
def captureTends (runner : Runner F) (n : ℕ) : Prop :=
  (∃ i < n, isOk (runner.spawn i) = false) ∨ allButLast (fun k => isOk (runner.wait k)) 0 n

theorem capture_watched (plan : List GadgetInvocation) (runner : Runner F) :
    ∃ j m, Watched j m (exec (capture plan runner) []).2 ∧
      (j ≤ m ↔ captureTends runner plan.length) := by
  have hrun : Triple (Watched 0 0) (capture plan runner)
      (fun _ log => ∃ j m, Watched j m log ∧ (j ≤ m ↔ captureTends runner plan.length))
      fun _ log => ∃ j m, Watched j m log ∧ (j ≤ m ↔ captureTends runner plan.length) := by
    refine .bind ((spawnPlan_watched plan 0).weaken (fun _ h => h) (fun _ _ h => h)
      fun _ log h => ?_) fun hs => .assume fun hspawn => ?_
    · obtain ⟨⟨k, hk, hbad⟩, j, h⟩ := h
      rw [Nat.zero_add] at hbad
      exact ⟨j, j, h, iff_of_true le_rfl (.inl ⟨k, hk, hbad⟩)⟩
    · obtain ⟨rfl, hall⟩ := hspawn
      have hiff : captureTends runner plan.length ↔
          allButLast (fun k => isOk (runner.wait k)) 0 plan.length := by
        refine or_iff_right fun hbad => ?_
        obtain ⟨k, hk, hbad⟩ := hbad
        have hok := hall k hk
        rw [Nat.zero_add, hbad] at hok
        cases hok
      rw [Nat.zero_add]
      refine (waitPlan_watched plan 0 []).weaken (fun _ h => h) (fun _ log h => ?_)
        fun _ log h => ?_
      · rw [Nat.zero_add] at h
        exact ⟨_, _, h.1, iff_of_true le_rfl (hiff.2 h.2)⟩
      · obtain ⟨m, h, hm⟩ := h
        rw [Nat.zero_add] at hm
        exact ⟨_, m, h, hm.symm.trans hiff.symm⟩
  exact hrun.exec Watched.nil

end Capture

section Drive

variable {F : Type} {env : RunEnv F} {j m : ℕ}

/-- What the driver does with its gadgets. It never kills one. -/
def gadgetEvent : Event → Option GadgetEvent
  | .spawn i ok => some (.spawn i ok)
  | .wait i ok => some (.wait i ok)
  | _ => none

def gadgetLog (log : List Event) : List GadgetEvent := log.filterMap gadgetEvent

def watched (j m : ℕ) (s : RunState F) : Prop := Watched j m (gadgetLog s.log)

theorem gadgetLog_concat (log : List Event) (e : Event) :
    gadgetLog (log ++ [e]) = gadgetLog log ++ (gadgetEvent e).toList := by
  rw [gadgetLog, List.filterMap_append]
  cases h : gadgetEvent e <;> simp [gadgetLog, h]

theorem frame_watched : Frame (F := F) (fun e => gadgetEvent e = none) (watched j m) where
  log s e he hs := by
    rw [watched, gadgetLog_concat, he, Option.toList_none, List.append_nil]
    exact hs
  client _ _ _ _ hs := hs
  span _ _ hs := hs

theorem emit_watched {e : Event} {g : GadgetEvent} {j' m' : ℕ} {E : String → RunState F → Prop}
    (he : gadgetEvent e = some g)
    (h : ∀ log, Watched j m log → Watched j' m' (log ++ [g])) :
    Triple (watched j m) (emit e : Driver F Unit) (fun _ => watched j' m') E := by
  refine .update fun s hs => ?_
  rw [watched, gadgetLog_concat, he]
  exact h _ hs

theorem abandon_watched {α : Type} (attributed : List ℕ) (e : String)
    (Q : α → RunState F → Prop) :
    Triple (watched j m) (abandon env attributed e : Driver F α) Q fun _ => watched j m :=
  .bind ((frame_watched.deregisterAll (fun _ _ => rfl) env attributed).weaken (fun _ h => h)
      (fun _ _ h => h) fun _ _ h => h.elim) fun _ =>
    (frame_watched.callTarget (fun _ _ _ => rfl) (fun _ _ => rfl) env .teardown).attempt_then
      fun _ => .give (fun _ hok => by cases hok) fun _ _ _ h => h

theorem callTarget_watched (method : Method) : Keeps (watched j m) (callTarget env method) :=
  frame_watched.callTarget (fun _ _ _ => rfl) (fun _ _ => rfl) env method

theorem onLog_watched : OnLog (F := F) (fun e => gadgetEvent e = none) (watched j m) where
  same s s' hlog hs := by
    rw [watched, hlog]
    exact hs
  log := frame_watched.log

theorem attributeVms_watched : Keeps (watched j m) (attributeVms env) :=
  onLog_watched.attributeVms (fun _ _ => rfl) abandon_watched

/-- Spawning stops at the first gadget that fails and leaves the ones before it. -/
theorem spawnAll_watched (env : RunEnv F) (attributed : List ℕ) (gs : List GadgetInvocation) (i : ℕ) :
    Triple (watched i 0) (spawnAll env attributed i gs) (fun _ => watched (i + gs.length) 0)
      fun _ s => ∃ k < gs.length, isOk (env.spawn (i + k)) = false ∧
        (∀ l < k, isOk (env.spawn (i + l)) = true) ∧ watched (i + k) 0 s := by
  induction gs generalizing i with
  | nil => exact .pure fun _ h => h
  | cons g gs ih =>
    cases hspawn : env.spawn i with
    | ok u =>
      rw [spawnAll, hspawn]
      refine .bind (Q := fun _ => watched (i + 1) 0)
        (emit_watched rfl fun _ h => h.spawn) fun _ => ?_
      have hcons (k : ℕ) : i + 1 + k = i + (k + 1) := by omega
      refine (ih (i + 1)).weaken (fun _ h => h) (fun _ s h => ?_) fun _ s h => ?_
      · rwa [List.length_cons, ← hcons]
      · obtain ⟨k, hk, hbad, hgood, h⟩ := h
        rw [hcons] at hbad h
        refine ⟨k + 1, by simpa using hk, hbad, fun l hl => ?_, h⟩
        cases l with
        | zero =>
          rw [Nat.add_zero, hspawn]
          rfl
        | succ l =>
          rw [← hcons]
          exact hgood l (by omega)
    | error e =>
      rw [spawnAll, hspawn]
      refine .bind (Q := fun _ => watched i 0)
        (emit_watched rfl fun _ h => h.spawn_failed i) fun _ => ?_
      refine (abandon_watched attributed e _).weaken (fun _ h => h) (fun _ _ h => h)
        fun _ s h => ?_
      exact ⟨0, Nat.succ_pos _, by rw [Nat.add_zero, hspawn]; rfl,
        fun l hl => absurd hl (Nat.not_lt_zero l), h⟩

theorem waitAll_watched (env : RunEnv F) (attributed : List ℕ) (gs : List GadgetInvocation)
    (i : ℕ) (fragments : List (Fragment F)) :
    Triple (watched j i) (waitAll env attributed i gs fragments)
      (fun _ => watched j (i + gs.length))
      fun _ s => ∃ m, watched j m s ∧
        (allButLast (fun k => isOk (env.wait k)) i gs.length ↔ i + gs.length ≤ m) := by
  induction gs generalizing i fragments with
  | nil => exact .pure fun _ h => h
  | cons g gs ih =>
    rw [List.length_cons]
    cases hwait : env.wait i with
    | ok f =>
      rw [waitAll, hwait]
      refine .bind (Q := fun _ => watched j (i + 1))
        (emit_watched rfl fun _ h => h.wait true) fun _ => ?_
      have hlen : i + (gs.length + 1) = i + 1 + gs.length := by omega
      rw [allButLast_good (fun k => isOk (env.wait k)) (by rw [hwait]; rfl), hlen]
      exact ih (i + 1) _
    | error e =>
      rw [waitAll, hwait]
      refine .bind (Q := fun _ => watched j (i + 1))
        (emit_watched rfl fun _ h => h.wait false) fun _ => ?_
      refine Keeps.attempt_then (P := watched j (i + 1))
        (frame_watched.callWorkload (fun _ => rfl) _) fun _ => ?_
      refine (abandon_watched attributed e _).weaken (fun _ h => h) (fun _ _ h => h)
        fun _ s h => ?_
      exact ⟨i + 1, h, allButLast_bad _ (by rw [hwait]; rfl)⟩

/-- What a run's calls must answer for no gadget to be left running: nothing is spawned, or
everything is and the workload starts and no wait but the last fails. -/
def runTends (env : RunEnv F) (session : Option AttributionSession) : Prop :=
  ¬ (comesUp env ∧ attributes env session) ∨ env.gadgets = [] ∨ isOk (env.spawn 0) = false ∨
    ((∀ k < env.gadgets.length, isOk (env.spawn k) = true) ∧ isOk env.workload.start = true ∧
      allButLast (fun k => isOk (env.wait k)) 0 env.gadgets.length)

def tendedIf (env : RunEnv F) (session : Option AttributionSession) (s : RunState F) : Prop :=
  ∃ j m, watched j m s ∧ (j ≤ m ↔ runTends env session)

variable [F64 F]

theorem windDown_watched (attributed : List ℕ) (fragments : List (Fragment F)) :
    Keeps (watched j m) (windDown env attributed fragments) := by
  refine (frame_watched.callWorkload (fun _ => rfl) _).attempt_then fun _ => ?_
  refine (frame_watched.callWorkload (fun _ => rfl) _).attempt_then fun _ => ?_
  refine .bind (callSpans_triple (callTarget_watched .spans)) fun _ => ?_
  refine Triple.bind ((frame_watched.deregisterAll (fun _ _ => rfl) env attributed).weaken
    (fun _ h => h) (fun _ _ h => h) fun _ _ h => h.elim) fun _ => ?_
  refine (callTarget_watched .teardown).attempt_then fun r => ?_
  exact Keeps.look.bind fun s => (Keeps.give r).bind fun _ => .pure _

/-- What each phase of a run has done with its gadgets. -/
theorem phases_watched (env : RunEnv F) (session : Option AttributionSession) :
    Phases env session (watched 0 0) (fun _ => watched 0 0)
      (fun _ => watched env.gadgets.length 0)
      (fun _ => watched env.gadgets.length env.gadgets.length) (watched 0 0)
      (tendedIf env session) (tendedIf env session) where
  call _ _ := callTarget_watched _
  registers := attributeVms_watched.weaken (fun _ h => h.2) (fun _ _ h => h) fun _ s h hno =>
    ⟨0, 0, h, iff_of_true le_rfl (.inl fun hboth => hno hboth.2)⟩
  spawn hup hattributes attributed := by
    have hspawn := spawnAll_watched env attributed env.gadgets 0
    rw [Nat.zero_add] at hspawn
    refine hspawn.weaken (fun _ h => h) (fun _ _ h => h) fun _ s h => ?_
    obtain ⟨k, hk, hbad, hgood, h⟩ := h
    rw [Nat.zero_add] at hbad h
    refine ⟨k, 0, h, ?_⟩
    apply Iff.intro
    · intro hle
      obtain rfl : k = 0 := by omega
      exact .inr (.inr (.inl hbad))
    · intro htends
      rcases htends with hno | hnil | hfirst | hall
      · exact absurd ⟨hup, hattributes⟩ hno
      · rw [hnil] at hk
        exact absurd hk (Nat.not_lt_zero k)
      · by_contra hpos
        have hok := hgood 0 (by omega)
        rw [Nat.zero_add, hfirst] at hok
        cases hok
      · have hok := hall.1 k hk
        rw [hbad] at hok
        cases hok
  workload _ := frame_watched.callWorkload (fun _ => rfl) _
  abandon hup hattributes hspawns hstart attributed e Q := by
    refine (abandon_watched attributed e Q).weaken (fun _ h => h) (fun _ _ h => h)
      fun _ s h => ⟨_, 0, h, ?_⟩
    apply Iff.intro
    · intro hle
      exact .inr (.inl (List.length_eq_zero_iff.1 (by omega)))
    · intro htends
      rcases htends with hno | hnil | hfirst | hall
      · exact absurd ⟨hup, hattributes⟩ hno
      · rw [hnil]
        exact le_rfl
      · by_contra hpos
        have hok := hspawns 0 (by omega)
        rw [hfirst] at hok
        cases hok
      · rw [hstart] at hall
        cases hall.2.1
  wait hup hattributes hspawns hstart attributed := by
    have hwait : Triple (watched env.gadgets.length 0) (waitAll env attributed 0 env.gadgets [])
        _ _ := waitAll_watched env attributed env.gadgets 0 []
    rw [Nat.zero_add] at hwait
    refine hwait.weaken (fun _ h => h) (fun _ _ h => h) fun _ s h => ?_
    obtain ⟨m, h, hm⟩ := h
    refine ⟨_, m, h, hm.symm.trans ?_⟩
    apply Iff.intro
    · intro hall
      exact .inr (.inr (.inr ⟨hspawns, hstart, hall⟩))
    · intro htends
      rcases htends with hno | hnil | hfirst | hall
      · exact absurd ⟨hup, hattributes⟩ hno
      · intro k hk
        rw [hnil] at hk
        exact absurd hk (Nat.not_lt_zero _)
      · intro k hk
        have hok := hspawns 0 (by omega)
        rw [hfirst] at hok
        cases hok
      · exact hall.2.2
  windDown hwinds attributed fragments := by
    obtain ⟨hattributes, hspawns, hstart, hwaits⟩ := hwinds
    have hend (s : RunState F) (hs : watched env.gadgets.length env.gadgets.length s) :
        if env.target.answers .spans = true then tendedIf env session s
          else tendedIf env session s := by
      rw [ite_self]
      refine ⟨_, _, hs, iff_of_true le_rfl (.inr (.inr (.inr ⟨hspawns, hstart, fun k hk => ?_⟩)))⟩
      rw [Nat.zero_add]
      exact hwaits k (by omega)
    exact (windDown_watched attributed fragments).weaken (fun _ h => h) (fun _ s hs => hend s hs)
      fun _ s hs => hend s hs

end Drive

section Result

variable {F : Type} [F64 F]

/-- A capture consumes every gadget it spawned exactly once unless all of them spawn and one
but the last fails when it is waited on; a run, unless something is spawned and then not all
of them are, the workload does not start, or one but the last fails when it is waited on. -/
theorem tended_iff (plan : List GadgetInvocation) (runner : Runner F) (env : RunEnv F)
    (session : Option AttributionSession) :
    (Tended (exec (capture plan runner) []).2 ↔ captureTends runner plan.length) ∧
      (Tended (gadgetLog (runOf env session).2.log) ↔ runTends env session) := by
  apply And.intro
  · obtain ⟨j, m, h, hiff⟩ := capture_watched plan runner
    exact h.tended_iff_le.trans hiff
  · have hend {s : RunState F} (h : tendedIf env session s) :
        Tended (gadgetLog s.log) ↔ runTends env session := by
      obtain ⟨j, m, h, hiff⟩ := h
      exact h.tended_iff_le.trans hiff
    rcases (phases_watched env session).runOf Watched.nil with ⟨hup, h⟩ | ⟨-, -, h⟩ | ⟨-, h⟩
    · exact iff_of_true (h.tended_iff_le.2 le_rfl) (.inl fun hboth => hup hboth.1)
    · exact hend h
    · exact hend h

end Result

section Runs

def firstFails : Runner ℚ where
  spawn _ := .ok ()
  wait i := if i = 0 then .error "g (kvm_exit) exited with 1" else .ok ⟨[], [], none⟩

def twoGadgets : List GadgetInvocation :=
  [⟨"g", "kvm_exit", [], "/tmp/kvm_exit.frag.json"⟩, ⟨"g", "block_rq", [], "/tmp/block_rq.frag.json"⟩]

def idleWorkload : RunEnv ℚ where
  target := .single
    { version := "1", provision := .ok (), start := .ok (), reachSteady := .ok ()
      spans := .ok [], teardown := .ok (), pinningLayout := none, residentFiles := []
      netAttribution := [] }
  workload := ⟨"1", .error "no such command", .ok (), .ok .null⟩
  gadgets := twoGadgets
  meminfoBefore := .ok ""
  meminfoAfter := .ok ""
  spawn _ := .ok ()
  wait _ := .ok ⟨[], [], none⟩
  sampleResidency _ := none
  provisionNs := 0
  steadyNs := 0
  newRunId _ := ""
  exchange _ := .reply "ok"

/-- The second gadget is left running by a capture, and both by a run. -/
theorem gadgets_left_running :
    ¬ Tended (exec (capture twoGadgets firstFails) []).2 ∧
      ¬ Tended (gadgetLog (runOf idleWorkload none).2.log) := by
  refine ⟨fun h => ?_, fun h => ?_⟩
  · exact absurd (h 1 (by decide)) (by decide)
  · exact absurd (h 0 (by decide)) (by decide)

end Runs

end Assayist
