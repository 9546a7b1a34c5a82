import Assayist.Proofs.Assembly
import Assayist.Proofs.Labels
import Assayist.Proofs.Outcome

/-! What an attributed run does with its handles: the `h`-th VM gets handle `h` and the
`h`-th id the run draws, and the fragments come back rewritten under that table. -/

namespace Assayist

open Effect

section Table

variable {F : Type}

theorem HandleTable.get_insert (table : HandleTable) (p : VmProvenance) (h : ℕ) :
    (table.insert p).get h = if p.handle = h then some p else table.get h := by
  unfold HandleTable.get HandleTable.insert
  rw [Std.TreeMap.getElem?_insert]
  by_cases hh : p.handle = h
  · simp [hh]
  · have hne : compare p.handle h ≠ .eq := fun he => hh (Nat.compare_eq_eq.1 he)
    rw [if_neg hne, if_neg hh]

/-- After `n` registrations handle `h` stands for the `h`-th id drawn. -/
structure Issued (env : RunEnv F) (n : ℕ) (table : HandleTable) : Prop where
  next_eq : table.next = n
  get_eq : ∀ h, (table.get h).map (·.vmId) = if h < n then some (env.newRunId h) else none

theorem Issued.new (env : RunEnv F) : Issued env 0 .new where
  next_eq := rfl
  get_eq h := by simp [HandleTable.get, HandleTable.new]

theorem Issued.insert {env : RunEnv F} {n : ℕ} {table : HandleTable} (h : Issued env n table)
    {p : VmProvenance} (hhandle : p.handle = n) (hid : p.vmId = env.newRunId n) :
    Issued env (n + 1) ((HandleTable.insert { table with next := n + 1 }) p) where
  next_eq := rfl
  get_eq i := by
    rw [HandleTable.get_insert, hhandle]
    have hget : HandleTable.get { table with next := n + 1 } i = table.get i := rfl
    by_cases hi : n = i
    · subst hi
      rw [if_pos rfl, if_pos (by omega), Option.map_some, hid]
    · rw [if_neg hi, hget, h.get_eq i]
      exact if_congr (by omega) rfl rfl

end Table

section Driver

variable {F : Type} {env : RunEnv F} {n : ℕ} {table : HandleTable}

def holds (n : ℕ) (table : HandleTable) (s : RunState F) : Prop :=
  s.ids = n ∧ ∃ client, s.session = some ⟨client, table⟩

def issuedAt (env : RunEnv F) (n : ℕ) (s : RunState F) : Prop :=
  ∃ table, Issued env n table ∧ holds n table s

theorem frame_holds : Frame (F := F) (fun _ => True) (holds n table) where
  log _ _ _ hs := hs
  client s session client hsession hs := by
    obtain ⟨hids, c, hc⟩ := hs
    rw [hsession, Option.some.injEq] at hc
    exact ⟨hids, client, by rw [hc]⟩
  span _ _ hs := hs

theorem sendCommand_holds (line : String) : Keeps (holds n table) (sendCommand env line) :=
  frame_holds.sendCommand (fun _ _ => trivial) env line

theorem emit_holds (e : Event) : Keeps (holds n table) (emit e : Driver F Unit) :=
  frame_holds.emit trivial

theorem callTarget_holds (env : RunEnv F) (m : Method) :
    Keeps (holds n table) (callTarget env m) :=
  frame_holds.callTarget (fun _ _ _ => trivial) (fun _ _ => trivial) env m

theorem callSpans_holds (env : RunEnv F) : Keeps (holds n table) (callSpans env) := by
  refine .bind (callTarget_holds env .spans) fun _ => ?_
  cases env.target with
  | single t => exact .give _
  | fanout inners => exact .bind .look fun _ => .pure _

/-- What is kept is kept on the way to a result, whatever an error leaves. -/
theorem kept {α : Type} {P : RunState F → Prop} {m : Driver F α} (h : Keeps P m) :
    Triple P m (fun _ => P) fun _ _ => True :=
  Triple.weaken h (fun _ h => h) (fun _ _ h => h) fun _ _ _ => trivial

theorem register_issued (na : NetAttribution) (hissued : Issued env n table) :
    Triple (holds (n + 1) table) (register env (env.newRunId n) na)
      (fun handle s => handle = n ∧ issuedAt env (n + 1) s) fun _ _ => True := by
  have hreserve : Triple (holds (n + 1) table) (reserveHandle : Driver F ℕ)
      (fun handle s => handle = n ∧ holds (n + 1) { table with next := n + 1 } s)
      fun _ _ => True := by
    intro s hs
    obtain ⟨hids, client, hsession⟩ := hs
    refine (wp_bind _ _ _ _ _).2 ?_
    rw [wp_look, hsession]
    have hnext := hissued.next_eq
    exact ⟨hnext, hids, client, by simp [hnext]⟩
  refine hreserve.bind fun handle => ?_
  intro s hs
  obtain ⟨rfl, hs⟩ := hs
  refine Triple.bind (kept (sendCommand_holds _)) (fun _ => ?_) s hs
  refine .bind (Q := fun _ => issuedAt env (handle + 1)) (.update fun s hs => ?_) fun _ =>
    .pure fun _ h => ⟨rfl, h⟩
  obtain ⟨hids, client, hsession⟩ := hs
  have hinsert := hissued.insert (p := ⟨handle, env.newRunId handle, na.tap, na.guestMac,
    na.ifindex, na.netnsInum⟩) rfl rfl
  exact ⟨_, hinsert, hids, client, by rw [hsession, Option.map_some]⟩

theorem registerAll_issued (vms : List NetAttribution) (attributed : List ℕ) (n : ℕ) :
    Triple (issuedAt env n) (registerAll env vms attributed)
      (fun handles s => handles.length = attributed.length + vms.length ∧
        issuedAt env (n + vms.length) s) fun _ _ => True := by
  induction vms generalizing attributed n with
  | nil => exact .pure fun _ h => ⟨rfl, h⟩
  | cons na vms ih =>
    intro s hs
    obtain ⟨table, hissued, hs⟩ := hs
    have hdraw : Triple (holds n table) (drawRunId env)
        (fun id s => id = env.newRunId n ∧ holds (n + 1) table s) fun _ _ => True := by
      intro s hs
      obtain ⟨hids, hsession⟩ := hs
      refine (wp_bind _ _ _ _ _).2 ?_
      rw [wp_look]
      exact ⟨by rw [hids], congrArg (· + 1) hids, hsession⟩
    refine hdraw.bind (fun id => ?_) s hs
    intro s hs
    obtain ⟨rfl, hs⟩ := hs
    refine Triple.bind (Q := fun r s => ∀ handle, r = .ok handle → issuedAt env (n + 1) s)
      (.attempt ((register_issued na hissued).weaken (fun _ h => h)
        (fun _ _ h _ _ => h.2) fun _ _ _ _ hr => by cases hr)) (fun r => ?_) s hs
    cases r with
    | error e => exact abandon_never attributed e _
    | ok handle =>
      intro s hs
      obtain ⟨table', hissued', hs'⟩ := hs handle rfl
      refine Triple.bind (P := holds (n + 1) table') (Q := fun _ => holds (n + 1) table')
        (.attempt (sendCommand_holds _)) (fun r => ?_) s hs'
      cases r with
      | error e => exact abandon_never _ e _
      | ok u =>
        refine (ih (attributed ++ [handle]) (n + 1)).weaken (fun _ h => ⟨table', hissued', h⟩)
          (fun handles s h => ⟨?_, ?_⟩) fun _ _ _ => trivial
        · rw [h.1, List.length_append, List.length_singleton, List.length_cons]
          omega
        · rw [List.length_cons, Nat.add_comm vms.length, ← Nat.add_assoc]
          exact h.2

theorem attributeVms_issued :
    Triple (issuedAt env 0) (attributeVms env)
      (fun handles s => handles ≠ [] ∧ issuedAt env env.target.netAttribution.length s)
      fun _ _ => True := by
  intro s hs
  refine (wp_bind _ _ _ _ _).2 ?_
  rw [wp_look]
  have hsome : s.session.isNone = false := by
    obtain ⟨_, _, _, client, hsession⟩ := hs
    rw [hsession]
    rfl
  rw [hsome, if_neg Bool.false_ne_true]
  split
  · exact abandon_never (P := fun _ => True) [] _ _ s trivial
  · next hne =>
    refine (registerAll_issued env.target.netAttribution [] 0).weaken (fun _ h => h)
      (fun handles s h => ⟨?_, ?_⟩) (fun _ _ _ => trivial) s hs
    · have hlen : env.target.netAttribution.length ≠ 0 := fun h0 =>
        hne (List.isEmpty_iff.2 (List.length_eq_zero_iff.1 h0))
      rintro rfl
      have h0 := h.1
      simp only [List.length_nil] at h0
      omega
    · rw [Nat.zero_add] at h
      exact h.2

theorem spawnAll_holds (attributed : List ℕ) (gs : List GadgetInvocation) (i : ℕ) :
    Triple (holds n table) (spawnAll env attributed i gs) (fun _ => holds n table)
      fun _ _ => True := by
  induction gs generalizing i with
  | nil => exact .pure fun _ h => h
  | cons g gs ih =>
    refine .bind (kept (emit_holds _)) fun _ => ?_
    cases env.spawn i with
    | error e => exact abandon_never attributed e _
    | ok u => exact ih (i + 1)

/-- The fragments the gadgets wrote, from the `i`-th on. -/
def gathered (env : RunEnv F) : ℕ → List GadgetInvocation → Except String (List (Fragment F))
  | _, [] => .ok []
  | i, _ :: gs => do
    let f ← env.wait i
    let fs ← gathered env (i + 1) gs
    pure (f :: fs)

theorem mem_gathered {gs : List GadgetInvocation} {i : ℕ}
    {raw : List (Fragment F)} (h : gathered env i gs = .ok raw) {f : Fragment F} :
    f ∈ raw ↔ ∃ k < gs.length, env.wait (i + k) = .ok f := by
  induction gs generalizing i raw with
  | nil =>
    rw [gathered, Except.ok.injEq] at h
    simp [← h]
  | cons g gs ih =>
    rw [gathered, Results.bind_eq_ok] at h
    obtain ⟨f₀, hf₀, h⟩ := h
    rw [Results.bind_eq_ok] at h
    obtain ⟨fs, hfs, h⟩ := h
    rw [← Results.pure_eq_ok.1 h, List.mem_cons, ih hfs]
    refine ⟨fun hmem => ?_, fun hmem => ?_⟩
    · rcases hmem with rfl | ⟨k, hk, hwait⟩
      · exact ⟨0, by simp, hf₀⟩
      · exact ⟨k + 1, by simpa using hk, by rw [← hwait]; congr 1; omega⟩
    · obtain ⟨k, hk, hwait⟩ := hmem
      cases k with
      | zero => exact .inl (Except.ok.inj (hwait.symm.trans hf₀))
      | succ k =>
        refine .inr ⟨k, by simpa using hk, ?_⟩
        rw [← hwait]
        congr 1
        omega

theorem waitAll_gathered (attributed : List ℕ) (gs : List GadgetInvocation) (i : ℕ)
    (fragments : List (Fragment F)) :
    Triple (holds n table) (waitAll env attributed i gs fragments)
      (fun fs s => holds n table s ∧ ∃ raw, gathered env i gs = .ok raw ∧ fs = fragments ++ raw)
      fun _ _ => True := by
  induction gs generalizing i fragments with
  | nil => exact .pure fun _ h => ⟨h, [], rfl, (List.append_nil _).symm⟩
  | cons g gs ih =>
    refine .bind (kept (emit_holds _)) fun _ => ?_
    cases hwait : env.wait i with
    | error e => exact .bind (.always _) fun _ => abandon_never attributed e _
    | ok f =>
      refine (ih (i + 1) (fragments ++ [f])).weaken (fun _ h => h) (fun fs s h => ?_)
        fun _ _ _ => trivial
      obtain ⟨hs, raw, hraw, rfl⟩ := h
      refine ⟨hs, f :: raw, ?_, by rw [List.append_assoc, List.singleton_append]⟩
      rw [gathered, hwait]
      simp only [hraw, bind, Except.bind, pure, Except.pure]

/-- The driver's own fragments: the host's memory and the guests' residency. -/
def hostFragments [F64 F] (env : RunEnv F) : List (Fragment F) :=
  [hostmemFragment (sampleMeminfo env.meminfoBefore) (sampleMeminfo env.meminfoAfter)] ++
    (residentFragment (residentSamples env)).toList

variable [F64 F]

theorem windDown_fragments {attributed : List ℕ} (hne : attributed ≠ [])
    (fragments : List (Fragment F)) :
    Triple (holds n table) (windDown env attributed fragments)
      (fun art _ => art.fragments =
        (rewriteVmIdLabels table [] (fragments ++ hostFragments env)).1) fun _ _ => True := by
  refine (Keeps.attempt_then (P := holds n table)
    (frame_holds.callWorkload (fun _ => trivial) _)) fun _ => ?_
  refine (Keeps.attempt_then (P := holds n table)
    (frame_holds.callWorkload (fun _ => trivial) _)) fun _ => ?_
  refine .bind (kept (callSpans_holds env)) fun _ => ?_
  refine .bind ((frame_holds.deregisterAll (fun _ _ => trivial) env attributed).weaken
    (fun _ h => h) (fun _ _ h => h) fun _ _ _ => trivial) fun _ => ?_
  refine (Keeps.attempt_then (P := holds n table) (callTarget_holds env .teardown)) fun _ => ?_
  intro s hs
  obtain ⟨-, client, hsession⟩ := hs
  have hempty : attributed.isEmpty = false := by simpa using hne
  refine (wp_bind _ _ _ _ _).2 ?_
  rw [wp_look]
  simp only [hsession, attributeFragments, hempty, Bool.false_eq_true, if_false]
  refine Triple.bind (P := fun _ => True) (Q := fun _ _ => True) (.always _) (fun _ => ?_) s
    trivial
  refine .pure fun _ _ => ?_
  rw [hostFragments, List.append_assoc]

/-- An attributed run returns the gadgets' and its own fragments, rewritten under a
table of one handle and id for each VM. -/
theorem executeRun_fragments :
    Triple (issuedAt env 0) (executeRun env)
      (fun art _ => ∃ table raw, Issued env env.target.netAttribution.length table ∧
        gathered env 0 env.gadgets = .ok raw ∧
        art.fragments = (rewriteVmIdLabels table [] (raw ++ hostFragments env)).1)
      fun _ _ => True := by
  have hcall (m : Method) : Keeps (issuedAt env 0) (callTarget env m) := by
    intro s hs
    obtain ⟨table, hissued, hs⟩ := hs
    exact Triple.weaken (callTarget_holds env m) (fun _ h => h)
      (fun _ _ h => ⟨table, hissued, h⟩) (fun _ _ h => ⟨table, hissued, h⟩) s hs
  refine .bind (kept (hcall .provision)) fun _ => ?_
  refine .bind (kept (hcall .start)) fun _ => ?_
  refine .bind (kept (hcall .reachSteady)) fun _ => ?_
  refine attributeVms_issued.bind fun attributed => ?_
  intro s hs
  obtain ⟨hne, table, hissued, hs⟩ := hs
  refine Triple.bind (spawnAll_holds attributed env.gadgets 0) (fun _ => ?_) s hs
  refine Keeps.attempt_then (frame_holds.callWorkload (fun _ => trivial) _) fun r => ?_
  cases r with
  | error e => exact abandon_never attributed e _
  | ok u =>
    refine (waitAll_gathered attributed env.gadgets 0 []).bind fun fragments => ?_
    intro s hs
    obtain ⟨hs, raw, hraw, rfl⟩ := hs
    exact (windDown_fragments hne _).weaken (fun _ h => h)
      (fun art _ h => ⟨table, _, hissued, hraw, h⟩) (fun _ _ h => h) s hs

theorem runOf_fragments {art : RunArtifacts F} {s : RunState F}
    (hrun : runOf env (some .new) = (.ok art, s)) :
    ∃ table raw, Issued env env.target.netAttribution.length table ∧
      gathered env 0 env.gadgets = .ok raw ∧
      art.fragments = (rewriteVmIdLabels table [] (raw ++ hostFragments env)).1 := by
  have hinitial : issuedAt env 0 (RunState.initial (some .new)) :=
    ⟨.new, .new env, rfl, .new, rfl⟩
  have hw := executeRun_fragments _ hinitial
  unfold wp at hw
  unfold runOf at hrun
  rw [hrun] at hw
  exact hw

end Driver

end Assayist
