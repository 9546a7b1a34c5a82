import Assayist.Proofs.Attribution
import Assayist.Proofs.Release
import Assayist.Proofs.Tending
import Assayist.Proofs.VmIds
import Assayist.Proofs.VmTable

/-! What the owner's map holds while the gadgets run: the target's VMs, each under its interface
with the handle that the run's own table has for it, and nothing else. -/

namespace Assayist

open Effect Tagged

section Owner

open Owner

/-- The lines that register some VMs, from a handle on. -/
def registering : ℕ → List NetAttribution → List String
  | _, [] => []
  | h, na :: vms =>
    addLine na.ifindex h na.netnsInum :: stateLine h lifecycleRunning :: registering (h + 1) vms

theorem registering_concat (h : ℕ) (vms : List NetAttribution) (na : NetAttribution) :
    registering h (vms ++ [na]) = registering h vms ++
      [addLine na.ifindex (h + vms.length) na.netnsInum,
        stateLine (h + vms.length) lifecycleRunning] := by
  induction vms generalizing h with
  | nil => rfl
  | cons vm vms ih =>
    rw [List.cons_append, registering, registering, ih, List.length_cons, Nat.add_right_comm h 1]
    rfl

def running (h : ℕ) (na : NetAttribution) : VmEntry := ⟨.ofNat h, na.netnsInum, lifecycleRunning⟩

noncomputable def entered (t : VmTable) : ℕ → List NetAttribution → VmTable
  | _, [] => t
  | h, na :: vms => entered (put t na.ifindex (running h na)) (h + 1) vms

theorem entered_eq_some {t : VmTable} {h : ℕ} {vms : List NetAttribution}
    (hnodup : (vms.map NetAttribution.ifindex).Nodup) {ifindex : UInt32} {e : VmEntry} :
    entered t h vms ifindex = some e ↔
      (∃ i na, vms[i]? = some na ∧ na.ifindex = ifindex ∧ e = running (h + i) na) ∨
        (ifindex ∉ vms.map NetAttribution.ifindex ∧ t ifindex = some e) := by
  induction vms generalizing t h with
  | nil => simp [entered]
  | cons vm vms ih =>
    rw [List.map_cons, List.nodup_cons] at hnodup
    obtain ⟨hnotMem, hnodup⟩ := hnodup
    rw [entered, ih hnodup]
    apply Iff.intro
    · rintro (⟨i, na, hna, hifindex, he⟩ | ⟨hout, hput⟩)
      · refine .inl ⟨i + 1, na, hna, hifindex, ?_⟩
        rw [he, Nat.add_assoc, Nat.add_comm 1 i]
      · by_cases heq : ifindex = vm.ifindex
        · rw [heq, put_self] at hput
          exact .inl ⟨0, vm, rfl, heq.symm, (Option.some.inj hput).symm⟩
        · rw [put_of_ne heq] at hput
          exact .inr ⟨by simp [heq, List.mem_map.not.1 hout], hput⟩
    · rintro (⟨i, na, hna, hifindex, he⟩ | ⟨hout, hsome⟩)
      · cases i with
        | zero =>
          obtain rfl : vm = na := Option.some.inj hna
          refine .inr ⟨hifindex ▸ hnotMem, ?_⟩
          rw [← hifindex, put_self, he]
          rfl
        | succ i =>
          refine .inl ⟨i, na, hna, hifindex, ?_⟩
          rw [he, Nat.add_assoc, Nat.add_comm 1 i]
      · rw [List.map_cons, List.mem_cons, not_or] at hout
        exact .inr ⟨hout.2, by rw [put_of_ne hout.1, hsome]⟩

variable {kernel : Kernel} {o : State} {line : String} {t : VmTable}

theorem applied_of_ok (h : trim (serveLine kernel o line).1 = "ok") :
    ∃ cmd r, reads line = .ok cmd ∧ applyMap kernel o.served o.map o.stats cmd = .ok r ∧
      (serveLine kernel o line).2.map = r.1 := by
  cases hreads : reads line with
  | error e =>
    have hreply : (serveLine kernel o line).1 = "err " ++ e := by
      unfold serveLine
      rw [← reads, hreads]
    rw [hreply] at h
    exact absurd h (trim_err_ne_ok e)
  | ok cmd =>
    cases hok : applyMap kernel o.served o.map o.stats cmd with
    | error e =>
      rw [serveLine_rejects hreads hok] at h
      exact absurd h (trim_err_ne_ok e)
    | ok r => exact ⟨cmd, r, rfl, hok, serveLine_map hreads hok⟩

theorem added_of_ok (hrep : Represents o.map t) {na : NetAttribution} {h : ℕ}
    (hok : trim (serveLine kernel o (addLine na.ifindex h na.netnsInum)).1 = "ok") :
    h < 2 ^ 64 ∧ Represents (serveLine kernel o (addLine na.ifindex h na.netnsInum)).2.map
      (put t na.ifindex (running h na)) := by
  obtain ⟨cmd, r, hreads, happlied, hmap⟩ := applied_of_ok hok
  rw [reads_addLine] at hreads
  split_ifs at hreads with hlt
  obtain rfl := Except.ok.inj hreads
  rw [hmap]
  exact ⟨hlt, hrep.put (applyMap_add happlied)⟩

/-- A VM that runs is in the table as before. -/
theorem kept_of_ok (hrep : Represents o.map t) (hone : OneEach VmEntry.handle t)
    {na : NetAttribution} {h : ℕ} (hna : t na.ifindex = some (running h na))
    (hok : trim (serveLine kernel o (stateLine h lifecycleRunning)).1 = "ok") :
    Represents (serveLine kernel o (stateLine h lifecycleRunning)).2.map t := by
  obtain ⟨cmd, r, hreads, happlied, hmap⟩ := applied_of_ok hok
  rw [reads_stateLine h (List.mem_cons_self)] at hreads
  split_ifs at hreads with hlt
  obtain rfl := Except.ok.inj hreads
  obtain ⟨key, cur, hcur, hid, hupdate⟩ := applyMap_state happlied
  obtain ⟨i, rfl⟩ := hrep.keys key (mem_keys_iff.2 ⟨cur, hcur⟩)
  rw [hrep.bytes] at hcur
  obtain ⟨e, he, rfl⟩ := Option.map_eq_some_iff.1 hcur
  rw [vmId_entryBytes] at hid
  obtain rfl : i = na.ifindex := hone _ _ _ ⟨e, he, hid⟩ ⟨_, hna, rfl⟩
  obtain rfl : e = running h na := Option.some.inj (he.symm.trans hna)
  have hsame : put t na.ifindex (running h na) = t := by
    unfold put
    rw [← hna, Function.update_eq_self]
  have hput : o.map.update kernel o.served (keyBytes na.ifindex) (entryBytes (running h na)) =
      .ok r.1 := by
    rw [← hupdate]
    unfold entryBytes
    rw [fromBytes_asBytes]
    rfl
  rw [hmap, ← hsame]
  exact hrep.put hput

def Below (t : VmTable) (h : ℕ) : Prop := ∀ ifindex e, t ifindex = some e → e.handle.toNat < h

theorem Below.put {h : ℕ} (hbelow : Below t h) (hlt : h < 2 ^ 64) (na : NetAttribution) :
    Below (put t na.ifindex (running h na)) (h + 1) := by
  intro ifindex e he
  by_cases heq : ifindex = na.ifindex
  · rw [heq, put_self] at he
    obtain rfl := Option.some.inj he
    exact Nat.lt_succ_of_le (UInt64.toNat_ofNat_of_lt' hlt).le
  · rw [put_of_ne heq] at he
    exact Nat.lt_succ_of_lt (hbelow ifindex e he)

/-- A VM under a handle of its own leaves each handle once in the table. -/
theorem Below.oneEach_put {h : ℕ} (hbelow : Below t h) (hlt : h < 2 ^ 64)
    (hone : OneEach VmEntry.handle t) (na : NetAttribution) :
    OneEach VmEntry.handle (Tagged.put t na.ifindex (running h na)) := by
  have hnew (j : UInt32) (hj : j ≠ na.ifindex) {e : VmEntry} (he : t j = some e) :
      e.handle ≠ (running h na).handle := by
    intro heq
    have hhandle := hbelow j e he
    rw [heq, running, UInt64.toNat_ofNat_of_lt' hlt] at hhandle
    exact lt_irrefl h hhandle
  rintro j l x ⟨e, he, hex⟩ ⟨e', he', hex'⟩
  by_cases hj : j = na.ifindex <;> by_cases hl : l = na.ifindex
  · rw [hj, hl]
  · rw [hj, put_self] at he
    rw [put_of_ne hl] at he'
    obtain rfl := Option.some.inj he
    exact absurd (hex'.trans hex.symm) (hnew l hl he')
  · rw [hl, put_self] at he'
    rw [put_of_ne hj] at he
    obtain rfl := Option.some.inj he'
    exact absurd (hex.trans hex'.symm) (hnew j hj he)
  · rw [put_of_ne hj] at he
    rw [put_of_ne hl] at he'
    exact hone j l x ⟨e, he, hex⟩ ⟨e', he', hex'⟩

/-- When every line of a registration is answered with `ok`, the map has the VMs. -/
theorem serve_registering {h : ℕ} {vms : List NetAttribution} (hrep : Represents o.map t)
    (hone : OneEach VmEntry.handle t) (hbelow : Below t h)
    (hok : ∀ before line after, registering h vms = before ++ line :: after →
      trim (serveLine kernel (serve kernel o before) line).1 = "ok") :
    Represents (serve kernel o (registering h vms)).map (entered t h vms) := by
  induction vms generalizing o t h with
  | nil => exact hrep
  | cons na vms ih =>
    have hadd : trim (serveLine kernel o (addLine na.ifindex h na.netnsInum)).1 = "ok" :=
      hok [] _ _ rfl
    obtain ⟨hlt, hadded⟩ := added_of_ok hrep hadd
    have hstate : trim (serveLine kernel (serveLine kernel o
        (addLine na.ifindex h na.netnsInum)).2 (stateLine h lifecycleRunning)).1 = "ok" :=
      hok [_] _ _ rfl
    have honce := hbelow.oneEach_put hlt hone na
    have hkept := kept_of_ok hadded honce (put_self ..) hstate
    rw [registering, serve, List.foldl_cons, List.foldl_cons, ← serve, entered]
    refine ih hkept honce (hbelow.put hlt na) ?_
    intro before line after hlines
    have hsplit : registering h (na :: vms) = addLine na.ifindex h na.netnsInum ::
        stateLine h lifecycleRunning :: before ++ line :: after := by
      rw [registering, hlines]
      rfl
    have hnext := hok _ line after hsplit
    rw [serve, List.foldl_cons, List.foldl_cons, ← serve] at hnext
    exact hnext

/-- The map holds some VMs, each as it runs under the handle of its place, and nothing else. -/
def HoldsVms (m : BpfMap) (vms : List NetAttribution) : Prop :=
  ∃ t, Represents m t ∧ ∀ ifindex e, t ifindex = some e ↔
    ∃ h na, vms[h]? = some na ∧ na.ifindex = ifindex ∧ e = running h na

theorem represents_new : Represents State.new.map fun _ => none where
  bytes _ := rfl
  keys _ hkey := absurd hkey List.not_mem_nil

theorem holdsVms_serve {vms : List NetAttribution} (hrep : Represents o.map fun _ => none)
    (hnodup : (vms.map NetAttribution.ifindex).Nodup)
    (hok : ∀ before line after, registering 0 vms = before ++ line :: after →
      trim (serveLine kernel (serve kernel o before) line).1 = "ok") :
    HoldsVms (serve kernel o (registering 0 vms)).map vms := by
  refine ⟨_, serve_registering hrep (fun k l x => ?_) (fun ifindex e he => ?_) hok, ?_⟩
  · rintro ⟨e, he, -⟩
    cases he
  · cases he
  · intro ifindex e
    rw [entered_eq_some hnodup]
    simp

end Owner

section Drive

variable {F : Type} {env : RunEnv F} {lines : List String} {n : ℕ}

theorem sentLines_concat (log : List Event) (e : Event) :
    sentLines (log ++ [e]) = sentLines log ++ (sentLine e).toList := by
  rw [sentLines, List.filterMap_append]
  cases h : sentLine e <;> simp [sentLines, h]

def sentAt (lines : List String) (n : ℕ) (s : RunState F) : Prop :=
  sentLines s.log = lines ∧ opens n s

theorem frame_sentAt : Frame (F := F) (fun e => sentLine e = none) (sentAt lines n) where
  log s e he hs := by
    refine ⟨?_, hs.2⟩
    rw [sentLines_concat, he, Option.toList_none, List.append_nil]
    exact hs.1
  client s session client hsession hs := by
    obtain ⟨hlines, session', hsome, hnext⟩ := hs
    rw [hsession, Option.some.injEq] at hsome
    exact ⟨hlines, _, rfl, hsome ▸ hnext⟩
  span _ _ hs := hs

theorem sendCommand_sentAt (line : String) :
    Triple (sentAt lines n) (sendCommand env line) (fun _ => sentAt (lines ++ [line]) n)
      fun _ => sentAt (lines ++ [line]) n := by
  refine sendCommand_triple (Q := fun _ => sentAt (lines ++ [line]) n) (fun s hs => ?_)
    fun s session r client hs hsession _ => ?_
  · obtain ⟨-, session, hsession, -⟩ := hs
    rw [hsession]
    exact Option.some_ne_none session
  · obtain ⟨hlines, session', hsome, hnext⟩ := hs
    rw [hsession, Option.some.injEq] at hsome
    refine ⟨?_, _, rfl, hsome ▸ hnext⟩
    rw [sentLines_concat, hlines]
    rfl

theorem register_sentAt (vmId : String) (na : NetAttribution) :
    Triple (sentAt lines n) (register env vmId na)
      (fun handle s => handle = n ∧
        sentAt (lines ++ [addLine na.ifindex n na.netnsInum]) (n + 1) s) fun _ _ => True := by
  have hreserve : Triple (sentAt lines n) (reserveHandle : Driver F ℕ)
      (fun handle s => handle = n ∧ sentAt lines (n + 1) s) fun _ _ => True := by
    intro s hs
    obtain ⟨hlines, session, hsession, hnext⟩ := hs
    refine (wp_bind _ _ _ _ _).2 ?_
    rw [wp_look, hsession]
    exact ⟨hnext, hlines, _, rfl, congrArg (· + 1) hnext⟩
  refine hreserve.bind fun handle => .assume fun hhandle => ?_
  rw [hhandle]
  have hsend : Triple (sentAt lines (n + 1)) (sendCommand env (addLine na.ifindex n na.netnsInum))
      (fun _ => sentAt (lines ++ [addLine na.ifindex n na.netnsInum]) (n + 1))
      fun _ _ => True :=
    (sendCommand_sentAt _).weaken (fun _ h => h) (fun _ _ h => h) fun _ _ _ => trivial
  refine hsend.bind fun _ => .bind (Q := fun _ =>
    sentAt (lines ++ [addLine na.ifindex n na.netnsInum]) (n + 1)) (.update fun s hs => ?_)
    fun _ => .pure fun _ hs => ⟨rfl, hs⟩
  obtain ⟨hlines, session, hsession, hnext⟩ := hs
  exact ⟨hlines, _, congrArg (Option.map _) hsession, hnext⟩

theorem registerAll_sentAt (done vms : List NetAttribution) (attributed : List ℕ) :
    Triple (sentAt (registering 0 done) done.length) (registerAll env vms attributed)
      (fun _ s => sentLines s.log = registering 0 (done ++ vms)) fun _ _ => True := by
  induction vms generalizing done attributed with
  | nil =>
    rw [List.append_nil]
    exact .pure fun _ hs => hs.1
  | cons na vms ih =>
    refine .bind (Q := fun _ => sentAt (registering 0 done) done.length) (.bind (Q := fun _ =>
      sentAt (registering 0 done) done.length) (fun _ hs => hs) fun _ => .bind (Q := fun _ =>
      sentAt (registering 0 done) done.length) (.update fun _ hs => hs) fun _ =>
        .pure fun _ hs => hs) fun vmId => ?_
    refine .bind (Q := fun r s => match r with
      | .ok handle => handle = done.length ∧ sentAt (registering 0 done ++
          [addLine na.ifindex done.length na.netnsInum]) (done.length + 1) s
      | .error _ => True) (.attempt (register_sentAt vmId na)) fun r => ?_
    cases r with
    | error e => exact abandon_never attributed e _
    | ok handle =>
      refine .assume fun hhandle => ?_
      refine .bind (.attempt (R := fun _ => sentAt (registering 0 done ++
        [addLine na.ifindex done.length na.netnsInum] ++ [stateLine handle lifecycleRunning])
        (done.length + 1)) (sendCommand_sentAt _)) fun r => ?_
      cases r with
      | error e => exact abandon_never _ e _
      | ok u =>
        have hnext := ih (done ++ [na]) (attributed ++ [handle])
        rw [registering_concat, Nat.zero_add, List.length_append, List.length_singleton,
          List.append_assoc] at hnext
        rw [hhandle, List.append_assoc] at *
        exact hnext

theorem attributeVms_sentAt :
    Triple (sentAt [] 0) (attributeVms env)
      (fun _ s => sentLines s.log = registering 0 env.target.netAttribution) fun _ _ => True := by
  intro s hs
  refine (wp_bind _ _ _ _ _).2 ?_
  have hsome : s.session.isNone = false := by
    obtain ⟨-, session, hsession, -⟩ := hs
    rw [hsession]
    rfl
  rw [wp_look, hsome, if_neg Bool.false_ne_true]
  split
  · exact abandon_never (P := fun _ => True) [] _ _ s trivial
  · exact registerAll_sentAt [] env.target.netAttribution [] s hs

def NoGadgets (log : List Event) : Prop := ∀ e ∈ log, gadgetEvent e = none

/-- At every spawn of a gadget and every wait on one, `p` holds of the lines sent so far. -/
def Meanwhile (p : List String → Prop) (log : List Event) : Prop :=
  ∀ before e after, log = before ++ e :: after → gadgetEvent e ≠ none → p (sentLines before)

variable {p : List String → Prop}

theorem NoGadgets.meanwhile {log : List Event} (h : NoGadgets log) : Meanwhile p log := by
  intro before e after hlog he
  refine absurd (h e ?_) he
  rw [hlog]
  exact List.mem_append_right _ List.mem_cons_self

theorem Meanwhile.concat {log : List Event} (h : Meanwhile p log) {e : Event}
    (he : gadgetEvent e ≠ none → p (sentLines log)) : Meanwhile p (log ++ [e]) := by
  intro before d after hlog hd
  rcases List.append_eq_append_iff.1 hlog with ⟨mid, rfl, hmid⟩ | ⟨mid, hmid, hafter⟩
  · cases mid with
    | nil =>
      obtain ⟨rfl, -⟩ := List.cons.inj hmid
      rw [List.append_nil]
      exact he hd
    | cons c mid => exact absurd (congrArg List.length hmid) (by simp)
  · cases mid with
    | nil =>
      rw [List.nil_append] at hafter
      obtain ⟨rfl, -⟩ := List.cons.inj hafter
      rw [hmid, List.append_nil] at he
      exact he hd
    | cons c mid =>
      obtain ⟨rfl, -⟩ := List.cons.inj hafter
      exact h before d mid hmid hd

theorem onLog_noGadgets :
    OnLog (F := F) (fun e => gadgetEvent e = none) (fun s => NoGadgets s.log) where
  same s s' hlog hs := by
    rw [hlog]
    exact hs
  log s e he hs d hd := by
    rcases List.mem_append.1 hd with hd | hd
    · exact hs d hd
    · rw [List.mem_singleton.1 hd]
      exact he

theorem onLog_meanwhile :
    OnLog (F := F) (fun e => gadgetEvent e = none) (fun s => Meanwhile p s.log) where
  same s s' hlog hs := by
    rw [hlog]
    exact hs
  log s e he hs := hs.concat fun hne => absurd he hne

/-- An abort path neither spawns a gadget nor waits on one. -/
theorem abandon_meanwhile {α : Type} (attributed : List ℕ) (e : String)
    (Q : α → RunState F → Prop) :
    Triple (fun s => Meanwhile p s.log) (abandon env attributed e : Driver F α) Q
      fun _ s => Meanwhile p s.log :=
  .bind ((onLog_meanwhile.frame.deregisterAll (fun _ _ => rfl) env attributed).weaken
      (fun _ h => h) (fun _ _ h => h) fun _ _ h => h.elim) fun _ =>
    (onLog_meanwhile.frame.callTarget (fun _ _ _ => rfl) (fun _ _ => rfl) env
      .teardown).attempt_then fun _ => .give (fun _ hok => by cases hok) fun _ _ _ h => h

def vmsRegistered (env : RunEnv F) (lines : List String) : Prop :=
  lines = registering 0 env.target.netAttribution ∧ attributes env (some .new)

/-- The VMs are registered, and were whenever a gadget was spawned or waited on. -/
def inForce (env : RunEnv F) (s : RunState F) : Prop :=
  vmsRegistered env (sentLines s.log) ∧ Meanwhile (vmsRegistered env) s.log

theorem frame_inForce : Frame (F := F) (fun e => sentLine e = none) (inForce env) where
  log s e he hs := by
    refine ⟨?_, hs.2.concat fun _ => hs.1⟩
    rw [sentLines_concat, he, Option.toList_none, List.append_nil]
    exact hs.1
  client _ _ _ _ hs := hs
  span _ _ hs := hs

theorem abandon_inForce {α : Type} (attributed : List ℕ) (e : String)
    (Q : α → RunState F → Prop) :
    Triple (inForce env) (abandon env attributed e : Driver F α) Q
      fun _ s => Meanwhile (vmsRegistered env) s.log :=
  (abandon_meanwhile attributed e Q).weaken (fun _ h => h.2) (fun _ _ h => h) fun _ _ h => h

variable [F64 F]

theorem windDown_meanwhile (attributed : List ℕ) (fragments : List (Fragment F)) :
    Keeps (fun s => Meanwhile p s.log) (windDown env attributed fragments) := by
  have hframe := (onLog_meanwhile (F := F) (p := p)).frame
  have hcall (m : Method) : Keeps (fun s => Meanwhile p s.log) (callTarget env m) :=
    hframe.callTarget (fun _ _ _ => rfl) (fun _ _ => rfl) env m
  refine (hframe.callWorkload (fun _ => rfl) _).attempt_then fun _ => ?_
  refine (hframe.callWorkload (fun _ => rfl) _).attempt_then fun _ => ?_
  refine .bind (callSpans_triple (hcall .spans)) fun _ => ?_
  refine Triple.bind ((hframe.deregisterAll (fun _ _ => rfl) env attributed).weaken
    (fun _ h => h) (fun _ _ h => h) fun _ _ h => h.elim) fun _ => ?_
  refine (hcall .teardown).attempt_then fun r => ?_
  exact Keeps.look.bind fun s => (Keeps.give r).bind fun _ => .pure _

/-- What each phase of an attributed run has sent. -/
theorem phases_inForce (env : RunEnv F) : Phases env (some .new)
    (fun s => sentAt [] 0 s ∧ NoGadgets s.log) (fun _ => inForce env) (fun _ => inForce env)
    (fun _ => inForce env) (fun s => Meanwhile (vmsRegistered env) s.log)
    (fun s => Meanwhile (vmsRegistered env) s.log)
    (fun s => Meanwhile (vmsRegistered env) s.log) where
  call {m} _ _ := by
    have hsent : Keeps (sentAt [] 0) (callTarget env m) :=
      frame_sentAt.callTarget (fun _ _ _ => rfl) (fun _ _ => rfl) env m
    have hnone : Keeps (fun s => NoGadgets s.log) (callTarget env m) :=
      onLog_noGadgets.frame.callTarget (fun _ _ _ => rfl) (fun _ _ => rfl) env m
    exact Triple.weaken (Triple.and (Triple.weaken hsent (fun _ h => h.1) (fun _ _ h => h)
      fun _ _ h => h) (Triple.weaken hnone (fun _ h => h.2) (fun _ _ h => h) fun _ _ h => h))
      (fun _ h => h) (fun _ _ h => h) fun _ _ h => h.2.meanwhile
  registers := by
    have hnone : Triple (fun s => NoGadgets s.log) (attributeVms env)
        (fun _ s => NoGadgets s.log) fun _ s => Meanwhile (vmsRegistered env) s.log :=
      onLog_noGadgets.attributeVms (fun _ _ => rfl) fun attributed e Q =>
        (abandon_meanwhile attributed e Q).weaken (fun _ h => h.meanwhile) (fun _ _ h => h)
          fun _ _ h => h
    refine ((attributeVms_decides (some .new)).along (.and (attributeVms_sentAt.weaken
      (fun _ h => h.1) (fun _ _ h => h) fun _ _ h => h) (hnone.weaken (fun _ h => h.2)
      (fun _ _ h => h) fun _ _ h => h))).weaken (fun _ h => h) (fun _ s h => ?_)
      fun _ _ h _ => h.2.2
    exact ⟨⟨h.2.2.1, h.1⟩, h.2.2.2.meanwhile⟩
  spawn _ _ attributed :=
    frame_inForce.spawnAll (fun _ _ => rfl) attributed (abandon_inForce attributed) env.gadgets 0
  workload _ := frame_inForce.callWorkload (fun _ => rfl) _
  abandon _ _ _ _ := abandon_inForce
  wait _ _ _ _ attributed :=
    frame_inForce.waitAll (fun _ _ => rfl) (fun _ => rfl) attributed
      (abandon_inForce attributed) env.gadgets 0 []
  windDown _ attributed fragments :=
    (windDown_meanwhile attributed fragments).weaken (fun _ h => h.2)
      (fun _ _ h => by split <;> exact h) fun _ _ h => by split <;> exact h

theorem runOf_meanwhile (env : RunEnv F) :
    Meanwhile (vmsRegistered env) (runOf env (some .new)).2.log := by
  have hstart : sentAt [] 0 (RunState.initial (F := F) (some .new)) ∧
      NoGadgets (RunState.initial (F := F) (some .new)).log :=
    ⟨⟨rfl, _, rfl, rfl⟩, fun _ he => absurd he List.not_mem_nil⟩
  rcases (phases_inForce env).runOf hstart with ⟨-, h⟩ | ⟨-, -, h⟩ | ⟨-, h⟩
  · exact h
  · exact h
  · exact h

end Drive

section Result

open Owner

variable {F : Type} [F64 F]

def replies (kernel : Kernel) (o : State) : List String → List String
  | [] => []
  | line :: lines =>
    (serveLine kernel o line).1 :: replies kernel (serveLine kernel o line).2 lines

theorem getElem?_replies (kernel : Kernel) (o : State) (before : List String) (line : String)
    (after : List String) :
    (replies kernel o (before ++ line :: after))[before.length]? =
      some (serveLine kernel (serve kernel o before) line).1 := by
  induction before generalizing o with
  | nil => rfl
  | cons first before ih =>
    rw [List.cons_append, replies, List.length_cons, List.getElem?_cons_succ, serve,
      List.foldl_cons, ← serve]
    exact ih _

/-- A run's commands are answered by an owner that starts with an empty map. -/
def AnsweredBy (kernel : Kernel) (env : RunEnv F) : Prop :=
  ∀ (k : ℕ) (reply : String),
    (replies kernel .new (sentLines (runOf env (some .new)).2.log))[k]? = some reply →
      env.exchange k = .reply reply

theorem length_registering (h : ℕ) (vms : List NetAttribution) :
    (registering h vms).length = 2 * vms.length := by
  induction vms generalizing h with
  | nil => rfl
  | cons na vms ih =>
    rw [registering, List.length_cons, List.length_cons, List.length_cons, ih]
    omega

/-- Whenever a gadget is spawned or waited on, the owner's map holds the VMs of the target, each
under its interface and the handle of its place and marked as running, and nothing else; and a run
that succeeds returns what the gadgets wrote with each such handle read as the id that was drawn
for the VM of this place. -/
theorem vms_in_force {kernel : Kernel} {env : RunEnv F} (hanswered : AnsweredBy kernel env)
    (hnodup : (env.target.netAttribution.map NetAttribution.ifindex).Nodup) :
    (∀ before e after, (runOf env (some .new)).2.log = before ++ e :: after →
      gadgetEvent e ≠ none →
        HoldsVms (serve kernel .new (sentLines before)).map env.target.netAttribution) ∧
      ∀ art, (runOf env (some .new)).1 = .ok art → ∃ table raw,
        gathered env 0 env.gadgets = .ok raw ∧
        art.fragments = (rewriteVmIdLabels table [] (raw ++ hostFragments env)).1 ∧
        ∀ h, (table.get h).map VmProvenance.vmId =
          if h < env.target.netAttribution.length then some (env.newRunId h) else none := by
  apply And.intro
  · intro before e after hlog he
    obtain ⟨hlines, -, haccepts⟩ := runOf_meanwhile env before e after hlog he
    rw [hlines]
    refine holdsVms_serve represents_new hnodup fun before' line after' hsplit => ?_
    have hlt : before'.length < 2 * env.target.netAttribution.length := by
      rw [← length_registering 0, hsplit, List.length_append, List.length_cons]
      omega
    obtain ⟨-, reply, hreply, hok⟩ := haccepts before'.length hlt
    have hsent : sentLines (runOf env (some .new)).2.log =
        before' ++ line :: (after' ++ sentLines (e :: after)) := by
      rw [hlog, sentLines, List.filterMap_append, ← sentLines, ← sentLines, hlines, hsplit,
        List.append_assoc, List.cons_append]
    have hanswer : env.exchange before'.length =
        .reply (serveLine kernel (serve kernel .new before') line).1 := by
      apply hanswered
      rw [hsent, getElem?_replies]
    have hfirst : AttributionSession.new.client.sent + before'.length = before'.length :=
      Nat.zero_add _
    rw [hfirst, hanswer, Exchange.reply.injEq] at hreply
    rw [hreply]
    exact hok
  · intro art hart
    obtain ⟨table, raw, hissued, hraw, hfragments⟩ :=
      runOf_fragments (s := (runOf env (some .new)).2) (Prod.ext hart rfl)
    exact ⟨table, raw, hraw, hfragments, hissued.get_eq⟩

end Result

section Runs

open Owner

attribute [local instance] releaseBuild

def tapAnswers (tap : String) (ifindex : UInt32) (guestMac : String) : TargetAnswers ℚ where
  version := "1"
  provision := .ok ()
  start := .ok ()
  reachSteady := .ok ()
  spans := .ok []
  teardown := .ok ()
  pinningLayout := none
  residentFiles := []
  netAttribution := [⟨tap, ifindex, guestMac, 7⟩]

/-- Two VMs behind a tap each, watched by a gadget that counts the bytes of the second. -/
def pairRun : RunEnv ℚ :=
  { tapRun "1" 'A' with target := .fanout [tapAnswers "tap0" 3 "06:00", tapAnswers "tap1" 4 "06:01"] }

theorem pairRun_answered : AnsweredBy roomy pairRun := by
  have hreplies : replies roomy .new (sentLines (runOf pairRun (some .new)).2.log) =
      ["ok", "ok", "ok", "ok", "ok", "ok"] := by
    decide +kernel
  intro k reply hk
  rw [hreplies] at hk
  have hmem := List.mem_of_getElem? hk
  simp only [List.mem_cons, List.not_mem_nil, or_false, or_self] at hmem
  rw [hmem]
  rfl

/-- While the gadget ran the map had both VMs, under the handles 0 and 1, and it is the ids drawn
for them that the run returns. -/
theorem pairRun_in_force :
    HoldsVms (serve roomy .new [addLine 3 0 7, stateLine 0 lifecycleRunning, addLine 4 1 7,
      stateLine 1 lifecycleRunning]).map [⟨"tap0", 3, "06:00", 7⟩, ⟨"tap1", 4, "06:01", 7⟩] ∧
    ∃ art table raw, (runOf pairRun (some .new)).1 = .ok art ∧
      gathered pairRun 0 pairRun.gadgets = .ok raw ∧
      art.fragments = (rewriteVmIdLabels table [] (raw ++ hostFragments pairRun)).1 ∧
      ∀ h, (table.get h).map VmProvenance.vmId =
        if h < 2 then some (pairRun.newRunId h) else none := by
  obtain ⟨hforce, hresult⟩ := vms_in_force pairRun_answered (by decide +kernel)
  apply And.intro
  · have hlog : (runOf pairRun (some .new)).2.log =
        (runOf pairRun (some .new)).2.log.take 16 ++ .wait 0 true ::
          (runOf pairRun (some .new)).2.log.drop 17 := by
      decide +kernel
    have hlines : sentLines ((runOf pairRun (some .new)).2.log.take 16) = [addLine 3 0 7,
        stateLine 0 lifecycleRunning, addLine 4 1 7, stateLine 1 lifecycleRunning] := by
      decide +kernel
    have hholds := hforce _ _ _ hlog (Option.some_ne_none _)
    rwa [hlines] at hholds
  · obtain ⟨art, hart⟩ : ∃ art, (runOf pairRun (some .new)).1 = .ok art := ⟨_, rfl⟩
    obtain ⟨table, raw, hraw, hfragments, hget⟩ := hresult art hart
    exact ⟨art, table, raw, hart, hraw, hfragments, hget⟩

end Runs

end Assayist
