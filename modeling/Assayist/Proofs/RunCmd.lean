import Assayist.Proofs.Admission
import Assayist.Lib.Keyed
import Assayist.Proofs.Argv
import Assayist.Proofs.Comparable
import Assayist.Proofs.Costs
import Assayist.Proofs.Exit
import Assayist.Proofs.Keywords
import Assayist.Proofs.Prepared
import Assayist.Proofs.TapNames
import Assayist.Proofs.Tuning
import Assayist.Spec.RunCmd

/-! What `assayist run` has done when it ends, whatever its calls answer: the runs of its schedule
one after another up to the first that fails, each in a file of its own, and the gate only over the
whole schedule. -/

namespace Assayist

namespace RunCmd

open Effect

variable {F : Type}

section Schedule

def groupSlots (repeats : ℕ) (g : String × String × List (Cell F)) : List (Slot F) :=
  g.2.2.zipIdx.flatMap fun c => (List.range repeats).map fun i => ⟨g.1, g.2.1, c.1, c.2, i⟩

/-- The runs of all groups, in the order of the loops. -/
def schedule (repeats : ℕ) (groups : List (String × String × List (Cell F))) : List (Slot F) :=
  groups.flatMap (groupSlots repeats)

def Slot.tag (s : Slot F) : String × ℕ × ℕ := (s.group, s.ci, s.i)

theorem tag_nodup {repeats : ℕ} {groups : List (String × String × List (Cell F))}
    (h : (groups.map Prod.fst).Nodup) : ((schedule repeats groups).map Slot.tag).Nodup := by
  have hgroup (g : String × String × List (Cell F)) :
      ((groupSlots repeats g).map Slot.tag).Nodup := by
    rw [groupSlots, List.map_flatMap, List.nodup_flatMap]
    refine ⟨fun c _ => ?_, ?_⟩
    · rw [List.map_map]
      exact List.nodup_range.map fun i j hij => congrArg (·.2.2) hij
    · have hidx : g.2.2.zipIdx.Pairwise fun c c' => c.2 ≠ c'.2 := by
        rw [← List.pairwise_map (f := Prod.snd), List.zipIdx_map_snd]
        exact List.nodup_range'
      refine hidx.imp fun {c c'} hne => ?_
      intro x hx hx'
      simp only [List.map_map, List.mem_map, Function.comp_apply] at hx hx'
      obtain ⟨i, -, rfl⟩ := hx
      obtain ⟨j, -, hj⟩ := hx'
      exact hne (congrArg (·.2.1) hj).symm
  rw [schedule, List.map_flatMap, List.nodup_flatMap]
  refine ⟨fun g _ => hgroup g, ?_⟩
  refine (List.pairwise_map.1 h).imp fun {g g'} hne => ?_
  have hfirst {g : String × String × List (Cell F)} {x : String × ℕ × ℕ}
      (hx : x ∈ (groupSlots repeats g).map Slot.tag) : x.1 = g.1 := by
    simp only [groupSlots, List.map_flatMap, List.mem_flatMap, List.map_map, List.mem_map,
      Function.comp_apply] at hx
    obtain ⟨c, -, i, -, rfl⟩ := hx
    rfl
  intro x hx hx'
  exact hne ((hfirst hx).symm.trans (hfirst hx'))

theorem underscore_notMem_nat (n : ℕ) : '_' ∉ (toString n).toList := by
  obtain ⟨c, cs, hlist, -, hdigits, -⟩ := toList_nat n
  rw [hlist]
  intro h
  exact absurd (hdigits '_' h) (by decide)

theorem joinPath_inj {dir p q : String} (h : joinPath dir p = joinPath dir q) : p = q := by
  unfold joinPath at h
  split_ifs at h
  · exact (String.append_right_inj dir).1 h
  · exact (String.append_right_inj (dir ++ "/")).1 h

theorem name_split {s : Slot F} (hs : '_' ∉ s.group.toList) :
    (s.name "_" ++ ".json").toList.splitOn '_' =
      [s.group.toList, (toString s.ci).toList, (toString s.i ++ ".json").toList] := by
  have hjson : '_' ∉ (toString s.i ++ ".json").toList := by
    rw [String.toList_append, List.mem_append, not_or]
    exact ⟨underscore_notMem_nat _, by decide⟩
  have hpieces : ∀ l ∈ [s.group.toList, (toString s.ci).toList, (toString s.i ++ ".json").toList],
      '_' ∉ l := by
    simp only [List.forall_mem_cons, forall_mem_nil_iff, and_true]
    exact ⟨hs, underscore_notMem_nat _, hjson⟩
  have hsplit := List.splitOn_intercalate '_' hpieces (List.cons_ne_nil _ _)
  rw [← hsplit]
  simp [Slot.name, String.toList_append, List.intercalate]

/-- Runs of groups whose labels have no underscore have files of their own. -/
theorem path_inj {ra : RunArgs} {s t : Slot F} (hs : '_' ∉ s.group.toList)
    (ht : '_' ∉ t.group.toList) (h : s.path ra = t.path ra) : s.tag = t.tag := by
  have htext := congrArg (List.splitOn '_' ∘ String.toList) (joinPath_inj h)
  simp only [Function.comp_apply, name_split hs, name_split ht, List.cons.injEq, and_true,
    String.toList_inj] at htext
  obtain ⟨hgroup, hci, hi⟩ := htext
  unfold Slot.tag
  rw [hgroup, toString_nat_inj hci, toString_nat_inj ((String.append_left_inj ".json").1 hi)]

theorem path_nodup {ra : RunArgs} {slots : List (Slot F)} (h : (slots.map Slot.tag).Nodup)
    (hgroup : ∀ s ∈ slots, '_' ∉ s.group.toList) : (slots.map (Slot.path · ra)).Nodup := by
  apply List.Nodup.map_on
  · intro s hs t ht hst
    have htag := path_inj (hgroup s hs) (hgroup t ht) hst
    exact List.inj_on_of_nodup_map h hs ht htag
  · exact h.of_map _

end Schedule

section Stops

theorem triple_orStop {α ε : Type} {P : State F → Prop} (status : UInt8) (r : Except ε α) :
    Triple P (orStop status r : Command F α) (fun a s => P s ∧ r = .ok a)
      fun e s => P s ∧ e = status ∧ ∀ a, r ≠ .ok a := by
  unfold orStop
  cases r with
  | ok a => exact fun s hs => ⟨hs, rfl⟩
  | error e => exact fun s hs => ⟨hs, rfl, fun _ h => nomatch h⟩

theorem abortStatus_ne_zero (e : Abort) : abortStatus e ≠ 0 := by
  cases e with
  | error msg => exact (by decide : (1 : UInt8) ≠ 0)
  | panic p => exact (by decide : (101 : UInt8) ≠ 0)

theorem triple_orAbort {α : Type} {P : State F → Prop} (r : Except Abort α) :
    Triple P (orAbort r : Command F α) (fun a s => P s ∧ r = .ok a)
      fun e s => P s ∧ e ≠ 0 ∧ ∀ a, r ≠ .ok a := by
  unfold orAbort
  cases r with
  | ok a => exact fun s hs => ⟨hs, rfl⟩
  | error e => exact fun s hs => ⟨hs, abortStatus_ne_zero e, fun _ h => nomatch h⟩

end Stops

section Loop

variable [F64 F] [FloatText F] [Build] (w : World F) (ra : RunArgs) (d : BenchmarkDef F)
  (sha : String)

/-- A run that was driven to its end, from the plan of its gadgets to the document. -/
def Assembles (slot : Slot F) (run : AssayRun F) : Prop :=
  ∃ plan art,
    planGadgets d.capture ra.duration (slot.workDir ra) (slot.vars w ra) = .ok plan ∧
    (runOf { (w.call slot.group slot.ci slot.i).env with gadgets := plan } none).1 = .ok art ∧
    cellRun (w.call slot.group slot.ci slot.i).runId d slot.cell
      (slot.gathered sha (w.call slot.group slot.ci slot.i) art) = .ok run

/-- A run that nothing keeps from its file. -/
def Completes (slot : Slot F) : Prop :=
  (∃ t, slot.target w ra d = .ok t) ∧ (w.call slot.group slot.ci slot.i).workDir = .ok () ∧
    (∃ run, Assembles w ra d sha slot run) ∧ (w.call slot.group slot.ci slot.i).write = .ok ()

/-- The files of some runs are written, each with its run, and noted for the gate in order. -/
structure Written (done : List (Slot F)) (s : State F) : Prop where
  files : List.Forall₂ (fun slot file => file.1 = slot.path ra ∧ Assembles w ra d sha slot file.2)
    done s.files
  completes : ∀ slot ∈ done, Completes w ra d sha slot
  aFiles : s.aFiles = (done.filter fun slot => slot.group = "a").map (Slot.path · ra)
  bFiles : s.bFiles = (done.filter fun slot => slot.group ≠ "a").map (Slot.path · ra)

variable {w ra d sha} {done : List (Slot F)} {slot : Slot F}

theorem written_nil : Written w ra d sha [] .new := ⟨.nil, List.forall_mem_nil _, rfl, rfl⟩

theorem Written.wrote {s : State F} {run : AssayRun F} (h : Written w ra d sha done s)
    (hcompletes : Completes w ra d sha slot) (hrun : Assembles w ra d sha slot run) :
    Written w ra d sha (done ++ [slot]) (s.wrote slot (slot.path ra) run) where
  files := List.rel_append h.files (.cons ⟨rfl, hrun⟩ .nil)
  completes := List.forall_mem_append.2 ⟨h.completes, List.forall_mem_singleton.2 hcompletes⟩
  aFiles := by
    rw [List.filter_append, List.map_append, ← h.aFiles, State.wrote]
    by_cases ha : slot.group = "a"
    · simp [ha]
    · simp [ha]
  bFiles := by
    rw [List.filter_append, List.map_append, ← h.bFiles, State.wrote]
    by_cases ha : slot.group = "a"
    · simp [ha]
    · simp [ha]

/-- The files of the runs that are done, with no gate started, and the runs that were started. -/
structure Reached (w : World F) (ra : RunArgs) (d : BenchmarkDef F) (sha : String)
    (done started : List (Slot F)) (s : State F) : Prop where
  written : Written w ra d sha done s
  started : s.started = started.map Slot.tag
  argv : s.argv = none

/-- A run is written once it has been driven, or the command stops with what it had. -/
theorem runCell_spec :
    Triple (Reached w ra d sha done done) (runCell w ra d sha slot)
      (fun _ => Reached w ra d sha (done ++ [slot]) (done ++ [slot]))
      fun e s => e ≠ 0 ∧ ¬ Completes w ra d sha slot ∧
        ∃ started, (started = done ∨ started = done ++ [slot]) ∧
          Reached w ra d sha done started s := by
  unfold runCell
  dsimp only
  refine Triple.bind ((triple_orAbort _).weaken (fun _ h => h) (fun _ _ h => ⟨h.2, h.1⟩)
    fun e s h => ⟨h.2.1, ?_, done, .inl rfl, h.1⟩) fun t => Triple.assume fun htarget => ?_
  · exact fun ⟨⟨t, ht⟩, _⟩ => h.2.2 t ht
  refine Triple.bind ((triple_orStop 1 _).weaken (fun _ h => h) (fun _ _ h => ⟨h.2, h.1⟩)
    fun e s h => ⟨h.2.1 ▸ by decide, ?_, done, .inl rfl, h.1⟩) fun _ => Triple.assume fun hdir => ?_
  · exact fun ⟨_, hdir, _⟩ => h.2.2 () hdir
  refine Triple.bind ((triple_orStop 1 _).weaken (fun _ h => h) (fun _ _ h => ⟨h.2, h.1⟩)
    fun e s h => ⟨h.2.1 ▸ by decide, ?_, done, .inl rfl, h.1⟩) fun plan =>
      Triple.assume fun hplan => ?_
  · exact fun ⟨_, _, ⟨_, plan, _, hplan, _⟩, _⟩ => h.2.2 plan hplan
  refine Triple.bind (Q := fun _ => Reached w ra d sha done (done ++ [slot]))
    (Triple.update fun s hs => ?_) fun _ => ?_
  · refine ⟨⟨hs.written.files, hs.written.completes, hs.written.aFiles, hs.written.bFiles⟩, ?_,
      hs.argv⟩
    dsimp only
    rw [hs.started, List.map_append]
    rfl
  refine Triple.bind ((triple_orStop 1 _).weaken (fun _ h => h) (fun _ _ h => ⟨h.2, h.1⟩)
    fun e s h => ⟨h.2.1 ▸ by decide, ?_, _, .inr rfl, h.1⟩) fun art => Triple.assume fun hart => ?_
  · rintro ⟨_, _, ⟨_, plan', art, hplan', hart, _⟩, _⟩
    obtain rfl : plan = plan' := Except.ok.inj (hplan.symm.trans hplan')
    exact h.2.2 art hart
  refine Triple.bind ((triple_orAbort _).weaken (fun _ h => h) (fun _ _ h => ⟨h.2, h.1⟩)
    fun e s h => ⟨h.2.1, ?_, _, .inr rfl, h.1⟩) fun run => Triple.assume fun hrun => ?_
  · rintro ⟨_, _, ⟨run, hassembles⟩, _⟩
    obtain ⟨plan', art', hplan', hart', hrun⟩ := hassembles
    obtain rfl : plan = plan' := Except.ok.inj (hplan.symm.trans hplan')
    obtain rfl : art = art' := Except.ok.inj (hart.symm.trans hart')
    exact h.2.2 run hrun
  refine Triple.bind ((triple_orStop 1 _).weaken (fun _ h => h) (fun _ _ h => ⟨h.2, h.1⟩)
    fun e s h => ⟨h.2.1 ▸ by decide, ?_, _, .inr rfl, h.1⟩) fun _ =>
      Triple.assume fun hwrite => ?_
  · exact fun ⟨_, _, _, hwrite⟩ => h.2.2 () hwrite
  refine Triple.update fun s hs => ?_
  have hassembles : Assembles w ra d sha slot run := ⟨plan, art, hplan, hart, hrun⟩
  exact ⟨hs.written.wrote ⟨⟨t, htarget⟩, hdir, ⟨run, hassembles⟩, hwrite⟩ hassembles, hs.started,
    hs.argv⟩

theorem runGroups_eq (groups : List (String × String × List (Cell F))) :
    runGroups w ra d sha groups =
      (schedule ra.repeats.toNat groups).forM (runCell w ra d sha) := by
  unfold runGroups schedule
  rw [Effect.Triple.forM_flatMap]
  refine congrArg (groups.forM ·) (funext fun g => ?_)
  unfold groupSlots
  rw [Effect.Triple.forM_flatMap]
  refine congrArg (g.2.2.zipIdx.forM ·) (funext fun c => ?_)
  exact List.forM_map.symm

end Loop

section Command

variable [F64 F] [FloatText F] [Build] {w : World F} {args : List String} {ra : RunArgs}
  {d : BenchmarkDef F} {sha : String} {groups : List (String × String × List (Cell F))}

/-- What the command has before its first run: its arguments, an accepted definition, a host in the
tuning that was asked of it, a directory for the runs, and the groups. -/
structure Setup (w : World F) (args : List String) (ra : RunArgs) (d : BenchmarkDef F)
    (sha : String) (groups : List (String × String × List (Cell F))) : Prop where
  parsed : parseRunArgs args = .ok ra
  loaded : w.load ra.defPath = .ok (d, sha)
  valid : d.validate = .ok ()
  prepared : ∃ fp, firstFingerprint w ra d = .ok fp ∧
    (ra.applyPrep = true → fp.tuningConsistent = true)
  outDir : w.outDir = .ok ()
  groups : cellGroups d (expandCells w.sha256Hex d) ra.aSut ra.bSut = some groups

/-- The command has stopped: before its first run, which something kept it from, or at the first run
of the schedule that something kept from its file. The runs before that one are written, none after
it was started, and neither was the gate. -/
def Stopped (w : World F) (args : List String) (s : State F) : Prop :=
  (s = .new ∧ ∀ ra d sha groups, ¬ Setup w args ra d sha groups) ∨
    ∃ ra d sha groups done slot rest, Setup w args ra d sha groups ∧
      schedule ra.repeats.toNat groups = done ++ slot :: rest ∧ ¬ Completes w ra d sha slot ∧
      ∃ started, (started = done ∨ started = done ++ [slot]) ∧ Reached w ra d sha done started s

/-- The command has gone through its schedule, and ends as the gate over the files of it did. -/
def Finished (w : World F) (args : List String) (code : UInt8) (s : State F) : Prop :=
  ∃ ra d sha groups, Setup w args ra d sha groups ∧
    Written w ra d sha (schedule ra.repeats.toNat groups) s ∧
    s.started = (schedule ra.repeats.toNat groups).map Slot.tag ∧
    s.argv = some (gateArgv d.gate.mode s.aFiles s.bFiles (thresholdsOf d ra.allowUngraded)) ∧
    code = runCmdExit (runGate w.parse w.bin (w.gate
      (gateArgv d.gate.mode s.aFiles s.bFiles (thresholdsOf d ra.allowUngraded)) s.files))

theorem runGroups_spec (h : Setup w args ra d sha groups) :
    Triple (· = .new) (runGroups w ra d sha groups)
      (fun _ => Reached w ra d sha (schedule ra.repeats.toNat groups)
        (schedule ra.repeats.toNat groups))
      fun e s => e ≠ 0 ∧ Stopped w args s := by
  rw [runGroups_eq]
  refine (Triple.forM (I := fun done => Reached w ra d sha done done)
    fun done slot rest hsplit => runCell_spec).weaken ?_ (fun _ _ h => h) ?_
  · rintro s rfl
    exact ⟨written_nil, rfl, rfl⟩
  · rintro e s ⟨done, slot, rest, hsplit, he, hfails, hreached⟩
    exact ⟨he, .inr ⟨ra, d, sha, groups, done, slot, rest, h, hsplit, hfails, hreached⟩⟩

theorem Setup.unique {ra' : RunArgs} {d' : BenchmarkDef F} {sha' : String}
    (h : Setup w args ra d sha groups) (hparsed : parseRunArgs args = .ok ra')
    (hloaded : w.load ra'.defPath = .ok (d', sha')) :
    ra = ra' ∧ d = d' ∧ sha = sha' := by
  obtain rfl : ra = ra' := Except.ok.inj (h.parsed.symm.trans hparsed)
  have hdef := Except.ok.inj (h.loaded.symm.trans hloaded)
  exact ⟨rfl, congrArg Prod.fst hdef, congrArg Prod.snd hdef⟩

theorem runCmd_spec (w : World F) (args : List String) :
    Triple (· = .new) (runCmd w args) (Finished w args)
      fun e s => e ≠ 0 ∧ Stopped w args s := by
  have hnew {e : UInt8} {s : State F} (he : e ≠ 0) (hs : s = .new)
      (h : ∀ ra d sha groups, ¬ Setup w args ra d sha groups) : e ≠ 0 ∧ Stopped w args s :=
    ⟨he, .inl ⟨hs, h⟩⟩
  unfold runCmd
  refine Triple.bind ((triple_orStop 64 _).weaken (fun _ h => h) (fun _ _ h => ⟨h.2, h.1⟩)
    fun _ _ h => hnew (h.2.1 ▸ by decide) h.1 fun ra _ _ _ hsetup => h.2.2 ra hsetup.parsed)
    fun ra => Triple.assume fun hparsed => ?_
  refine Triple.bind ((triple_orStop 1 _).weaken (fun _ h => h) (fun _ _ h => ⟨h.2, h.1⟩)
    fun _ _ h => hnew (h.2.1 ▸ by decide) h.1 fun ra' d sha _ hsetup => ?_)
    fun loaded => Triple.assume fun hloaded => ?_
  · obtain rfl : ra' = ra := Except.ok.inj (hsetup.parsed.symm.trans hparsed)
    exact h.2.2 (d, sha) hsetup.loaded
  obtain ⟨d, sha⟩ := loaded
  refine Triple.bind ((triple_orStop 1 _).weaken (fun _ h => h) (fun _ _ h => ⟨h.2, h.1⟩)
    fun _ _ h => hnew (h.2.1 ▸ by decide) h.1 fun _ _ _ _ hsetup => ?_)
    fun _ => Triple.assume fun hvalid => ?_
  · obtain ⟨-, rfl, -⟩ := hsetup.unique hparsed hloaded
    exact h.2.2 () hsetup.valid
  refine Triple.bind ((triple_orAbort _).weaken (fun _ h => h) (fun _ _ h => ⟨h.2, h.1⟩)
    fun _ _ h => hnew h.2.1 h.1 fun _ _ _ _ hsetup => ?_) fun fp => Triple.assume fun hfp => ?_
  · obtain ⟨rfl, rfl, -⟩ := hsetup.unique hparsed hloaded
    obtain ⟨fp, hfp, -⟩ := hsetup.prepared
    exact h.2.2 fp hfp
  by_cases hrefused : (ra.applyPrep && !fp.tuningConsistent) = true
  · rw [if_pos hrefused]
    refine fun s hs => hnew (by decide) hs fun _ _ _ _ hsetup => ?_
    obtain ⟨rfl, rfl, -⟩ := hsetup.unique hparsed hloaded
    obtain ⟨fp', hfp', hconsistent⟩ := hsetup.prepared
    obtain rfl : fp' = fp := Except.ok.inj (hfp'.symm.trans hfp)
    rw [Bool.and_eq_true, Bool.not_eq_true'] at hrefused
    rw [hconsistent hrefused.1] at hrefused
    exact absurd hrefused.2 (by decide)
  rw [if_neg hrefused]
  have hprepared : ra.applyPrep = true → fp.tuningConsistent = true := by
    simpa using hrefused
  refine Triple.bind ((triple_orStop 1 _).weaken (fun _ h => h) (fun _ _ h => ⟨h.2, h.1⟩)
    fun _ _ h => hnew (h.2.1 ▸ by decide) h.1 fun _ _ _ _ hsetup => h.2.2 () hsetup.outDir)
    fun _ => Triple.assume fun houtDir => ?_
  cases hgroups : cellGroups d (expandCells w.sha256Hex d) ra.aSut ra.bSut with
  | none =>
    refine fun s hs => hnew (by decide) hs fun _ _ _ _ hsetup => ?_
    obtain ⟨rfl, rfl, -⟩ := hsetup.unique hparsed hloaded
    exact Option.some_ne_none _ (hsetup.groups.symm.trans hgroups)
  | some groups =>
    have hsetup : Setup w args ra d sha groups :=
      ⟨hparsed, hloaded, hvalid, ⟨fp, hfp, hprepared⟩, houtDir, hgroups⟩
    refine Triple.bind (Q := fun gs s => groups = gs ∧ s = .new) (fun s hs => ⟨rfl, hs⟩)
      fun gs => Triple.assume fun hgs => ?_
    subst hgs
    refine Triple.bind (runGroups_spec hsetup) fun _ s hs => ?_
    exact ⟨ra, d, sha, _, hsetup,
      ⟨hs.written.files, hs.written.completes, hs.written.aFiles, hs.written.bFiles⟩,
      hs.started, rfl, rfl⟩

omit [FloatText F] [Build] in
theorem exists_groups {cells : List (Cell F)} {aSut bSut : String}
    (h : cellGroups d cells aSut bSut = some groups) :
    ∃ as bs, groups = [("a", aSut, as), ("b", bSut, bs)] := by
  unfold cellGroups at h
  cases hcompare : d.compare with
  | none =>
    rw [hcompare] at h
    exact ⟨cells, cells, (Option.some.inj h).symm⟩
  | some dim =>
    rw [hcompare] at h
    obtain ⟨values, -, h⟩ := Option.bind_eq_some_iff.1 h
    obtain ⟨v0, -, h⟩ := Option.bind_eq_some_iff.1 h
    obtain ⟨v1, -, h⟩ := Option.bind_eq_some_iff.1 h
    exact ⟨_, _, (Option.some.inj h).symm⟩

theorem Setup.path_nodup (h : Setup w args ra d sha groups) :
    ((schedule ra.repeats.toNat groups).map (Slot.path · ra)).Nodup := by
  obtain ⟨as, bs, rfl⟩ := exists_groups h.groups
  refine RunCmd.path_nodup (tag_nodup (by simp)) fun slot hslot => ?_
  obtain ⟨g, hg, hslot⟩ := List.mem_flatMap.1 hslot
  simp only [groupSlots, List.mem_flatMap, List.mem_map] at hslot
  obtain ⟨c, -, i, -, rfl⟩ := hslot
  simp only [List.mem_cons, List.not_mem_nil, or_false] at hg
  rcases hg with rfl | rfl
  · exact (by decide : '_' ∉ "a".toList)
  · exact (by decide : '_' ∉ "b".toList)

theorem Written.paths {done : List (Slot F)} {s : State F} (h : Written w ra d sha done s) :
    s.files.map Prod.fst = done.map (Slot.path · ra) := by
  obtain ⟨hfiles, -, -, -⟩ := h
  generalize s.files = files at hfiles
  induction hfiles with
  | nil => rfl
  | cons hfile _ ih => rw [List.map_cons, List.map_cons, hfile.1, ih]

theorem files_nodup (h : Setup w args ra d sha groups) {done rest : List (Slot F)} {s : State F}
    (hsplit : schedule ra.repeats.toNat groups = done ++ rest)
    (hwritten : Written w ra d sha done s) : (s.files.map Prod.fst).Nodup := by
  have hnodup := h.path_nodup
  rw [hsplit, List.map_append] at hnodup
  rw [hwritten.paths]
  exact hnodup.of_append_left

/-- However its calls answer, `assayist run` drives the runs of its schedule in order, writes each
to a file of its own as it ends, stops at the first that fails with an exit status other than 0, and
starts the gate over the files of both groups once all are written, whose status it ends with. -/
theorem runs_scheduled (w : World F) (args : List String) :
    (∀ code, (outcome w args).1 = .ok code → Finished w args code (outcome w args).2) ∧
      (∀ code, (outcome w args).1 = .error code →
        code ≠ 0 ∧ Stopped w args (outcome w args).2) ∧
      ((outcome w args).2.files.map Prod.fst).Nodup := by
  have hspec : wp (runCmd w args) .new (Finished w args) fun e s => e ≠ 0 ∧ Stopped w args s :=
    runCmd_spec w args .new rfl
  unfold wp at hspec
  rw [show exec (runCmd w args) .new = outcome w args from rfl] at hspec
  generalize outcome w args = out at hspec
  obtain ⟨result, s⟩ := out
  cases result with
  | error code =>
    refine ⟨fun _ h => (nomatch h), fun _ h => Except.error.inj h ▸ hspec, ?_⟩
    rcases hspec.2 with ⟨hnew, -⟩ | ⟨ra, d, sha, groups, done, slot, rest, hsetup, hsplit, -, h⟩
    · rw [hnew]
      exact List.nodup_nil
    · obtain ⟨started, -, hreached⟩ := h
      exact files_nodup hsetup hsplit hreached.written
  | ok code =>
    refine ⟨fun _ h => Except.ok.inj h ▸ hspec, fun _ h => (nomatch h), ?_⟩
    obtain ⟨ra, d, sha, groups, hsetup, hwritten, -⟩ := hspec
    exact files_nodup hsetup (List.append_nil _).symm hwritten

end Command

section Certificate

variable [F64 F] [FloatText F] [Build] {w : World F} {args : List String} {ra : RunArgs}
  {d : BenchmarkDef F} {sha : String} {groups : List (String × String × List (Cell F))}

/-- The disk that the gate reads: the run files as they were written last. -/
def diskOf (other : Disk F) (files : List (String × AssayRun F)) : Disk F :=
  { other with
    read := fun path => match files.reverse.lookup path with
      | some run => .ok run.toJson
      | none => other.read path }

/-- The gate is the binary modelled here, started and left to run to its end. -/
def RunsGate (w : World F) (other : Disk F) : Prop :=
  ∀ argv files, ∃ stdout stderr, w.gate argv files =
    .ok ⟨.exited (gateMain (gateRun (diskOf other files) argv)), stdout, stderr⟩

theorem load_written {other : Disk F} {files part : List (String × AssayRun F)}
    (hnodup : (files.map Prod.fst).Nodup) (hpart : ∀ file ∈ part, file ∈ files)
    {slots : List (Slot F)} (h : List.Forall₂ (fun slot file => file.1 = slot.path ra ∧
      Assembles w ra d sha slot file.2) slots part) :
    (diskOf other files).load (slots.map (Slot.path · ra)) =
      Except.ok ((part.map Prod.snd).map AssayRun.toJson) := by
  have hread (file : String × AssayRun F) (hfile : file ∈ files) :
      (diskOf other files).read file.1 = Except.ok file.2.toJson := by
    have hlookup : files.reverse.lookup file.1 = some file.2 := by
      rw [Keyed.lookup_of_perm (by rwa [List.map_reverse, List.nodup_reverse])
        (List.reverse_perm files)]
      exact Keyed.lookup_of_mem hnodup hfile
    change (match files.reverse.lookup file.1 with
      | some run => Except.ok run.toJson
      | none => other.read file.1) = _
    rw [hlookup]
  unfold Disk.load
  rw [Results.mapM_eq_ok, List.map_map, List.forall₂_map_left_iff, List.forall₂_map_right_iff]
  induction h with
  | nil => exact .nil
  | cons hfile _ ih =>
    rw [List.forall_mem_cons] at hpart
    refine .cons ?_ (ih hpart.2)
    rw [← hfile.1, hread _ hpart.1]
    rfl

theorem nonempty_of_judge {mode : String} {a b : List (Json F)} {cfg : Config F} {rep : Report F}
    (h : judge mode a b cfg = .ok rep) : a ≠ [] ∧ b ≠ [] := by
  have hpair : ∃ id, Paired id a b := by
    have hgradeable := judge_ok_iff.1 ⟨rep, h⟩
    unfold Gradeable at hgradeable
    split_ifs at hgradeable
    · obtain ⟨-, id, hpair, -⟩ := hgradeable
      exact ⟨id, hpair⟩
    · exact hgradeable.2
  obtain ⟨id, hpair⟩ := hpair
  refine ⟨?_, ?_⟩
  · rintro rfl
    exact Nat.not_succ_le_zero 1 hpair.1
  · rintro rfl
    exact Nat.not_succ_le_zero 1 hpair.2

/-- The reports of the gate are those of the mode it was started in, over the groups it reads. -/
theorem gateRun_iff {disk : Disk F} {argv : List String} {rep : Report F} {as : Args F}
    (hargs : parseArgs argv = .ok as) (hmode : as.mode ∈ gateModes) (hout : as.out = "-") :
    gateRun disk argv = .ok rep ↔ ∃ a b, disk.load as.groups.1 = .ok a ∧
      disk.load as.groups.2 = .ok b ∧ judge as.mode a b as.cfg = .ok rep := by
  have hknown : ["ab_permutation", "longitudinal_drift", "subsystem_triad"].contains as.mode =
      true := List.contains_iff_mem.2 hmode
  apply Iff.intro
  · intro h
    cases ha : disk.load as.groups.1 with
    | error e =>
      simp only [gateRun, hargs, hknown, ha, if_true] at h
      cases h
    | ok a =>
      cases hb : disk.load as.groups.2 with
      | error e =>
        simp only [gateRun, hargs, hknown, ha, hb, if_true] at h
        cases h
      | ok b =>
        by_cases hempty : (a.isEmpty || b.isEmpty) = true
        · simp only [gateRun, hargs, hknown, ha, hb, if_true] at h
          change (if (a.isEmpty || b.isEmpty) = true then _ else _) = _ at h
          rw [if_pos hempty] at h
          cases h
        · have hne : a ≠ [] ∧ b ≠ [] := by simpa using hempty
          rw [gateRun_judge hargs hmode hout ha hb hne.1 hne.2] at h
          exact ⟨a, b, rfl, rfl, h⟩
  · intro h
    obtain ⟨a, b, ha, hb, hjudge⟩ := h
    obtain ⟨hane, hbne⟩ := nonempty_of_judge hjudge
    rw [gateRun_judge hargs hmode hout ha hb hane hbne, hjudge]

omit [F64 F] [FloatText F] [Build] in
theorem isPath_append {dir file : String} (hdir : IsPath dir)
    (hfile : startsWith file "-" = false) :
    IsPath (dir ++ file) := by
  unfold IsPath startsWith at *
  rw [String.toList_append]
  have hdashes : "--".toList = ['-', '-'] := rfl
  have hdash : "-".toList = ['-'] := rfl
  rw [hdashes] at hdir ⊢
  rw [hdash] at hfile
  rcases hlist' : dir.toList with _ | ⟨c, _ | ⟨c', cs⟩⟩ <;> rw [hlist'] at hdir
  · cases hlist : file.toList with
    | nil => rfl
    | cons f fs =>
      rw [hlist] at hfile
      simp only [List.isPrefixOf, Bool.and_true] at hfile
      simp [List.isPrefixOf, hfile]
  · cases hlist : file.toList with
    | nil => exact hdir
    | cons f fs =>
      rw [hlist] at hfile
      simp only [List.isPrefixOf, Bool.and_true] at hfile
      simp [List.isPrefixOf, hfile]
  · exact hdir

omit [F64 F] [FloatText F] [Build] in
theorem isPath_slot {slot : Slot F} (hdir : IsPath ra.outDir)
    (hgroup : startsWith slot.group "-" = false) (hne : slot.group ≠ "") :
    IsPath (slot.path ra) := by
  have hname : startsWith (slot.name "_" ++ ".json") "-" = false := by
    unfold startsWith Slot.name at *
    simp only [String.toList_append]
    cases hlist : slot.group.toList with
    | nil => exact absurd (String.toList_inj.1 hlist) hne
    | cons c cs =>
      rw [hlist] at hgroup
      exact hgroup
  unfold Slot.path joinPath
  split_ifs
  · exact isPath_append hdir hname
  · rw [String.append_assoc]
    refine isPath_append hdir ?_
    unfold startsWith
    rw [String.toList_append]
    rfl

omit [FloatText F] in
/-- A reproducible run was prepared in full. -/
theorem prepared_of_cellRun {runId : String} {cell : Cell F} {g : Gathered F} {run : AssayRun F}
    (h : cellRun runId d cell g = .ok run) (hgrade : run.grade = .reproducible) :
    FullyPrepared run.identity run.fingerprint := by
  obtain ⟨fp, hfp, h⟩ := Results.bind_eq_ok.1 h
  rw [← Results.pure_eq_ok.1 h] at hgrade ⊢
  split_ifs at hgrade ⊢
  · exact (assemble_reproducible.1 hgrade).1
  · exact (assemble_reproducible.1 hgrade).1

omit [F64 F] [FloatText F] [Build] in
theorem gradeOf_toJson (run : AssayRun F) : gradeOf run.toJson = run.grade.asStr := by
  have hgrade : run.toJson.getStr "grade" = some run.grade.asStr := by
    cases ho : run.outcome <;> cases hr : run.workloadReport <;>
      simp [AssayRun.toJson, Json.getStr, Json.get, Json.asStr, List.lookup_cons, optField, ho, hr]
  unfold gradeOf
  rw [hgrade]

omit [F64 F] [FloatText F] [Build] in
theorem group_of_mem {repeats : ℕ} {g : String × String × List (Cell F)} {slot : Slot F}
    (h : slot ∈ groupSlots repeats g) : slot.group = g.1 := by
  simp only [groupSlots, List.mem_flatMap, List.mem_map] at h
  obtain ⟨c, -, i, -, rfl⟩ := h
  rfl

omit [F64 F] [FloatText F] [Build] in
theorem filter_schedule {repeats : ℕ} {aSut bSut : String} {as bs : List (Cell F)} :
    ((schedule repeats [("a", aSut, as), ("b", bSut, bs)]).filter fun slot => slot.group = "a") =
        groupSlots repeats ("a", aSut, as) ∧
      ((schedule repeats [("a", aSut, as), ("b", bSut, bs)]).filter fun slot => slot.group ≠ "a") =
        groupSlots repeats ("b", bSut, bs) := by
  have ha (slot : Slot F) (h : slot ∈ groupSlots repeats ("a", aSut, as)) : slot.group = "a" :=
    group_of_mem h
  have hb (slot : Slot F) (h : slot ∈ groupSlots repeats ("b", bSut, bs)) : slot.group ≠ "a" := by
    rw [group_of_mem h]
    exact (by decide : "b" ≠ "a")
  have hsplit : schedule repeats [("a", aSut, as), ("b", bSut, bs)] =
      groupSlots repeats ("a", aSut, as) ++ groupSlots repeats ("b", bSut, bs) := by
    simp [schedule]
  rw [hsplit, List.filter_append, List.filter_append]
  refine ⟨?_, ?_⟩
  · rw [List.filter_eq_self.2 fun slot h => decide_eq_true (ha slot h),
      List.filter_eq_nil_iff.2 fun slot h => by simpa using hb slot h, List.append_nil]
  · rw [List.filter_eq_nil_iff.2 fun slot h => by simpa using ha slot h,
      List.filter_eq_self.2 fun slot h => decide_eq_true (hb slot h), List.nil_append]

/-- A mode that judged the runs has admitted them, drift apart. -/
theorem admissible_of_judge {mode : String} {a b : List (Json F)} {cfg : Config F} {rep : Report F}
    (hmode : mode ≠ "longitudinal_drift") (h : judge mode a b cfg = .ok rep) :
    Admissible a b cfg := by
  by_contra hadm
  obtain ⟨e, he⟩ := (admissionKept_iff mode a b cfg).2 (.inl hmode) hadm
  rw [h] at he
  cases he

theorem graded_of_admissible {runs : List (AssayRun F)} {slots : List (Slot F)}
    (hruns : List.Forall₂ (Assembles w ra d sha) slots runs) {a b : List (Json F)}
    {cfg : Config F} (hcfg : cfg.allowUngraded = false) (h : Admissible a b cfg)
    (hmem : ∀ run ∈ runs, run.toJson ∈ a ++ b) :
    ∀ run ∈ runs, FullyPrepared run.identity run.fingerprint := by
  intro run hrun
  obtain ⟨slot, -, plan, art, -, -, hcell⟩ := Results.exists_left hruns hrun
  have hfit := (h.1 _ (hmem run hrun)).resolve_right (by rw [hcfg]; decide)
  rw [gradeOf_toJson] at hfit
  apply prepared_of_cellRun hcell
  cases hgrade : run.grade with
  | reproducible => rfl
  | valid => rw [hgrade] at hfit; exact absurd hfit (by decide)
  | invalid => rw [hgrade] at hfit; exact absurd hfit (by decide)

structure Driven (w : World F) (args : List String) (ra : RunArgs) (d : BenchmarkDef F)
    (sha : String) (as bs : List (Cell F)) (runsA runsB : List (AssayRun F)) : Prop where
  setup : Setup w args ra d sha [("a", ra.aSut, as), ("b", ra.bSut, bs)]
  completes : ∀ slot ∈ schedule ra.repeats.toNat [("a", ra.aSut, as), ("b", ra.bSut, bs)],
    Completes w ra d sha slot
  groupA : List.Forall₂ (Assembles w ra d sha)
    (groupSlots ra.repeats.toNat ("a", ra.aSut, as)) runsA
  groupB : List.Forall₂ (Assembles w ra d sha)
    (groupSlots ra.repeats.toNat ("b", ra.bSut, bs)) runsB

theorem Assembles.unique {slot : Slot F} {run run' : AssayRun F}
    (h : Assembles w ra d sha slot run) (h' : Assembles w ra d sha slot run') : run = run' := by
  obtain ⟨plan, art, hplan, hart, hrun⟩ := h
  obtain ⟨plan', art', hplan', hart', hrun'⟩ := h'
  obtain rfl : plan = plan' := Except.ok.inj (hplan.symm.trans hplan')
  obtain rfl : art = art' := Except.ok.inj (hart.symm.trans hart')
  exact Except.ok.inj (hrun.symm.trans hrun')

theorem Driven.unique {ra' : RunArgs} {d' : BenchmarkDef F} {sha' : String}
    {as bs as' bs' : List (Cell F)} {runsA runsB runsA' runsB' : List (AssayRun F)}
    (h : Driven w args ra d sha as bs runsA runsB)
    (h' : Driven w args ra' d' sha' as' bs' runsA' runsB') :
    ra = ra' ∧ d = d' ∧ runsA = runsA' ∧ runsB = runsB' := by
  obtain ⟨rfl, rfl, rfl⟩ := h.setup.unique h'.setup.parsed h'.setup.loaded
  have hgroups := Option.some.inj (h.setup.groups.symm.trans h'.setup.groups)
  simp only [List.cons.injEq, Prod.mk.injEq, true_and, and_true] at hgroups
  obtain ⟨rfl, rfl⟩ := hgroups
  have hright : Relator.RightUnique (Assembles w ra d sha) := fun _ _ _ => Assembles.unique
  exact ⟨rfl, rfl, hright.forall₂ h.groupA h'.groupA, hright.forall₂ h.groupB h'.groupB⟩

/-- What the gate of a finished command reports: a verdict over its runs, in their groups and their
order, under the thresholds of the definition. -/
theorem Finished.reports (other : Disk F) {code : UInt8} {s : State F}
    (h : Finished w args code s) (hnodup : (s.files.map Prod.fst).Nodup)
    (hout : ∀ ra, parseRunArgs args = .ok ra → IsPath ra.outDir)
    (htext : ∀ ra d sha, parseRunArgs args = .ok ra → w.load ra.defPath = .ok (d, sha) →
      TextRoundTrips (thresholdsOf d ra.allowUngraded)) :
    ∃ ra d sha as bs runsA runsB argv, Driven w args ra d sha as bs runsA runsB ∧
      argv = gateArgv d.gate.mode s.aFiles s.bFiles (thresholdsOf d ra.allowUngraded) ∧
      code = runCmdExit (runGate w.parse w.bin (w.gate argv s.files)) ∧
      ∀ rep, gateRun (diskOf other s.files) argv = .ok rep ↔
        d.gate.mode ≠ "longitudinal_drift" ∧
          judge d.gate.mode (runsA.map AssayRun.toJson) (runsB.map AssayRun.toJson)
            (thresholdsOf d ra.allowUngraded).config = .ok rep := by
  obtain ⟨ra, d, sha, groups, hsetup, ⟨hfiles, hcompletes, haFiles, hbFiles⟩, -, -, hcode⟩ := h
  obtain ⟨as, bs, rfl⟩ := exists_groups hsetup.groups
  rw [filter_schedule.1] at haFiles
  rw [filter_schedule.2] at hbFiles
  obtain ⟨filesA, rest, hsplit, hfilesA, hrest⟩ := Results.exists_append hfiles
  obtain ⟨filesB, last, rfl, hfilesB, hlast⟩ := Results.exists_append hrest
  obtain rfl : last = [] := List.forall₂_nil_left_iff.1 hlast
  rw [List.append_nil] at hsplit
  have hrunsA : List.Forall₂ (Assembles w ra d sha) (groupSlots ra.repeats.toNat ("a", ra.aSut, as))
      (filesA.map Prod.snd) :=
    List.forall₂_map_right_iff.2 (hfilesA.imp fun _ _ h => h.2)
  have hrunsB : List.Forall₂ (Assembles w ra d sha) (groupSlots ra.repeats.toNat ("b", ra.bSut, bs))
      (filesB.map Prod.snd) :=
    List.forall₂_map_right_iff.2 (hfilesB.imp fun _ _ h => h.2)
  refine ⟨ra, d, sha, as, bs, _, _, _, ⟨hsetup, hcompletes, hrunsA, hrunsB⟩, rfl, hcode,
    fun rep => ?_⟩
  have hpathsA : ∀ p ∈ s.aFiles, IsPath p := by
    rw [haFiles]
    intro p hp
    obtain ⟨slot, hslot, rfl⟩ := List.mem_map.1 hp
    have hgroup := group_of_mem hslot
    exact isPath_slot (hout ra hsetup.parsed)
      (hgroup ▸ (by decide : startsWith "a" "-" = false)) (hgroup ▸ (by decide : "a" ≠ ""))
  have hpathsB : ∀ p ∈ s.bFiles, IsPath p := by
    rw [hbFiles]
    intro p hp
    obtain ⟨slot, hslot, rfl⟩ := List.mem_map.1 hp
    have hgroup := group_of_mem hslot
    exact isPath_slot (hout ra hsetup.parsed)
      (hgroup ▸ (by decide : startsWith "b" "-" = false)) (hgroup ▸ (by decide : "b" ≠ ""))
  have hparse := parseArgs_gateArgv d.gate.mode hpathsA hpathsB
    (htext ra d sha hsetup.parsed hsetup.loaded)
  rw [gateRun_iff hparse (mode_of_validate hsetup.valid) rfl, Args.groups]
  by_cases hmode : d.gate.mode = "longitudinal_drift"
  · -- the groups that drift reads are not among the arguments
    rw [if_pos hmode]
    refine iff_of_false (fun h => ?_) fun h => h.1 hmode
    obtain ⟨a, b, ha, -, hjudge⟩ := h
    exact (nonempty_of_judge hjudge).1 (Except.ok.inj ha).symm
  · rw [if_neg hmode]
    dsimp only
    have hmemA : ∀ file ∈ filesA, file ∈ s.files := fun file h => hsplit ▸ List.mem_append_left _ h
    have hmemB : ∀ file ∈ filesB, file ∈ s.files := fun file h => hsplit ▸ List.mem_append_right _ h
    rw [haFiles, hbFiles, load_written hnodup hmemA hfilesA, load_written hnodup hmemB hfilesB]
    apply Iff.intro
    · intro h
      obtain ⟨a, b, ha, hb, hjudge⟩ := h
      obtain rfl := Except.ok.inj ha
      obtain rfl := Except.ok.inj hb
      exact ⟨hmode, hjudge⟩
    · exact fun h => ⟨_, _, rfl, rfl, h.2⟩

/-- What exit status 0 of `assayist run` certifies: an accepted definition, each run of both groups
driven to its end, and a report of the gate over exactly these runs that passes. Each was prepared
in full, unless ungraded runs were asked for. -/
structure Certified (w : World F) (args : List String) (ra : RunArgs) (d : BenchmarkDef F)
    (sha : String) (as bs : List (Cell F)) (runsA runsB : List (AssayRun F)) : Prop where
  driven : Driven w args ra d sha as bs runsA runsB
  mode : d.gate.mode ≠ "longitudinal_drift"
  passed : ∃ rep, judge d.gate.mode (runsA.map AssayRun.toJson) (runsB.map AssayRun.toJson)
    (thresholdsOf d ra.allowUngraded).config = .ok rep ∧ rep.outcome.verdict = .pass
  graded : ra.allowUngraded = false →
    ∀ run ∈ runsA ++ runsB, FullyPrepared run.identity run.fingerprint

/-- A command that was certified has gone through its schedule. -/
theorem finished_of_driven {as bs : List (Cell F)} {runsA runsB : List (AssayRun F)}
    (h : Driven w args ra d sha as bs runsA runsB) :
    ∃ code, (outcome w args).1 = .ok code := by
  obtain ⟨-, herr, -⟩ := runs_scheduled w args
  cases hresult : (outcome w args).1 with
  | ok code => exact ⟨code, rfl⟩
  | error code =>
    rcases (herr code hresult).2 with ⟨-, hnone⟩ | hfails
    · exact absurd h.setup (hnone _ _ _ _)
    · obtain ⟨ra', d', sha', groups, done, slot, rest, hsetup, hsplit, hslot, -⟩ := hfails
      obtain ⟨rfl, rfl, rfl⟩ := h.setup.unique hsetup.parsed hsetup.loaded
      obtain rfl := Option.some.inj (h.setup.groups.symm.trans hsetup.groups)
      refine absurd (h.completes slot ?_) hslot
      rw [hsplit]
      exact List.mem_append_right _ List.mem_cons_self

/-- Where the gate runs to its end, `assayist run` exits with 0 exactly when every run of both
groups was driven to its end and the gate, which read exactly these runs in their groups and their
order under the thresholds of the definition, passed them; each was prepared in full, unless
ungraded runs were asked for. -/
theorem exit_zero_iff {other : Disk F} (hgate : RunsGate w other)
    (hout : ∀ ra, parseRunArgs args = .ok ra → IsPath ra.outDir)
    (htext : ∀ ra d sha, parseRunArgs args = .ok ra → w.load ra.defPath = .ok (d, sha) →
      TextRoundTrips (thresholdsOf d ra.allowUngraded)) :
    status w args = 0 ↔
      ∃ ra d sha as bs runsA runsB, Certified w args ra d sha as bs runsA runsB := by
  obtain ⟨hok, herr, hnodup⟩ := runs_scheduled w args
  have hzero {code : UInt8} {argv : List String} {files : List (String × AssayRun F)}
      (h : code = runCmdExit (runGate w.parse w.bin (w.gate argv files))) :
      code = 0 ↔ ∃ rep, gateRun (diskOf other files) argv = .ok rep ∧
        rep.outcome.verdict = .pass := by
    obtain ⟨stdout, stderr, hends⟩ := hgate argv files
    rw [h, hends, runCmdExit_exited]
    exact gateMain_eq_zero _
  apply Iff.intro
  · intro hstatus
    unfold status at hstatus
    cases hresult : (outcome w args).1 with
    | error code =>
      rw [hresult] at hstatus
      exact absurd hstatus (herr code hresult).1
    | ok code =>
      rw [hresult] at hstatus
      obtain ⟨ra, d, sha, as, bs, runsA, runsB, argv, hdriven, -, hcode, hreports⟩ :=
        (hok code hresult).reports other hnodup hout htext
      obtain ⟨rep, hrep, hpass⟩ := (hzero hcode).1 hstatus
      obtain ⟨hmode, hjudge⟩ := (hreports rep).1 hrep
      refine ⟨ra, d, sha, as, bs, runsA, runsB, hdriven, hmode, ⟨rep, hjudge, hpass⟩, ?_⟩
      intro hungraded
      refine graded_of_admissible (List.rel_append hdriven.groupA hdriven.groupB) hungraded
        (admissible_of_judge hmode hjudge) fun run hrun => ?_
      rw [← List.map_append]
      exact List.mem_map_of_mem hrun
  · intro h
    obtain ⟨ra, d, sha, as, bs, runsA, runsB, hdriven, hmode, ⟨rep, hjudge, hpass⟩, -⟩ := h
    obtain ⟨code, hresult⟩ := finished_of_driven hdriven
    obtain ⟨ra', d', sha', as', bs', runsA', runsB', argv, hdriven', -, hcode, hreports⟩ :=
      (hok code hresult).reports other hnodup hout htext
    obtain ⟨rfl, rfl, rfl, rfl⟩ := hdriven.unique hdriven'
    unfold status
    rw [hresult]
    exact (hzero hcode).2 ⟨rep, (hreports rep).2 ⟨hmode, hjudge⟩, hpass⟩

end Certificate

section Runs

attribute [local instance] releaseBuild

def steadyCall : Call ℚ where
  workDir := .ok ()
  nowNanos _ := 0
  env := { bareRun with workload := ⟨"1", .ok (), .ok (), .ok (.object [("latency_ms", .nat 12)])⟩ }
  versions := ⟨"0.0.0", "0.0.0"⟩
  host := evenHost
  later := evenHost
  pinningLayout := none
  runId := "run"
  write := .ok ()

def steadyWorld : World ℚ where
  load _ := .ok (gateOnly "ab_permutation", "da39a3e")
  defDir _ := ""
  sha256Hex _ := "e3b0"
  pid := 1
  sys := ⟨fun _ _ files => .ok files, ""⟩
  host := evenHost
  later := evenHost
  outDir := .ok ()
  call _ _ _ := steadyCall
  gate argv files := .ok ⟨.exited (gateMain (gateRun (diskOf noFiles files) argv)), "", ""⟩
  parse _ := none
  bin := "assayist-gate"

def steadyArgs : List String :=
  ["bench.yaml", "--repeat", "2", "--a-sut", "v2", "--b-sut", "v2", "--allow-ungraded"]

theorem relDelta_self (m : ℚ) : relDelta m m = 0 := by
  unfold relDelta
  split_ifs
  · rw [sub_self, zero_div]
  · rfl
  · simp_all

/-- Clean runs compared with themselves pass. -/
theorem pass_self {runs : List (Json ℚ)} {cfg : Config ℚ} {rep : AbReport ℚ}
    (heffect : 0 < cfg.minEffect) (h : ab runs runs cfg = .ok rep)
    (hclean : ∀ run ∈ runs, ∀ ms, reduce run = .ok ms → ∀ m ∈ ms, m.contaminated = false) :
    rep.outcome.verdict = .pass := by
  refine (verdict_clean h fun run hrun => hclean run ?_).2.2 fun ⟨id, hlisted⟩ => ?_
  · rw [List.mem_append, or_self] at hrun
    exact hrun
  · have hstrong := (listed_iff.1 ⟨rep, h, hlisted⟩).2.strong
    unfold shiftOf at hstrong
    rw [relDelta_self] at hstrong
    exact absurd heffect (not_lt.2 hstrong)

def steadyRunArgs : RunArgs :=
  { RunArgs.initial with
    defPath := "bench.yaml", repeats := 2, aSut := "v2", bSut := "v2", allowUngraded := true }

def bareCell : Cell ℚ := ⟨.object [], "e3b0"⟩

def steadyRun : Except String (AssayRun ℚ) := do
  let art ← (runOf { steadyCall.env with gadgets := [] } none).1
  (cellRun "run" (gateOnly "ab_permutation") bareCell
    (Slot.gathered ⟨"a", "v2", bareCell, 0, 0⟩ "da39a3e" steadyCall art)).mapError fun _ => ""

/-- The steady run has one latency, and nothing contaminates its metrics. -/
theorem steadyRun_sound : ∃ run, steadyRun = .ok run ∧ tenancyOf run.toJson = some "single_tenant" ∧
    ∃ ms, reduce run.toJson = .ok ms ∧ (∀ m ∈ ms, m.contaminated = false) ∧
      ∃ m ∈ ms, m.id = "workload:latency_ms" := by
  have hsound : (steadyRun.toOption.any fun run => tenancyOf run.toJson = some "single_tenant" &&
      (reduce run.toJson).toOption.any fun ms => ms.all (!·.contaminated) &&
        ms.any (·.id = "workload:latency_ms")) = true := by
    decide +kernel
  obtain ⟨run, hrun, hsound⟩ := Results.exists_of_any hsound
  rw [Bool.and_eq_true, decide_eq_true_eq] at hsound
  obtain ⟨htenancy, hsound⟩ := hsound
  obtain ⟨ms, hms, hsound⟩ := Results.exists_of_any hsound
  rw [Bool.and_eq_true, List.all_eq_true, List.any_eq_true] at hsound
  simp only [Bool.not_eq_true', decide_eq_true_eq] at hsound
  exact ⟨run, hrun, htenancy, ms, hms, hsound⟩

theorem steady_setup : Setup steadyWorld steadyArgs steadyRunArgs (gateOnly "ab_permutation")
    "da39a3e" [("a", "v2", [bareCell]), ("b", "v2", [bareCell])] where
  parsed := by decide
  loaded := rfl
  valid := by decide
  prepared := by
    have hok : (firstFingerprint steadyWorld steadyRunArgs (gateOnly "ab_permutation")).isOk =
        true := rfl
    obtain ⟨fp, hfp⟩ := Results.exists_ok hok
    exact ⟨fp, hfp, nofun⟩
  outDir := rfl
  groups := rfl

theorem steady_assembles {run : AssayRun ℚ} (hrun : steadyRun = .ok run) {slot : Slot ℚ}
    (hsut : slot.sut = "v2") (hcell : slot.cell = bareCell) :
    Assembles steadyWorld steadyRunArgs (gateOnly "ab_permutation") "da39a3e" slot run := by
  obtain ⟨art, hart, h⟩ := Results.bind_eq_ok.1 hrun
  refine ⟨[], art, rfl, hart, ?_⟩
  obtain ⟨group, sut, cell, ci, i⟩ := slot
  dsimp only at hsut hcell
  subst hsut hcell
  cases hcell : cellRun "run" (gateOnly "ab_permutation") bareCell
    (Slot.gathered ⟨"a", "v2", bareCell, 0, 0⟩ "da39a3e" steadyCall art) with
  | error e => rw [hcell] at h; cases h
  | ok run' =>
    rw [hcell] at h
    obtain rfl : run' = run := Except.ok.inj h
    exact hcell

theorem steady_completes {slot : Slot ℚ} (hsut : slot.sut = "v2") (hcell : slot.cell = bareCell) :
    Completes steadyWorld steadyRunArgs (gateOnly "ab_permutation") "da39a3e" slot := by
  obtain ⟨run, hrun, -⟩ := steadyRun_sound
  refine ⟨?_, rfl, ⟨run, steady_assembles hrun hsut hcell⟩, rfl⟩
  obtain ⟨group, sut, cell, ci, i⟩ := slot
  dsimp only at hsut hcell
  subst hsut hcell
  exact Results.exists_ok (by rfl)

theorem steady_exits_zero : status steadyWorld steadyArgs = 0 := by
  obtain ⟨run, hrun, htenancy, ms, hms, hclean, m, hm, hid⟩ := steadyRun_sound
  have hgate : RunsGate steadyWorld noFiles := fun _ _ => ⟨"", "", rfl⟩
  refine (exit_zero_iff hgate ?_ ?_).2 ?_
  · intro ra hra
    rw [← Except.ok.inj (steady_setup.parsed.symm.trans hra)]
    exact (by decide : startsWith "assayist-out" "--" = false)
  · intro ra d sha hra hload
    obtain ⟨rfl, rfl, -⟩ := steady_setup.unique hra hload
    exact ⟨by decide +kernel, by decide +kernel⟩
  have hassembles (g : String) (i : ℕ) : Assembles steadyWorld steadyRunArgs
      (gateOnly "ab_permutation") "da39a3e" ⟨g, "v2", bareCell, 0, i⟩ run :=
    steady_assembles hrun rfl rfl
  have hpair : ∃ rep, ab [run.toJson, run.toJson] [run.toJson, run.toJson]
      (thresholdsOf (gateOnly "ab_permutation") true).config = .ok rep := by
    have hmem {r : Json ℚ} (h : r ∈ [run.toJson, run.toJson] ++ [run.toJson, run.toJson]) :
        r = run.toJson := by
      simpa using h
    refine ab_ok_iff.2 ⟨⟨⟨fun r _ => .inr rfl, fun r hr r' hr' t t' ht ht' => ?_⟩, fun r hr => ?_⟩,
      "workload:latency_ms", ?_⟩
    · rw [hmem hr] at ht
      rw [hmem hr'] at ht'
      exact Option.some.inj (ht.symm.trans ht')
    · exact ⟨ms, hmem hr ▸ hms⟩
    · have hmem : m ∈ pooledMetrics "workload:latency_ms" [run.toJson] :=
        mem_pooledMetrics.2 ⟨run.toJson, List.mem_singleton_self _, ms, hms, hm, hid⟩
      have hpos := List.length_pos_of_mem hmem
      have hsplit : pooledMetrics "workload:latency_ms" [run.toJson, run.toJson] =
          pooledMetrics "workload:latency_ms" [run.toJson] ++
            pooledMetrics "workload:latency_ms" [run.toJson] :=
        @List.flatMap_append _ _ [run.toJson] [run.toJson] _
      rw [hsplit, List.length_append]
      omega
  obtain ⟨rep, hrep⟩ := hpair
  refine ⟨steadyRunArgs, gateOnly "ab_permutation", "da39a3e", [bareCell], [bareCell], [run, run],
    [run, run], ⟨steady_setup, ?_, ?_, ?_⟩, by decide, ?_, nofun⟩
  · intro slot hslot
    obtain ⟨g, hg, hslot⟩ := List.mem_flatMap.1 hslot
    simp only [groupSlots, List.mem_flatMap, List.mem_map] at hslot
    obtain ⟨c, hc, i, -, rfl⟩ := hslot
    simp only [List.mem_cons, List.not_mem_nil, or_false] at hg
    rcases hg with rfl | rfl
    · exact steady_completes rfl (congrArg Prod.fst (List.mem_singleton.1 hc))
    · exact steady_completes rfl (congrArg Prod.fst (List.mem_singleton.1 hc))
  · exact .cons (hassembles _ _) (.cons (hassembles _ _) .nil)
  · exact .cons (hassembles _ _) (.cons (hassembles _ _) .nil)
  · refine ⟨.ab rep, ?_, pass_self (by decide +kernel) hrep fun r hr ms' hms' => ?_⟩
    · exact Results.map_eq_ok.2 ⟨rep, hrep, rfl⟩
    · have hr : r = run.toJson := by simpa using hr
      rw [hr, hms] at hms'
      exact Except.ok.inj hms' ▸ hclean

end Runs

end RunCmd

end Assayist
