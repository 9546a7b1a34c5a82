import Assayist.Lib.Results
import Assayist.Spec.Def
import Assayist.Spec.HostPrep

/-! Whether a host that is reported to be tuned as asked is. The governor is written to every CPU
and read back from the first one; what a definition asks for is read from its `host_prep` block
in a few forms, and in any other form it is not asked for at all. -/

namespace Assayist

open HostPrep

deriving instance DecidableEq for TuningKnobs

section Consistent

variable {F : Type} [BEq F]

theorem beq_string_iff {s t : String} :
    Json.beq (.string s : Json F) (.string t) = true ↔ s = t := by
  rw [Json.beq, beq_iff_eq]

theorem beq_bool_iff {b c : Bool} : Json.beq (.bool b : Json F) (.bool c) = true ↔ b = c := by
  rw [Json.beq, beq_iff_eq]

/-- A field that may be missing, in front of fields with other keys, is compared by itself. -/
theorem beqFields_optField {k : String} {a b : Option (Json F)} {m n : List (String × Json F)}
    (hm : k ∉ m.map Prod.fst) (hn : k ∉ n.map Prod.fst) :
    Json.beqFields (optField k a ++ m) (optField k b ++ n) = true ↔
      Option.Rel (fun v w => v.beq w = true) a b ∧ Json.beqFields m n = true := by
  have hne {v : Json F} {l : List (String × Json F)} (hl : k ∉ l.map Prod.fst)
      (rest : List (String × Json F)) :
      Json.beqFields ((k, v) :: rest) l = false ∧ Json.beqFields l ((k, v) :: rest) = false := by
    cases l with
    | nil => exact ⟨rfl, rfl⟩
    | cons e l =>
      have hkey : k ≠ e.1 := fun h => hl (h ▸ List.mem_cons_self)
      exact ⟨by rw [Json.beqFields, beq_false_of_ne hkey]; rfl,
        by rw [Json.beqFields, beq_false_of_ne hkey.symm]; rfl⟩
  cases a with
  | none =>
    cases b with
    | none => simp [optField]
    | some w => simp [optField, (hne hm n).2]
  | some v =>
    cases b with
    | none => simp [optField, (hne hn m).1]
    | some w => simp [optField, Json.beqFields]

theorem rel_map_iff {α : Type} {f : α → Json F} (hf : ∀ x y, (f x).beq (f y) = true ↔ x = y)
    {a b : Option α} :
    Option.Rel (fun v w : Json F => v.beq w = true) (a.map f) (b.map f) ↔ a = b := by
  cases a with
  | none => cases b <;> simp
  | some x => cases b <;> simp [hf]

/-- The tuning that was asked for and that which was read back are compared knob by knob. -/
theorem toValue_beq (a b : TuningKnobs) :
    (a.toValue : Json F).beq b.toValue = true ↔ a = b := by
  obtain ⟨g, s, t⟩ := a
  obtain ⟨g', s', t'⟩ := b
  have hsmt (smt : Option Bool) (thp : Option String) :
      "cpu_governor" ∉ (optField "smt" (smt.map .bool) ++
        (optField "thp" (thp.map .string) ++ []) : List (String × Json F)).map Prod.fst := by
    cases smt <;> cases thp <;> simp [optField]
  have hthp (thp : Option String) :
      "smt" ∉ (optField "thp" (thp.map .string) ++ [] : List (String × Json F)).map Prod.fst := by
    cases thp <;> simp [optField]
  have hnil : "thp" ∉ ([] : List (String × Json F)).map Prod.fst := List.not_mem_nil
  have hfields (g : Option String) (s : Option Bool) (t : Option String) :
      (TuningKnobs.toValue ⟨g, s, t⟩ : Json F) = .object (optField "cpu_governor" (g.map .string) ++
        (optField "smt" (s.map .bool) ++ (optField "thp" (t.map .string) ++ []))) := by
    rw [List.append_nil, ← List.append_assoc]
    rfl
  rw [hfields, hfields, Json.beq, TuningKnobs.mk.injEq,
    beqFields_optField (hsmt s t) (hsmt s' t'), beqFields_optField (hthp t) (hthp t'),
    beqFields_optField hnil hnil, rel_map_iff fun _ _ => beq_string_iff,
    rel_map_iff fun _ _ => beq_bool_iff, rel_map_iff fun _ _ => beq_string_iff]
  simp [Json.beqFields]

theorem tuningConsistent_iff {facts : Facts F} {knobs readback : TuningKnobs} {tenancy : String}
    {layout : Option (Json F)} :
    (buildFingerprint facts knobs readback tenancy layout).tuningConsistent = true ↔
      readback = knobs := by
  unfold Fingerprint.tuningConsistent buildFingerprint
  rw [toValue_beq, eq_comm]

end Consistent

section Governors

/-- The online CPUs that have a cpufreq node. -/
def governed (files : HostFiles) : List String :=
  ((files.entries cpuDir).getD []).filter fun name =>
    isCpuN name && files.present (governorPath name)

def governorOf (files : HostFiles) (name : String) : Option String :=
  readTrim files (governorPath name)

def Runs (files : HostFiles) (gov : String) : Prop :=
  ∀ name ∈ governed files, governorOf files name = some gov

def Uniform (files : HostFiles) : Prop :=
  ∀ name ∈ governed files, governorOf files name = governorOf files "cpu0"

/-- A file that can be read is there, and a CPU whose node is there is listed. -/
structure Coherent (files : HostFiles) : Prop where
  readable : ∀ path s, files.read path = some s → files.present path = true
  listed : ∀ name, isCpuN name = true → files.present (governorPath name) = true →
    name ∈ (files.entries cpuDir).getD []

/-- The same CPUs with the same nodes, each with the governor it had or with `gov`. -/
structure Follows (gov : String) (files files' : HostFiles) : Prop where
  entries : files'.entries cpuDir = files.entries cpuDir
  present : ∀ name, files'.present (governorPath name) = files.present (governorPath name)
  governors : ∀ name, governorOf files' name = governorOf files name ∨
    governorOf files' name = some gov

/-- What the kernel documents of the writes of host prep: a governor that it takes is the one that
the node of the CPU reads from then on, CPUs of the same policy follow, and no CPU comes or goes;
the setting of huge pages has to do with none of this. Of the switch of SMT it says nothing. -/
structure Documented (sys : Sysfs) (known : String → String) : Prop where
  coherent : ∀ path value files files', Coherent files →
    sys.write path value files = .ok files' → Coherent files'
  governor : ∀ name gov files files', sys.write (governorPath name) gov files = .ok files' →
    Follows (known gov) files files' ∧ governorOf files' name = some (known gov)
  thp : ∀ value files files', sys.write thpEnabled value files = .ok files' →
    files'.entries cpuDir = files.entries cpuDir ∧
      (∀ name, files'.present (governorPath name) = files.present (governorPath name)) ∧
      ∀ name, governorOf files' name = governorOf files name

variable {gov : String} {a b c : HostFiles}

theorem Follows.refl (gov : String) (files : HostFiles) : Follows gov files files :=
  ⟨rfl, fun _ => rfl, fun _ => .inl rfl⟩

theorem Follows.trans (h : Follows gov a b) (h' : Follows gov b c) : Follows gov a c where
  entries := h'.entries.trans h.entries
  present name := (h'.present name).trans (h.present name)
  governors name := by
    rcases h'.governors name with hc | hc
    · rw [hc]
      exact h.governors name
    · exact .inr hc

theorem Follows.keeps (h : Follows gov a b) {name : String} (hname : governorOf a name = some gov) :
    governorOf b name = some gov := by
  rcases h.governors name with hb | hb
  · exact hb.trans hname
  · exact hb

theorem Follows.governed (h : Follows gov a b) : governed b = governed a := by
  unfold Assayist.governed
  rw [h.entries]
  simp only [h.present]

theorem writeSysfs_ok {sys : Sysfs} {path value : String} {files files' : HostFiles}
    (h : writeSysfs sys path value files = .ok files') :
    sys.write path value files = .ok files' := by
  unfold writeSysfs at h
  cases hw : sys.write path value files with
  | ok w =>
    rw [hw] at h
    exact congrArg Except.ok (Except.ok.inj h)
  | error e =>
    rw [hw] at h
    cases h

variable {sys : Sysfs} {known : String → String}

theorem setGovernorOf_spec (hsys : Documented sys known) {s s' : HostFiles × ℕ} {name : String}
    (h : setGovernorOf sys gov s name = .ok s') :
    Follows (known gov) s.1 s'.1 ∧
      (isCpuN name = true → s.1.present (governorPath name) = true →
        governorOf s'.1 name = some (known gov)) ∧
      (Coherent s.1 → Coherent s'.1) := by
  unfold setGovernorOf at h
  split_ifs at h with hnode
  · obtain ⟨files, hw, hs⟩ := Results.bind_eq_ok.1 h
    obtain rfl := Results.pure_eq_ok.1 hs
    obtain ⟨hfollows, hgov⟩ := hsys.governor name gov _ _ (writeSysfs_ok hw)
    exact ⟨hfollows, fun _ _ => hgov, fun hc => hsys.coherent _ _ _ _ hc (writeSysfs_ok hw)⟩
  · obtain rfl := Results.pure_eq_ok.1 h
    refine ⟨Follows.refl _ _, fun hcpu hpresent => ?_, id⟩
    exact absurd (Bool.and_eq_true_iff.2 ⟨hcpu, hpresent⟩) hnode

/-- All entries of the directory: every CPU among them that has a node has the governor then. -/
theorem foldlM_setGovernorOf (hsys : Documented sys known) {names : List String}
    {s s' : HostFiles × ℕ} (h : names.foldlM (setGovernorOf sys gov) s = .ok s') :
    Follows (known gov) s.1 s'.1 ∧
      (∀ name ∈ names, isCpuN name = true → s.1.present (governorPath name) = true →
        governorOf s'.1 name = some (known gov)) ∧
      (Coherent s.1 → Coherent s'.1) := by
  induction names generalizing s with
  | nil =>
    obtain rfl := Results.pure_eq_ok.1 h
    exact ⟨Follows.refl _ _, fun _ hn => absurd hn List.not_mem_nil, id⟩
  | cons name names ih =>
    rw [List.foldlM_cons] at h
    obtain ⟨t, ht, hrest⟩ := Results.bind_eq_ok.1 h
    obtain ⟨hfirst, hname, hcoherent⟩ := setGovernorOf_spec hsys ht
    obtain ⟨hfollows, hnames, hcoherent'⟩ := ih hrest
    refine ⟨hfirst.trans hfollows, fun n hn hcpu hpresent => ?_, hcoherent' ∘ hcoherent⟩
    rcases List.mem_cons.1 hn with rfl | hn
    · exact hfollows.keeps (hname hcpu hpresent)
    · exact hnames n hn hcpu ((hfirst.present n).trans hpresent)

/-- A governor that was set is what every online CPU with a node runs. -/
theorem setGovernor_runs (hsys : Documented sys known) {files files' : HostFiles}
    (h : setGovernor sys gov files = .ok files') :
    Runs files' (known gov) ∧ (Coherent files → Coherent files') := by
  unfold setGovernor at h
  cases hentries : files.entries cpuDir with
  | none =>
    rw [hentries] at h
    cases h
  | some names =>
    rw [hentries] at h
    obtain ⟨s, hs, h⟩ := Results.bind_eq_ok.1 h
    split_ifs at h
    obtain rfl := Results.pure_eq_ok.1 h
    obtain ⟨hfollows, hnames, hcoherent⟩ := foldlM_setGovernorOf hsys hs
    refine ⟨fun name hname => ?_, hcoherent⟩
    rw [hfollows.governed] at hname
    obtain ⟨hmem, hnode⟩ := List.mem_filter.1 hname
    rw [hentries] at hmem
    obtain ⟨hcpu, hpresent⟩ := Bool.and_eq_true_iff.1 hnode
    exact hnames name hmem hcpu hpresent

theorem mem_governed (h : Coherent a) {name : String} (hcpu : isCpuN name = true)
    (hread : governorOf a name ≠ none) : name ∈ governed a := by
  obtain ⟨g, hg⟩ := Option.ne_none_iff_exists'.1 hread
  obtain ⟨text, htext, -⟩ := Option.map_eq_some_iff.1 hg
  have hpresent := h.readable _ _ htext
  exact List.mem_filter.2 ⟨h.listed name hcpu hpresent, Bool.and_eq_true_iff.2 ⟨hcpu, hpresent⟩⟩

end Governors

section Prepared

variable {sys : Sysfs} {known : String → String} {knobs : TuningKnobs}
  {gov tenancy : String} {files later tuned : HostFiles}

/-- Where the governor reads back as asked, all CPUs run it just where none runs another than the
first one. -/
theorem runs_iff_uniform (hgov : knobs.cpuGovernor = some gov)
    (hread : readTuning files knobs = knobs) : Runs files gov ↔ Uniform files := by
  have hfirst : governorOf files "cpu0" = some gov := by
    have hknob := congrArg TuningKnobs.cpuGovernor hread
    unfold readTuning at hknob
    rw [hgov] at hknob
    exact hknob
  unfold Runs Uniform
  rw [hfirst]

/-- Where SMT is not switched, the CPUs that the governor was written to are those there are. -/
theorem runs_of_no_switch (hsys : Documented sys known) (hfiles : Coherent files)
    (hgov : knobs.cpuGovernor = some gov) (hsmt : knobs.smt = none)
    (htuned : applyTuning sys knobs files = .ok tuned) (hread : readTuning tuned knobs = knobs) :
    Runs tuned gov := by
  unfold applyTuning at htuned
  rw [hgov, hsmt] at htuned
  obtain ⟨set, hset, htuned⟩ := Results.bind_eq_ok.1 htuned
  obtain ⟨hruns, hcoherent⟩ := setGovernor_runs hsys hset
  have hall : Runs tuned (known gov) ∧ Coherent tuned := by
    cases hthp : knobs.thp with
    | none =>
      rw [hthp] at htuned
      obtain rfl := Results.pure_eq_ok.1 htuned
      exact ⟨hruns, hcoherent hfiles⟩
    | some thp =>
      rw [hthp] at htuned
      have hw := writeSysfs_ok htuned
      obtain ⟨hentries, hpresent, hsame⟩ := hsys.thp _ _ _ hw
      have hgoverned : governed tuned = governed set := by
        unfold governed
        rw [hentries]
        simp only [hpresent]
      refine ⟨fun name hname => ?_, hsys.coherent _ _ _ _ (hcoherent hfiles) hw⟩
      rw [hsame]
      exact hruns name (hgoverned ▸ hname)
  have hfirst : governorOf tuned "cpu0" = some gov := by
    have hknob := congrArg TuningKnobs.cpuGovernor hread
    unfold readTuning at hknob
    rw [hgov] at hknob
    exact hknob
  have hmem : "cpu0" ∈ governed tuned := by
    apply mem_governed hall.2 (by decide)
    rw [hfirst]
    exact Option.some_ne_none gov
  have hknown : known gov = gov :=
    Option.some.inj ((hall.1 "cpu0" hmem).symm.trans hfirst)
  rw [← hknown]
  exact hall.1

variable {F : Type} [BEq F] [Build]

theorem observe_consistent_iff (hgov : knobs.cpuGovernor = some gov) :
    (∀ fp : Fingerprint F, observe files later knobs tenancy = .ok fp →
        fp.tuningConsistent = true → Runs later gov) ↔
      ((∃ found : Facts F, facts files = .ok found) → readTuning later knobs = knobs →
        Uniform later) := by
  apply Iff.intro
  · rintro h ⟨found, hfound⟩ hread
    have hfp : observe files later knobs tenancy =
        .ok (buildFingerprint found knobs (readTuning later knobs) tenancy none) := by
      unfold observe
      rw [hfound]
      rfl
    exact (runs_iff_uniform hgov hread).1 (h _ hfp (tuningConsistent_iff.2 hread))
  · intro h fp hfp hconsistent
    obtain ⟨found, hfound, hfp⟩ := Results.bind_eq_ok.1 hfp
    obtain rfl := Results.pure_eq_ok.1 hfp
    have hread := tuningConsistent_iff.1 hconsistent
    exact (runs_iff_uniform hgov hread).2 (h ⟨found, hfound⟩ hread)

theorem prepare_consistent_iff (hsys : Documented sys known) (hfiles : Coherent files)
    (hgov : knobs.cpuGovernor = some gov) :
    (∀ tuned, applyTuning sys knobs files = .ok tuned → ∀ fp : Fingerprint F,
        prepare sys files knobs tenancy = .ok fp → fp.tuningConsistent = true →
          Runs tuned gov) ↔
      (knobs.smt ≠ none → ∀ tuned, applyTuning sys knobs files = .ok tuned →
        (∃ found : Facts F, facts tuned = .ok found) → readTuning tuned knobs = knobs →
          Uniform tuned) := by
  apply Iff.intro
  · rintro h - tuned htuned ⟨found, hfound⟩ hread
    have hfp : prepare sys files knobs tenancy =
        .ok (buildFingerprint found knobs (readTuning tuned knobs) tenancy none) := by
      unfold prepare
      rw [htuned]
      change (do let facts ← facts tuned; _) = _
      rw [hfound]
      rfl
    exact (runs_iff_uniform hgov hread).1 (h tuned htuned _ hfp (tuningConsistent_iff.2 hread))
  · intro h tuned htuned fp hfp hconsistent
    obtain ⟨tuned', htuned', hfp⟩ := Results.bind_eq_ok.1 hfp
    obtain rfl := Except.ok.inj (htuned'.symm.trans htuned)
    obtain ⟨found, hfound, hfp⟩ := Results.bind_eq_ok.1 hfp
    obtain rfl := Results.pure_eq_ok.1 hfp
    have hread := tuningConsistent_iff.1 hconsistent
    cases hsmt : knobs.smt with
    | none => exact runs_of_no_switch hsys hfiles hgov hsmt htuned hread
    | some on =>
      have hswitched : knobs.smt ≠ none := by
        rw [hsmt]
        exact Option.some_ne_none on
      exact (runs_iff_uniform hgov hread).2 (h hswitched _ htuned ⟨found, hfound⟩ hread)

/-- A fingerprint whose tuning is consistent is of a host whose online CPUs all run the governor
that was asked for just where, for an observed host, no CPU runs another governor than the first
one while that one's is as asked, and for a prepared one, this is so of the host that a switch of
SMT leaves, if one is asked for. -/
theorem consistent_runs_iff (hsys : Documented sys known) (hfiles : Coherent files)
    (hgov : knobs.cpuGovernor = some gov) :
    ((∀ fp : Fingerprint F, observe files later knobs tenancy = .ok fp →
        fp.tuningConsistent = true → Runs later gov) ↔
      ((∃ found : Facts F, facts files = .ok found) → readTuning later knobs = knobs →
        Uniform later)) ∧
    ((∀ tuned, applyTuning sys knobs files = .ok tuned → ∀ fp : Fingerprint F,
        prepare sys files knobs tenancy = .ok fp → fp.tuningConsistent = true →
          Runs tuned gov) ↔
      (knobs.smt ≠ none → ∀ tuned, applyTuning sys knobs files = .ok tuned →
        (∃ found : Facts F, facts tuned = .ok found) → readTuning tuned knobs = knobs →
          Uniform tuned)) :=
  ⟨observe_consistent_iff hgov, prepare_consistent_iff hsys hfiles hgov⟩

end Prepared

section Asked

variable {F : Type}

/-- A value that says yes or no in one of the ways that YAML leaves it. -/
inductive Spells : Json F → Bool → Prop
  | bool (b : Bool) : Spells (.bool b) b
  | yes (s : String) (h : String.ofList (s.toList.map Char.toLower) ∈ ["on", "yes", "true", "1"]) :
    Spells (.string s) true
  | no (s : String) (h : String.ofList (s.toList.map Char.toLower) ∈ ["off", "no", "false", "0"]) :
    Spells (.string s) false

/-- Each knob of a block that is not null is asked for as it stands: in the tuning that is
requested, or as the directive to pin. -/
structure Reflected (v : Json F) : Prop where
  governor : ∀ x, v.get "cpu_governor" = some x → x.isNull = false →
    ((fromValue v).knobs.toValue : Json F).get "cpu_governor" = some x
  smt : ∀ x, v.get "smt" = some x → x.isNull = false →
    ∃ b, Spells x b ∧ ((fromValue v).knobs.toValue : Json F).get "smt" = some (.bool b)
  thp : ∀ x, v.get "thp" = some x → x.isNull = false →
    ((fromValue v).knobs.toValue : Json F).get "thp" = some x
  pinThreads : ∀ x, v.get "pin_threads" = some x → x.isNull = false →
    ∃ b, Spells x b ∧ (fromValue v).pinThreads = b

/-- The governor and the huge pages are named by a string, and the others say yes or no. -/
structure InForm (v : Json F) : Prop where
  governor : ∀ x, v.get "cpu_governor" = some x → x.isNull = false → ∃ s, x = .string s
  smt : ∀ x, v.get "smt" = some x → x.isNull = false → ∃ b, Spells x b
  thp : ∀ x, v.get "thp" = some x → x.isNull = false → ∃ s, x = .string s
  pinThreads : ∀ x, v.get "pin_threads" = some x → x.isNull = false → ∃ b, Spells x b

theorem asBool_eq_some_iff {x : Json F} {b : Bool} : asBool x = some b ↔ Spells x b := by
  apply Iff.intro
  · intro h
    unfold asBool at h
    split at h
    · rw [← Option.some.inj h]
      exact .bool _
    · dsimp only at h
      split_ifs at h with hyes hno
      · rw [← Option.some.inj h]
        exact .yes _ (List.contains_iff_mem.1 hyes)
      · rw [← Option.some.inj h]
        exact .no _ (List.contains_iff_mem.1 hno)
    · cases h
  · intro h
    cases h with
    | bool b => rfl
    | yes s h =>
      unfold asBool
      dsimp only
      rw [if_pos (List.contains_iff_mem.2 h)]
    | no s h =>
      have hyes : String.ofList (s.toList.map Char.toLower) ∉ ["on", "yes", "true", "1"] := by
        intro hyes
        have hapart : ∀ w ∈ ["on", "yes", "true", "1"], w ∉ ["off", "no", "false", "0"] := by
          decide
        exact hapart _ hyes h
      unfold asBool
      dsimp only
      rw [if_neg (fun hc => hyes (List.contains_iff_mem.1 hc)), if_pos (List.contains_iff_mem.2 h)]

/-- What the requested tuning says of each knob. -/
theorem get_toValue (knobs : TuningKnobs) :
    (knobs.toValue : Json F).get "cpu_governor" = knobs.cpuGovernor.map .string ∧
      (knobs.toValue : Json F).get "smt" = knobs.smt.map .bool ∧
      (knobs.toValue : Json F).get "thp" = knobs.thp.map .string := by
  obtain ⟨g, s, t⟩ := knobs
  rcases g with _ | g <;> rcases s with _ | s <;> rcases t with _ | t <;> exact ⟨rfl, rfl, rfl⟩

theorem named_iff {v x : Json F} {key : String} (hx : v.get key = some x) :
    (v.getStr key).map Json.string = some x ↔ ∃ s, x = .string s := by
  unfold Json.getStr
  rw [hx, Option.bind_some]
  cases x with
  | string s => exact iff_of_true rfl ⟨s, rfl⟩
  | null => exact iff_of_false (fun h => nomatch h) (fun ⟨_, h⟩ => nomatch h)
  | bool b => exact iff_of_false (fun h => nomatch h) (fun ⟨_, h⟩ => nomatch h)
  | number n => exact iff_of_false (fun h => nomatch h) (fun ⟨_, h⟩ => nomatch h)
  | array xs => exact iff_of_false (fun h => nomatch h) (fun ⟨_, h⟩ => nomatch h)
  | object m => exact iff_of_false (fun h => nomatch h) (fun ⟨_, h⟩ => nomatch h)

theorem reflected_iff (v : Json F) : Reflected v ↔ InForm v := by
  obtain ⟨hgovernor, hsmt, hthp⟩ := get_toValue (F := F) (fromValue v).knobs
  have hparsed {x : Json F} {b : Bool} {key : String} (hx : v.get key = some x) (hb : Spells x b) :
      (v.get key).bind asBool = some b := by
    rw [hx, Option.bind_some]
    exact asBool_eq_some_iff.2 hb
  apply Iff.intro
  · intro h
    refine ⟨fun x hx hnull => ?_, fun x hx hnull => ?_, fun x hx hnull => ?_, fun x hx hnull => ?_⟩
    · exact (named_iff hx).1 (hgovernor.symm.trans (h.governor x hx hnull))
    · obtain ⟨b, hb, -⟩ := h.smt x hx hnull
      exact ⟨b, hb⟩
    · exact (named_iff hx).1 (hthp.symm.trans (h.thp x hx hnull))
    · obtain ⟨b, hb, -⟩ := h.pinThreads x hx hnull
      exact ⟨b, hb⟩
  · intro h
    refine ⟨fun x hx hnull => ?_, fun x hx hnull => ?_, fun x hx hnull => ?_, fun x hx hnull => ?_⟩
    · exact hgovernor.trans ((named_iff hx).2 (h.governor x hx hnull))
    · obtain ⟨b, hb⟩ := h.smt x hx hnull
      exact ⟨b, hb, hsmt.trans (congrArg (Option.map Json.bool) (hparsed hx hb))⟩
    · exact hthp.trans ((named_iff hx).2 (h.thp x hx hnull))
    · obtain ⟨b, hb⟩ := h.pinThreads x hx hnull
      exact ⟨b, hb, congrArg (Option.getD · false) (hparsed hx hb)⟩

/-- The knobs of a block are asked for as they stand, or the definition is rejected, just where
each of them that is not null has a form that is read, or the definition is rejected. -/
theorem host_prep_reflected_iff (d : BenchmarkDef F) :
    (d.validate = .ok () → Reflected d.hostPrep) ↔ (d.validate = .ok () → InForm d.hostPrep) := by
  rw [reflected_iff]

/-- What is not asked for is not compared: no knobs are always consistent. -/
theorem consistent_of_dropped [BEq F] [Build] {v : Json F} {files later : HostFiles}
    {tenancy : String} {fp : Fingerprint F} (hgovernor : v.getStr "cpu_governor" = none)
    (hsmt : (v.get "smt").bind asBool = none) (hthp : v.getStr "thp" = none)
    (h : observe files later (knobsOf v) tenancy = .ok fp) : fp.tuningConsistent = true := by
  obtain ⟨found, -, hfp⟩ := Results.bind_eq_ok.1 h
  obtain rfl := Results.pure_eq_ok.1 hfp
  rw [tuningConsistent_iff]
  unfold readTuning knobsOf
  rw [hgovernor, hsmt, hthp]
  rfl

end Asked

section Hosts

attribute [local instance] releaseBuild

/-- A definition that asks for SMT to be off by a number. -/
def smtZero : BenchmarkDef ℚ where
  apiVersion := "assayist/v0"
  name := "bench"
  target := ⟨"firecracker", "1", [], []⟩
  workload := ⟨"fio", "3", [], []⟩
  gate := ⟨"ab_permutation", none, none, none, []⟩
  parameterise := []
  compare := none
  capture := []
  hostPrep := .object [("smt", .nat 0)]
  tenancy := "single_tenant"

/-- It loads, SMT is not asked for, and whatever the host does is consistent with that. -/
theorem smtZero_dropped :
    ¬ (smtZero.validate = .ok () → Reflected smtZero.hostPrep) ∧
      ∀ (files later : HostFiles) (fp : Fingerprint ℚ),
        observe files later (knobsOf smtZero.hostPrep) "single_tenant" = .ok fp →
          fp.tuningConsistent = true := by
  apply And.intro
  · intro h
    obtain ⟨b, hb, -⟩ := (h rfl).smt (.nat 0) rfl rfl
    cases hb
  · intro files later fp hfp
    exact consistent_of_dropped rfl rfl rfl hfp

/-- A kernel whose nodes read what was written to them, and which takes anything. -/
def plainSysfs : Sysfs where
  write path value files :=
    if files.present path then
      .ok { files with read := fun p => if p = path then some value else files.read p }
    else .error "No such file or directory (os error 2)"
  listError := "No such file or directory (os error 2)"

theorem documented_plainSysfs : Documented plainSysfs trim where
  coherent path value files files' hc hw := by
    unfold plainSysfs at hw
    dsimp only at hw
    split_ifs at hw with hpresent
    obtain rfl := Except.ok.inj hw
    refine ⟨fun p s hs => ?_, hc.listed⟩
    dsimp only at hs ⊢
    split_ifs at hs with hp
    · rw [hp]
      exact hpresent
    · exact hc.readable p s hs
  governor name gov files files' hw := by
    unfold plainSysfs at hw
    dsimp only at hw
    split_ifs at hw
    obtain rfl := Except.ok.inj hw
    refine ⟨⟨rfl, fun _ => rfl, fun n => ?_⟩, ?_⟩
    · unfold governorOf readTrim
      dsimp only
      split_ifs
      · exact .inr rfl
      · exact .inl rfl
    · unfold governorOf readTrim
      dsimp only
      rw [if_pos rfl]
      rfl
  thp value files files' hw := by
    unfold plainSysfs at hw
    dsimp only at hw
    split_ifs at hw
    obtain rfl := Except.ok.inj hw
    refine ⟨rfl, fun _ => rfl, fun n => ?_⟩
    have hne : governorPath n ≠ thpEnabled := by
      intro h
      have hfirst := congrArg (fun s : String => s.toList.take 6) h
      unfold governorPath thpEnabled cpuDir at hfirst
      simp at hfirst
    unfold governorOf readTrim
    dsimp only
    rw [if_neg hne]

/-- A host of CPUs with their governors, and little more than a name, a kernel and some memory. -/
def cpuHost (governors : List (String × String)) : HostFiles where
  read path := (governors.map (fun e => (governorPath e.1, e.2)) ++
    [("/proc/sys/kernel/hostname", "bench0"), ("/proc/sys/kernel/osrelease", "6.8.0"),
      ("/proc/meminfo", "MemTotal: 16384 kB")]).lookup path
  entries dir := if dir = cpuDir then some (governors.map Prod.fst) else none
  present path := path ∈ governors.map (fun e => governorPath e.1) ++
    ["/proc/sys/kernel/hostname", "/proc/sys/kernel/osrelease", "/proc/meminfo"]

def evenHost : HostFiles := cpuHost [("cpu0", "performance"), ("cpu1", "performance")]

def unevenHost : HostFiles := cpuHost [("cpu0", "performance"), ("cpu1", "powersave")]

def performance : TuningKnobs := ⟨some "performance", none, none⟩

theorem governorPath_inj {m n : String} (h : governorPath m = governorPath n) : m = n := by
  have hl := congrArg String.toList h
  unfold governorPath at hl
  simp only [String.toList_append, List.append_assoc] at hl
  exact String.toList_inj.1 (List.append_cancel_right
    (List.append_cancel_left (List.append_cancel_left hl)))

theorem coherent_cpuHost (governors : List (String × String)) : Coherent (cpuHost governors) where
  readable path s hs := by
    unfold cpuHost at hs ⊢
    dsimp only at hs
    obtain ⟨l, r, heq, -⟩ := List.lookup_eq_some_iff.1 hs
    have hmem := congrArg (fun m : List (String × String) => path ∈ m.map Prod.fst) heq
    rw [List.map_append, List.map_map, List.map_append, List.map_cons] at hmem
    rw [decide_eq_true_iff]
    exact hmem.mpr (List.mem_append_right _ List.mem_cons_self)
  listed name _ hpresent := by
    unfold cpuHost at hpresent ⊢
    dsimp only at hpresent ⊢
    rw [decide_eq_true_iff, List.mem_append] at hpresent
    rw [if_pos rfl, Option.getD_some]
    rcases hpresent with h | h
    · obtain ⟨e, he, hname⟩ := List.mem_map.1 h
      rw [← governorPath_inj hname]
      exact List.mem_map_of_mem he
    · -- no node of a CPU is below `/proc`
      have hproc : ∀ path ∈ ["/proc/sys/kernel/hostname", "/proc/sys/kernel/osrelease",
          "/proc/meminfo"], path.toList.take 2 = ['/', 'p'] := by decide
      have hsys : (governorPath name).toList.take 2 = ['/', 's'] := by
        unfold governorPath cpuDir
        simp
      exact absurd (hsys.symm.trans (hproc _ h)) (by decide)

theorem facts_cpuHost : (facts evenHost : Except Abort (Facts ℚ)).isOk = true ∧
    (facts unevenHost : Except Abort (Facts ℚ)).isOk = true := by
  decide +kernel

theorem consistent_runs_iff_even :
    Documented plainSysfs trim ∧ Coherent evenHost ∧ performance.cpuGovernor = some "performance" ∧
    ((∀ fp : Fingerprint ℚ, observe evenHost evenHost performance "single_tenant" = .ok fp →
        fp.tuningConsistent = true → Runs evenHost "performance") ↔
      ((∃ found : Facts ℚ, facts evenHost = .ok found) →
        readTuning evenHost performance = performance → Uniform evenHost)) ∧
    ((∀ tuned, applyTuning plainSysfs performance evenHost = .ok tuned → ∀ fp : Fingerprint ℚ,
        prepare plainSysfs evenHost performance "single_tenant" = .ok fp →
          fp.tuningConsistent = true → Runs tuned "performance") ↔
      (performance.smt ≠ none → ∀ tuned, applyTuning plainSysfs performance evenHost = .ok tuned →
        (∃ found : Facts ℚ, facts tuned = .ok found) →
          readTuning tuned performance = performance → Uniform tuned)) :=
  ⟨documented_plainSysfs, coherent_cpuHost _, rfl,
    consistent_runs_iff documented_plainSysfs (coherent_cpuHost _) rfl⟩

/-- The second CPU runs another governor, and the first one is asked. -/
theorem consistent_uneven :
    ¬ ∀ (files : HostFiles) (knobs : TuningKnobs) (gov tenancy : String) (fp : Fingerprint ℚ),
      knobs.cpuGovernor = some gov → observe files files knobs tenancy = .ok fp →
        fp.tuningConsistent = true → Runs files gov := by
  intro h
  have huniform : Uniform unevenHost :=
    (observe_consistent_iff rfl).1
      (fun fp hfp hc => h unevenHost performance "performance" "single_tenant" fp rfl hfp hc)
      (Results.exists_ok facts_cpuHost.2) (by decide +kernel)
  exact absurd (huniform "cpu1" (by decide +kernel)) (by decide +kernel)

end Hosts

end Assayist
