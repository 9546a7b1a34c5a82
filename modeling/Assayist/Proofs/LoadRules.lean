import Assayist.Lib.Rules
import Assayist.Proofs.Accepted

/-! The load-time rules of the contract against what `validate` checks: it finds every problem
but one, a key source that the contract does not have. -/

namespace Assayist

section LoadRules

def keySources : List String :=
  ["vcpu_pid_map", "cgroup_id", "guest_index", "device", "netdev", "vm_id"]

/-- What the contract asks of one capture entry. -/
inductive EntryRule where
  | cardClass
  | keySource
  | maxKeys
  | attach
  | hotPath
  deriving DecidableEq

def EntryRule.all : List EntryRule := [.cardClass, .keySource, .maxKeys, .attach, .hotPath]

def EntryRule.Holds (c : CaptureEntry) : EntryRule → Prop
  | .cardClass => c.cardinality.cls ∈ cardClasses
  | .keySource => c.cardinality.cls = "bounded" → ∃ s ∈ c.cardinality.keySource, s ∈ keySources
  | .maxKeys => c.cardinality.cls = "bounded" → ∃ n ∈ c.cardinality.maxKeys, 0 < n
  | .attach => ∀ a ∈ c.attach, a ∈ attachKinds
  | .hotPath => ¬ (c.attach = some "uprobe" ∧ c.hotPath)

instance (c : CaptureEntry) : DecidablePred (EntryRule.Holds c)
  | .cardClass => inferInstanceAs (Decidable (_ ∈ _))
  | .keySource => inferInstanceAs (Decidable (_ → ∃ s ∈ c.cardinality.keySource, s ∈ keySources))
  | .maxKeys => inferInstanceAs (Decidable (_ → ∃ n ∈ c.cardinality.maxKeys, 0 < n))
  | .attach => inferInstanceAs (Decidable (∀ a ∈ c.attach, a ∈ attachKinds))
  | .hotPath => inferInstanceAs (Decidable (¬ _))

def EntryRule.subject : EntryRule → String
  | .cardClass => "cardinality.class '"
  | .keySource => "key_source"
  | .maxKeys => "max_keys"
  | .attach => "attach '"
  | .hotPath => "uprobe"

/-- What the contract asks of a definition, and of each of its capture entries. -/
inductive LoadRule where
  | gateMode
  | tenancy
  | compare
  | entry (c : CaptureEntry) (r : EntryRule)

variable {F : Type}

def LoadRule.Holds (d : BenchmarkDef F) : LoadRule → Prop
  | .gateMode => d.gate.mode ∈ gateModes
  | .tenancy => d.tenancy ∈ tenancies
  | .compare => ∀ dim ∈ d.compare, ∃ values ∈ d.parameterise.lookup dim, values.length = 2
  | .entry c r => r.Holds c

instance (d : BenchmarkDef F) : DecidablePred (LoadRule.Holds d)
  | .gateMode => inferInstanceAs (Decidable (_ ∈ _))
  | .tenancy => inferInstanceAs (Decidable (_ ∈ _))
  | .compare => inferInstanceAs (Decidable
      (∀ dim ∈ d.compare, ∃ values ∈ d.parameterise.lookup dim, values.length = 2))
  | .entry c r => inferInstanceAs (Decidable (r.Holds c))

/-- The message is about the rule: it names what the rule is about, and the capture entry it
is about where there is one. -/
def LoadRule.About (m : String) : LoadRule → Prop
  | .gateMode => ∃ more, m = "gate.mode '" ++ more
  | .tenancy => ∃ more, m = "tenancy '" ++ more
  | .compare => ∃ more, m = "compare '" ++ more
  | .entry c r => ∃ what more, m = "capture '" ++ c.probe ++ "': " ++ what ++ r.subject ++ more

/-- The load-time rules for a definition: those for itself, then those for each entry. -/
def loadRules (d : BenchmarkDef F) : List LoadRule :=
  [.gateMode, .tenancy, .compare] ++
    d.capture.flatMap fun c => EntryRule.all.map (LoadRule.entry c)

def EntryRule.messages (c : CaptureEntry) : EntryRule → List String
  | .cardClass =>
    if cardClasses.contains c.cardinality.cls then []
    else ["capture '" ++ c.probe ++ "'" ++ ": cardinality.class '" ++ c.cardinality.cls ++
      "' unknown (want singleton or bounded; unbounded is rejected by design)"]
  | .keySource =>
    if c.cardinality.cls = "bounded" ∧ c.cardinality.keySource.isNone then
      ["capture '" ++ c.probe ++ "'" ++ ": bounded cardinality needs a key_source"]
    else []
  | .maxKeys =>
    if c.cardinality.cls = "bounded" then
      match c.cardinality.maxKeys with
      | none => ["capture '" ++ c.probe ++ "'" ++ ": bounded cardinality needs max_keys"]
      | some n =>
        if n = 0 then
          ["capture '" ++ c.probe ++ "'" ++ ": bounded cardinality max_keys must be > 0"]
        else []
    else []
  | .attach =>
    match c.attach with
    | some a =>
      if attachKinds.contains a then []
      else ["capture '" ++ c.probe ++ "'" ++ ": attach '" ++ a ++ "'" ++ wantOneOf attachKinds]
    | none => []
  | .hotPath =>
    if c.attach = some "uprobe" ∧ c.hotPath then
      ["capture '" ++ c.probe ++ "'" ++
        ": uprobe on a hot path is banned (dual context switch); sample off the hot path " ++
        "instead"]
    else []

/-- A bounded entry is asked for a key source, then for its number of keys. -/
theorem messages_bounded (c : CaptureEntry) :
    EntryRule.messages c .keySource ++ EntryRule.messages c .maxKeys =
      if c.cardinality.cls = "bounded" then
        (if c.cardinality.keySource.isNone then
          ["capture '" ++ c.probe ++ "'" ++ ": bounded cardinality needs a key_source"]
        else []) ++
        match c.cardinality.maxKeys with
        | none => ["capture '" ++ c.probe ++ "'" ++ ": bounded cardinality needs max_keys"]
        | some n =>
          if n = 0 then
            ["capture '" ++ c.probe ++ "'" ++ ": bounded cardinality max_keys must be > 0"]
          else []
      else [] := by
  by_cases hbounded : c.cardinality.cls = "bounded"
  · have hsource : EntryRule.messages c .keySource =
        if c.cardinality.keySource.isNone then
          ["capture '" ++ c.probe ++ "'" ++ ": bounded cardinality needs a key_source"]
        else [] := by
      by_cases hnone : c.cardinality.keySource.isNone
      · exact (if_pos ⟨hbounded, hnone⟩).trans (if_pos hnone).symm
      · exact (if_neg fun h => hnone h.2).trans (if_neg hnone).symm
    rw [hsource, if_pos hbounded]
    exact congrArg _ (if_pos hbounded)
  · have hsource : EntryRule.messages c .keySource = [] := if_neg fun h => hbounded h.1
    have hkeys : EntryRule.messages c .maxKeys = [] := if_neg hbounded
    rw [hsource, hkeys, if_neg hbounded]
    rfl

theorem captureErrors_eq (c : CaptureEntry) :
    captureErrors c = EntryRule.all.flatMap (EntryRule.messages c) := by
  calc captureErrors c
      = EntryRule.messages c .cardClass ++ (EntryRule.messages c .keySource ++
          EntryRule.messages c .maxKeys) ++ EntryRule.messages c .attach ++
          EntryRule.messages c .hotPath := by
        rw [messages_bounded]
        rfl
    _ = EntryRule.all.flatMap (EntryRule.messages c) := by
        simp only [EntryRule.all, List.flatMap_cons, List.flatMap_nil, List.append_nil,
          List.append_assoc]

/-- What a rule makes `validate` say. -/
def LoadRule.messages (d : BenchmarkDef F) : LoadRule → List String
  | .gateMode => modeErrors d
  | .tenancy => tenancyErrors d
  | .compare => compareErrors d
  | .entry c r => r.messages c

theorem defErrors_eq (d : BenchmarkDef F) :
    defErrors d = (loadRules d).flatMap (LoadRule.messages d) := by
  have hentries : d.capture.flatMap captureErrors =
      (d.capture.flatMap fun c => EntryRule.all.map (LoadRule.entry c)).flatMap
        (LoadRule.messages d) := by
    rw [List.flatMap_assoc]
    refine List.flatMap_congr fun c _ => ?_
    rw [captureErrors_eq, List.flatMap_map]
    rfl
  rw [loadRules, List.flatMap_append, ← hentries, defErrors]
  simp only [List.flatMap_cons, List.flatMap_nil, List.append_nil, List.append_assoc]
  rfl

/-- The rule says what is wrong with the definition, and only that. -/
abbrev LoadRule.Checked (d : BenchmarkDef F) (r : LoadRule) : Prop :=
  Rules.Loud (LoadRule.Holds d) (fun r m => r.About m) (LoadRule.messages d) r

variable {d : BenchmarkDef F} {c : CaptureEntry}

theorem checked_gateMode : LoadRule.Checked d .gateMode where
  quiet h := if_pos (List.contains_iff_mem.2 h)
  speaks h := ⟨_, if_neg fun hmode => h (List.contains_iff_mem.1 hmode),
    d.gate.mode ++ "'" ++ wantOneOf gateModes, by simp only [String.append_assoc]⟩

theorem checked_tenancy : LoadRule.Checked d .tenancy where
  quiet h := if_pos (List.contains_iff_mem.2 h)
  speaks h := ⟨_, if_neg fun htenancy => h (List.contains_iff_mem.1 htenancy),
    d.tenancy ++ "'" ++ wantOneOf tenancies, by simp only [String.append_assoc]⟩

theorem checked_compare : LoadRule.Checked d .compare := by
  refine ⟨?_, ?_⟩
  · intro h
    unfold LoadRule.messages compareErrors
    cases hdim : d.compare with
    | none => rfl
    | some dim =>
      obtain ⟨values, hvalues, hlen⟩ := h dim hdim
      dsimp only
      rw [Option.mem_def.1 hvalues]
      exact if_neg fun hne => hne hlen
  · intro h
    unfold LoadRule.messages compareErrors
    cases hdim : d.compare with
    | none =>
      refine absurd ?_ h
      intro dim hsome
      rw [hdim] at hsome
      cases hsome
    | some dim =>
      dsimp only
      cases hvalues : d.parameterise.lookup dim with
      | none => exact ⟨_, rfl, _, by simp only [String.append_assoc]; rfl⟩
      | some values =>
        have hlen : values.length ≠ 2 := by
          intro hlen
          refine h ?_
          intro dim' hdim'
          obtain rfl : dim = dim' := Option.some.inj (hdim.symm.trans hdim')
          exact ⟨values, hvalues, hlen⟩
        exact ⟨_, if_pos hlen, _, by simp only [String.append_assoc]; rfl⟩

theorem checked_cardClass : LoadRule.Checked d (.entry c .cardClass) where
  quiet h := if_pos (List.contains_iff_mem.2 h)
  speaks h := ⟨_, if_neg fun hcls => h (List.contains_iff_mem.1 hcls), "",
    c.cardinality.cls ++
      "' unknown (want singleton or bounded; unbounded is rejected by design)",
    by simp [EntryRule.subject, String.append_assoc]⟩

/-- A key source is only asked to be there. -/
theorem messages_keySource : EntryRule.messages c .keySource = [] ↔
    (c.cardinality.cls = "bounded" → ∃ s, c.cardinality.keySource = some s) := by
  unfold EntryRule.messages
  simp only [ite_eq_right_iff, List.cons_ne_nil, imp_false, not_and, Bool.not_eq_true,
    Option.isNone_eq_false_iff, Option.isSome_iff_exists]

theorem checked_keySource
    (hlisted : c.cardinality.cls = "bounded" → ∀ s ∈ c.cardinality.keySource, s ∈ keySources) :
    LoadRule.Checked d (.entry c .keySource) where
  quiet h := messages_keySource.2 fun hbounded => (h hbounded).imp fun _ hs => hs.1
  speaks h := by
    have hbounded : c.cardinality.cls = "bounded" := by
      by_contra hcls
      exact h fun hbounded => absurd hbounded hcls
    have hnone : c.cardinality.keySource.isNone = true := by
      by_contra hsome
      rw [Bool.not_eq_true, Option.isNone_eq_false_iff, Option.isSome_iff_exists] at hsome
      obtain ⟨s, hs⟩ := hsome
      exact h fun _ => ⟨s, hs, hlisted hbounded s hs⟩
    exact ⟨_, if_pos ⟨hbounded, hnone⟩, "bounded cardinality needs a ", "",
      by simp [EntryRule.subject, String.append_assoc]⟩

theorem checked_maxKeys : LoadRule.Checked d (.entry c .maxKeys) := by
  by_cases hbounded : c.cardinality.cls = "bounded"
  · have hmessages : LoadRule.messages d (.entry c .maxKeys) = _ := if_pos hbounded
    refine ⟨?_, ?_⟩
    · intro h
      obtain ⟨n, hn, hpos⟩ := h hbounded
      rw [hmessages, Option.mem_def.1 hn]
      exact if_neg (UInt64.pos_iff_ne_zero.1 hpos)
    · intro h
      rw [hmessages]
      cases hn : c.cardinality.maxKeys with
      | none =>
        exact ⟨_, rfl, "bounded cardinality needs ", "",
          by simp [EntryRule.subject, String.append_assoc]⟩
      | some n =>
        have hzero : n = 0 := by
          by_contra hne
          exact h fun _ => ⟨n, hn, UInt64.pos_iff_ne_zero.2 hne⟩
        exact ⟨_, if_pos hzero, "bounded cardinality ", " must be > 0",
          by simp [EntryRule.subject, String.append_assoc]⟩
  · exact ⟨fun _ => if_neg hbounded, fun h => absurd (fun hcls => absurd hcls hbounded) h⟩

theorem checked_attach : LoadRule.Checked d (.entry c .attach) := by
  refine ⟨?_, ?_⟩
  · intro h
    cases hattach : c.attach with
    | none => simp only [LoadRule.messages, EntryRule.messages, hattach]
    | some a =>
      simp only [LoadRule.messages, EntryRule.messages, hattach]
      exact if_pos (List.contains_iff_mem.2 (h a hattach))
  · intro h
    cases hattach : c.attach with
    | none =>
      refine absurd ?_ h
      intro a ha
      rw [hattach] at ha
      cases ha
    | some a =>
      have hunknown : ¬ attachKinds.contains a := by
        intro hknown
        refine h ?_
        intro a' ha'
        obtain rfl : a = a' := Option.some.inj (hattach.symm.trans ha')
        exact List.contains_iff_mem.1 hknown
      simp only [LoadRule.messages, EntryRule.messages, hattach]
      exact ⟨_, if_neg hunknown, "", a ++ "'" ++ wantOneOf attachKinds,
        by simp [EntryRule.subject, String.append_assoc]⟩

theorem checked_hotPath : LoadRule.Checked d (.entry c .hotPath) where
  quiet h := if_neg h
  speaks h := ⟨_, if_pos (not_not.1 h), "",
    " on a hot path is banned (dual context switch); sample off the hot path instead",
    by simp [EntryRule.subject, String.append_assoc]⟩

end LoadRules

section Complete

variable {F : Type} {d : BenchmarkDef F}

/-- The definition is accepted exactly when it keeps every rule, and when it is not, every
broken rule of every entry has a message. -/
def FindsEverything (d : BenchmarkDef F) : Prop :=
  (d.validate = .ok () ↔ ∀ r ∈ loadRules d, r.Holds d) ∧
    ∀ errs, d.validate = .error errs →
      Rules.Reported (LoadRule.Holds d) (fun r m => r.About m) (loadRules d) errs

theorem validate_eq_error {errs : List String} (h : d.validate = .error errs) :
    errs = defErrors d := by
  unfold BenchmarkDef.validate at h
  cases herrs : defErrors d with
  | nil =>
    rw [herrs] at h
    cases h
  | cons e es =>
    rw [herrs] at h
    cases h
    rfl

theorem mem_loadRules {r : LoadRule} : r ∈ loadRules d ↔
    r = .gateMode ∨ r = .tenancy ∨ r = .compare ∨
      ∃ c ∈ d.capture, ∃ q ∈ EntryRule.all, r = .entry c q := by
  simp only [loadRules, List.mem_append, List.mem_cons, List.not_mem_nil, or_false, or_assoc,
    List.mem_flatMap, List.mem_map, eq_comm]

/-- Every bounded entry that names a key source names one of the contract's. -/
def KeySourcesListed (d : BenchmarkDef F) : Prop :=
  ∀ c ∈ d.capture, c.cardinality.cls = "bounded" →
    ∀ s ∈ c.cardinality.keySource, s ∈ keySources

/-- Every rule but the one about key sources is checked in full. -/
theorem checked_or_keySource {r : LoadRule} (hr : r ∈ loadRules d) :
    LoadRule.Checked d r ∨ ∃ c ∈ d.capture, r = .entry c .keySource := by
  rcases mem_loadRules.1 hr with rfl | rfl | rfl | ⟨c, hc, q, -, rfl⟩
  · exact Or.inl checked_gateMode
  · exact Or.inl checked_tenancy
  · exact Or.inl checked_compare
  · cases q with
    | cardClass => exact Or.inl checked_cardClass
    | keySource => exact Or.inr ⟨c, hc, rfl⟩
    | maxKeys => exact Or.inl checked_maxKeys
    | attach => exact Or.inl checked_attach
    | hotPath => exact Or.inl checked_hotPath

theorem checked_of_listed (hlisted : KeySourcesListed d) {r : LoadRule} (hr : r ∈ loadRules d) :
    LoadRule.Checked d r := by
  rcases checked_or_keySource hr with h | ⟨c, hc, rfl⟩
  · exact h
  · exact checked_keySource (hlisted c hc)

/-- Whatever the key sources, a rule that holds is not complained about, and one that is
broken has one message at most. -/
theorem messages_short {r : LoadRule} (hr : r ∈ loadRules d) :
    (r.Holds d → r.messages d = []) ∧ (r.messages d).length ≤ 1 := by
  rcases checked_or_keySource hr with h | ⟨c, hc, rfl⟩
  · refine ⟨h.quiet, ?_⟩
    by_cases hholds : r.Holds d
    · rw [h.quiet hholds]
      exact Nat.zero_le 1
    · obtain ⟨m, hm, -⟩ := h.speaks hholds
      rw [hm]
      exact Nat.le_refl 1
  · refine ⟨fun h => messages_keySource.2 fun hb => (h hb).imp fun _ hs => hs.1, ?_⟩
    dsimp only [LoadRule.messages, EntryRule.messages]
    split_ifs
    · exact Nat.le_refl 1
    · exact Nat.zero_le 1

theorem listed_of_findsEverything (h : FindsEverything d) : KeySourcesListed d := by
  obtain ⟨haccepted, hreported⟩ := h
  intro c hc hbounded s hs
  by_contra hunlisted
  have hmem : LoadRule.entry c .keySource ∈ loadRules d :=
    mem_loadRules.2 (Or.inr (Or.inr (Or.inr ⟨c, hc, _, by decide, rfl⟩)))
  have hbroken : ¬ (LoadRule.entry c .keySource).Holds d := by
    intro hholds
    obtain ⟨s', hs', hlisted⟩ := hholds hbounded
    obtain rfl : s = s' := Option.some.inj ((Option.mem_def.1 hs).symm.trans hs')
    exact hunlisted hlisted
  have hsilent : (LoadRule.entry c .keySource).messages d = [] :=
    messages_keySource.2 fun _ => ⟨s, hs⟩
  cases hvalidate : d.validate with
  | ok _ => exact hbroken (haccepted.1 hvalidate _ hmem)
  | error errs =>
    have hcomplete := hreported errs hvalidate
    rw [validate_eq_error hvalidate, defErrors_eq] at hcomplete
    exact Rules.not_reported_of_silent (fun r hr => messages_short hr) hmem hbroken hsilent
      hcomplete

/-- `validate` finds everything in a definition exactly when the key sources it names are the
contract's. -/
theorem findsEverything_iff (d : BenchmarkDef F) : FindsEverything d ↔ KeySourcesListed d := by
  apply Iff.intro
  · exact listed_of_findsEverything
  · intro hlisted
    have hchecked (r : LoadRule) (hr : r ∈ loadRules d) := checked_of_listed hlisted hr
    refine ⟨?_, ?_⟩
    · rw [validate_eq_ok_iff, defErrors_eq]
      exact Rules.flatMap_eq_nil hchecked
    · intro errs herrs
      rw [validate_eq_error herrs, defErrors_eq]
      exact Rules.reported_of_loud hchecked

/-- A definition whose one entry is keyed by what the contract does not have. -/
def pidKeyed : BenchmarkDef ℚ where
  apiVersion := "assayist/v0"
  name := "bench"
  target := ⟨"firecracker", "1", [], []⟩
  workload := ⟨"fio", "3", [], []⟩
  gate := ⟨"ab_permutation", none, none, none, []⟩
  parameterise := []
  compare := none
  capture := [⟨"kvm.exit_latency", none, ⟨"bounded", some "pid", some 64⟩, none, false, []⟩]
  hostPrep := .null
  tenancy := "single_tenant"

theorem pid_accepted : ¬ FindsEverything pidKeyed := by
  intro h
  have hlisted := listed_of_findsEverything h
  unfold KeySourcesListed at hlisted
  revert hlisted
  decide

end Complete

end Assayist
