import Assayist.Lib.Results
import Assayist.Proofs.Keywords
import Assayist.Spec.Run
import Assayist.Spec.RunSchema

/-! Of what `run_cmd` observes of its host, only the huge-page setting can leave the published
schema. -/

namespace Assayist

open JsonSchema RunSchema

section InRange

variable {F : Type} [F64 F]

/-- What the schema asks of the values that a fingerprint's record leaves open. -/
structure Fingerprint.InRange (fp : Fingerprint F) : Prop where
  logical : 1 ≤ fp.cpuCountLogical.toNat
  physical : 1 ≤ fp.cpuCountPhysical.toNat
  thp : fp.thpSetting ∈ ["always", "madvise", "never"]
  tenancy : fp.tenancy ∈ ["single_tenant", "density"]
  requested : scalars fp.tuningRequested
  readback : scalars fp.tuningReadback
  numa : ∀ v, fp.numaTopology = some v → anyObject v
  pinning : ∀ v, fp.pinningLayout = some v → anyObject v
  mitigations : ∀ v, fp.mitigations = some v → objectOf string v

theorem integer_nat32 {lo : ℕ} {n : UInt32} :
    integer lo (.nat n.toUInt64 : Json F) ↔ lo ≤ n.toNat := by
  rw [integer_nat, UInt32.toNat_toUInt64]

theorem inRange_of_schema {fp : Fingerprint F} (h : hostFingerprint fp.toJson) : fp.InRange := by
  have hlogical : integer 1 (.nat fp.cpuCountLogical.toUInt64 : Json F) :=
    schema_of_mem h (k := "cpu_count_logical") (by simp) rfl
  have hphysical : integer 1 (.nat fp.cpuCountPhysical.toUInt64 : Json F) :=
    schema_of_mem h (k := "cpu_count_physical") (by simp) rfl
  have hthp : enum ["always", "madvise", "never"] (.string fp.thpSetting : Json F) :=
    schema_of_mem h (k := "thp_setting") (by simp) rfl
  have htenancy : enum ["single_tenant", "density"] (.string fp.tenancy : Json F) :=
    schema_of_mem h (k := "tenancy") (by simp) rfl
  exact
    { logical := integer_nat32.1 hlogical
      physical := integer_nat32.1 hphysical
      thp := stringWhere_string.1 hthp
      tenancy := stringWhere_string.1 htenancy
      requested := schema_of_mem h (k := "tuning_requested") (by simp) rfl
      readback := schema_of_mem h (k := "tuning_readback") (by simp) rfl
      numa := fun v hv => schema_of_mem h (k := "numa_topology") (by simp [hv, optField]) rfl
      pinning := fun v hv =>
        schema_of_mem h (k := "pinning_layout") (by simp [hv, optField]) rfl
      mitigations := fun v hv =>
        schema_of_mem h (k := "mitigations") (by simp [hv, optField]) rfl }

theorem Fingerprint.InRange.conforms {fp : Fingerprint F} (h : fp.InRange) :
    hostFingerprint fp.toJson := by
  apply closedObject_intro rfl
  simp only [List.forall_mem_append, List.forall_mem_cons, forall_mem_nil_iff,
    forall_mem_optField, Option.map_eq_some_iff, and_true]
  refine ⟨⟨⟨⟨⟨⟨?_, ?_, ?_, ?_, ?_, ?_, ?_, ?_, ?_, ?_, ?_, ?_, ?_, ?_⟩, ?_⟩, ?_⟩, ?_⟩, ?_⟩, ?_⟩
  · exact ⟨_, rfl, string_string _⟩
  · exact ⟨_, rfl, string_string _⟩
  · exact ⟨_, rfl, string_string _⟩
  · exact ⟨_, rfl, string_string _⟩
  · exact ⟨_, rfl, integer_nat32.2 h.logical⟩
  · exact ⟨_, rfl, integer_nat32.2 h.physical⟩
  · exact ⟨_, rfl, boolean_bool _⟩
  · exact ⟨_, rfl, string_string _⟩
  · exact ⟨_, rfl, stringWhere_string.2 h.thp⟩
  · exact ⟨_, rfl, integer_nat.2 (Nat.zero_le _)⟩
  · exact ⟨_, rfl, boolean_bool _⟩
  · exact ⟨_, rfl, stringWhere_string.2 h.tenancy⟩
  · exact ⟨_, rfl, h.requested⟩
  · exact ⟨_, rfl, h.readback⟩
  · intro v hv
    exact ⟨_, rfl, h.numa v hv⟩
  · intro v hv
    exact ⟨_, rfl, h.pinning v hv⟩
  · intro v hv
    exact ⟨_, rfl, h.mitigations v hv⟩
  · rintro v ⟨s, _, rfl⟩
    exact ⟨_, rfl, string_string s⟩
  · rintro v ⟨b, _, rfl⟩
    exact ⟨_, rfl, boolean_bool b⟩

theorem hostFingerprint_toJson {fp : Fingerprint F} :
    hostFingerprint fp.toJson ↔ fp.InRange :=
  ⟨inRange_of_schema, Fingerprint.InRange.conforms⟩

end InRange

section Observed

variable {F : Type}

theorem namedTexts_strings {entries : List (String × String)} {v : Json F}
    (h : HostPrep.namedTexts entries = some v) : objectOf string v := by
  unfold HostPrep.namedTexts at h
  dsimp only at h
  split_ifs at h
  rw [← Option.some.inj h]
  refine ⟨_, rfl, fun e he => ?_⟩
  obtain ⟨x, _, rfl⟩ := List.mem_map.1 he
  exact string_string x.2

theorem anyObject_of_objectOf {schema : JsonSchema F} {v : Json F} (h : objectOf schema v) :
    anyObject v := by
  obtain ⟨m, rfl, _⟩ := h
  exact ⟨m, rfl, fun _ _ => trivial⟩

theorem numaTopology_strings {files : HostFiles} {v : Json F}
    (h : HostPrep.numaTopology files = some v) : objectOf string v := by
  obtain ⟨names, _, h⟩ := Option.bind_eq_some_iff.1 h
  exact namedTexts_strings h

theorem mitigations_strings {files : HostFiles} {v : Json F}
    (h : HostPrep.mitigations files = some v) : objectOf string v := by
  obtain ⟨names, _, h⟩ := Option.bind_eq_some_iff.1 h
  exact namedTexts_strings h

theorem one_le_max_one (n : UInt32) : 1 ≤ (max n 1).toNat := by
  change 1 ≤ (if n ≤ 1 then 1 else n).toNat
  split_ifs with h
  · exact le_rfl
  · rw [UInt32.le_iff_toNat_le] at h
    exact (not_le.1 h).le

variable {files later : HostFiles}

theorem facts_spec [Build] {facts : HostPrep.Facts F} (h : HostPrep.facts files = .ok facts) :
    1 ≤ facts.cpuCountLogical.toNat ∧ 1 ≤ facts.cpuCountPhysical.toNat ∧
      facts.thpSetting = (HostPrep.thpActive files).getD "unknown" ∧
      (∀ v, facts.numaTopology = some v → objectOf string v) ∧
      ∀ v, facts.mitigations = some v → objectOf string v := by
  unfold HostPrep.facts at h
  obtain ⟨hostname, _, h⟩ := Results.bind_eq_ok.1 h
  obtain ⟨kernelVersion, _, h⟩ := Results.bind_eq_ok.1 h
  obtain ⟨kb, _, h⟩ := Results.bind_eq_ok.1 h
  obtain ⟨total, _, h⟩ := Results.bind_eq_ok.1 h
  rw [← Results.pure_eq_ok.1 h]
  exact ⟨one_le_max_one _, one_le_max_one _, rfl, fun v hv => numaTopology_strings hv,
    fun v hv => mitigations_strings hv⟩

/-- The kernel reports one of the settings that the schema knows. -/
def HostPrep.ThpKnown (files : HostFiles) : Prop :=
  ∃ t ∈ ["always", "madvise", "never"], HostPrep.thpActive files = some t

theorem thpKnown_iff : (HostPrep.thpActive files).getD "unknown" ∈ ["always", "madvise", "never"] ↔
    HostPrep.ThpKnown files := by
  unfold HostPrep.ThpKnown
  cases HostPrep.thpActive files with
  | none => simp
  | some t => simp

variable [F64 F]

theorem scalars_toValue (knobs : HostPrep.TuningKnobs) : scalars (knobs.toValue : Json F) := by
  refine ⟨_, rfl, ?_⟩
  simp only [List.forall_mem_append, forall_mem_optField, Option.map_eq_some_iff]
  refine ⟨⟨?_, ?_⟩, ?_⟩
  · rintro v ⟨s, _, rfl⟩
    exact .inl (string_string s)
  · rintro v ⟨b, _, rfl⟩
    exact .inr (.inr (boolean_bool b))
  · rintro v ⟨s, _, rfl⟩
    exact .inl (string_string s)

/-- Of an observed host only the huge-page setting can be out of range. -/
theorem observe_inRange_iff [Build] {knobs : HostPrep.TuningKnobs} {tenancy : String}
    (htenancy : tenancy ∈ ["single_tenant", "density"]) {fp : Fingerprint F}
    (h : HostPrep.observe files later knobs tenancy = .ok fp) (g : Gathered F) :
    (g.pin fp).InRange ↔ HostPrep.ThpKnown files := by
  obtain ⟨facts, hfacts, h⟩ := Results.bind_eq_ok.1 h
  obtain ⟨hlogical, hphysical, hthp, hnuma, hmitigations⟩ := facts_spec hfacts
  rw [← thpKnown_iff, ← hthp, ← Results.pure_eq_ok.1 h]
  apply Iff.intro
  · intro hrange
    have hset := hrange.thp
    unfold Gathered.pin at hset
    cases hl : g.pinningLayout with
    | none => rwa [hl] at hset
    | some layout => rwa [hl] at hset
  · intro hset
    have hobserved : (HostPrep.buildFingerprint facts knobs (HostPrep.readTuning later knobs)
        tenancy none).InRange :=
      { logical := hlogical
        physical := hphysical
        thp := hset
        tenancy := htenancy
        requested := scalars_toValue _
        readback := scalars_toValue _
        numa := fun v hv => anyObject_of_objectOf (hnuma v hv)
        pinning := fun v hv => nomatch hv
        mitigations := hmitigations }
    unfold Gathered.pin
    cases g.pinningLayout with
    | none => exact hobserved
    | some layout =>
      exact { hobserved with
        pinning := fun v hv => ⟨layout, (Option.some.inj hv).symm, fun _ _ => trivial⟩ }

end Observed

end Assayist
