import Assayist.Proofs.Accepted
import Assayist.Proofs.Exact
import Assayist.Proofs.Fingerprint
import Assayist.Proofs.IdOrder

/-! What the published schema asks of the runs that `run_cmd` writes, and what the accepted
definitions already guarantee of it. -/

namespace Assayist

open JsonSchema RunSchema

section RunId

theorem newRunId_exactly (sha256 : List UInt8 → List UInt8) (nanos : ℕ) (pid counter : UInt64) :
    exactly hexDigit 32 (newRunId sha256 nanos pid counter) := by
  have hstamp : millis nanos % 2 ^ 48 < 2 ^ 48 := Nat.mod_lt _ (by decide)
  rw [exactly, newRunId_eq, hex32_toList (idNumber_lt hstamp (entropyOf_lt _))]
  exact ⟨length_hexDigits 32 _, fun c => hexDigit_of_mem⟩

theorem newRunId_ne_pattern (sha256 : List UInt8 → List UInt8) (nanos : ℕ)
    (pid counter : UInt64) : ¬ runIdPattern (newRunId sha256 nanos pid counter) := by
  intro h
  have hlen := (newRunId_exactly sha256 nanos pid counter).1
  rw [h.1] at hlen
  omega

end RunId

section Document

variable {F : Type} [F64 F]

theorem versionPattern_schemaVersion : versionPattern schemaVersion := by
  have hdigits : (['1'] ++ ['0']).all Char.isDigit = true := rfl
  exact ⟨['1'], ['0'], rfl, by simp, by simp, List.all_eq_true.1 hdigits⟩

theorem runIdentity_toJson {i : Identity F} : runIdentity i.toJson ↔
    7 ≤ i.sutGitSha.toList.length ∧ scalars i.params ∧ i.source ∈ ["captured", "imported"] := by
  apply Iff.intro
  · intro h
    have hsut : minLength 7 (.string i.sutGitSha : Json F) :=
      schema_of_mem h (k := "sut_git_sha") (by simp) rfl
    have hsource : enum ["captured", "imported"] (.string i.source : Json F) :=
      schema_of_mem h (k := "source") (by simp) rfl
    exact ⟨stringWhere_string.1 hsut, schema_of_mem h (k := "params") (by simp) rfl,
      stringWhere_string.1 hsource⟩
  · rintro ⟨hsut, hparams, hsource⟩
    apply closedObject_intro rfl
    simp only [List.forall_mem_cons, forall_mem_nil_iff, and_true]
    refine ⟨?_, ?_, ?_, ?_, ?_, ?_, ?_, ?_, ?_⟩
    · exact ⟨_, rfl, string_string _⟩
    · exact ⟨_, rfl, string_string _⟩
    · exact ⟨_, rfl, string_string _⟩
    · exact ⟨_, rfl, string_string _⟩
    · exact ⟨_, rfl, stringWhere_string.2 hsut⟩
    · exact ⟨_, rfl, hparams⟩
    · exact ⟨_, rfl, string_string _⟩
    · exact ⟨_, rfl, string_string _⟩
    · exact ⟨_, rfl, stringWhere_string.2 hsource⟩

/-- A run's document meets the schema when each of its parts meets its own. -/
theorem assayRun_toJson {runId : String → Prop} {run : AssayRun F} : assayRun runId run.toJson ↔
    versionPattern run.schemaVersion ∧ runId run.runId ∧ runIdentity run.identity.toJson ∧
      hostFingerprint run.fingerprint.toJson ∧ (∀ s ∈ run.spans, lifecycleSpan s) ∧
      (∀ s ∈ run.series, RunSchema.metricSeries s) ∧
      (∀ c ∈ run.selfMetrics, RunSchema.probeCost c) ∧
      gateContext run.gate ∧ ∀ o, run.outcome = some o → outcome o := by
  apply Iff.intro
  · intro h
    have hversion : stringWhere versionPattern (.string run.schemaVersion : Json F) :=
      schema_of_mem h (k := "schema_version") (by simp) rfl
    have hid : stringWhere runId (.string run.runId : Json F) :=
      schema_of_mem h (k := "run_id") (by simp) rfl
    have hspans : arrayOf lifecycleSpan (.array run.spans) :=
      schema_of_mem h (k := "spans") (by simp) rfl
    have hseries : arrayOf RunSchema.metricSeries (.array run.series) :=
      schema_of_mem h (k := "series") (by simp) rfl
    have hself : arrayOf RunSchema.probeCost (.array run.selfMetrics) :=
      schema_of_mem h (k := "self_metrics") (by simp) rfl
    refine ⟨stringWhere_string.1 hversion, stringWhere_string.1 hid, ?_, ?_,
      arrayOf_array.1 hspans, arrayOf_array.1 hseries, arrayOf_array.1 hself, ?_, ?_⟩
    · exact schema_of_mem h (k := "identity") (by simp) rfl
    · exact schema_of_mem h (k := "fingerprint") (by simp) rfl
    · exact schema_of_mem h (k := "gate") (by simp) rfl
    · intro o ho
      exact schema_of_mem h (k := "outcome") (by simp [ho, optField]) rfl
  · rintro ⟨hversion, hid, hidentity, hfingerprint, hspans, hseries, hself, hgate, houtcome⟩
    apply closedObject_intro
    · cases run.outcome with
      | none => cases run.workloadReport <;> rfl
      | some o => cases run.workloadReport <;> rfl
    simp only [List.forall_mem_append, List.forall_mem_cons, forall_mem_nil_iff,
      forall_mem_optField, and_true]
    refine ⟨⟨⟨⟨?_, ?_, ?_, ?_, ?_, ?_, ?_, ?_⟩, ?_⟩, ?_⟩, ?_⟩
    · exact ⟨_, rfl, stringWhere_string.2 hversion⟩
    · exact ⟨_, rfl, stringWhere_string.2 hid⟩
    · exact ⟨_, rfl, hidentity⟩
    · exact ⟨_, rfl, hfingerprint⟩
    · exact ⟨_, rfl, arrayOf_array.2 hspans⟩
    · exact ⟨_, rfl, arrayOf_array.2 hseries⟩
    · exact ⟨_, rfl, arrayOf_array.2 hself⟩
    · exact ⟨_, rfl, hgate⟩
    · intro o ho
      exact ⟨_, rfl, houtcome o ho⟩
    · intro report _
      exact ⟨_, rfl, trivial⟩
    · refine ⟨_, rfl, stringWhere_string.2 ?_⟩
      cases run.grade <;> decide

end Document

section Context

variable {d : BenchmarkDef ℝ}

/-- The thresholds that a definition gives lie where the schema wants them. -/
structure GateSpec.InRange (g : GateSpec ℝ) : Prop where
  p : ∀ x, g.pThreshold = some x → 0 < x ∧ x ≤ 1
  noise : ∀ x, g.noiseThreshold = some x → 0 ≤ x ∧ x ≤ 1
  resamples : ∀ n, g.resamples = some n → 1 ≤ n.toNat

theorem numberWhere_float {p : ℝ → Prop} {x : ℝ} : numberWhere p (.float x) ↔ p x := by
  apply Iff.intro
  · rintro ⟨n, hn, _, hp⟩
    rw [← Json.number.inj hn] at hp
    exact hp
  · intro hp
    exact ⟨.float x, rfl, fun _ _ => rfl, hp⟩

/-- A default that meets its own range leaves the range to the values that are given. -/
theorem getD_iff {α : Type} {p : α → Prop} {o : Option α} {x : α} (hx : p x) :
    p (o.getD x) ↔ ∀ y, o = some y → p y := by
  cases o with
  | none => simp [hx]
  | some y => simp

theorem gateContext_build (h : d.validate = .ok ()) (baselineRef : String) :
    gateContext (buildGateContext d baselineRef) ↔ d.gate.InRange := by
  have hp := getD_iff (p := fun x : ℝ => 0 < x ∧ x ≤ 1) (o := d.gate.pThreshold)
    (x := 1 / 100) (by norm_num)
  have hnoise := getD_iff (p := fun x : ℝ => 0 ≤ x ∧ x ≤ 1) (o := d.gate.noiseThreshold)
    (x := 5 / 100) (by norm_num)
  have hresamples := getD_iff (p := fun n : UInt64 => 1 ≤ n.toNat) (o := d.gate.resamples)
    (x := 10000) (by decide)
  apply Iff.intro
  · intro h
    have hpt : numberWhere (fun x => 0 < x ∧ x ≤ 1) (.float (d.gate.pThreshold.getD (1 / 100))) :=
      schema_of_mem h (k := "p_threshold") (by simp) rfl
    have hnt : numberWhere (fun x => 0 ≤ x ∧ x ≤ 1)
        (.float (d.gate.noiseThreshold.getD (5 / 100))) :=
      schema_of_mem h (k := "noise_threshold") (by simp) rfl
    have hrs : integer 1 (.nat (d.gate.resamples.getD 10000) : Json ℝ) :=
      schema_of_mem h (k := "resamples") (by simp) rfl
    exact ⟨hp.1 (numberWhere_float.1 hpt), hnoise.1 (numberWhere_float.1 hnt),
      hresamples.1 (integer_nat.1 hrs)⟩
  · intro hrange
    have hpt : numberWhere (fun x => 0 < x ∧ x ≤ 1) (.float (d.gate.pThreshold.getD (1 / 100))) :=
      numberWhere_float.2 (hp.2 hrange.p)
    have hnt : numberWhere (fun x => 0 ≤ x ∧ x ≤ 1)
        (.float (d.gate.noiseThreshold.getD (5 / 100))) :=
      numberWhere_float.2 (hnoise.2 hrange.noise)
    apply closedObject_intro rfl
    simp only [List.forall_mem_cons, forall_mem_nil_iff, and_true]
    refine ⟨?_, ?_, ?_, ?_, ?_, ?_, ?_⟩
    · exact ⟨_, rfl, stringWhere_string.2 (mode_of_validate h)⟩
    · exact ⟨_, rfl, string_string _⟩
    · exact ⟨_, rfl, hpt⟩
    · exact ⟨_, rfl, hnt⟩
    · exact ⟨_, rfl, integer_nat.2 (hresamples.2 hrange.resamples)⟩
    · refine ⟨_, rfl, arrayOf_array.2 fun x hx => ?_⟩
      obtain ⟨s, _, rfl⟩ := List.mem_map.1 hx
      exact string_string s
    · exact ⟨_, rfl, stringWhere_string.2 (tenancy_of_validate h)⟩

end Context

section Run

variable {F : Type} [F64 F]

/-- What the schema asks of what a run gathers beyond its definition. -/
structure Gathered.InRange (g : Gathered F) : Prop where
  sut : 7 ≤ g.sut.toList.length
  thp : HostPrep.ThpKnown g.host
  spans : ∀ s ∈ g.spans, lifecycleSpan s
  series : ∀ f ∈ g.fragments, ∀ s ∈ f.series, RunSchema.metricSeries s
  costs : ∀ f ∈ g.fragments, ∀ c ∈ f.selfMetrics, RunSchema.probeCost c

variable [Build] {runId : String} {cell : Cell F} {g : Gathered F} {run : AssayRun F}

/-- The parts that a cell's run is assembled from. -/
theorem cellRun_spec {d : BenchmarkDef F} (h : cellRun runId d cell g = .ok run) :
    ∃ fp, HostPrep.observe g.host g.later (HostPrep.knobsOf d.hostPrep) d.tenancy = .ok fp ∧
      run.schemaVersion = schemaVersion ∧ run.runId = runId ∧
      run.identity = buildIdentity d cell.params cell.paramsHash g.defSha g.sut g.versions ∧
      run.fingerprint = g.pin fp ∧ run.spans = g.spans ∧
      run.series = g.fragments.flatMap (·.series) ∧
      run.selfMetrics = g.fragments.flatMap (·.selfMetrics) ∧
      run.gate = buildGateContext d "" ∧ run.outcome = none := by
  obtain ⟨fp, hfp, h⟩ := Results.bind_eq_ok.1 h
  refine ⟨fp, hfp, ?_⟩
  rw [← Results.pure_eq_ok.1 h]
  split_ifs
  · exact ⟨rfl, rfl, rfl, rfl, rfl, rfl, rfl, rfl, rfl⟩
  · exact ⟨rfl, rfl, rfl, rfl, rfl, rfl, rfl, rfl, rfl⟩

end Run

section Conformance

variable [Build] {d : BenchmarkDef ℝ} {runId : String} {cell : Cell ℝ} {g : Gathered ℝ}

/-- What is left to the inputs of an accepted definition's run, given what the schema says of
the run id. -/
theorem cellRun_conforms_iff (hvalid : d.validate = .ok ()) {run : AssayRun ℝ}
    (h : cellRun runId d cell g = .ok run) {p : String → Prop} : assayRun p run.toJson ↔
      p runId ∧ scalars cell.params ∧ d.gate.InRange ∧ g.InRange := by
  obtain ⟨fp, hfp, hversion, hid, hidentity, hfingerprint, hspans, hseries, hcosts, hgate,
    houtcome⟩ := cellRun_spec h
  rw [assayRun_toJson, hversion, hid, hidentity, hfingerprint, hspans, hseries, hcosts, hgate,
    houtcome, runIdentity_toJson, hostFingerprint_toJson,
    observe_inRange_iff (tenancy_of_validate hvalid) hfp, gateContext_build hvalid]
  simp only [List.forall_mem_flatMap]
  apply Iff.intro
  · rintro ⟨_, hp, ⟨hsut, hparams, _⟩, hthp, hspans, hseries, hcosts, hgate, _⟩
    exact ⟨hp, hparams, hgate, ⟨hsut, hthp, hspans, hseries, hcosts⟩⟩
  · rintro ⟨hp, hparams, hgate, hg⟩
    exact ⟨versionPattern_schemaVersion, hp, ⟨hg.sut, hparams, by simp [buildIdentity]⟩, hg.thp,
      hg.spans, hg.series, hg.costs, hgate, fun o ho => nomatch ho⟩

/-- An accepted definition with scalar levels makes runs that meet the schema, but for the
run id: it is hexadecimal, and the schema asks for 26 Crockford characters. -/
theorem run_conforms {sha256Hex : String → String} {sha256 : List UInt8 → List UInt8}
    (hvalid : d.validate = .ok ()) (hlevels : ∀ axis ∈ d.parameterise, ∀ v ∈ axis.2, scalar v)
    (hgate : d.gate.InRange) [FloatText ℝ] (hcell : cell ∈ expandCells sha256Hex d)
    (hg : g.InRange) {nanos : ℕ} {pid counter : UInt64} {run : AssayRun ℝ}
    (hrun : cellRun (newRunId sha256 nanos pid counter) d cell g = .ok run) :
    assayRun (exactly hexDigit 32) run.toJson ∧ ¬ assayRun runIdPattern run.toJson := by
  apply And.intro
  · rw [cellRun_conforms_iff hvalid hrun]
    exact ⟨newRunId_exactly sha256 nanos pid counter, params_of_levels hlevels hcell, hgate, hg⟩
  · rw [cellRun_conforms_iff hvalid hrun]
    intro h
    exact newRunId_ne_pattern sha256 nanos pid counter h.1

end Conformance

section Samples

attribute [local instance] releaseBuild wholeText

def smallHost (thp : String) : HostFiles where
  read path := [("/proc/sys/kernel/hostname", "bench0"), ("/proc/sys/kernel/osrelease", "6.8.0"),
    ("/proc/meminfo", "MemTotal: 16384 kB"),
    ("/sys/kernel/mm/transparent_hugepage/enabled", thp)].lookup path
  entries _ := none
  present _ := true

def vcpuDef (gate : GateSpec ℝ) (levels : List (Json ℝ)) : BenchmarkDef ℝ where
  apiVersion := "assayist/v0"
  name := "vcpus"
  target := ⟨"command", "", [], []⟩
  workload := ⟨"command", "", [], []⟩
  gate
  parameterise := [("vcpu", levels)]
  compare := none
  capture := []
  hostPrep := .null
  tenancy := "single_tenant"

def abGate (pThreshold noiseThreshold : Option ℝ) (resamples : Option UInt64) : GateSpec ℝ :=
  ⟨"ab_permutation", pThreshold, noiseThreshold, resamples, []⟩

noncomputable def vcpuCell (sha256Hex : String → String) (v : Json ℝ) : Cell ℝ :=
  ⟨cellParams ["vcpu"] [v], Def.paramsHash sha256Hex (cellParams ["vcpu"] [v])⟩

def switchCount : Json ℝ :=
  .object [("name", .string "sched.switches"), ("unit", .string "1"), ("kind", .string "counter"),
    ("source", .string "sched_switch"), ("cardinality", .object [("class", .string "singleton")]),
    ("data", .object [("value", .nat 7), ("start_unix_nano", .nat 0)])]

def bootSpan : Json ℝ :=
  .object [("name", .string "boot"), ("start_unix_nano", .nat 1), ("end_unix_nano", .nat 9)]

def vcpuRun (sut thp : String) (spans : List (Json ℝ)) : Gathered ℝ where
  defSha := "da39a3e"
  sut
  versions := ⟨"0.0.0", "0.0.0"⟩
  host := smallHost thp
  later := smallHost thp
  pinningLayout := some [("vcpu0", .nat 0)]
  fragments := [⟨[switchCount], [], none⟩]
  spans
  workloadReport := .null

theorem bootSpan_lifecycle : lifecycleSpan bootSpan := by
  apply closedObject_intro rfl
  simp only [List.forall_mem_cons, forall_mem_nil_iff, and_true]
  exact ⟨⟨_, rfl, string_string _⟩, ⟨_, rfl, integer_nat.2 (Nat.zero_le _)⟩,
    ⟨_, rfl, integer_nat.2 (Nat.zero_le _)⟩⟩

theorem switchCount_series : RunSchema.metricSeries switchCount := by
  have hcardinality : cardinalityDecl (.object [("class", .string "singleton")] : Json ℝ) := by
    apply And.intro
    · apply closedObject_intro rfl
      simp only [List.forall_mem_cons, forall_mem_nil_iff, and_true]
      exact ⟨_, rfl, stringWhere_string.2 (by decide)⟩
    · intro h
      exact absurd (Json.string.inj (h _ rfl)) (by decide)
  have hcounter : counterData
      (.object [("value", .nat 7), ("start_unix_nano", .nat 0)] : Json ℝ) := by
    apply closedObject_intro rfl
    simp only [List.forall_mem_cons, forall_mem_nil_iff, and_true]
    exact ⟨⟨_, rfl, integer_nat.2 (Nat.zero_le _)⟩, ⟨_, rfl, integer_nat.2 (Nat.zero_le _)⟩⟩
  have hdata : oneOf [histogramData, counterData, gaugeData]
      (.object [("value", .nat 7), ("start_unix_nano", .nat 0)] : Json ℝ) := by
    refine ⟨⟨1, by decide⟩, hcounter, fun i hi => ?_⟩
    match i with
    | 0 => exact absurd hi.1 (not_closedObject (k := "value") List.mem_cons_self rfl)
    | 1 => rfl
    | 2 =>
      refine absurd hi (not_closedObject (k := "start_unix_nano") (v := .nat 0) ?_ rfl)
      exact List.mem_cons_of_mem _ List.mem_cons_self
  refine ⟨?_, ?_, ?_, ?_⟩
  · apply closedObject_intro rfl
    simp only [List.forall_mem_cons, forall_mem_nil_iff, and_true]
    exact ⟨⟨_, rfl, string_string _⟩, ⟨_, rfl, string_string _⟩,
      ⟨_, rfl, stringWhere_string.2 (by decide)⟩, ⟨_, rfl, string_string _⟩,
      ⟨_, rfl, hcardinality⟩, ⟨_, rfl, hdata⟩⟩
  · intro h
    exact absurd (Json.string.inj (h _ rfl)) (by decide)
  · intro _ v hv
    rw [← Option.some.inj hv]
    exact hcounter
  · intro h
    exact absurd (Json.string.inj (h _ rfl)) (by decide)

theorem scalar_nat (n : UInt64) : scalar (.nat n : Json ℝ) :=
  .inr (.inl ⟨.posInt n, rfl, nofun, trivial⟩)

theorem facts_smallHost (thp : String) :
    (HostPrep.facts (smallHost thp) : Except Abort (HostPrep.Facts ℝ)).isOk = true := by
  rfl

theorem exists_cellRun {F : Type} [F64 F] [Build] (runId : String) (d : BenchmarkDef F)
    (cell : Cell F) {g : Gathered F}
    (h : (HostPrep.facts g.host : Except Abort (HostPrep.Facts F)).isOk = true) :
    ∃ run, cellRun runId d cell g = .ok run := by
  obtain ⟨facts, hfacts⟩ := Results.exists_ok h
  exact ⟨_, Results.bind_eq_ok.2 ⟨_, Results.bind_eq_ok.2 ⟨facts, hfacts, rfl⟩, rfl⟩⟩

theorem vcpuRun_inRange : (vcpuRun "1234567" "always madvise [never]" [bootSpan]).InRange where
  sut := by decide
  thp := ⟨"never", by decide, rfl⟩
  spans := by
    intro s hs
    rw [List.mem_singleton.1 hs]
    exact bootSpan_lifecycle
  series := by
    intro f hf s hs
    rw [List.mem_singleton.1 hf] at hs
    rw [List.mem_singleton.1 hs]
    exact switchCount_series
  costs := by
    intro f hf c hc
    rw [List.mem_singleton.1 hf] at hc
    cases hc

theorem abGate_inRange : (abGate none none none).InRange where
  p := nofun
  noise := nofun
  resamples := nofun

/-- The digests of the parameters of the cells with one and two vCPUs. -/
def vcpuSha (text : String) : String :=
  if text = "\x7b\"vcpu\":1\x7d" then
    "d505e45b49e910e7ccaabd5283fd917fd774d36aa49cb6d3f46a3fbab87f8bc7"
  else "b8283a297f81c11c4b20f9fc7bf0d051e2fea11e0de783b87ddac79ad8a0c84a"

/-- The digest of process 4242's first run id, at 1.7e18 ns since the epoch. -/
def clockSha (_ : List UInt8) : List UInt8 :=
  [139, 29, 56, 208, 238, 175, 44, 159, 32, 157, 45, 74, 36, 147, 48, 86, 177, 119, 123, 218, 62,
    67, 243, 202, 52, 154, 113, 1, 221, 230, 44, 77]

example : newRunId clockSha 1700000000000000000 4242 0 = "018bcfe568008b1d38d0eeaf2c9f209d" := by
  decide +kernel

theorem vcpu_run_conforms :
    ∃ run, cellRun (newRunId clockSha 1700000000000000000 4242 0)
      (vcpuDef (abGate none none none) [.nat 1, .nat 2]) (vcpuCell vcpuSha (.nat 2))
      (vcpuRun "1234567" "always madvise [never]" [bootSpan]) = .ok run ∧
      assayRun (exactly hexDigit 32) run.toJson ∧ ¬ assayRun runIdPattern run.toJson := by
  obtain ⟨run, hrun⟩ := exists_cellRun _ _ _
    (g := vcpuRun "1234567" "always madvise [never]" [bootSpan]) (facts_smallHost _)
  have hcell : vcpuCell vcpuSha (.nat 2) ∈
      expandCells vcpuSha (vcpuDef (abGate none none none) [.nat 1, .nat 2]) :=
    List.mem_cons_of_mem _ List.mem_cons_self
  have hlevels : ∀ axis ∈ (vcpuDef (abGate none none none) [.nat 1, .nat 2]).parameterise,
      ∀ v ∈ axis.2, scalar v := by
    intro axis haxis
    rw [List.mem_singleton.1 haxis]
    simp only [List.forall_mem_cons, forall_mem_nil_iff, and_true]
    exact ⟨scalar_nat 1, scalar_nat 2⟩
  exact ⟨run, hrun, run_conforms rfl hlevels abGate_inRange hcell vcpuRun_inRange hrun⟩

/-- Some cell of an accepted definition has a run that the schema rejects. -/
def OffSchema (runId : String → Prop) (d : BenchmarkDef ℝ) (g : Gathered ℝ) : Prop :=
  d.validate = .ok () ∧ ∀ (sha256Hex : String → String) (sha256 : List UInt8 → List UInt8)
    (nanos : ℕ) (pid counter : UInt64), ∃ cell ∈ expandCells sha256Hex d, ∃ run,
      cellRun (newRunId sha256 nanos pid counter) d cell g = .ok run ∧
        ¬ assayRun runId run.toJson

theorem offSchema_of {runId : String → Prop} {gate : GateSpec ℝ} {v : Json ℝ}
    {sut thp : String} {spans : List (Json ℝ)} (hvalid : (vcpuDef gate [v]).validate = .ok ())
    (h : ∀ sha256 nanos pid counter, runId (newRunId sha256 nanos pid counter) →
      scalars (cellParams ["vcpu"] [v]) → gate.InRange → ¬ (vcpuRun sut thp spans).InRange) :
    OffSchema runId (vcpuDef gate [v]) (vcpuRun sut thp spans) := by
  refine ⟨hvalid, fun sha256Hex sha256 nanos pid counter => ?_⟩
  obtain ⟨run, hrun⟩ := exists_cellRun (newRunId sha256 nanos pid counter) (vcpuDef gate [v])
    (vcpuCell sha256Hex v) (g := vcpuRun sut thp spans) (facts_smallHost thp)
  refine ⟨vcpuCell sha256Hex v, List.mem_cons_self, run, hrun, fun hconforms => ?_⟩
  rw [cellRun_conforms_iff hvalid hrun] at hconforms
  exact h sha256 nanos pid counter hconforms.1 hconforms.2.1 hconforms.2.2.1 hconforms.2.2.2

/-- Runs that the schema rejects: every run for its id, and for a level that is no scalar, a
threshold or a resample count out of range, a short revision, a host without huge pages, and a
span that is none. -/
theorem runs_off_schema :
    OffSchema runIdPattern (vcpuDef (abGate none none none) [.nat 1])
      (vcpuRun "1234567" "always madvise [never]" [bootSpan]) ∧
    OffSchema (exactly hexDigit 32) (vcpuDef (abGate none none none) [.null])
      (vcpuRun "1234567" "always madvise [never]" [bootSpan]) ∧
    OffSchema (exactly hexDigit 32) (vcpuDef (abGate (some 5) none none) [.nat 1])
      (vcpuRun "1234567" "always madvise [never]" [bootSpan]) ∧
    OffSchema (exactly hexDigit 32) (vcpuDef (abGate none (some 5) none) [.nat 1])
      (vcpuRun "1234567" "always madvise [never]" [bootSpan]) ∧
    OffSchema (exactly hexDigit 32) (vcpuDef (abGate none none (some 0)) [.nat 1])
      (vcpuRun "1234567" "always madvise [never]" [bootSpan]) ∧
    OffSchema (exactly hexDigit 32) (vcpuDef (abGate none none none) [.nat 1])
      (vcpuRun "abc" "always madvise [never]" [bootSpan]) ∧
    OffSchema (exactly hexDigit 32) (vcpuDef (abGate none none none) [.nat 1])
      (vcpuRun "1234567" "" [bootSpan]) ∧
    OffSchema (exactly hexDigit 32) (vcpuDef (abGate none none none) [.nat 1])
      (vcpuRun "1234567" "always madvise [never]" [.null]) := by
  refine ⟨offSchema_of rfl ?_, offSchema_of rfl ?_, offSchema_of rfl ?_, offSchema_of rfl ?_,
    offSchema_of rfl ?_, offSchema_of rfl ?_, offSchema_of rfl ?_, offSchema_of rfl ?_⟩
  · intro sha256 nanos pid counter hid
    exact absurd hid (newRunId_ne_pattern sha256 nanos pid counter)
  · intro _ _ _ _ _ hparams
    obtain ⟨m, hm, hscalar⟩ := hparams
    have hnull : scalar (.null : Json ℝ) := hscalar ("vcpu", .null) (by
      rw [← Json.object.inj hm]
      exact List.mem_cons_self)
    rcases hnull with ⟨_, hnull, _⟩ | ⟨_, hnull, _⟩ | ⟨_, hnull⟩
    · cases hnull
    · cases hnull
    · cases hnull
  · intro _ _ _ _ _ _ hgate
    have hp := (hgate.p 5 rfl).2
    norm_num at hp
  · intro _ _ _ _ _ _ hgate
    have hnoise := (hgate.noise 5 rfl).2
    norm_num at hnoise
  · intro _ _ _ _ _ _ hgate
    exact absurd (hgate.resamples 0 rfl) (by decide)
  · intro _ _ _ _ _ _ _ hg
    exact absurd hg.sut (by decide)
  · intro _ _ _ _ _ _ _ hg
    obtain ⟨t, _, hthp⟩ := hg.thp
    cases hthp
  · intro _ _ _ _ _ _ _ hg
    obtain ⟨m, hm, _⟩ := hg.spans .null List.mem_cons_self
    cases hm

end Samples

end Assayist
