import Assayist.Proofs.Ab
import Assayist.Spec.Contract

/-! An assembled run as the gate reads it back: its series and self metrics are those of
the fragments, and nothing of a fragment's capture metadata is in it. -/

namespace Assayist

section Serialised

variable {F : Type} (run : AssayRun F)

@[simp] theorem toJson_series : run.toJson.getArray "series" = some run.series := rfl

@[simp] theorem toJson_selfMetrics : run.toJson.getArray "self_metrics" = some run.selfMetrics :=
  rfl

@[simp] theorem toJson_spans : run.toJson.getArray "spans" = some run.spans := rfl

@[simp] theorem toJson_captureMeta : run.toJson.get "capture_meta" = none := by
  cases ho : run.outcome <;> cases hr : run.workloadReport <;>
    simp [AssayRun.toJson, Json.get, List.lookup_cons, optField, ho, hr]

@[simp] theorem toJson_workloadReport :
    run.toJson.get "workload_report" = run.workloadReport := by
  cases ho : run.outcome <;> cases hr : run.workloadReport <;>
    simp [AssayRun.toJson, Json.get, List.lookup_cons, optField, ho, hr]

theorem globalOverflow_toJson : globalOverflow run.toJson = false := by
  simp [globalOverflow]

theorem windowNs_toJson [F64 F] : windowNs run.toJson = none := by
  simp [windowNs]

def overBudgetIds (costs : List (Json F)) : List String :=
  costs.filterMap fun pc =>
    if (pc.getBool "over_budget").getD false then pc.getStr "probe_id" else none

theorem overbudgetSources_toJson : overbudgetSources run.toJson = overBudgetIds run.selfMetrics :=
  rfl

end Serialised

section Assembled

variable {F : Type} [F64 F]

def assembled (runId : String) (identity : Identity F) (fingerprint : Fingerprint F)
    (gate : Json F) (fragments : List (Fragment F)) (spans : List (Json F)) : Json F :=
  (AssayRun.assemble runId identity fingerprint gate fragments spans).toJson

def flagged (s : Json F) : Bool := (s.getBool "cardinality_overflow").getD false

/-- Whether a series' source is among the probes over budget in some fragment. -/
def sourceOver (fragments : List (Fragment F)) (s : Json F) : Bool :=
  (overBudgetIds (fragments.flatMap (·.selfMetrics))).contains ((s.getStr "source").getD "")

variable [FloatText F] {runId : String} {identity : Identity F} {fingerprint : Fingerprint F}
  {gate : Json F} {fragments : List (Fragment F)} {spans : List (Json F)}

/-- In an assembled run only a series' own flag and its source contaminate it. -/
theorem assembled_contaminated (s : Json F) :
    (seriesHead (overbudgetSources (assembled runId identity fingerprint gate fragments spans))
      (globalOverflow (assembled runId identity fingerprint gate fragments spans)) s).contaminated =
      (sourceOver fragments s || flagged s) := by
  rw [assembled, globalOverflow_toJson, overbudgetSources_toJson]
  simp [seriesHead, sourceOver, flagged, AssayRun.assemble]

variable [Build] {total : List (Metric F)}

/-- The metrics of a fragment's series are among those of the assembled run. -/
theorem assembled_series
    (h : reduce (assembled runId identity fingerprint gate fragments spans) = .ok total)
    {f : Fragment F} (hf : f ∈ fragments) {s : Json F} (hs : s ∈ f.series) :
    ∃ ms, metricsOf (assembled runId identity fingerprint gate fragments spans) s = .ok ms ∧
      ∀ m ∈ ms, m ∈ total := by
  obtain ⟨parts, hparts, rfl⟩ := reduce_eq_ok.1 h
  have hmem : s ∈ ((assembled runId identity fingerprint gate fragments spans).getArray
      "series").getD [] := by
    rw [assembled, toJson_series]
    exact List.mem_flatMap.2 ⟨f, hf, hs⟩
  obtain ⟨ms, hms, hok⟩ := Results.exists_right hparts hmem
  refine ⟨ms, hok, fun m hm => ?_⟩
  simp only [List.mem_append, List.mem_flatten]
  exact .inl (.inl ⟨ms, hms, hm⟩)

end Assembled

section Sample

def sampleFingerprint : Fingerprint ℚ where
  hostname := "host"
  kernelVersion := "6.1.0"
  osRelease := "linux"
  cpuModel := "cpu"
  cpuCountLogical := 8
  cpuCountPhysical := 4
  smtEnabled := true
  cpuGovernor := "performance"
  thpSetting := "never"
  totalMemoryBytes := 16384
  kvmPresent := true
  tenancy := "single_tenant"
  tuningRequested := .object []
  tuningReadback := .object []
  numaTopology := some (.object [])
  pinningLayout := some (.object [])
  mitigations := some (.object [])
  microcodeVersion := some "0x1"
  nestedVirt := some false

def sampleIdentity : Identity ℚ where
  targetAdapter := "firecracker"
  targetAdapterVersion := "1"
  workloadDriver := "fio"
  workloadDriverVersion := "3"
  sutGitSha := "0"
  params := .object []
  paramsHash := "p"
  benchmarkDefSha := "d"
  source := "native"

def sampleRun (fragments : List (Fragment ℚ)) : Json ℚ :=
  assembled "run" sampleIdentity sampleFingerprint (.object []) fragments []

end Sample

end Assayist
