import Assayist.Proofs.Budget
import Assayist.Proofs.Comparable

/-! The fingerprint names the host, and the gate never reads the name: whether it gives a
verdict does not depend on how many hosts the runs come from. -/

namespace Assayist

section Hosts

variable {F : Type}

def hostnameOf (run : Json F) : Option String :=
  (run.get "fingerprint").bind (·.getStr "hostname")

def oneHost (runs : List (Json F)) : Prop :=
  ∀ r ∈ runs, ∀ r' ∈ runs, ∀ h h', hostnameOf r = some h → hostnameOf r' = some h' → h = h'

variable [F64 F] [FloatText F] [Build]

def HostsKept (mode : String) (a b : List (Json F)) (cfg : Config F) : Prop :=
  ¬ oneHost (a ++ b) → ∃ e, judge mode a b cfg = .error e

/-- Runs of different hosts are refused exactly where any runs like them would be: there is
nothing to compare, or they are not admitted for another reason. -/
theorem hostsKept_iff (mode : String) (a b : List (Json F)) (cfg : Config F) :
    HostsKept mode a b cfg ↔ oneHost (a ++ b) ∨ ¬ Gradeable mode a b cfg := by
  unfold HostsKept
  rw [judge_error_iff]
  exact or_iff_not_imp_left.symm

end Hosts

section Runs

attribute [local instance] releaseBuild

def hostRun (hostname : String) : Json ℚ :=
  assembled "run" sampleIdentity { sampleFingerprint with hostname } (.object [])
    [oneReadFragment 0 0] []

def labRuns : List (Json ℚ) := [hostRun "lab", hostRun "lab"]

def edgeRuns : List (Json ℚ) := [hostRun "edge", hostRun "edge"]

theorem hostRuns_gradeable (mode : String) : Gradeable mode labRuns edgeRuns Config.default := by
  refine gradeable_of_uniform "single_tenant" "block.io_bytes:read|0:0|value" (fun run hrun => ?_)
    (by decide +kernel) ⟨?_, ?_⟩ fun _ => by decide
  · simp only [labRuns, edgeRuns, List.cons_append, List.nil_append, List.mem_cons,
      List.not_mem_nil, or_false] at hrun
    rcases hrun with rfl | rfl | rfl | rfl
    · exact ⟨rfl, rfl⟩
    · exact ⟨rfl, rfl⟩
    · exact ⟨rfl, rfl⟩
    · exact ⟨rfl, rfl⟩
  · decide +kernel
  · decide +kernel

theorem hostRuns_hosts : ¬ oneHost (labRuns ++ edgeRuns) := by
  intro hone
  have heq : ("lab" : String) = "edge" :=
    hone (hostRun "lab") (List.mem_append_left _ List.mem_cons_self) (hostRun "edge")
      (List.mem_append_right _ List.mem_cons_self) _ _ rfl rfl
  exact absurd heq (by decide)

/-- One host's runs against another's: every mode gives a verdict. -/
theorem hosts_compared :
    ¬ HostsKept "ab_permutation" labRuns edgeRuns Config.default ∧
    ¬ HostsKept "longitudinal_drift" labRuns edgeRuns Config.default ∧
    ¬ HostsKept "subsystem_triad" labRuns edgeRuns Config.default := by
  have hverdict (mode : String) : ¬ HostsKept mode labRuns edgeRuns Config.default :=
    fun hkept => judge_error_iff.1 (hkept hostRuns_hosts) (hostRuns_gradeable mode)
  exact ⟨hverdict _, hverdict _, hverdict _⟩

end Runs

end Assayist
