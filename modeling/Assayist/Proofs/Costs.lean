import Assayist.Proofs.Assembly
import Assayist.Spec.Gadgets
import Assayist.Spec.Owner

/-! The grade of an assembled run asks whether any fragment brought data and whether any
brought the cost of a probe, over all fragments at once. One gadget's cost records stand in
for another's. -/

namespace Assayist

section Grade

variable {F : Type} {fragments : List (Fragment F)}

def broughtData (fragments : List (Fragment F)) : Prop :=
  ∃ f ∈ fragments, f.series ≠ [] ∨ f.captureMeta.isSome = true

def broughtCosts (fragments : List (Fragment F)) : Prop := ∃ f ∈ fragments, f.selfMetrics ≠ []

theorem any_broughtData :
    (fragments.any fun f => !f.series.isEmpty || f.captureMeta.isSome) = true ↔
      broughtData fragments := by
  unfold broughtData
  rw [List.any_eq_true]
  refine exists_congr fun f => and_congr_right fun _ => ?_
  rw [Bool.or_eq_true, Bool.not_eq_true', List.isEmpty_eq_false_iff]

theorem flatMap_broughtCosts :
    fragments.flatMap (·.selfMetrics) ≠ [] ↔ broughtCosts fragments := by
  unfold broughtCosts
  rw [ne_eq, List.flatMap_eq_nil_iff]
  simp only [not_forall, exists_prop, ne_eq]

variable [BEq F]

/-- What the grade `reproducible` takes besides cost records: prep that took, a run of our
own, and a full fingerprint. -/
structure FullyPrepared (identity : Identity F) (fingerprint : Fingerprint F) : Prop where
  tuned : fingerprint.tuningConsistent = true
  own : identity.source ≠ "imported"
  extended : fingerprint.hasExtended = true

variable {runId : String} {identity : Identity F} {fingerprint : Fingerprint F} {gate : Json F}
  {spans : List (Json F)}

theorem computeGrade_invalid {run : AssayRun F} {probesRan : Bool} :
    run.computeGrade probesRan = .invalid ↔ run.fingerprint.tuningConsistent = false := by
  unfold AssayRun.computeGrade
  split_ifs with htuned hsource
  · simpa using htuned
  · simpa using htuned
  · simp only
    split_ifs
    · simpa using htuned
    · simpa using htuned

theorem computeGrade_reproducible {run : AssayRun F} {probesRan : Bool} :
    run.computeGrade probesRan = .reproducible ↔
      FullyPrepared run.identity run.fingerprint ∧ (probesRan = true → run.selfMetrics ≠ []) := by
  have hcosts : (!probesRan || !run.selfMetrics.isEmpty) = true ↔
      (probesRan = true → run.selfMetrics ≠ []) := by
    cases probesRan with
    | false => simp
    | true => simp
  unfold AssayRun.computeGrade
  split_ifs with htuned hsource
  · refine iff_of_false (by decide) fun h => ?_
    rw [h.1.tuned] at htuned
    exact absurd htuned (by decide)
  · refine iff_of_false (by decide) fun h => ?_
    exact h.1.own (beq_iff_eq.1 hsource)
  · simp only
    split_ifs with hboth
    · rw [Bool.and_eq_true, hcosts] at hboth
      refine iff_of_true rfl ⟨⟨by simpa using htuned, ?_, hboth.1⟩, hboth.2⟩
      exact fun h => hsource (beq_iff_eq.2 h)
    · refine iff_of_false (by decide) fun h => hboth ?_
      rw [Bool.and_eq_true, hcosts]
      exact ⟨h.1.extended, h.2⟩

theorem assemble_invalid :
    (AssayRun.assemble runId identity fingerprint gate fragments spans).grade = .invalid ↔
      fingerprint.tuningConsistent = false := computeGrade_invalid

/-- An assembled run is reproducible when it is fully prepared and, if any fragment brought
data, some fragment brought costs. -/
theorem assemble_reproducible :
    (AssayRun.assemble runId identity fingerprint gate fragments spans).grade = .reproducible ↔
      FullyPrepared identity fingerprint ∧ (broughtData fragments → broughtCosts fragments) := by
  rw [← any_broughtData, ← flatMap_broughtCosts]
  exact computeGrade_reproducible

end Grade

section Carried

variable {F : Type}

/-- The sources that are no eBPF program. -/
def userspaceSources : List String := ["hostmem", "resident"]

/-- The gadgets that attach none. -/
def userspaceGadgets : List String :=
  ["hostmem", "resident", "assayist-capture-resident", "assayist-capture-netattrib"]

def ebpfSeries (s : Json F) : Prop :=
  ∃ source, s.getStr "source" = some source ∧ source ∉ userspaceSources

/-- A fragment of an eBPF gadget, told by its series or by its metadata. -/
def ebpfFragment (f : Fragment F) : Prop :=
  (∃ s ∈ f.series, ebpfSeries s) ∨
    ∃ v, f.captureMeta = some v ∧ ∃ gadget, v.getStr "gadget" = some gadget ∧
      gadget ∉ userspaceGadgets

/-- The owner of the attribution map loads no program and owes no costs. -/
theorem owner_probeless (stats : Owner.Stats) (windowNs : UInt64) :
    ¬ ebpfFragment (Owner.fragment (F := F) stats windowNs) := by
  rintro (⟨s, hs, -⟩ | ⟨v, hv, gadget, hgadget, hebpf⟩)
  · exact absurd hs List.not_mem_nil
  · obtain rfl := Option.some.inj hv
    obtain rfl : "assayist-capture-netattrib" = gadget := Option.some.inj hgadget
    exact hebpf (by decide)

def costedBy (costs : List (Json F)) (s : Json F) : Prop :=
  ∃ pc ∈ costs, ∃ source, s.getStr "source" = some source ∧ pc.getStr "probe_id" = some source

/-- Every eBPF fragment carries costs, and each of its series' program is among them. -/
structure CostsCarried (fragments : List (Fragment F)) : Prop where
  present : ∀ f ∈ fragments, ebpfFragment f → f.selfMetrics ≠ []
  own : ∀ f ∈ fragments, ∀ s ∈ f.series, ebpfSeries s → costedBy f.selfMetrics s

variable [BEq F] {runId : String} {identity : Identity F} {fingerprint : Fingerprint F}
  {gate : Json F} {fragments : List (Fragment F)} {spans : List (Json F)}

/-- Carried costs are there in the assembled run. -/
theorem CostsCarried.assemble (h : CostsCarried fragments) {s : Json F}
    (hs : s ∈ (AssayRun.assemble runId identity fingerprint gate fragments spans).series)
    (hebpf : ebpfSeries s) :
    costedBy (AssayRun.assemble runId identity fingerprint gate fragments spans).selfMetrics s := by
  obtain ⟨f, hf, hs⟩ := List.mem_flatMap.1 hs
  obtain ⟨pc, hpc, hsource⟩ := h.own f hf s hs hebpf
  exact ⟨pc, List.mem_flatMap.2 ⟨f, hf, hpc⟩, hsource⟩

/-- A reproducible run owes no costs: those of every fragment are carried by the fragment
itself, and so are found in the run. -/
def ReproducibleCosted (runId : String) (identity : Identity F) (fingerprint : Fingerprint F)
    (gate : Json F) (fragments : List (Fragment F)) (spans : List (Json F)) : Prop :=
  (AssayRun.assemble runId identity fingerprint gate fragments spans).grade = .reproducible →
    CostsCarried fragments ∧
    ∀ s ∈ (AssayRun.assemble runId identity fingerprint gate fragments spans).series,
      ebpfSeries s →
        costedBy (AssayRun.assemble runId identity fingerprint gate fragments spans).selfMetrics s

/-- It owes none exactly when the run could not be reproducible anyway, when no fragment
brought costs although one brought data, or when every fragment carries its own. -/
theorem reproducibleCosted_iff (runId : String) (identity : Identity F)
    (fingerprint : Fingerprint F) (gate : Json F) (fragments : List (Fragment F))
    (spans : List (Json F)) :
    ReproducibleCosted runId identity fingerprint gate fragments spans ↔
      ¬ FullyPrepared identity fingerprint ∨
        (broughtData fragments ∧ ¬ broughtCosts fragments) ∨ CostsCarried fragments := by
  unfold ReproducibleCosted
  rw [assemble_reproducible]
  apply Iff.intro
  · intro h
    by_cases hprep : FullyPrepared identity fingerprint
    · right
      by_cases hcosts : broughtData fragments → broughtCosts fragments
      · exact .inr (h ⟨hprep, hcosts⟩).1
      · exact .inl (Classical.not_imp.1 hcosts)
    · exact .inl hprep
  · rintro hcond ⟨hprep, hcosts⟩
    rcases hcond with hnot | ⟨hdata, hnone⟩ | hcarried
    · exact absurd hprep hnot
    · exact absurd (hcosts hdata) hnone
    · exact ⟨hcarried, fun s hs hebpf => hcarried.assemble hs hebpf⟩

end Carried

section Runs

attribute [local instance] releaseBuild

def costedKvm : Fragment ℚ where
  series := [seriesJson "kvm.exit_handling_latency:HLT" "ns" "histogram" "kvm_exit" none singleton
    (log2Data [1] 1)]
  selfMetrics := [.object [("probe_id", .string "kvm_exit"), ("over_budget", .bool false)],
    .object [("probe_id", .string "kvm_entry"), ("over_budget", .bool false)]]
  captureMeta := some (.object [("gadget", .string "assayist-capture-kvm")])

def uncostedBlock : Fragment ℚ where
  series := [seriesJson "block.io_latency:read" "ns" "histogram" "block_rq_complete" (some "0:0")
    (bounded "device" 1) (log2Data [1] 1)]
  selfMetrics := []
  captureMeta := some (.object [("gadget", .string "assayist-capture-block")])

/-- With the kvm gadget beside it, a block gadget without costs makes a reproducible run. -/
theorem costs_stand_in :
    ¬ ReproducibleCosted "run" sampleIdentity sampleFingerprint (.object [])
      [costedKvm, uncostedBlock] [] := by
  intro h
  have hgrade : (AssayRun.assemble "run" sampleIdentity sampleFingerprint (.object [])
      [costedKvm, uncostedBlock] []).grade = .reproducible := by decide +kernel
  have hebpf : ebpfFragment uncostedBlock :=
    .inl ⟨_, List.mem_cons_self, "block_rq_complete", rfl, by decide⟩
  exact (h hgrade).1.present uncostedBlock (List.mem_cons_of_mem _ List.mem_cons_self) hebpf rfl

end Runs

end Assayist
