import Assayist.Proofs.Assembly
import Assayist.Spec.Gadgets

/-! A gadget says in its fragment's `capture_meta` that its map filled up, and how long
its window was. Assembling the fragments into a run keeps neither. -/

namespace Assayist

section Meta

variable {F : Type} [F64 F]

def metaOverflow (f : Fragment F) : Bool :=
  (f.captureMeta.bind (·.getBool "cardinality_overflow")).getD false

def metaWindow (f : Fragment F) : Prop :=
  ∃ w, f.captureMeta.bind (·.getF64 "window_ns") = some w ∧ 0 < w

variable [FloatText F] [Build]

/-- What a fragment's metadata asks of the metrics of one of its series: truncated ones
are contaminated, and no comparison of them can pass or fail; counters have a rate. -/
def MetaReaches (run : Json F) (f : Fragment F) (s : Json F) (ms : List (Metric F)) : Prop :=
  (metaOverflow f = true →
    (∀ m ∈ ms, m.contaminated = true) ∧
    ∀ (a b : List (Json F)) (cfg : Config F) (rep : AbReport F), run ∈ a ∨ run ∈ b →
      ab a b cfg = .ok rep → ∀ m ∈ ms, ∀ d ∈ rep.detail, d.id = m.id →
        ignored cfg m.id = false → rep.outcome.verdict = .contaminated) ∧
  (metaWindow f → isCounter s = true →
    ∃ m ∈ ms, m.id = (seriesHead (overbudgetSources run) (globalOverflow run) s).base ++ "|rate")

/-- A run that reduces to `total` keeps the metadata of the fragments it was assembled
from. -/
def KeepsMeta (run : Json F) (total : List (Metric F)) (fragments : List (Fragment F)) : Prop :=
  ∀ f ∈ fragments, ∀ s ∈ f.series, ∃ ms, metricsOf run s = .ok ms ∧ (∀ m ∈ ms, m ∈ total) ∧
    MetaReaches run f s ms

section Assembled

variable {runId : String} {identity : Identity F} {fingerprint : Fingerprint F}
  {gate : Json F} {fragments : List (Fragment F)} {spans : List (Json F)}

theorem metaReaches_iff {total : List (Metric F)}
    (h : reduce (assembled runId identity fingerprint gate fragments spans) = .ok total)
    {f : Fragment F} (hf : f ∈ fragments) {s : Json F} (hs : s ∈ f.series) {ms : List (Metric F)}
    (hms : metricsOf (assembled runId identity fingerprint gate fragments spans) s = .ok ms) :
    MetaReaches (assembled runId identity fingerprint gate fragments spans) f s ms ↔
      (metaOverflow f = true → yields s = true → (sourceOver fragments s || flagged s) = true) ∧
      ¬ (metaWindow f ∧ isCounter s = true) := by
  have hcont := seriesMetrics_contaminated hms
  rw [assembled_contaminated] at hcont
  have hrate := fun hc => seriesMetrics_rate (s := s) hms hc
  rw [assembled, windowNs_toJson] at hrate
  apply Iff.intro
  · intro h
    obtain ⟨hover, hwin⟩ := h
    refine ⟨fun ho => hcont.1 (hover ho).1, fun hboth => ?_⟩
    obtain ⟨hw, hc⟩ := hboth
    obtain ⟨w, hw, -⟩ := (hrate hc).1 (hwin hw hc)
    exact absurd hw (by simp)
  · intro h
    obtain ⟨hover, hwin⟩ := h
    refine ⟨fun ho => ?_, fun hw hc => absurd ⟨hw, hc⟩ hwin⟩
    have hall := hcont.2 (hover ho)
    refine ⟨hall, fun a b cfg rep hrun hab m hm d hd hid hign => ?_⟩
    obtain ⟨ms', hms', hsub⟩ := assembled_series h hf hs
    obtain rfl : ms' = ms := Except.ok.inj (hms'.symm.trans hms)
    exact ab_contaminated hab hrun h (hsub m hm) (hall m hm) hd hid hign

/-- An assembled run keeps its fragments' metadata exactly when none of it matters: every
series of a truncated fragment that yields metrics is contaminated by itself, and no
fragment with a window has a counter. -/
theorem keepsMeta_assembled (runId : String) (identity : Identity F)
    (fingerprint : Fingerprint F) (gate : Json F) (fragments : List (Fragment F))
    (spans : List (Json F)) (total : List (Metric F))
    (h : reduce (assembled runId identity fingerprint gate fragments spans) = .ok total) :
    KeepsMeta (assembled runId identity fingerprint gate fragments spans) total fragments ↔
      ∀ f ∈ fragments, ∀ s ∈ f.series,
        (metaOverflow f = true → yields s = true →
          sourceOver fragments s = true ∨ flagged s = true) ∧
        ¬ (metaWindow f ∧ isCounter s = true) := by
  unfold KeepsMeta
  refine forall₂_congr fun f hf => forall₂_congr fun s hs => ?_
  rw [← Bool.or_eq_true]
  apply Iff.intro
  · intro h
    obtain ⟨ms, hms, -, hreach⟩ := h
    exact (metaReaches_iff h hf hs hms).1 hreach
  · intro hcond
    obtain ⟨ms, hms, hsub⟩ := assembled_series h hf hs
    exact ⟨ms, hms, hsub, (metaReaches_iff h hf hs hms).2 hcond⟩

end Assembled

end Meta

section Runs

attribute [local instance] releaseBuild

/-- One exit reason seen once, in a map with room for a number of keys. -/
def oneExit (maxEntries : UInt64) : KvmCapture ℚ where
  vendor := "intel"
  perGuest := false
  maxKeys := 1
  hists := [⟨1, 12, [1]⟩]
  maxEntries
  exitStats := ⟨0, 0⟩
  entryStats := ⟨0, 0⟩
  window := ⟨1000, 1⟩

/-- Beside a kvm map filled by its one key, whose probe took more than its budget, a counter of
a gadget that gives no window. -/
def filledMaps : List (Fragment ℚ) :=
  [kvmFragment { oneExit 1 with exitStats := ⟨500, 2⟩, window := ⟨1000, 1 / 100⟩ },
    { series := [.object [("name", .string "mem.reads"), ("unit", .string "By"),
        ("kind", .string "counter"), ("source", .string "mem_read"),
        ("data", .object [("value", .nat 4096)])]]
      selfMetrics := [], captureMeta := none }]

/-- The overflow is not heard of either, but the series is contaminated by its probe. -/
theorem keepsMeta_filled :
    filledMaps.map metaOverflow = [true, false] ∧
    filledMaps.flatMap (fun f => f.series.map isCounter) = [false, true] ∧
    ∃ total, reduce (sampleRun filledMaps) = .ok total ∧
      KeepsMeta (sampleRun filledMaps) total filledMaps := by
  have hok : (reduce (sampleRun filledMaps)).isOk = true := by decide +kernel
  obtain ⟨total, htotal⟩ := Results.exists_ok hok
  refine ⟨rfl, rfl, total, htotal,
    (keepsMeta_assembled _ _ _ _ _ _ total htotal).2 fun f hf s hs => ?_⟩
  rcases List.mem_cons.1 hf with rfl | hf
  · obtain rfl := List.mem_singleton.1 hs
    exact ⟨fun _ _ => .inl (by decide +kernel), fun h => absurd h.2 (by decide)⟩
  · obtain rfl := List.mem_singleton.1 hf
    refine ⟨fun hover => absurd hover (by decide), fun h => ?_⟩
    obtain ⟨w, hw, -⟩ := h.1
    cases hw

/-- A kvm map filled by its one key: the gadget says so, and the gate never hears. -/
theorem filled_map_unheard :
    ∃ total, reduce (sampleRun [kvmFragment (oneExit 1)]) = .ok total ∧
      ¬ KeepsMeta (sampleRun [kvmFragment (oneExit 1)]) total [kvmFragment (oneExit 1)] := by
  have hok : (reduce (sampleRun [kvmFragment (oneExit 1)])).isOk = true := by decide +kernel
  obtain ⟨total, htotal⟩ := Results.exists_ok hok
  refine ⟨total, htotal, fun h => ?_⟩
  obtain ⟨ms, hms, -, hreach⟩ := h _ List.mem_cons_self _ List.mem_cons_self
  have hhead := (seriesMetrics_contaminated hms).1 (hreach.1 (by decide)).1 (by decide)
  rw [sampleRun, assembled_contaminated] at hhead
  exact absurd hhead (by decide +kernel)

end Runs

end Assayist
