import Assayist.Proofs.Assembly
import Assayist.Spec.Gadgets

/-! A gadget's series name one source, and a gadget attaches two or three probes. Over
budget, only the probe that is the source contaminates the series. -/

namespace Assayist

section Loaders

variable {F : Type}

/-- The three loaders, each with what its window captured. -/
inductive Loader (F : Type) where
  | kvm (c : KvmCapture F)
  | block (c : BlockCapture F)
  | ctrlplane (c : CtrlplaneCapture F)

def Loader.source : Loader F → String
  | .kvm _ => "kvm_exit"
  | .block _ => "block_rq_complete"
  | .ctrlplane _ => "sched_switch"

def Loader.fragment [F64 F] [Build] : Loader F → Except Abort (Fragment F)
  | .kvm c => .ok (kvmFragment c)
  | .block c => blockFragment c
  | .ctrlplane c => .ok (ctrlplaneFragment c)

/-- A record of a loader: it reduces to metrics, names the source, and is not flagged. -/
def LoaderSeries (source : String) (s : Json F) : Prop :=
  yields s = true ∧ s.getStr "source" = some source ∧ flagged s = false

theorem seriesJson_loader {name unit kind source : String} {key : Option String}
    {cardinality data : Json F} (hkind : kind = "histogram" ∨ kind = "counter") :
    LoaderSeries source (seriesJson name unit kind source key cardinality data) := by
  rcases hkind with rfl | rfl <;> rcases key with _ | key <;>
    exact ⟨rfl, rfl, rfl⟩

theorem kvmSeries_loader {c : KvmCapture F} {h : KvmHist} {s : Json F}
    (hs : kvmSeries c h = some s) : LoaderSeries "kvm_exit" s := by
  obtain ⟨-, hs⟩ := Option.ite_none_left_eq_some.1 hs
  rw [← Option.some.inj hs]
  exact seriesJson_loader (.inl rfl)

theorem runqSeries_loader {c : CtrlplaneCapture F} {h : RunqHist} {s : Json F}
    (hs : runqSeries c h = some s) : LoaderSeries "sched_switch" s := by
  obtain ⟨-, hs⟩ := Option.ite_none_left_eq_some.1 hs
  rw [← Option.some.inj hs]
  exact seriesJson_loader (.inl rfl)

variable [F64 F] [Build]

theorem blockSeries_loader {c : BlockCapture F} {st : BlkStat} {ss : List (Json F)}
    (hss : blockSeries c st = .ok ss) {s : Json F} (hs : s ∈ ss) :
    LoaderSeries "block_rq_complete" s := by
  unfold blockSeries at hss
  simp only at hss
  split_ifs at hss
  · rw [← Results.pure_eq_ok.1 hss] at hs
    exact absurd hs List.not_mem_nil
  all_goals
    obtain ⟨data, -, hdata⟩ := Results.bind_eq_ok.1 hss
    rw [← Results.pure_eq_ok.1 hdata] at hs
    simp only [List.mem_cons, List.not_mem_nil, or_false] at hs
    rcases hs with rfl | rfl
    · exact seriesJson_loader (.inl rfl)
    · exact seriesJson_loader (.inr rfl)

theorem loader_series {l : Loader F} {f : Fragment F} (hf : l.fragment = .ok f) {s : Json F}
    (hs : s ∈ f.series) : LoaderSeries l.source s := by
  cases l with
  | kvm c =>
    cases hf
    obtain ⟨h, -, hh⟩ := List.mem_filterMap.1 hs
    exact kvmSeries_loader hh
  | block c =>
    simp only [Loader.fragment, blockFragment, Results.bind_eq_ok, Results.mapM_eq_ok,
      Results.pure_eq_ok] at hf
    obtain ⟨parts, hparts, rfl⟩ := hf
    obtain ⟨ss, hss, hs⟩ := List.mem_flatten.1 hs
    obtain ⟨st, -, hst⟩ := Results.exists_left hparts hss
    exact blockSeries_loader hst hs
  | ctrlplane c =>
    cases hf
    rcases List.mem_append.1 hs with hs | hs
    · obtain ⟨h, -, hh⟩ := List.mem_filterMap.1 hs
      exact runqSeries_loader hh
    · obtain ⟨o, -, rfl⟩ := List.mem_map.1 hs
      exact seriesJson_loader (.inr rfl)

end Loaders

section Budget

variable {F : Type} [F64 F]

def anyOver (f : Fragment F) : Prop :=
  ∃ pc ∈ f.selfMetrics, (pc.getBool "over_budget").getD false = true

variable [FloatText F] [Build]

/-- What a probe over budget asks of the metrics of a series: they are contaminated, and
so is every comparison that reads one. -/
def BudgetReaches (run : Json F) (ms : List (Metric F)) : Prop :=
  (∀ m ∈ ms, m.contaminated = true) ∧
  ∀ (a b : List (Json F)) (cfg : Config F) (rep : AbReport F), run ∈ a ∨ run ∈ b →
    ab a b cfg = .ok rep → ∀ m ∈ ms, ∀ d ∈ rep.detail, d.id = m.id →
      ignored cfg m.id = false → rep.outcome.verdict = .contaminated

def BudgetKept (run : Json F) (total : List (Metric F)) (f : Fragment F) : Prop :=
  anyOver f → ∀ s ∈ f.series, ∃ ms, metricsOf run s = .ok ms ∧ (∀ m ∈ ms, m ∈ total) ∧
    BudgetReaches run ms

/-- In a run assembled from fragments, a loader's over-budget probe reaches its series
exactly when the probe that is their source is over budget, here or in another fragment. -/
theorem budgetKept_iff (runId : String) (identity : Identity F) (fingerprint : Fingerprint F)
    (gate : Json F) (fragments : List (Fragment F)) (spans : List (Json F))
    (total : List (Metric F)) (l : Loader F) (f : Fragment F) (hl : l.fragment = .ok f)
    (hf : f ∈ fragments)
    (h : reduce (assembled runId identity fingerprint gate fragments spans) = .ok total) :
    BudgetKept (assembled runId identity fingerprint gate fragments spans) total f ↔
      ¬ anyOver f ∨ f.series = [] ∨
        l.source ∈ overBudgetIds (fragments.flatMap (·.selfMetrics)) := by
  have hcont {s : Json F} (hs : s ∈ f.series) {ms : List (Metric F)}
      (hms : metricsOf (assembled runId identity fingerprint gate fragments spans) s = .ok ms) :
      (∀ m ∈ ms, m.contaminated = true) ↔
        l.source ∈ overBudgetIds (fragments.flatMap (·.selfMetrics)) := by
    obtain ⟨hy, hsource, hflag⟩ := loader_series hl hs
    rw [seriesMetrics_contaminated hms, assembled_contaminated]
    simp [hy, hflag, sourceOver, hsource]
  apply Iff.intro
  · intro hkept
    by_cases hover : anyOver f
    · right
      cases hseries : f.series with
      | nil => exact .inl rfl
      | cons s ss =>
        have hs : s ∈ f.series := hseries ▸ List.mem_cons_self
        obtain ⟨ms, hms, -, hreach⟩ := hkept hover s hs
        exact .inr ((hcont hs hms).1 hreach.1)
    · exact .inl hover
  · intro hcond hover s hs
    have hsource : l.source ∈ overBudgetIds (fragments.flatMap (·.selfMetrics)) := by
      rcases hcond with hn | hnil | hsource
      · exact absurd hover hn
      · rw [hnil] at hs
        exact absurd hs List.not_mem_nil
      · exact hsource
    obtain ⟨ms, hms, hsub⟩ := assembled_series h hf hs
    have hall := (hcont hs hms).2 hsource
    refine ⟨ms, hms, hsub, hall, fun a b cfg rep hrun hab m hm d hd hid hign => ?_⟩
    exact ab_contaminated hab hrun h (hsub m hm) (hall m hm) hd hid hign

end Budget

section Runs

attribute [local instance] releaseBuild

def oneRead (issueNs completeNs : UInt64) : BlockCapture ℚ where
  maxKeys := 1
  hires := false
  stats := [⟨0, false, [1], 512⟩]
  issueStats := ⟨issueNs, 1⟩
  completeStats := ⟨completeNs, 1⟩
  window := ⟨1000, 1 / 10⟩

def oneReadFragment (issueNs completeNs : UInt64) : Fragment ℚ where
  series :=
    [seriesJson "block.io_latency:read" "ns" "histogram" "block_rq_complete" (some "0:0")
      (bounded "device" 1) (log2Data (1 :: List.replicate 39 0) 1),
    seriesJson "block.io_bytes:read" "By" "counter" "block_rq_complete" (some "0:0")
      (bounded "device" 1) (.object [("value", .nat 512), ("start_unix_nano", .nat 0)])]
  selfMetrics :=
    [probeCost (oneRead issueNs completeNs).window "tracepoint" "block_rq_issue" ⟨issueNs, 1⟩ true,
    probeCost (oneRead issueNs completeNs).window "tracepoint" "block_rq_complete"
      ⟨completeNs, 1⟩ true]
  captureMeta := some (.object [("gadget", .string "assayist-capture-block"),
    ("window_ns", .nat 1000)])

theorem completion_over_budget :
    ∃ f total, blockFragment (oneRead 0 500) = .ok f ∧ reduce (sampleRun [f]) = .ok total ∧
      anyOver f ∧ BudgetKept (sampleRun [f]) total f := by
  have hf : blockFragment (oneRead 0 500) = .ok (oneReadFragment 0 500) := by rfl
  have hok : (reduce (sampleRun [oneReadFragment 0 500])).isOk = true := by decide +kernel
  obtain ⟨total, htotal⟩ := Results.exists_ok hok
  refine ⟨oneReadFragment 0 500, total, hf, htotal, ?_, ?_⟩
  · exact ⟨_, List.mem_cons_of_mem _ List.mem_cons_self, by decide +kernel⟩
  · exact (budgetKept_iff _ _ _ _ _ _ total (.block (oneRead 0 500)) _ hf List.mem_cons_self
      htotal).2 (.inr (.inr (by decide +kernel)))

/-- The issue probe over budget: the latency it stamps the start of stays clean. -/
theorem issue_over_budget :
    ∃ f total, blockFragment (oneRead 500 0) = .ok f ∧ reduce (sampleRun [f]) = .ok total ∧
      ¬ BudgetKept (sampleRun [f]) total f := by
  have hf : blockFragment (oneRead 500 0) = .ok (oneReadFragment 500 0) := by rfl
  have hok : (reduce (sampleRun [oneReadFragment 500 0])).isOk = true := by decide +kernel
  obtain ⟨total, htotal⟩ := Results.exists_ok hok
  refine ⟨oneReadFragment 500 0, total, hf, htotal, fun hkept => ?_⟩
  have hover : anyOver (oneReadFragment 500 0) := ⟨_, List.mem_cons_self, by decide +kernel⟩
  obtain ⟨ms, hms, -, hreach⟩ := hkept hover _ List.mem_cons_self
  have hhead := (seriesMetrics_contaminated hms).1 hreach.1 (by decide)
  rw [sampleRun, assembled_contaminated] at hhead
  exact absurd hhead (by decide +kernel)

end Runs

end Assayist
