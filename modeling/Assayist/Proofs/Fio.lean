import Assayist.Proofs.Power
import Assayist.Proofs.Signs
import Assayist.Proofs.Tokens
import Assayist.Spec.Native

/-! How fio's numbers are graded once its summary is a run's workload report. The summary's
names for the completion latencies and the bandwidth fit no rule of the polarity, so only the
I/O rates have a direction. -/

namespace Assayist

section Leaves

variable {F : Type} [F64 F]

mutual

/-- Every leaf of a value lies at or below the value's path. -/
theorem flattenNumbers_below {path : String} (hpath : path ≠ "") :
    ∀ v : Json F, ∀ e ∈ flattenNumbers path v, path.toList <+: e.1.toList
  | .object m, e, he => by
    rw [flattenNumbers] at he
    exact (List.prefix_append _ _).trans (flattenFields_below hpath m e he)
  | .number n, e, he => by
    rw [flattenNumbers, List.mem_singleton] at he
    rw [he]
  | .null, e, he => by simp [flattenNumbers] at he
  | .bool _, e, he => by simp [flattenNumbers] at he
  | .string _, e, he => by simp [flattenNumbers] at he
  | .array _, e, he => by simp [flattenNumbers] at he

theorem flattenFields_below {path : String} (hpath : path ≠ "") :
    ∀ m : List (String × Json F), ∀ e ∈ flattenFields path m,
      path.toList ++ ['.'] <+: e.1.toList
  | [], e, he => by simp [flattenFields] at he
  | (k, v) :: m, e, he => by
    have hempty : path.isEmpty = false := by simpa using hpath
    rw [flattenFields, hempty, List.mem_append] at he
    rcases he with he | he
    · have hne : path ++ "." ++ k ≠ "" := by simp
      have hbelow := flattenNumbers_below hne v e he
      rw [String.toList_append, String.toList_append] at hbelow
      exact (List.prefix_append _ _).trans hbelow
    · exact flattenFields_below hpath m e he

end

theorem mem_flattenNumbers_self {path : String} (hpath : path ≠ "") {v : Json F} {x : F} :
    (path, x) ∈ flattenNumbers path v ↔ v.asF64 = some x := by
  cases v with
  | number n => simp [flattenNumbers, Json.asF64, eq_comm]
  | object m =>
    refine iff_of_false ?_ (by simp [Json.asF64])
    intro h
    rw [flattenNumbers] at h
    have hlen := (flattenFields_below hpath m _ h).length_le
    simp at hlen
  | null => simp [flattenNumbers, Json.asF64]
  | bool b => simp [flattenNumbers, Json.asF64]
  | string s => simp [flattenNumbers, Json.asF64]
  | array xs => simp [flattenNumbers, Json.asF64]

end Leaves

section Summary

variable {F : Type} [F64 F]

def fioSide (v : Json F) (side : String) : Option (Json F) := (fioJob v).bind (·.get side)

def fioClat (v : Json F) (side : String) : Option (Json F) :=
  (fioSide v side).bind fun d => (d.get "clat_ns").or (d.get "clat")

/-- A direction in which fio gives no number for a completion latency or for the bandwidth. -/
structure Unmeasured (v : Json F) (side : String) : Prop where
  mean : ((fioClat v side).bind (·.get "mean")).bind Json.asF64 = none
  p99 : (((fioClat v side).bind (·.get "percentile")).bind (·.get "99.000000")).bind
    Json.asF64 = none
  bandwidth : ((fioSide v side).bind (·.get "bw")).bind Json.asF64 = none

def fioMeasures (v : Json F) (side : String) : List (String × Option (Json F)) :=
  [(".iops", (fioSide v side).bind (·.get "iops")),
    (".bw_kb_s", (fioSide v side).bind (·.get "bw")),
    (".clat_ns_mean", (fioClat v side).bind (·.get "mean")),
    (".clat_ns_p99", ((fioClat v side).bind (·.get "percentile")).bind (·.get "99.000000"))]

def fioParts (v : Json F) : List (String × Json F) :=
  ("fio_version", ((v.get "fio version").or (v.get "fio_version")).getD .null) ::
    ["read", "write"].flatMap fun side =>
      (fioMeasures v side).map fun p => (side ++ p.1, p.2.getD .null)

theorem flattenNumbers_fioSummary (v : Json F) :
    flattenNumbers "" (fioSummary v) = (fioParts v).flatMap fun p => flattenNumbers p.1 p.2 := by
  simp [fioSummary, fioDir, fioParts, fioMeasures, fioSide, fioClat, flattenNumbers, flattenFields]

def fioLatencies : List String :=
  ["read.clat_ns_mean", "read.clat_ns_p99", "write.clat_ns_mean", "write.clat_ns_p99"]

def fioBandwidths : List String := ["read.bw_kb_s", "write.bw_kb_s"]

def fioRates : List String := ["read.iops", "write.iops"]

def fioPaths : List String := "fio_version" :: fioLatencies ++ fioBandwidths ++ fioRates

omit [F64 F] in
theorem fioParts_paths (v : Json F) : (fioParts v).map Prod.fst =
    ["fio_version", "read.iops", "read.bw_kb_s", "read.clat_ns_mean", "read.clat_ns_p99",
      "write.iops", "write.bw_kb_s", "write.clat_ns_mean", "write.clat_ns_p99"] := rfl

omit [F64 F] in
theorem mem_fioParts {v : Json F} {p : String × Json F} (h : p ∈ fioParts v) : p.1 ∈ fioPaths := by
  have hmem := List.mem_map_of_mem (f := Prod.fst) h
  rw [fioParts_paths] at hmem
  revert hmem
  generalize p.1 = k
  revert k
  decide

/-- No path of a summary lies below another. -/
theorem fioPaths_apart : ∀ k ∈ fioPaths, ∀ l ∈ fioPaths, l.toList <+: k.toList → l = k := by
  decide +kernel

theorem fioPaths_ne : ∀ k ∈ fioPaths, k ≠ "" := by
  decide

theorem mem_fioLeaves {v : Json F} {k : String} (hk : k ∈ fioPaths) {x : F} :
    (k, x) ∈ flattenNumbers "" (fioSummary v) ↔
      ∃ p ∈ fioParts v, p.1 = k ∧ p.2.asF64 = some x := by
  rw [flattenNumbers_fioSummary, List.mem_flatMap]
  apply Iff.intro
  · intro h
    obtain ⟨p, hp, hleaf⟩ := h
    have hpath := mem_fioParts hp
    have hbelow := flattenNumbers_below (fioPaths_ne _ hpath) _ _ hleaf
    obtain rfl := fioPaths_apart _ hk _ hpath hbelow
    exact ⟨p, hp, rfl, (mem_flattenNumbers_self (fioPaths_ne _ hpath)).1 hleaf⟩
  · intro h
    obtain ⟨p, hp, rfl, hx⟩ := h
    exact ⟨p, hp, (mem_flattenNumbers_self (fioPaths_ne _ hk)).2 hx⟩

theorem asF64_getD (o : Option (Json F)) : (o.getD .null).asF64 = o.bind Json.asF64 := by
  cases o with
  | none => rfl
  | some v => rfl

theorem fioLeaf_none {v w : Json F} {k : String} (h : (k, w) ∈ fioParts v) :
    (∀ x, (k, x) ∉ flattenNumbers "" (fioSummary v)) ↔ w.asF64 = none := by
  have hdistinct : ((fioParts v).map Prod.fst).Nodup := by
    rw [fioParts_paths]
    decide
  rw [Option.eq_none_iff_forall_ne_some]
  apply forall_congr'
  intro x
  apply not_congr
  rw [mem_fioLeaves (mem_fioParts h)]
  apply Iff.intro
  · intro hx
    obtain ⟨p, hp, hpath, hx⟩ := hx
    obtain rfl := List.inj_on_of_nodup_map hdistinct hp h hpath
    exact hx
  · intro hx
    exact ⟨_, h, rfl, hx⟩

theorem fioMeasure_none {v : Json F} {side : String} (hside : side ∈ ["read", "write"])
    {p : String × Option (Json F)} (hp : p ∈ fioMeasures v side) :
    (∀ x, (side ++ p.1, x) ∉ flattenNumbers "" (fioSummary v)) ↔ p.2.bind Json.asF64 = none := by
  have hpart : (side ++ p.1, p.2.getD .null) ∈ fioParts v :=
    List.mem_cons_of_mem _ (List.mem_flatMap.2 ⟨side, hside, List.mem_map_of_mem hp⟩)
  rw [fioLeaf_none hpart, asF64_getD]

/-- A direction's latency and bandwidth leaves are missing exactly where fio did not measure
them. -/
theorem unmeasured_iff {v : Json F} {side : String} (hside : side ∈ ["read", "write"]) :
    Unmeasured v side ↔
      ∀ suffix ∈ [".clat_ns_mean", ".clat_ns_p99", ".bw_kb_s"], ∀ x,
        (side ++ suffix, x) ∉ flattenNumbers "" (fioSummary v) := by
  have hmean := fioMeasure_none (v := v) hside
    (p := (".clat_ns_mean", (fioClat v side).bind (·.get "mean"))) (by simp [fioMeasures])
  have hp99 := fioMeasure_none (v := v) hside
    (p := (".clat_ns_p99",
      ((fioClat v side).bind (·.get "percentile")).bind (·.get "99.000000"))) (by simp [fioMeasures])
  have hbw := fioMeasure_none (v := v) hside
    (p := (".bw_kb_s", (fioSide v side).bind (·.get "bw"))) (by simp [fioMeasures])
  simp only [List.forall_mem_cons, List.not_mem_nil, false_imp_iff, implies_true, and_true]
  rw [hmean, hp99, hbw]
  exact ⟨fun h => ⟨h.mean, h.p99, h.bandwidth⟩, fun h => ⟨h.1, h.2.1, h.2.2⟩⟩

/-- The paths of the leaves that the polarity leaves without a direction. -/
theorem mem_latency_or_bandwidth {k : String} :
    k ∈ fioLatencies ++ fioBandwidths ↔
      ∃ side ∈ ["read", "write"], ∃ suffix ∈ [".clat_ns_mean", ".clat_ns_p99", ".bw_kb_s"],
        k = side ++ suffix := by
  simp [fioLatencies, fioBandwidths]
  tauto

theorem unmeasured_all_iff {v : Json F} :
    (∀ side ∈ ["read", "write"], Unmeasured v side) ↔
      ∀ k ∈ fioLatencies ++ fioBandwidths, ∀ x, (k, x) ∉ flattenNumbers "" (fioSummary v) := by
  apply Iff.intro
  · intro h k hk
    obtain ⟨side, hside, suffix, hsuffix, rfl⟩ := mem_latency_or_bandwidth.1 hk
    exact (unmeasured_iff hside).1 (h side hside) suffix hsuffix
  · intro h side hside
    rw [unmeasured_iff hside]
    intro suffix hsuffix
    exact h _ (mem_latency_or_bandwidth.2 ⟨side, hside, suffix, hsuffix, rfl⟩)

end Summary

section Directed

theorem fio_undirected :
    ∀ k ∈ fioLatencies ++ fioBandwidths, polarityOf ("workload:" ++ k) (reportUnit k) = .unknown := by
  decide +kernel

theorem fioRates_directed :
    ∀ k ∈ fioRates, polarityOf ("workload:" ++ k) (reportUnit k) = .higherBetter := by
  decide +kernel

theorem fioPaths_plain : ∀ k ∈ fioPaths, '|' ∉ ("workload:" ++ k).toList := by
  decide +kernel

variable {F : Type} [F64 F] [FloatText F] [Build]

/-- A run that stores the summary of a fio output as its workload report. -/
structure FioRun (F : Type) where
  run : Json F
  output : Json F
  reported : run.get "workload_report" = some (fioSummary output)

/-- The latency metrics of the run are lower-better, the bandwidth and rate metrics
higher-better. -/
def FioDirected (r : FioRun F) : Prop :=
  ∀ ms, reduce r.run = .ok ms → ∀ m ∈ ms, ∀ k, m.id = "workload:" ++ k →
    (k ∈ fioLatencies → m.polarity = .lowerBetter) ∧
      (k ∈ fioBandwidths ++ fioRates → m.polarity = .higherBetter)

omit [FloatText F] [Build] in
theorem reportLeaves_fio (r : FioRun F) :
    reportLeaves r.run = flattenNumbers "" (fioSummary r.output) := by
  rw [reportLeaves, r.reported]

theorem fio_metric {r : FioRun F} {ms : List (Metric F)} (h : reduce r.run = .ok ms)
    {m : Metric F} (hm : m ∈ ms) {k : String} (hk : k ∈ fioPaths) (hid : m.id = "workload:" ++ k) :
    ∃ x, (k, x) ∈ flattenNumbers "" (fioSummary r.output) ∧
      m.polarity = polarityOf ("workload:" ++ k) (reportUnit k) := by
  have hplain := fioPaths_plain k hk
  rw [← hid] at hplain
  have hmem := mem_workloadMetrics h hm hplain
  unfold workloadMetrics at hmem
  rw [r.reported] at hmem
  obtain ⟨⟨l, x⟩, hleaf, hm⟩ := List.mem_map.1 hmem
  rw [← hm] at hid
  obtain rfl : l = k := by simpa using hid
  refine ⟨x, hleaf, ?_⟩
  rw [← hm]

/-- The metrics are directed as they should be exactly where there is neither a latency nor a
bandwidth among them. -/
theorem fioDirected_iff {r : FioRun F} :
    FioDirected r ↔ ((∃ ms, reduce r.run = .ok ms) →
      ∀ side ∈ ["read", "write"], Unmeasured r.output side) := by
  have hpaths {k : String} (hk : k ∈ fioLatencies ∨ k ∈ fioBandwidths ∨ k ∈ fioRates) :
      k ∈ fioPaths := by
    simp only [fioPaths, List.mem_cons, List.mem_append]
    tauto
  rw [unmeasured_all_iff]
  apply Iff.intro
  · intro hdirected hreduce k hk x hleaf
    obtain ⟨ms, hms⟩ := hreduce
    have hgraded : ("workload:" ++ k, reportUnit k) ∈ gradedIds r.run := by
      rw [gradedIds, reportLeaves_fio]
      exact List.mem_append_right _ (List.mem_map.2 ⟨(k, x), hleaf, rfl⟩)
    obtain ⟨m, hm, hid, hpol⟩ := reduce_graded hms hgraded
    obtain ⟨hlower, hhigher⟩ := hdirected ms hms m hm k hid
    rw [fio_undirected k hk] at hpol
    rw [hpol] at hlower hhigher
    rcases List.mem_append.1 hk with hlat | hbw
    · cases hlower hlat
    · cases hhigher (List.mem_append_left _ hbw)
  · intro h ms hms m hm k hid
    have hmissing := h ⟨ms, hms⟩
    apply And.intro
    · intro hlat
      obtain ⟨x, hleaf, -⟩ := fio_metric hms hm (hpaths (.inl hlat)) hid
      exact absurd hleaf (hmissing k (List.mem_append_left _ hlat) x)
    · intro hk
      rcases List.mem_append.1 hk with hbw | hrate
      · obtain ⟨x, hleaf, -⟩ := fio_metric hms hm (hpaths (.inr (.inl hbw))) hid
        exact absurd hleaf (hmissing k (List.mem_append_right _ hbw) x)
      · obtain ⟨x, -, hpol⟩ := fio_metric hms hm (hpaths (.inr (.inr hrate))) hid
        rw [hpol, fioRates_directed k hrate]

end Directed

section Caught

structure Marked (cfg : Config ℝ) (as bs : List (Metric ℝ)) : Prop where
  significant : permutationP (valuesOf as) (valuesOf bs) cfg.resamples cfg.seed < cfg.pThreshold
  strong : cfg.minEffect ≤ |shiftOf as bs|
  quiet : withinCov (valuesOf as) (valuesOf bs) ≤ cfg.noiseThreshold

variable [FloatText ℝ] [Build]

/-- No marked rise of a latency or fall of a bandwidth gets a pass. -/
def FioCaught (a b : List (FioRun ℝ)) (cfg : Config ℝ) : Prop :=
  ∀ rep, ab (a.map (·.run)) (b.map (·.run)) cfg = .ok rep → ∀ k,
    let as := pooledMetrics ("workload:" ++ k) (a.map (·.run))
    let bs := pooledMetrics ("workload:" ++ k) (b.map (·.run))
    Marked cfg as bs →
      (k ∈ fioLatencies ∧ mean (valuesOf as) < mean (valuesOf bs)) ∨
        (k ∈ fioBandwidths ∧ mean (valuesOf bs) < mean (valuesOf as)) →
      rep.outcome.verdict ≠ .pass

/-- fio's metrics are directed as they should be, and the shifts in them are caught. -/
def FioGraded (a b : List (FioRun ℝ)) (cfg : Config ℝ) : Prop :=
  (∀ r ∈ a ++ b, FioDirected r) ∧ FioCaught a b cfg

theorem pooledMetrics_unmeasured {runs : List (FioRun ℝ)}
    (h : ∀ r ∈ runs, ∀ side ∈ ["read", "write"], Unmeasured r.output side) {k : String}
    (hk : k ∈ fioLatencies ++ fioBandwidths) :
    pooledMetrics ("workload:" ++ k) (runs.map (·.run)) = [] := by
  rw [List.eq_nil_iff_forall_not_mem]
  intro m hm
  obtain ⟨run, hrun, ms, hms, hmem, hid⟩ := mem_pooledMetrics.1 hm
  obtain ⟨r, hr, rfl⟩ := List.mem_map.1 hrun
  have hpath : k ∈ fioPaths := by
    simp only [fioPaths, List.mem_cons, List.mem_append] at hk ⊢
    tauto
  obtain ⟨x, hleaf, -⟩ := fio_metric hms hmem hpath hid
  exact unmeasured_all_iff.1 (h r hr) k hk x hleaf

/-- fio's numbers are graded as they should be exactly where no run that reduces has a number
for a completion latency or for the bandwidth. -/
theorem fioGraded_iff (a b : List (FioRun ℝ)) (cfg : Config ℝ) :
    FioGraded a b cfg ↔ ∀ r ∈ a ++ b, (∃ ms, reduce r.run = .ok ms) →
      ∀ side ∈ ["read", "write"], Unmeasured r.output side := by
  unfold FioGraded
  simp only [fioDirected_iff]
  apply and_iff_left_of_imp
  intro h rep hrep k as bs _ hshift
  have hreduce := (ab_ok_iff.1 ⟨rep, hrep⟩).1.2
  rw [← List.map_append] at hreduce
  have hnone : ∀ r ∈ a ++ b, ∀ side ∈ ["read", "write"], Unmeasured r.output side := by
    intro r hr
    exact h r hr (hreduce _ (List.mem_map_of_mem hr))
  obtain ⟨hnonea, hnoneb⟩ := List.forall_mem_append.1 hnone
  have hsame (hk : k ∈ fioLatencies ++ fioBandwidths) :
      mean (valuesOf as) = mean (valuesOf bs) := by
    rw [show as = [] from pooledMetrics_unmeasured hnonea hk,
      show bs = [] from pooledMetrics_unmeasured hnoneb hk]
  rcases hshift with ⟨hk, hlt⟩ | ⟨hk, hlt⟩
  · exact absurd (hsame (List.mem_append_left _ hk)) hlt.ne
  · exact absurd (hsame (List.mem_append_right _ hk)) hlt.ne'

end Caught

section Unread

attribute [local instance] releaseBuild wholeText

def readOnly : Json ℝ :=
  .object [("jobs", .array [.object [("read", .object [("iops", .nat 1000), ("bw", .nat 4000),
    ("clat_ns", .object [("mean", .nat 90000)])])]])]

def readOnlyRun : FioRun ℝ where
  run := .object [("workload_report", fioSummary readOnly), ("grade", .string "reproducible")]
  output := readOnly
  reported := rfl

theorem readOnly_ungraded : ¬ FioGraded [readOnlyRun] [readOnlyRun] Config.default := by
  intro h
  have hdirected := fioDirected_iff.1 (h.1 readOnlyRun List.mem_cons_self)
  have hunmeasured := hdirected (reduce_no_series rfl) "read" List.mem_cons_self
  cases hunmeasured.mean

end Unread

end Assayist
