import Assayist.Proofs.Budget
import Assayist.Proofs.Comparable
import Assayist.Proofs.Tokens

/-! The gate asks for two samples of a metric on each side. A run with two spans of one
name has two samples of their duration, so two samples need not be two runs. What a run has
under an id is counted in the run: its series, the numbers in its report, its spans. -/

namespace Assayist

section Carriers

variable {F : Type} [F64 F] [FloatText F] [Build]

def carriers (id : String) (runs : List (Json F)) : List (Json F) :=
  runs.filter fun run => !(pooledMetrics id [run]).isEmpty

def OncePerRun (id : String) (runs : List (Json F)) : Prop :=
  ∀ run ∈ runs, (pooledMetrics id [run]).length ≤ 1

theorem pooledMetrics_cons (id : String) (run : Json F) (runs : List (Json F)) :
    pooledMetrics id (run :: runs) = pooledMetrics id [run] ++ pooledMetrics id runs := by
  simp [pooledMetrics]

theorem length_carriers {id : String} {runs : List (Json F)} (h : OncePerRun id runs) :
    (carriers id runs).length = (pooledMetrics id runs).length := by
  induction runs with
  | nil => rfl
  | cons run runs ih =>
    have hrun := h run List.mem_cons_self
    have hruns := ih fun r hr => h r (List.mem_cons_of_mem _ hr)
    rw [pooledMetrics_cons, List.length_append, ← hruns]
    unfold carriers
    rw [List.filter_cons]
    by_cases hnil : pooledMetrics id [run] = []
    · simp [hnil]
    · have hpos := List.length_pos_of_ne_nil hnil
      have hone : (!(pooledMetrics id [run]).isEmpty) = true := by simpa using hnil
      rw [if_pos hone, List.length_cons]
      omega

theorem length_carriers_le (id : String) (runs : List (Json F)) :
    (carriers id runs).length ≤ runs.length :=
  List.length_filter_le _ _

/-- A group of one run has no two samples of an id that comes once in a run. -/
theorem length_pooledMetrics_le {id : String} {runs : List (Json F)} (h : OncePerRun id runs) :
    (pooledMetrics id runs).length ≤ runs.length := by
  rw [← length_carriers h]
  exact length_carriers_le id runs

end Carriers

section Occurrences

variable {F : Type} [F64 F] [FloatText F]

/-- A series' name, key and labels make an id with one of the series' fields. -/
def madeInto (id : String) (win : Option F) (s : Json F) : Bool :=
  (seriesFields win s).any fun field => seriesBase s ++ "|" ++ field == id

def seriesNamed (id : String) (run : Json F) : List (Json F) :=
  ((run.getArray "series").getD []).filter (madeInto id (windowNs run))

omit [FloatText F] in
def leavesNamed (id : String) (run : Json F) : List (String × F) :=
  (reportLeaves run).filter fun leaf => "workload:" ++ leaf.1 == id

omit [FloatText F] in
def timed (sp : Json F) : Bool :=
  (sp.getF64 "start_unix_nano").isSome && (sp.getF64 "end_unix_nano").isSome

omit [FloatText F] in
def spansNamed (id : String) (run : Json F) : List (Json F) :=
  ((run.getArray "spans").getD []).filter fun sp =>
    timed sp && "span:" ++ (sp.getStr "name").getD "" ++ "|dur" == id

/-- What a run has under an id. -/
def occurrences (id : String) (run : Json F) : ℕ :=
  (seriesNamed id run).length + (leavesNamed id run).length + (spansNamed id run).length

/-- Nothing in a run collides under an id: no two series with one name, key and labels, no two
paths of the report written alike, no two spans of one name, and no series titled as a path of
the report is. -/
structure Distinct (id : String) (run : Json F) : Prop where
  series : (seriesNamed id run).length ≤ 1
  leaves : (leavesNamed id run).length ≤ 1
  spans : (spansNamed id run).length ≤ 1
  apart : seriesNamed id run = [] ∨ leavesNamed id run = []

omit [FloatText F] in
theorem seriesFields_nodup (win : Option F) (s : Json F) : (seriesFields win s).Nodup := by
  unfold seriesFields
  dsimp only
  split_ifs <;> decide

theorem count_fields (id : String) (win : Option F) (s : Json F) :
    ((seriesFields win s).map fun field => seriesBase s ++ "|" ++ field).count id =
      if madeInto id win s then 1 else 0 := by
  have hnodup : ((seriesFields win s).map fun field => seriesBase s ++ "|" ++ field).Nodup :=
    (seriesFields_nodup win s).map fun f f' h => (String.append_right_inj _).1 h
  have hmem : id ∈ (seriesFields win s).map (fun field => seriesBase s ++ "|" ++ field) ↔
      madeInto id win s = true := by
    simp [madeInto]
  rw [List.Nodup.count hnodup]
  simp only [hmem]

/-- A metric of a span is named as no metric of a series: their last letters differ. -/
theorem span_ne_field {field : String} (h : field ∈ ["mean", "p50", "p99", "value", "rate"])
    (base name : String) : base ++ "|" ++ field ≠ "span:" ++ name ++ "|dur" := by
  have hlast : field.toList.getLast? ∈ [some 'n', some '0', some '9', some 'e'] := by
    revert field
    decide
  have hdur : ("|dur" : String).toList.getLast? = some 'r' := by decide
  intro heq
  have hsame := congrArg (fun s : String => s.toList.getLast?) heq
  simp only [String.toList_append, List.getLast?_append, hdur, Option.some_or] at hsame
  cases hfield : field.toList.getLast? with
  | none =>
    rw [hfield] at hlast
    exact absurd hlast (by decide)
  | some c =>
    rw [hfield, Option.some_or, Option.some.injEq] at hsame
    rw [hfield, hsame] at hlast
    exact absurd hlast (by decide)

theorem span_ne_leaf (path name : String) : "workload:" ++ path ≠ "span:" ++ name ++ "|dur" := by
  intro heq
  have hhead := congrArg (fun s : String => s.toList.head?) heq
  rw [String.append_assoc] at hhead
  simp [String.toList_append] at hhead

/-- Without collisions a run has an id once at most, and the other way round. -/
theorem distinct_iff (id : String) (run : Json F) : Distinct id run ↔ occurrences id run ≤ 1 := by
  -- what is under the id of a span is a span
  have hspan : spansNamed id run ≠ [] → seriesNamed id run = [] ∧ leavesNamed id run = [] := by
    intro hne
    obtain ⟨sp, hsp⟩ := List.exists_mem_of_ne_nil _ hne
    have hid := (List.mem_filter.1 hsp).2
    rw [Bool.and_eq_true, beq_iff_eq] at hid
    refine ⟨List.filter_eq_nil_iff.2 fun s _ hs => ?_, List.filter_eq_nil_iff.2 fun leaf _ hl => ?_⟩
    · obtain ⟨field, hfield, heq⟩ := List.any_eq_true.1 hs
      exact span_ne_field (mem_seriesFields hfield) _ _ ((beq_iff_eq.1 heq).trans hid.2.symm)
    · exact span_ne_leaf _ _ ((beq_iff_eq.1 hl).trans hid.2.symm)
  unfold occurrences
  apply Iff.intro
  · intro h
    obtain ⟨hseries, hleaves, hspans, hapart⟩ := h
    by_cases hnil : spansNamed id run = []
    · rw [hnil, List.length_nil]
      rcases hapart with h | h
      · rw [h, List.length_nil]
        omega
      · rw [h, List.length_nil]
        omega
    · simp only [hspan hnil, List.length_nil]
      omega
  · intro h
    refine ⟨by omega, by omega, by omega, ?_⟩
    by_contra hnone
    obtain ⟨hseries, hleaves⟩ := not_or.1 hnone
    have hs := List.length_pos_of_ne_nil hseries
    have hl := List.length_pos_of_ne_nil hleaves
    omega

/-- Both groups have two of an id, counted in their runs. -/
def Doubled (id : String) (a b : List (Json F)) : Prop :=
  2 ≤ (a.map (occurrences id)).sum ∧ 2 ≤ (b.map (occurrences id)).sum

/-- Two single runs have two of an id each exactly when it collides in both. -/
theorem doubled_single {id : String} {run run' : Json F} :
    Doubled id [run] [run'] ↔ ¬ Distinct id run ∧ ¬ Distinct id run' := by
  rw [distinct_iff, distinct_iff, not_le, not_le]
  unfold Doubled
  simp only [List.map_cons, List.map_nil, List.sum_cons, List.sum_nil, Nat.add_zero]
  exact Iff.rfl

theorem count_series (id : String) (run : Json F) :
    ((seriesGraded run).map Prod.fst).count id = (seriesNamed id run).length := by
  unfold seriesGraded seriesNamed
  rw [List.map_flatMap, List.count_flatMap]
  generalize (run.getArray "series").getD [] = series
  induction series with
  | nil => rfl
  | cons s ss ih =>
    have hids : (Prod.fst ∘ fun field => (seriesBase s ++ "|" ++ field, (s.getStr "unit").getD "")) =
        fun field => seriesBase s ++ "|" ++ field := rfl
    rw [List.map_cons, List.sum_cons, ih, Function.comp_apply, List.map_map, hids, count_fields,
      List.filter_cons]
    split_ifs
    · rw [List.length_cons, Nat.add_comm]
    · rw [Nat.zero_add]

omit [FloatText F] in
theorem count_leaves (id : String) (run : Json F) :
    (((reportLeaves run).map fun leaf => ("workload:" ++ leaf.1, reportUnit leaf.1)).map
      Prod.fst).count id = (leavesNamed id run).length := by
  rw [List.map_map, List.count, List.countP_map, List.countP_eq_length_filter]
  rfl

omit [FloatText F] in
theorem count_spans (id : String) (run : Json F) :
    ((spanMetrics run).map Metric.id).count id = (spansNamed id run).length := by
  unfold spanMetrics spansNamed
  rw [List.count, List.countP_map, List.countP_filterMap, List.countP_eq_length_filter]
  congr 1
  refine List.filter_congr fun sp _ => ?_
  unfold spanMetric timed
  cases sp.getF64 "start_unix_nano" <;> cases sp.getF64 "end_unix_nano" <;> simp

variable [Build]

/-- A run that reduces has as many metrics of an id as it has under it. -/
theorem length_pooledMetrics_run {run : Json F} (hread : ∃ ms, reduce run = .ok ms)
    (id : String) : (pooledMetrics id [run]).length = occurrences id run := by
  obtain ⟨ms, hms⟩ := hread
  have hids : ms.map Metric.id =
      (gradedIds run).map Prod.fst ++ (spanMetrics run).map Metric.id := by
    have hgrades := congrArg (List.map Prod.fst) (reduce_grades hms)
    rw [List.map_append, List.map_map, List.map_map, List.map_map] at hgrades
    exact hgrades
  have hpooled : (pooledMetrics id [run]).length = (ms.map Metric.id).count id := by
    rw [pooledMetrics, List.flatMap_cons, List.flatMap_nil, List.append_nil, hms, List.count,
      List.countP_map, List.countP_eq_length_filter]
    rfl
  rw [hpooled, hids, List.count_append, gradedIds, List.map_append, List.count_append,
    count_series, count_leaves, count_spans, occurrences]

theorem length_pooledMetrics_runs {runs : List (Json F)} (hread : Readable runs) (id : String) :
    (pooledMetrics id runs).length = (runs.map (occurrences id)).sum := by
  induction runs with
  | nil => rfl
  | cons run runs ih =>
    rw [pooledMetrics_cons, List.length_append, List.map_cons, List.sum_cons,
      length_pooledMetrics_run (hread run List.mem_cons_self),
      ih fun r hr => hread r (List.mem_cons_of_mem _ hr)]

/-- Runs that reduce have an id once each exactly when nothing in them collides under it. -/
theorem oncePerRun_iff {runs : List (Json F)} (hread : Readable runs) (id : String) :
    OncePerRun id runs ↔ ∀ run ∈ runs, Distinct id run := by
  refine forall₂_congr fun run hrun => ?_
  rw [distinct_iff, length_pooledMetrics_run (hread run hrun)]

theorem paired_doubled {a b : List (Json F)} (hread : Readable (a ++ b)) (id : String) :
    Paired id a b ↔ Doubled id a b := by
  obtain ⟨ha, hb⟩ := List.forall_mem_append.1 hread
  unfold Paired Doubled
  rw [length_pooledMetrics_runs ha, length_pooledMetrics_runs hb]

end Occurrences

section Samples

variable {F : Type} [F64 F] [FloatText F] [Build]

/-- The gate compares runs, not samples: one run against one is refused in every mode, and
what `ab` compares comes from two runs a side, each with one sample of it. -/
structure SamplesAreRuns (a b : List (Json F)) (cfg : Config F) : Prop where
  refused : a.length = 1 → b.length = 1 → ∀ mode, ∃ e, judge mode a b cfg = .error e
  distinct : ∀ rep, ab a b cfg = .ok rep → ∀ d ∈ rep.detail,
    2 ≤ (carriers d.id a).length ∧ 2 ≤ (carriers d.id b).length ∧ OncePerRun d.id (a ++ b)

/-- Samples are runs exactly when nothing collides in a run under an id that both groups have
twice, where `ab` gets to compare at all; of single runs, `drift` must ignore what collides in
both. -/
theorem samplesAreRuns_iff (a b : List (Json F)) (cfg : Config F) :
    SamplesAreRuns a b cfg ↔
      (Sound a b cfg → ∀ id, Doubled id a b → ∀ run ∈ a ++ b, Distinct id run) ∧
      ∀ run run', a = [run] → b = [run'] → Readable [run, run'] →
        ∀ id, ¬ Distinct id run → ¬ Distinct id run' → ignored cfg id = true := by
  apply Iff.intro
  · intro h
    refine ⟨fun hsound id hdoubled => ?_, ?_⟩
    · have hpair := (paired_doubled hsound.2 id).2 hdoubled
      obtain ⟨rep, hrep⟩ := ab_ok_iff.2 ⟨hsound, id, hpair⟩
      obtain ⟨d, hd, rfl⟩ := (ab_entry hrep id).2 hpair
      exact (oncePerRun_iff hsound.2 d.id).1 (h.distinct rep hrep d hd).2.2
    · rintro run run' rfl rfl hread id hrun hrun'
      have hpair := (paired_doubled (a := [run]) hread id).2 (doubled_single.2 ⟨hrun, hrun'⟩)
      by_contra hign
      refine judge_error_iff.1 (h.refused rfl rfl "longitudinal_drift") ?_
      rw [Gradeable, if_pos rfl]
      exact ⟨hread, id, hpair, by simpa using hign⟩
  · intro h
    obtain ⟨hdistinct, hdrift⟩ := h
    have honce (hsound : Sound a b cfg) (id : String) (hpair : Paired id a b) :
        OncePerRun id (a ++ b) :=
      (oncePerRun_iff hsound.2 id).2 (hdistinct hsound id ((paired_doubled hsound.2 id).1 hpair))
    refine ⟨fun hlena hlenb mode => judge_error_iff.2 fun hgrade => ?_, fun rep hrep d hd => ?_⟩
    · unfold Gradeable at hgrade
      split_ifs at hgrade
      · obtain ⟨run, rfl⟩ := List.length_eq_one_iff.1 hlena
        obtain ⟨run', rfl⟩ := List.length_eq_one_iff.1 hlenb
        obtain ⟨hread, id, hpair, hign⟩ := hgrade
        obtain ⟨hrun, hrun'⟩ := doubled_single.1 ((paired_doubled hread id).1 hpair)
        rw [hdrift run run' rfl rfl hread id hrun hrun'] at hign
        exact absurd hign (by decide)
      · obtain ⟨hsound, id, hpair⟩ := hgrade
        have hle := length_pooledMetrics_le fun run hrun =>
          honce hsound id hpair run (List.mem_append_left b hrun)
        have htwo := hpair.1
        omega
    · have hpair := (ab_entry hrep d.id).1 ⟨d, hd, rfl⟩
      have hall := honce (ab_ok_iff.1 ⟨rep, hrep⟩).1 d.id hpair
      refine ⟨?_, ?_, hall⟩
      · rw [length_carriers fun run hrun => hall run (List.mem_append_left b hrun)]
        exact hpair.1
      · rw [length_carriers fun run hrun => hall run (List.mem_append_right a hrun)]
        exact hpair.2

end Samples

section Runs

attribute [local instance] releaseBuild

def restoredTwice : Json ℚ :=
  assembled "run" sampleIdentity sampleFingerprint (.object []) []
    [.object [("name", .string "restore"), ("start_unix_nano", .nat 0), ("end_unix_nano", .nat 5)],
      .object [("name", .string "restore"), ("start_unix_nano", .nat 7),
        ("end_unix_nano", .nat 12)]]

theorem restoredTwice_gradeable :
    Gradeable "ab_permutation" [restoredTwice] [restoredTwice] Config.default := by
  have hpair : 2 ≤ (pooledMetrics "span:restore|dur" [restoredTwice]).length := by
    decide +kernel
  refine gradeable_of_uniform "single_tenant" "span:restore|dur" (fun run hrun => ?_)
    (by decide +kernel) ⟨hpair, hpair⟩ fun _ => by decide
  simp only [List.cons_append, List.nil_append, List.mem_cons, List.not_mem_nil, or_false,
    or_self] at hrun
  rw [hrun]
  exact ⟨rfl, rfl⟩

/-- One such run against one: `ab` gives a verdict. -/
theorem one_run_compared : ¬ SamplesAreRuns [restoredTwice] [restoredTwice] Config.default :=
  fun h => judge_error_iff.1 (h.refused rfl rfl "ab_permutation") restoredTwice_gradeable

end Runs

end Assayist
