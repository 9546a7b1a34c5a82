import Assayist.Proofs.Floor
import Assayist.Spec.RunGate

/-! Whether a configuration can fail groups of given sizes at all. For runs that carry one
directed metric it can exactly when the p-value floor of the sizes is below the threshold;
a pass is possible either way. -/

namespace Assayist

section Sizes

variable [FloatText ℝ] [Build]

/-- A run whose only metric has a given id and polarity. -/
def Carries (id : String) (pol : Polarity) (run : Json ℝ) : Prop :=
  ∃ m, reduce run = .ok [m] ∧ m.id = id ∧ m.polarity = pol

/-- Some groups of given sizes, of runs that carry one metric, get a verdict. -/
def CanReturn (v : Verdict) (cfg : Config ℝ) (id : String) (pol : Polarity) (na nb : ℕ) : Prop :=
  ∃ a b rep, a.length = na ∧ b.length = nb ∧ (∀ run ∈ a ++ b, Carries id pol run) ∧
    ab a b cfg = .ok rep ∧ rep.outcome.verdict = v

section Carriers

/-- A run that carries a metric with a given value and may enter any comparison. -/
structure Carrier (id : String) (pol : Polarity) where
  run : ℝ → Json ℝ
  graded : ∀ v, gradeOf (run v) = "reproducible"
  tenancyFree : ∀ v, tenancyOf (run v) = none
  reduces : ∀ v, reduce (run v) = .ok [sample id pol v]

def gaugeCarrier (base unit : String) :
    Carrier (base ++ "|" ++ "value") (polarityOf (base ++ "|" ++ "value") unit) where
  run v := .object [("series", .array [.object [("name", .string base), ("unit", .string unit),
    ("kind", .string "gauge"), ("data", .object [("value", .number (.float v))])]]),
    ("grade", .string "reproducible")]
  graded _ := rfl
  tenancyFree _ := rfl
  reduces v := by
    have hbase : base ++ "" = base := String.append_empty
    conv_rhs => rw [← hbase]
    rfl

def reportCarrier (k : String) :
    Carrier ("workload:" ++ k) (polarityOf ("workload:" ++ k) (reportUnit k)) where
  run v := .object [("workload_report", .object [(k, .number (.float v))]),
    ("grade", .string "reproducible")]
  graded _ := rfl
  tenancyFree _ := rfl
  reduces _ := rfl

def spanCarrier (name : String) : Carrier ("span:" ++ name ++ "|dur") .lowerBetter where
  run v := .object [("spans", .array [.object [("name", .string name),
    ("start_unix_nano", .nat 0), ("end_unix_nano", .number (.float v))]]),
    ("grade", .string "reproducible")]
  graded _ := rfl
  tenancyFree _ := rfl
  reduces v := by
    have hstart : v - (((0 : UInt64).toNat : ℕ) : ℝ) = v := by simp
    conv_rhs => rw [← hstart]
    rfl

/-- A series that yields one metric yields a value, which a gauge can take. -/
theorem series_carrier {overbudget : List String} {overflow : Bool} {win : Option ℝ} {s : Json ℝ}
    {m : Metric ℝ} (h : seriesMetrics overbudget overflow win s = .ok [m]) :
    Nonempty (Carrier m.id m.polarity) := by
  have hfields : seriesFields win s = ["value"] := by
    apply seriesFields_single
    have hids := congrArg List.length (seriesMetrics_ids h)
    rw [List.length_map, List.length_map] at hids
    exact hids.symm
  obtain ⟨values, hlen, hzip⟩ := seriesMetrics_fields h
  rw [hfields] at hlen hzip
  obtain ⟨v, rfl⟩ := List.length_eq_one_iff.1 hlen
  obtain rfl := List.singleton_inj.1 hzip
  dsimp only [SeriesHead.metric]
  exact ⟨gaugeCarrier _ _⟩

theorem report_carrier {run : Json ℝ} {m : Metric ℝ} (h : m ∈ workloadMetrics run) :
    Nonempty (Carrier m.id m.polarity) := by
  unfold workloadMetrics at h
  cases hrep : run.get "workload_report" with
  | none => simp [hrep] at h
  | some rep =>
    rw [hrep] at h
    obtain ⟨⟨k, n⟩, -, rfl⟩ := List.mem_map.1 h
    dsimp only
    exact ⟨reportCarrier k⟩

theorem span_carrier {run : Json ℝ} {m : Metric ℝ} (h : m ∈ spanMetrics run) :
    Nonempty (Carrier m.id m.polarity) := by
  obtain ⟨sp, -, hsp⟩ := List.mem_filterMap.1 h
  unfold spanMetric at hsp
  cases hs : sp.getF64 "start_unix_nano" with
  | none => simp [hs] at hsp
  | some start =>
    cases he : sp.getF64 "end_unix_nano" with
    | none => simp [hs, he] at hsp
    | some stop =>
      simp only [hs, he, Option.some.injEq] at hsp
      subst hsp
      exact ⟨spanCarrier ((sp.getStr "name").getD "")⟩

/-- Whatever a run carries alone, other runs carry with any value. -/
theorem carrier_exists {id : String} {pol : Polarity} {run : Json ℝ} (h : Carries id pol run) :
    Nonempty (Carrier id pol) := by
  obtain ⟨m, hm, rfl, rfl⟩ := h
  obtain ⟨parts, hparts, hms⟩ := reduce_eq_ok.1 hm
  have hmem : m ∈ parts.flatten ++ workloadMetrics run ++ spanMetrics run := by simp [← hms]
  rcases List.mem_append.1 hmem with hmem | hspan
  · rcases List.mem_append.1 hmem with hseries | hreport
    · obtain ⟨part, hpart, hm⟩ := List.mem_flatten.1 hseries
      obtain ⟨s, -, hs⟩ := Results.exists_left hparts hpart
      have hle : part.length ≤ 1 := by
        have hsub := (List.sublist_flatten_of_mem hpart).length_le
        have htotal := congrArg List.length hms
        simp only [List.length_singleton, List.length_append] at htotal
        omega
      obtain ⟨m', rfl⟩ := List.length_eq_one_iff.1
        (Nat.le_antisymm hle (List.length_pos_of_mem hm))
      obtain rfl := List.mem_singleton.1 hm
      exact series_carrier hs
    · exact report_carrier hreport
  · exact span_carrier hspan

end Carriers

section Groups

variable {id : String} {pol : Polarity} {cfg : Config ℝ}

theorem pooledMetrics_carried {runs : List (Json ℝ)} (h : ∀ run ∈ runs, Carries id pol run) :
    (pooledMetrics id runs).length = runs.length := by
  induction runs with
  | nil => rfl
  | cons run runs ih =>
    obtain ⟨hrun, hruns⟩ := List.forall_mem_cons.1 h
    obtain ⟨m, hm, hid, -⟩ := hrun
    have hsplit : pooledMetrics id (run :: runs) = m :: pooledMetrics id runs := by
      simp [pooledMetrics, hm, Except.toOption, hid]
    rw [hsplit, List.length_cons, List.length_cons, ih hruns]

theorem eq_of_pooled {runs : List (Json ℝ)} (h : ∀ run ∈ runs, Carries id pol run) {id' : String}
    (hne : pooledMetrics id' runs ≠ []) : id' = id := by
  obtain ⟨m, hm⟩ := List.exists_mem_of_ne_nil _ hne
  obtain ⟨run, hrun, ms, hms, hmem, hid'⟩ := mem_pooledMetrics.1 hm
  obtain ⟨m', hm', hid, -⟩ := h run hrun
  rw [hms] at hm'
  obtain rfl := Except.ok.inj hm'
  obtain rfl := List.mem_singleton.1 hmem
  exact hid'.symm.trans hid

/-- Groups that fail do so over the one metric they carry. -/
theorem canReturn_fail {na nb : ℕ} (h : CanReturn .fail cfg id pol na nb) :
    0 ≤ cfg.noiseThreshold ∧ pFloor cfg na nb < cfg.pThreshold := by
  obtain ⟨a, b, rep, rfl, rfl, hcarry, hrep, hfail⟩ := h
  obtain ⟨ha, hb⟩ := List.forall_mem_append.1 hcarry
  rw [ab_verdict hrep, abVerdict_fail] at hfail
  obtain ⟨-, d, hd, hstatus⟩ := hfail
  obtain ⟨-, hcond⟩ := listed_iff.1 ⟨rep, hrep, d, hd, rfl, hstatus⟩
  have hid : d.id = id := by
    apply eq_of_pooled ha
    intro hnil
    have hlen := hcond.enoughA
    simp [hnil] at hlen
  rw [hid] at hcond
  have hfloor := hcond.floor
  rwa [pooledMetrics_carried ha, pooledMetrics_carried hb] at hfloor

theorem Carrier.carries (c : Carrier id pol) (v : ℝ) : Carries id pol (c.run v) :=
  ⟨_, c.reduces v, rfl, rfl⟩

theorem Carrier.pooled_map (c : Carrier id pol) (vs : List ℝ) :
    pooledMetrics id (vs.map c.run) = vs.map (sample id pol) := by
  induction vs with
  | nil => rfl
  | cons v vs ih =>
    rw [List.map_cons, List.map_cons, ← ih]
    simp [pooledMetrics, c.reduces v, Except.toOption, sample]

theorem Carrier.pooled (c : Carrier id pol) (n : ℕ) (v : ℝ) :
    pooledMetrics id (List.replicate n (c.run v)) = List.replicate n (sample id pol v) := by
  rw [← List.map_replicate, ← List.map_replicate]
  exact c.pooled_map _

theorem Carrier.group (c : Carrier id pol) {na nb : ℕ} {x y : ℝ} {run : Json ℝ}
    (h : run ∈ List.replicate na (c.run x) ++ List.replicate nb (c.run y)) :
    ∃ v, run = c.run v := by
  rcases List.mem_append.1 h with h | h
  · exact ⟨x, List.eq_of_mem_replicate h⟩
  · exact ⟨y, List.eq_of_mem_replicate h⟩

theorem Carrier.sound_map (c : Carrier id pol) (cfg : Config ℝ) (xs ys : List ℝ) :
    Sound (xs.map c.run) (ys.map c.run) cfg := by
  have hrun {run : Json ℝ} (h : run ∈ xs.map c.run ++ ys.map c.run) : ∃ v, run = c.run v := by
    rw [← List.map_append] at h
    obtain ⟨v, -, rfl⟩ := List.mem_map.1 h
    exact ⟨v, rfl⟩
  refine ⟨⟨?_, ?_⟩, ?_⟩
  · intro run h
    obtain ⟨v, rfl⟩ := hrun h
    exact .inl (c.graded v)
  · intro run h run' _ t t' ht
    obtain ⟨v, rfl⟩ := hrun h
    rw [c.tenancyFree v] at ht
    exact absurd ht (by simp)
  · intro run h
    obtain ⟨v, rfl⟩ := hrun h
    exact ⟨_, c.reduces v⟩

theorem Carrier.sound (c : Carrier id pol) (cfg : Config ℝ) (na nb : ℕ) (x y : ℝ) :
    Sound (List.replicate na (c.run x)) (List.replicate nb (c.run y)) cfg := by
  rw [← List.map_replicate, ← List.map_replicate]
  exact c.sound_map cfg _ _

/-- A verdict over two groups of one value each, by whether the metric is regressed. -/
theorem Carrier.verdict (c : Carrier id pol) {na nb : ℕ} (hna : 2 ≤ na) (hnb : 2 ≤ nb) (x y : ℝ) :
    (Condemned cfg id (List.replicate na (sample id pol x)) (List.replicate nb (sample id pol y)) →
        CanReturn .fail cfg id pol na nb) ∧
      (¬ Condemned cfg id (List.replicate na (sample id pol x))
          (List.replicate nb (sample id pol y)) → CanReturn .pass cfg id pol na nb) := by
  have hcarry : ∀ run ∈ List.replicate na (c.run x) ++ List.replicate nb (c.run y),
      Carries id pol run := by
    intro run hrun
    obtain ⟨v, rfl⟩ := c.group hrun
    exact c.carries v
  have hlen {n : ℕ} (hn : 2 ≤ n) (v : ℝ) :
      2 ≤ (pooledMetrics id (List.replicate n (c.run v))).length := by
    rwa [c.pooled, List.length_replicate]
  obtain ⟨rep, hrep⟩ := ab_ok_iff.2 ⟨c.sound cfg na nb x y, id, hlen hna x, hlen hnb y⟩
  have hclean := verdict_clean hrep fun run hrun ms hms m hm => by
    obtain ⟨v, rfl⟩ := c.group hrun
    rw [c.reduces v] at hms
    obtain rfl := Except.ok.inj hms
    rw [List.mem_singleton.1 hm]
    rfl
  have hlisted : (∃ id', Listed id' rep) ↔ Condemned cfg id (List.replicate na (sample id pol x))
      (List.replicate nb (sample id pol y)) := by
    rw [← c.pooled, ← c.pooled]
    apply Iff.intro
    · intro ⟨id', hid'⟩
      obtain ⟨-, hcond⟩ := listed_iff.1 ⟨rep, hrep, hid'⟩
      have hsame : id' = id := by
        apply eq_of_pooled (List.forall_mem_append.1 hcarry).1
        intro hnil
        have hlen := hcond.enoughA
        simp [hnil] at hlen
      rwa [hsame] at hcond
    · intro hcond
      obtain ⟨rep', hrep', hlisted⟩ := listed_iff.2 ⟨c.sound cfg na nb x y, hcond⟩
      rw [hrep] at hrep'
      obtain rfl := Except.ok.inj hrep'
      exact ⟨id, hlisted⟩
  rw [hlisted] at hclean
  refine ⟨fun hcond => ?_, fun hcond => ?_⟩
  · exact ⟨_, _, rep, List.length_replicate, List.length_replicate, hcarry, hrep,
      hclean.1.2 hcond⟩
  · exact ⟨_, _, rep, List.length_replicate, List.length_replicate, hcarry, hrep,
      hclean.2.2 hcond⟩

/-- Where the floor is below the threshold, groups of two values fail. -/
theorem Carrier.fails (c : Carrier id pol) (hpol : pol ≠ .unknown)
    (hign : ignored cfg id = false) (heffect : cfg.minEffect ≤ 1 / 2)
    (hnoise : 0 ≤ cfg.noiseThreshold) {na nb : ℕ} (hna : 2 ≤ na)
    (hnb : 2 ≤ nb) (hfloor : pFloor cfg na nb < cfg.pThreshold) :
    CanReturn .fail cfg id pol na nb := by
  have hpos : (0 : ℝ) < na * nb := by
    have hmul : 0 < na * nb := Nat.mul_pos (by omega) (by omega)
    exact_mod_cast hmul
  obtain ⟨x, y, hdist, hstrong, hbad⟩ := worse_exists hpol hpos
  apply (c.verdict hna hnb x y).1
  apply condemned_replicate hna hnb hign hnoise hfloor _ (heffect.trans hstrong) hbad
  rw [hdist]
  linarith

/-- Groups of zeroes pass, whatever the configuration. -/
theorem Carrier.passes (c : Carrier id pol) {na nb : ℕ} (hna : 2 ≤ na) (hnb : 2 ≤ nb) :
    CanReturn .pass cfg id pol na nb := by
  apply (c.verdict hna hnb 0 0).2
  intro hcond
  have hbad := hcond.bad
  have hshift : relDelta (0 : ℝ) 0 = 0 := by simp [relDelta]
  rw [shiftOf, valuesOf_replicate, valuesOf_replicate, mean_replicate_exact hna,
    mean_replicate_exact hnb, hshift] at hbad
  cases hlead : leadPolarity (List.replicate na (sample id pol 0)) with
  | lowerBetter => simp [hlead, badDirection] at hbad
  | higherBetter => simp [hlead, badDirection] at hbad
  | unknown => simp [hlead, badDirection] at hbad

/-- Groups of sizes that can pass can fail exactly when the floor of the sizes is below the
threshold. -/
theorem canReturn_fail_iff (d : BenchmarkDef ℝ) (allowUngraded : Bool) {na nb : ℕ} (hna : 2 ≤ na)
    (hnb : 2 ≤ nb) (hpol : pol ≠ .unknown)
    (hign : ignored (thresholdsOf d allowUngraded).config id = false)
    (hnoise : 0 ≤ (thresholdsOf d allowUngraded).noiseThreshold)
    (hpass : CanReturn .pass (thresholdsOf d allowUngraded).config id pol na nb) :
    CanReturn .fail (thresholdsOf d allowUngraded).config id pol na nb ↔
      pFloor (thresholdsOf d allowUngraded).config na nb <
        (thresholdsOf d allowUngraded).pThreshold := by
  have heffect : (thresholdsOf d allowUngraded).config.minEffect ≤ 1 / 2 := by
    change (5 / 100 : ℝ) ≤ 1 / 2
    norm_num
  apply Iff.intro
  · intro hfail
    exact (canReturn_fail hfail).2
  · intro hfloor
    obtain ⟨a, b, rep, hlen, -, hcarry, -⟩ := hpass
    obtain ⟨run, hrun⟩ : ∃ run, run ∈ a := by
      apply List.exists_mem_of_length_pos
      omega
    obtain ⟨c⟩ := carrier_exists (hcarry run (List.mem_append_left b hrun))
    exact c.fails hpol hign heffect hnoise hna hnb hfloor

end Groups

end Sizes

section Runs

attribute [local instance] releaseBuild wholeText

def resampled (resamples : Option UInt64) : BenchmarkDef ℝ where
  apiVersion := "assayist/v0"
  name := "bench"
  target := ⟨"firecracker", "1", [], []⟩
  workload := ⟨"fio", "3", [], []⟩
  gate := ⟨"ab_permutation", none, none, resamples, []⟩
  parameterise := []
  compare := none
  capture := []
  hostPrep := .null
  tenancy := "single_tenant"

theorem latency_polarity :
    polarityOf ("workload:" ++ "latency_ns") (reportUnit "latency_ns") = .lowerBetter := by
  decide +kernel

noncomputable def latencyCarrier : Carrier "workload:latency_ns" .lowerBetter where
  run := (reportCarrier "latency_ns").run
  graded := (reportCarrier "latency_ns").graded
  tenancyFree := (reportCarrier "latency_ns").tenancyFree
  reduces v := by
    rw [← latency_polarity]
    exact (reportCarrier "latency_ns").reduces v

/-- Six runs a side can fail under two hundred resamples. -/
theorem six_runs_can_fail :
    CanReturn .fail (thresholdsOf (resampled (some 200)) false).config "workload:latency_ns"
      .lowerBetter 6 6 := by
  have hcount : floorCount 200 0xA55A1571D0000001 6 6 ≤ 1 := by decide +kernel
  apply (canReturn_fail_iff (resampled (some 200)) false (by decide) (by decide) (by decide) rfl _
    (latencyCarrier.passes (by decide) (by decide))).2
  · change (floorCount 200 0xA55A1571D0000001 6 6 + 1 : ℝ) / ((200 : ℕ) + 1) < 1 / 100
    generalize floorCount 200 0xA55A1571D0000001 6 6 = count at hcount
    have hcount' : (count : ℝ) ≤ 1 := by exact_mod_cast hcount
    rw [div_lt_iff₀ (by norm_num)]
    norm_num
    linarith
  · change (0 : ℝ) ≤ 5 / 100
    norm_num

/-- Two runs a side pass but never fail under the default thresholds: of the ten thousand
resamples at least a hundred leave the groups whole. -/
theorem two_runs_never_fail :
    (resampled none).validate = .ok () ∧
      CanReturn .pass (thresholdsOf (resampled none) false).config "workload:latency_ns"
        .lowerBetter 2 2 ∧
      ¬ CanReturn .fail (thresholdsOf (resampled none) false).config "workload:latency_ns"
        .lowerBetter 2 2 := by
  refine ⟨rfl, latencyCarrier.passes (by decide) (by decide), ?_⟩
  intro hfail
  obtain ⟨-, hfloor⟩ := canReturn_fail hfail
  have hsome : 100 ≤ floorCount 330 0xA55A1571D0000001 2 2 := by decide +kernel
  have hmany : 100 ≤ floorCount 10000 0xA55A1571D0000001 2 2 :=
    hsome.trans (floorCount_mono (by decide) _ 2 2)
  change (floorCount 10000 0xA55A1571D0000001 2 2 + 1 : ℝ) / ((10000 : ℕ) + 1) < 1 / 100 at hfloor
  generalize floorCount 10000 0xA55A1571D0000001 2 2 = count at hmany hfloor
  have hmany' : (100 : ℝ) ≤ count := by exact_mod_cast hmany
  rw [div_lt_iff₀ (by norm_num)] at hfloor
  norm_num at hfloor
  linarith

end Runs

end Assayist
