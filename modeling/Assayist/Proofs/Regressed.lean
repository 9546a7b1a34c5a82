import Assayist.Proofs.Admission

/-! When `ab` reports a metric as regressed, said of the metrics the runs reduce to. -/

namespace Assayist

section Metrics

variable {F : Type} [F64 F] [FloatText F] [Build]

/-- The metrics with an id that the runs reduce to, in order. -/
def pooledMetrics (id : String) (runs : List (Json F)) : List (Metric F) :=
  runs.flatMap fun run => ((reduce run).toOption.getD []).filter fun m => m.id = id

theorem reduces_exists {runs : List (Json F)} :
    (∃ parts, Reduces runs parts) ↔ ∀ run ∈ runs, ∃ ms, reduce run = .ok ms := by
  induction runs with
  | nil => exact iff_of_true ⟨[], .nil⟩ (by simp)
  | cons run runs ih =>
    rw [List.forall_mem_cons, ← ih]
    apply Iff.intro
    · intro ⟨parts, h⟩
      obtain ⟨ms, parts, hms, hparts, rfl⟩ := List.forall₂_cons_left_iff.1 h
      exact ⟨⟨ms, hms⟩, parts, hparts⟩
    · intro ⟨⟨ms, hms⟩, parts, hparts⟩
      exact ⟨ms :: parts, .cons hms hparts⟩

theorem own_tagged {runs : List (Json F)} {parts : List (List (Metric F))}
    (h : Reduces runs parts) (id : String) :
    (own id (tagged runs parts)).map (·.2) = pooledMetrics id runs := by
  induction h with
  | nil => rfl
  | @cons run ms runs parts hms _ ih =>
    have hsplit : own id (tagged (run :: runs) (ms :: parts)) =
        own id (ms.map fun m => (paramsHash run, m)) ++ own id (tagged runs parts) := by
      simp [own, tagged]
    have hhead : (own id (ms.map fun m => (paramsHash run, m))).map (·.2) =
        ms.filter fun m => m.id = id := by
      rw [own, List.filter_map, List.map_map]
      simp [Function.comp_def]
    rw [hsplit, List.map_append, ih, hhead]
    simp [pooledMetrics, hms, Except.toOption]

theorem mem_pooledMetrics {id : String} {runs : List (Json F)} {m : Metric F} :
    m ∈ pooledMetrics id runs ↔ ∃ run ∈ runs, ∃ ms, reduce run = .ok ms ∧ m ∈ ms ∧ m.id = id := by
  unfold pooledMetrics
  rw [List.mem_flatMap]
  apply Iff.intro
  · intro ⟨run, hrun, hm⟩
    cases hms : reduce run with
    | error e => simp [hms, Except.toOption] at hm
    | ok ms =>
      simp only [hms, Except.toOption, Option.getD_some, List.mem_filter,
        decide_eq_true_eq] at hm
      exact ⟨run, hrun, ms, hms, hm⟩
  · intro ⟨run, hrun, ms, hms, hm⟩
    refine ⟨run, hrun, ?_⟩
    simp only [hms, Except.toOption, Option.getD_some, List.mem_filter, decide_eq_true_eq]
    exact hm

end Metrics

section Condemned

variable {F : Type}

def valuesOf (ms : List (Metric F)) : List F := ms.map (·.value)

theorem values_own (id : String) (ts : List (String × Metric F)) :
    (own id ts).map (·.2.value) = valuesOf ((own id ts).map (·.2)) := by
  simp [valuesOf]

/-- The polarity a comparison goes by: that of the first metric of A. -/
def leadPolarity (ms : List (Metric F)) : Polarity := (ms.head?.map (·.polarity)).getD .unknown

variable [F64 F]

def shiftOf (as bs : List (Metric F)) : F := relDelta (mean (valuesOf as)) (mean (valuesOf bs))

/-- What makes a metric regressed: enough clean samples on both sides, and all three tests
against it. -/
structure Condemned (cfg : Config F) (id : String) (as bs : List (Metric F)) : Prop where
  enoughA : 2 ≤ as.length
  enoughB : 2 ≤ bs.length
  counted : ignored cfg id = false
  clean : ∀ m ∈ as ++ bs, m.contaminated = false
  significant : permutationP (valuesOf as) (valuesOf bs) cfg.resamples cfg.seed < cfg.pThreshold
  strong : cfg.minEffect ≤ F64.abs (shiftOf as bs)
  quiet : ¬ cfg.noiseThreshold < withinCov (valuesOf as) (valuesOf bs)
  bad : badDirection (leadPolarity as) (shiftOf as bs) = some true

variable {cfg : Config F} {id : String} {ta tb : List (String × Metric F)}

def metricStatus (cfg : Config F) (id : String) (as bs : List (Metric F)) : Status :=
  abStatus (ignored cfg id) ((as ++ bs).any (·.contaminated))
    (decide (permutationP (valuesOf as) (valuesOf bs) cfg.resamples cfg.seed < cfg.pThreshold))
    (decide (cfg.minEffect ≤ F64.abs (shiftOf as bs)))
    (decide (cfg.noiseThreshold < withinCov (valuesOf as) (valuesOf bs)))
    (badDirection (leadPolarity as) (shiftOf as bs))

omit [F64 F] in
theorem polarity_groupOf {as : List (Metric F)} (ha : (own id ta).map (·.2) = as) :
    ((groupOf ta).polarity[id]?).getD .unknown = leadPolarity as := by
  unfold leadPolarity
  rw [groupOf_polarity, ← ha, List.head?_map, Option.map_map]
  rfl

theorem statusOf_groupOf {as bs : List (Metric F)} (ha : (own id ta).map (·.2) = as)
    (hb : (own id tb).map (·.2) = bs) :
    statusOf cfg (groupOf ta) (groupOf tb) id (valuesOf as) (valuesOf bs) =
      metricStatus cfg id as bs := by
  have hclean : contaminatedIn (groupOf ta) (groupOf tb) id =
      (as ++ bs).any (·.contaminated) := by
    unfold contaminatedIn
    rw [groupOf_contaminated, groupOf_contaminated, List.any_append, ← ha, ← hb, List.any_map,
      List.any_map]
    rfl
  unfold statusOf
  rw [hclean, polarity_groupOf ha]
  rfl

theorem metricStatus_directed {as bs : List (Metric F)} {worse : Bool} :
    metricStatus cfg id as bs = directed worse ↔
      ignored cfg id = false ∧ (∀ m ∈ as ++ bs, m.contaminated = false) ∧
        permutationP (valuesOf as) (valuesOf bs) cfg.resamples cfg.seed < cfg.pThreshold ∧
        cfg.minEffect ≤ F64.abs (shiftOf as bs) ∧
        ¬ cfg.noiseThreshold < withinCov (valuesOf as) (valuesOf bs) ∧
        badDirection (leadPolarity as) (shiftOf as bs) = some worse := by
  unfold metricStatus
  rw [abStatus_directed, List.any_eq_false]
  simp only [decide_eq_true_eq, decide_eq_false_iff_not, Bool.not_eq_true]

theorem metricStatus_regressed {as bs : List (Metric F)} (hlena : 2 ≤ as.length)
    (hlenb : 2 ≤ bs.length) :
    metricStatus cfg id as bs = .regressed ↔ Condemned cfg id as bs := by
  rw [show Status.regressed = directed true from rfl, metricStatus_directed]
  apply Iff.intro
  · intro ⟨hign, hcl, hsig, hstrong, hquiet, hbad⟩
    exact ⟨hlena, hlenb, hign, hcl, hsig, hstrong, hquiet, hbad⟩
  · intro h
    exact ⟨h.counted, h.clean, h.significant, h.strong, h.quiet, h.bad⟩

theorem mem_abDetails_own {d : AbDetail F} :
    d ∈ abDetails cfg (groupOf ta) (groupOf tb) ↔
      2 ≤ (own d.id ta).length ∧ 2 ≤ (own d.id tb).length ∧
        abJudge cfg (groupOf ta) (groupOf tb) d.id ((own d.id ta).map (·.2.value)) = some d := by
  rw [mem_abDetails]
  apply Iff.intro
  · intro ⟨id, hne, hd⟩
    obtain ⟨bvals, hb, hlena, hlenb, hid, -⟩ := abJudge_spec hd
    subst hid
    rw [groupOf_samples] at hb
    split_ifs at hb
    rw [← Option.some.inj hb, List.length_map] at hlenb
    rw [List.length_map] at hlena
    exact ⟨hlena, hlenb, hd⟩
  · intro ⟨hlena, _, hd⟩
    refine ⟨d.id, ?_, hd⟩
    intro hnil
    simp [hnil] at hlena

theorem abJudge_own (cfg : Config F) (hlena : 2 ≤ (own id ta).length)
    (hlenb : 2 ≤ (own id tb).length) :
    ∃ d, abJudge cfg (groupOf ta) (groupOf tb) id ((own id ta).map (·.2.value)) = some d ∧
      d.id = id ∧ d.status = statusOf cfg (groupOf ta) (groupOf tb) id
        ((own id ta).map (·.2.value)) ((own id tb).map (·.2.value)) := by
  have hsamples : (groupOf tb).samples[id]? = some ((own id tb).map (·.2.value)) := by
    rw [groupOf_samples, if_neg]
    intro hempty
    rw [List.isEmpty_iff.1 hempty] at hlenb
    simp at hlenb
  cases hd : abJudge cfg (groupOf ta) (groupOf tb) id ((own id ta).map (·.2.value)) with
  | none =>
    have hshort := abJudge_eq_none.1 hd _ hsamples
    rw [List.length_map, List.length_map] at hshort
    omega
  | some d =>
    obtain ⟨bvals, hb, -, -, hid, hstatus⟩ := abJudge_spec hd
    obtain rfl : bvals = (own id tb).map (·.2.value) := by
      rw [hsamples] at hb
      exact (Option.some.inj hb).symm
    exact ⟨d, rfl, hid, hstatus⟩

end Condemned

section Regressed

variable {F : Type} [F64 F] [FloatText F] [Build]

def Listed (id : String) (rep : AbReport F) : Prop :=
  ∃ d ∈ rep.detail, d.id = id ∧ d.status = .regressed

/-- A comparison can be made at all: the runs are admitted and every one reduces. -/
def Sound (a b : List (Json F)) (cfg : Config F) : Prop :=
  Admissible a b cfg ∧ ∀ run ∈ a ++ b, ∃ ms, reduce run = .ok ms

/-- `ab` gives an id a status exactly when the comparison can be made and the id has two
samples a side that have the status. -/
theorem status_iff {a b : List (Json F)} {cfg : Config F} {id : String} {status : Status} :
    (∃ rep, ab a b cfg = .ok rep ∧ ∃ d ∈ rep.detail, d.id = id ∧ d.status = status) ↔
      Sound a b cfg ∧ 2 ≤ (pooledMetrics id a).length ∧ 2 ≤ (pooledMetrics id b).length ∧
        metricStatus cfg id (pooledMetrics id a) (pooledMetrics id b) = status := by
  unfold Sound
  rw [List.forall_mem_append, ← reduces_exists, ← reduces_exists]
  apply Iff.intro
  · intro ⟨rep, hrep, d, hd, hid, hstatus⟩
    obtain ⟨notes, pa, pb, hv, hpa, hpb, -, rfl⟩ := ab_eq_ok.1 hrep
    subst hid
    obtain ⟨hlena, hlenb, hjudge⟩ := mem_abDetails_own.1 hd
    obtain ⟨d', hd', -, hstatus'⟩ := abJudge_own cfg hlena hlenb
    obtain rfl : d = d' := Option.some.inj (hjudge.symm.trans hd')
    refine ⟨⟨(validate_eq_ok.1 hv).1, ⟨pa, hpa⟩, ⟨pb, hpb⟩⟩, ?_⟩
    rw [hstatus', values_own, values_own, statusOf_groupOf rfl rfl] at hstatus
    rw [← own_tagged hpa, ← own_tagged hpb]
    exact ⟨by simpa using hlena, by simpa using hlenb, hstatus⟩
  · intro ⟨⟨hadm, ⟨pa, hpa⟩, ⟨pb, hpb⟩⟩, hlena, hlenb, hstatus⟩
    rw [← own_tagged hpa] at hlena
    rw [← own_tagged hpb] at hlenb
    rw [← own_tagged hpa, ← own_tagged hpb] at hstatus
    have hlena' : 2 ≤ (own id (tagged a pa)).length := by simpa using hlena
    have hlenb' : 2 ≤ (own id (tagged b pb)).length := by simpa using hlenb
    obtain ⟨d, hd, hid, hstatus'⟩ := abJudge_own cfg hlena' hlenb'
    subst hid
    have hmem : d ∈ abDetails cfg (groupOf (tagged a pa)) (groupOf (tagged b pb)) :=
      mem_abDetails_own.2 ⟨hlena', hlenb', hd⟩
    refine ⟨_, ab_eq_ok.2 ⟨_, pa, pb, validate_eq_ok.2 ⟨hadm, rfl⟩, hpa, hpb,
      List.ne_nil_of_mem hmem, rfl⟩, d, hmem, rfl, ?_⟩
    rw [hstatus', values_own, values_own, statusOf_groupOf rfl rfl]
    exact hstatus

/-- The delta, the p-value and the noise flag of an entry, read off the samples of its id. -/
theorem detail_numbers {a b : List (Json F)} {cfg : Config F} {rep : AbReport F}
    (h : ab a b cfg = .ok rep) {d : AbDetail F} (hd : d ∈ rep.detail) :
    d.relDelta = shiftOf (pooledMetrics d.id a) (pooledMetrics d.id b) ∧
      d.p = permutationP (valuesOf (pooledMetrics d.id a)) (valuesOf (pooledMetrics d.id b))
        cfg.resamples cfg.seed ∧
      d.noisy = decide (cfg.noiseThreshold <
        withinCov (valuesOf (pooledMetrics d.id a)) (valuesOf (pooledMetrics d.id b))) := by
  obtain ⟨notes, pa, pb, -, hpa, hpb, -, rfl⟩ := ab_eq_ok.1 h
  obtain ⟨-, -, hjudge⟩ := mem_abDetails_own.1 hd
  obtain ⟨bvals, hb, hrel, hp, hnoisy⟩ := abJudge_numbers hjudge
  rw [groupOf_samples] at hb
  split_ifs at hb
  obtain rfl := Option.some.inj hb
  rw [values_own, values_own, own_tagged hpa, own_tagged hpb] at hrel hp hnoisy
  exact ⟨hrel, hp, hnoisy⟩

/-- `ab` lists an id as regressed exactly when the comparison can be made and the id's
metrics condemn it. -/
theorem listed_iff {a b : List (Json F)} {cfg : Config F} {id : String} :
    (∃ rep, ab a b cfg = .ok rep ∧ Listed id rep) ↔
      Sound a b cfg ∧ Condemned cfg id (pooledMetrics id a) (pooledMetrics id b) := by
  unfold Listed
  rw [status_iff]
  apply and_congr_right
  intro _
  apply Iff.intro
  · intro h
    obtain ⟨hlena, hlenb, hstatus⟩ := h
    exact (metricStatus_regressed hlena hlenb).1 hstatus
  · intro h
    exact ⟨h.enoughA, h.enoughB, (metricStatus_regressed h.enoughA h.enoughB).2 h⟩

/-- `ab` reports exactly when the comparison can be made and some id has two samples a
side. -/
theorem ab_ok_iff {a b : List (Json F)} {cfg : Config F} :
    (∃ rep, ab a b cfg = .ok rep) ↔
      Sound a b cfg ∧
        ∃ id, 2 ≤ (pooledMetrics id a).length ∧ 2 ≤ (pooledMetrics id b).length := by
  have hlength {runs : List (Json F)} {parts : List (List (Metric F))} (h : Reduces runs parts)
      (id : String) : (pooledMetrics id runs).length = (own id (tagged runs parts)).length := by
    rw [← own_tagged h, List.length_map]
  unfold Sound
  rw [List.forall_mem_append, ← reduces_exists, ← reduces_exists]
  apply Iff.intro
  · intro ⟨rep, hrep⟩
    obtain ⟨notes, pa, pb, hv, hpa, hpb, hne, -⟩ := ab_eq_ok.1 hrep
    obtain ⟨d, hd⟩ := List.exists_mem_of_ne_nil _ hne
    obtain ⟨hlena, hlenb, -⟩ := mem_abDetails_own.1 hd
    refine ⟨⟨(validate_eq_ok.1 hv).1, ⟨pa, hpa⟩, ⟨pb, hpb⟩⟩, d.id, ?_⟩
    rw [hlength hpa, hlength hpb]
    exact ⟨hlena, hlenb⟩
  · intro ⟨⟨hadm, ⟨pa, hpa⟩, ⟨pb, hpb⟩⟩, id, hlena, hlenb⟩
    rw [hlength hpa] at hlena
    rw [hlength hpb] at hlenb
    obtain ⟨d, hd, hid, -⟩ := abJudge_own cfg hlena hlenb
    subst hid
    have hmem : d ∈ abDetails cfg (groupOf (tagged a pa)) (groupOf (tagged b pb)) :=
      mem_abDetails_own.2 ⟨hlena, hlenb, hd⟩
    exact ⟨_, ab_eq_ok.2 ⟨_, pa, pb, validate_eq_ok.2 ⟨hadm, rfl⟩, hpa, hpb,
      List.ne_nil_of_mem hmem, rfl⟩⟩

theorem verdict_clean {a b : List (Json F)} {cfg : Config F} {rep : AbReport F}
    (h : ab a b cfg = .ok rep)
    (hclean : ∀ run ∈ a ++ b, ∀ ms, reduce run = .ok ms → ∀ m ∈ ms, m.contaminated = false) :
    (rep.outcome.verdict = .fail ↔ ∃ id, Listed id rep) ∧
      (rep.outcome.verdict = .pass ↔ ¬ ∃ id, Listed id rep) := by
  have hnone : ∀ d ∈ rep.detail, d.status ≠ .contaminated := by
    intro d hd hstatus
    obtain ⟨notes, pa, pb, -, hpa, hpb, -, rfl⟩ := ab_eq_ok.1 h
    obtain ⟨id, -, hjudge⟩ := mem_abDetails.1 hd
    obtain ⟨bvals, -, -, -, -, hd'⟩ := abJudge_spec hjudge
    rw [hd', statusOf, abStatus_contaminated] at hstatus
    have hany {runs : List (Json F)} {parts : List (List (Metric F))} (hp : Reduces runs parts)
        (hmem : ∀ run ∈ runs, run ∈ a ++ b) :
        (own id (tagged runs parts)).any (·.2.contaminated) = false := by
      rw [List.any_eq_false]
      intro p hp'
      obtain ⟨run, hrun, ms, hms, -, hm⟩ := (mem_tagged hp).1 (mem_own.1 hp').1
      simp [hclean run (hmem run hrun) ms hms p.2 hm]
    have hfalse : contaminatedIn (groupOf (tagged a pa)) (groupOf (tagged b pb)) id = false := by
      rw [contaminatedIn, groupOf_contaminated, groupOf_contaminated,
        hany hpa fun run hrun => List.mem_append_left b hrun,
        hany hpb fun run hrun => List.mem_append_right a hrun]
      rfl
    rw [hfalse] at hstatus
    exact absurd hstatus.2 (by decide)
  have hlisted : (∃ id, Listed id rep) ↔ ∃ d ∈ rep.detail, d.status = .regressed := by
    apply Iff.intro
    · intro hid
      obtain ⟨id, d, hd, -, hstatus⟩ := hid
      exact ⟨d, hd, hstatus⟩
    · intro hd
      obtain ⟨d, hd, hstatus⟩ := hd
      exact ⟨d.id, d, hd, rfl, hstatus⟩
  rw [ab_verdict h, abVerdict_fail, abVerdict_pass, hlisted]
  refine ⟨and_iff_right hnone, ?_⟩
  apply Iff.intro
  · intro hall hbad
    obtain ⟨d, hd, hstatus⟩ := hbad
    exact (hall d hd).2 hstatus
  · intro hno d hd
    exact ⟨hnone d hd, fun hstatus => hno ⟨d, hd, hstatus⟩⟩

end Regressed

end Assayist
