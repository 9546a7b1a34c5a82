import Assayist.Proofs.Groups

/-! What `ab` reports: one entry for each metric with enough samples on both sides, its
status decided by the tests in a fixed order, and a verdict over the entries. -/

namespace Assayist

section Status

variable {ignored contaminated significant strong noisy : Bool} {bad : Option Bool}

theorem abStatus_ignored :
    abStatus ignored contaminated significant strong noisy bad = .ignored ↔ ignored = true := by
  unfold abStatus
  split_ifs with h
  · simp [h]
  · simp [h]
  · simp [h]
  · rcases bad with _ | _ | _ <;> simp [h]

theorem abStatus_contaminated :
    abStatus ignored contaminated significant strong noisy bad = .contaminated ↔
      ignored = false ∧ contaminated = true := by
  unfold abStatus
  split_ifs with h h'
  · simp [h]
  · simp [h, h']
  · simp [h']
  · rcases bad with _ | _ | _ <;> simp [h']

/-- The status of a metric that passes every test and has a direction. -/
def directed (worse : Bool) : Status := if worse then .regressed else .improved

theorem directed_injective {worse : Bool} {status : Bool} :
    directed status = directed worse ↔ status = worse := by
  cases status <;> cases worse <;> simp [directed]

theorem abStatus_directed {worse : Bool} :
    abStatus ignored contaminated significant strong noisy bad = directed worse ↔
      ignored = false ∧ contaminated = false ∧ significant = true ∧ strong = true ∧
        noisy = false ∧ bad = some worse := by
  have hother : directed worse ≠ .ignored ∧ directed worse ≠ .contaminated ∧
      directed worse ≠ .stable ∧ directed worse ≠ .changed := by
    cases worse <;> simp [directed]
  unfold abStatus
  split_ifs with h h' h''
  · simp [h, hother.1.symm]
  · simp [h', hother.2.1.symm]
  · refine iff_of_false hother.2.2.1.symm ?_
    intro h
    obtain ⟨-, -, rfl, rfl, rfl, -⟩ := h
    simp at h''
  · simp only [Bool.or_eq_true, Bool.not_eq_true', not_or, Bool.not_eq_false,
      Bool.not_eq_true] at h''
    cases bad with
    | none => simp [hother.2.2.2.symm]
    | some status =>
      cases status with
      | true =>
        change directed true = directed worse ↔ _
        rw [directed_injective]
        simp [h, h', h'']
      | false =>
        change directed false = directed worse ↔ _
        rw [directed_injective]
        simp [h, h', h'']

end Status

section Verdict

variable {F : Type} {detail : List (AbDetail F)}

theorem abVerdict_contaminated :
    abVerdict detail = .contaminated ↔ ∃ d ∈ detail, d.status = .contaminated := by
  unfold abVerdict
  split_ifs with h h'
  · simpa using h
  · simpa using h
  · simpa using h

theorem abVerdict_fail :
    abVerdict detail = .fail ↔
      (∀ d ∈ detail, d.status ≠ .contaminated) ∧ ∃ d ∈ detail, d.status = .regressed := by
  unfold abVerdict
  split_ifs with h h'
  · simp only [List.any_eq_true, decide_eq_true_eq] at h
    obtain ⟨d, hd, hs⟩ := h
    simp only [false_iff]
    exact fun hall => hall.1 d hd hs
  · simp_all
  · simp_all

theorem abVerdict_pass :
    abVerdict detail = .pass ↔
      ∀ d ∈ detail, d.status ≠ .contaminated ∧ d.status ≠ .regressed := by
  unfold abVerdict
  split_ifs with h h'
  · simp only [false_iff]
    simp only [List.any_eq_true, decide_eq_true_eq] at h
    obtain ⟨d, hd, hs⟩ := h
    exact fun hall => (hall d hd).1 hs
  · simp only [false_iff]
    simp only [List.any_eq_true, decide_eq_true_eq] at h'
    obtain ⟨d, hd, hs⟩ := h'
    exact fun hall => (hall d hd).2 hs
  · simp_all

end Verdict

section Judge

variable {F : Type} [F64 F]

def contaminatedIn (ga gb : Group F) (id : String) : Bool :=
  (ga.contaminated[id]?).getD false || (gb.contaminated[id]?).getD false

def statusOf (cfg : Config F) (ga gb : Group F) (id : String) (avals bvals : List F) : Status :=
  abStatus (ignored cfg id) (contaminatedIn ga gb id)
    (decide (permutationP avals bvals cfg.resamples cfg.seed < cfg.pThreshold))
    (decide (cfg.minEffect ≤ F64.abs (relDelta (mean avals) (mean bvals))))
    (decide (cfg.noiseThreshold < withinCov avals bvals))
    (badDirection ((ga.polarity[id]?).getD .unknown) (relDelta (mean avals) (mean bvals)))

variable {cfg : Config F} {ga gb : Group F} {id : String} {avals : List F} {d : AbDetail F}

theorem abJudge_eq_none :
    abJudge cfg ga gb id avals = none ↔
      ∀ bvals, gb.samples[id]? = some bvals → avals.length < 2 ∨ bvals.length < 2 := by
  unfold abJudge
  cases hb : gb.samples[id]? with
  | none => simp
  | some bvals =>
    simp only [Option.some.injEq, forall_eq']
    by_cases h : avals.length < 2 ∨ bvals.length < 2
    · rw [if_pos h]
      exact iff_of_true rfl h
    · rw [if_neg h]
      exact iff_of_false (by simp) h

theorem abJudge_spec (h : abJudge cfg ga gb id avals = some d) :
    ∃ bvals, gb.samples[id]? = some bvals ∧ 2 ≤ avals.length ∧ 2 ≤ bvals.length ∧
      d.id = id ∧ d.status = statusOf cfg ga gb id avals bvals := by
  unfold abJudge at h
  cases hb : gb.samples[id]? with
  | none => simp [hb] at h
  | some bvals =>
    rw [hb] at h
    by_cases hlen : avals.length < 2 ∨ bvals.length < 2
    · simp only [if_pos hlen, reduceCtorEq] at h
    · simp only [if_neg hlen, Option.some.injEq] at h
      refine ⟨bvals, rfl, by omega, by omega, ?_, ?_⟩
      · rw [← h]
      · rw [← h]
        rfl

theorem abJudge_numbers (h : abJudge cfg ga gb id avals = some d) :
    ∃ bvals, gb.samples[id]? = some bvals ∧
      d.relDelta = relDelta (mean avals) (mean bvals) ∧
      d.p = permutationP avals bvals cfg.resamples cfg.seed ∧
      d.noisy = decide (cfg.noiseThreshold < withinCov avals bvals) := by
  obtain ⟨bvals, hb, hlena, hlenb, -⟩ := abJudge_spec h
  unfold abJudge at h
  rw [hb] at h
  have hlen : ¬ (avals.length < 2 ∨ bvals.length < 2) := by omega
  simp only [if_neg hlen, Option.some.injEq] at h
  refine ⟨bvals, hb, ?_, ?_, ?_⟩
  · rw [← h]
  · rw [← h]
  · rw [← h]

end Judge

section Ab

variable {F : Type} [F64 F]

def abDetails (cfg : Config F) (ga gb : Group F) : List (AbDetail F) :=
  ga.samples.toList.filterMap fun (id, avals) => abJudge cfg ga gb id avals

theorem mem_abDetails {cfg : Config F} {ma : List (String × Metric F)} {gb : Group F}
    {d : AbDetail F} :
    d ∈ abDetails cfg (groupOf ma) gb ↔
      ∃ id, own id ma ≠ [] ∧
        abJudge cfg (groupOf ma) gb id ((own id ma).map (·.2.value)) = some d := by
  unfold abDetails
  rw [List.mem_filterMap]
  apply Iff.intro
  · intro h
    obtain ⟨⟨id, avals⟩, hmem, hd⟩ := h
    obtain ⟨hne, rfl⟩ := mem_samples_toList.1 hmem
    exact ⟨id, hne, hd⟩
  · intro h
    obtain ⟨id, hne, hd⟩ := h
    exact ⟨(id, _), mem_samples_toList.2 ⟨hne, rfl⟩, hd⟩

variable [FloatText F] [Build]

def reportOf (cfg : Config F) (notes : List String) (detail : List (AbDetail F)) : AbReport F where
  outcome :=
    { verdict := abVerdict detail, perMetric := detail.map AbDetail.outcome
      notes := abNotes cfg notes detail }
  detail

theorem ab_eq (a b : List (Json F)) (cfg : Config F) :
    ab a b cfg = (do
      let notes ← validate a b cfg
      let ga ← collect a
      let gb ← collect b
      if (abDetails cfg ga gb).isEmpty then
        throw (.error (nothingComparableError ga.samples.size gb.samples.size))
      else pure (reportOf cfg notes (abDetails cfg ga gb))) := rfl

/-- `ab` reports when the runs are admitted, all reduce, and something is comparable. -/
theorem ab_eq_ok {a b : List (Json F)} {cfg : Config F} {rep : AbReport F} :
    ab a b cfg = .ok rep ↔
      ∃ notes pa pb, validate a b cfg = .ok notes ∧ Reduces a pa ∧ Reduces b pb ∧
        abDetails cfg (groupOf (tagged a pa)) (groupOf (tagged b pb)) ≠ [] ∧
        rep = reportOf cfg notes
          (abDetails cfg (groupOf (tagged a pa)) (groupOf (tagged b pb))) := by
  rw [ab_eq]
  simp only [Results.bind_eq_ok, collect_eq_ok]
  apply Iff.intro
  · intro h
    obtain ⟨notes, hnotes, _, ⟨pa, hpa, rfl⟩, _, ⟨pb, hpb, rfl⟩, h⟩ := h
    refine ⟨notes, pa, pb, hnotes, hpa, hpb, ?_⟩
    -- the error branch closes itself
    split_ifs at h with hempty
    rw [List.isEmpty_iff] at hempty
    exact ⟨hempty, (Results.pure_eq_ok.1 h).symm⟩
  · intro h
    obtain ⟨notes, pa, pb, hnotes, hpa, hpb, hne, rfl⟩ := h
    refine ⟨notes, hnotes, _, ⟨pa, hpa, rfl⟩, _, ⟨pb, hpb, rfl⟩, ?_⟩
    rw [if_neg (by simpa using hne)]
    rfl

theorem ab_verdict {a b : List (Json F)} {cfg : Config F} {rep : AbReport F}
    (h : ab a b cfg = .ok rep) : rep.outcome.verdict = abVerdict rep.detail := by
  obtain ⟨notes, pa, pb, -, -, -, -, rfl⟩ := ab_eq_ok.1 h
  rfl

theorem ab_perMetric {a b : List (Json F)} {cfg : Config F} {rep : AbReport F}
    (h : ab a b cfg = .ok rep) : rep.outcome.perMetric = rep.detail.map AbDetail.outcome := by
  obtain ⟨notes, pa, pb, -, -, -, -, rfl⟩ := ab_eq_ok.1 h
  rfl

/-- A contaminated metric that is compared and not ignored decides the verdict. -/
theorem ab_contaminated {a b : List (Json F)} {cfg : Config F} {rep : AbReport F}
    (h : ab a b cfg = .ok rep) {run : Json F} (hrun : run ∈ a ∨ run ∈ b)
    {ms : List (Metric F)} (hms : reduce run = .ok ms) {m : Metric F} (hm : m ∈ ms)
    (hc : m.contaminated = true) {d : AbDetail F} (hd : d ∈ rep.detail) (hid : d.id = m.id)
    (hign : ignored cfg m.id = false) : rep.outcome.verdict = .contaminated := by
  rw [ab_verdict h, abVerdict_contaminated]
  obtain ⟨notes, pa, pb, -, hpa, hpb, -, rfl⟩ := ab_eq_ok.1 h
  refine ⟨d, hd, ?_⟩
  obtain ⟨id, -, hjudge⟩ := mem_abDetails.1 hd
  obtain ⟨bvals, -, -, -, hdid, hstatus⟩ := abJudge_spec hjudge
  have hidm : id = m.id := hdid.symm.trans hid
  subst hidm
  rw [hstatus, statusOf, abStatus_contaminated]
  refine ⟨hign, ?_⟩
  rw [contaminatedIn, groupOf_contaminated, groupOf_contaminated, Bool.or_eq_true]
  have hown {runs : List (Json F)} {parts : List (List (Metric F))} (hp : Reduces runs parts)
      (hmem : run ∈ runs) : (own m.id (tagged runs parts)).any (·.2.contaminated) = true :=
    List.any_eq_true.2 ⟨(paramsHash run, m),
      mem_own.2 ⟨(mem_tagged hp).2 ⟨run, hmem, ms, hms, rfl, hm⟩, rfl⟩, hc⟩
  exact hrun.imp (hown hpa) (hown hpb)

end Ab

end Assayist
