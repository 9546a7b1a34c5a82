import Assayist.Proofs.Groups

/-! What `drift` reports: one entry for each baseline metric that both sides carry often
enough and that is not ignored. It looks at no grade and no tenancy. -/

namespace Assayist

section Judge

variable {F : Type} [F64 F] {cfg : Config F} {gb gc : Group F} {id : String} {vals : List F}

theorem driftJudge_isSome :
    (∃ d, driftJudge cfg gb gc id vals = some d) ↔
      2 ≤ vals.length ∧ (∃ cand, gc.samples[id]? = some cand ∧ 2 ≤ cand.length) ∧
        ignored cfg id = false := by
  unfold driftJudge
  cases hc : gc.samples[id]? with
  | none => simp
  | some cand =>
    simp only [Option.some.injEq, exists_eq_left']
    by_cases hlen : vals.length < 2 ∨ cand.length < 2
    · rw [if_pos hlen]
      refine iff_of_false (by simp) fun h => ?_
      omega
    · rw [if_neg hlen]
      by_cases hign : ignored cfg id = true
      · rw [if_pos hign]
        exact iff_of_false (by simp) fun h => by simp [hign] at h
      · rw [if_neg hign]
        exact iff_of_true ⟨_, rfl⟩ ⟨by omega, by omega, by simpa using hign⟩

/-- The candidate's mean is beyond the band of the baseline, or beyond the smallest effect
where the baseline has no spread, and the relative delta is no smaller effect either. -/
def driftedFrom (cfg : Config F) (base cand : List F) : Bool :=
  (if 0 < stddev base then
      decide (cfg.driftK * stddev base < F64.abs (mean cand - mean base))
    else decide (cfg.minEffect ≤ F64.abs (driftRel (mean base) (mean cand)))) &&
    decide (cfg.minEffect ≤ F64.abs (driftRel (mean base) (mean cand)))

/-- The fitted slope is more than twice its standard error away from zero. -/
def trends (cand : List F) : Bool :=
  decide (0 < (linregSlopeStderr cand).2) &&
    decide (2 < F64.abs ((linregSlopeStderr cand).1 / (linregSlopeStderr cand).2))

theorem driftJudge_spec {d : DriftDetail F} (h : driftJudge cfg gb gc id vals = some d) :
    ∃ cand, gc.samples[id]? = some cand ∧ d.id = id ∧
      d.status = driftStatus (driftedFrom cfg vals cand)
        ((badDirection ((gb.polarity[id]?).getD .unknown)
          (driftRel (mean vals) (mean cand))).getD false) (trends cand) := by
  unfold driftJudge at h
  cases hc : gc.samples[id]? with
  | none => simp [hc] at h
  | some cand =>
    rw [hc] at h
    by_cases hlen : vals.length < 2 ∨ cand.length < 2
    · simp only [if_pos hlen, reduceCtorEq] at h
    · by_cases hign : ignored cfg id = true
      · simp only [if_neg hlen, if_pos hign, reduceCtorEq] at h
      · simp only [if_neg hlen, if_neg hign, Option.some.injEq] at h
        rw [← h]
        exact ⟨cand, rfl, rfl, rfl⟩

theorem driftJudge_id {d : DriftDetail F} (h : driftJudge cfg gb gc id vals = some d) :
    d.id = id := by
  obtain ⟨_, _, hid, _⟩ := driftJudge_spec h
  exact hid

theorem driftStatus_trending {drifted bad trending : Bool} :
    driftStatus drifted bad trending = .trending ↔ drifted = false ∧ trending = true := by
  unfold driftStatus
  cases drifted with
  | false => cases trending <;> simp
  | true => cases bad <;> simp

theorem driftJudge_trending {cand : List F} {d : DriftDetail F}
    (h : driftJudge cfg gb gc id vals = some d) (hcand : gc.samples[id]? = some cand) :
    d.status = .trending ↔ driftedFrom cfg vals cand = false ∧ trends cand = true := by
  obtain ⟨cand', hcand', -, hstatus⟩ := driftJudge_spec h
  obtain rfl : cand' = cand := Option.some.inj (hcand'.symm.trans hcand)
  rw [hstatus, driftStatus_trending]

theorem driftStatus_bad {drifted bad trending : Bool} :
    driftStatus drifted bad trending = .driftBad ↔ drifted = true ∧ bad = true := by
  unfold driftStatus
  cases drifted with
  | false => cases trending <;> simp
  | true => cases bad <;> simp

end Judge

section Drift

variable {F : Type} [F64 F]

def driftDetails (cfg : Config F) (gb gc : Group F) : List (DriftDetail F) :=
  gb.samples.toList.filterMap fun (id, vals) => driftJudge cfg gb gc id vals

def driftReportOf (detail : List (DriftDetail F)) : DriftReport F where
  outcome :=
    { verdict := driftVerdict detail, perMetric := detail.map DriftDetail.outcome
      notes := if driftVerdict detail = .pass then ["no bad-direction drift beyond band"] else [] }
  detail

/-- An id has an entry exactly when it has two samples a side and is not ignored. -/
theorem mem_driftDetails {cfg : Config F} {mb mc : List (String × Metric F)} {id : String} :
    (∃ d ∈ driftDetails cfg (groupOf mb) (groupOf mc), d.id = id) ↔
      2 ≤ (own id mb).length ∧ 2 ≤ (own id mc).length ∧ ignored cfg id = false := by
  have hne {ms : List (String × Metric F)} (h : 2 ≤ (own id ms).length) : own id ms ≠ [] :=
    fun he => by simp [he] at h
  unfold driftDetails
  apply Iff.intro
  · intro h
    obtain ⟨d, hd, hid⟩ := h
    obtain ⟨⟨id', vals⟩, hmem, hd⟩ := List.mem_filterMap.1 hd
    obtain rfl : id' = id := (driftJudge_id hd).symm.trans hid
    obtain ⟨-, rfl⟩ := mem_samples_toList.1 hmem
    obtain ⟨hlen, ⟨cand, hcand, hclen⟩, hign⟩ := driftJudge_isSome.1 ⟨d, hd⟩
    rw [groupOf_samples] at hcand
    split_ifs at hcand
    rw [← Option.some.inj hcand, List.length_map] at hclen
    rw [List.length_map] at hlen
    exact ⟨hlen, hclen, hign⟩
  · intro h
    obtain ⟨hb, hc, hign⟩ := h
    have hcand : (groupOf mc).samples[id]? = some ((own id mc).map (·.2.value)) := by
      rw [groupOf_samples, if_neg (by simpa using hne hc)]
    have hvals : 2 ≤ ((own id mb).map (·.2.value)).length := by rwa [List.length_map]
    have hclen : 2 ≤ ((own id mc).map (·.2.value)).length := by rwa [List.length_map]
    have hsome : ∃ d, driftJudge cfg (groupOf mb) (groupOf mc) id _ = some d :=
      driftJudge_isSome.2 ⟨hvals, ⟨_, hcand, hclen⟩, hign⟩
    obtain ⟨d, hd⟩ := hsome
    exact ⟨d, List.mem_filterMap.2 ⟨(id, _), mem_samples_toList.2 ⟨hne hb, rfl⟩, hd⟩,
      driftJudge_id hd⟩

theorem driftDetails_status {cfg : Config F} {mb mc : List (String × Metric F)}
    {d : DriftDetail F} (hd : d ∈ driftDetails cfg (groupOf mb) (groupOf mc)) :
    d.status = .driftBad ↔
      driftedFrom cfg ((own d.id mb).map (·.2.value)) ((own d.id mc).map (·.2.value)) = true ∧
        badDirection (((groupOf mb).polarity[d.id]?).getD .unknown)
          (driftRel (mean ((own d.id mb).map (·.2.value)))
            (mean ((own d.id mc).map (·.2.value)))) = some true := by
  unfold driftDetails at hd
  obtain ⟨⟨id, vals⟩, hmem, hjudge⟩ := List.mem_filterMap.1 hd
  obtain ⟨-, rfl⟩ := mem_samples_toList.1 hmem
  obtain ⟨cand, hcand, rfl, hstatus⟩ := driftJudge_spec hjudge
  rw [groupOf_samples] at hcand
  split_ifs at hcand
  rw [Option.some.injEq] at hcand
  rw [hstatus, driftStatus_bad, hcand]
  apply and_congr_right
  intro _
  generalize badDirection (((groupOf mb).polarity[d.id]?).getD .unknown)
    (driftRel (mean ((own d.id mb).map (·.2.value))) (mean cand)) = bad
  cases bad with
  | none => simp
  | some b => simp

/-- Something is there to compare: an id that is not ignored, with two samples a side. -/
theorem driftDetails_ne_nil {cfg : Config F} {mb mc : List (String × Metric F)} :
    driftDetails cfg (groupOf mb) (groupOf mc) ≠ [] ↔
      ∃ id, 2 ≤ (own id mb).length ∧ 2 ≤ (own id mc).length ∧ ignored cfg id = false := by
  apply Iff.intro
  · intro h
    obtain ⟨d, hd⟩ := List.exists_mem_of_ne_nil _ h
    exact ⟨d.id, mem_driftDetails.1 ⟨d, hd, rfl⟩⟩
  · intro h
    obtain ⟨id, h⟩ := h
    obtain ⟨d, hd, -⟩ := mem_driftDetails.2 h
    exact List.ne_nil_of_mem hd

variable [FloatText F] [Build]

theorem drift_eq (baseline candidate : List (Json F)) (cfg : Config F) :
    drift baseline candidate cfg = (do
      let gb ← collect baseline
      let gc ← collect candidate
      if (driftDetails cfg gb gc).isEmpty then
        throw (.error (nothingDriftedError gb.samples.size gc.samples.size))
      else pure (driftReportOf (driftDetails cfg gb gc))) := rfl

/-- `drift` reports when all runs reduce and something is comparable. -/
theorem drift_eq_ok {baseline candidate : List (Json F)} {cfg : Config F} {rep : DriftReport F} :
    drift baseline candidate cfg = .ok rep ↔
      ∃ pb pc, Reduces baseline pb ∧ Reduces candidate pc ∧
        driftDetails cfg (groupOf (tagged baseline pb)) (groupOf (tagged candidate pc)) ≠ [] ∧
        rep = driftReportOf
          (driftDetails cfg (groupOf (tagged baseline pb)) (groupOf (tagged candidate pc))) := by
  rw [drift_eq]
  simp only [Results.bind_eq_ok, collect_eq_ok]
  apply Iff.intro
  · intro h
    obtain ⟨_, ⟨pb, hpb, rfl⟩, _, ⟨pc, hpc, rfl⟩, h⟩ := h
    refine ⟨pb, pc, hpb, hpc, ?_⟩
    -- the error branch closes itself
    split_ifs at h with hempty
    rw [List.isEmpty_iff] at hempty
    exact ⟨hempty, (Results.pure_eq_ok.1 h).symm⟩
  · intro h
    obtain ⟨pb, pc, hpb, hpc, hne, rfl⟩ := h
    refine ⟨_, ⟨pb, hpb, rfl⟩, _, ⟨pc, hpc, rfl⟩, ?_⟩
    rw [if_neg (by simpa using hne)]
    rfl

end Drift

end Assayist
