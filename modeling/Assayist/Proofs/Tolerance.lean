import Assayist.Proofs.Comparable
import Assayist.Proofs.Noise

/-! What the thresholds do to a verdict. The gate judges each metric against its own samples only,
so a configuration that lets more pass metric by metric lets more pass in all, in each of the three
modes. -/

namespace Assayist

section Verdicts

def Verdict.severity : Verdict → ℕ
  | .pass => 0
  | .fail => 1
  | .contaminated => 2

/-- A configuration that lets at least as much pass as another does: its thresholds take more to
exceed, and more to call a group quiet, it ignores every metric and admits every run that the other
does, and it draws the same shuffles. -/
structure Laxer (lax cfg : Config ℝ) : Prop where
  p : lax.pThreshold ≤ cfg.pThreshold
  noise : lax.noiseThreshold ≤ cfg.noiseThreshold
  effect : cfg.minEffect ≤ lax.minEffect
  drift : cfg.driftK ≤ lax.driftK
  ignore : cfg.ignore ⊆ lax.ignore
  ungraded : cfg.allowUngraded = true → lax.allowUngraded = true
  resamples : lax.resamples = cfg.resamples
  seed : lax.seed = cfg.seed

variable {lax cfg : Config ℝ} {ga gb : Group ℝ}

theorem Laxer.judges (h : Laxer lax cfg) {id : String} (hign : ignored lax id = false) :
    ignored cfg id = false := by
  unfold ignored at hign ⊢
  rw [List.any_eq_false] at hign ⊢
  exact fun pat hpat => hign pat (h.ignore hpat)

theorem Laxer.contaminated (h : Laxer lax cfg) {id : String} {avals bvals : List ℝ}
    (hs : statusOf lax ga gb id avals bvals = .contaminated) :
    statusOf cfg ga gb id avals bvals = .contaminated := by
  unfold statusOf at hs ⊢
  rw [abStatus_contaminated] at hs ⊢
  exact ⟨h.judges hs.1, hs.2⟩

theorem Laxer.directed (h : Laxer lax cfg) (worse : Bool) {id : String} {avals bvals : List ℝ}
    (hs : statusOf lax ga gb id avals bvals = Assayist.directed worse) :
    statusOf cfg ga gb id avals bvals = Assayist.directed worse := by
  unfold statusOf at hs ⊢
  rw [abStatus_directed] at hs ⊢
  obtain ⟨hign, hclean, hsignificant, hstrong, hquiet, hbad⟩ := hs
  rw [decide_eq_true_eq] at hsignificant hstrong
  rw [decide_eq_false_iff_not, not_lt] at hquiet
  rw [h.resamples, h.seed] at hsignificant
  refine ⟨h.judges hign, hclean, ?_, ?_, ?_, hbad⟩
  · exact decide_eq_true (hsignificant.trans_le h.p)
  · exact decide_eq_true (h.effect.trans hstrong)
  · exact decide_eq_false (not_lt.2 (hquiet.trans h.noise))

/-- What is compared does not depend on the configuration, and is judged no worse by a laxer one. -/
theorem Laxer.abJudge (h : Laxer lax cfg) {id : String} {avals : List ℝ} {d : AbDetail ℝ}
    (hd : Assayist.abJudge lax ga gb id avals = some d) :
    ∃ d', Assayist.abJudge cfg ga gb id avals = some d' ∧
      (d.status = .contaminated → d'.status = .contaminated) ∧
      (d.status = .regressed → d'.status = .regressed) := by
  obtain ⟨bvals, hb, hlena, hlenb, -, hstatus⟩ := abJudge_spec hd
  cases hd' : Assayist.abJudge cfg ga gb id avals with
  | none =>
    have hshort := abJudge_eq_none.1 hd' bvals hb
    omega
  | some d' =>
    obtain ⟨bvals', hb', -, -, -, hstatus'⟩ := abJudge_spec hd'
    obtain rfl : bvals' = bvals := Option.some.inj (hb'.symm.trans hb)
    refine ⟨d', rfl, ?_, ?_⟩
    · rw [hstatus, hstatus']
      exact h.contaminated
    · rw [hstatus, hstatus']
      exact h.directed true

theorem Laxer.abVerdict (h : Laxer lax cfg) :
    (Assayist.abVerdict (abDetails lax ga gb)).severity ≤
      (Assayist.abVerdict (abDetails cfg ga gb)).severity := by
  have hmem {d : AbDetail ℝ} (hd : d ∈ abDetails lax ga gb) :
      ∃ d' ∈ abDetails cfg ga gb, (d.status = .contaminated → d'.status = .contaminated) ∧
        (d.status = .regressed → d'.status = .regressed) := by
    obtain ⟨⟨id, avals⟩, hid, hjudge⟩ := List.mem_filterMap.1 hd
    obtain ⟨d', hd', hstatus⟩ := h.abJudge hjudge
    exact ⟨d', List.mem_filterMap.2 ⟨(id, avals), hid, hd'⟩, hstatus⟩
  cases hv : Assayist.abVerdict (abDetails lax ga gb) with
  | pass => exact Nat.zero_le _
  | fail =>
    obtain ⟨-, d, hd, hs⟩ := abVerdict_fail.1 hv
    obtain ⟨d', hd', -, hregressed⟩ := hmem hd
    cases hv' : Assayist.abVerdict (abDetails cfg ga gb) with
    | pass => exact absurd (hregressed hs) (abVerdict_pass.1 hv' d' hd').2
    | fail => exact le_rfl
    | contaminated => exact Nat.le_succ 1
  | contaminated =>
    obtain ⟨d, hd, hs⟩ := abVerdict_contaminated.1 hv
    obtain ⟨d', hd', hcontaminated, -⟩ := hmem hd
    rw [abVerdict_contaminated.2 ⟨d', hd', hcontaminated hs⟩]

/-- A level that has shifted by more than a laxer band has shifted by more than the other's. -/
theorem Laxer.driftedFrom (h : Laxer lax cfg) {base cand : List ℝ}
    (hdrifted : Assayist.driftedFrom lax base cand = true) :
    Assayist.driftedFrom cfg base cand = true := by
  unfold Assayist.driftedFrom at hdrifted ⊢
  rw [Bool.and_eq_true, decide_eq_true_eq] at hdrifted ⊢
  obtain ⟨hshift, heffect⟩ := hdrifted
  have heffect' := h.effect.trans heffect
  refine ⟨?_, heffect'⟩
  split_ifs at hshift ⊢ with hstd
  · rw [decide_eq_true_eq] at hshift ⊢
    exact (mul_le_mul_of_nonneg_right h.drift hstd.le).trans_lt hshift
  · exact decide_eq_true heffect'

theorem Laxer.driftJudge (h : Laxer lax cfg) {id : String} {vals : List ℝ} {d : DriftDetail ℝ}
    (hd : Assayist.driftJudge lax ga gb id vals = some d) :
    ∃ d', Assayist.driftJudge cfg ga gb id vals = some d' ∧
      (d.status = .driftBad → d'.status = .driftBad) := by
  obtain ⟨hlen, hcand, hign⟩ := driftJudge_isSome.1 ⟨d, hd⟩
  obtain ⟨d', hd'⟩ := driftJudge_isSome.2 ⟨hlen, hcand, h.judges hign⟩
  obtain ⟨cand, hcand, -, hstatus⟩ := driftJudge_spec hd
  obtain ⟨cand', hcand', -, hstatus'⟩ := driftJudge_spec hd'
  obtain rfl : cand' = cand := Option.some.inj (hcand'.symm.trans hcand)
  refine ⟨d', hd', ?_⟩
  rw [hstatus, hstatus', driftStatus_bad, driftStatus_bad]
  exact And.imp_left h.driftedFrom

theorem Laxer.driftVerdict (h : Laxer lax cfg) :
    (Assayist.driftVerdict (driftDetails lax ga gb)).severity ≤
      (Assayist.driftVerdict (driftDetails cfg ga gb)).severity := by
  unfold Assayist.driftVerdict
  split_ifs with hlax hcfg hcfg
  · exact le_rfl
  · simp only [List.any_eq_true, decide_eq_true_eq] at hlax hcfg
    obtain ⟨d, hd, hs⟩ := hlax
    obtain ⟨⟨id, vals⟩, hid, hjudge⟩ := List.mem_filterMap.1 hd
    obtain ⟨d', hd', hbad⟩ := h.driftJudge hjudge
    exact absurd ⟨d', List.mem_filterMap.2 ⟨(id, vals), hid, hd'⟩, hbad hs⟩ hcfg
  · exact Nat.zero_le _
  · exact le_rfl

end Verdicts

section Modes

variable [FloatText ℝ] [Build] {lax cfg : Config ℝ} {a b : List (Json ℝ)} {mode : String}

theorem ab_collected {rep : AbReport ℝ} (h : ab a b cfg = .ok rep) :
    ∃ ga gb, collect a = .ok ga ∧ collect b = .ok gb ∧
      rep.outcome.verdict = abVerdict (abDetails cfg ga gb) := by
  obtain ⟨notes, pa, pb, -, hpa, hpb, -, rfl⟩ := ab_eq_ok.1 h
  exact ⟨_, _, collect_eq_ok.2 ⟨pa, hpa, rfl⟩, collect_eq_ok.2 ⟨pb, hpb, rfl⟩, rfl⟩

theorem drift_collected {rep : DriftReport ℝ} (h : drift a b cfg = .ok rep) :
    ∃ ga gb, collect a = .ok ga ∧ collect b = .ok gb ∧
      rep.outcome.verdict = driftVerdict (driftDetails cfg ga gb) := by
  obtain ⟨pa, pb, hpa, hpb, -, rfl⟩ := drift_eq_ok.1 h
  exact ⟨_, _, collect_eq_ok.2 ⟨pa, hpa, rfl⟩, collect_eq_ok.2 ⟨pb, hpb, rfl⟩, rfl⟩

/-- A triad's verdict is that of its comparison, but for an overhead that fails a pass. -/
theorem triad_verdict {rep : TriadReport ℝ} (h : triad a b cfg = .ok rep) :
    ∃ base, ab a b cfg = .ok base ∧ rep.outcome.verdict.severity =
      max base.outcome.verdict.severity (overhead b).verdict.severity := by
  obtain ⟨base, hbase, hr⟩ := Results.bind_eq_ok.1 h
  refine ⟨base, hbase, ?_⟩
  rw [← Results.pure_eq_ok.1 hr]
  have hover : (overhead b).verdict = .fail ∨ (overhead b).verdict = .pass := by
    unfold overhead
    dsimp only
    split_ifs
    · exact .inr rfl
    · exact .inl rfl
  rcases hover with hover | hover
  · rw [if_pos hover, hover]
    cases hverdict : base.outcome.verdict <;> simp [Verdict.severity]
  · rw [if_neg (by rw [hover]; decide), hover]
    exact (Nat.max_eq_left (Nat.zero_le _)).symm

theorem Laxer.ab (h : Laxer lax cfg) {rep rep' : AbReport ℝ}
    (hrep : Assayist.ab a b lax = .ok rep) (hrep' : Assayist.ab a b cfg = .ok rep') :
    rep.outcome.verdict.severity ≤ rep'.outcome.verdict.severity := by
  obtain ⟨ga, gb, hga, hgb, hverdict⟩ := ab_collected hrep
  obtain ⟨ga', gb', hga', hgb', hverdict'⟩ := ab_collected hrep'
  obtain rfl : ga' = ga := Except.ok.inj (hga'.symm.trans hga)
  obtain rfl : gb' = gb := Except.ok.inj (hgb'.symm.trans hgb)
  rw [hverdict, hverdict']
  exact h.abVerdict

theorem Laxer.drifts (h : Laxer lax cfg) {rep rep' : DriftReport ℝ}
    (hrep : Assayist.drift a b lax = .ok rep) (hrep' : Assayist.drift a b cfg = .ok rep') :
    rep.outcome.verdict.severity ≤ rep'.outcome.verdict.severity := by
  obtain ⟨ga, gb, hga, hgb, hverdict⟩ := drift_collected hrep
  obtain ⟨ga', gb', hga', hgb', hverdict'⟩ := drift_collected hrep'
  obtain rfl : ga' = ga := Except.ok.inj (hga'.symm.trans hga)
  obtain rfl : gb' = gb := Except.ok.inj (hgb'.symm.trans hgb)
  rw [hverdict, hverdict']
  exact h.driftVerdict

/-- Under a laxer configuration a comparison comes out no worse: not worse than pass if it passed,
and contaminated only if it was. It still comes out, but for a drift whose metrics are all
ignored. -/
theorem laxer_no_worse (h : Laxer lax cfg) {rep : Report ℝ} (hrep : judge mode a b cfg = .ok rep) :
    (∀ rep', judge mode a b lax = .ok rep' →
      rep'.outcome.verdict.severity ≤ rep.outcome.verdict.severity) ∧
    ((∃ rep', judge mode a b lax = .ok rep') ↔
      mode = "longitudinal_drift" → ∃ id, Paired id a b ∧ ignored lax id = false) := by
  apply And.intro
  · intro rep' hrep'
    unfold judge at hrep hrep'
    split_ifs at hrep hrep' with hab hdrift
    · obtain ⟨r, hr, rfl⟩ := Results.map_eq_ok.1 hrep
      obtain ⟨r', hr', rfl⟩ := Results.map_eq_ok.1 hrep'
      exact h.ab hr' hr
    · obtain ⟨r, hr, rfl⟩ := Results.map_eq_ok.1 hrep
      obtain ⟨r', hr', rfl⟩ := Results.map_eq_ok.1 hrep'
      exact h.drifts hr' hr
    · obtain ⟨r, hr, rfl⟩ := Results.map_eq_ok.1 hrep
      obtain ⟨r', hr', rfl⟩ := Results.map_eq_ok.1 hrep'
      obtain ⟨base, hbase, hverdict⟩ := triad_verdict hr
      obtain ⟨base', hbase', hverdict'⟩ := triad_verdict hr'
      rw [Report.outcome, Report.outcome, hverdict, hverdict']
      exact max_le_max_right _ (h.ab hbase' hbase)
  · have hgradeable := judge_ok_iff.1 ⟨rep, hrep⟩
    rw [judge_ok_iff]
    unfold Gradeable at hgradeable ⊢
    by_cases hmode : mode = "longitudinal_drift"
    · rw [if_pos hmode] at hgradeable ⊢
      simp only [hgradeable.1, true_and, hmode, forall_const]
    · rw [if_neg hmode] at hgradeable ⊢
      obtain ⟨⟨⟨hfit, htenancy⟩, hreads⟩, hid⟩ := hgradeable
      refine iff_of_true ⟨⟨⟨fun run hrun => ?_, htenancy⟩, hreads⟩, hid⟩ fun hdrift =>
        absurd hdrift hmode
      exact (hfit run hrun).imp_right h.ungraded

end Modes

section Runs

attribute [local instance] releaseBuild wholeText

/-- The usual threshold, against one that calls every difference significant. -/
theorem default_no_worse :
    ∃ rep rep', judge "ab_permutation" ([-100, 100].map consumedCarrier.run)
        ([200, 200].map consumedCarrier.run) anySignificant = .ok rep ∧
      judge "ab_permutation" ([-100, 100].map consumedCarrier.run)
        ([200, 200].map consumedCarrier.run) Config.default = .ok rep' ∧
      rep'.outcome.verdict.severity ≤ rep.outcome.verdict.severity := by
  have hlaxer : Laxer Config.default anySignificant :=
    ⟨by norm_num [anySignificant, Config.default], le_rfl, le_rfl, le_rfl, List.Subset.refl _,
      fun h => h, rfl, rfl⟩
  have hmode : "ab_permutation" ≠ "longitudinal_drift" := by decide
  have hgradeable : Gradeable "ab_permutation" ([-100, 100].map consumedCarrier.run)
      ([200, 200].map consumedCarrier.run) anySignificant := by
    rw [Gradeable, if_neg hmode]
    refine ⟨consumedCarrier.sound_map _ _ _, "hostmem.mem_consumed_kib|value", ?_⟩
    rw [Paired, consumedCarrier.pooled_map, consumedCarrier.pooled_map]
    exact ⟨le_rfl, le_rfl⟩
  obtain ⟨rep, hrep⟩ := judge_ok_iff.2 hgradeable
  obtain ⟨hle, hiff⟩ := laxer_no_worse hlaxer hrep
  obtain ⟨rep', hrep'⟩ := hiff.2 fun hdrift => absurd hdrift hmode
  exact ⟨rep, rep', hrep, hrep', hle rep' hrep'⟩

end Runs

end Assayist
