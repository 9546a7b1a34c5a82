import Assayist.Proofs.Power
import Assayist.Proofs.Signs

/-! What the comparison cannot see. The permutation test gives groups with one mean the
p-value 1, so groups that hold the same samples in another order never fail; and a change of
unit and origin changes the p-value only by way of the guard on floating equality, which
does not change with the unit. -/

namespace Assayist

section EqualMeans

/-- Where nothing is observed, every shuffle lies as far apart. -/
theorem farCount_of_mean_eq {a b : List ℝ} (h : mean a = mean b) (resamples : ℕ) (seed : UInt64) :
    farCount resamples seed a b = resamples := by
  have hgap : Resampling.gap a.length (a ++ b) = 0 := by
    rw [mean_exact, mean_exact] at h
    rw [Resampling.gap_append, h, sub_self]
  have hall : farCount resamples seed a b = (resamplesOf resamples seed (a ++ b)).length := by
    unfold farCount
    rw [List.countP_eq_length]
    intro t _
    rw [hgap, abs_zero, decide_eq_true_eq]
    positivity
  rw [hall, resamplesOf, Resampling.length_trials]

theorem permutationP_of_mean_eq {a b : List ℝ} (h : mean a = mean b) (resamples : ℕ)
    (seed : UInt64) : permutationP a b resamples seed = 1 := by
  by_cases hne : a ≠ [] ∧ b ≠ []
  · rw [permutationP_exact hne.1 hne.2, farCount_of_mean_eq h]
    exact div_self (by positivity)
  · have hempty : (a.isEmpty || b.isEmpty) = true := by
      rw [Bool.or_eq_true, List.isEmpty_iff, List.isEmpty_iff]
      tauto
    unfold permutationP
    rw [if_pos hempty]

theorem relDelta_of_mean_eq {m m' : ℝ} (h : m = m') : relDelta m m' = 0 := by
  subst h
  by_cases hzero : m = 0
  · rw [hzero, relDelta_zero, if_pos rfl]
  · rw [relDelta_of_ne hzero, sub_self, zero_div]

end EqualMeans

section Rearranged

variable [FloatText ℝ] [Build] {a b : List (Json ℝ)} {cfg : Config ℝ}

/-- Under every id the second group holds the samples of the first in some order. -/
def Rearranged (a b : List (Json ℝ)) : Prop :=
  ∀ id, (valuesOf (pooledMetrics id b)).Perm (valuesOf (pooledMetrics id a))

theorem Rearranged.of_perm (h : b.Perm a) : Rearranged a b := by
  intro id
  exact (h.flatMap_right _).map _

theorem Rearranged.mean_eq (h : Rearranged a b) (id : String) :
    mean (valuesOf (pooledMetrics id a)) = mean (valuesOf (pooledMetrics id b)) := by
  rw [mean_exact, mean_exact]
  exact (Spread.mean_perm (h id)).symm

theorem Rearranged.shift_eq (h : Rearranged a b) (id : String) :
    shiftOf (pooledMetrics id a) (pooledMetrics id b) = 0 :=
  relDelta_of_mean_eq (h.mean_eq id)

/-- Groups that hold the same samples never fail, whatever the configuration, and every metric
compared has the delta 0 and the p-value 1. -/
theorem ab_rearranged (h : Rearranged a b) :
    ∀ rep, ab a b cfg = .ok rep → rep.outcome.verdict ≠ .fail ∧
      ∀ e ∈ rep.outcome.perMetric, e.2.delta = 0 ∧ e.2.p = 1 := by
  intro rep hrep
  apply And.intro
  · intro hfail
    rw [ab_verdict hrep, abVerdict_fail] at hfail
    obtain ⟨-, d, hd, hstatus⟩ := hfail
    obtain ⟨-, hcond⟩ := listed_iff.1 ⟨rep, hrep, d, hd, rfl, hstatus⟩
    have hbad := hcond.bad
    rw [h.shift_eq] at hbad
    exact badDirection_zero _ hbad
  · intro e he
    rw [ab_perMetric hrep] at he
    obtain ⟨d, hd, rfl⟩ := List.mem_map.1 he
    obtain ⟨hdelta, hp, -⟩ := detail_numbers hrep hd
    rw [h.shift_eq] at hdelta
    rw [permutationP_of_mean_eq (h.mean_eq d.id)] at hp
    exact ⟨hdelta, hp⟩

end Rearranged

section Reordered

attribute [local instance] releaseBuild wholeText

theorem ab_reordered :
    ∃ rep, ab [latencyCarrier.run 1, latencyCarrier.run 2]
        [latencyCarrier.run 2, latencyCarrier.run 1] Config.default = .ok rep ∧
      rep.outcome.verdict ≠ .fail ∧
      ∀ e ∈ rep.outcome.perMetric, e.2.delta = 0 ∧ e.2.p = 1 := by
  have hpooled (x y : ℝ) : pooledMetrics "workload:latency_ns"
      [latencyCarrier.run x, latencyCarrier.run y] =
        [sample "workload:latency_ns" .lowerBetter x, sample "workload:latency_ns" .lowerBetter y] :=
    latencyCarrier.pooled_map [x, y]
  obtain ⟨rep, hrep⟩ := ab_ok_iff.2 ⟨latencyCarrier.sound_map Config.default [1, 2] [2, 1],
    "workload:latency_ns", (congrArg List.length (hpooled 1 2)).ge,
    (congrArg List.length (hpooled 2 1)).ge⟩
  exact ⟨rep, hrep, ab_rearranged (.of_perm (.swap _ _ _)) rep hrep⟩

end Reordered

section Units

/-- The samples in another unit and from another origin. -/
def rescaled (c d : ℝ) (xs : List ℝ) : List ℝ := xs.map fun x => c * x + d

theorem rescaled_eq_nil {c d : ℝ} {xs : List ℝ} : rescaled c d xs = [] ↔ xs = [] :=
  List.map_eq_nil_iff

/-- How many of a seed's shuffles part the pool as far as the groups lie apart, up to a
guard. -/
noncomputable def guardedCount (guard : ℝ) (resamples : ℕ) (seed : UInt64) (a b : List ℝ) : ℕ :=
  (resamplesOf resamples seed (a ++ b)).countP fun t =>
    |Resampling.gap a.length (a ++ b)| ≤ |Resampling.gap a.length t| + guard

/-- The shuffles do not depend on the samples, so a change of unit is a change of the guard
alone. -/
theorem farCount_rescaled {a b : List ℝ} (ha : a ≠ []) (hb : b ≠ []) {c : ℝ} (hc : c ≠ 0) (d : ℝ)
    (resamples : ℕ) (seed : UInt64) :
    farCount resamples seed (rescaled c d a) (rescaled c d b) =
      guardedCount (1 / 10 ^ 12 / |c|) resamples seed a b := by
  have hna : a.length ≠ 0 := by simpa using ha
  have hgap {t : List ℝ} (ht : t.Perm (a ++ b)) :
      |Resampling.gap a.length (rescaled c d t)| = |c| * |Resampling.gap a.length t| := by
    have hlen : a.length < t.length := by
      rw [ht.length_eq, List.length_append]
      exact Nat.lt_add_of_pos_right (List.length_pos_of_ne_nil hb)
    rw [rescaled, Resampling.gap_affine hna hlen, abs_mul]
  unfold farCount guardedCount
  rw [resamplesOf, rescaled, rescaled, ← List.map_append, Resampling.trials_map, List.countP_map,
    List.length_map]
  apply List.countP_congr
  intro t ht
  have hpos : 0 < |c| := abs_pos.2 hc
  simp only [Function.comp_apply, decide_eq_true_eq]
  change |Resampling.gap a.length (rescaled c d (a ++ b))| ≤
    |Resampling.gap a.length (rescaled c d t)| + 1 / 10 ^ 12 ↔ _
  have hguard : (1 / 10 ^ 12 : ℝ) = |c| * (1 / 10 ^ 12 / |c|) := (mul_div_cancel₀ _ hpos.ne').symm
  rw [hgap (.refl _), hgap (Resampling.perm_of_mem_trials fisherYates ht)]
  conv_lhs => rw [hguard, ← mul_add]
  exact mul_le_mul_iff_right₀ hpos

theorem permutationP_guarded {a b : List ℝ} (ha : a ≠ []) (hb : b ≠ []) {c : ℝ} (hc : c ≠ 0)
    (d : ℝ) (resamples : ℕ) (seed : UInt64) :
    permutationP (rescaled c d a) (rescaled c d b) resamples seed =
      (guardedCount (1 / 10 ^ 12 / |c|) resamples seed a b + 1) / (resamples + 1) := by
  rw [permutationP_exact (mt rescaled_eq_nil.1 ha) (mt rescaled_eq_nil.1 hb),
    farCount_rescaled ha hb hc]

/-- How much nearer a rearrangement brings the two parts of a pool than they were. -/
noncomputable def shortfall (a b t : List ℝ) : ℝ :=
  |Resampling.gap a.length (a ++ b)| - |Resampling.gap a.length t|

/-- The p-value does not depend on unit and origin exactly when no shuffle brings the parts
nearer by more than the smaller and no more than the larger of the guard and the guard taken
in the new unit. -/
theorem permutationP_rescaled {a b : List ℝ} (ha : a ≠ []) (hb : b ≠ []) {c : ℝ} (hc : c ≠ 0)
    (d : ℝ) (resamples : ℕ) (seed : UInt64) :
    permutationP (rescaled c d a) (rescaled c d b) resamples seed =
        permutationP a b resamples seed ↔
      ∀ t ∈ resamplesOf resamples seed (a ++ b),
        ¬ (min (1 / 10 ^ 12 / |c|) (1 / 10 ^ 12) < shortfall a b t ∧
          shortfall a b t ≤ max (1 / 10 ^ 12 / |c|) (1 / 10 ^ 12)) := by
  have hpos : (resamples + 1 : ℝ) ≠ 0 := by positivity
  rw [permutationP_guarded ha hb hc, permutationP_exact ha hb, div_left_inj' hpos, add_left_inj,
    Nat.cast_inj]
  exact Resampling.countP_guard_iff _ _ _ _ _

theorem mixed_shuffle (x y : ℝ) : resamplesOf 1 0 ([x, x] ++ [y, y]) = [[y, x, x, y]] := by
  have hdraw : resamplesOf 1 0 [false, false, true, true] = [[true, false, false, true]] := by
    decide
  have hmap := Resampling.trials_map fisherYates (fun second => if second then y else x) 1
    (.new 0) [false, false, true, true]
  rw [← resamplesOf, ← resamplesOf, hdraw] at hmap
  simpa using hmap

theorem mixed_shortfall : shortfall [0, 0] [1, 1] [1, 0, 0, 1] = 1 := by
  norm_num [shortfall, Resampling.gap, Spread.mean]

theorem permutationP_doubled :
    permutationP (rescaled 2 0 [0, 0]) (rescaled 2 0 [1, 1]) 1 0 =
      permutationP ([0, 0] : List ℝ) [1, 1] 1 0 := by
  apply (permutationP_rescaled (by simp) (by simp) two_ne_zero 0 1 0).2
  intro t ht
  rw [mixed_shuffle, List.mem_singleton] at ht
  rw [ht, mixed_shortfall]
  norm_num

/-- In a unit ten million million times as large the guard covers every difference. -/
theorem permutationP_unit_dependent :
    ¬ ∀ (a b : List ℝ) (c d : ℝ) (resamples : ℕ) (seed : UInt64), a ≠ [] → b ≠ [] → c ≠ 0 →
      permutationP (rescaled c d a) (rescaled c d b) resamples seed =
        permutationP a b resamples seed := by
  have hne {x : ℝ} : [x, x] ≠ [] := by simp
  have hcount {guard : ℝ} : guardedCount guard 1 0 [0, 0] [1, 1] = if 1 ≤ guard then 1 else 0 := by
    unfold guardedCount
    rw [mixed_shuffle]
    norm_num [Resampling.gap, Spread.mean]
  intro h
  have h := h [0, 0] [1, 1] (1 / 10 ^ 13) 0 1 0 hne hne (by positivity)
  rw [permutationP_guarded hne hne (by positivity), permutationP_exact hne hne] at h
  change _ = ((guardedCount (1 / 10 ^ 12) 1 0 [0, 0] [1, 1] : ℝ) + 1) / _ at h
  rw [hcount, hcount] at h
  norm_num at h

end Units

end Assayist
