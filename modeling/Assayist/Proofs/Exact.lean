import Assayist.Lib.Resampling
import Assayist.Spec.Stats

/-! The gate's statistics in exact arithmetic: the mean and the noise estimate of a group,
and the permutation test as a count over the shuffles of its generator. -/

namespace Assayist

section Shuffle

variable {α β : Type}

theorem swap_perm (pool : List α) (i j : ℕ) : (swap pool i j).Perm pool := by
  unfold swap
  cases hi : pool[i]? with
  | none => exact .refl _
  | some x =>
    cases hj : pool[j]? with
    | none => exact .refl _
    | some y =>
      obtain ⟨hi', rfl⟩ := List.getElem?_eq_some_iff.1 hi
      obtain ⟨hj', rfl⟩ := List.getElem?_eq_some_iff.1 hj
      exact List.set_set_perm hi' hj'

theorem swap_map (f : α → β) (pool : List α) (i j : ℕ) :
    swap (pool.map f) i j = (swap pool i j).map f := by
  unfold swap
  rw [List.getElem?_map, List.getElem?_map]
  cases pool[i]? with
  | none => rfl
  | some x =>
    cases pool[j]? with
    | none => rfl
    | some y => simp [List.map_set]

theorem shuffleFrom_succ (i : ℕ) (rng : SplitMix64) (pool : List α) :
    shuffleFrom (i + 1) rng pool =
      shuffleFrom i (rng.below (i + 2)).2 (swap pool (i + 1) (rng.below (i + 2)).1) := rfl

theorem shuffleFrom_perm (i : ℕ) (rng : SplitMix64) (pool : List α) :
    (shuffleFrom i rng pool).2.Perm pool := by
  induction i generalizing rng pool with
  | zero => exact .refl _
  | succ i ih => exact (ih _ _).trans (swap_perm _ _ _)

theorem shuffleFrom_map (f : α → β) (i : ℕ) (rng : SplitMix64) (pool : List α) :
    shuffleFrom i rng (pool.map f) =
      ((shuffleFrom i rng pool).1, (shuffleFrom i rng pool).2.map f) := by
  induction i generalizing rng pool with
  | zero => rfl
  | succ i ih =>
    rw [shuffleFrom_succ, shuffleFrom_succ, swap_map]
    exact ih _ _

def fisherYates : Resampling.Shuffler SplitMix64 where
  draw := shuffle
  perm s xs := shuffleFrom_perm _ s xs
  map f s xs := by
    rw [shuffle, List.length_map]
    exact shuffleFrom_map f _ s xs

def resamplesOf (resamples : ℕ) (seed : UInt64) (pool : List α) : List (List α) :=
  Resampling.trials fisherYates resamples (.new seed) pool

/-- Whether the parts of a pool lie as far apart as observed, up to the guard. -/
def isFar {F : Type} [F64 F] (observed : F) (na : ℕ) (pool : List F) : Bool :=
  observed ≤ F64.abs (mean (pool.drop na) - mean (pool.take na)) + eps

theorem resampleCount_succ {F : Type} [F64 F] (observed : F) (na k : ℕ) (rng : SplitMix64)
    (pool : List F) (count : ℕ) :
    resampleCount observed na (k + 1) rng pool count =
      resampleCount observed na k (shuffle rng pool).1 (shuffle rng pool).2
        (if isFar observed na (shuffle rng pool).2 then count + 1 else count) := by
  simp only [isFar, decide_eq_true_eq]
  rfl

theorem resampleCount_eq {F : Type} [F64 F] (observed : F) (na k : ℕ) (rng : SplitMix64)
    (pool : List F) (count : ℕ) :
    resampleCount observed na k rng pool count = count +
      (Resampling.trials fisherYates k rng pool).countP (isFar observed na) := by
  induction k generalizing rng pool count with
  | zero => rfl
  | succ k ih =>
    rw [resampleCount_succ, ih, Resampling.trials, List.countP_cons]
    change _ = count + (_ + if isFar observed na (shuffle rng pool).2 = true then 1 else 0)
    split_ifs
    · exact Nat.add_right_comm count 1 _
    · rfl

section Far

variable {F : Type} [F64 F]

def farPools (a b : List F) (resamples : ℕ) (seed : UInt64) : ℕ :=
  (resamplesOf resamples seed (a ++ b)).countP
    (isFar (F64.abs (mean b - mean a)) a.length)

theorem permutationP_eq {a b : List F} (ha : a ≠ []) (hb : b ≠ []) (resamples : ℕ)
    (seed : UInt64) :
    permutationP a b resamples seed =
      ((farPools a b resamples seed : F) + 1) / ((resamples : F) + 1) := by
  unfold permutationP
  rw [if_neg (by simp [ha, hb])]
  simp only [resampleCount_eq, Nat.zero_add, farPools, resamplesOf]

end Far

end Shuffle

/-- Number text that is right for whole numbers. -/
@[reducible] noncomputable def wholeText : FloatText ℝ where
  display x := toString ⌊x⌋
  parse s := s.toInt?.map fun n => (n : ℝ)
  ryu x := toString ⌊x⌋ ++ ".0"

section Moments

theorem sum_exact (xs : List ℝ) : sum xs = xs.sum := by
  rw [List.sum_eq_foldl]
  rfl

theorem mean_exact (xs : List ℝ) : mean xs = Spread.mean xs := by
  unfold mean
  rw [sum_exact]
  cases xs with
  | nil => simp [Spread.mean]
  | cons x xs => rfl

theorem variance_exact {xs : List ℝ} (h : 2 ≤ xs.length) :
    variance xs = Spread.spread xs / (xs.length - 1) := by
  unfold variance
  rw [if_neg (by omega)]
  simp only [sum_exact, mean_exact, Spread.spread, Spread.squares, sq]

theorem cov_exact (xs : List ℝ) : cov xs = if mean xs = 0 then 0 else √(variance xs) / |mean xs| := by
  unfold cov
  by_cases h : mean xs = 0
  · simp [h]
  · simp only [beq_iff_eq, h, if_false]
    rfl

theorem cov_nonneg (xs : List ℝ) : 0 ≤ cov xs := by
  rw [cov_exact]
  split_ifs
  · exact le_rfl
  · positivity

/-- A group is within the noise threshold when its squared deviations are within the
threshold's share of its mean, or its mean is zero. -/
theorem cov_le_iff {xs : List ℝ} (h : 2 ≤ xs.length) {noise : ℝ} (hnoise : 0 ≤ noise) :
    cov xs ≤ noise ↔ Spread.mean xs = 0 ∨
      Spread.spread xs ≤ (xs.length - 1) * (noise * Spread.mean xs) ^ 2 := by
  rw [cov_exact, mean_exact, variance_exact h]
  by_cases hm : Spread.mean xs = 0
  · simp [hm, hnoise]
  · have hpos : 0 < |Spread.mean xs| := abs_pos.2 hm
    have hn : (0 : ℝ) < xs.length - 1 := by
      have : (2 : ℝ) ≤ xs.length := by exact_mod_cast h
      linarith
    rw [if_neg hm, div_le_iff₀ hpos, Real.sqrt_le_left (by positivity), div_le_iff₀ hn, mul_pow,
      sq_abs, or_iff_right hm, mul_pow, mul_comm]

theorem withinCov_exact (a b : List ℝ) {noise : ℝ} :
    withinCov a b ≤ noise ↔ cov a ≤ noise ∧ cov b ≤ noise := max_le_iff

theorem eps_exact : (eps : ℝ) = 1 / 10 ^ 12 := by
  unfold eps
  rw [Nat.cast_pow]
  rfl

theorem isFar_exact (observed : ℝ) (na : ℕ) :
    isFar observed na = fun t => decide (observed ≤ |Resampling.gap na t| + 1 / 10 ^ 12) := by
  funext t
  unfold isFar
  rw [eps_exact, mean_exact, mean_exact]
  rfl

/-- How many of a seed's shuffles part the pool of two groups as far as the groups lie
apart. -/
noncomputable def farCount (resamples : ℕ) (seed : UInt64) (a b : List ℝ) : ℕ :=
  (resamplesOf resamples seed (a ++ b)).countP fun t =>
    |Resampling.gap a.length (a ++ b)| ≤ |Resampling.gap a.length t| + 1 / 10 ^ 12

theorem permutationP_exact {a b : List ℝ} (ha : a ≠ []) (hb : b ≠ []) (resamples : ℕ)
    (seed : UInt64) :
    permutationP a b resamples seed = (farCount resamples seed a b + 1) / (resamples + 1) := by
  rw [permutationP_eq ha hb]
  simp only [farPools, farCount, isFar_exact, mean_exact, abs_exact, Resampling.gap_append]

end Moments

end Assayist
