import Assayist.Proofs.Exact

/-! The pools the permutation test looks at: each is the groups' pool rearranged by swaps that
the seed alone decides, and the p-value counts those that lie as far apart as the groups. -/

namespace Assayist

section Swaps

variable {α : Type}

/-- The index pairs the Fisher-Yates loop swaps from index `i` down to 1, and the generator that
the loop leaves. -/
def swapsFrom : ℕ → SplitMix64 → SplitMix64 × List (ℕ × ℕ)
  | 0, rng => (rng, [])
  | i + 1, rng =>
    let (j, rng) := rng.below (i + 2)
    let (rng, swaps) := swapsFrom i rng
    (rng, (i + 1, j) :: swaps)

def swapsOf (n : ℕ) (rng : SplitMix64) : SplitMix64 × List (ℕ × ℕ) := swapsFrom (n - 1) rng

def swapAll (pool : List α) (swaps : List (ℕ × ℕ)) : List α :=
  swaps.foldl (fun pool ij => swap pool ij.1 ij.2) pool

theorem swapAll_cons (pool : List α) (ij : ℕ × ℕ) (swaps : List (ℕ × ℕ)) :
    swapAll pool (ij :: swaps) = swapAll (swap pool ij.1 ij.2) swaps := rfl

theorem swapsFrom_succ (i : ℕ) (rng : SplitMix64) :
    swapsFrom (i + 1) rng =
      ((swapsFrom i (rng.below (i + 2)).2).1,
        (i + 1, (rng.below (i + 2)).1) :: (swapsFrom i (rng.below (i + 2)).2).2) := rfl

theorem shuffleFrom_eq (i : ℕ) (rng : SplitMix64) (pool : List α) :
    shuffleFrom i rng pool = ((swapsFrom i rng).1, swapAll pool (swapsFrom i rng).2) := by
  induction i generalizing rng pool with
  | zero => rfl
  | succ i ih => rw [shuffleFrom_succ, swapsFrom_succ, ih, swapAll_cons]

theorem below_lt (rng : SplitMix64) {n : ℕ} (hn : 0 < n) : (rng.below n).1 < n :=
  Nat.mod_lt _ hn

theorem swapsFrom_le {i : ℕ} {rng : SplitMix64} {ij : ℕ × ℕ} (h : ij ∈ (swapsFrom i rng).2) :
    ij.2 ≤ ij.1 ∧ ij.1 ≤ i := by
  induction i generalizing rng with
  | zero => exact absurd h List.not_mem_nil
  | succ i ih =>
    rw [swapsFrom_succ] at h
    rcases List.mem_cons.1 h with rfl | h
    · have hlt := below_lt rng (n := i + 2) (by omega)
      exact ⟨Nat.le_of_lt_succ hlt, le_rfl⟩
    · obtain ⟨hle, hi⟩ := ih h
      exact ⟨hle, by omega⟩

theorem swapsOf_lt {n : ℕ} {rng : SplitMix64} {ij : ℕ × ℕ} (h : ij ∈ (swapsOf n rng).2) :
    ij.1 < n ∧ ij.2 < n := by
  cases n with
  | zero => exact absurd h List.not_mem_nil
  | succ n =>
    obtain ⟨hle, hi⟩ := swapsFrom_le h
    rw [Nat.add_sub_cancel] at hi
    exact ⟨by omega, by omega⟩

end Swaps

section Iterations

variable {α : Type}

def iterations (n : ℕ) : ℕ → SplitMix64 → List (List (ℕ × ℕ))
  | 0, _ => []
  | k + 1, rng => (swapsOf n rng).2 :: iterations n k (swapsOf n rng).1

def poolsFrom : List α → List (List (ℕ × ℕ)) → List (List α)
  | _, [] => []
  | pool, swaps :: rest => swapAll pool swaps :: poolsFrom (swapAll pool swaps) rest

theorem length_swapAll (pool : List α) (swaps : List (ℕ × ℕ)) :
    (swapAll pool swaps).length = pool.length := by
  induction swaps generalizing pool with
  | nil => rfl
  | cons ij swaps ih =>
    rw [swapAll_cons, ih]
    exact (swap_perm pool ij.1 ij.2).length_eq

theorem fisherYates_draw (rng : SplitMix64) (pool : List α) :
    fisherYates.draw rng pool =
      ((swapsOf pool.length rng).1, swapAll pool (swapsOf pool.length rng).2) :=
  shuffleFrom_eq _ rng pool

/-- The pools of a run are made by swaps that the number of entries and the generator decide. -/
theorem trials_eq (k : ℕ) (rng : SplitMix64) (pool : List α) :
    Resampling.trials fisherYates k rng pool = poolsFrom pool (iterations pool.length k rng) := by
  induction k generalizing rng pool with
  | zero => rfl
  | succ k ih => rw [Resampling.trials, fisherYates_draw, ih, length_swapAll, iterations, poolsFrom]

theorem iterations_lt {n k : ℕ} {rng : SplitMix64} {swaps : List (ℕ × ℕ)}
    (h : swaps ∈ iterations n k rng) : ∀ ij ∈ swaps, ij.1 < n ∧ ij.2 < n := by
  induction k generalizing rng with
  | zero => exact absurd h List.not_mem_nil
  | succ k ih =>
    rw [iterations] at h
    rcases List.mem_cons.1 h with rfl | h
    · exact fun ij hij => swapsOf_lt hij
    · exact ih h

end Iterations

section Counts

/-- What rounding to nearest keeps of the order: of counts that fit a machine word, of adding 1
and of dividing by a positive number. -/
structure Rounded (F : Type) [F64 F] : Prop where
  cast_le : ∀ {k n : ℕ}, k ≤ n → (k : F) ≤ (n : F)
  add_one_le : ∀ {x y : F}, x ≤ y → x + 1 ≤ y + 1
  zero_add_one : ((0 : ℕ) : F) + 1 = 1
  finite_pos : ∀ {n : ℕ}, n < 2 ^ 64 → F64.isFinite ((n : F) + 1) = true ∧ 0 < (n : F) + 1
  div_le : ∀ {x y z : F}, F64.isFinite z = true → 0 < z → x ≤ y → x / z ≤ y / z
  div_self : ∀ {z : F}, F64.isFinite z = true → 0 < z → z / z = 1

theorem rounded_exact : Rounded ℝ where
  cast_le h := by exact_mod_cast h
  add_one_le h := by simpa using h
  zero_add_one := by simp
  finite_pos _ := ⟨rfl, by positivity⟩
  div_le _ hz h := div_le_div_of_nonneg_right h hz.le
  div_self _ hz := div_self hz.ne'

variable {F : Type} [F64 F]

/-- The share of a count in as many or more, each one up, lies between its least value and 1. -/
theorem Rounded.share_mem (hF : Rounded F) {k n : ℕ} (hk : k ≤ n) (hn : n < 2 ^ 64) :
    1 / ((n : F) + 1) ≤ ((k : F) + 1) / ((n : F) + 1) ∧
      ((k : F) + 1) / ((n : F) + 1) ≤ 1 := by
  obtain ⟨hfinite, hpos⟩ := hF.finite_pos hn
  apply And.intro
  · have hone := hF.add_one_le (hF.cast_le (Nat.zero_le k))
    rw [hF.zero_add_one] at hone
    exact hF.div_le hfinite hpos hone
  · have hle := hF.div_le hfinite hpos (hF.add_one_le (hF.cast_le hk))
    rwa [hF.div_self hfinite hpos] at hle

theorem farPools_le (a b : List F) (resamples : ℕ) (seed : UInt64) :
    farPools a b resamples seed ≤ resamples := by
  have hle : farPools a b resamples seed ≤ (resamplesOf resamples seed (a ++ b)).length :=
    List.countP_le_length
  rwa [resamplesOf, Resampling.length_trials] at hle

/-- Every iteration looks at a rearrangement of the groups' pool, cut where the first group
ends; which one, the sizes and the seed decide; and the p-value is the share of the iterations
that lie as far apart as the groups. -/
theorem permutation_pools (a b : List F) (resamples : ℕ) (seed : UInt64) :
    ((resamplesOf resamples seed (a ++ b)).length = resamples ∧
      ∀ t ∈ resamplesOf resamples seed (a ++ b), t.Perm (a ++ b) ∧
        (t.take a.length).length = a.length ∧ (t.drop a.length).length = b.length) ∧
    (resamplesOf resamples seed (a ++ b) =
        poolsFrom (a ++ b) (iterations (a.length + b.length) resamples (.new seed)) ∧
      ∀ swaps ∈ iterations (a.length + b.length) resamples (.new seed), ∀ ij ∈ swaps,
        ij.1 < a.length + b.length ∧ ij.2 < a.length + b.length) ∧
    (a ≠ [] → b ≠ [] →
      permutationP a b resamples seed =
          ((farPools a b resamples seed : F) + 1) / ((resamples : F) + 1) ∧
        farPools a b resamples seed ≤ resamples ∧
        (Rounded F → resamples < 2 ^ 64 →
          1 / ((resamples : F) + 1) ≤ permutationP a b resamples seed ∧
            permutationP a b resamples seed ≤ 1)) := by
  refine ⟨⟨Resampling.length_trials _ _ _ _, fun t ht => ?_⟩, ⟨?_, fun swaps h => ?_⟩,
    fun ha hb => ⟨permutationP_eq ha hb resamples seed, farPools_le a b resamples seed, ?_⟩⟩
  · have hperm := Resampling.perm_of_mem_trials fisherYates ht
    have hlen : t.length = a.length + b.length := by
      rw [hperm.length_eq, List.length_append]
    refine ⟨hperm, ?_, ?_⟩
    · rw [List.length_take, hlen]
      omega
    · rw [List.length_drop, hlen]
      omega
  · have htrials := trials_eq resamples (.new seed) (a ++ b)
    rwa [List.length_append] at htrials
  · exact iterations_lt h
  · intro hF hword
    rw [permutationP_eq ha hb]
    exact hF.share_mem (farPools_le a b resamples seed) hword

theorem permutation_pools_groups :
    1 / ((5 : ℕ) + 1 : ℝ) ≤ permutationP [1, 2] [4, 6, 9] 5 7 ∧
      permutationP ([1, 2] : List ℝ) [4, 6, 9] 5 7 ≤ 1 := by
  have hpools := permutation_pools ([1, 2] : List ℝ) [4, 6, 9] 5 7
  exact (hpools.2.2 (by simp) (by simp)).2.2 rounded_exact (by decide)

end Counts

end Assayist
