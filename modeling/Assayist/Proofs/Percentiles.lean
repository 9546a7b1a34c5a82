import Assayist.Proofs.Log2

/-! When the estimates from a log2 histogram are those of its buckets. The code shifts by the
index of a bucket, which is the power of that index only below 64. -/

namespace Assayist

open Histograms

section Midpoint

/-- The middle of bucket `i`, which covers `[2^i, 2^(i+1))`. -/
noncomputable def middle (i : ℕ) : ℝ := 3 / 2 * 2 ^ i

theorem middle_strictMono : StrictMono middle := by
  intro i j hij
  have hpow : (2 : ℝ) ^ i < 2 ^ j := pow_lt_pow_right₀ (by norm_num) hij
  rw [middle, middle]
  linarith

theorem midpoint_eq_middle {i : ℕ} : midpoint i = middle i ↔ i < 64 := by
  have hmod : midpoint i = middle (i % 64) := rfl
  rw [hmod, middle_strictMono.injective.eq_iff]
  omega

end Midpoint

section Estimates

variable [Build]

/-- The estimates from a log2 histogram are those of its buckets: a percentile is the middle of
the bucket at its rank, the percentiles are in order, and the mean lies between the middles of
the first and the last bucket that hold a sample. -/
structure Log2Sound (buckets : List UInt64) : Prop where
  percentile : ∀ q : ℝ, 0 < q → q ≤ 1 → ∃ i,
    IsLeast {i | q * (countsOf buckets).sum ≤ upTo (countsOf buckets) i} i ∧
      log2Percentile buckets q = .ok (middle i)
  ordered : ∃ p50 p99 : ℝ, log2Percentile buckets (1 / 2) = .ok p50 ∧
    log2Percentile buckets (99 / 100) = .ok p99 ∧ p50 ≤ p99
  mean : ∃ m : ℝ, log2Mean buckets = .ok m ∧
    (∀ i, IsLeast {k | (countsOf buckets).getD k 0 ≠ 0} i → middle i ≤ m) ∧
    ∀ i, IsGreatest {k | (countsOf buckets).getD k 0 ≠ 0} i → m ≤ middle i

/-- Every bucket that holds a sample has an index below 64, and so has every bucket at all where
the build checks for overflow. -/
structure Shiftable (buckets : List UInt64) : Prop where
  occupied : ∀ k, (countsOf buckets).getD k 0 ≠ 0 → k < 64
  checked : Build.overflowChecks = true → buckets.length ≤ 64

theorem forall_shiftable_iff {n : ℕ} :
    (∀ k < n, shiftable k) ↔ (Build.overflowChecks = true → n ≤ 64) := by
  apply Iff.intro
  · intro h hchecks
    by_contra hlen
    have hlast := h 64 (by omega) hchecks
    omega
  · intro h k hk hchecks
    have hlen := h hchecks
    omega

variable {buckets : List UInt64} {q : ℝ}

theorem percentile_middle (h : Shiftable buckets) (hsum : (countsOf buckets).sum < 2 ^ 64)
    (hocc : (countsOf buckets).sum ≠ 0) (hq : 0 < q) (hq1 : q ≤ 1) :
    ∃ i, IsLeast {i | q * (countsOf buckets).sum ≤ upTo (countsOf buckets) i} i ∧
      log2Percentile buckets q = .ok (middle i) := by
  obtain ⟨i, hi⟩ := exists_rank hq hq1 hocc
  have hfull := rank_occupied hq hocc hi
  have hlen : i < buckets.length := by
    have hlt := lt_length_of_getD hfull
    rwa [countsOf, List.length_map] at hlt
  refine ⟨i, rankFrom_isLeast hi, (log2Percentile_eq_ok hq hq1 hsum hocc).2 ?_⟩
  exact ⟨i, hi, forall_shiftable_iff.2 h.checked i hlen,
    (midpoint_eq_middle.2 (h.occupied i hfull)).symm⟩

omit [Build] in
theorem isLeast_mono {counts : List ℕ} {p : ℝ} (hpq : p ≤ q) {i j : ℕ}
    (hi : IsLeast {i | p * counts.sum ≤ upTo counts i} i)
    (hj : IsLeast {i | q * counts.sum ≤ upTo counts i} j) : i ≤ j := by
  apply hi.2
  have hnonneg : (0 : ℝ) ≤ counts.sum := Nat.cast_nonneg _
  exact (mul_le_mul_of_nonneg_right hpq hnonneg).trans hj.1

theorem mean_between (h : Shiftable buckets) (hsum : (countsOf buckets).sum < 2 ^ 64)
    (hocc : (countsOf buckets).sum ≠ 0) :
    ∃ m : ℝ, log2Mean buckets = .ok m ∧
      (∀ i, IsLeast {k | (countsOf buckets).getD k 0 ≠ 0} i → middle i ≤ m) ∧
      ∀ i, IsGreatest {k | (countsOf buckets).getD k 0 ≠ 0} i → m ≤ middle i := by
  have hpos : (0 : ℝ) < (countsOf buckets).sum := by exact_mod_cast Nat.pos_of_ne_zero hocc
  have hmiddle {k : ℕ} (hk : (countsOf buckets).getD k 0 ≠ 0) : midpoint (0 + k) = middle k := by
    rw [Nat.zero_add]
    exact midpoint_eq_middle.2 (h.occupied k hk)
  refine ⟨_, (log2Mean_eq_ok hsum hocc).2 ⟨forall_shiftable_iff.2 h.checked, rfl⟩, ?_, ?_⟩
  · intro i hi
    rw [le_div_iff₀ hpos, mul_comm]
    apply le_weighted
    intro k hk
    rw [hmiddle hk]
    exact middle_strictMono.monotone (hi.2 hk)
  · intro i hi
    rw [div_le_iff₀ hpos, mul_comm]
    apply weighted_le
    intro k hk
    rw [hmiddle hk]
    exact middle_strictMono.monotone (hi.2 hk)

theorem shiftable_of_sound (hsum : (countsOf buckets).sum < 2 ^ 64)
    (hocc : (countsOf buckets).sum ≠ 0) (h : Log2Sound buckets) : Shiftable buckets := by
  obtain ⟨m, hm, -⟩ := h.mean
  obtain ⟨hscan, -⟩ := (log2Mean_eq_ok hsum hocc).1 hm
  refine ⟨?_, forall_shiftable_iff.1 hscan⟩
  -- the highest quantile takes its value from the last occupied bucket
  obtain ⟨last, hall, hlast⟩ := exists_last hocc
  obtain ⟨i, hi, hvalue⟩ := h.percentile 1 one_pos le_rfl
  obtain ⟨r, hr, -, hmid⟩ := (log2Percentile_eq_ok one_pos le_rfl hsum hocc).1 hvalue
  have hrank : IsLeast {i | (1 : ℝ) * (countsOf buckets).sum ≤ upTo (countsOf buckets) i} r :=
    rankFrom_isLeast hr
  simp only [one_mul, Nat.cast_le] at hi hrank
  obtain rfl : i = last := hi.unique hall
  obtain rfl : r = i := hrank.unique hall
  have hbound : r < 64 := midpoint_eq_middle.1 hmid.symm
  intro k hk
  exact (hlast.2 hk).trans_lt hbound

/-- The estimates are those of the buckets exactly when no occupied bucket has an index of 64 or
above, and no bucket has one where the build checks the shift. -/
theorem log2Sound_iff (buckets : List UInt64) (hsum : (countsOf buckets).sum < 2 ^ 64)
    (hocc : (countsOf buckets).sum ≠ 0) : Log2Sound buckets ↔ Shiftable buckets := by
  apply Iff.intro
  · exact shiftable_of_sound hsum hocc
  · intro h
    refine ⟨fun q hq hq1 => percentile_middle h hsum hocc hq hq1, ?_, mean_between h hsum hocc⟩
    obtain ⟨i, hi, h50⟩ := percentile_middle (q := 1 / 2) h hsum hocc (by norm_num) (by norm_num)
    obtain ⟨j, hj, h99⟩ := percentile_middle (q := 99 / 100) h hsum hocc (by norm_num)
      (by norm_num)
    refine ⟨middle i, middle j, h50, h99, ?_⟩
    exact middle_strictMono.monotone (isLeast_mono (by norm_num) hi hj)

end Estimates

section Wide

attribute [local instance] releaseBuild

theorem three_buckets_sound : Log2Sound [1, 0, 3] ↔ Shiftable [1, 0, 3] :=
  log2Sound_iff [1, 0, 3] (by decide) (by decide)

/-- One sample above 64 empty buckets is given the value of the first bucket. -/
theorem wide_unsound : ¬ Log2Sound (List.replicate 64 0 ++ [1]) := by
  intro h
  have hbound := (shiftable_of_sound (by decide) (by decide) h).occupied 64 (by decide)
  exact absurd hbound (by decide)

end Wide

end Assayist
