import Assayist.Proofs.Panics
import Assayist.Proofs.Percentiles
import Mathlib.Data.UInt

/-! The estimates from an explicit histogram, bucket by bucket: the percentile lies in the
bucket at its rank and the mean between the outer estimates, as long as the counts add up in a
`u64`. -/

namespace Assayist

open Histograms

section Edges

variable {bounds : List ℝ} {i j : ℕ}

def lowEdge (bounds : List ℝ) (i : ℕ) : ℝ := if i = 0 then 0 else bounds[i - 1]?.getD 0

/-- The upper edge of bucket `i`; the overflow bucket ends at twice its lower edge. -/
noncomputable def highEdge (bounds : List ℝ) (i : ℕ) : ℝ :=
  bounds[i]?.getD (lowEdge bounds i * 2)

noncomputable def estimate (bounds : List ℝ) (i : ℕ) : ℝ :=
  (lowEdge bounds i + highEdge bounds i) / 2

structure ProperBounds (bounds : List ℝ) : Prop where
  positive : ∀ x ∈ bounds, 0 < x
  increasing : bounds.Pairwise (· < ·)

theorem lowEdge_succ (hi : i < bounds.length) : lowEdge bounds (i + 1) = bounds[i] := by
  rw [lowEdge, if_neg (Nat.succ_ne_zero i), Nat.add_sub_cancel, List.getElem?_eq_getElem hi,
    Option.getD_some]

theorem highEdge_bound (hi : i < bounds.length) : highEdge bounds i = bounds[i] := by
  rw [highEdge, List.getElem?_eq_getElem hi, Option.getD_some]

theorem highEdge_overflow (hi : bounds.length ≤ i) : highEdge bounds i = lowEdge bounds i * 2 := by
  rw [highEdge, List.getElem?_eq_none hi, Option.getD_none]

theorem explicitEdges_eq (hi : i ≤ bounds.length) :
    explicitEdges bounds i = .ok (lowEdge bounds i, highEdge bounds i) := by
  unfold explicitEdges highEdge
  cases i with
  | zero =>
    cases bounds[0]? with
    | none => rfl
    | some x => rfl
  | succ i =>
    have hbound : boundAt bounds i = .ok bounds[i] := by
      rw [boundAt, List.getElem?_eq_getElem hi]
    rw [if_neg (Nat.succ_ne_zero i), Nat.add_sub_cancel, hbound, lowEdge_succ hi]
    cases bounds[i + 1]? with
    | none => rfl
    | some x => rfl

theorem ProperBounds.lowEdge_nonneg (h : ProperBounds bounds) (i : ℕ) : 0 ≤ lowEdge bounds i := by
  cases i with
  | zero => exact le_rfl
  | succ i =>
    rw [lowEdge, if_neg (Nat.succ_ne_zero i), Nat.add_sub_cancel]
    rcases Nat.lt_or_ge i bounds.length with hi | hi
    · rw [List.getElem?_eq_getElem hi]
      exact (h.positive _ (List.getElem_mem hi)).le
    · rw [List.getElem?_eq_none hi]
      exact le_rfl

theorem ProperBounds.lowEdge_pos (h : ProperBounds bounds) (hi : i < bounds.length) :
    0 < lowEdge bounds (i + 1) := by
  rw [lowEdge_succ hi]
  exact h.positive _ (List.getElem_mem hi)

theorem ProperBounds.lowEdge_lt (h : ProperBounds bounds) (hi : i < bounds.length) :
    lowEdge bounds i < highEdge bounds i := by
  rw [highEdge_bound hi]
  cases i with
  | zero => exact h.positive _ (List.getElem_mem hi)
  | succ i =>
    rw [lowEdge_succ (by omega)]
    exact List.pairwise_iff_getElem.1 h.increasing i (i + 1) (by omega) hi (Nat.lt_succ_self i)

theorem ProperBounds.lowEdge_le (h : ProperBounds bounds) (i : ℕ) :
    lowEdge bounds i ≤ highEdge bounds i := by
  rcases Nat.lt_or_ge i bounds.length with hi | hi
  · exact (h.lowEdge_lt hi).le
  · have hnonneg := h.lowEdge_nonneg i
    rw [highEdge_overflow hi]
    linarith

/-- A bucket ends before a later one begins. -/
theorem ProperBounds.highEdge_le (h : ProperBounds bounds) (hij : i < j) (hj : j ≤ bounds.length) :
    highEdge bounds i ≤ lowEdge bounds j := by
  obtain ⟨k, rfl⟩ : ∃ k, j = k + 1 := ⟨j - 1, by omega⟩
  rw [highEdge_bound (by omega), lowEdge_succ hj]
  rcases Nat.eq_or_lt_of_le (Nat.le_of_lt_succ hij) with rfl | hlt
  · exact le_rfl
  · exact (List.pairwise_iff_getElem.1 h.increasing i k (by omega) hj hlt).le

theorem ProperBounds.within (h : ProperBounds bounds) (i : ℕ) :
    lowEdge bounds i ≤ estimate bounds i ∧ estimate bounds i ≤ highEdge bounds i := by
  have hle := h.lowEdge_le i
  rw [estimate]
  exact ⟨by linarith, by linarith⟩

theorem ProperBounds.estimate_lt (h : ProperBounds bounds) (hij : i < j) (hj : j ≤ bounds.length) :
    estimate bounds i < lowEdge bounds j := by
  have hlt := h.lowEdge_lt (show i < bounds.length by omega)
  have hle := h.highEdge_le hij hj
  rw [estimate]
  linarith

theorem ProperBounds.estimate_mono (h : ProperBounds bounds) (hij : i ≤ j) (hj : j ≤ bounds.length) :
    estimate bounds i ≤ estimate bounds j := by
  rcases Nat.eq_or_lt_of_le hij with rfl | hlt
  · exact le_rfl
  · exact (h.estimate_lt hlt hj).le.trans (h.within j).1

end Edges

section Scan

variable [Build] {bounds : List ℝ} {buckets : List UInt64} {q : ℝ}

/-- The scan stops at the rank, as long as the counts up to there add up in a `u64`; what
follows is not read. -/
theorem explicitScan_append {target : ℝ} {i r : ℕ} {cum : UInt64} {front : List UInt64}
    (rest : List UInt64) (hsum : cum.toNat + (countsOf front).sum < 2 ^ 64)
    (hr : rankFrom (fun n => target ≤ n) i cum.toNat (countsOf front) = some r)
    (hlen : r ≤ bounds.length) :
    explicitScan bounds target i cum (front ++ rest) = .ok (some (estimate bounds r)) := by
  induction front generalizing i cum with
  | nil => cases hr
  | cons b front ih =>
    have hcons : (countsOf (b :: front)).sum = b.toNat + (countsOf front).sum := rfl
    rw [hcons] at hsum
    have hb : cum.toNat + b.toNat < 2 ^ 64 := by omega
    have hadd := toNat_add_of_lt hb
    have hrank : (if target ≤ ((cum.toNat + b.toNat : ℕ) : ℝ) then some i
        else rankFrom (fun n : ℕ => target ≤ n) (i + 1) (cum.toNat + b.toNat) (countsOf front)) =
          some r := hr
    have hscan : explicitScan bounds target i cum (b :: (front ++ rest)) =
        if target ≤ (((cum + b).toNat : ℕ) : ℝ) then
          explicitEdges bounds i >>= fun e => pure (some ((e.1 + e.2) / 2))
        else explicitScan bounds target (i + 1) (cum + b) (front ++ rest) := by
      rw [explicitScan, addU64_eq hb]
      rfl
    rw [List.cons_append, hscan, hadd]
    by_cases hreach : target ≤ ((cum.toNat + b.toNat : ℕ) : ℝ)
    · rw [if_pos hreach, Option.some.injEq] at hrank
      subst hrank
      rw [if_pos hreach, explicitEdges_eq hlen]
      rfl
    · rw [if_neg hreach, ← hadd] at hrank
      rw [if_neg hreach]
      exact ih (by omega) hrank

theorem explicitPercentile_append {total : UInt64} {r : ℕ} {front rest : List UInt64}
    (htotal : sumU64 (front ++ rest) = .ok total) (hne : total ≠ 0)
    (hsum : (countsOf front).sum < 2 ^ 64)
    (hr : rankFrom (fun n => q * total.toNat ≤ n) 0 0 (countsOf front) = some r)
    (hlen : r ≤ bounds.length) :
    explicitPercentile (front ++ rest) bounds q = .ok (estimate bounds r) := by
  have hzero : (0 : UInt64).toNat = 0 := rfl
  have hscan : explicitScan bounds (q * (total.toNat : ℝ)) 0 0 (front ++ rest) =
      .ok (some (estimate bounds r)) := explicitScan_append rest (by omega) hr hlen
  unfold explicitPercentile
  rw [htotal]
  change (if total = 0 then pure 0
    else explicitScan bounds (q * (total.toNat : ℝ)) 0 0 (front ++ rest) >>= _) = _
  rw [if_neg hne, hscan]
  rfl

omit [Build] in
theorem explicitWeighted_eq {i : ℕ} {acc : ℝ}
    (hlen : ∀ k < buckets.length, i + k ≤ bounds.length) :
    explicitWeighted bounds i acc buckets =
      .ok (acc + weighted (estimate bounds) i (countsOf buckets)) := by
  induction buckets generalizing i acc with
  | nil => exact congrArg Except.ok (add_zero acc).symm
  | cons b buckets ih =>
    rw [List.length_cons, forall_lt_succ (p := fun j => j ≤ bounds.length)] at hlen
    have hvalue : acc + b.toNat * (lowEdge bounds i + highEdge bounds i) / 2 +
        weighted (estimate bounds) (i + 1) (countsOf buckets) =
        acc + weighted (estimate bounds) i (countsOf (b :: buckets)) := by
      have hcons : weighted (estimate bounds) i (countsOf (b :: buckets)) =
          b.toNat * estimate bounds i + weighted (estimate bounds) (i + 1) (countsOf buckets) := rfl
      rw [hcons, estimate]
      ring
    rw [explicitWeighted, explicitEdges_eq hlen.1, ← hvalue]
    exact ih hlen.2

end Scan

section Estimates

/-- An explicit histogram: proper bounds, one more bucket than bounds, and a sample. -/
structure Explicit (buckets : List UInt64) (bounds : List ℝ) : Prop where
  proper : ProperBounds bounds
  overflow : buckets.length = bounds.length + 1
  occupied : (countsOf buckets).sum ≠ 0

variable [Build] {buckets : List UInt64} {bounds : List ℝ} {q : ℝ}

/-- The estimates from an explicit histogram are those of its buckets: a percentile lies in the
bucket of the sample at its rank, it does not fall as the quantile rises, and the mean lies
between the estimates of the first and the last bucket that hold a sample. -/
structure ExplicitSound (buckets : List UInt64) (bounds : List ℝ) : Prop where
  contained : ∀ q : ℝ, 0 < q → q ≤ 1 → ∃ i v,
    IsLeast {i | ⌈q * (countsOf buckets).sum⌉₊ ≤ upTo (countsOf buckets) i} i ∧
      explicitPercentile buckets bounds q = .ok v ∧ lowEdge bounds i ≤ v ∧ v ≤ highEdge bounds i
  monotone : ∀ p q : ℝ, 0 < p → p ≤ q → q ≤ 1 → ∀ v w,
    explicitPercentile buckets bounds p = .ok v → explicitPercentile buckets bounds q = .ok w → v ≤ w
  mean : ∃ m, explicitMean buckets bounds = .ok m ∧
    (∀ i, IsLeast {k | (countsOf buckets).getD k 0 ≠ 0} i → estimate bounds i ≤ m) ∧
    ∀ i, IsGreatest {k | (countsOf buckets).getD k 0 ≠ 0} i → m ≤ estimate bounds i

omit [Build] in
theorem Explicit.lt_of_occupied (h : Explicit buckets bounds) {k : ℕ}
    (hk : (countsOf buckets).getD k 0 ≠ 0) : k ≤ bounds.length := by
  have hlt := lt_length_of_getD hk
  rw [countsOf, List.length_map, h.overflow] at hlt
  omega

theorem Explicit.percentile (h : Explicit buckets bounds) (hsum : (countsOf buckets).sum < 2 ^ 64)
    (hq : 0 < q) (hq1 : q ≤ 1) :
    ∃ i ≤ bounds.length, IsLeast {i | q * (countsOf buckets).sum ≤ upTo (countsOf buckets) i} i ∧
      explicitPercentile buckets bounds q = .ok (estimate bounds i) := by
  obtain ⟨total, htotal, hnat⟩ := sumU64_eq hsum
  obtain ⟨i, hi⟩ := exists_rank hq hq1 h.occupied
  have hlen := h.lt_of_occupied (rank_occupied hq h.occupied hi)
  have hne : total ≠ 0 := fun hzero => h.occupied ((eq_zero_iff_of_toNat hnat).1 hzero)
  refine ⟨i, hlen, rankFrom_isLeast hi, ?_⟩
  rw [← List.append_nil buckets] at htotal ⊢
  rw [rank, ← hnat] at hi
  exact explicitPercentile_append htotal hne hsum hi hlen

theorem Explicit.mean (h : Explicit buckets bounds) (hsum : (countsOf buckets).sum < 2 ^ 64) :
    ∃ m, explicitMean buckets bounds = .ok m ∧
      (∀ i, IsLeast {k | (countsOf buckets).getD k 0 ≠ 0} i → estimate bounds i ≤ m) ∧
      ∀ i, IsGreatest {k | (countsOf buckets).getD k 0 ≠ 0} i → m ≤ estimate bounds i := by
  obtain ⟨total, htotal, hnat⟩ := sumU64_eq hsum
  have hne : total ≠ 0 := fun hzero => h.occupied ((eq_zero_iff_of_toNat hnat).1 hzero)
  have hpos : (0 : ℝ) < (countsOf buckets).sum := by exact_mod_cast Nat.pos_of_ne_zero h.occupied
  have hmean : explicitMean buckets bounds =
      .ok (weighted (estimate bounds) 0 (countsOf buckets) / (countsOf buckets).sum) := by
    have hall : ∀ k < buckets.length, 0 + k ≤ bounds.length := by
      intro k hk
      rw [h.overflow] at hk
      omega
    unfold explicitMean
    rw [htotal]
    change (if total = 0 then pure 0 else explicitWeighted bounds 0 0 buckets >>= fun acc =>
      pure (acc / (total.toNat : ℝ))) = _
    rw [if_neg hne, explicitWeighted_eq hall, zero_add, hnat]
    rfl
  refine ⟨_, hmean, ?_, ?_⟩
  · intro i hi
    rw [le_div_iff₀ hpos, mul_comm]
    apply le_weighted
    intro k hk
    rw [Nat.zero_add]
    exact h.proper.estimate_mono (hi.2 hk) (h.lt_of_occupied hk)
  · intro i hi
    rw [div_le_iff₀ hpos, mul_comm]
    apply weighted_le
    intro k hk
    rw [Nat.zero_add]
    exact h.proper.estimate_mono (hi.2 hk) (h.lt_of_occupied hi.1)

theorem Explicit.sound (h : Explicit buckets bounds) (hsum : (countsOf buckets).sum < 2 ^ 64) :
    ExplicitSound buckets bounds := by
  refine ⟨?_, ?_, h.mean hsum⟩
  · intro q hq hq1
    obtain ⟨i, -, hi, hv⟩ := h.percentile hsum hq hq1
    simp only [← Nat.ceil_le] at hi
    exact ⟨i, _, hi, hv, h.proper.within i⟩
  · intro p q hp hpq hq v w hv hw
    obtain ⟨i, -, hi, hvi⟩ := h.percentile hsum hp (hpq.trans hq)
    obtain ⟨j, hj, hleast, hwj⟩ := h.percentile hsum (hp.trans_le hpq) hq
    rw [hvi, Except.ok.injEq] at hv
    rw [hwj, Except.ok.injEq] at hw
    rw [← hv, ← hw]
    exact h.proper.estimate_mono (isLeast_mono hpq hi hleast) hj

omit [Build] in
theorem Explicit.upTo_last (h : Explicit buckets bounds) :
    upTo (countsOf buckets) bounds.length = (countsOf buckets).sum := by
  rw [upTo, List.take_of_length_le]
  rw [countsOf, List.length_map, h.overflow]

omit [Build] in
theorem take_countsOf (k : ℕ) : (countsOf buckets).take k = countsOf (buckets.take k) := by
  rw [countsOf, countsOf, List.map_take]

omit [Build] in
theorem upTo_lt (k : ℕ) :
    upTo (countsOf buckets) k < (countsOf (buckets.take k)).sum + 2 ^ 64 := by
  have hsplit : upTo (countsOf buckets) k =
      (countsOf (buckets.take k)).sum + (countsOf buckets).getD k 0 := by
    rw [upTo, List.take_add_one, List.sum_append, take_countsOf, List.getD_eq_getElem?_getD]
    cases (countsOf buckets)[k]? with
    | none => rfl
    | some n => simp
  have hcount : (countsOf buckets).getD k 0 < 2 ^ 64 := by
    rw [List.getD_eq_getElem?_getD, countsOf, List.getElem?_map]
    cases buckets[k]? with
    | none => exact Nat.two_pow_pos 64
    | some b => exact b.toNat_lt
  omega

/-- Where a sum that overflows returns, some percentile lies below the bucket at its rank: the
scan compares against a share of what is left of the total. -/
theorem Explicit.misplaced (h : Explicit buckets bounds) {total : UInt64}
    (htotal : sumU64 buckets = .ok total) (hover : 2 ^ 64 ≤ (countsOf buckets).sum) :
    ∃ q : ℝ, 0 < q ∧ q ≤ 1 ∧ ∃ k v, (countsOf (buckets.take k)).sum < q * (countsOf buckets).sum ∧
      explicitPercentile buckets bounds q = .ok v ∧
        ∀ i, k ≤ i → i ≤ bounds.length → v < lowEdge bounds i := by
  obtain ⟨k, hbefore, hreach⟩ := exists_crossing (by omega) hover
  rw [take_countsOf] at hbefore
  have hfront := @upTo_lt buckets k
  have hpos : 0 < (countsOf (buckets.take k)).sum := by omega
  have hk : k ≠ 0 := by
    rintro rfl
    simp [countsOf] at hpos
  obtain ⟨hnat, -⟩ := wraps_of_sumU64 htotal
  have hleft : total.toNat < 2 ^ 64 := total.toNat_lt
  have hbefore' : ((countsOf (buckets.take k)).sum : ℝ) < (countsOf buckets).sum := by
    exact_mod_cast hbefore.trans_le hover
  by_cases hzero : total = 0
  · -- nothing is left, and the value is that of an empty histogram
    refine ⟨1, one_pos, le_rfl, k, 0, by rwa [one_mul], ?_, ?_⟩
    · unfold explicitPercentile
      rw [htotal]
      exact if_pos hzero
    · intro i hki hi
      obtain ⟨j, rfl⟩ : ∃ j, i = j + 1 := ⟨i - 1, by omega⟩
      exact h.proper.lowEdge_pos hi
  · have hne : total.toNat ≠ 0 := fun hn => hzero ((eq_zero_iff_of_toNat rfl).2 hn)
    have hshare : (0 : ℝ) < total.toNat := by exact_mod_cast Nat.pos_of_ne_zero hne
    have hpos' : (0 : ℝ) < (countsOf (buckets.take k)).sum := by exact_mod_cast hpos
    have hless : (total.toNat : ℝ) < (countsOf buckets).sum := by
      exact_mod_cast hleft.trans_le hover
    let q : ℝ := min 1 ((countsOf (buckets.take k)).sum / total.toNat)
    have hq : 0 < q := lt_min one_pos (div_pos hpos' hshare)
    have htarget : q * total.toNat ≤ (countsOf (buckets.take k)).sum :=
      (le_div_iff₀ hshare).1 (min_le_right _ _)
    obtain ⟨r, hr⟩ : ∃ r, rankFrom (fun n : ℕ => q * total.toNat ≤ n) 0 0
        (countsOf (buckets.take k)) = some r := by
      apply exists_rankFrom
      · rw [Nat.cast_zero, not_le]
        exact mul_pos hq hshare
      · rwa [Nat.zero_add]
    have hrk : r < k := by
      have hlt := (le_of_rankFrom hr).2
      rw [countsOf, List.length_map, List.length_take] at hlt
      omega
    have hlen : r ≤ bounds.length := by
      obtain ⟨-, hlt⟩ := le_of_rankFrom hr
      rw [countsOf, List.length_map, List.length_take, h.overflow] at hlt
      omega
    refine ⟨q, hq, min_le_left _ _, k, estimate bounds r, ?_, ?_, ?_⟩
    · rcases min_choice 1 ((countsOf (buckets.take k)).sum / (total.toNat : ℝ)) with hmin | hmin
      · rw [show q = 1 from hmin, one_mul]
        exact hbefore'
      · rw [show q = _ from hmin, div_mul_eq_mul_div, lt_div_iff₀ hshare]
        exact mul_lt_mul_of_pos_left hless hpos'
    · have hwhole : sumU64 (buckets.take k ++ buckets.drop k) = .ok total := by
        rwa [List.take_append_drop]
      rw [← List.take_append_drop k buckets]
      exact explicitPercentile_append hwhole hzero hbefore hr hlen
    · intro i hki hi
      exact h.proper.estimate_lt (by omega) hi

theorem Explicit.fits (h : Explicit buckets bounds) (hsound : ExplicitSound buckets bounds) :
    (countsOf buckets).sum < 2 ^ 64 := by
  by_contra hover
  obtain ⟨-, v, -, hv, -⟩ := hsound.contained 1 one_pos le_rfl
  obtain ⟨total, htotal, -⟩ := Results.bind_eq_ok.1 hv
  obtain ⟨q, hq, hq1, k, w, hbefore, hw, habove⟩ := h.misplaced htotal (not_lt.1 hover)
  obtain ⟨i, w', hi, hw', hlow, -⟩ := hsound.contained q hq hq1
  obtain rfl : w' = w := by
    rw [hw', Except.ok.injEq] at hw
    exact hw
  simp only [Nat.ceil_le] at hi
  have hlen : i ≤ bounds.length := by
    apply hi.2
    change q * _ ≤ _
    rw [h.upTo_last]
    exact mul_le_of_le_one_left (Nat.cast_nonneg _) hq1
  have hki : k ≤ i := by
    by_contra hik
    have hsub : upTo (countsOf buckets) i ≤ (countsOf (buckets.take k)).sum := by
      rw [← take_countsOf]
      exact (List.take_sublist_take_left (by omega)).sum_le_sum fun _ _ => Nat.zero_le _
    have hle : (upTo (countsOf buckets) i : ℝ) ≤ (countsOf (buckets.take k)).sum := by
      exact_mod_cast hsub
    exact absurd (hi.1.trans hle) (not_le.2 hbefore)
  exact absurd hlow (not_le.2 (habove i hki hlen))

/-- The estimates are those of the buckets exactly when the counts add up in a `u64`. -/
theorem explicitSound_iff (buckets : List UInt64) (bounds : List ℝ) (h : Explicit buckets bounds) :
    ExplicitSound buckets bounds ↔ (countsOf buckets).sum < 2 ^ 64 :=
  ⟨h.fits, h.sound⟩

end Estimates

section Overflow

attribute [local instance] releaseBuild

theorem explicit_of_one {a b : UInt64} (hocc : (countsOf [a, b]).sum ≠ 0) : Explicit [a, b] [1] := by
  refine ⟨⟨?_, List.pairwise_singleton _ _⟩, rfl, hocc⟩
  intro x hx
  rw [List.mem_singleton.1 hx]
  exact one_pos

theorem three_samples_sound :
    ExplicitSound [1, 2] [1] ↔ (countsOf [1, 2]).sum < 2 ^ 64 :=
  explicitSound_iff [1, 2] [1] (explicit_of_one (by decide))

/-- Two full halves of a `u64` add up to nothing. -/
theorem halves_unsound : ¬ ExplicitSound [2 ^ 63, 2 ^ 63] [1] := by
  intro h
  have hsum : (countsOf [2 ^ 63, 2 ^ 63]).sum = 2 ^ 64 := by decide +kernel
  have hocc : (countsOf [2 ^ 63, 2 ^ 63]).sum ≠ 0 := by
    rw [hsum]
    exact (Nat.two_pow_pos 64).ne'
  have hfits := (explicit_of_one hocc).fits h
  omega

end Overflow

end Assayist
