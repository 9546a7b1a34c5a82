import Assayist.Lib.Histograms
import Assayist.Lib.Results
import Assayist.Spec.Stats

/-! The percentile and the mean of a log2 histogram whose counts add up in a `u64`: the
midpoint of the bucket at the rank, and the mean of the midpoints. -/

namespace Assayist

open Histograms

section Sums

def countsOf (buckets : List UInt64) : List ℕ := buckets.map UInt64.toNat

theorem toNat_add_of_lt {a b : UInt64} (h : a.toNat + b.toNat < 2 ^ 64) :
    (a + b).toNat = a.toNat + b.toNat := by
  rw [UInt64.toNat_add, Nat.mod_eq_of_lt h]

theorem eq_zero_iff_of_toNat {total : UInt64} {n : ℕ} (h : total.toNat = n) :
    total = 0 ↔ n = 0 := by
  rw [← h, ← UInt64.toNat_inj, UInt64.toNat_zero]

variable [Build]

theorem addU64_eq {a b : UInt64} (h : a.toNat + b.toNat < 2 ^ 64) : addU64 a b = .ok (a + b) := by
  have hfits : ¬ 2 ^ 64 ≤ a.toNat + b.toNat := by omega
  unfold addU64
  rw [decide_eq_false hfits, Bool.and_false]
  rfl

theorem foldlM_addU64 {cum : UInt64} {buckets : List UInt64}
    (h : cum.toNat + (countsOf buckets).sum < 2 ^ 64) :
    ∃ total, buckets.foldlM addU64 cum = .ok total ∧
      total.toNat = cum.toNat + (countsOf buckets).sum := by
  induction buckets generalizing cum with
  | nil => exact ⟨cum, rfl, rfl⟩
  | cons b buckets ih =>
    have hsum : (countsOf (b :: buckets)).sum = b.toNat + (countsOf buckets).sum := rfl
    rw [hsum] at h ⊢
    have hb : cum.toNat + b.toNat < 2 ^ 64 := by omega
    have hadd := toNat_add_of_lt hb
    have hrest : (cum + b).toNat + (countsOf buckets).sum < 2 ^ 64 := by omega
    obtain ⟨total, htotal, hnat⟩ := ih hrest
    refine ⟨total, ?_, by omega⟩
    rw [List.foldlM_cons, addU64_eq hb]
    exact htotal

theorem sumU64_eq {buckets : List UInt64} (h : (countsOf buckets).sum < 2 ^ 64) :
    ∃ total, sumU64 buckets = .ok total ∧ total.toNat = (countsOf buckets).sum := by
  have hzero : (0 : UInt64).toNat = 0 := rfl
  have hfits : (0 : UInt64).toNat + (countsOf buckets).sum < 2 ^ 64 := by omega
  obtain ⟨total, htotal, hnat⟩ := foldlM_addU64 hfits
  exact ⟨total, htotal, by omega⟩

theorem addU64_eq_ok {a b c : UInt64} :
    addU64 a b = .ok c ↔ (Build.overflowChecks = true → a.toNat + b.toNat < 2 ^ 64) ∧ a + b = c :=
  checked_eq_ok

theorem wraps_of_foldlM {cum total : UInt64} {buckets : List UInt64}
    (h : buckets.foldlM addU64 cum = .ok total) :
    total.toNat = (cum.toNat + (countsOf buckets).sum) % 2 ^ 64 ∧
      (Build.overflowChecks = true → cum.toNat + (countsOf buckets).sum < 2 ^ 64) := by
  induction buckets generalizing cum with
  | nil =>
    obtain rfl : cum = total := by simpa [Results.pure_eq_ok] using h
    exact ⟨(Nat.mod_eq_of_lt cum.toNat_lt).symm, fun _ => cum.toNat_lt⟩
  | cons b buckets ih =>
    rw [List.foldlM_cons, Results.bind_eq_ok] at h
    obtain ⟨next, hnext, hrest⟩ := h
    obtain ⟨hfits, rfl⟩ := addU64_eq_ok.1 hnext
    obtain ⟨hmod, hchecks⟩ := ih hrest
    have hcons : (countsOf (b :: buckets)).sum = b.toNat + (countsOf buckets).sum := rfl
    rw [hcons]
    refine ⟨?_, ?_⟩
    · rw [hmod, UInt64.toNat_add, Nat.mod_add_mod, Nat.add_assoc]
    · intro hon
      have hadd := toNat_add_of_lt (hfits hon)
      have hlt := hchecks hon
      omega

/-- A sum that returns is the sum of the counts modulo `2^64`, and the sum itself where the
build checks. -/
theorem wraps_of_sumU64 {total : UInt64} {buckets : List UInt64} (h : sumU64 buckets = .ok total) :
    total.toNat = (countsOf buckets).sum % 2 ^ 64 ∧
      (Build.overflowChecks = true → (countsOf buckets).sum < 2 ^ 64) := by
  have hwraps := wraps_of_foldlM h
  rwa [UInt64.toNat_zero, Nat.zero_add] at hwraps

theorem exists_foldlM {cum : UInt64} {buckets : List UInt64}
    (h : Build.overflowChecks = true → cum.toNat + (countsOf buckets).sum < 2 ^ 64) :
    ∃ total, buckets.foldlM addU64 cum = .ok total := by
  induction buckets generalizing cum with
  | nil => exact ⟨cum, rfl⟩
  | cons b buckets ih =>
    have hcons : (countsOf (b :: buckets)).sum = b.toNat + (countsOf buckets).sum := rfl
    rw [hcons] at h
    have hb : Build.overflowChecks = true → cum.toNat + b.toNat < 2 ^ 64 := by
      intro hon
      have hfits := h hon
      omega
    have hrest : Build.overflowChecks = true →
        (cum + b).toNat + (countsOf buckets).sum < 2 ^ 64 := by
      intro hon
      have hfits := h hon
      have hadd := toNat_add_of_lt (hb hon)
      omega
    obtain ⟨total, htotal⟩ := ih hrest
    exact ⟨total, by rw [List.foldlM_cons, addU64_eq_ok.2 ⟨hb, rfl⟩]; exact htotal⟩

/-- A sum returns when it does not overflow or the build does not check. -/
theorem exists_sumU64 {buckets : List UInt64} :
    (∃ total, sumU64 buckets = .ok total) ↔
      (Build.overflowChecks = true → (countsOf buckets).sum < 2 ^ 64) := by
  apply Iff.intro
  · intro h
    obtain ⟨total, htotal⟩ := h
    exact (wraps_of_sumU64 htotal).2
  · intro h
    apply exists_foldlM
    rwa [UInt64.toNat_zero, Nat.zero_add]

end Sums

section Midpoints

/-- The midpoint the shift gives bucket `i`, whose amount is taken modulo 64. -/
noncomputable def midpoint (i : ℕ) : ℝ := 3 / 2 * 2 ^ (i % 64)

theorem midpoint_le (i : ℕ) : midpoint i ≤ 2 ^ (i + 1) := by
  have hpow : (2 : ℝ) ^ (i % 64) ≤ 2 ^ i := pow_le_pow_right₀ (by norm_num) (Nat.mod_le i 64)
  have hpos : (0 : ℝ) < 2 ^ i := by positivity
  rw [midpoint, pow_succ]
  linarith

theorem midpoint_pos (i : ℕ) : 0 < midpoint i := by
  rw [midpoint]
  positivity

theorem pow_le_midpoint_iff {k i : ℕ} : (2 : ℝ) ^ k ≤ midpoint i ↔ k ≤ i % 64 := by
  rw [midpoint]
  apply Iff.intro
  · intro h
    by_contra hk
    have hpos : (0 : ℝ) < 2 ^ (i % 64) := by positivity
    have hpow : (2 : ℝ) ^ (i % 64 + 1) ≤ 2 ^ k := pow_le_pow_right₀ (by norm_num) (by omega)
    rw [pow_succ] at hpow
    linarith
  · intro hk
    have hpos : (0 : ℝ) < 2 ^ (i % 64) := by positivity
    have hpow : (2 : ℝ) ^ k ≤ 2 ^ (i % 64) := pow_le_pow_right₀ (by norm_num) hk
    linarith

theorem toNat_shift (i : ℕ) : ((1 : UInt64) <<< UInt64.ofNat i).toNat = 2 ^ (i % 64) := by
  have hlt : i % 64 < 64 := Nat.mod_lt i (by omega)
  have hmod : i % 2 ^ 64 % 64 = i % 64 := Nat.mod_mod_of_dvd i ⟨2 ^ 58, by norm_num⟩
  rw [UInt64.toNat_shiftLeft, UInt64.toNat_one, UInt64.toNat_ofNat', hmod, Nat.one_shiftLeft,
    Nat.mod_eq_of_lt (Nat.pow_lt_pow_right (by omega) hlt)]

variable [Build]

/-- `1u64 << i` gives a value. -/
def shiftable (i : ℕ) : Prop := Build.overflowChecks = true → i < 64

theorem oneShl_eq_ok {i : ℕ} {edge : UInt64} :
    oneShl i = .ok edge ↔ shiftable i ∧ 1 <<< UInt64.ofNat i = edge :=
  checked_eq_ok

theorem log2Midpoint_eq_ok {i : ℕ} {v : ℝ} :
    log2Midpoint i = .ok v ↔ shiftable i ∧ v = midpoint i := by
  unfold log2Midpoint
  rw [Results.bind_eq_ok]
  simp only [oneShl_eq_ok, Results.pure_eq_ok]
  apply Iff.intro
  · intro h
    obtain ⟨edge, ⟨hi, rfl⟩, rfl⟩ := h
    refine ⟨hi, ?_⟩
    rw [toNat_shift, midpoint]
    norm_num
  · intro h
    obtain ⟨hi, rfl⟩ := h
    refine ⟨_, ⟨hi, rfl⟩, ?_⟩
    rw [toNat_shift, midpoint]
    norm_num

end Midpoints

section Percentile

variable [Build]

noncomputable def rank (q : ℝ) (counts : List ℕ) : Option ℕ :=
  rankFrom (fun n => q * counts.sum ≤ n) 0 0 counts

theorem log2Scan_eq {F : Type} [F64 F] {target : F} {i : ℕ} {cum : UInt64} {buckets : List UInt64}
    (h : cum.toNat + (countsOf buckets).sum < 2 ^ 64) :
    log2Scan target i cum buckets =
      (rankFrom (fun n => target ≤ n) i cum.toNat (countsOf buckets)).elim (pure none)
        fun r => some <$> log2Midpoint r := by
  induction buckets generalizing i cum with
  | nil => rfl
  | cons b buckets ih =>
    have hsum : (countsOf (b :: buckets)).sum = b.toNat + (countsOf buckets).sum := rfl
    rw [hsum] at h
    have hb : cum.toNat + b.toNat < 2 ^ 64 := by omega
    have hadd := toNat_add_of_lt hb
    have hcons : rankFrom (fun n : ℕ => target ≤ n) i cum.toNat (countsOf (b :: buckets)) =
        if target ≤ ((cum.toNat + b.toNat : ℕ) : F) then some i
        else rankFrom (fun n : ℕ => target ≤ n) (i + 1) (cum.toNat + b.toNat) (countsOf buckets) :=
      rfl
    have hscan : log2Scan target i cum (b :: buckets) =
        if target ≤ (((cum + b).toNat : ℕ) : F) then some <$> log2Midpoint i
        else log2Scan target (i + 1) (cum + b) buckets := by
      rw [log2Scan, addU64_eq hb]
      rfl
    rw [hscan, hcons, hadd]
    by_cases hreach : target ≤ ((cum.toNat + b.toNat : ℕ) : F)
    · rw [if_pos hreach, if_pos hreach]
      rfl
    · rw [if_neg hreach, if_neg hreach, ih (by omega), hadd]

/-- The bucket whose midpoint the percentile is: the one at the rank, or the last when no
bucket reaches the target. -/
def percentileBucket {F : Type} [F64 F] (q : F) (counts : List ℕ) : ℕ :=
  (rankFrom (fun n => q * (counts.sum : F) ≤ n) 0 0 counts).getD (counts.length - 1)

theorem log2Percentile_eq {F : Type} [F64 F] {q : F} {buckets : List UInt64}
    (hsum : (countsOf buckets).sum < 2 ^ 64) :
    log2Percentile buckets q =
      if (countsOf buckets).sum = 0 then pure 0
      else log2Midpoint (percentileBucket q (countsOf buckets)) := by
  obtain ⟨total, htotal, hnat⟩ := sumU64_eq hsum
  have hzero : (0 : UInt64).toNat = 0 := rfl
  have hscan : log2Scan (q * (total.toNat : F)) 0 0 buckets =
      (rankFrom (fun n => q * (total.toNat : F) ≤ n) 0 0 (countsOf buckets)).elim (pure none)
        fun r => some <$> log2Midpoint r := log2Scan_eq (by omega)
  unfold log2Percentile percentileBucket
  rw [htotal]
  change (if total = 0 then pure 0 else log2Scan (q * (total.toNat : F)) 0 0 buckets >>= _) = _
  rw [hscan, hnat]
  simp only [eq_zero_iff_of_toNat hnat]
  split
  · rfl
  · cases rankFrom (fun n => q * ((countsOf buckets).sum : F) ≤ n) 0 0 (countsOf buckets) with
    | none =>
      rw [countsOf, List.length_map]
      rfl
    | some r =>
      change (some <$> log2Midpoint r >>= _) = log2Midpoint r
      cases (log2Midpoint r : Except Abort F) with
      | error e => rfl
      | ok x => rfl

variable {q : ℝ} {counts : List ℕ}

omit [Build] in
theorem not_reached_zero (hq : 0 < q) (hocc : counts.sum ≠ 0) :
    ¬ q * counts.sum ≤ ((0 : ℕ) : ℝ) := by
  have hpos : (0 : ℝ) < counts.sum := by exact_mod_cast Nat.pos_of_ne_zero hocc
  have := mul_pos hq hpos
  rw [Nat.cast_zero]
  linarith

omit [Build] in
theorem exists_rank (hq : 0 < q) (hq1 : q ≤ 1) (hocc : counts.sum ≠ 0) :
    ∃ r, rank q counts = some r := by
  refine exists_rankFrom (not_reached_zero hq hocc) ?_
  have hnonneg : (0 : ℝ) ≤ counts.sum := Nat.cast_nonneg _
  rw [Nat.zero_add]
  exact mul_le_of_le_one_left hnonneg hq1

omit [Build] in
theorem rank_occupied (hq : 0 < q) (hocc : counts.sum ≠ 0) {r : ℕ} (hr : rank q counts = some r) :
    counts.getD r 0 ≠ 0 := by
  obtain ⟨k, rfl, hk⟩ := rankFrom_occupied (not_reached_zero hq hocc) hr
  rwa [Nat.zero_add]

theorem log2Percentile_eq_ok {buckets : List UInt64} (hq : 0 < q) (hq1 : q ≤ 1)
    (hsum : (countsOf buckets).sum < 2 ^ 64) (hocc : (countsOf buckets).sum ≠ 0) {v : ℝ} :
    log2Percentile buckets q = .ok v ↔
      ∃ r, rank q (countsOf buckets) = some r ∧ shiftable r ∧ v = midpoint r := by
  obtain ⟨r, hr⟩ := exists_rank hq hq1 hocc
  have hbucket : percentileBucket q (countsOf buckets) = r := by
    change (rank q (countsOf buckets)).getD _ = r
    rw [hr]
    rfl
  rw [log2Percentile_eq hsum, if_neg hocc, hbucket, log2Midpoint_eq_ok, hr]
  simp

end Percentile

section Mean

variable [Build]

theorem log2Weighted_eq_ok {i : ℕ} {acc v : ℝ} {buckets : List UInt64} :
    log2Weighted i acc buckets = .ok v ↔
      (∀ k < buckets.length, shiftable (i + k)) ∧
        v = acc + weighted midpoint i (countsOf buckets) := by
  induction buckets generalizing i acc with
  | nil =>
    rw [log2Weighted, Results.pure_eq_ok]
    simp [countsOf, weighted, eq_comm]
  | cons b buckets ih =>
    have hcons : weighted midpoint i (countsOf (b :: buckets)) =
        b.toNat * midpoint i + weighted midpoint (i + 1) (countsOf buckets) := rfl
    rw [log2Weighted, Results.bind_eq_ok, hcons, List.length_cons, forall_lt_succ (p := shiftable)]
    simp only [oneShl_eq_ok, ih]
    have hvalue : acc + (b.toNat : ℝ) * (3 / 2) * (((1 : UInt64) <<< UInt64.ofNat i).toNat : ℝ) +
        weighted midpoint (i + 1) (countsOf buckets) =
        acc + (b.toNat * midpoint i + weighted midpoint (i + 1) (countsOf buckets)) := by
      rw [toNat_shift, midpoint]
      push_cast
      ring
    rw [← hvalue]
    apply Iff.intro
    · intro h
      obtain ⟨edge, ⟨hi, rfl⟩, h, rfl⟩ := h
      exact ⟨⟨hi, h⟩, rfl⟩
    · intro h
      obtain ⟨⟨hi, h⟩, rfl⟩ := h
      exact ⟨_, ⟨hi, rfl⟩, h, rfl⟩

theorem log2Mean_eq_ok {buckets : List UInt64} (hsum : (countsOf buckets).sum < 2 ^ 64)
    (hocc : (countsOf buckets).sum ≠ 0) {v : ℝ} :
    log2Mean buckets = .ok v ↔ (∀ k < buckets.length, shiftable k) ∧
      v = weighted midpoint 0 (countsOf buckets) / (countsOf buckets).sum := by
  obtain ⟨total, htotal, hnat⟩ := sumU64_eq hsum
  have hne : total ≠ 0 := by
    rintro rfl
    exact hocc hnat.symm
  unfold log2Mean
  rw [htotal]
  change (if total = 0 then pure 0 else log2Weighted 0 0 buckets >>= fun acc =>
    pure (acc / (total.toNat : ℝ))) = .ok v ↔ _
  rw [if_neg hne, Results.bind_eq_ok, hnat]
  simp only [log2Weighted_eq_ok, Results.pure_eq_ok, Nat.zero_add]
  apply Iff.intro
  · intro h
    obtain ⟨acc, ⟨h, rfl⟩, rfl⟩ := h
    exact ⟨h, by rw [zero_add]⟩
  · intro h
    obtain ⟨h, rfl⟩ := h
    exact ⟨_, ⟨h, rfl⟩, by rw [zero_add]⟩

end Mean

end Assayist
