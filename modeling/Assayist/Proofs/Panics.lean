import Assayist.Proofs.Log2
import Assayist.Proofs.Series

/-! What a run's histograms have to satisfy for `reduce` to keep clear of every operation
that can panic: the bucket sums, the shifts and the reads of `explicit_bounds`. -/

namespace Assayist

open Histograms

variable {F : Type} [F64 F]

section Explicit

theorem exists_boundAt {bounds : List F} {i : ℕ} :
    (∃ x, boundAt bounds i = .ok x) ↔ i < bounds.length := by
  unfold boundAt
  rcases Nat.lt_or_ge i bounds.length with hi | hi
  · rw [List.getElem?_eq_getElem hi]
    simp [hi]
  · rw [List.getElem?_eq_none hi]
    simp [Nat.not_lt.2 hi]

/-- The edges of a bucket exist up to the overflow bucket, the one after the last bound. -/
theorem exists_explicitEdges {bounds : List F} {i : ℕ} :
    (∃ edges, explicitEdges bounds i = .ok edges) ↔ i ≤ bounds.length := by
  unfold explicitEdges
  cases i with
  | zero => simp [Results.pure_eq_ok]
  | succ i =>
    rw [if_neg (Nat.succ_ne_zero i), Nat.succ_le_iff, Nat.succ_sub_one,
      show i < bounds.length ↔ _ from exists_boundAt.symm]
    simp only [Results.bind_eq_ok, Results.pure_eq_ok]
    apply Iff.intro
    · intro h
      obtain ⟨_, lo, hlo, _⟩ := h
      exact ⟨lo, hlo⟩
    · intro h
      obtain ⟨lo, hlo⟩ := h
      exact ⟨_, lo, hlo, rfl⟩

theorem exists_explicitWeighted {bounds : List F} {i : ℕ} {acc : F} {buckets : List UInt64} :
    (∃ v, explicitWeighted bounds i acc buckets = .ok v) ↔
      ∀ k < buckets.length, i + k ≤ bounds.length := by
  induction buckets generalizing i acc with
  | nil => simp [explicitWeighted, Results.pure_eq_ok]
  | cons b buckets ih =>
    rw [List.length_cons, forall_lt_succ (p := fun j => j ≤ bounds.length),
      ← exists_explicitEdges]
    simp only [explicitWeighted, Results.bind_eq_ok]
    apply Iff.intro
    · intro h
      obtain ⟨v, edges, hedges, hv⟩ := h
      exact ⟨⟨edges, hedges⟩, ih.1 ⟨v, hv⟩⟩
    · intro h
      obtain ⟨⟨edges, hedges⟩, hrest⟩ := h
      obtain ⟨v, hv⟩ := ih.2 hrest
      exact ⟨v, edges, hedges, hv⟩

variable [Build]

theorem exists_explicitScan {bounds : List F} {target : F} {i : ℕ} {cum : UInt64}
    {buckets : List UInt64}
    (hsum : Build.overflowChecks = true → cum.toNat + (countsOf buckets).sum < 2 ^ 64)
    (h : ∀ k < buckets.length, i + k ≤ bounds.length) :
    ∃ v, explicitScan bounds target i cum buckets = .ok v := by
  induction buckets generalizing i cum with
  | nil => exact ⟨none, rfl⟩
  | cons b buckets ih =>
    rw [List.length_cons, forall_lt_succ (p := fun j => j ≤ bounds.length)] at h
    have hcons : (countsOf (b :: buckets)).sum = b.toNat + (countsOf buckets).sum := rfl
    rw [hcons] at hsum
    have hb : Build.overflowChecks = true → cum.toNat + b.toNat < 2 ^ 64 := by
      intro hon
      have hfits := hsum hon
      omega
    have hrest : Build.overflowChecks = true →
        (cum + b).toNat + (countsOf buckets).sum < 2 ^ 64 := by
      intro hon
      have hfits := hsum hon
      have hadd := toNat_add_of_lt (hb hon)
      omega
    obtain ⟨edges, hedges⟩ := exists_explicitEdges.2 h.1
    obtain ⟨v, hv⟩ := ih hrest h.2
    simp only [explicitScan, Results.bind_eq_ok, addU64_eq_ok.2 ⟨hb, rfl⟩]
    by_cases hreach : target ≤ ((cum + b).toNat : F)
    · exact ⟨_, _, rfl, by rw [if_pos hreach, Results.bind_eq_ok]; exact ⟨edges, hedges, rfl⟩⟩
    · exact ⟨v, _, rfl, by rw [if_neg hreach]; exact hv⟩

/-- What is left of the total in a `u64` is 0, or there is a bound for every bucket after the
first. -/
def covered (buckets : List UInt64) (bounds : List F) : Prop :=
  (countsOf buckets).sum % 2 ^ 64 = 0 ∨ buckets.length ≤ bounds.length + 1

omit [F64 F] [Build] in
theorem covered_iff {bounds : List F} {buckets : List UInt64}
    (hsum : (countsOf buckets).sum < 2 ^ 64) :
    covered buckets bounds ↔
      (countsOf buckets).sum = 0 ∨ buckets.length ≤ bounds.length + 1 := by
  rw [covered, Nat.mod_eq_of_lt hsum]

/-- The mean of an explicit histogram reads a bound for each bucket after the first. -/
theorem exists_explicitMean {bounds : List F} {buckets : List UInt64} :
    (∃ v, explicitMean buckets bounds = .ok v) ↔
      (Build.overflowChecks = true → (countsOf buckets).sum < 2 ^ 64) ∧ covered buckets bounds := by
  have hall : (∃ v, explicitWeighted bounds 0 0 buckets = .ok v) ↔
      ∀ k < buckets.length, 0 + k ≤ bounds.length := exists_explicitWeighted
  have hlen : (∀ k < buckets.length, 0 + k ≤ bounds.length) ↔
      buckets.length ≤ bounds.length + 1 := by
    apply Iff.intro
    · intro h
      by_contra hlen
      have hlast := h (bounds.length + 1) (by omega)
      omega
    · intro h k hk
      omega
  have hrest {total : UInt64} (htotal : sumU64 buckets = .ok total) :
      (∃ v, explicitMean buckets bounds = .ok v) ↔ covered buckets bounds := by
    obtain ⟨hnat, -⟩ := wraps_of_sumU64 htotal
    rw [covered, ← hlen, ← hall, ← eq_zero_iff_of_toNat hnat]
    unfold explicitMean
    rw [htotal]
    change (∃ v, (if total = 0 then pure 0 else explicitWeighted bounds 0 0 buckets >>= fun acc =>
      pure (acc / (total.toNat : F))) = .ok v) ↔ _
    by_cases hzero : total = 0
    · simp [hzero, Results.pure_eq_ok]
    · simp [hzero, Results.map_eq_ok]
  rw [← exists_sumU64]
  apply Iff.intro
  · intro h
    obtain ⟨v, hv⟩ := h
    obtain ⟨total, htotal, -⟩ := Results.bind_eq_ok.1 hv
    exact ⟨⟨total, htotal⟩, (hrest htotal).1 ⟨v, hv⟩⟩
  · intro h
    obtain ⟨⟨total, htotal⟩, hcovered⟩ := h
    exact (hrest htotal).2 hcovered

theorem exists_explicitPercentile {bounds : List F} {buckets : List UInt64} {q : F}
    (hsum : Build.overflowChecks = true → (countsOf buckets).sum < 2 ^ 64)
    (h : covered buckets bounds) : ∃ v, explicitPercentile buckets bounds q = .ok v := by
  obtain ⟨total, htotal⟩ := exists_sumU64.2 hsum
  obtain ⟨hnat, -⟩ := wraps_of_sumU64 htotal
  rw [covered, ← eq_zero_iff_of_toNat hnat] at h
  unfold explicitPercentile
  rw [htotal]
  change ∃ v, (if total = 0 then pure 0
    else explicitScan bounds (q * (total.toNat : F)) 0 0 buckets >>= _) = .ok v
  by_cases hzero : total = 0
  · exact ⟨0, if_pos hzero⟩
  · have hlen := h.resolve_left hzero
    have hcum : (0 : UInt64).toNat = 0 := rfl
    have hfits : Build.overflowChecks = true →
        (0 : UInt64).toNat + (countsOf buckets).sum < 2 ^ 64 := by
      intro hon
      rw [hcum, Nat.zero_add]
      exact hsum hon
    have hscan : ∃ v, explicitScan bounds (q * (total.toNat : F)) 0 0 buckets = .ok v :=
      exists_explicitScan hfits fun k hk => by omega
    obtain ⟨v, hv⟩ := hscan
    rw [if_neg hzero, hv]
    cases v with
    | none => exact ⟨_, rfl⟩
    | some v => exact ⟨v, rfl⟩

end Explicit

section Log2

variable [Build]

theorem exists_log2Midpoint {i : ℕ} : (∃ v : F, log2Midpoint i = .ok v) ↔ shiftable i := by
  unfold log2Midpoint
  simp only [Results.bind_eq_ok, Results.pure_eq_ok, oneShl_eq_ok]
  apply Iff.intro
  · intro h
    obtain ⟨_, _, ⟨hi, _⟩, _⟩ := h
    exact hi
  · intro hi
    exact ⟨_, _, ⟨hi, rfl⟩, rfl⟩

theorem exists_log2Weighted {i : ℕ} {acc : F} {buckets : List UInt64} :
    (∃ v, log2Weighted i acc buckets = .ok v) ↔ ∀ k < buckets.length, shiftable (i + k) := by
  induction buckets generalizing i acc with
  | nil => simp [log2Weighted, Results.pure_eq_ok]
  | cons b buckets ih =>
    rw [List.length_cons, forall_lt_succ (p := shiftable)]
    simp only [log2Weighted, Results.bind_eq_ok, oneShl_eq_ok]
    apply Iff.intro
    · intro h
      obtain ⟨v, edge, ⟨hi, rfl⟩, hv⟩ := h
      exact ⟨hi, ih.1 ⟨v, hv⟩⟩
    · intro h
      obtain ⟨hi, hrest⟩ := h
      obtain ⟨v, hv⟩ := ih.2 hrest
      exact ⟨v, _, ⟨hi, rfl⟩, hv⟩

theorem exists_log2Percentile {q : F} {buckets : List UInt64}
    (hsum : (countsOf buckets).sum < 2 ^ 64) :
    (∃ v, log2Percentile buckets q = .ok v) ↔
      (countsOf buckets).sum = 0 ∨ shiftable (percentileBucket q (countsOf buckets)) := by
  rw [log2Percentile_eq hsum]
  by_cases hocc : (countsOf buckets).sum = 0
  · rw [if_pos hocc]
    simp [hocc, Results.pure_eq_ok]
  · rw [if_neg hocc, exists_log2Midpoint]
    simp [hocc]

theorem exists_log2Mean {buckets : List UInt64} (hsum : (countsOf buckets).sum < 2 ^ 64) :
    (∃ v : F, log2Mean buckets = .ok v) ↔
      (countsOf buckets).sum = 0 ∨ ∀ k < buckets.length, shiftable k := by
  obtain ⟨total, htotal, hnat⟩ := sumU64_eq hsum
  have hall : (∃ v : F, log2Weighted 0 0 buckets = .ok v) ↔
      ∀ k < buckets.length, shiftable (0 + k) := exists_log2Weighted
  simp only [Nat.zero_add] at hall
  rw [← hall, ← eq_zero_iff_of_toNat hnat]
  unfold log2Mean
  rw [htotal]
  change (∃ v, (if total = 0 then pure 0 else log2Weighted 0 0 buckets >>= fun acc =>
    pure (acc / (total.toNat : F))) = .ok v) ↔ _
  by_cases hzero : total = 0
  · simp [hzero, Results.pure_eq_ok]
  · simp [hzero, Results.map_eq_ok]

def exactMean (data : Json F) : Prop :=
  ∃ s c, data.getF64 "sum" = some s ∧ data.getF64 "count" = some c ∧ 0 < c

theorem exists_log2MeanOf {data : Json F} {buckets : List UInt64}
    (hsum : (countsOf buckets).sum < 2 ^ 64) :
    (∃ v, log2MeanOf data buckets = .ok v) ↔
      exactMean data ∨ (countsOf buckets).sum = 0 ∨ ∀ k < buckets.length, shiftable k := by
  rw [← exists_log2Mean (F := F) hsum]
  unfold log2MeanOf exactMean
  cases data.getF64 "sum" with
  | none => simp
  | some s =>
    cases data.getF64 "count" with
    | none => simp
    | some c =>
      by_cases hc : 0 < c
      · simp [hc, Results.pure_eq_ok]
      · simp [hc]

end Log2

section Checked

attribute [local instance] checkedBuild

theorem overflowChecks_checked : Build.overflowChecks = true := rfl

theorem shiftable_checked {i : ℕ} : shiftable i ↔ i < 64 := by
  simp only [shiftable, overflowChecks_checked, true_imp_iff]

theorem fits_of_sumU64 {total : UInt64} {buckets : List UInt64} (h : sumU64 buckets = .ok total) :
    (countsOf buckets).sum < 2 ^ 64 := (wraps_of_sumU64 h).2 overflowChecks_checked

def bucketsIn (data : Json F) : List UInt64 := u64s ((data.get "buckets").getD .null)

def boundsIn (data : Json F) : List F := f64s ((data.get "explicit_bounds").getD .null)

/-- One of the first 64 running counts is at least the share `q` of the total. -/
def reachedEarly (q : F) (counts : List ℕ) : Prop :=
  ∃ k < 64, q * (counts.sum : F) ≤ ((counts.take (k + 1)).sum : F)

/-- Histogram data whose counts add up in a `u64` and, unless they are all 0, have a bound
for every bucket after the first or need no bucket past the 64th. -/
def readable (data : Json F) : Prop :=
  let counts := countsOf (bucketsIn data)
  counts.sum < 2 ^ 64 ∧ (counts.sum = 0 ∨
    if data.getStr "layout" = some "explicit" then counts.length ≤ (boundsIn data).length + 1
    else counts.length ≤ 64 ∨
      exactMean data ∧ reachedEarly (1 / 2 : F) counts ∧ reachedEarly (99 / 100 : F) counts)

theorem fits_of_bind {α : Type} {buckets : List UInt64} {rest : UInt64 → Except Abort α} {v : α}
    (h : sumU64 buckets >>= rest = .ok v) : (countsOf buckets).sum < 2 ^ 64 := by
  obtain ⟨total, htotal, _⟩ := Results.bind_eq_ok.1 h
  exact fits_of_sumU64 htotal

theorem fits_of_log2Percentile {q v : F} {buckets : List UInt64}
    (h : log2Percentile buckets q = .ok v) : (countsOf buckets).sum < 2 ^ 64 := fits_of_bind h

theorem exists_checked_percentile {q : F} {buckets : List UInt64}
    (hsum : (countsOf buckets).sum < 2 ^ 64) :
    (∃ v, log2Percentile buckets q = .ok v) ↔ (countsOf buckets).sum = 0 ∨
      (countsOf buckets).length ≤ 64 ∨ reachedEarly q (countsOf buckets) := by
  have hpos : 0 < 64 := by omega
  rw [exists_log2Percentile hsum, shiftable_checked]
  exact or_congr_right (getD_rankFrom_lt_iff hpos)

theorem exists_checked_log2MeanOf {data : Json F} {buckets : List UInt64}
    (hsum : (countsOf buckets).sum < 2 ^ 64) :
    (∃ v, log2MeanOf data buckets = .ok v) ↔
      exactMean data ∨ (countsOf buckets).sum = 0 ∨ (countsOf buckets).length ≤ 64 := by
  have hall : (∀ k < buckets.length, shiftable k) ↔ (countsOf buckets).length ≤ 64 := by
    rw [countsOf, List.length_map]
    simp only [shiftable_checked]
    apply Iff.intro
    · intro h
      by_contra hlen
      have hlast := h 64 (by omega)
      omega
    · intro h k hk
      omega
  rw [exists_log2MeanOf hsum, hall]

theorem exists_checked_log2 {data : Json F} {buckets : List UInt64}
    (hsum : (countsOf buckets).sum < 2 ^ 64) :
    ((∃ v, log2MeanOf data buckets = .ok v) ∧ (∃ v, log2Percentile buckets (1 / 2 : F) = .ok v) ∧
      ∃ v, log2Percentile buckets (99 / 100 : F) = .ok v) ↔
      (countsOf buckets).sum = 0 ∨ (countsOf buckets).length ≤ 64 ∨ exactMean data ∧
        reachedEarly (1 / 2 : F) (countsOf buckets) ∧
        reachedEarly (99 / 100 : F) (countsOf buckets) := by
  rw [exists_checked_log2MeanOf hsum, exists_checked_percentile hsum,
    exists_checked_percentile hsum]
  by_cases hzero : (countsOf buckets).sum = 0
  · simp [hzero]
  · by_cases hlen : (countsOf buckets).length ≤ 64
    · simp [hlen]
    · simp [hzero, hlen]

theorem exists_three {α β γ δ ε : Type} {x : Except ε α} {y : Except ε β} {z : Except ε γ}
    {f : α → β → γ → δ} :
    (∃ r, (do
      let a ← x
      let b ← y
      let c ← z
      pure (f a b c)) = .ok r) ↔
      (∃ a, x = .ok a) ∧ (∃ b, y = .ok b) ∧ ∃ c, z = .ok c := by
  simp only [Results.bind_eq_ok, Results.pure_eq_ok]
  apply Iff.intro
  · intro h
    obtain ⟨_, a, ha, b, hb, c, hc, _⟩ := h
    exact ⟨⟨a, ha⟩, ⟨b, hb⟩, ⟨c, hc⟩⟩
  · intro h
    obtain ⟨⟨a, ha⟩, ⟨b, hb⟩, ⟨c, hc⟩⟩ := h
    exact ⟨_, a, ha, b, hb, c, hc, rfl⟩

theorem exists_histogramStats {data : Json F} :
    (∃ stats, histogramStats data = .ok stats) ↔ readable data := by
  unfold readable
  have hlayout : ((data.getStr "layout").getD "log2" == "explicit") = true ↔
      data.getStr "layout" = some "explicit" := by
    rw [beq_iff_eq]
    cases data.getStr "layout" with
    | none => simp
    | some l => simp
  unfold histogramStats
  simp only [hlayout]
  by_cases hexplicit : data.getStr "layout" = some "explicit"
  · simp only [if_pos hexplicit]
    rw [exists_three]
    apply Iff.intro
    · intro h
      obtain ⟨hmean, _⟩ := h
      obtain ⟨hsum, hcovered⟩ := exists_explicitMean.1 hmean
      have hfits := hsum overflowChecks_checked
      refine ⟨hfits, ?_⟩
      rw [countsOf, List.length_map]
      exact (covered_iff hfits).1 hcovered
    · intro h
      obtain ⟨hsum, hlen⟩ := h
      rw [countsOf, List.length_map] at hlen
      have hcovered := (covered_iff hsum).2 hlen
      have hchecks : Build.overflowChecks = true → (countsOf (bucketsIn data)).sum < 2 ^ 64 :=
        fun _ => hsum
      exact ⟨exists_explicitMean.2 ⟨hchecks, hcovered⟩, exists_explicitPercentile hchecks hcovered,
        exists_explicitPercentile hchecks hcovered⟩
  · simp only [if_neg hexplicit]
    rw [exists_three]
    apply Iff.intro
    · intro h
      have hsum : (countsOf (bucketsIn data)).sum < 2 ^ 64 := by
        obtain ⟨_, ⟨p50, hp50⟩, _⟩ := h
        exact fits_of_log2Percentile hp50
      exact ⟨hsum, (exists_checked_log2 hsum).1 h⟩
    · intro h
      obtain ⟨hsum, hfits⟩ := h
      exact (exists_checked_log2 hsum).2 hfits

/-- A series is reduced when it is no histogram, or one with readable data. -/
theorem exists_seriesMetrics [FloatText F] {overbudget : List String} {overflow : Bool}
    {win : Option F} {s : Json F} :
    (∃ ms, seriesMetrics overbudget overflow win s = .ok ms) ↔
      ∀ data, s.get "data" = some data → s.getStr "kind" = some "histogram" → readable data := by
  unfold seriesMetrics
  cases s.get "data" with
  | none => simp [Results.pure_eq_ok]
  | some data =>
    have hkind : s.getStr "kind" = some "histogram" ↔ (s.getStr "kind").getD "" = "histogram" := by
      cases s.getStr "kind" with
      | none => simp
      | some k => simp
    simp only [hkind, beq_iff_eq, Option.some.injEq, forall_eq']
    generalize (s.getStr "kind").getD "" = kind
    by_cases hh : kind = "histogram"
    · simp only [hh, if_true, true_imp_iff]
      rw [← exists_histogramStats]
      simp only [Results.bind_eq_ok, Results.pure_eq_ok]
      apply Iff.intro
      · intro h
        obtain ⟨_, stats, hstats, _⟩ := h
        exact ⟨stats, hstats⟩
      · intro h
        obtain ⟨stats, hstats⟩ := h
        exact ⟨_, stats, hstats, rfl⟩
    · simp only [hh, if_false, false_imp_iff, iff_true]
      split_ifs
      · cases win with
        | none => exact ⟨_, rfl⟩
        | some w =>
          by_cases hw : 0 < w
          · exact ⟨_, if_pos hw⟩
          · exact ⟨_, if_neg hw⟩
      · exact ⟨_, rfl⟩
      · exact ⟨_, rfl⟩

/-- A build that checks every sum and shift reduces a run exactly when the data of each of
its histograms are readable. -/
theorem reduce_returns_iff [FloatText F] (run : Json F) :
    (∃ ms, reduce run = .ok ms) ↔
      ∀ s ∈ (run.getArray "series").getD [], ∀ data, s.get "data" = some data →
        s.getStr "kind" = some "histogram" → readable data := by
  have hparts : (∃ ms, reduce run = .ok ms) ↔
      ∃ parts, List.Forall₂ (fun s part => metricsOf run s = .ok part)
        ((run.getArray "series").getD []) parts := by
    simp only [reduce_eq_ok]
    apply Iff.intro
    · intro h
      obtain ⟨_, parts, hparts, _⟩ := h
      exact ⟨parts, hparts⟩
    · intro h
      obtain ⟨parts, hparts⟩ := h
      exact ⟨_, parts, hparts, rfl⟩
  rw [hparts, Results.exists_forall₂]
  simp only [metricsOf, exists_seriesMetrics]

end Checked

section Unbounded

attribute [local instance] releaseBuild

def boundless : Json ℚ :=
  .object [("series", .array [.object [
    ("name", .string "vm.boot_ns"), ("unit", .string "ns"), ("kind", .string "histogram"),
    ("source", .string "lifecycle"),
    ("data", .object [("layout", .string "explicit"), ("buckets", .array [.nat 3, .nat 1]),
      ("count", .nat 4)])]])]

/-- The mean reads a bound that is not there, whichever way the build treats overflow. -/
theorem boundless_panics :
    reduce boundless = .error (.panic .indexOutOfBounds) ∧
      @reduce ℚ _ _ checkedBuild boundless = .error (.panic .indexOutOfBounds) := by
  exact ⟨rfl, rfl⟩

end Unbounded

end Assayist
