import Assayist.Proofs.Points

/-! Whether an exponential histogram keeps its bucket indices through the import, and its
statistics their range. The import copies the counts of a metric's first data point index
for index, whatever the scale and the offset. -/

namespace Assayist

open Histograms

section Placement

/-- The buckets that hold `counts` from the `o`-th on and nothing else. -/
def Placed (o : ℕ) (counts buckets : List ℕ) : Prop :=
  ∀ i, buckets.getD i 0 = if o ≤ i then counts.getD (i - o) 0 else 0

theorem placed_self_iff {o : ℕ} {counts : List ℕ} :
    Placed o counts counts ↔ o = 0 ∨ counts.sum = 0 := by
  apply Iff.intro
  · intro h
    by_contra hne
    rw [not_or] at hne
    obtain ⟨k, hk, hmin⟩ := exists_first hne.2
    have hplace := h k
    by_cases hok : o ≤ k
    · rw [if_pos hok] at hplace
      have hle := hmin (k - o) (by omega)
      omega
    · rw [if_neg hok] at hplace
      exact hk hplace
  · intro h i
    rcases h with rfl | hsum
    · rw [if_pos (Nat.zero_le i), Nat.sub_zero]
    · have hzero (k : ℕ) : counts.getD k 0 = 0 := by
        by_contra hk
        exact sum_ne_zero.2 ⟨k, hk⟩ hsum
      rw [hzero i, hzero (i - o), ite_self]

end Placement

section Values

/-- The samples of a point can all be positive. -/
def AllPositive (p : Json ℝ) : Prop :=
  ∃ xs, Describes 0 p xs ∧ (pointCounts p).sum ≠ 0 ∧ ∀ x ∈ xs, 0 < x

/-- The bucket at the rank of `q`, its index taken modulo 64, is not below every occupied
bucket. -/
def RankKept (q : ℝ) (counts : List ℕ) : Prop :=
  ∀ r, rank q counts = some r → ∃ k, k ≤ r % 64 ∧ counts.getD k 0 ≠ 0

/-- The midpoints at indices modulo 64 are on average not below every occupied bucket. -/
def MeanKept (counts : List ℕ) : Prop :=
  ∃ k, counts.getD k 0 ≠ 0 ∧ counts.sum * (2 : ℝ) ^ k ≤ weighted midpoint 0 counts

/-- The buckets whose index does not fit the shift do no harm. -/
structure Unwrapped (p : Json ℝ) : Prop where
  p50 : RankKept (1 / 2) (pointCounts p)
  p99 : RankKept (99 / 100) (pointCounts p)
  mean : p.getF64 "sum" = none → MeanKept (pointCounts p)

theorem rankKept_of_lt {q : ℝ} {counts : List ℕ} (hq : 0 < q) (hocc : counts.sum ≠ 0)
    (h : ∀ k, counts.getD k 0 ≠ 0 → k < 64) : RankKept q counts := by
  intro r hr
  have hoccr := rank_occupied hq hocc hr
  have hr64 := h r hoccr
  exact ⟨r, by omega, hoccr⟩

/-- No count at an index from 64 on is enough. -/
theorem unwrapped_of_lt {p : Json ℝ} (hocc : (pointCounts p).sum ≠ 0)
    (h : ∀ k, (pointCounts p).getD k 0 ≠ 0 → k < 64) : Unwrapped p := by
  refine ⟨rankKept_of_lt (by norm_num) hocc h, rankKept_of_lt (by norm_num) hocc h, fun _ => ?_⟩
  obtain ⟨k, hk, hmin⟩ := exists_first hocc
  refine ⟨k, hk, le_weighted fun l hl => ?_⟩
  have hkl := hmin l hl
  have hl64 := h l hl
  exact pow_le_midpoint_iff.2 (by omega)

variable [Build]

/-- Wherever the data's statistics come out, they lie in every range that covers the
point. -/
def StatsWithin (o : ℕ) (p data : Json ℝ) : Prop :=
  ∀ xs low high mean p50 p99, Describes o p xs → (pointCounts p).sum ≠ 0 →
    Covers o p xs low high → histogramStats data = .ok (mean, p50, p99) →
    mean ∈ Set.Icc low high ∧ p50 ∈ Set.Icc low high ∧ p99 ∈ Set.Icc low high

variable {p : Json ℝ} {xs : List ℝ} {low high : ℝ}

theorem log2MeanOf_imported (hpos : 0 < pointTotal p) {v : ℝ} :
    log2MeanOf (importedData p) (pointBuckets p) = .ok v ↔
      (∃ s, p.getF64 "sum" = some s ∧ v = s / (pointTotal p : ℝ)) ∨
        (p.getF64 "sum" = none ∧ log2Mean (pointBuckets p) = .ok v) := by
  have hcast : (0 : ℝ) < (pointTotal p : ℝ) := by exact_mod_cast hpos
  unfold log2MeanOf
  rw [sum_imported, count_imported]
  cases p.getF64 "sum" with
  | none => simp
  | some s =>
    change (if (0 : ℝ) < (pointTotal p : ℝ) then pure (s / (pointTotal p : ℝ)) else _) = _ ↔ _
    rw [if_pos hcast, Results.pure_eq_ok]
    simp [eq_comm]

theorem midpoint_within (h : Describes 0 p xs) (hocc : (pointCounts p).sum ≠ 0)
    (hc : Covers 0 p xs low high) {q : ℝ} (hq : 0 < q) {r : ℕ}
    (hr : rank q (pointCounts p) = some r) (hshift : shiftable r)
    (hkept : Build.overflowChecks = false → AllPositive p → RankKept q (pointCounts p)) :
    midpoint r ∈ Set.Icc low high := by
  obtain ⟨hlow, hhigh⟩ := hc.bins r (rank_occupied hq hocc hr)
  rw [Nat.zero_add] at hlow hhigh
  refine ⟨?_, (midpoint_le r).trans hhigh⟩
  cases hchecks : (Build.overflowChecks : Bool) with
  | true =>
    have hr64 : r < 64 := hshift hchecks
    exact hlow.trans (pow_le_midpoint_iff.2 (by omega))
  | false =>
    by_cases hall : ∀ x ∈ xs, 0 < x
    · obtain ⟨k, hk, hocck⟩ := hkept hchecks ⟨xs, h, hocc, hall⟩ r hr
      have hlowk := (hc.bins k hocck).1
      rw [Nat.zero_add] at hlowk
      exact hlowk.trans (pow_le_midpoint_iff.2 hk)
    · exact (hc.low_nonpos hall).trans (midpoint_pos r).le

theorem weighted_within (h : Describes 0 p xs) (hocc : (pointCounts p).sum ≠ 0)
    (hc : Covers 0 p xs low high) (hshift : ∀ k < (pointBuckets p).length, shiftable k)
    (hkept : Build.overflowChecks = false → AllPositive p → MeanKept (pointCounts p)) :
    weighted midpoint 0 (pointCounts p) / (pointCounts p).sum ∈ Set.Icc low high := by
  have hpos : (0 : ℝ) < (pointCounts p).sum := by exact_mod_cast Nat.pos_of_ne_zero hocc
  have hbins (k : ℕ) (hk : (pointCounts p).getD k 0 ≠ 0) :
      low ≤ 2 ^ k ∧ 2 ^ (k + 1) ≤ high := by
    have hbin := hc.bins k hk
    rwa [Nat.zero_add] at hbin
  have hhigh : weighted midpoint 0 (pointCounts p) ≤ (pointCounts p).sum * high := by
    apply weighted_le
    intro k hk
    rw [Nat.zero_add]
    exact (midpoint_le k).trans (hbins k hk).2
  have hlow : (pointCounts p).sum * low ≤ weighted midpoint 0 (pointCounts p) := by
    cases hchecks : (Build.overflowChecks : Bool) with
    | true =>
      apply le_weighted
      intro k hk
      have hlen : (pointCounts p).length = (pointBuckets p).length := List.length_map _
      have hk64 : k < 64 := hshift k (hlen ▸ lt_length_of_getD hk) hchecks
      rw [Nat.zero_add]
      exact (hbins k hk).1.trans (pow_le_midpoint_iff.2 (by omega))
    | false =>
      by_cases hall : ∀ x ∈ xs, 0 < x
      · obtain ⟨k, hk, hmean⟩ := hkept hchecks ⟨xs, h, hocc, hall⟩
        exact (mul_le_mul_of_nonneg_left (hbins k hk).1 hpos.le).trans hmean
      · apply le_weighted
        intro k _
        exact (hc.low_nonpos hall).trans (midpoint_pos _).le
  rw [Set.mem_Icc, le_div_iff₀ hpos, div_le_iff₀ hpos]
  exact ⟨by linarith, by linarith⟩

/-- The statistics of imported data, one by one. -/
theorem importedStats_eq_ok (h : Describes 0 p xs) (hocc : (pointCounts p).sum ≠ 0)
    {mean p50 p99 : ℝ} :
    histogramStats (importedData p) = .ok (mean, p50, p99) ↔
      log2MeanOf (importedData p) (pointBuckets p) = .ok mean ∧
        (∃ r, rank (1 / 2) (pointCounts p) = some r ∧ shiftable r ∧ p50 = midpoint r) ∧
        ∃ r, rank (99 / 100) (pointCounts p) = some r ∧ shiftable r ∧ p99 = midpoint r := by
  have hlayout : (importedData p).getStr "layout" = some "log2" := rfl
  rw [log2Stats_eq_ok hlayout, bucketsOf_imported]
  have h50 := log2Percentile_eq_ok (v := p50) (show (0 : ℝ) < 1 / 2 by norm_num) (by norm_num)
    h.sum_lt hocc
  have h99 := log2Percentile_eq_ok (v := p99) (show (0 : ℝ) < 99 / 100 by norm_num) (by norm_num)
    h.sum_lt hocc
  exact and_congr Iff.rfl (and_congr h50 h99)

theorem exists_mean (h : Describes 0 p xs) (hocc : (pointCounts p).sum ≠ 0)
    (hshift : ∀ i, shiftable i) :
    ∃ mean, log2MeanOf (importedData p) (pointBuckets p) = .ok mean ∧
      (p.getF64 "sum" = none →
        mean = weighted midpoint 0 (pointCounts p) / (pointCounts p).sum) := by
  have hpos := h.total_pos hocc
  cases hs : p.getF64 "sum" with
  | none =>
    have hvalue := (log2Mean_eq_ok h.sum_lt hocc).2 ⟨fun k _ => hshift k, rfl⟩
    exact ⟨_, (log2MeanOf_imported hpos).2 (.inr ⟨hs, hvalue⟩), fun _ => rfl⟩
  | some s =>
    have hvalue := (log2MeanOf_imported hpos).2 (.inl ⟨s, hs, rfl⟩)
    exact ⟨_, hvalue, fun hnone => absurd hnone (by simp)⟩

/-- The least range that covers positive samples starts at the first occupied bucket. -/
theorem unwrapped_of_within (hchecks : Build.overflowChecks = false) (hall : AllPositive p)
    (hwithin : StatsWithin 0 p (importedData p)) : Unwrapped p := by
  obtain ⟨xs, h, hocc, hpositive⟩ := hall
  have hshift (i : ℕ) : shiftable i := fun hon => by rw [hchecks] at hon; cases hon
  obtain ⟨k, hk, hmin⟩ := exists_first hocc
  have hc : Covers 0 p xs _ _ := Describes.covers_first hpositive hmin
  obtain ⟨r50, hr50⟩ := exists_rank (q := 1 / 2) (by norm_num) (by norm_num) hocc
  obtain ⟨r99, hr99⟩ := exists_rank (q := 99 / 100) (by norm_num) (by norm_num) hocc
  obtain ⟨mean, hmean, hvalue⟩ := exists_mean h hocc hshift
  have hstats := (importedStats_eq_ok h hocc).2
    ⟨hmean, ⟨r50, hr50, hshift r50, rfl⟩, r99, hr99, hshift r99, rfl⟩
  obtain ⟨hm, h50, h99⟩ := hwithin xs _ _ mean _ _ h hocc hc hstats
  rw [Nat.zero_add] at hm h50 h99
  refine ⟨?_, ?_, fun hs => ⟨k, hk, ?_⟩⟩
  · intro r hr
    rw [hr50, Option.some.injEq] at hr
    exact ⟨k, pow_le_midpoint_iff.1 (hr ▸ h50.1), hk⟩
  · intro r hr
    rw [hr99, Option.some.injEq] at hr
    exact ⟨k, pow_le_midpoint_iff.1 (hr ▸ h99.1), hk⟩
  · have hpos : (0 : ℝ) < (pointCounts p).sum := by exact_mod_cast Nat.pos_of_ne_zero hocc
    have hlow := hm.1
    rw [hvalue hs, le_div_iff₀ hpos] at hlow
    linarith

/-- The statistics of imported data stay in range exactly when a build that masks the
shift amount finds nothing to mask that would matter. -/
theorem statsWithin_iff :
    StatsWithin 0 p (importedData p) ↔
      (Build.overflowChecks = false → AllPositive p → Unwrapped p) := by
  apply Iff.intro
  · intro hwithin hchecks hall
    exact unwrapped_of_within hchecks hall hwithin
  · intro hkept xs low high mean p50 p99 h hocc hc hstats
    obtain ⟨hmean, ⟨r50, hr50, hs50, rfl⟩, r99, hr99, hs99, rfl⟩ :=
      (importedStats_eq_ok h hocc).1 hstats
    refine ⟨?_, ?_, ?_⟩
    · rcases (log2MeanOf_imported (h.total_pos hocc)).1 hmean with ⟨s, hs, rfl⟩ | ⟨hs, hmean⟩
      · exact h.mean_mem hc (h.total_pos hocc) hs
      · obtain ⟨hshift, rfl⟩ := (log2Mean_eq_ok h.sum_lt hocc).1 hmean
        exact weighted_within h hocc hc hshift fun hoff hall => (hkept hoff hall).mean hs
    · exact midpoint_within h hocc hc (by norm_num) hr50 hs50 fun hoff hall => (hkept hoff hall).p50
    · exact midpoint_within h hocc hc (by norm_num) hr99 hs99 fun hoff hall => (hkept hoff hall).p99

end Values

section Import

variable [Build]

/-- What the import owes the data point `p` of the metric `m`: at scale 0 a log2 series with
the counts from bucket `o` on, and statistics in range; at another scale no series with the
same counts index for index. -/
structure PointKept (doc m p : Json ℝ) : Prop where
  placed : ∀ o : ℕ, pointScale p = some 0 → pointOffset p = some (o : ℤ) →
    ∃ s data, s ∈ importSeries doc ∧ ImportedAs m p s ∧ Log2Series s data ∧
      Placed o (pointCounts p) (countsOf (bucketsOf data)) ∧ StatsWithin o p data
  rescaled : ∀ k s data, pointScale p = some k → k ≠ 0 → ImportedAs m p s →
    s.get "data" = some data → (pointCounts p).sum ≠ 0 →
    countsOf (bucketsOf data) ≠ pointCounts p

/-- Every data point of every exponential histogram of a document is kept. -/
def ExpoKept (doc : Json ℝ) : Prop :=
  ∀ m ∈ otlpMetrics doc, ∀ p ∈ expoPoints m, PointKept doc m p

/-- A point the import does right by: at scale 0 the first point of a metric that is not a
probe's, with no offset or no count, and in a build that masks the shift amount with no count
where that would matter; at another scale a point that is not taken, or has no count. -/
structure PointSafe (m p : Json ℝ) : Prop where
  placed : ∀ o : ℕ, pointScale p = some 0 → pointOffset p = some (o : ℤ) →
    Taken m p ∧ (o = 0 ∨ (pointCounts p).sum = 0) ∧
      (Build.overflowChecks = false → AllPositive p → Unwrapped p)
  rescaled : ∀ k, pointScale p = some k → k ≠ 0 → Taken m p → (pointCounts p).sum = 0

variable {doc m p : Json ℝ}

omit [Build] in
theorem mem_importSeries {s : Json ℝ} (hm : m ∈ otlpMetrics doc) (hs : importMetric m = some s) :
    s ∈ importSeries doc := by
  rw [importSeries_eq]
  exact List.mem_filterMap.2 ⟨m, hm, hs⟩

theorem statsWithin_of_empty {o : ℕ} {data : Json ℝ} (h : (pointCounts p).sum = 0) :
    StatsWithin o p data := fun _ _ _ _ _ _ _ hocc => absurd h hocc

omit [Build] in
theorem not_allPositive (h : (pointCounts p).sum = 0) : ¬ AllPositive p := by
  intro h
  obtain ⟨xs, -, hocc, -⟩ := h
  exact hocc h

theorem pointKept_iff (hm : m ∈ otlpMetrics doc) : PointKept doc m p ↔ PointSafe m p := by
  apply Iff.intro
  · intro h
    refine ⟨fun o hscale hoffset => ?_, fun k hscale hk htaken => ?_⟩
    · obtain ⟨s, data, -, himp, hlog2, hplaced, hstats⟩ := h.placed o hscale hoffset
      obtain rfl := hlog2.data_eq himp.log2
      rw [bucketsOf_imported] at hplaced
      refine ⟨himp.taken, placed_self_iff.1 hplaced, ?_⟩
      rcases placed_self_iff.1 hplaced with rfl | hnone
      · exact statsWithin_iff.1 hstats
      · exact fun _ hall => absurd hall (not_allPositive hnone)
    · by_contra hocc
      obtain ⟨s, himp, hlog2⟩ := exists_importedAs htaken
      exact h.rescaled k s _ hscale hk himp hlog2.content hocc (by rw [bucketsOf_imported]; rfl)
  · intro h
    refine ⟨fun o hscale hoffset => ?_, fun k s data hscale hk himp _ hocc => ?_⟩
    · obtain ⟨htaken, hplaced, hkept⟩ := h.placed o hscale hoffset
      obtain ⟨s, himp, hlog2⟩ := exists_importedAs htaken
      refine ⟨s, importedData p, mem_importSeries hm himp.2, himp, hlog2, ?_, ?_⟩
      · rw [bucketsOf_imported]
        exact placed_self_iff.2 hplaced
      · rcases hplaced with rfl | hnone
        · exact statsWithin_iff.2 hkept
        · exact statsWithin_of_empty hnone
    · exact absurd (h.rescaled k hscale hk himp.taken) hocc

/-- The points of a document are kept exactly when each is one the import does right by. -/
theorem expoKept_iff (doc : Json ℝ) :
    ExpoKept doc ↔ ∀ m ∈ otlpMetrics doc, ∀ p ∈ expoPoints m, PointSafe m p :=
  forall₂_congr fun _ hm => forall₂_congr fun _ _ => pointKept_iff hm

end Import

section Offset

attribute [local instance] releaseBuild

/-- Three samples above 1024 and up to 2048. -/
def offsetPoint : Json ℝ :=
  .object [("count", .string "3"), ("scale", .nat 0),
    ("positive", .object [("offset", .nat 10), ("bucketCounts", .array [.string "3"])])]

def offsetMetric : Json ℝ :=
  .object [("name", .string "latency"), ("exponentialHistogram",
    .object [("dataPoints", .array [offsetPoint])])]

def offsetDoc : Json ℝ :=
  .object [("resourceMetrics", .array [.object [("scopeMetrics",
    .array [.object [("metrics", .array [offsetMetric])]])]])]

/-- The three samples come back in bucket 0. -/
theorem offset_ignored : ¬ ExpoKept offsetDoc := by
  intro h
  have hmetrics : otlpMetrics offsetDoc = [offsetMetric] := rfl
  have hpoints : expoPoints offsetMetric = [offsetPoint] := rfl
  have hscale : pointScale offsetPoint = some 0 := rfl
  have hoffset : pointOffset offsetPoint = some ((10 : ℕ) : ℤ) := rfl
  have hcounts : pointCounts offsetPoint = [3] := by decide
  have hkept := h offsetMetric (by rw [hmetrics]; exact List.mem_singleton_self _)
    offsetPoint (by rw [hpoints]; exact List.mem_singleton_self _)
  obtain ⟨s, data, -, himp, hlog2, hplaced, -⟩ := hkept.placed 10 hscale hoffset
  obtain rfl := hlog2.data_eq himp.log2
  have hfirst := hplaced 0
  rw [bucketsOf_imported] at hfirst
  change (pointCounts offsetPoint).getD 0 0 = _ at hfirst
  rw [hcounts] at hfirst
  exact absurd hfirst (by decide)

end Offset

end Assayist
