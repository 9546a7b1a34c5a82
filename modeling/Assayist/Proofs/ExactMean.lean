import Assayist.Proofs.Exact
import Assayist.Proofs.Explicit

/-! The mean of a histogram that carries the sum and the count of its observations. The log2
layout divides the two; the explicit layout goes by its buckets all the same. -/

namespace Assayist

open Histograms

section Stats

variable [Build] {data : Json ℝ} {m p50 p99 : ℝ}

/-- The mean an explicit histogram gets from its buckets. -/
noncomputable def bucketMean (data : Json ℝ) : ℝ :=
  let counts := countsOf (bucketsIn data)
  if counts.sum % 2 ^ 64 = 0 then 0
  else weighted (estimate (boundsIn data)) 0 counts / ((counts.sum % 2 ^ 64 : ℕ) : ℝ)

theorem explicitMean_value (h : explicitMean (bucketsIn data) (boundsIn data) = .ok m) :
    m = bucketMean data := by
  obtain ⟨total, htotal, -⟩ := Results.bind_eq_ok.1 h
  obtain ⟨hnat, -⟩ := wraps_of_sumU64 htotal
  unfold explicitMean at h
  rw [htotal] at h
  change (if total = 0 then pure 0 else explicitWeighted (boundsIn data) 0 0 (bucketsIn data) >>=
    fun acc => pure (acc / (total.toNat : ℝ))) = .ok m at h
  unfold bucketMean
  simp only [← hnat, ← eq_zero_iff_of_toNat (rfl : total.toNat = total.toNat)]
  by_cases hzero : total = 0
  · rw [if_pos hzero] at h ⊢
    exact (Results.pure_eq_ok.1 h).symm
  · rw [if_neg hzero] at h ⊢
    obtain ⟨acc, hacc, hm⟩ := Results.bind_eq_ok.1 h
    have hlen := exists_explicitWeighted.1 ⟨acc, hacc⟩
    rw [explicitWeighted_eq hlen, zero_add, Except.ok.injEq] at hacc
    rw [← Results.pure_eq_ok.1 hm, hacc]

omit [Build] in
theorem layout_explicit_iff :
    ((data.getStr "layout").getD "log2" == "explicit") = true ↔
      data.getStr "layout" = some "explicit" := by
  rw [beq_iff_eq]
  cases data.getStr "layout" with
  | none => simp
  | some l => simp

theorem explicitStats_eq_ok (hlayout : data.getStr "layout" = some "explicit") :
    histogramStats data = .ok (m, p50, p99) ↔
      explicitMean (bucketsIn data) (boundsIn data) = .ok m ∧
      explicitPercentile (bucketsIn data) (boundsIn data) (1 / 2) = .ok p50 ∧
      explicitPercentile (bucketsIn data) (boundsIn data) (99 / 100) = .ok p99 := by
  unfold histogramStats
  simp only [layout_explicit_iff, if_pos hlayout, Results.bind_eq_ok, Results.pure_eq_ok,
    Prod.mk.injEq]
  apply Iff.intro
  · intro h
    obtain ⟨_, hm, _, hp, _, hq, rfl, rfl, rfl⟩ := h
    exact ⟨hm, hp, hq⟩
  · intro h
    obtain ⟨hm, hp, hq⟩ := h
    exact ⟨_, hm, _, hp, _, hq, rfl, rfl, rfl⟩

theorem log2MeanOf_stats (hlayout : data.getStr "layout" ≠ some "explicit")
    (h : histogramStats data = .ok (m, p50, p99)) :
    log2MeanOf data (bucketsIn data) = .ok m := by
  unfold histogramStats at h
  simp only [layout_explicit_iff, if_neg hlayout, Results.bind_eq_ok, Results.pure_eq_ok,
    Prod.mk.injEq] at h
  obtain ⟨_, hm, _, -, _, -, rfl, -, -⟩ := h
  exact hm

end Stats

section Series

variable [FloatText ℝ] [Build] {run s data : Json ℝ} {sum count : ℝ}

/-- A histogram series that carries the sum and the positive count of its observations. -/
structure Summed (s data : Json ℝ) (sum count : ℝ) : Prop where
  kind : s.getStr "kind" = some "histogram"
  holds : s.get "data" = some data
  summed : data.getF64 "sum" = some sum
  counted : data.getF64 "count" = some count
  positive : 0 < count

/-- Every mean that `reduce` emits for a series of a run is a given one. -/
def EmitsMean (run s : Json ℝ) (mean : ℝ) : Prop :=
  ∀ part, metricsOf run s = .ok part → ∀ m ∈ part,
    m.id = (seriesHead (overbudgetSources run) (globalOverflow run) s).base ++ "|mean" →
      m.value = mean

theorem metricsOf_histogram (hkind : s.getStr "kind" = some "histogram")
    (hdata : s.get "data" = some data) {part : List (Metric ℝ)} :
    metricsOf run s = .ok part ↔ ∃ m p50 p99, histogramStats data = .ok (m, p50, p99) ∧
      part = List.zipWith (seriesHead (overbudgetSources run) (globalOverflow run) s).metric
        ["mean", "p50", "p99"] [m, p50, p99] := by
  unfold metricsOf seriesMetrics
  simp only [hdata, hkind, Option.getD_some, BEq.rfl, if_true]
  rw [Results.bind_eq_ok]
  simp only [Results.pure_eq_ok, Prod.exists]
  apply Iff.intro
  · intro h
    obtain ⟨m, p50, p99, hstats, rfl⟩ := h
    exact ⟨m, p50, p99, hstats, rfl⟩
  · intro h
    obtain ⟨m, p50, p99, hstats, rfl⟩ := h
    exact ⟨m, p50, p99, hstats, rfl⟩

theorem emitsMean_iff (hkind : s.getStr "kind" = some "histogram")
    (hdata : s.get "data" = some data) {mean : ℝ} :
    EmitsMean run s mean ↔ ∀ m p50 p99, histogramStats data = .ok (m, p50, p99) → m = mean := by
  have hid (base field : String) : base ++ "|" ++ field = base ++ "|mean" ↔ field = "mean" := by
    rw [show ("|mean" : String) = "|" ++ "mean" from rfl, ← String.append_assoc,
      String.append_right_inj]
  unfold EmitsMean
  simp only [metricsOf_histogram hkind hdata]
  apply Iff.intro
  · intro h m p50 p99 hstats
    exact h _ ⟨m, p50, p99, hstats, rfl⟩ _ (List.mem_cons_self ..) ((hid _ _).2 rfl)
  · intro h part hpart metric hmem hmean
    obtain ⟨m, p50, p99, hstats, rfl⟩ := hpart
    simp only [List.zipWith_cons_cons, List.zipWith_nil_left, List.mem_cons, List.not_mem_nil,
      or_false] at hmem
    rcases hmem with rfl | rfl | rfl
    · exact h m p50 p99 hstats
    · exact absurd ((hid _ _).1 hmean) (by decide)
    · exact absurd ((hid _ _).1 hmean) (by decide)

/-- A histogram of the explicit layout gets its mean from its buckets; the series is reduced
when its counts do not overflow and its buckets have bounds. -/
structure Estimated (data : Json ℝ) : Prop where
  layout : data.getStr "layout" = some "explicit"
  fits : Build.overflowChecks = true → (countsOf (bucketsIn data)).sum < 2 ^ 64
  covered : covered (bucketsIn data) (boundsIn data)

omit [FloatText ℝ] in
theorem Estimated.stats (h : Estimated data) :
    ∃ p50 p99, histogramStats data = .ok (bucketMean data, p50, p99) := by
  obtain ⟨m, hm⟩ := exists_explicitMean.2 ⟨h.fits, h.covered⟩
  obtain ⟨p50, hp50⟩ := exists_explicitPercentile (q := (1 / 2 : ℝ)) h.fits h.covered
  obtain ⟨p99, hp99⟩ := exists_explicitPercentile (q := (99 / 100 : ℝ)) h.fits h.covered
  rw [explicitMean_value hm] at hm
  exact ⟨p50, p99, (explicitStats_eq_ok h.layout).2 ⟨hm, hp50, hp99⟩⟩

theorem Summed.mean_iff (h : Summed s data sum count) :
    EmitsMean run s (sum / count) ↔ (Estimated data → bucketMean data = sum / count) := by
  rw [emitsMean_iff h.kind h.holds]
  apply Iff.intro
  · intro hmean hest
    obtain ⟨p50, p99, hstats⟩ := hest.stats
    exact hmean _ _ _ hstats
  · intro hagree m p50 p99 hstats
    by_cases hlayout : data.getStr "layout" = some "explicit"
    · obtain ⟨hm, -, -⟩ := (explicitStats_eq_ok hlayout).1 hstats
      obtain ⟨hfits, hcovered⟩ := exists_explicitMean.1 ⟨m, hm⟩
      rw [explicitMean_value hm]
      exact hagree ⟨hlayout, hfits, hcovered⟩
    · have hm := log2MeanOf_stats hlayout hstats
      rw [log2MeanOf, h.summed, h.counted] at hm
      simp only [if_pos h.positive] at hm
      exact (Results.pure_eq_ok.1 hm).symm

/-- Data with the layout, the buckets and the bounds of other data. -/
structure SameBuckets (data data' : Json ℝ) : Prop where
  layout : data'.getStr "layout" = data.getStr "layout"
  buckets : bucketsIn data' = bucketsIn data
  bounds : boundsIn data' = boundsIn data

omit [FloatText ℝ] [Build] in
theorem SameBuckets.symm {data' : Json ℝ} (h : SameBuckets data data') :
    SameBuckets data' data :=
  ⟨h.layout.symm, h.buckets.symm, h.bounds.symm⟩

omit [FloatText ℝ] in
theorem SameBuckets.estimated {data' : Json ℝ} (h : SameBuckets data data')
    (h' : Estimated data') : Estimated data where
  layout := h.layout.symm.trans h'.layout
  fits := h.buckets ▸ h'.fits
  covered := h.buckets ▸ h.bounds ▸ h'.covered

/-- An explicit histogram over the same buckets, with another sum and count. -/
noncomputable def resummed (data : Json ℝ) (sum count : ℝ) : Json ℝ :=
  .object [("layout", .string "explicit"), ("buckets", .array ((bucketsIn data).map .nat)),
    ("explicit_bounds", .array ((boundsIn data).map fun b => .number (.float b))),
    ("sum", .number (.float sum)), ("count", .number (.float count))]

omit [FloatText ℝ] [Build] in
theorem resummed_buckets (hlayout : data.getStr "layout" = some "explicit") (sum count : ℝ) :
    SameBuckets data (resummed data sum count) where
  layout := hlayout.symm
  buckets := by
    have hread : bucketsIn (resummed data sum count) =
        ((bucketsIn data).map Json.nat).filterMap (Json.asU64 (F := ℝ)) := rfl
    rw [hread, List.filterMap_map]
    exact List.filterMap_some
  bounds := by
    have hread : boundsIn (resummed data sum count) =
        ((boundsIn data).map fun b => .number (.float b)).filterMap Json.asF64 := rfl
    rw [hread, List.filterMap_map]
    exact List.filterMap_some

omit [FloatText ℝ] [Build] in
theorem resummed_summed (data : Json ℝ) (sum : ℝ) (hcount : 0 < count) :
    Summed (.object [("kind", .string "histogram"), ("data", resummed data sum count)])
      (resummed data sum count) sum count where
  kind := rfl
  holds := rfl
  summed := rfl
  counted := rfl
  positive := hcount

omit [FloatText ℝ] [Build] in
theorem SameBuckets.bucketMean_eq {data' : Json ℝ} (h : SameBuckets data data') :
    bucketMean data' = bucketMean data := by
  unfold bucketMean
  rw [h.buckets, h.bounds]

/-- The mean of a series that carries its sum and count is their quotient when its layout is
not the explicit one, or when it is not reduced; series with one sum and count then have one
mean. Of the buckets, the bounds and the count nothing less will do for every sum. -/
theorem emitsMean_exactly (run s data : Json ℝ) {sum count : ℝ} (h : Summed s data sum count) :
    (¬ Estimated data → EmitsMean run s (sum / count)) ∧
    (¬ Estimated data → ∀ run' s' data' : Json ℝ, Summed s' data' sum count →
      ¬ Estimated data' → ∃ mean, EmitsMean run s mean ∧ EmitsMean run' s' mean) ∧
    ((∀ s' data' : Json ℝ, ∀ sum', Summed s' data' sum' count → SameBuckets data data' →
      EmitsMean run s' (sum' / count)) ↔ ¬ Estimated data) := by
  refine ⟨fun hnot => h.mean_iff.2 fun hest => absurd hest hnot, ?_, ?_⟩
  · intro hnot run' s' data' h' hnot'
    exact ⟨sum / count, h.mean_iff.2 fun hest => absurd hest hnot,
      h'.mean_iff.2 fun hest => absurd hest hnot'⟩
  · apply Iff.intro
    · intro hall hest
      -- the sum that puts the mean off by one from the buckets'
      have hsame := resummed_buckets hest.layout ((bucketMean data + 1) * count) count
      have hsummed := resummed_summed data ((bucketMean data + 1) * count) h.positive
      have hmean := hsummed.mean_iff.1 (hall _ _ _ hsummed hsame) (hsame.symm.estimated hest)
      rw [hsame.bucketMean_eq, mul_div_cancel_right₀ _ h.positive.ne'] at hmean
      linarith
    · intro hnot s' data' sum' h' hsame
      exact h'.mean_iff.2 fun hest => absurd (hsame.estimated hest) hnot

end Series

section Bucketings

attribute [local instance] releaseBuild wholeText

/-- Ten latencies that add up to 1200, so many of them on either side of a bound. -/
def latencies (layout : String) (below above bound : UInt64) : Json ℝ :=
  .object [("layout", .string layout), ("buckets", .array [.nat below, .nat above]),
    ("explicit_bounds", .array [.nat bound]), ("sum", .nat 1200), ("count", .nat 10)]

def latencySeries (layout : String) (below above bound : UInt64) : Json ℝ :=
  .object [("name", .string "blk.latency"), ("unit", .string "ns"), ("kind", .string "histogram"),
    ("data", latencies layout below above bound)]

theorem latencies_summed (layout : String) (below above bound : UInt64) :
    Summed (latencySeries layout below above bound) (latencies layout below above bound)
      1200 10 := by
  have hsum : (((1200 : UInt64).toNat : ℕ) : ℝ) = 1200 := Nat.cast_ofNat
  have hcount : (((10 : UInt64).toNat : ℕ) : ℝ) = 10 := Nat.cast_ofNat
  exact ⟨rfl, rfl, congrArg some hsum, congrArg some hcount, by norm_num⟩

theorem latencies_not_estimated (below above bound : UInt64) :
    ¬ Estimated (latencies "log2" below above bound) :=
  fun h => absurd (Option.some.inj h.layout) (by decide)

theorem bucketings_agree :
    EmitsMean .null (latencySeries "log2" 0 10 100) (1200 / 10) ∧
    ∃ mean, EmitsMean .null (latencySeries "log2" 0 10 100) mean ∧
      EmitsMean .null (latencySeries "log2" 7 3 200) mean := by
  have hnot := latencies_not_estimated 0 10 100
  obtain ⟨hmean, hsame, -⟩ :=
    emitsMean_exactly .null _ _ (latencies_summed "log2" 0 10 100)
  exact ⟨hmean hnot, hsame hnot .null _ _ (latencies_summed "log2" 7 3 200)
    (latencies_not_estimated 7 3 200)⟩

theorem bucketMean_latencies (bound : UInt64) :
    bucketMean (latencies "explicit" 0 10 bound) = 3 / 2 * (bound.toNat : ℝ) := by
  have hcounts : countsOf (bucketsIn (latencies "explicit" 0 10 bound)) = [0, 10] := rfl
  have hbounds : boundsIn (latencies "explicit" 0 10 bound) = [(bound.toNat : ℝ)] := rfl
  unfold bucketMean
  rw [hcounts, hbounds]
  norm_num [weighted, estimate, lowEdge, highEdge]
  ring

theorem latencies_estimated (bound : UInt64) :
    Estimated (latencies "explicit" 0 10 bound) where
  layout := rfl
  fits h := by cases h
  covered := .inr le_rfl

/-- In the explicit layout the same latencies have the mean of their bucket. -/
theorem explicit_mean_off :
    Summed (latencySeries "explicit" 0 10 100) (latencies "explicit" 0 10 100) 1200 10 ∧
      ¬ EmitsMean .null (latencySeries "explicit" 0 10 100) (1200 / 10) := by
  refine ⟨latencies_summed _ _ _ _, ?_⟩
  intro h
  have hmean := (latencies_summed "explicit" 0 10 100).mean_iff.1 h (latencies_estimated 100)
  have hbound : (((100 : UInt64).toNat : ℕ) : ℝ) = 100 := Nat.cast_ofNat
  rw [bucketMean_latencies, hbound] at hmean
  norm_num at hmean

end Bucketings

end Assayist
