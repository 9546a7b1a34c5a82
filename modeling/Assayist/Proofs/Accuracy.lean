import Assayist.Lib.Quantiles
import Assayist.Lib.Spread
import Assayist.Proofs.BlockCpus
import Assayist.Proofs.ExactMean
import Assayist.Proofs.Explicit
import Assayist.Proofs.KvmCpus
import Assayist.Proofs.LogLinear
import Assayist.Proofs.Packets
import Assayist.Proofs.RunQueue
import Assayist.Spec.Gadgets
import Assayist.Spec.Reduce

/-! How close the reported metrics are to what happened in the kernel. From the handlers' steps to
the mean and the percentiles that a run reduces to, a latency keeps its bucket and nothing else. -/

namespace Assayist

open Histograms

section Estimates

/-- An estimate between `a` and `b` times the value. -/
def Near (a b x v : ℝ) : Prop := a * x < v ∧ v ≤ b * x

/-- Estimates of some latencies' mean, median and 99th percentile. Those for latencies from `low` on
and below `high` are near. -/
structure Estimates (low high : ℕ) (a b : ℝ) (xs : List ℕ) (m p50 p99 : ℝ) : Prop where
  mean : (∀ x ∈ xs, low ≤ x ∧ x < high) → Near a b (Spread.mean (xs.map (Nat.cast : ℕ → ℝ))) m
  median : ∃ x ∈ xs, AtRank xs ⌈(1 / 2 : ℝ) * xs.length⌉₊ x ∧
    (low ≤ x → x < high → Near a b x p50)
  tail : ∃ x ∈ xs, AtRank xs ⌈(99 / 100 : ℝ) * xs.length⌉₊ x ∧
    (low ≤ x → x < high → Near a b x p99)

structure NearEstimates (a b : ℝ) (xs : List ℕ) (m p50 p99 : ℝ) : Prop where
  mean : Near a b (Spread.mean (xs.map (Nat.cast : ℕ → ℝ))) m
  median : ∃ x ∈ xs, AtRank xs ⌈(1 / 2 : ℝ) * xs.length⌉₊ x ∧ Near a b x p50
  tail : ∃ x ∈ xs, AtRank xs ⌈(99 / 100 : ℝ) * xs.length⌉₊ x ∧ Near a b x p99

variable {a b : ℝ} {xs : List ℕ} {value : ℕ → ℝ}

theorem Estimates.near {low high : ℕ} {m p50 p99 : ℝ} (h : Estimates low high a b xs m p50 p99)
    (hrange : ∀ x ∈ xs, low ≤ x ∧ x < high) : NearEstimates a b xs m p50 p99 where
  mean := h.mean hrange
  median := by
    obtain ⟨x, hx, hrank, hnear⟩ := h.median
    exact ⟨x, hx, hrank, hnear (hrange x hx).1 (hrange x hx).2⟩
  tail := by
    obtain ⟨x, hx, hrank, hnear⟩ := h.tail
    exact ⟨x, hx, hrank, hnear (hrange x hx).1 (hrange x hx).2⟩

theorem near_mean (hne : xs ≠ []) (h : ∀ x ∈ xs, Near a b x (value x)) :
    Near a b (Spread.mean (xs.map (Nat.cast : ℕ → ℝ))) ((xs.map value).sum / xs.length) := by
  have hpos : (0 : ℝ) < xs.length := by exact_mod_cast List.length_pos_iff.2 hne
  have hlow : (xs.map fun x : ℕ => a * (x : ℝ)).sum < (xs.map value).sum :=
    List.sum_lt_sum_of_ne_nil hne _ _ fun x hx => (h x hx).1
  have hhigh : (xs.map value).sum ≤ (xs.map fun x : ℕ => b * (x : ℝ)).sum :=
    List.sum_le_sum fun x hx => (h x hx).2
  rw [List.sum_map_mul_left] at hlow hhigh
  unfold Near Spread.mean
  rw [List.length_map, mul_div_assoc', mul_div_assoc']
  exact ⟨div_lt_div_of_pos_right hlow hpos, div_le_div_of_nonneg_right hhigh hpos.le⟩

variable {bin : ℕ → ℕ} {n : ℕ}

theorem exists_at (hbin : Monotone bin) (hn : ∀ x ∈ xs, bin x < n) (hne : xs ≠ []) {q : ℝ}
    (hq : 0 < q) (hq1 : q ≤ 1) {i : ℕ}
    (hi : IsLeast {i | q * (binned bin n xs).sum ≤ upTo (binned bin n xs) i} i) :
    ∃ x ∈ xs, AtRank xs ⌈q * xs.length⌉₊ x ∧ i = bin x := by
  have hpos : (0 : ℝ) < xs.length := by exact_mod_cast List.length_pos_iff.2 hne
  have hceil : 0 < ⌈q * xs.length⌉₊ := Nat.ceil_pos.2 (mul_pos hq hpos)
  have hle : ⌈q * xs.length⌉₊ ≤ xs.length := Nat.ceil_le.2 (mul_le_of_le_one_left hpos.le hq1)
  simp only [sum_binned hn, ← Nat.ceil_le] at hi
  obtain ⟨x, hx, hrank⟩ := exists_atRank hceil hle
  exact ⟨x, hx, hrank, hi.unique (hrank.bin hbin hn hceil)⟩

/-- What is estimated from the bins alone is near where each bin's value is. -/
theorem Estimates.of_bins (hbin : Monotone bin) (hn : ∀ x ∈ xs, bin x < n) (hne : xs ≠ [])
    {low high : ℕ} (hnear : ∀ x, low ≤ x → x < high → Near a b x (value (bin x))) {i j : ℕ}
    (hi : IsLeast {i | 1 / 2 * (binned bin n xs).sum ≤ (upTo (binned bin n xs) i : ℝ)} i)
    (hj : IsLeast {i | 99 / 100 * (binned bin n xs).sum ≤ (upTo (binned bin n xs) i : ℝ)} j) :
    Estimates low high a b xs (weighted value 0 (binned bin n xs) / (binned bin n xs).sum)
      (value i) (value j) where
  mean h := by
    rw [weighted_binned hn, sum_binned hn]
    exact near_mean hne fun x hx => hnear x (h x hx).1 (h x hx).2
  median := by
    obtain ⟨x, hx, hrank, rfl⟩ := exists_at hbin hn hne (by norm_num) (by norm_num) hi
    exact ⟨x, hx, hrank, hnear x⟩
  tail := by
    obtain ⟨x, hx, hrank, rfl⟩ := exists_at hbin hn hne (by norm_num) (by norm_num) hj
    exact ⟨x, hx, hrank, hnear x⟩

end Estimates

section Slots

variable {α : Type} {slot : α → ℕ} {n : ℕ}

/-- A slot array that fewer than `2^32` were counted in has not wrapped. -/
theorem countsOf_slots {ds : List α} (h : ds.length < 2 ^ 32) :
    countsOf (((List.range n).map fun s => UInt32.ofNat (ds.countP fun d => slot d = s)).map
      UInt32.toUInt64) = binned slot n ds := by
  unfold countsOf binned
  rw [List.map_map, List.map_map]
  apply List.map_congr_left
  intro s _
  have hle : (ds.countP fun d => slot d = s) ≤ ds.length := List.countP_le_length
  change (UInt32.ofNat _).toUInt64.toNat = _
  rw [UInt32.toNat_toUInt64, UInt32.toNat_ofNat_of_lt' (hle.trans_lt h)]

theorem binned_map {β : Type} (f : α → β) (bin : β → ℕ) (n : ℕ) (ds : List α) :
    binned (bin ∘ f) n ds = binned bin n (ds.map f) := by
  unfold binned
  simp only [List.countP_map]
  rfl

theorem u64s_slotsJson {F : Type} (slots : List UInt32) :
    u64s (slotsJson (F := F) slots) = slots.map UInt32.toUInt64 := by
  unfold u64s slotsJson
  rw [Json.asArray, Option.getD_some, List.filterMap_map]
  exact congrFun List.filterMap_eq_map slots

end Slots

section Octaves

open BlockGadget

theorem octave_mono : Monotone octave :=
  fun _ _ h => min_le_min_right _ (Nat.log_mono_right h)

theorem near_middle {x : ℕ} (h : 1 ≤ x) (hx : x < 2 ^ 40) :
    Near (3 / 4) (3 / 2) x (middle (octave x)) := by
  have hlog : Nat.log 2 x < 40 := Nat.log_lt_of_lt_pow (by omega) hx
  have hoctave : octave x = Nat.log 2 x := by
    unfold octave maxOctaves
    omega
  have hlow : ((2 ^ Nat.log 2 x : ℕ) : ℝ) ≤ x := Nat.cast_le.2 (Nat.pow_log_le_self 2 (by omega))
  have hhigh : (x : ℝ) < ((2 ^ (Nat.log 2 x + 1) : ℕ) : ℝ) :=
    Nat.cast_lt.2 (Nat.lt_pow_succ_log_self Nat.one_lt_two x)
  push_cast [pow_succ] at hlow hhigh
  rw [hoctave, Near, middle]
  exact ⟨by linarith, by linarith⟩

/-- A latency as the octaves know it: below 1 and from `2^40` on it counts as at the edge. -/
def clamped (x : ℕ) : ℕ := max 1 (min x (2 ^ 40 - 1))

theorem clamped_range (x : ℕ) : 1 ≤ clamped x ∧ clamped x < 2 ^ 40 := by
  unfold clamped
  omega

theorem clamped_eq {x : ℕ} (h : 1 ≤ x) (hx : x < 2 ^ 40) : clamped x = x := by
  unfold clamped
  omega

theorem octave_clamped (x : ℕ) : octave (clamped x) = octave x := by
  rcases Nat.lt_or_ge x 1 with hlow | hlow
  · obtain rfl : x = 0 := by omega
    rfl
  · rcases Nat.lt_or_ge x (2 ^ 40) with hhigh | hhigh
    · rw [clamped_eq hlow hhigh]
    · have hedge : clamped x = 2 ^ 40 - 1 := by
        unfold clamped
        omega
      have htop : octave (2 ^ 40 - 1) = 39 := by decide +kernel
      have hmono := octave_mono (show 2 ^ 40 - 1 ≤ x by omega)
      have hlt := octave_lt x
      rw [htop] at hmono
      rw [hedge, htop]
      omega

def clampedOf (ds : List UInt64) : List ℕ := ds.map fun d => clamped d.toNat

/-- A slot of each octave, as the kvm gadget and the scheduler's keep them. -/
def inOctaves (ds : List UInt64) : List UInt32 :=
  (List.range maxOctaves).map fun o => UInt32.ofNat (ds.countP fun d => octave d.toNat = o)

theorem toList_octaves (ds : List UInt64) :
    (Vector.ofFn fun s : Fin KvmGadget.maxSlots =>
      UInt32.ofNat (ds.countP fun d => KvmGadget.bucket d = s)).toList = inOctaves ds := by
  have hbucket (d : UInt64) : KvmGadget.bucket d = octave d.toNat := by
    rw [octave, KvmGadget.bucket, Nat.log2_eq_log_two]
    rfl
  rw [toList_ofFn fun s => UInt32.ofNat (ds.countP fun d => KvmGadget.bucket d = s)]
  simp only [hbucket]
  rfl

variable [Build] {ds : List UInt64}

theorem shiftable_of_length {buckets : List UInt64} (h : buckets.length = 40) :
    Shiftable buckets := by
  refine ⟨fun k hk => ?_, fun _ => by omega⟩
  have hk' := lt_length_of_getD hk
  rw [countsOf, List.length_map] at hk'
  omega

theorem log2_stats (slots : List UInt32) (count : UInt64) :
    histogramStats (log2Data (F := ℝ) slots count) =
      (do
        let m ← log2Mean (slots.map UInt32.toUInt64)
        let p50 ← log2Percentile (slots.map UInt32.toUInt64) (1 / 2)
        let p99 ← log2Percentile (slots.map UInt32.toUInt64) (99 / 100)
        pure (m, p50, p99)) := by
  rw [← u64s_slotsJson (F := ℝ)]
  rfl

/-- What a log2 histogram of some latencies reduces to. -/
theorem log2_estimates (hne : ds ≠ []) (hlt : ds.length < 2 ^ 32) (count : UInt64) :
    ∃ m p50 p99, histogramStats (log2Data (F := ℝ) (inOctaves ds) count) = .ok (m, p50, p99) ∧
      NearEstimates (3 / 4) (3 / 2) (clampedOf ds) m p50 p99 := by
  set buckets := (inOctaves ds).map UInt32.toUInt64 with hbuckets
  have hlen : buckets.length = 40 := by
    rw [hbuckets, List.length_map, inOctaves, List.length_map, List.length_range]
    rfl
  have hbin : ∀ x ∈ clampedOf ds, octave x < maxOctaves := fun x _ => octave_lt x
  have hcounts : countsOf buckets = binned octave maxOctaves (clampedOf ds) := by
    have hsame : (octave ∘ fun d : UInt64 => clamped d.toNat) = fun d => octave d.toNat :=
      funext fun d => octave_clamped d.toNat
    rw [hbuckets, inOctaves, countsOf_slots hlt, clampedOf, ← binned_map, hsame]
  have hsum : (countsOf buckets).sum = ds.length := by
    rw [hcounts, sum_binned hbin, clampedOf, List.length_map]
  have hshift := shiftable_of_length hlen
  have hocc : (countsOf buckets).sum ≠ 0 := by
    rw [hsum]
    exact (List.length_pos_iff.2 hne).ne'
  have hsmall : (countsOf buckets).sum < 2 ^ 64 := by omega
  obtain ⟨i, hi, h50⟩ := percentile_middle (q := 1 / 2) hshift hsmall hocc (by norm_num)
    (by norm_num)
  obtain ⟨j, hj, h99⟩ := percentile_middle (q := 99 / 100) hshift hsmall hocc (by norm_num)
    (by norm_num)
  have hmean : log2Mean buckets =
      .ok (weighted midpoint 0 (countsOf buckets) / (countsOf buckets).sum) :=
    (log2Mean_eq_ok hsmall hocc).2 ⟨forall_shiftable_iff.2 hshift.checked, rfl⟩
  have hstats := log2_stats (inOctaves ds) count
  rw [← hbuckets, hmean, h50, h99] at hstats
  refine ⟨_, _, _, hstats, ?_⟩
  have hweighted : weighted midpoint 0 (countsOf buckets) =
      weighted middle 0 (countsOf buckets) := by
    apply weighted_congr
    intro k hk
    rw [countsOf, List.length_map] at hk
    exact midpoint_eq_middle.2 (by omega)
  rw [hweighted, hcounts]
  rw [hcounts] at hi hj
  have hestimates : Estimates 1 (2 ^ 40) (3 / 4) (3 / 2) (clampedOf ds) _ _ _ :=
    .of_bins octave_mono hbin (by simpa [clampedOf] using hne) (fun x => near_middle) hi hj
  refine hestimates.near fun x hx => ?_
  obtain ⟨d, -, rfl⟩ := List.mem_map.1 hx
  exact clamped_range d.toNat

end Octaves

section Explicit

variable [Build] {data : Json ℝ} {bounds : List ℝ} {bin : ℕ → ℕ} {a b : ℝ} {low high : ℕ}
  {xs : List ℕ}

/-- What an explicit histogram reduces to, where the samples of a range are near the middle of their
bucket. -/
theorem explicit_near (hlayout : data.getStr "layout" = some "explicit")
    (hbounds : boundsIn data = bounds) (hproper : ProperBounds bounds)
    (hcounts : countsOf (bucketsIn data) = binned bin (bounds.length + 1) xs)
    (hbin : Monotone bin) (hn : ∀ x ∈ xs, bin x < bounds.length + 1) (hne : xs ≠ [])
    (hlt : xs.length < 2 ^ 64)
    (hnear : ∀ x, low ≤ x → x < high → Near a b x (estimate bounds (bin x))) :
    ∃ m p50 p99, histogramStats data = .ok (m, p50, p99) ∧
      Estimates low high a b xs m p50 p99 := by
  have hsum : (countsOf (bucketsIn data)).sum = xs.length := by rw [hcounts, sum_binned hn]
  have hocc : (countsOf (bucketsIn data)).sum ≠ 0 := by
    rw [hsum]
    exact (List.length_pos_iff.2 hne).ne'
  have hsmall : (countsOf (bucketsIn data)).sum < 2 ^ 64 := hsum.trans_lt hlt
  have hexplicit : Explicit (bucketsIn data) (boundsIn data) := by
    refine ⟨hbounds ▸ hproper, ?_, hocc⟩
    have hlength := congrArg List.length hcounts
    rwa [countsOf, List.length_map, binned, List.length_map, List.length_range, ← hbounds]
      at hlength
  obtain ⟨i, -, hi, h50⟩ := hexplicit.percentile (q := 1 / 2) hsmall (by norm_num) (by norm_num)
  obtain ⟨j, -, hj, h99⟩ := hexplicit.percentile (q := 99 / 100) hsmall (by norm_num) (by norm_num)
  obtain ⟨m, hm, -⟩ := hexplicit.mean hsmall
  refine ⟨_, _, _, (explicitStats_eq_ok hlayout).2 ⟨hm, h50, h99⟩, ?_⟩
  have hmean := explicitMean_value hm
  unfold bucketMean at hmean
  dsimp only at hmean
  rw [Nat.mod_eq_of_lt hsmall, if_neg hocc] at hmean
  rw [hmean, hbounds, hcounts]
  rw [hcounts] at hi hj
  exact .of_bins hbin hn hne hnear hi hj

end Explicit

section LogLinear

open BlockGadget

def slotAt (x : ℕ) : ℕ := 4 * octave x + sub x

theorem slotAt_lt (x : ℕ) : slotAt x < 160 := by
  have hoctave := octave_lt x
  have hsub := sub_lt x
  unfold slotAt
  omega

theorem slotAt_mono : Monotone slotAt := by
  intro x y hxy
  by_contra hlt
  have hlt : slotAt y < slotAt x := Nat.lt_of_not_le hlt
  have hx : edge (slotAt x) ≤ 4 * x := edge_le (by change slotAt x ≠ 0; omega)
  have hy : 4 * y < edge (slotAt y + 1) := lt_edge (by
    have := slotAt_lt x
    change slotAt y < 159
    omega)
  have hedge : edge (slotAt y + 1) ≤ edge (slotAt x) := edge_strictMono.monotone hlt
  omega

theorem length_logLinearBounds : (logLinearBounds (F := ℝ)).length = 159 := by
  rw [logLinearBounds, List.length_map, List.length_range]
  rfl

theorem logLinearBounds_getElem {s : ℕ} (h : s < (logLinearBounds (F := ℝ)).length) :
    (logLinearBounds (F := ℝ))[s] = (edge (s + 1) : ℝ) / 4 := by
  have hs : s < 159 := length_logLinearBounds ▸ h
  rw [← logLinearBounds_getD hs, List.getD_eq_getElem?_getD, List.getElem?_eq_getElem h,
    Option.getD_some]

theorem proper_logLinear : ProperBounds logLinearBounds where
  positive x hx := by
    obtain ⟨s, hs, rfl⟩ := List.getElem_of_mem hx
    rw [logLinearBounds_getElem hs]
    have hpos : 0 < edge (s + 1) := (Nat.zero_le _).trans_lt (edge_strictMono (Nat.lt_succ_self s))
    positivity
  increasing := by
    rw [List.pairwise_iff_getElem]
    intro i j hi hj hij
    rw [logLinearBounds_getElem, logLinearBounds_getElem]
    have hlt : (edge (i + 1) : ℝ) < edge (j + 1) :=
      Nat.cast_lt.2 (edge_strictMono (Nat.succ_lt_succ hij))
    linarith

/-- The value that a slot stands for, but for the first slot and the last. -/
theorem estimate_slot {s : ℕ} (h : 0 < s) (hs : s < 159) :
    estimate logLinearBounds s = ((edge s : ℝ) + edge (s + 1)) / 8 := by
  have hprev : s - 1 + 1 = s := by omega
  have hlen := length_logLinearBounds
  have hlow : lowEdge logLinearBounds s = (edge s : ℝ) / 4 := by
    rw [← hprev, lowEdge_succ (by omega), logLinearBounds_getElem]
  rw [estimate, hlow, highEdge_bound (by omega), logLinearBounds_getElem]
  ring

/-- The middle of the slot of a latency. -/
theorem near_estimate {x : ℕ} (h : 2 ≤ x) (hx : x < 7 * 2 ^ 37) :
    Near (9 / 10) (9 / 8) x (estimate logLinearBounds (slotAt x)) := by
  have hfirst : 0 < slotAt x := by
    by_contra hzero
    have hzero : slotAt x = 0 := by omega
    have hlt : 4 * x < edge (slotAt x + 1) := lt_edge (by change slotAt x < 159; omega)
    rw [hzero] at hlt
    have hedge : edge (0 + 1) = 5 := rfl
    omega
  have hlow : edge (slotAt x) ≤ 4 * x := edge_le hfirst.ne'
  have hlast : slotAt x < 159 := by
    by_contra hge
    have hlt := slotAt_lt x
    have heq : slotAt x = 159 := by omega
    rw [heq] at hlow
    have hedge : edge 159 = 2 ^ 39 * 7 := rfl
    omega
  have hhigh : 4 * x < edge (slotAt x + 1) := lt_edge hlast
  rw [estimate_slot hfirst hlast]
  have hsub := sub_lt x
  unfold slotAt at hlow hhigh ⊢
  rw [edge_eq hsub] at hlow ⊢
  rw [edge_succ_eq hsub] at hhigh ⊢
  have hlow' : ((2 ^ octave x * (4 + sub x) : ℕ) : ℝ) ≤ (4 * x : ℕ) := Nat.cast_le.2 hlow
  have hhigh' : ((4 * x : ℕ) : ℝ) < (2 ^ octave x * (5 + sub x) : ℕ) := Nat.cast_lt.2 hhigh
  have hpos : (0 : ℝ) ≤ 2 ^ octave x * sub x := by positivity
  push_cast at hlow' hhigh' ⊢
  rw [Near]
  exact ⟨by linarith, by linarith⟩

def inSlots (ds : List UInt64) : List UInt32 :=
  (List.range maxSlots).map fun s => UInt32.ofNat (ds.countP fun d => slotOf d = s)

noncomputable def explicitData (slots : List UInt32) (count : UInt64) : Json ℝ :=
  .object [("layout", .string "explicit"), ("buckets", slotsJson slots),
    ("explicit_bounds", .array (logLinearBounds.map Json.float)), ("count", .nat count)]

variable [Build] {ds : List UInt64}

theorem explicit_estimates (hne : ds ≠ []) (hlt : ds.length < 2 ^ 32)
    (hds : ∀ d ∈ ds, d.toNat < 2 ^ 62) (count : UInt64) :
    ∃ m p50 p99, histogramStats (explicitData (inSlots ds) count) = .ok (m, p50, p99) ∧
      Estimates 2 (7 * 2 ^ 37) (9 / 10) (9 / 8) (ds.map UInt64.toNat) m p50 p99 := by
  set data := explicitData (inSlots ds) count with hdata
  have hbounds : boundsIn data = logLinearBounds := by
    change (logLinearBounds.map (Json.float (F := ℝ))).filterMap Json.asF64 = _
    rw [List.filterMap_map]
    exact List.filterMap_some
  have hcounts : countsOf (bucketsIn data) = binned slotAt maxSlots (ds.map UInt64.toNat) := by
    have hbuckets : bucketsIn data = (inSlots ds).map UInt32.toUInt64 := u64s_slotsJson _
    rw [hbuckets, inSlots, countsOf_slots hlt, ← binned_map]
    unfold binned
    apply List.map_congr_left
    intro s _
    apply List.countP_congr
    intro d hd
    rw [slotOf_eq (hds d hd)]
    rfl
  refine explicit_near rfl hbounds proper_logLinear ?_ slotAt_mono ?_ (by simpa using hne) ?_
    fun x => near_estimate
  · rw [hcounts, length_logLinearBounds]
    rfl
  · intro x _
    rw [length_logLinearBounds]
    exact slotAt_lt x
  · rw [List.length_map]
    omega

end LogLinear

section Series

variable {α : Type} {slot : α → ℕ} {n : ℕ}

/-- A loader drops no series of which the kernel counted a sample. -/
theorem slotCount_slots {ds : List α} (hne : ds ≠ []) (hlt : ds.length < 2 ^ 32)
    (hslot : ∀ d ∈ ds, slot d < n) (hn : n < 2 ^ 32) :
    slotCount ((List.range n).map fun s => UInt32.ofNat (ds.countP fun d => slot d = s)) ≠ 0 := by
  have hlength : ((List.range n).map fun s =>
      UInt32.ofNat (ds.countP fun d => slot d = s)).length < 2 ^ 32 := by
    rwa [List.length_map, List.length_range]
  have hcount := BlockGadget.slotCount_toNat hlength
  have hcounts := congrArg List.sum (@countsOf_slots _ slot n _ hlt)
  rw [sum_binned hslot, countsOf, List.map_map] at hcounts
  intro hzero
  rw [hzero] at hcount
  exact (List.length_pos_iff.2 hne).ne (hcount.trans hcounts)

variable [FloatText ℝ] [Build]

/-- In any run, a series reduces to a mean, a median and a 99th percentile. -/
def Reports (series : Json ℝ) (m p50 p99 : ℝ) : Prop :=
  ∀ run : Json ℝ, metricsOf run series = .ok (List.zipWith
    (seriesHead (overbudgetSources run) (globalOverflow run) series).metric
    ["mean", "p50", "p99"] [m, p50, p99])

theorem reports_histogram {name unit source : String} {key : Option String} {card data : Json ℝ}
    {m p50 p99 : ℝ} (h : histogramStats data = .ok (m, p50, p99)) :
    Reports (seriesJson name unit "histogram" source key card data) m p50 p99 := by
  intro run
  have hkind : (seriesJson name unit "histogram" source key card data).getStr "kind" =
      some "histogram" := by
    cases key <;> rfl
  have hdata : (seriesJson name unit "histogram" source key card data).get "data" = some data := by
    cases key <;> rfl
  exact (metricsOf_histogram hkind hdata).2 ⟨m, p50, p99, h, rfl⟩

/-- What samples counted in octaves are reported as. -/
theorem octaves_reported {ds : List UInt64} {slots : List UInt32} (hslots : slots = inOctaves ds)
    (hne : ds ≠ []) (hlt : ds.length < 2 ^ 32) (name unit source : String) (key : Option String)
    (card : Json ℝ) :
    slotCount slots ≠ 0 ∧ ∃ m p50 p99,
      Reports (seriesJson name unit "histogram" source key card
        (log2Data slots (slotCount slots))) m p50 p99 ∧
      NearEstimates (3 / 4) (3 / 2) (clampedOf ds) m p50 p99 := by
  subst hslots
  obtain ⟨m, p50, p99, hstats, hnear⟩ := log2_estimates hne hlt (slotCount (inOctaves ds))
  refine ⟨?_, m, p50, p99, reports_histogram hstats, hnear⟩
  exact slotCount_slots hne hlt (fun d _ => BlockGadget.octave_lt _) (by decide)

theorem reports_counter {name unit source : String} {key : Option String} {card : Json ℝ}
    (n : UInt64) (run : Json ℝ) :
    ∃ rest, metricsOf run (seriesJson name unit "counter" source key card
        (.object [("value", .nat n), ("start_unix_nano", .nat 0)])) = .ok
      ((seriesHead (overbudgetSources run) (globalOverflow run)
        (seriesJson name unit "counter" source key card
          (.object [("value", .nat n), ("start_unix_nano", .nat 0)]))).metric "value"
            (n.toNat : ℝ) :: rest) := by
  have hdata : (seriesJson name unit "counter" source key card
      (.object [("value", .nat n), ("start_unix_nano", .nat 0)])).get "data" =
        some (.object [("value", .nat n), ("start_unix_nano", .nat 0)]) := by
    cases key <;> rfl
  have hkind : (seriesJson name unit "counter" source key card
      (.object [("value", .nat n), ("start_unix_nano", .nat 0)])).getStr "kind" =
        some "counter" := by
    cases key <;> rfl
  have hhist : ("counter" == "histogram") = false := rfl
  unfold metricsOf seriesMetrics
  simp only [hdata, hkind, hhist, Option.getD_some, BEq.rfl, if_true, Bool.false_eq_true, if_false]
  cases windowNs run with
  | none => exact ⟨_, rfl⟩
  | some w =>
    dsimp only
    split_ifs
    · exact ⟨_, rfl⟩
    · exact ⟨_, rfl⟩

end Series

namespace KvmCpus

open KvmGadget Pairing

variable {Cpu : Type} [DecidableEq Cpu] [Fintype Cpu] {perGuest : Bool} {s : State Cpu}

/-- The latencies of a key: from each exit to the entry after it. -/
def latenciesOf (perGuest : Bool) (evs : List (Event Cpu)) (key : HistKey) : List UInt64 :=
  ((completed Event.tid Event.kind (heardOf perGuest .new evs)).filter fun c =>
    keyOf perGuest c = key).map latency

section Reported

variable [FloatText ℝ] [Build]

/-- On any number of CPUs and in any order of their steps, what a histogram in the map is reported
as is near the exit latencies of its key: a percentile is between 3/4 and 3/2 of the latency at its
rank, and so is the mean of the latencies' mean, a latency out of range as at the edge. -/
theorem exits_reported (evs : List (Event Cpu)) (hrun : run perGuest .new evs = some s)
    (hroom : NeverFull perGuest .new evs) (hidle : ∀ cpu, s.cores cpu = .idle) {key : HistKey}
    {hist : Hist} (hhist : s.maps.hists.lookup key = some hist)
    (hlt : (latenciesOf perGuest evs key).length < 2 ^ 32) (c : KvmCapture ℝ) :
    ∃ series m p50 p99, kvmSeries c ⟨key.cgroupId, key.exitReason, hist.toList⟩ = some series ∧
      Reports series m p50 p99 ∧
      NearEstimates (3 / 4) (3 / 2) (clampedOf (latenciesOf perGuest evs key)) m p50 p99 := by
  have hpaired := (handlers_paired evs hrun hroom hidle).2 key
  rw [hhist] at hpaired
  have htally := hpaired.resolve_right fun h => Option.some_ne_none hist h.1
  unfold tally at htally
  dsimp only at htally
  split_ifs at htally with hempty
  have hne : latenciesOf perGuest evs key ≠ [] := by
    unfold latenciesOf
    simpa using hempty
  have hslots : hist.toList = inOctaves (latenciesOf perGuest evs key) := by
    rw [Option.some.inj htally, ← toList_octaves, latenciesOf]
    simp only [List.countP_map, Function.comp_def]
  obtain ⟨hcount, m, p50, p99, hreports, hnear⟩ := octaves_reported hslots hne hlt _ _ _ _ _
  exact ⟨_, m, p50, p99, if_neg hcount, hreports, hnear⟩

end Reported

section Crossed

attribute [local instance] releaseBuild wholeText

noncomputable def crossedCapture : KvmCapture ℝ where
  vendor := "intel"
  perGuest := false
  maxKeys := 262144
  hists := []
  maxEntries := 262144
  exitStats := ⟨0, 2⟩
  entryStats := ⟨0, 2⟩
  window := ⟨1000, 1⟩

theorem crossed_reported :
    ∃ series m p50 p99, kvmSeries crossedCapture
        ⟨0, 12, (List.range 40).map fun s => if s = 6 then 2 else 0⟩ = some series ∧
      Reports series m p50 p99 ∧
      NearEstimates (3 / 4) (3 / 2) [64, 64] m p50 p99 := by
  have hidle : ∀ cpu, ((run false .new crossed).get crossed_run).cores cpu = .idle := by
    decide +kernel +revert
  have hhist : ((run false .new crossed).get crossed_run).maps.hists.lookup ⟨0, 12⟩ =
      some (Vector.ofFn fun s => if s.val = 6 then 2 else 0) := by
    decide +kernel +revert
  have hlatencies : latenciesOf false crossed ⟨0, 12⟩ = [64, 64] := by decide +kernel
  have hnear := exits_reported crossed (Option.some_get crossed_run).symm (by decide +kernel) hidle
    hhist (by rw [hlatencies]; decide) crossedCapture
  rwa [hlatencies, BlockGadget.toList_ofFn fun s => if s = 6 then 2 else 0] at hnear

end Crossed

end KvmCpus

namespace BlockCpus

open BlockGadget Pairing

variable {Cpu : Type} [DecidableEq Cpu] [Fintype Cpu] {s : State Cpu}

/-- The requests of a device in one direction: from each issue to the completion after it. -/
def requestsOf (evs : List (Event Cpu)) (bk : BlkKey) : List Request :=
  (completed request kind (heardOf .new evs)).filter fun c => keyOf c = bk

def latenciesOf (evs : List (Event Cpu)) (bk : BlkKey) : List UInt64 :=
  (requestsOf evs bk).map latency

def bytesOf (evs : List (Event Cpu)) (bk : BlkKey) : ℕ :=
  ((requestsOf evs bk).map fun c => c.2.1.bytes.toNat).sum

theorem collapse_slots [Build] {ds : List UInt64} (hlt : ds.length < 2 ^ 32)
    (hds : ∀ d ∈ ds, d.toNat < 2 ^ 62) : collapseToLog2 (inSlots ds) = .ok (inOctaves ds) := by
  have hplain : (plain ds).toList = inOctaves ds := by
    rw [plain_toList, ← toList_octaves]
    simp only [KvmGadget.slotOf_eq]
    exact (toList_ofFn fun o => UInt32.ofNat (ds.countP fun d => KvmGadget.bucket d = o)).symm
  have hcollapse := collapse_logLinear hds fun _ o _ => List.countP_le_length.trans_lt hlt
  rwa [logLinear_toList, hplain] at hcollapse

section Reported

variable [FloatText ℝ] [Build]

/-- The estimates from the block gadget's histogram, in full or collapsed to octaves, where a
latency out of range counts as at the edge. -/
inductive Close : Bool → List UInt64 → ℝ → ℝ → ℝ → Prop
  | full {ds : List UInt64} {m p50 p99 : ℝ}
      (h : Estimates 2 (7 * 2 ^ 37) (9 / 10) (9 / 8) (ds.map UInt64.toNat) m p50 p99) :
      Close true ds m p50 p99
  | octaves {ds : List UInt64} {m p50 p99 : ℝ}
      (h : NearEstimates (3 / 4) (3 / 2) (clampedOf ds) m p50 p99) : Close false ds m p50 p99

omit [FloatText ℝ] in
theorem block_estimates {ds : List UInt64} (hne : ds ≠ []) (hlt : ds.length < 2 ^ 32)
    (hds : ∀ d ∈ ds, d.toNat < 2 ^ 62) (hires : Bool) (count : UInt64) :
    ∃ data m p50 p99, blockHistData (F := ℝ) hires (inSlots ds) count = .ok data ∧
      histogramStats data = .ok (m, p50, p99) ∧
      Close hires ds m p50 p99 := by
  cases hires with
  | true =>
    obtain ⟨m, p50, p99, hstats, hnear⟩ := explicit_estimates hne hlt hds count
    exact ⟨_, m, p50, p99, rfl, hstats, .full hnear⟩
  | false =>
    obtain ⟨m, p50, p99, hstats, hnear⟩ := log2_estimates hne hlt count
    refine ⟨_, m, p50, p99, ?_, hstats, .octaves hnear⟩
    change (collapseToLog2 (inSlots ds) >>= fun octaves => pure (log2Data octaves count)) = _
    rw [collapse_slots hlt hds]
    rfl

omit [FloatText ℝ] in
theorem blockSeries_eq {c : BlockCapture ℝ} (st : BlkStat) {data : Json ℝ}
    (hcount : slotCount st.slots ≠ 0)
    (hdata : blockHistData c.hires st.slots (slotCount st.slots) = .ok data) :
    ∃ rw key card, blockSeries c st = .ok
      [seriesJson ("block.io_latency:" ++ rw) "ns" "histogram" "block_rq_complete" key card data,
        seriesJson ("block.io_bytes:" ++ rw) "By" "counter" "block_rq_complete" key card
          (.object [("value", .nat st.totalBytes), ("start_unix_nano", .nat 0)])] := by
  refine ⟨if st.isWrite then "write" else "read", some (devStr st.dev), bounded "device" c.maxKeys,
    ?_⟩
  unfold blockSeries
  dsimp only
  rw [if_neg hcount, hdata]
  rfl

/-- On any number of CPUs and in any order of their steps, as long as no two are in handlers of one
request, what a device's entry is reported as is near the latencies of its requests, and their bytes
are reported exactly. -/
theorem requests_reported (evs : List (Event Cpu)) (hrun : run .new evs = some s)
    (hapart : Apart .new evs) (hroom : NeverFull .new evs) (hidle : ∀ cpu, s.cores cpu = .idle)
    {bk : BlkKey} {st : Stat} (hst : s.maps.stats.lookup bk = some st)
    (hlt : (latenciesOf evs bk).length < 2 ^ 32)
    (hshort : ∀ d ∈ latenciesOf evs bk, d.toNat < 2 ^ 62) (hbytes : bytesOf evs bk < 2 ^ 64)
    (c : BlockCapture ℝ) :
    ∃ series total m p50 p99,
      blockSeries c ⟨bk.dev, bk.isWrite, st.slots.toList, st.bytes⟩ = .ok [series, total] ∧
      Reports series m p50 p99 ∧
      Close c.hires (latenciesOf evs bk) m p50 p99 ∧
      ∀ run : Json ℝ, ∃ rest, metricsOf run total = .ok
        ((seriesHead (overbudgetSources run) (globalOverflow run) total).metric "value"
          (bytesOf evs bk : ℝ) :: rest) := by
  have hpaired := (requests_paired evs hrun hapart hroom hidle).2 bk
  rw [hst] at hpaired
  have hstat := hpaired.resolve_right fun h => Option.some_ne_none st h.1
  unfold statOf at hstat
  dsimp only at hstat
  split_ifs at hstat with hempty
  have hne : latenciesOf evs bk ≠ [] := by
    unfold latenciesOf requestsOf
    simpa using hempty
  have hslots : st.slots.toList = inSlots (latenciesOf evs bk) := by
    rw [Option.some.inj hstat, inSlots, latenciesOf, requestsOf]
    simp only [List.countP_map, Function.comp_def]
    exact toList_ofFn fun s => UInt32.ofNat (List.countP (fun c => slotOf (latency c) = s) _)
  have htotal : st.bytes.toNat = bytesOf evs bk := by
    rw [Option.some.inj hstat]
    exact UInt64.toNat_ofNat_of_lt' hbytes
  obtain ⟨data, m, p50, p99, hdata, hstats, hnear⟩ :=
    block_estimates hne hlt hshort c.hires (slotCount st.slots.toList)
  have hcount : slotCount st.slots.toList ≠ 0 := by
    rw [hslots]
    exact slotCount_slots hne hlt (fun d _ => slotOf_lt d) (by decide)
  rw [← hslots] at hdata
  obtain ⟨rw, key, card, hseries⟩ :=
    blockSeries_eq ⟨bk.dev, bk.isWrite, st.slots.toList, st.bytes⟩ hcount hdata
  refine ⟨_, _, m, p50, p99, hseries, reports_histogram hstats, hnear, ?_⟩
  rw [← htotal]
  exact reports_counter st.bytes

end Reported

section Crossed

attribute [local instance] releaseBuild wholeText

noncomputable def crossedCapture : BlockCapture ℝ where
  maxKeys := 1024
  hires := true
  stats := []
  issueStats := ⟨0, 2⟩
  completeStats := ⟨0, 2⟩
  window := ⟨2000, 1⟩

theorem reads_reported :
    ∃ series total m p50 p99, blockSeries crossedCapture
        ⟨8, false, (List.range 160).map fun s => if s = 40 then 2 else 0, 4608⟩ =
          .ok [series, total] ∧
      Reports series m p50 p99 ∧
      Close true [1024, 1024] m p50 p99 ∧
      ∀ run : Json ℝ, ∃ rest, metricsOf run total = .ok
        ((seriesHead (overbudgetSources run) (globalOverflow run) total).metric "value"
          ((4608 : ℕ) : ℝ) :: rest) := by
  have hidle : ∀ cpu, ((run .new crossed).get crossed_run).cores cpu = .idle := by
    decide +kernel +revert
  have hstat : ((run .new crossed).get crossed_run).maps.stats.lookup ⟨8, false⟩ =
      some ⟨Vector.ofFn fun s => if s.val = 40 then 2 else 0, 4608⟩ := by
    decide +kernel +revert
  have hlatencies : latenciesOf crossed ⟨8, false⟩ = [1024, 1024] := by decide +kernel
  have hbytes : bytesOf crossed ⟨8, false⟩ = 4608 := by decide +kernel
  have hshort : ∀ d ∈ latenciesOf crossed ⟨8, false⟩, d.toNat < 2 ^ 62 := by
    rw [hlatencies]
    intro d hd
    obtain rfl : d = 1024 := by simpa using hd
    change 1024 < 2 ^ 62
    norm_num
  have hnear := requests_reported crossed (Option.some_get crossed_run).symm (by decide +kernel)
    (by decide +kernel) hidle hstat (by rw [hlatencies]; decide) hshort
    (by rw [hbytes]; norm_num) crossedCapture
  rwa [hlatencies, hbytes, toList_ofFn fun s => if s = 40 then 2 else 0] at hnear

end Crossed

end BlockCpus

namespace NetGadget

open BlockGadget (toList_ofFn)

section Sizes

def sizeAt (x : ℕ) : ℕ :=
  if x ≤ 64 then 0
  else if x ≤ 128 then 1
  else if x ≤ 256 then 2
  else if x ≤ 512 then 3
  else if x ≤ 1024 then 4
  else if x ≤ 1500 then 5
  else if x ≤ 9000 then 6
  else 7

theorem sizeBucket_eq (len : UInt64) : (sizeBucket len).val = sizeAt len.toNat := by
  unfold sizeBucket sizeAt
  simp only [UInt64.le_iff_toNat_le]
  change (if len.toNat ≤ 64 then _ else if len.toNat ≤ 128 then _ else if len.toNat ≤ 256 then _
    else if len.toNat ≤ 512 then _ else if len.toNat ≤ 1024 then _ else if len.toNat ≤ 1500 then _
    else if len.toNat ≤ 9000 then _ else _ : Fin sizeBuckets).val = _
  split_ifs <;> rfl

theorem sizeAt_mono : Monotone sizeAt := by
  intro x y hxy
  unfold sizeAt
  split_ifs <;> omega

theorem sizeAt_lt (x : ℕ) : sizeAt x < 8 := by
  unfold sizeAt
  split_ifs <;> omega

def sizeLimits : List ℕ := sizeBounds.map UInt32.toNat

noncomputable def sizeEdges : List ℝ := sizeLimits.map Nat.cast

theorem proper_sizeEdges : ProperBounds sizeEdges where
  positive x hx := by
    obtain ⟨n, hn, rfl⟩ := List.mem_map.1 hx
    exact Nat.cast_pos.2 ((by decide : ∀ n ∈ sizeLimits, 0 < n) n hn)
  increasing := by
    rw [sizeEdges, List.pairwise_map]
    simp only [Nat.cast_lt]
    decide

/-- The middle of a bucket that is at most as wide as its lower bound. -/
theorem near_between {lo hi x : ℕ} (hlo : lo < x) (hhi : x ≤ hi) (hwide : hi ≤ 2 * lo) :
    Near (2 / 3) (3 / 2) x (((lo : ℝ) + hi) / 2) := by
  have hlo' : (lo : ℝ) < x := Nat.cast_lt.2 hlo
  have hhi' : (x : ℝ) ≤ hi := Nat.cast_le.2 hhi
  have hwide' : (hi : ℝ) ≤ 2 * lo := by exact_mod_cast hwide
  exact ⟨by linarith, by linarith⟩

theorem estimate_size {k : ℕ} (lo hi : ℕ) (hlo : sizeLimits[k]? = some lo)
    (hhi : sizeLimits[k + 1]? = some hi) :
    estimate sizeEdges (k + 1) = ((lo : ℝ) + hi) / 2 := by
  rw [estimate, highEdge, lowEdge, if_neg k.succ_ne_zero, Nat.add_sub_cancel, sizeEdges,
    List.getElem?_map, List.getElem?_map, hlo, hhi]
  rfl

theorem near_size {x : ℕ} (h : 65 ≤ x) (hx : x < 1501) :
    Near (2 / 3) (3 / 2) x (estimate sizeEdges (sizeAt x)) := by
  unfold sizeAt
  split_ifs with h64 h128 h256 h512 h1024 h1500
  · omega
  · rw [estimate_size 64 128 rfl rfl]
    exact near_between (by omega) h128 (by decide)
  · rw [estimate_size 128 256 rfl rfl]
    exact near_between (by omega) h256 (by decide)
  · rw [estimate_size 256 512 rfl rfl]
    exact near_between (by omega) h512 (by decide)
  · rw [estimate_size 512 1024 rfl rfl]
    exact near_between (by omega) h1024 (by decide)
  · rw [estimate_size 1024 1500 rfl rfl]
    exact near_between (by omega) h1500 (by decide)
  all_goals omega

def inSizes (ds : List UInt64) : List UInt32 :=
  (List.range sizeBuckets).map fun b => UInt32.ofNat (ds.countP fun d => (sizeBucket d).val = b)

theorem size_estimates [Build] {ds : List UInt64} (hne : ds ≠ []) (hlt : ds.length < 2 ^ 32)
    {size : Sizes} (hsize : size.toList = inSizes ds) (count : UInt64) :
    ∃ m p50 p99, histogramStats (sizeData (F := ℝ) size count) = .ok (m, p50, p99) ∧
      Estimates 65 1501 (2 / 3) (3 / 2) (ds.map UInt64.toNat) m p50 p99 := by
  have hbounds : boundsIn (sizeData (F := ℝ) size count) = sizeEdges := by
    change (sizeBounds.map fun b => Json.nat (F := ℝ) b.toUInt64).filterMap Json.asF64 = _
    rw [List.filterMap_map, sizeEdges, sizeLimits, List.map_map, ← List.filterMap_eq_map]
    apply List.filterMap_congr
    intro b _
    rfl
  refine explicit_near rfl hbounds proper_sizeEdges ?_ sizeAt_mono (fun x _ => sizeAt_lt x)
    (by simpa using hne) ?_ fun x => near_size
  · have hbuckets : bucketsIn (sizeData (F := ℝ) size count) =
        (inSizes ds).map UInt32.toUInt64 := by
      rw [← hsize]
      exact u64s_slotsJson _
    rw [hbuckets, inSizes, countsOf_slots hlt, ← binned_map]
    simp only [sizeBucket_eq]
    rfl
  · rw [List.length_map]
    omega

end Sizes

section Reported

variable {Cpu : Type} [DecidableEq Cpu] [Fintype Cpu] [FloatText ℝ] [Build] {s : State Cpu}

def lengthsOf (evs : List (Event Cpu)) (i : UInt32) (dir : Dir) : List UInt64 :=
  ((packetsAt i evs).filter (·.dir = dir)).map Packet.len

omit [DecidableEq Cpu] [Fintype Cpu] [FloatText ℝ] [Build] in
theorem dirStatOf_eq (evs : List (Event Cpu)) (i : UInt32) (dir : Dir) :
    (dirStatOf (packetsAt i evs) dir).packets = .ofNat (lengthsOf evs i dir).length ∧
      (dirStatOf (packetsAt i evs) dir).bytes =
        .ofNat ((lengthsOf evs i dir).map UInt64.toNat).sum ∧
      (dirStatOf (packetsAt i evs) dir).size.toList = inSizes (lengthsOf evs i dir) := by
  refine ⟨?_, ?_, ?_⟩
  · rw [lengthsOf, List.length_map, ← List.countP_eq_length_filter]
    rfl
  · rw [lengthsOf, List.map_map]
    rfl
  · have hcount (b : ℕ) :
        (packetsAt i evs).countP (fun p => p.dir = dir ∧ (sizeBucket p.len).val = b) =
          (lengthsOf evs i dir).countP fun d => (sizeBucket d).val = b := by
      rw [lengthsOf, List.countP_map, List.countP_filter]
      apply List.countP_congr
      intro p _
      simp [and_comm]
    simp only [dirStatOf, Fin.ext_iff, hcount]
    exact toList_ofFn fun b =>
      UInt32.ofNat ((lengthsOf evs i dir).countP fun d => (sizeBucket d).val = b)

omit [DecidableEq Cpu] [Fintype Cpu] [FloatText ℝ] [Build] in
/-- Below the limits of the counters none has wrapped. -/
theorem dirStatOf_exact {evs : List (Event Cpu)} {i : UInt32} {dir : Dir}
    (hlt : (lengthsOf evs i dir).length < 2 ^ 32)
    (hbytes : ((lengthsOf evs i dir).map UInt64.toNat).sum < 2 ^ 64) :
    (dirStatOf (packetsAt i evs) dir).packets.toNat = (lengthsOf evs i dir).length ∧
      (dirStatOf (packetsAt i evs) dir).bytes.toNat =
        ((lengthsOf evs i dir).map UInt64.toNat).sum := by
  obtain ⟨hpackets, htotal, -⟩ := dirStatOf_eq evs i dir
  constructor
  · rw [hpackets]
    exact UInt64.toNat_ofNat_of_lt' (hlt.trans (by norm_num))
  · rw [htotal]
    exact UInt64.toNat_ofNat_of_lt' hbytes

omit [FloatText ℝ] [Build] in
theorem pushDir_infix (c : NetCapture ℝ) {dir : Dir} (htx : dir = .tx → c.tx = true)
    (name : String) (ps : List Packet) :
    pushDir c name dir (dirStatOf ps dir) <:+: netSeries c ⟨name, statOf ps⟩ := by
  unfold netSeries
  cases dir with
  | rx => exact (List.prefix_append _ _).isInfix
  | tx =>
    rw [if_pos (htx rfl)]
    exact (List.suffix_append _ _).isInfix

omit [FloatText ℝ] [Build] in
theorem netSeries_written (c : NetCapture ℝ) {e : NetEntry} (h : e ∈ c.entries) :
    netSeries c e <:+: (netFragment c).series := by
  obtain ⟨before, after, hsplit⟩ := List.append_of_mem h
  refine ⟨before.flatMap (netSeries c), after.flatMap (netSeries c), ?_⟩
  change _ = c.entries.flatMap (netSeries c)
  rw [hsplit, List.flatMap_append, List.flatMap_cons, List.append_assoc]

/-- On any number of CPUs and in any order of their steps, an interface's packets and bytes are
reported exactly, in each direction that a packet went, and their sizes near what they were. -/
theorem packets_reported (evs : List (Event Cpu)) (hrun : run .new evs = some s)
    (hidle : ∀ cpu, s.cores cpu = .idle) {i : UInt32} {st : IfStat}
    (hst : s.stats.lookup i = some st) {dir : Dir} (hne : lengthsOf evs i dir ≠ [])
    (hlt : (lengthsOf evs i dir).length < 2 ^ 32)
    (hbytes : ((lengthsOf evs i dir).map UInt64.toNat).sum < 2 ^ 64) (c : NetCapture ℝ)
    (htx : dir = .tx → c.tx = true) {name : String} (hentry : ⟨name, st⟩ ∈ c.entries) :
    ∃ packets bytes size m p50 p99, [packets, bytes, size] <:+: (netFragment c).series ∧
      (∀ run : Json ℝ, ∃ rest, metricsOf run packets = .ok
        ((seriesHead (overbudgetSources run) (globalOverflow run) packets).metric "value"
          ((lengthsOf evs i dir).length : ℝ) :: rest)) ∧
      (∀ run : Json ℝ, ∃ rest, metricsOf run bytes = .ok
        ((seriesHead (overbudgetSources run) (globalOverflow run) bytes).metric "value"
          (((lengthsOf evs i dir).map UInt64.toNat).sum : ℝ) :: rest)) ∧
      Reports size m p50 p99 ∧
      Estimates 65 1501 (2 / 3) (3 / 2) ((lengthsOf evs i dir).map UInt64.toNat) m p50 p99 := by
  have hcounted := packets_counted evs hrun hidle i
  rw [hst] at hcounted
  have hstat := (hcounted.resolve_right fun h => Option.some_ne_none st h.1).2
  obtain rfl : st = statOf (packetsAt i evs) := Option.some.inj hstat
  obtain ⟨m, p50, p99, hstats, hnear⟩ := size_estimates hne hlt (dirStatOf_eq evs i dir).2.2
    (slotCount (dirStatOf (packetsAt i evs) dir).size.toList)
  obtain ⟨hpackets, htotal⟩ := dirStatOf_exact hlt hbytes
  have hseen : (dirStatOf (packetsAt i evs) dir).packets ≠ 0 := by
    intro hzero
    rw [hzero] at hpackets
    exact (List.length_pos_iff.2 hne).ne hpackets
  have hpush := pushDir_infix c htx name (packetsAt i evs)
  unfold pushDir at hpush
  rw [if_neg hseen] at hpush
  refine ⟨_, _, _, m, p50, p99, hpush.trans (netSeries_written c hentry), ?_, ?_,
    reports_histogram hstats, hnear⟩
  · rw [← hpackets]
    exact reports_counter _
  · rw [← htotal]
    exact reports_counter _

end Reported

section Runs

attribute [local instance] releaseBuild wholeText

/-- The entry of two packets that raced, as the loader finds it. -/
noncomputable def racesCapture : NetCapture ℝ where
  maxKeys := 16384
  tx := false
  entries := [⟨"tap0", ⟨2, 1500, #v[0, 1, 0, 0, 0, 1, 0, 0]⟩, .zero⟩]
  interfaces := ["tap0"]
  rxStats := ⟨0, 2⟩
  txStats := ⟨0, 0⟩
  window := ⟨1000, 1⟩

theorem racing_run : (run .new (racing 100 1400)).isSome := by decide +kernel

theorem races_reported :
    ∃ packets bytes size m p50 p99, [packets, bytes, size] <:+: (netFragment racesCapture).series ∧
      (∀ run : Json ℝ, ∃ rest, metricsOf run packets = .ok
        ((seriesHead (overbudgetSources run) (globalOverflow run) packets).metric "value"
          ((2 : ℕ) : ℝ) :: rest)) ∧
      (∀ run : Json ℝ, ∃ rest, metricsOf run bytes = .ok
        ((seriesHead (overbudgetSources run) (globalOverflow run) bytes).metric "value"
          ((1500 : ℕ) : ℝ) :: rest)) ∧
      Reports size m p50 p99 ∧
      NearEstimates (2 / 3) (3 / 2) [100, 1400] m p50 p99 := by
  have hidle : ∀ cpu, ((run .new (racing 100 1400)).get racing_run).cores cpu = .idle := by
    decide +kernel +revert
  have hst : ((run .new (racing 100 1400)).get racing_run).stats.lookup 3 =
      some ⟨⟨2, 1500, #v[0, 1, 0, 0, 0, 1, 0, 0]⟩, .zero⟩ := by
    decide +kernel +revert
  have hlengths : lengthsOf (racing 100 1400) 3 .rx = [100, 1400] := by decide +kernel
  have hne : lengthsOf (racing 100 1400) 3 .rx ≠ [] := by
    rw [hlengths]
    exact List.cons_ne_nil _ _
  have hbytes : ((lengthsOf (racing 100 1400) 3 .rx).map UInt64.toNat).sum < 2 ^ 64 := by
    rw [hlengths]
    change 1500 < 2 ^ 64
    norm_num
  obtain ⟨packets, bytes, size, m, p50, p99, hseries, hpackets, htotal, hsize, hnear⟩ :=
    packets_reported (racing 100 1400) (Option.some_get racing_run).symm hidle hst hne
      (by rw [hlengths]; decide) hbytes racesCapture Dir.noConfusion List.mem_cons_self
  rw [hlengths] at hpackets htotal hnear
  refine ⟨packets, bytes, size, m, p50, p99, hseries, hpackets, htotal, hsize, hnear.near ?_⟩
  decide +kernel

end Runs

end NetGadget

namespace CtrlPlane

open Pairing

variable {Cpu : Type} [DecidableEq Cpu] {flt : Filter} {s : State Cpu}

/-- The waits of a cgroup's tasks: from each wakeup to the turn after it. -/
def waitsOf (flt : Filter) (evs : List (Event Cpu)) (cg : UInt64) : List UInt64 :=
  ((completed Turn.pid Turn.kind (turnsOf flt .new evs)).filter fun c => c.2.2.2 = cg).map
    fun c => c.2.2.1 - c.2.1

section Reported

variable [FloatText ℝ] [Build]

/-- On any number of CPUs and in any order of their steps, what a cgroup's histogram is reported as
is near the waits of its tasks, a wait out of range as at the edge. -/
theorem waits_reported [Fintype Cpu] {evs : List (Event Cpu)} (hrun : run flt .new evs = some s)
    (horderly : ∀ t ∈ Runs.states (step flt) .new evs, Orderly t)
    (hidle : ∀ cpu, (s.cores cpu).pc = .idle) {cg : UInt64} {hist : Hist}
    (hhist : s.maps.runq.lookup cg = some hist) (hlt : (waitsOf flt evs cg).length < 2 ^ 32)
    (c : CtrlplaneCapture ℝ) :
    ∃ series m p50 p99, runqSeries c ⟨cg, hist.toList⟩ = some series ∧
      Reports series m p50 p99 ∧
      NearEstimates (3 / 4) (3 / 2) (clampedOf (waitsOf flt evs cg)) m p50 p99 := by
  have hcounted := waits_counted hrun horderly hidle cg
  rw [hhist] at hcounted
  have hwaits := hcounted.resolve_right fun h => Option.some_ne_none hist h.1
  unfold waitHist at hwaits
  dsimp only at hwaits
  split_ifs at hwaits with hempty
  have hne : waitsOf flt evs cg ≠ [] := by
    unfold waitsOf
    simpa using hempty
  have hslots : hist.toList = inOctaves (waitsOf flt evs cg) := by
    rw [Option.some.inj hwaits, ← toList_octaves, waitsOf]
    simp only [List.countP_map, Function.comp_def]
  obtain ⟨hcount, m, p50, p99, hreports, hnear⟩ := octaves_reported hslots hne hlt _ _ _ _ _
  exact ⟨_, m, p50, p99, if_neg hcount, hreports, hnear⟩

end Reported

section Runs

attribute [local instance] releaseBuild wholeText

noncomputable def abreastCapture : CtrlplaneCapture ℝ where
  names := []
  maxKeys := 4096
  runq := []
  oncpu := []
  wakeupStats := ⟨0, 2⟩
  wakeupNewStats := ⟨0, 0⟩
  switchStats := ⟨0, 2⟩
  window := ⟨1000, 1⟩

theorem abreast_reported :
    ∃ series m p50 p99, runqSeries abreastCapture
        ⟨7, (List.range 40).map fun s => if s = 6 then 2 else 0⟩ = some series ∧
      Reports series m p50 p99 ∧
      NearEstimates (3 / 4) (3 / 2) [64, 64] m p50 p99 := by
  have hidle : ∀ cpu, (((run ⟨false, []⟩ .new abreast).get abreast_run).cores cpu).pc = .idle := by
    decide +kernel +revert
  have horderly : ∀ t ∈ Runs.states (step ⟨false, []⟩) .new abreast, Orderly t := by
    decide +kernel
  have hhist : ((run ⟨false, []⟩ .new abreast).get abreast_run).maps.runq.lookup 7 =
      some (Vector.ofFn fun s => if s.val = 6 then 2 else 0) := by
    decide +kernel +revert
  have hwaits : waitsOf ⟨false, []⟩ abreast 7 = [64, 64] := by decide +kernel
  have hreported := waits_reported (Option.some_get abreast_run).symm horderly hidle hhist
    (by rw [hwaits]; decide) abreastCapture
  rwa [hwaits, BlockGadget.toList_ofFn fun s => if s = 6 then 2 else 0] at hreported

end Runs

end CtrlPlane

end Assayist
