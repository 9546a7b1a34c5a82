import Assayist.Proofs.CarriedViews
import Assayist.Proofs.Log2

/-! The data points of exponential histograms: what a point says of the samples behind it,
the series it is imported as, and where the mean and the percentiles of that series lie. -/

namespace Assayist

open Histograms

section Fields

variable {F : Type}

def readInt (v : Option (Json F)) : Option ℤ :=
  match v with
  | none => some 0
  | some x => (x.asStr.bind readI64).or x.asI64

def pointScale (p : Json F) : Option ℤ := readInt (p.get "scale")

def pointOffset (p : Json F) : Option ℤ := readInt ((p.get "positive").bind (·.get "offset"))

def pointBuckets (p : Json F) : List UInt64 :=
  strArrayU64 ((p.get "positive").bind (·.get "bucketCounts"))

def pointCounts (p : Json F) : List ℕ := countsOf (pointBuckets p)

def pointTotal (p : Json F) : ℕ := (strU64 (p.get "count")).toNat

def expoPoints (m : Json F) : List (Json F) :=
  (((m.get "exponentialHistogram").bind (·.get "dataPoints")).bind Json.asArray).getD []

def otlpMetrics (doc : Json F) : List (Json F) :=
  nested doc "resourceMetrics" "scopeMetrics" "metrics"

end Fields

section Samples

/-- The samples a point at scale 0 and offset `o` stands for. Its `k`-th bucket counts
those above `2 ^ (o + k)` and up to `2 ^ (o + k + 1)`; those that are not positive fall in
no such bucket. -/
structure Describes (o : ℕ) (p : Json ℝ) (xs : List ℝ) : Prop where
  total : xs.length = pointTotal p
  bins : ∀ k, (pointCounts p).getD k 0 = between (2 ^ (o + k)) (2 ^ (o + k + 1)) xs
  binned : ∀ x ∈ xs, 0 < x → ∃ k, 2 ^ (o + k) < x ∧ x ≤ 2 ^ (o + k + 1)
  sum : ∀ s, p.getF64 "sum" = some s → xs.sum = s

/-- A range that holds every occupied bucket, and the samples outside the buckets. -/
structure Covers (o : ℕ) (p : Json ℝ) (xs : List ℝ) (low high : ℝ) : Prop where
  bins : ∀ k, (pointCounts p).getD k 0 ≠ 0 → low ≤ 2 ^ (o + k) ∧ 2 ^ (o + k + 1) ≤ high
  rest : ∀ x ∈ xs, x ≤ 0 → low ≤ x ∧ x ≤ high

variable {o : ℕ} {p : Json ℝ} {xs : List ℝ} {low high : ℝ}

theorem Describes.sum_le (h : Describes o p xs) : (pointCounts p).sum ≤ pointTotal p := by
  have hmono : Monotone fun k => (2 : ℝ) ^ k := fun a b hab =>
    pow_le_pow_right₀ (by norm_num) hab
  rw [← h.total]
  exact sum_bins_le hmono fun k _ => h.bins k

theorem Describes.sum_lt (h : Describes o p xs) : (pointCounts p).sum < 2 ^ 64 :=
  h.sum_le.trans_lt (UInt64.toNat_lt _)

theorem Describes.mem_range (h : Describes o p xs) (hc : Covers o p xs low high) {x : ℝ}
    (hx : x ∈ xs) : low ≤ x ∧ x ≤ high := by
  rcases le_or_gt x 0 with hneg | hpos
  · exact hc.rest x hx hneg
  · obtain ⟨k, hlo, hhi⟩ := h.binned x hx hpos
    have hocc : (pointCounts p).getD k 0 ≠ 0 := by
      rw [h.bins k]
      exact between_pos hx hlo hhi
    have hbin := hc.bins k hocc
    exact ⟨by linarith, by linarith⟩

theorem Describes.mean_mem (h : Describes o p xs) (hc : Covers o p xs low high)
    (hpos : 0 < pointTotal p) {s : ℝ} (hs : p.getF64 "sum" = some s) :
    low ≤ s / (pointTotal p : ℝ) ∧ s / (pointTotal p : ℝ) ≤ high := by
  have hn : (0 : ℝ) < (pointTotal p : ℝ) := by exact_mod_cast hpos
  have hlow : xs.length • low ≤ xs.sum :=
    List.card_nsmul_le_sum xs low fun x hx => (h.mem_range hc hx).1
  have hhigh : xs.sum ≤ xs.length • high :=
    List.sum_le_card_nsmul xs high fun x hx => (h.mem_range hc hx).2
  rw [h.total, nsmul_eq_mul, h.sum s hs] at hlow hhigh
  rw [le_div_iff₀ hn, div_le_iff₀ hn]
  exact ⟨by linarith, by linarith⟩

theorem Describes.total_pos (h : Describes o p xs) (hocc : (pointCounts p).sum ≠ 0) :
    0 < pointTotal p := by
  have hle := h.sum_le
  omega

/-- A sample that is not positive leaves room below every midpoint. -/
theorem Covers.low_nonpos (h : Covers o p xs low high) (hall : ¬ ∀ x ∈ xs, 0 < x) : low ≤ 0 := by
  by_contra hlow
  apply hall
  intro x hx
  by_contra hneg
  have hrest := h.rest x hx (not_lt.1 hneg)
  linarith

/-- The least range that covers a point all of whose samples are positive. -/
theorem Describes.covers_first (h : ∀ x ∈ xs, 0 < x) {k : ℕ}
    (hk : ∀ l, (pointCounts p).getD l 0 ≠ 0 → k ≤ l) :
    Covers o p xs (2 ^ (o + k)) (2 ^ (o + (pointCounts p).length)) where
  bins l hl := by
    have hlt := lt_length_of_getD hl
    have hkl := hk l hl
    exact ⟨pow_le_pow_right₀ (by norm_num) (by omega),
      pow_le_pow_right₀ (by norm_num) (by omega)⟩
  rest x hx hneg := absurd (h x hx) (not_lt.2 hneg)

end Samples

section Imported

variable {F : Type} [F64 F]

def importedData (p : Json F) : Json F :=
  .object ([("layout", .string "log2"), ("buckets", natArray (pointBuckets p)),
    ("count", .nat (strU64 (p.get "count")))] ++ dpSum p)

def importMetric (m : Json F) : Option (Json F) :=
  if startsWith ((m.getStr "name").getD "") "assayist.probe." then none else metricToSeries m

theorem importSeries_eq (doc : Json F) :
    importSeries doc = (otlpMetrics doc).filterMap importMetric := rfl

/-- A metric whose series is made of the data point `p`: it has the name of a series, and
`p` comes first. -/
structure Taken (m p : Json ℝ) : Prop where
  named : ∃ name, m.getStr "name" = some name ∧ startsWith name "assayist.probe." = false
  first : ∃ eh, m.get "exponentialHistogram" = some eh ∧ firstPoint eh = some p

/-- `s` is the series of the metric `m`, made of the data point `p`. -/
def ImportedAs (m p s : Json ℝ) : Prop :=
  (∃ eh, m.get "exponentialHistogram" = some eh ∧ firstPoint eh = some p) ∧
    importMetric m = some s

structure Log2Series (s data : Json ℝ) : Prop where
  kind : s.getStr "kind" = some "histogram"
  content : s.get "data" = some data
  layout : data.getStr "layout" = some "log2"

variable {m p s : Json ℝ}

theorem metricToSeries_point {name : String} (hname : m.getStr "name" = some name)
    (h : ∃ eh, m.get "exponentialHistogram" = some eh ∧ firstPoint eh = some p) :
    ∃ s, metricToSeries m = some s ∧ Log2Series s (importedData p) := by
  obtain ⟨eh, heh, hp⟩ := h
  have hdata : metricData m = some ("histogram", p, importedData p) := by
    unfold metricData
    rw [heh]
    change (firstPoint eh >>= _) = _
    rw [hp]
    rfl
  refine ⟨.object ([("name", .string name), ("unit", .string ((m.getStr "unit").getD "")),
    ("kind", .string "histogram")] ++ carrySourceKey p ++ [("data", importedData p)]), ?_, ?_⟩
  · unfold metricToSeries
    rw [hname, hdata]
    rfl
  · refine ⟨rfl, ?_, rfl⟩
    unfold carrySourceKey
    cases dpAttr p "assayist.source" <;> cases dpAttr p "assayist.key" <;> rfl

/-- A data point is imported exactly when it is taken, and then as its own counts. -/
theorem exists_importedAs (h : Taken m p) :
    ∃ s, ImportedAs m p s ∧ Log2Series s (importedData p) := by
  obtain ⟨name, hname, hprobe⟩ := h.named
  obtain ⟨s, hs, hlog2⟩ := metricToSeries_point hname h.first
  refine ⟨s, ⟨h.first, ?_⟩, hlog2⟩
  rw [importMetric, hname, Option.getD_some, if_neg (by rw [hprobe]; decide), hs]

theorem ImportedAs.taken (h : ImportedAs m p s) : Taken m p := by
  obtain ⟨hfirst, hs⟩ := h
  rw [importMetric] at hs
  by_cases hprobe : startsWith ((m.getStr "name").getD "") "assayist.probe." = true
  · rw [if_pos hprobe] at hs
    exact absurd hs (by simp)
  · rw [if_neg hprobe, metricToSeries] at hs
    obtain ⟨name, hname, -⟩ := Option.bind_eq_some_iff.1 hs
    rw [hname, Option.getD_some, Bool.not_eq_true] at hprobe
    exact ⟨⟨name, hname, hprobe⟩, hfirst⟩

theorem ImportedAs.log2 (h : ImportedAs m p s) : Log2Series s (importedData p) := by
  obtain ⟨s', hs', hlog2⟩ := exists_importedAs h.taken
  have hsame : s' = s := Option.some.inj (hs'.2.symm.trans h.2)
  rwa [← hsame]

theorem Log2Series.data_eq {data data' : Json ℝ} (h : Log2Series s data)
    (h' : Log2Series s data') : data = data' :=
  Option.some.inj (h.content.symm.trans h'.content)

theorem bucketsOf_imported : bucketsOf (importedData p) = pointBuckets p :=
  u64s_natArray _

theorem count_imported :
    (importedData p).getF64 "count" = some (pointTotal p : ℝ) := rfl

theorem sum_imported : (importedData p).getF64 "sum" = p.getF64 "sum" := by
  have hget : (importedData p).get "sum" = (dpSum p).lookup "sum" := rfl
  rw [Json.getF64, hget, dpSum]
  cases p.getF64 "sum" with
  | none => rfl
  | some x => rfl

end Imported

end Assayist
