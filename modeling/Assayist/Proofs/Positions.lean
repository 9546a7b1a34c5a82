import Assayist.Proofs.Labels
import Assayist.Spec.Otlp
import Assayist.Spec.Schema

/-! What an element of the wrong kind does to a histogram. The readers of `buckets` and
`explicit_bounds` leave it out, and everything after it moves down by one place. -/

namespace Assayist

section Lists

variable {α β : Type} {f : α → Option β} {y : α} {b : β}

/-- Putting something readable in the place of an element leaves what is read the same exactly
when the element already read so. -/
theorem filterMap_set_iff {xs : List α} {i : ℕ} {x : α} (hx : xs[i]? = some x)
    (hy : f y = some b) : (xs.set i y).filterMap f = xs.filterMap f ↔ f x = some b := by
  induction xs generalizing i with
  | nil => simp at hx
  | cons a xs ih =>
    cases i with
    | zero =>
      obtain rfl : a = x := by simpa using hx
      rw [List.set_cons_zero, List.filterMap_cons_some hy]
      cases ha : f a with
      | none =>
        rw [List.filterMap_cons_none ha]
        refine iff_of_false ?_ (by simp)
        intro h
        have hlen := congrArg List.length h
        rw [List.length_cons] at hlen
        omega
      | some c =>
        rw [List.filterMap_cons_some ha, List.cons.injEq, Option.some.injEq, eq_comm (a := b)]
        exact and_iff_left rfl
    | succ i =>
      rw [List.getElem?_cons_succ] at hx
      rw [List.set_cons_succ]
      cases ha : f a with
      | none => rw [List.filterMap_cons_none ha, List.filterMap_cons_none ha, ih hx]
      | some c =>
        rw [List.filterMap_cons_some ha, List.filterMap_cons_some ha, List.cons.injEq, ih hx]
        exact and_iff_right rfl

end Lists

section Replaced

variable {F : Type} {data v : Json F} {k : String}

/-- An object with another value in one of its fields. -/
def Json.replace (data : Json F) (k : String) (v : Json F) : Json F :=
  match data with
  | .object m => .object (replaceField m k v)
  | other => other

theorem get_replace_ne {l : String} (h : l ≠ k) : (data.replace k v).get l = data.get l := by
  cases data with
  | object m => exact lookup_replaceField_ne m h v
  | _ => rfl

theorem get_replace_self {w : Json F} (h : data.get k = some w) :
    (data.replace k v).get k = some v := by
  cases data with
  | object m => exact lookup_replaceField_self h v
  | _ => cases h

end Replaced

section Alike

variable {F : Type} [F64 F] [Build]

/-- Two histograms that `reduce` gives the same metrics and the exporter the same body, or
none. -/
def Alike (data data' : Json F) : Prop :=
  histogramStats data' = histogramStats data ∧
    ∀ attrs ts, histogramBody data' attrs ts = histogramBody data attrs ts

/-- An element of `buckets` that is no `u64` counts as an empty bucket in its place. -/
def BucketsStay (data : Json F) : Prop :=
  ∀ xs i x, data.get "buckets" = some (.array xs) → xs[i]? = some x → x.asU64 = none →
    Alike data (data.replace "buckets" (.array (xs.set i (.nat 0))))

/-- An element of `explicit_bounds` that is no number counts as a bound of 0 in its place. -/
def BoundsStay (data : Json F) : Prop :=
  ∀ ys i y, data.get "explicit_bounds" = some (.array ys) → ys[i]? = some y → y.asF64 = none →
    Alike data (data.replace "explicit_bounds" (.array (ys.set i (.nat 0))))

end Alike

section Export

variable {F : Type} [F64 F] {data data' : Json F} {attrs : List (Json F)} {ts : UInt64}

def countText (x : Json F) : Option (Json F) := x.asI64.map fun n => .string (toString n)

def boundText (y : Json F) : Option (Json F) := y.asF64.map Json.float

omit [F64 F] in
theorem countStrings_filterMap (xs : List (Json F)) :
    countStrings (xs.filterMap Json.asI64) = .array (xs.filterMap countText) := by
  rw [countStrings, List.map_filterMap]
  rfl

theorem boundText_filterMap (ys : List (Json F)) :
    (ys.filterMap Json.asF64).map Json.float = ys.filterMap boundText := by
  rw [List.map_filterMap]
  rfl

def knownLayout (data : Json F) : Prop :=
  (data.getStr "layout").getD "log2" = "log2" ∨ (data.getStr "layout").getD "log2" = "explicit"

def pointStart (data : Json F) (attrs : List (Json F)) (ts : UInt64) : List (String × Json F) :=
  [("attributes", .array attrs), ("timeUnixNano", .string (toString ts.toNat)),
    ("count", u64Str (data.get "count"))] ++ sumField data

theorem histogramBody_log2 (h : (data.getStr "layout").getD "log2" = "log2") :
    histogramBody data attrs ts = some [("exponentialHistogram", .object
      [("aggregationTemporality", .nat 2), ("dataPoints", .array [.object (pointStart data attrs ts ++
        [("scale", .nat 0), ("zeroCount", .string "0"), ("positive", .object [("offset", .nat 0),
          ("bucketCounts", .array (((data.getArray "buckets").getD []).filterMap countText))])])])])] := by
  unfold histogramBody
  rw [← countStrings_filterMap]
  simp only [h, if_true]
  rfl

theorem histogramBody_explicit (h : (data.getStr "layout").getD "log2" = "explicit") :
    histogramBody data attrs ts = some [("histogram", .object
      [("aggregationTemporality", .nat 2), ("dataPoints", .array [.object (pointStart data attrs ts ++
        [("explicitBounds", .array (((data.getArray "explicit_bounds").getD []).filterMap boundText)),
          ("bucketCounts", .array (((data.getArray "buckets").getD []).filterMap countText))])])])] := by
  unfold histogramBody
  rw [← countStrings_filterMap, ← boundText_filterMap]
  simp only [h, if_true, show ("explicit" : String) ≠ "log2" by decide, if_false]
  rfl

end Export

section Kept

variable {F : Type} [F64 F] {data : Json F} {attrs : List (Json F)} {ts : UInt64} {k : String}
  {xs xs' : List (Json F)}

omit [F64 F] in
theorem getArray_replace (h : data.get k = some (.array xs)) :
    (data.replace k (.array xs')).getArray k = some xs' := by
  rw [Json.getArray, get_replace_self h]
  rfl

theorem pointStart_replace (v : Json F) (hcount : "count" ≠ k) (hsum : "sum" ≠ k) :
    pointStart (data.replace k v) attrs ts = pointStart data attrs ts := by
  unfold pointStart sumField Json.getF64
  rw [get_replace_ne hcount, get_replace_ne hsum]

omit [F64 F] in
theorem layout_replace (v : Json F) (h : "layout" ≠ k) :
    (data.replace k v).getStr "layout" = data.getStr "layout" := by
  rw [Json.getStr, Json.getStr, get_replace_ne h]

/-- With other buckets, the exported body is the same exactly when the exported counts are. -/
theorem histogramBody_buckets_iff (hlayout : knownLayout data)
    (h : data.get "buckets" = some (.array xs)) :
    histogramBody (data.replace "buckets" (.array xs')) attrs ts = histogramBody data attrs ts ↔
      xs'.filterMap countText = xs.filterMap countText := by
  have hget : data.getArray "buckets" = some xs := by
    rw [Json.getArray, h]
    rfl
  have hbounds : (data.replace "buckets" (.array xs')).getArray "explicit_bounds" =
      data.getArray "explicit_bounds" := by
    rw [Json.getArray, Json.getArray, get_replace_ne (by decide)]
  have hsame : (data.replace "buckets" (.array xs')).getStr "layout" = data.getStr "layout" :=
    layout_replace _ (by decide)
  rcases hlayout with hlog2 | hexplicit
  · rw [histogramBody_log2 (by rw [hsame]; exact hlog2), histogramBody_log2 hlog2,
      pointStart_replace _ (by decide) (by decide), getArray_replace h, hget]
    simp
  · rw [histogramBody_explicit (by rw [hsame]; exact hexplicit), histogramBody_explicit hexplicit,
      pointStart_replace _ (by decide) (by decide), getArray_replace h, hget, hbounds]
    simp

theorem histogramBody_bounds_iff (hlayout : (data.getStr "layout").getD "log2" = "explicit")
    (h : data.get "explicit_bounds" = some (.array xs)) :
    histogramBody (data.replace "explicit_bounds" (.array xs')) attrs ts =
      histogramBody data attrs ts ↔ xs'.filterMap boundText = xs.filterMap boundText := by
  have hget : data.getArray "explicit_bounds" = some xs := by
    rw [Json.getArray, h]
    rfl
  have hbuckets : (data.replace "explicit_bounds" (.array xs')).getArray "buckets" =
      data.getArray "buckets" := by
    rw [Json.getArray, Json.getArray, get_replace_ne (by decide)]
  have hsame : (data.replace "explicit_bounds" (.array xs')).getStr "layout" =
      data.getStr "layout" := layout_replace _ (by decide)
  rw [histogramBody_explicit (by rw [hsame]; exact hlayout), histogramBody_explicit hlayout,
    pointStart_replace _ (by decide) (by decide), getArray_replace h, hget, hbuckets]
  simp

omit [F64 F] in
theorem text_neg {n : ℤ} (h : n < 0) : toString n ≠ "0" := by
  obtain ⟨m, rfl⟩ := Int.eq_negSucc_of_lt_zero h
  intro htext
  have hminus : toString (Int.negSucc m) = "-" ++ toString (m + 1) := rfl
  have hchars := congrArg String.toList (hminus.symm.trans htext)
  rw [String.toList_append] at hchars
  exact absurd (List.cons.inj hchars).1 (by decide)

theorem asU64_of_text {x : Json F} (hparsed : ∀ n, x = .number n → n.parsed)
    (h : countText x = some (.string "0")) : x.asU64 ≠ none := by
  cases x with
  | number n =>
    cases n with
    | posInt n => exact Option.some_ne_none n
    | negInt n =>
      have htext : toString n = "0" := Json.string.inj (Option.some.inj h)
      exact absurd htext (text_neg (hparsed _ rfl).2)
    | float x => cases h
  | _ => cases h

variable [Build]

/-- An array of `u64`s has no element that the law is about. -/
theorem bucketsStay_of_counts (h : data.get "buckets" = some (.array xs))
    (hall : ∀ x ∈ xs, x.asU64.isSome = true) : BucketsStay data := by
  intro ys i x hys hi hnone
  rw [h, Option.some.injEq, Json.array.injEq] at hys
  subst hys
  have hsome := hall x (List.mem_of_getElem? hi)
  rw [hnone] at hsome
  cases hsome

theorem bucketsStay_iff (hlayout : knownLayout data) (h : data.get "buckets" = some (.array xs))
    (hparsed : ∀ n, .number n ∈ xs → n.parsed) :
    BucketsStay data ↔ ∀ x ∈ xs, x.asU64.isSome = true := by
  apply Iff.intro
  · intro hstay x hx
    rw [← Option.ne_none_iff_isSome]
    intro hnone
    obtain ⟨i, hi⟩ := List.mem_iff_getElem?.1 hx
    obtain ⟨-, hbody⟩ := hstay xs i x h hi hnone
    have hcounts := (histogramBody_buckets_iff hlayout h).1 (hbody [] 0)
    have hzero : countText (.nat 0 : Json F) = some (.string "0") := rfl
    have htext := (filterMap_set_iff hi hzero).1 hcounts
    exact asU64_of_text (fun n hn => hparsed n (hn ▸ hx)) htext hnone
  · exact bucketsStay_of_counts h

omit [Build] in
theorem asF64_of_text {y : Json F} {v : Json F} (h : boundText y = some v) :
    y.asF64 ≠ none := by
  intro hnone
  rw [boundText, hnone] at h
  cases h

theorem histogramStats_bounds {v : Json F} (h : (data.getStr "layout").getD "log2" ≠ "explicit") :
    histogramStats (data.replace "explicit_bounds" v) = histogramStats data := by
  have hother : (((data.getStr "layout").getD "log2") == "explicit") = false :=
    beq_eq_false_iff_ne.2 h
  unfold histogramStats log2MeanOf
  simp only [layout_replace v (show "layout" ≠ "explicit_bounds" by decide), hother,
    Bool.false_eq_true, if_false, Json.getF64,
    get_replace_ne (show "buckets" ≠ "explicit_bounds" by decide),
    get_replace_ne (show "sum" ≠ "explicit_bounds" by decide),
    get_replace_ne (show "count" ≠ "explicit_bounds" by decide)]

omit [Build] in
theorem histogramBody_bounds {v : Json F} (h : (data.getStr "layout").getD "log2" ≠ "explicit") :
    histogramBody (data.replace "explicit_bounds" v) attrs ts = histogramBody data attrs ts := by
  have hsame : (data.replace "explicit_bounds" v).getStr "layout" = data.getStr "layout" :=
    layout_replace _ (by decide)
  have hbuckets : (data.replace "explicit_bounds" v).getArray "buckets" =
      data.getArray "buckets" := by
    rw [Json.getArray, Json.getArray, get_replace_ne (by decide)]
  by_cases hlog2 : (data.getStr "layout").getD "log2" = "log2"
  · rw [histogramBody_log2 (by rw [hsame]; exact hlog2), histogramBody_log2 hlog2,
      pointStart_replace _ (by decide) (by decide), hbuckets]
  · unfold histogramBody
    simp only [hsame, if_neg hlog2, if_neg h]

theorem boundsStay_iff (h : data.get "explicit_bounds" = some (.array xs)) :
    BoundsStay data ↔ ((data.getStr "layout").getD "log2" = "explicit" →
      ∀ y ∈ xs, y.asF64.isSome = true) := by
  apply Iff.intro
  · intro hstay hlayout y hy
    rw [← Option.ne_none_iff_isSome]
    intro hnone
    obtain ⟨i, hi⟩ := List.mem_iff_getElem?.1 hy
    obtain ⟨-, hbody⟩ := hstay xs i y h hi hnone
    have hbounds := (histogramBody_bounds_iff hlayout h).1 (hbody [] 0)
    have hzero : boundText (.nat 0 : Json F) = some (.float ((0 : UInt64).toNat : F)) := rfl
    exact asF64_of_text ((filterMap_set_iff hi hzero).1 hbounds) hnone
  · intro hall ys i y hys hi hnone
    rw [h, Option.some.injEq, Json.array.injEq] at hys
    subst hys
    by_cases hlayout : (data.getStr "layout").getD "log2" = "explicit"
    · have hsome := hall hlayout y (List.mem_of_getElem? hi)
      rw [hnone] at hsome
      cases hsome
    · exact ⟨histogramStats_bounds hlayout, fun _ _ => histogramBody_bounds hlayout⟩

/-- Every histogram over an array of buckets keeps the places of its counts exactly when all
elements are `u64`s; under a layout that the exporter knows, so does each one by itself. The
bounds keep theirs exactly when all are numbers, or the layout does not read them. -/
theorem positions_kept_iff (xs : List (Json F)) (hparsed : ∀ n, .number n ∈ xs → n.parsed) :
    ((∀ data, data.get "buckets" = some (.array xs) → BucketsStay data) ↔
        ∀ x ∈ xs, x.asU64.isSome = true) ∧
      (∀ data, data.get "buckets" = some (.array xs) → knownLayout data →
        (BucketsStay data ↔ ∀ x ∈ xs, x.asU64.isSome = true)) ∧
      ∀ (data : Json F) ys, data.get "explicit_bounds" = some (.array ys) →
        (BoundsStay data ↔ ((data.getStr "layout").getD "log2" = "explicit" →
          ∀ y ∈ ys, y.asF64.isSome = true)) := by
  have hknown : ∀ data : Json F, data.get "buckets" = some (.array xs) → knownLayout data →
      (BucketsStay data ↔ ∀ x ∈ xs, x.asU64.isSome = true) :=
    fun data h hlayout => bucketsStay_iff hlayout h hparsed
  refine ⟨?_, hknown, fun data ys h => boundsStay_iff h⟩
  apply Iff.intro
  · intro hall
    -- without a layout, the histogram is read as log2
    let data : Json F := .object [("buckets", .array xs)]
    exact (hknown data rfl (.inl rfl)).1 (hall data rfl)
  · intro hall data h
    exact bucketsStay_of_counts h hall

end Kept

section Float

attribute [local instance] releaseBuild

/-- One sample in the first bucket, five in the third, and a float between them. -/
def floatBetween : List (Json ℚ) := [.nat 1, .number (.float 3), .nat 5]

def floatData : Json ℚ := .object [("layout", .string "log2"), ("buckets", .array floatBetween)]

theorem floatBetween_parsed {n : Number ℚ} (h : .number n ∈ floatBetween) : n.parsed := by
  simp only [floatBetween, List.mem_cons, List.not_mem_nil, or_false] at h
  rcases h with h | h | h
  · rw [Json.number.inj h]
    trivial
  · rw [Json.number.inj h]
    rfl
  · rw [Json.number.inj h]
    trivial

theorem floatBetween_kept_iff :
    ((∀ data, data.get "buckets" = some (.array floatBetween) → BucketsStay data) ↔
        ∀ x ∈ floatBetween, x.asU64.isSome = true) ∧
      (∀ data, data.get "buckets" = some (.array floatBetween) → knownLayout data →
        (BucketsStay data ↔ ∀ x ∈ floatBetween, x.asU64.isSome = true)) ∧
      ∀ (data : Json ℚ) ys, data.get "explicit_bounds" = some (.array ys) →
        (BoundsStay data ↔ ((data.getStr "layout").getD "log2" = "explicit" →
          ∀ y ∈ ys, y.asF64.isSome = true)) :=
  positions_kept_iff floatBetween fun _ h => floatBetween_parsed h

/-- The five samples are taken for samples of the second bucket, which halves the median. -/
theorem float_moves_median :
    ¬ BucketsStay floatData ∧
      Prod.fst <$> Prod.snd <$> histogramStats floatData = .ok 3 ∧
      Prod.fst <$> Prod.snd <$> histogramStats (floatData.replace "buckets"
        (.array (floatBetween.set 1 (.nat 0)))) = .ok 6 := by
  refine ⟨?_, by decide +kernel, by decide +kernel⟩
  intro h
  have hall := (bucketsStay_iff (.inl rfl) rfl fun _ hn => floatBetween_parsed hn).1 h
  exact absurd (hall (.number (.float 3)) (by simp [floatBetween])) (by decide)

end Float

end Assayist
