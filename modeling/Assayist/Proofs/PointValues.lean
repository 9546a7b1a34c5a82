import Assayist.Proofs.Pointwise

/-! The value of a sum's or a gauge's data point against that of the series it is imported
as. A sum is read for an unsigned integer only and a gauge for a double only, and what they
do not read they take for zero. -/

namespace Assayist

/-- The number a data point holds, in either of its encodings. -/
inductive PointValue where
  | int (n : ℤ)
  | double (x : ℝ)

noncomputable def PointValue.real : PointValue → ℝ
  | .int n => n
  | .double x => x

/-- A point's number as it is written: `asInt` as a decimal string or a JSON integer, or
`asDouble` as a JSON number. -/
inductive Encodes (p : Json ℝ) : PointValue → Prop where
  | text {t : String} {n : ℤ} (hint : p.get "asInt" = some (.string t))
      (hn : readI64 t = some n) (hdouble : p.get "asDouble" = none) : Encodes p (.int n)
  | integer {k : Number ℝ} {n : ℤ} (hint : p.get "asInt" = some (.number k)) (hk : k.parsed)
      (hn : k.asI64 = some n) (hdouble : p.get "asDouble" = none) : Encodes p (.int n)
  | double {k : Number ℝ} (hdouble : p.get "asDouble" = some (.number k))
      (hint : p.get "asInt" = none) : Encodes p (.double k.asF64)

inductive ScalarBody where
  | sum
  | gauge

namespace ScalarBody

def field : ScalarBody → String
  | sum => "sum"
  | gauge => "gauge"

/-- The numbers a body's points are read for: unsigned integers in a sum, doubles in a
gauge. Anything else is read as zero. -/
def Reads : ScalarBody → PointValue → Prop
  | sum, .int n => 0 ≤ n
  | sum, .double x => x = 0
  | gauge, .int n => n = 0
  | gauge, .double _ => True

end ScalarBody

/-- A data point of a sum or a gauge, with the series it is imported as. -/
structure ScalarPoint where
  metric : Json ℝ
  body : ScalarBody
  point : Json ℝ
  value : PointValue
  series : Json ℝ
  placed : firstBody metric = some body.field
  first : (bodyPoints metric body.field).head? = some point
  encoded : Encodes point value
  imported : importMetric metric = some series

def ScalarPoint.Kept (d : ScalarPoint) : Prop :=
  (d.series.get "data").bind (·.getF64 "value") = some d.value.real

section Integers

theorem parseU64_minus {t : String} {ds : List Char} (h : t.toList = '-' :: ds) :
    parseU64 t = none := by
  unfold parseU64
  rw [h]
  rfl

/-- What the unsigned reader makes of a signed integer's text. -/
theorem parseU64_readI64 {t : String} {n : ℤ} (h : readI64 t = some n) :
    ((parseU64 t).getD 0).toNat = n.toNat := by
  unfold readI64 at h
  split at h
  case h_1 ds heq =>
    rw [parseU64_minus heq]
    split_ifs at h
    obtain ⟨k, -, hk⟩ := Option.bind_eq_some_iff.1 h
    split_ifs at hk
    rw [← Option.some.inj hk]
    simp
  case h_2 =>
    obtain ⟨k, hk, hn⟩ := Option.bind_eq_some_iff.1 h
    split_ifs at hn
    rw [hk, ← Option.some.inj hn]
    simp

theorem asU64_asI64 {F : Type} [F64 F] {k : Number F} {n : ℤ} (hk : k.parsed)
    (h : k.asI64 = some n) : (k.asU64.getD 0).toNat = n.toNat := by
  cases k with
  | posInt m =>
    simp only [Number.asI64] at h
    split_ifs at h
    rw [← Option.some.inj h]
    simp [Number.asU64]
  | negInt m =>
    have hneg : m < 0 := hk.2
    rw [← Option.some.inj h, Int.toNat_of_nonpos hneg.le]
    rfl
  | float x => exact absurd h (by simp [Number.asI64])

variable {p : Json ℝ}

theorem strU64_string {F : Type} (t : String) :
    strU64 (some (.string t) : Option (Json F)) = (parseU64 t).getD 0 := by
  unfold strU64
  cases h : parseU64 t with
  | none => simp [Json.asStr, Json.asU64, h]
  | some n => simp [Json.asStr, h]

/-- An integer is read as it is when it is not negative, and as zero otherwise. -/
theorem strU64_int {n : ℤ} (h : Encodes p (.int n)) :
    (strU64 (p.get "asInt")).toNat = n.toNat := by
  cases h with
  | text hint hn _ =>
    rw [hint, strU64_string]
    exact parseU64_readI64 hn
  | integer hint hk hn _ =>
    rw [hint]
    exact asU64_asI64 hk hn

theorem strU64_double {x : ℝ} (h : Encodes p (.double x)) :
    (strU64 (p.get "asInt")).toNat = 0 := by
  cases h with
  | double _ hint =>
    rw [hint]
    rfl

theorem asDouble_int {n : ℤ} (h : Encodes p (.int n)) : p.getF64 "asDouble" = none := by
  unfold Json.getF64
  cases h with
  | text _ _ hdouble =>
    rw [hdouble]
    rfl
  | integer _ _ _ hdouble =>
    rw [hdouble]
    rfl

theorem asDouble_double {x : ℝ} (h : Encodes p (.double x)) :
    p.getF64 "asDouble" = some x := by
  unfold Json.getF64
  cases h with
  | double hdouble _ =>
    rw [hdouble]
    rfl

end Integers

section Series

variable {F : Type} {m s p : Json F}

theorem get_before_first {body : String} (before after : List String)
    (hnames : bodyNames = before ++ body :: after) (hmem : body ∉ before)
    (h : firstBody m = some body) : ∀ b ∈ before, m.get b = none := by
  unfold firstBody at h
  rw [hnames, List.find?_append, Option.or_eq_some_iff] at h
  rcases h with hfound | ⟨hnone, -⟩
  · exact absurd (List.mem_of_find?_eq_some hfound) hmem
  · intro b hb
    have habsent := List.find?_eq_none.1 hnone b hb
    rwa [Option.not_isSome_iff_eq_none] at habsent

theorem firstBody_sum (h : firstBody m = some "sum") :
    m.get "exponentialHistogram" = none ∧ m.get "histogram" = none ∧
      ∃ v, m.get "sum" = some v := by
  have hbefore := get_before_first ["exponentialHistogram", "histogram"] ["gauge"] rfl
    (by decide) h
  exact ⟨hbefore _ (by simp), hbefore _ (by simp), (firstBody_eq_some h).2⟩

theorem firstBody_gauge (h : firstBody m = some "gauge") :
    m.get "exponentialHistogram" = none ∧ m.get "histogram" = none ∧ m.get "sum" = none ∧
      ∃ v, m.get "gauge" = some v := by
  have hbefore := get_before_first ["exponentialHistogram", "histogram", "sum"] [] rfl
    (by decide) h
  exact ⟨hbefore _ (by simp), hbefore _ (by simp), hbefore _ (by simp), (firstBody_eq_some h).2⟩

variable [F64 F]

theorem importMetric_data (h : importMetric m = some s) :
    ∃ d, metricData m = some d ∧ s.get "data" = some d.2.2 := by
  rw [importMetric_of_not_probe (isProbe_of_imported h)] at h
  obtain ⟨name, -, h⟩ := Option.bind_eq_some_iff.1 h
  obtain ⟨⟨kind, q, data⟩, hdata, h⟩ := Option.bind_eq_some_iff.1 h
  refine ⟨_, hdata, ?_⟩
  rw [← Option.some.inj h]
  change (carrySourceKey q ++ [("data", data)]).lookup "data" = _
  unfold carrySourceKey
  cases dpAttr q "assayist.source" <;> cases dpAttr q "assayist.key" <;> rfl

theorem metricData_sum (h : firstBody m = some "sum")
    (hp : (bodyPoints m "sum").head? = some p) :
    metricData m = some ("counter", p, .object [("value", .nat (strU64 (p.get "asInt"))),
      ("start_unix_nano", .nat (strU64 (p.get "timeUnixNano")))]) := by
  obtain ⟨heh, hh, v, hv⟩ := firstBody_sum h
  unfold metricData
  rw [heh, hh, hv]
  change (firstPoint v).bind _ = _
  rw [firstPoint_eq hv, hp]
  rfl

theorem metricData_gauge (h : firstBody m = some "gauge")
    (hp : (bodyPoints m "gauge").head? = some p) :
    metricData m = some ("gauge", p, .object [
      ("value", .float ((p.getF64 "asDouble").getD 0)),
      ("time_unix_nano", .nat (strU64 (p.get "timeUnixNano")))]) := by
  obtain ⟨heh, hh, hs, v, hv⟩ := firstBody_gauge h
  unfold metricData
  rw [heh, hh, hs, hv]
  change (firstPoint v).bind _ = _
  rw [firstPoint_eq hv, hp]
  rfl

end Series

namespace ScalarPoint

/-- What a point's series has for its value. -/
theorem value_eq (d : ScalarPoint) :
    (d.series.get "data").bind (·.getF64 "value") = some (match d.body with
      | .sum => ((strU64 (d.point.get "asInt")).toNat : ℝ)
      | .gauge => (d.point.getF64 "asDouble").getD 0) := by
  obtain ⟨data, hdata, hseries⟩ := importMetric_data d.imported
  have hplaced := d.placed
  have hfirst := d.first
  rw [hseries, Option.bind_some]
  cases hbody : d.body with
  | sum =>
    rw [hbody] at hplaced hfirst
    rw [metricData_sum hplaced hfirst] at hdata
    rw [← Option.some.inj hdata]
    rfl
  | gauge =>
    rw [hbody] at hplaced hfirst
    rw [metricData_gauge hplaced hfirst] at hdata
    rw [← Option.some.inj hdata]
    rfl

/-- A point's value is that of its series exactly when its body is read for it. -/
theorem kept_iff (d : ScalarPoint) : d.Kept ↔ d.body.Reads d.value := by
  have hencoded := d.encoded
  unfold Kept
  rw [d.value_eq, Option.some.injEq]
  cases hvalue : d.value with
  | int n =>
    rw [hvalue] at hencoded
    cases d.body with
    | sum =>
      change ((strU64 (d.point.get "asInt")).toNat : ℝ) = (n : ℝ) ↔ 0 ≤ n
      rw [strU64_int hencoded, ← Int.cast_natCast, Int.cast_inj, Int.toNat_eq_max]
      omega
    | gauge =>
      change (d.point.getF64 "asDouble").getD 0 = (n : ℝ) ↔ n = 0
      rw [asDouble_int hencoded, Option.getD_none, eq_comm, Int.cast_eq_zero]
  | double x =>
    rw [hvalue] at hencoded
    cases d.body with
    | sum =>
      change ((strU64 (d.point.get "asInt")).toNat : ℝ) = x ↔ x = 0
      rw [strU64_double hencoded, Nat.cast_zero, eq_comm]
    | gauge =>
      change (d.point.getF64 "asDouble").getD 0 = x ↔ True
      rw [asDouble_double hencoded, Option.getD_some, iff_true]

/-- A sum of half a core-second, which OTLP may only write as a double. -/
def fractionalSum : Json ℝ :=
  .object [("name", .string "process.cpu.time"), ("unit", .string "s"),
    ("sum", .object [("isMonotonic", .bool true), ("aggregationTemporality", .nat 2),
      ("dataPoints", .array [.object [("asDouble", .number (.float 0.5)),
        ("timeUnixNano", .string "1700000000000000000")]])])]

/-- It is imported as zero. -/
theorem fraction_lost :
    ∃ d : ScalarPoint, d.metric = fractionalSum ∧ d.value = .double 0.5 ∧ ¬d.Kept := by
  let d : ScalarPoint :=
    { metric := fractionalSum
      body := .sum
      point := .object [("asDouble", .number (.float 0.5)),
        ("timeUnixNano", .string "1700000000000000000")]
      value := .double 0.5
      series := .object [("name", .string "process.cpu.time"), ("unit", .string "s"),
        ("kind", .string "counter"), ("data", .object [("value", .nat 0),
          ("start_unix_nano", .nat 1700000000000000000)])]
      placed := rfl
      first := rfl
      encoded := @Encodes.double _ (.float 0.5) rfl rfl
      imported := rfl }
  refine ⟨d, rfl, rfl, fun h => ?_⟩
  have hvalue : ((0 : ℕ) : ℝ) = 0.5 := Option.some.inj h
  norm_num at hvalue

end ScalarPoint

end Assayist
