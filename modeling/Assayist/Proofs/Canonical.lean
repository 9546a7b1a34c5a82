import Assayist.Lib.Keyed
import Assayist.Lib.Results
import Assayist.Proofs.JsonText
import Assayist.Spec.Contract
import Assayist.Spec.Def

/-! What the canonical text of a JSON value tells: the value, up to the order in which the keys
of its objects stand. -/

namespace Assayist

open Reading

section Values

variable {F : Type}

/-- A value as a parser leaves it: no key twice in an object, and every number parsed. -/
inductive Json.Parsed [F64 F] : Json F → Prop
  | null : Parsed .null
  | bool (b : Bool) : Parsed (.bool b)
  | number {n : Number F} (h : n.parsed) : Parsed (.number n)
  | string (s : String) : Parsed (.string s)
  | array {xs : List (Json F)} (h : ∀ x ∈ xs, Parsed x) : Parsed (.array xs)
  | object {m : List (String × Json F)} (hkeys : (m.map Prod.fst).Nodup)
      (h : ∀ e ∈ m, Parsed e.2) : Parsed (.object m)

/-- Two values that differ at most in the order of the keys of their objects, at any depth,
when numbers are compared by `same`. -/
inductive Reordered (same : Number F → Number F → Prop) : Json F → Json F → Prop
  | null : Reordered same .null .null
  | bool (b : Bool) : Reordered same (.bool b) (.bool b)
  | number {m n : Number F} (h : same m n) : Reordered same (.number m) (.number n)
  | string (s : String) : Reordered same (.string s) (.string s)
  | array {xs ys : List (Json F)} (hlength : xs.length = ys.length)
      (h : ∀ x y, (x, y) ∈ xs.zip ys → Reordered same x y) : Reordered same (.array xs) (.array ys)
  | object {m n : List (String × Json F)} (hkeys : (m.map Prod.fst).Perm (n.map Prod.fst))
      (h : ∀ k v w, (k, v) ∈ m → (k, w) ∈ n → Reordered same v w) :
      Reordered same (.object m) (.object n)

def sortedFields {β : Type} (m : List (String × β)) : List (String × β) :=
  m.mergeSort fun a b => !decide (b.1 < a.1)

variable [FloatText F]

def fieldChars (e : String × Json F) : List Char :=
  (Json.quote e.1).toList ++ ':' :: (canonicalJson e.2).toList

theorem canonicalItems_eq (xs : List (Json F)) : canonicalItems xs = xs.map canonicalJson := by
  induction xs with
  | nil => rfl
  | cons x xs ih => exact congrArg _ ih

theorem canonicalFields_eq (m : List (String × Json F)) :
    canonicalFields m = m.map fun e => (e.1, canonicalJson e.2) := by
  induction m with
  | nil => rfl
  | cons e m ih => exact congrArg _ ih

theorem canonical_array (xs : List (Json F)) : (canonicalJson (.array xs)).toList =
    '[' :: ([','].intercalate (xs.map fun x => (canonicalJson x).toList) ++ [']']) := by
  rw [canonicalJson, String.toList_append, String.toList_append, String.toList_intercalate,
    canonicalItems_eq, List.map_map]
  rfl

theorem canonical_object (m : List (String × Json F)) : (canonicalJson (.object m)).toList =
    '\x7b' :: ([','].intercalate ((sortedFields m).map fieldChars) ++ ['\x7d']) := by
  have hsorted : (sortedFields m).map (fun e => (e.1, canonicalJson e.2)) =
      (canonicalFields m).mergeSort fun a b => !decide (b.1 < a.1) := by
    rw [canonicalFields_eq]
    exact List.map_mergeSort fun _ _ _ _ => rfl
  rw [canonicalJson, joinFields, ← hsorted, String.toList_append, String.toList_append,
    String.toList_intercalate, List.map_map, List.map_map]
  have hfield : (String.toList ∘ fun e : String × String => Json.quote e.1 ++ ":" ++ e.2) ∘
      (fun e : String × Json F => (e.1, canonicalJson e.2)) = fieldChars := by
    funext e
    simp only [Function.comp_apply, String.toList_append, fieldChars, List.append_assoc]
    rfl
  rw [hfield]
  rfl

/-- What a value's text starts with, `0` standing for the start of a number. -/
def lead : Json F → Char
  | .null => 'n'
  | .bool b => if b then 't' else 'f'
  | .number _ => '0'
  | .string _ => '"'
  | .array _ => '['
  | .object _ => '\x7b'

def kindOf (c : Char) : Char := if c ∈ numberChars then '0' else c

variable [F64 F]

theorem canonical_starts (hF : FloatsPrinted F) {v : Json F} (h : v.Parsed) :
    Starts (fun c => kindOf c = lead v) (canonicalJson v).toList := by
  cases h with
  | null =>
    have htext : canonicalJson (.null : Json F) = "null" := rfl
    exact ⟨'n', "ull".toList, congrArg String.toList htext, rfl⟩
  | bool b =>
    have htext : canonicalJson (.bool b : Json F) = if b then "true" else "false" := rfl
    cases b with
    | false => exact ⟨'f', "alse".toList, congrArg String.toList htext, rfl⟩
    | true => exact ⟨'t', "rue".toList, congrArg String.toList htext, rfl⟩
  | number hn =>
    obtain ⟨c, cs, hc, hmem⟩ := number_starts hF hn
    exact ⟨c, cs, hc, if_pos hmem⟩
  | string s => exact ⟨'"', _, String.toList_ofList, rfl⟩
  | array h => exact ⟨'[', _, canonical_array _, rfl⟩
  | object hkeys h => exact ⟨'\x7b', _, canonical_object _, rfl⟩

omit [FloatText F] [F64 F] in
theorem lead_ne_close (v : Json F) : lead v ≠ ']' := by
  cases v with
  | bool b => cases b <;> simp [lead]
  | _ => simp [lead]

theorem canonical_ne_close (hF : FloatsPrinted F) {v : Json F} (h : v.Parsed) :
    Starts (· ≠ ']') (canonicalJson v).toList := by
  obtain ⟨c, cs, hc, hlead⟩ := canonical_starts hF h
  refine ⟨c, cs, hc, ?_⟩
  rintro rfl
  exact lead_ne_close v hlead.symm

/-- Texts that start alike are of values of one kind. -/
theorem lead_eq (hF : FloatsPrinted F) {u v : Json F} (hu : u.Parsed) (hv : v.Parsed)
    {r s : List Char} (h : (canonicalJson u).toList ++ r = (canonicalJson v).toList ++ s) :
    lead u = lead v := by
  obtain ⟨c, cs, hc, hlead⟩ := canonical_starts hF hu
  obtain ⟨d, ds, hd, hlead'⟩ := canonical_starts hF hv
  rw [hc, hd] at h
  rw [← hlead, ← hlead', (List.cons.inj h).1]

theorem mem_sortedFields {β : Type} {m : List (String × β)} {e : String × β} :
    e ∈ sortedFields m ↔ e ∈ m := List.mem_mergeSort

omit [F64 F] in
theorem fieldChars_starts (e : String × Json F) : Starts (· ≠ '\x7d') (fieldChars e) := by
  unfold fieldChars Json.quote
  rw [String.toList_ofList]
  exact ⟨'"', _, rfl, by decide⟩

omit [F64 F] in
theorem read_field {e e' : String × Json F}
    (h : ReadAs (Reordered Eq) (fun w => (canonicalJson w).toList)
      (fun c => c ∉ numberChars) e.2 e'.2) :
    ReadAs (fun e e' => e.1 = e'.1 ∧ Reordered Eq e.2 e'.2) fieldChars
      (fun c => c ∉ numberChars) e e' := by
  intro r s hr hs heq
  simp only [fieldChars, List.append_assoc, List.cons_append] at heq
  obtain ⟨hkey, hrest⟩ := read_quote heq
  obtain ⟨hvalue, hrs⟩ := h r s hr hs (List.cons.inj hrest).2
  exact ⟨⟨hkey, hvalue⟩, hrs⟩

omit [FloatText F] [F64 F] in
theorem reordered_of_sorted {m n : List (String × Json F)} (hkeys : (n.map Prod.fst).Nodup)
    (h : List.Forall₂ (fun e e' => e.1 = e'.1 ∧ Reordered Eq e.2 e'.2) (sortedFields m)
      (sortedFields n)) : Reordered Eq (.object m) (.object n) := by
  have hsame : (sortedFields m).map Prod.fst = (sortedFields n).map Prod.fst := by
    rw [← List.forall₂_eq_eq_eq, List.forall₂_map_left_iff, List.forall₂_map_right_iff]
    exact h.imp fun e e' he => he.1
  refine .object ?_ ?_
  · have hm := (List.mergeSort_perm m fun a b => !decide (b.1 < a.1)).map Prod.fst
    have hn := (List.mergeSort_perm n fun a b => !decide (b.1 < a.1)).map Prod.fst
    exact hm.symm.trans ((List.Perm.of_eq hsame).trans hn)
  · intro k v w hv hw
    obtain ⟨⟨l, w'⟩, hw', rfl, hvalue⟩ := Results.exists_right h (mem_sortedFields.2 hv)
    have heq : w' = w := by
      have hlookup := Keyed.lookup_of_mem hkeys hw
      rw [Keyed.lookup_of_mem hkeys (mem_sortedFields.1 hw')] at hlookup
      exact Option.some.inj hlookup
    rwa [← heq]

/-- A canonical text can be read wherever no number could go on. -/
theorem read_canonical (hF : FloatsPrinted F) {u : Json F} (hu : u.Parsed) {v : Json F}
    (hv : v.Parsed) : ReadAs (Reordered Eq) (fun w => (canonicalJson w).toList)
      (fun c => c ∉ numberChars) u v := by
  induction hu generalizing v with
  | null =>
    intro r s hr hs h
    have hlead := lead_eq hF .null hv h
    cases hv with
    | null => exact ⟨.null, List.append_cancel_left h⟩
    | bool b => cases b <;> cases hlead
    | _ => cases hlead
  | bool b =>
    intro r s hr hs h
    have hlead := lead_eq hF (.bool b) hv h
    cases hv with
    | bool c =>
      cases b with
      | false => cases c with
        | false => exact ⟨.bool _, List.append_cancel_left h⟩
        | true => cases hlead
      | true => cases c with
        | false => cases hlead
        | true => exact ⟨.bool _, List.append_cancel_left h⟩
    | _ => cases b <;> cases hlead
  | number hm =>
    intro r s hr hs h
    have hlead := lead_eq hF (.number hm) hv h
    cases hv with
    | number hn =>
      have hplain {k : Number F} (hk : k.parsed) : ∀ c ∈ k.text.toList, ¬ c ∉ numberChars :=
        fun c hc => not_not.2 (number_chars hF hk c hc)
      obtain ⟨htext, hrs⟩ := read_run (hplain hm) (hplain hn) hr hs h
      exact ⟨.number (number_text_inj hF hm hn (String.toList_injective htext)), hrs⟩
    | bool b => cases b <;> cases hlead
    | _ => cases hlead
  | string k =>
    intro r s hr hs h
    have hlead := lead_eq hF (.string k) hv h
    cases hv with
    | string l =>
      obtain ⟨rfl, hrs⟩ := read_quote h
      exact ⟨.string k, hrs⟩
    | bool b => cases b <;> cases hlead
    | _ => cases hlead
  | @array xs hxs ih =>
    intro r s hr hs h
    have hlead := lead_eq hF (.array hxs) hv h
    cases hv with
    | @array ys hys =>
      simp only [canonical_array, List.cons_append, List.append_assoc] at h
      obtain ⟨hall, hrs⟩ := read_intercalate (by decide)
        (by decide) (by decide) (fun x hx => canonical_ne_close hF (hxs x hx))
        (fun y hy => canonical_ne_close hF (hys y hy)) (fun x hx y hy => ih x hx (hys y hy))
        (List.cons.inj h).2
      have hzip := List.forall₂_iff_zip.1 hall
      exact ⟨.array hzip.1 fun x y => hzip.2, hrs⟩
    | bool b => cases b <;> cases hlead
    | _ => cases hlead
  | @object m hkeys hm ih =>
    intro r s hr hs h
    have hlead := lead_eq hF (.object hkeys hm) hv h
    cases hv with
    | @object n hkeys' hn =>
      simp only [canonical_object, List.cons_append, List.append_assoc] at h
      obtain ⟨hall, hrs⟩ := read_intercalate (by decide)
        (by decide) (by decide) (fun e _ => fieldChars_starts e) (fun e _ => fieldChars_starts e)
        (fun e he e' he' => read_field
          (ih e (mem_sortedFields.1 he) (hn e' (mem_sortedFields.1 he')))) (List.cons.inj h).2
      exact ⟨reordered_of_sorted hkeys' hall, hrs⟩
    | bool b => cases b <;> cases hlead
    | _ => cases hlead

omit [F64 F] in
theorem mem_canonicalFields {m : List (String × Json F)} {k t : String} :
    (k, t) ∈ canonicalFields m ↔ ∃ v, (k, v) ∈ m ∧ canonicalJson v = t := by
  rw [canonicalFields_eq, List.mem_map]
  apply Iff.intro
  · rintro ⟨⟨l, v⟩, hv, heq⟩
    obtain ⟨rfl, ht⟩ := Prod.mk.inj heq
    exact ⟨v, hv, ht⟩
  · rintro ⟨v, hv, rfl⟩
    exact ⟨(k, v), hv, rfl⟩

omit [F64 F] in
theorem canonicalFields_keys (m : List (String × Json F)) :
    (canonicalFields m).map Prod.fst = m.map Prod.fst := by
  rw [canonicalFields_eq, List.map_map]
  rfl

omit [F64 F] in
theorem joinFields_eq_of_perm {fields fields' : List (String × String)}
    (h : (fields.map Prod.fst).Nodup) (hperm : fields.Perm fields') :
    joinFields fields = joinFields fields' := by
  have hsort := Keyed.mergeSort_eq_of_perm (fun a b => !decide (b < a)) ?_ ?_ ?_ h hperm
  · unfold joinFields
    rw [hsort]
  · intro a b c hab hbc
    simp only [Bool.not_eq_true', decide_eq_false_iff_not, String.not_lt] at hab hbc ⊢
    exact String.le_trans hab hbc
  · intro a b
    simp only [Bool.or_eq_true, Bool.not_eq_true', decide_eq_false_iff_not, String.not_lt]
    exact String.le_total a b
  · intro a b hab hba
    simp only [Bool.not_eq_true', decide_eq_false_iff_not, String.not_lt] at hab hba
    exact String.le_antisymm hab hba

/-- Values that differ in the order of keys have one canonical text. -/
theorem canonical_of_reordered {u v : Json F} (h : Reordered Eq u v) (hu : u.Parsed)
    (hv : v.Parsed) : canonicalJson u = canonicalJson v := by
  induction h with
  | null => rfl
  | bool b => rfl
  | number hmn => rw [hmn]
  | string s => rfl
  | @array xs ys hlength h ih =>
    obtain _ | _ | _ | _ | hxs := hu
    obtain _ | _ | _ | _ | hys := hv
    have hall : xs.map canonicalJson = ys.map canonicalJson := by
      rw [← List.forall₂_eq_eq_eq, List.forall₂_map_left_iff, List.forall₂_map_right_iff,
        List.forall₂_iff_zip]
      refine ⟨hlength, fun {x y} hxy => ?_⟩
      have hmem := List.of_mem_zip hxy
      exact ih x y hxy (hxs x hmem.1) (hys y hmem.2)
    rw [canonicalJson, canonicalJson, canonicalItems_eq, canonicalItems_eq, hall]
  | @object m n hkeys h ih =>
    obtain _ | _ | _ | _ | _ | ⟨hm, hms⟩ := hu
    obtain _ | _ | _ | _ | _ | ⟨hn, hns⟩ := hv
    have hnodup : ((canonicalFields m).map Prod.fst).Nodup := by rwa [canonicalFields_keys]
    have hnodup' : ((canonicalFields n).map Prod.fst).Nodup := by rwa [canonicalFields_keys]
    rw [canonicalJson, canonicalJson]
    refine joinFields_eq_of_perm hnodup ?_
    rw [List.perm_ext_iff_of_nodup (hnodup.of_map _) (hnodup'.of_map _)]
    rintro ⟨k, t⟩
    rw [mem_canonicalFields, mem_canonicalFields]
    apply Iff.intro
    · rintro ⟨v, hv, rfl⟩
      have hk : k ∈ n.map Prod.fst := hkeys.mem_iff.1 (List.mem_map_of_mem (f := Prod.fst) hv)
      obtain ⟨⟨l, w⟩, hw, rfl⟩ := List.mem_map.1 hk
      exact ⟨w, hw, (ih l v w hv hw (hms _ hv) (hns _ hw)).symm⟩
    · rintro ⟨w, hw, rfl⟩
      have hk : k ∈ m.map Prod.fst := hkeys.mem_iff.2 (List.mem_map_of_mem (f := Prod.fst) hw)
      obtain ⟨⟨l, v⟩, hv, rfl⟩ := List.mem_map.1 hk
      exact ⟨v, hv, ih l v w hv hw (hms _ hv) (hns _ hw)⟩

theorem canonicalJson_inj_iff (hF : FloatsPrinted F) {u v : Json F} (hu : u.Parsed)
    (hv : v.Parsed) : canonicalJson u = canonicalJson v ↔ Reordered Eq u v := by
  apply Iff.intro
  · intro h
    have hend : Ends (fun c => c ∉ numberChars) [] := fun _ hc => nomatch hc
    exact (read_canonical hF hu hv [] [] hend hend (congrArg (fun t => t.toList ++ []) h)).1
  · exact fun h => canonical_of_reordered h hu hv

omit [F64 F] in
theorem hash_of_cell {sha256Hex : String → String} {d : BenchmarkDef F} {cell : Cell F}
    (h : cell ∈ expandCells sha256Hex d) :
    cell.paramsHash = sha256Hex (canonicalJson cell.params) := by
  obtain ⟨combo, -, rfl⟩ := List.mem_map.1 h
  rfl

/-- Two values have one canonical text when they differ at most in the order of keys, numbers
being compared by form and value; and so it is for the hashes of two cells with these
parameters, when SHA-256 does not take their two texts to one digest. -/
theorem canonical_eq_iff (hF : FloatsPrinted F) {u v : Json F} (hu : u.Parsed) (hv : v.Parsed) :
    (canonicalJson u = canonicalJson v ↔ Reordered Eq u v) ∧
    ∀ (sha256Hex : String → String) (d d' : BenchmarkDef F) (cell cell' : Cell F),
      (sha256Hex (canonicalJson u) = sha256Hex (canonicalJson v) →
        canonicalJson u = canonicalJson v) →
      cell ∈ expandCells sha256Hex d → cell' ∈ expandCells sha256Hex d' → cell.params = u →
      cell'.params = v → (cell.paramsHash = cell'.paramsHash ↔ Reordered Eq u v) := by
  have hiff := canonicalJson_inj_iff hF hu hv
  refine ⟨hiff, ?_⟩
  rintro sha256Hex d d' cell cell' hsha hcell hcell' rfl rfl
  rw [hash_of_cell hcell, hash_of_cell hcell', ← hiff]
  exact ⟨hsha, fun h => congrArg sha256Hex h⟩

end Values

section Zeros

/-- Whole floats, with the sign that a zero has as well. -/
structure SignedWhole where
  negative : Bool
  size : ℕ
  deriving DecidableEq

namespace SignedWhole

def value (x : SignedWhole) : ℤ := if x.negative then -x.size else x.size

def ofValue (n : ℤ) : SignedWhole := ⟨decide (n < 0), n.natAbs⟩

/-- Arithmetic on the values; comparison does not see the sign of a zero. -/
instance : F64 SignedWhole where
  zero := ofValue 0
  one := ofValue 1
  add x y := ofValue (x.value + y.value)
  sub x y := ofValue (x.value - y.value)
  mul x y := ofValue (x.value * y.value)
  div x y := ofValue (x.value / y.value)
  natCast n := ofValue n
  intCast n := ofValue n
  lt x y := x.value < y.value
  le x y := x.value ≤ y.value
  beq x y := x.value == y.value
  max x y := if x.value < y.value then y else x
  abs x := ⟨false, x.size⟩
  sqrt x := ofValue (Nat.sqrt x.size)
  isFinite _ := true
  decLt x y := inferInstanceAs (Decidable (x.value < y.value))
  decLe x y := inferInstanceAs (Decidable (x.value ≤ y.value))

def sign : Bool → String
  | true => "-"
  | false => ""

instance : FloatText SignedWhole where
  display x := sign x.negative ++ toString x.size
  parse s := s.toInt?.map ofValue
  ryu x := sign x.negative ++ toString x.size ++ ".0"

theorem toList_ryu (x : SignedWhole) : (FloatText.ryu x).toList =
    (sign x.negative).toList ++ ((toString x.size).toList ++ ['.', '0']) := by
  change (sign x.negative ++ toString x.size ++ ".0").toList = _
  rw [String.toList_append, String.toList_append, List.append_assoc]
  rfl

/-- The sign and the digits can be told from the text. -/
theorem ryu_injective {x y : SignedWhole}
    (h : (FloatText.ryu x : String) = FloatText.ryu y) : x = y := by
  have hdigit (n : ℕ) (cs : List Char) : (toString n).toList ≠ '-' :: cs := by
    obtain ⟨d, ds, hlist, -, hdigits, -⟩ := toList_nat n
    rw [hlist]
    intro heq
    have hd := hdigits d List.mem_cons_self
    rw [(List.cons.inj heq).1] at hd
    exact absurd hd (by decide)
  have hsize {m n : ℕ} (heq : (toString m).toList = (toString n).toList) : m = n :=
    toString_nat_inj (String.toList_injective heq)
  have hminus : (sign true).toList = ['-'] := rfl
  have hplus : (sign false).toList = [] := rfl
  obtain ⟨b, m⟩ := x
  obtain ⟨c, n⟩ := y
  have hlist := congrArg String.toList h
  rw [toList_ryu, toList_ryu, ← List.append_assoc, ← List.append_assoc,
    List.append_left_inj] at hlist
  change (sign b).toList ++ (toString m).toList = (sign c).toList ++ (toString n).toList at hlist
  cases b with
  | false =>
    cases c with
    | false => rw [hsize hlist]
    | true =>
      rw [hplus, hminus] at hlist
      exact absurd hlist (hdigit m _)
  | true =>
    cases c with
    | false =>
      rw [hplus, hminus] at hlist
      exact absurd hlist.symm (hdigit n _)
    | true =>
      rw [hminus] at hlist
      rw [hsize (List.cons.inj hlist).2]

theorem floatsPrinted : FloatsPrinted SignedWhole := by
  have hsign : ∀ b, ((sign b).toList.all fun c => decide (c ∈ numberChars)) = true := by decide
  refine ⟨fun x _ c hc => ?_, fun x _ => ⟨'.', ?_, by decide⟩, fun x y _ _ h => ryu_injective h⟩
  · rw [toList_ryu, List.mem_append, List.mem_append] at hc
    rcases hc with hc | hc | hc
    · exact of_decide_eq_true (List.all_eq_true.1 (hsign x.negative) c hc)
    · obtain ⟨d, ds, hlist, -, hdigits, -⟩ := toList_nat x.size
      rw [hlist] at hc
      exact (numberChar_of_digit (hdigits c hc)).1
    · rcases List.mem_pair.1 hc with rfl | rfl <;> decide
  · rw [toList_ryu]
    simp

end SignedWhole

def buffersDef (first second : String) : BenchmarkDef SignedWhole where
  apiVersion := "assayist/v0"
  name := "buffers"
  target := ⟨"local", "1", [], []⟩
  workload := ⟨"fio", "3", [], []⟩
  gate := ⟨"longitudinal_drift", none, none, none, []⟩
  parameterise := [("buffers", [.object [(first, .nat 1), (second, .nat 1)]])]
  compare := none
  capture := []
  hostPrep := .null
  tenancy := "single_tenant"

def buffers (first second : String) : Json SignedWhole :=
  .object [("buffers", .object [(first, .nat 1), (second, .nat 1)])]

theorem buffers_parsed {first second : String} (h : first ≠ second) :
    (buffers first second).Parsed := by
  have hone : (Json.nat 1 : Json SignedWhole).Parsed := .number trivial
  refine .object (by simp) ?_
  simp only [List.forall_mem_singleton]
  refine .object (by simpa using h) ?_
  simp only [List.forall_mem_cons, List.not_mem_nil, false_imp_iff, implies_true, and_true]
  exact ⟨hone, hone⟩

theorem canonical_eq_iff_buffers :
    (canonicalJson (buffers "rx" "tx") = canonicalJson (buffers "tx" "rx") ↔
      Reordered Eq (buffers "rx" "tx") (buffers "tx" "rx")) ∧
    ((⟨buffers "rx" "tx", canonicalJson (buffers "rx" "tx")⟩ : Cell SignedWhole).paramsHash =
        (⟨buffers "tx" "rx", canonicalJson (buffers "tx" "rx")⟩ : Cell SignedWhole).paramsHash ↔
      Reordered Eq (buffers "rx" "tx") (buffers "tx" "rx")) := by
  have hrx : (buffers "rx" "tx").Parsed := buffers_parsed (by decide)
  have htx : (buffers "tx" "rx").Parsed := buffers_parsed (by decide)
  have hiff := canonical_eq_iff SignedWhole.floatsPrinted hrx htx
  exact ⟨hiff.1, hiff.2 id (buffersDef "rx" "tx") (buffersDef "tx" "rx") _ _ id
    (List.mem_singleton.2 rfl) (List.mem_singleton.2 rfl) rfl rfl⟩

def zeroJson (negative : Bool) : Json SignedWhole := .number (.float ⟨negative, 0⟩)

/-- The two zeros compare equal, and are printed apart. -/
theorem zeros_apart : FloatsPrinted SignedWhole ∧
    (zeroJson false).Parsed ∧ (zeroJson true).Parsed ∧
    Reordered (fun m n => m.beq n = true) (zeroJson false) (zeroJson true) ∧
    canonicalJson (zeroJson false) ≠ canonicalJson (zeroJson true) :=
  ⟨SignedWhole.floatsPrinted, .number rfl, .number rfl, .number rfl, by decide +kernel⟩

end Zeros

end Assayist
