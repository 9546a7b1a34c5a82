import Mathlib.Data.String.Basic
import Assayist.Proofs.Text
import Assayist.Spec.Otlp

/-! Attributes written to OTLP and read back: each scalar under the tag of its type, and an
attribute map as a list that the reader inserts in key order. -/

namespace Assayist

section Integers

theorem readI64_nat {n : ℕ} (h : n < 2 ^ 63) : readI64 (toString (n : ℤ)) = some (n : ℤ) := by
  have htext : toString (n : ℤ) = toString n := rfl
  have hparse := parseU64_nat n (h.trans (by norm_num))
  obtain ⟨c, cs, hlist, -, hdigits, -⟩ := toList_nat n
  have hc : c ≠ '-' := by
    intro hc
    have hdigit := hdigits c List.mem_cons_self
    rw [hc] at hdigit
    exact absurd hdigit (by decide)
  have hsize : (UInt64.ofNat n).toNat = n := UInt64.toNat_ofNat_of_lt' (h.trans (by norm_num))
  unfold readI64
  rw [htext, hlist]
  split
  · next heq => exact absurd (List.cons.inj heq).1 hc
  · rw [hparse, Option.bind_some, hsize, if_pos h]

theorem readI64_neg {n : ℕ} (h : n < 2 ^ 63) :
    readI64 (toString (Int.negSucc n)) = some (Int.negSucc n) := by
  obtain ⟨c, cs, hlist, -, hdigits, hvalue⟩ := toList_nat (n + 1)
  have hdigitsValue : digitsValue (c :: cs) 0 = some (n + 1) := by
    rw [digitsValue_of_digits _ hdigits, hvalue]
  unfold readI64
  rw [toList_neg, hlist]
  simp only [List.isEmpty_cons, Bool.false_eq_true, if_false, hdigitsValue, Option.bind_some]
  rw [if_pos (by omega)]
  rfl

theorem readI64_toString {n : ℤ} (hlow : -2 ^ 63 ≤ n) (hhigh : n < 2 ^ 63) :
    readI64 (toString n) = some n := by
  cases n with
  | ofNat n =>
    have hn : (n : ℤ) < 2 ^ 63 := hhigh
    exact readI64_nat (by omega)
  | negSucc n =>
    have hn : -2 ^ 63 ≤ Int.negSucc n := hlow
    rw [Int.negSucc_eq] at hn
    exact readI64_neg (by omega)

/-- A `u64` survives the casts to `i64` and back. -/
theorem castU64_asI64Cast (v : UInt64) : castU64 (asI64Cast v) = v := by
  have hsize := v.toNat_lt
  have hmod : asI64Cast v % 2 ^ 64 = (v.toNat : ℤ) := by
    unfold asI64Cast
    rw [BitVec.toInt_ofNat', Int.bmod_def]
    split_ifs <;> omega
  rw [castU64, hmod, Int.toNat_natCast, UInt64.ofNat_toNat]

theorem asI64Cast_bounds (v : UInt64) : -2 ^ 63 ≤ asI64Cast v ∧ asI64Cast v < 2 ^ 63 := by
  unfold asI64Cast
  exact ⟨BitVec.le_toInt _, BitVec.toInt_lt⟩

theorem castU32_nat (n : UInt32) : castU32 (n.toNat : ℤ) = n := by
  have hsize := n.toNat_lt
  have hmod : (n.toNat : ℤ) % 2 ^ 32 = (n.toNat : ℤ) := by omega
  rw [castU32, hmod, Int.toNat_natCast, UInt32.ofNat_toNat]

end Integers

section Values

variable {F : Type} [F64 F]

/-- The values an attribute keeps through the bridge: strings, booleans, integers that fit
an `i64`, finite floats. -/
inductive Scalar : Json F → Prop where
  | string (s : String) : Scalar (.string s)
  | bool (b : Bool) : Scalar (.bool b)
  | posInt (n : UInt64) (h : n.toNat < 2 ^ 63) : Scalar (.nat n)
  | negInt (n : ℤ) (hlow : -2 ^ 63 ≤ n) (hneg : n < 0) : Scalar (.number (.negInt n))
  | float (x : F) (h : F64.isFinite x = true) : Scalar (.number (.float x))

variable [FloatText F] {k : String} {v : Json F}

omit [FloatText F] in
/-- An integer comes back from its decimal text. -/
theorem plainValue_intValue {text : String} {n : ℤ} (h : readI64 text = some n) :
    plainValue (some (.object [("intValue", .string text)]) : Option (Json F)) =
      if n < 0 then .number (.negInt n) else .nat (.ofNat n.toNat) := by
  have hint : ((some (.object [("intValue", .string text)]) : Option (Json F)).bind
      (·.get "intValue")).bind (fun i => i.asStr.bind readI64) = some n := h
  unfold plainValue
  rw [hint]
  rfl

theorem plainValue_anyKv (h : Scalar v) : plainValue ((anyKv k v).get "value") = v := by
  cases h with
  | string s => rfl
  | bool b => rfl
  | float x h =>
    have hfloat : plainValue ((anyKv k (.number (.float x) : Json F)).get "value") =
      Json.float x := rfl
    rw [hfloat, Json.float, if_pos h]
  | posInt n h =>
    have hplain := plainValue_intValue (F := F) (readI64_nat h)
    rw [if_neg (by omega), Int.toNat_natCast, UInt64.ofNat_toNat] at hplain
    exact hplain
  | negInt n hlow hneg =>
    have hplain := plainValue_intValue (F := F) (readI64_toString hlow (by omega))
    rw [if_pos hneg] at hplain
    exact hplain

end Values

section Maps

variable {F : Type}

/-- A map as `serde_json` keeps one: its keys strictly ascend. -/
def Ascending (m : List (String × Json F)) : Prop := (m.map Prod.fst).Pairwise (· < ·)

theorem sortedInsert_last {m : List (String × Json F)} {k : String} {v : Json F}
    (h : ∀ l ∈ m.map Prod.fst, l < k) :
    kvListToObject.sortedInsert m k v = m ++ [(k, v)] := by
  induction m with
  | nil => rfl
  | cons e m ih =>
    obtain ⟨l, w⟩ := e
    have hl : l < k := h l List.mem_cons_self
    rw [kvListToObject.sortedInsert, if_neg hl.ne', if_neg hl.not_gt,
      ih fun l' hl' => h l' (List.mem_cons_of_mem _ hl')]
    rfl

variable [F64 F] [FloatText F]

def insertKv (m : List (String × Json F)) (kv : Json F) : List (String × Json F) :=
  match kv.getStr "key" with
  | some k => kvListToObject.sortedInsert m k (plainValue (kv.get "value"))
  | none => m

theorem insertKv_anyKv {m : List (String × Json F)} {k : String} {v : Json F} (hv : Scalar v)
    (h : ∀ l ∈ m.map Prod.fst, l < k) : insertKv m (anyKv k v) = m ++ [(k, v)] := by
  have hkey : (anyKv k v).getStr "key" = some k := rfl
  rw [insertKv, hkey]
  simp only
  rw [plainValue_anyKv hv, sortedInsert_last h]

theorem foldl_insertKv (m acc : List (String × Json F)) (hm : ∀ e ∈ m, Scalar e.2)
    (hasc : Ascending (acc ++ m)) :
    (m.map fun e => anyKv e.1 e.2).foldl insertKv acc = acc ++ m := by
  induction m generalizing acc with
  | nil => rw [List.append_nil]; rfl
  | cons e m ih =>
    obtain ⟨k, v⟩ := e
    obtain ⟨hv, hm⟩ := List.forall_mem_cons.1 hm
    have hlast : ∀ l ∈ acc.map Prod.fst, l < k := by
      unfold Ascending at hasc
      rw [List.map_append, List.pairwise_append] at hasc
      exact fun l hl => hasc.2.2 l hl k List.mem_cons_self
    have hmove : acc ++ (k, v) :: m = acc ++ [(k, v)] ++ m := by
      rw [List.append_assoc]
      rfl
    rw [List.map_cons, List.foldl_cons, insertKv_anyKv hv hlast, hmove]
    rw [hmove] at hasc
    exact ih _ hm hasc

/-- An attribute map comes back whole. -/
theorem kvListToObject_attributes {m : List (String × Json F)} (hm : ∀ e ∈ m, Scalar e.2)
    (hasc : Ascending m) :
    kvListToObject (some (.array (attributesFrom (some (.object m))))) = m :=
  foldl_insertKv m [] hm hasc

end Maps

end Assayist
