import Assayist.Lib.Numerals
import Assayist.Proofs.Text
import Assayist.Spec.Run
import Mathlib.Data.Char

/-! The text of a run id: 12 hexadecimal digits of milliseconds and 20 of entropy, so that the
texts sort as the times they were made at. -/

namespace Assayist

section Hex

def hexNumber (cs : List Char) : ℕ := Numerals.value 16 (cs.map hexValue)

theorem digitChar_lt : ∀ d < 16, ∀ e < 16, d < e → Nat.digitChar d < Nat.digitChar e := by decide

def hexDigits (w n : ℕ) : List Char := (Numerals.fixed 16 w n).map Nat.digitChar

theorem length_hexDigits (w n : ℕ) : (hexDigits w n).length = w := by
  rw [hexDigits, List.length_map, Numerals.length_fixed]

theorem hexDigit_of_mem {w n : ℕ} {c : Char} (h : c ∈ hexDigits w n) : hexDigit c = true := by
  obtain ⟨d, hd, rfl⟩ := List.mem_map.1 h
  exact hexDigit_digitChar d (Numerals.lt_of_mem_fixed (by decide) hd)

theorem hexNumber_hexDigits {w n : ℕ} (h : n < 16 ^ w) : hexNumber (hexDigits w n) = n := by
  have hread : (hexDigits w n).map hexValue = Numerals.fixed 16 w n := by
    rw [hexDigits, List.map_map]
    refine (List.map_congr_left fun d hd => ?_).trans (List.map_id _)
    exact hexValue_digitChar d (Numerals.lt_of_mem_fixed (by decide) hd)
  rw [hexNumber, hread, Numerals.value_fixed h]

theorem hexDigits_lt_iff {w m n : ℕ} (hm : m < 16 ^ w) (hn : n < 16 ^ w) :
    hexDigits w m < hexDigits w n ↔ m < n := by
  rw [hexDigits, hexDigits, Numerals.map_lt_map digitChar_lt
    (fun d hd => Numerals.lt_of_mem_fixed (by decide) hd)
    (fun d hd => Numerals.lt_of_mem_fixed (by decide) hd), Numerals.fixed_lt_iff hm hn]

theorem hexDigits_add (v w n : ℕ) :
    hexDigits (v + w) n = hexDigits v (n / 16 ^ w) ++ hexDigits w (n % 16 ^ w) := by
  rw [hexDigits, hexDigits, hexDigits, Numerals.fixed_add, List.map_append, Numerals.fixed_mod]

theorem hex32_toList {n : ℕ} (h : n < 16 ^ 32) : (hex32 n).toList = hexDigits 32 n := by
  rw [hex32, String.toList_ofList, Numerals.leftpad_toDigits (by decide) h, hexDigits]

end Hex

section Layout

/-- The number that the first ten bytes of a digest come to, the first the most significant. -/
def entropyOf (digest : List UInt8) : ℕ := Numerals.value 256 ((digest.take 10).map UInt8.toNat)

theorem entropyOf_lt (digest : List UInt8) : entropyOf digest < 2 ^ 80 := by
  have hbyte : ∀ d ∈ (digest.take 10).map UInt8.toNat, d < 256 := by
    intro d hd
    obtain ⟨x, -, rfl⟩ := List.mem_map.1 hd
    exact x.toNat_lt
  refine (Numerals.value_lt hbyte).trans_le ?_
  have hlen : ((digest.take 10).map UInt8.toNat).length ≤ 10 := by
    rw [List.length_map, List.length_take]
    exact Nat.min_le_left _ _
  exact Nat.pow_le_pow_right (n := 256) (by decide) hlen

theorem foldl_bytes (bytes : List UInt8) (acc : ℕ) :
    bytes.foldl (fun entropy b => entropy <<< 8 ||| b.toNat) acc =
      (bytes.map UInt8.toNat).foldl (fun n d => n * 256 + d) acc := by
  induction bytes generalizing acc with
  | nil => rfl
  | cons b bytes ih =>
    rw [List.foldl_cons, List.map_cons, List.foldl_cons, ih, ← Nat.shiftLeft_add_eq_or_of_lt,
      Nat.shiftLeft_eq]
    exact b.toNat_lt

theorem entropyOf_eq (digest : List UInt8) : entropyOf digest =
    ((digest.take 10).map UInt8.toNat).foldl (fun n d => n * 256 + d) 0 := rfl

def millis (nanos : ℕ) : ℕ := nanos / 10 ^ 6

def digestOf (sha256 : List UInt8 → List UInt8) (nanos : ℕ) (pid counter : UInt64) : List UInt8 :=
  sha256 (Owner.leBytes 16 nanos ++ Owner.leBytes 8 pid.toNat ++ Owner.leBytes 8 counter.toNat)

theorem newRunId_eq (sha256 : List UInt8 → List UInt8) (nanos : ℕ) (pid counter : UInt64) :
    newRunId sha256 nanos pid counter =
      hex32 (millis nanos % 2 ^ 48 * 2 ^ 80 + entropyOf (digestOf sha256 nanos pid counter)) := by
  have hmask : nanos / 10 ^ 6 &&& (1 <<< 48 - 1) = millis nanos % 2 ^ 48 :=
    Nat.and_two_pow_sub_one_eq_mod _ 48
  have hpacked : newRunId sha256 nanos pid counter =
      hex32 ((nanos / 10 ^ 6 &&& (1 <<< 48 - 1)) <<< 80 |||
        ((digestOf sha256 nanos pid counter).take 10).foldl
          (fun entropy b => entropy <<< 8 ||| b.toNat) 0) := rfl
  rw [hpacked, hmask, foldl_bytes, ← entropyOf_eq,
    ← Nat.shiftLeft_add_eq_or_of_lt (entropyOf_lt _), Nat.shiftLeft_eq]

theorem idNumber_lt {stamp entropy : ℕ} (hstamp : stamp < 2 ^ 48) (hentropy : entropy < 2 ^ 80) :
    stamp * 2 ^ 80 + entropy < 16 ^ 32 := by
  omega

/-- The two parts of an id made before the milliseconds outgrow their place. -/
theorem newRunId_toList (sha256 : List UInt8 → List UInt8) {nanos : ℕ} (pid counter : UInt64)
    (h : millis nanos < 2 ^ 48) :
    (newRunId sha256 nanos pid counter).toList =
      hexDigits 12 (millis nanos) ++
        hexDigits 20 (entropyOf (digestOf sha256 nanos pid counter)) := by
  have hentropy := entropyOf_lt (digestOf sha256 nanos pid counter)
  have hpow : (16 : ℕ) ^ 20 = 2 ^ 80 := by norm_num
  rw [newRunId_eq, Nat.mod_eq_of_lt h, hex32_toList (idNumber_lt h hentropy), hexDigits_add 12 20,
    hpow, Nat.mul_add_mod_of_lt hentropy]
  have hstamp : (millis nanos * 2 ^ 80 + entropyOf (digestOf sha256 nanos pid counter)) / 2 ^ 80 =
      millis nanos := by
    omega
  rw [hstamp]

end Layout

section Order

/-- The parts of an id that its order goes by. -/
def idKey (sha256 : List UInt8 → List UInt8) (nanos : ℕ) (pid counter : UInt64) : ℕ ×ₗ ℕ :=
  toLex (millis nanos, entropyOf (digestOf sha256 nanos pid counter))

/-- An id of 12 hexadecimal digits of a time and 20 of entropy. -/
structure IdLayout (id : String) (stamp entropy : ℕ) : Prop where
  length : id.length = 32
  digits : ∀ c ∈ id.toList, hexDigit c = true
  high : hexNumber (id.toList.take 12) = stamp
  low : hexNumber (id.toList.drop 12) = entropy
  bits : entropy < 2 ^ 80

theorem lt_pow_twelve {n : ℕ} (h : n < 2 ^ 48) : n < 16 ^ 12 := h.trans_eq (by norm_num)

theorem lt_pow_twenty {n : ℕ} (h : n < 2 ^ 80) : n < 16 ^ 20 := h.trans_eq (by norm_num)

variable (sha256 : List UInt8 → List UInt8) {nanos nanos' : ℕ} (pid pid' counter counter' : UInt64)

theorem newRunId_layout (h : millis nanos < 2 ^ 48) :
    IdLayout (newRunId sha256 nanos pid counter) (millis nanos)
      (entropyOf (digestOf sha256 nanos pid counter)) := by
  have hid := newRunId_toList sha256 pid counter h
  have hentropy := entropyOf_lt (digestOf sha256 nanos pid counter)
  have hlen := length_hexDigits 12 (millis nanos)
  refine ⟨?_, fun c hc => ?_, ?_, ?_, hentropy⟩
  · rw [← String.length_toList, hid, List.length_append, length_hexDigits, length_hexDigits]
  · rw [hid] at hc
    rcases List.mem_append.1 hc with hc | hc
    · exact hexDigit_of_mem hc
    · exact hexDigit_of_mem hc
  · rw [hid, List.take_left' hlen, hexNumber_hexDigits (lt_pow_twelve h)]
  · rw [hid, List.drop_left' hlen, hexNumber_hexDigits (lt_pow_twenty hentropy)]

/-- Ids compare as their times do, and by their entropy where these are one. -/
theorem newRunId_lt_iff (h : millis nanos < 2 ^ 48) (h' : millis nanos' < 2 ^ 48) :
    newRunId sha256 nanos pid counter < newRunId sha256 nanos' pid' counter' ↔
      idKey sha256 nanos pid counter < idKey sha256 nanos' pid' counter' := by
  have hlen : (hexDigits 12 (millis nanos)).length = (hexDigits 12 (millis nanos')).length := by
    rw [length_hexDigits, length_hexDigits]
  have hstamp : hexDigits 12 (millis nanos) = hexDigits 12 (millis nanos') ↔
      millis nanos = millis nanos' := by
    refine ⟨fun heq => ?_, congrArg _⟩
    rw [← hexNumber_hexDigits (lt_pow_twelve h), heq, hexNumber_hexDigits (lt_pow_twelve h')]
  rw [String.lt_iff, newRunId_toList _ _ _ h, newRunId_toList _ _ _ h',
    Numerals.append_lt_append hlen, hexDigits_lt_iff (lt_pow_twelve h) (lt_pow_twelve h'), hstamp,
    hexDigits_lt_iff (lt_pow_twenty (entropyOf_lt _)) (lt_pow_twenty (entropyOf_lt _)), idKey,
    idKey, Prod.Lex.toLex_lt_toLex]

/-- Run ids are made of the time and the entropy, sort by the time they were made at, and are
equal only in both parts. -/
theorem runIds_sort (h : millis nanos < 2 ^ 48) (h' : millis nanos' < 2 ^ 48) :
    IdLayout (newRunId sha256 nanos pid counter) (millis nanos)
        (entropyOf (digestOf sha256 nanos pid counter)) ∧
      (newRunId sha256 nanos pid counter < newRunId sha256 nanos' pid' counter' ↔
        idKey sha256 nanos pid counter < idKey sha256 nanos' pid' counter') ∧
      (millis nanos < millis nanos' →
        newRunId sha256 nanos pid counter < newRunId sha256 nanos' pid' counter') ∧
      (newRunId sha256 nanos pid counter = newRunId sha256 nanos' pid' counter' ↔
        millis nanos = millis nanos' ∧
          entropyOf (digestOf sha256 nanos pid counter) =
            entropyOf (digestOf sha256 nanos' pid' counter')) := by
  have hlayout := newRunId_layout sha256 pid counter h
  have hlayout' := newRunId_layout sha256 pid' counter' h'
  have hlt := newRunId_lt_iff sha256 pid pid' counter counter' h h'
  refine ⟨hlayout, hlt, fun hstamp => ?_, ?_⟩
  · rw [hlt, idKey, idKey, Prod.Lex.toLex_lt_toLex]
    exact .inl hstamp
  · apply Iff.intro
    · intro heq
      rw [← hlayout.high, ← hlayout.low, heq]
      exact ⟨hlayout'.high, hlayout'.low⟩
    · rintro ⟨hstamp, hentropy⟩
      rw [← String.toList_inj, newRunId_toList _ _ _ h, newRunId_toList _ _ _ h', hstamp, hentropy]

/-- Ids of two milliseconds in a row, with the later one's entropy the smaller. -/
theorem runIds_sort_tick :
    newRunId (fun bytes => bytes.drop 16) 1999999 9 0 <
      newRunId (fun bytes => bytes.drop 16) 2000000 8 0 :=
  (runIds_sort (fun bytes => bytes.drop 16) 9 8 0 0 (by decide) (by decide)).2.2.1 (by decide)

end Order

end Assayist
