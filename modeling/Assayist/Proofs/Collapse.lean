import Assayist.Lib.Results
import Assayist.Spec.Block

/-! The log-linear slots of the block gadget collapsed to octaves. The count of a histogram is
summed in a `u64`, but the octaves are summed in a `u32` each. -/

namespace Assayist

namespace BlockGadget

section Sums

def observed (slots : List UInt32) : ℕ := (slots.map UInt32.toNat).sum

def octaveSlots (slots : List UInt32) (o : ℕ) : List UInt32 :=
  (slots.drop (o * subslots)).take subslots

theorem observed_append (slots slots' : List UInt32) :
    observed (slots ++ slots') = observed slots + observed slots' := by
  rw [observed, List.map_append, List.sum_append]
  rfl

theorem sum_octaves (slots : List UInt32) (n : ℕ) :
    ((List.range n).map fun o => observed (octaveSlots slots o)).sum =
      observed (slots.take (n * subslots)) := by
  induction n with
  | zero => rw [Nat.zero_mul, List.take_zero]; rfl
  | succ n ih =>
    rw [List.range_succ, List.map_append, List.sum_append, ih, Nat.succ_mul, List.take_add,
      observed_append]
    rfl

theorem observed_lt (slots : List UInt32) : observed slots ≤ slots.length * 2 ^ 32 := by
  induction slots with
  | nil => exact Nat.zero_le _
  | cons c slots ih =>
    have hcons : observed (c :: slots) = c.toNat + observed slots := rfl
    have hc := c.toNat_lt
    rw [hcons, List.length_cons, Nat.succ_mul]
    omega

/-- The count of a slot array is exact: so many slots cannot overflow a `u64`. -/
theorem slotCount_toNat {slots : List UInt32} (hlen : slots.length < 2 ^ 32) :
    (slotCount slots).toNat = observed slots := by
  have hmod (slots : List UInt32) : (slotCount slots).toNat = observed slots % 2 ^ 64 := by
    induction slots with
    | nil => rfl
    | cons c slots ih =>
      have hcons : slotCount (c :: slots) = c.toUInt64 + slotCount slots := rfl
      have hcons' : observed (c :: slots) = c.toNat + observed slots := rfl
      rw [hcons, UInt64.toNat_add, ih, hcons', UInt32.toNat_toUInt64, Nat.add_mod_mod]
  have hle := observed_lt slots
  rw [hmod, Nat.mod_eq_of_lt]
  calc observed slots ≤ slots.length * 2 ^ 32 := hle
    _ < 2 ^ 32 * 2 ^ 32 := Nat.mul_lt_mul_of_pos_right hlen (Nat.two_pow_pos 32)
    _ = 2 ^ 64 := by rw [← Nat.pow_add]

theorem toNat_ofNat_of_fits {n : ℕ} (h : n < 2 ^ 32) : (UInt32.ofNat n).toNat = n := by
  rw [UInt32.toNat_ofNat', Nat.mod_eq_of_lt h]

variable [Build]

theorem addU32_eq_ok {a b c : UInt32} :
    addU32 a b = .ok c ↔ (Build.overflowChecks = true → a.toNat + b.toNat < 2 ^ 32) ∧ a + b = c :=
  checked_eq_ok

/-- Slots add up modulo `2^32`; where the build checks, they have to fit. -/
theorem foldlM_addU32_eq_ok {slots : List UInt32} {cum total : UInt32} :
    slots.foldlM addU32 cum = .ok total ↔
      (Build.overflowChecks = true → cum.toNat + observed slots < 2 ^ 32) ∧
        UInt32.ofNat (cum.toNat + observed slots) = total := by
  induction slots generalizing cum with
  | nil =>
    have hnil : UInt32.ofNat (cum.toNat + observed []) = cum := UInt32.ofNat_toNat
    rw [List.foldlM_nil, Results.pure_eq_ok, hnil]
    exact (and_iff_right fun _ => cum.toNat_lt).symm
  | cons c slots ih =>
    have hcons : observed (c :: slots) = c.toNat + observed slots := rfl
    have hwrap : UInt32.ofNat ((cum + c).toNat + observed slots) =
        UInt32.ofNat (cum.toNat + (c.toNat + observed slots)) := by
      rw [UInt32.ofNat_add, UInt32.ofNat_toNat, UInt32.ofNat_add, UInt32.ofNat_add,
        UInt32.ofNat_toNat, UInt32.ofNat_toNat, add_assoc]
    have hadd (h : cum.toNat + c.toNat < 2 ^ 32) : (cum + c).toNat = cum.toNat + c.toNat := by
      rw [UInt32.toNat_add, Nat.mod_eq_of_lt h]
    rw [List.foldlM_cons, Results.bind_eq_ok, hcons]
    simp only [addU32_eq_ok, ih]
    apply Iff.intro
    · intro h
      obtain ⟨_, ⟨hfits, rfl⟩, hrest, rfl⟩ := h
      refine ⟨?_, hwrap.symm⟩
      intro hon
      have hlt := hrest hon
      rw [hadd (hfits hon)] at hlt
      omega
    · intro h
      obtain ⟨hfits, rfl⟩ := h
      have hfirst : Build.overflowChecks = true → cum.toNat + c.toNat < 2 ^ 32 := by
        intro hon
        have hlt := hfits hon
        omega
      refine ⟨_, ⟨hfirst, rfl⟩, ?_, hwrap⟩
      intro hon
      have hlt := hfits hon
      rw [hadd (hfirst hon)]
      omega

/-- The octaves are collapsed modulo `2^32`; where the build checks, each has to fit. -/
theorem collapseToLog2_eq_ok {slots octaves : List UInt32} :
    collapseToLog2 slots = .ok octaves ↔
      (Build.overflowChecks = true → ∀ o < maxOctaves, observed (octaveSlots slots o) < 2 ^ 32) ∧
        (List.range maxOctaves).map (fun o => UInt32.ofNat (observed (octaveSlots slots o))) =
          octaves := by
  have hstep (o : ℕ) (total : UInt32) : (octaveSlots slots o).foldlM addU32 0 = .ok total ↔
      (Build.overflowChecks = true → observed (octaveSlots slots o) < 2 ^ 32) ∧
        UInt32.ofNat (observed (octaveSlots slots o)) = total := by
    rw [foldlM_addU32_eq_ok, UInt32.toNat_zero, Nat.zero_add]
  have hmap : collapseToLog2 slots =
      (List.range maxOctaves).mapM fun o => (octaveSlots slots o).foldlM addU32 0 := rfl
  rw [hmap, Results.mapM_eq_ok]
  simp only [hstep, Results.forall₂_and_eq, List.mem_range]
  exact and_congr_left' ⟨fun h hon o ho => h o ho hon, fun h o ho hon => h hon o ho⟩

end Sums

section Agreement

variable [Build]

/-- Both layouts of the block gadget describe the same observations: the octaves exist, each
holds what its four slots hold, and their sum is the emitted count, as is that of the slots. -/
def SameObservations (slots : Slots) : Prop :=
  ∃ octaves, collapseToLog2 slots.toList = .ok octaves ∧ octaves.length = maxOctaves ∧
    (∀ o < maxOctaves, (octaves.getD o 0).toNat = observed (octaveSlots slots.toList o)) ∧
    observed octaves = (slotCount slots.toList).toNat ∧
    observed slots.toList = (slotCount slots.toList).toNat

theorem fits_of_same {slots : Slots} (h : SameObservations slots) {o : ℕ} (ho : o < maxOctaves) :
    observed (octaveSlots slots.toList o) < 2 ^ 32 := by
  obtain ⟨octaves, -, -, hoctave, -⟩ := h
  rw [← hoctave o ho]
  exact (octaves.getD o 0).toNat_lt

def octavesOf (slots : List UInt32) : List UInt32 :=
  (List.range maxOctaves).map fun o => UInt32.ofNat (observed (octaveSlots slots o))

omit [Build] in
theorem observed_octavesOf {slots : List UInt32} (hlen : slots.length ≤ maxOctaves * subslots)
    (hfits : ∀ o < maxOctaves, observed (octaveSlots slots o) < 2 ^ 32) :
    observed (octavesOf slots) = observed slots := by
  have hsum := sum_octaves slots maxOctaves
  rw [List.take_of_length_le hlen] at hsum
  rw [← hsum, observed, octavesOf, List.map_map]
  refine congrArg List.sum (List.map_congr_left ?_)
  intro o ho
  exact toNat_ofNat_of_fits (hfits o (List.mem_range.1 ho))

/-- The layouts agree exactly when what each octave holds fits a `u32`. -/
theorem sameObservations_iff (slots : Slots) :
    SameObservations slots ↔
      ∀ o < maxOctaves, observed (octaveSlots slots.toList o) < 2 ^ 32 := by
  apply Iff.intro
  · intro h o ho
    exact fits_of_same h ho
  · intro hfits
    have hlen : slots.toList.length = maxSlots := Vector.length_toList
    have hcount : (slotCount slots.toList).toNat = observed slots.toList :=
      slotCount_toNat (by rw [hlen]; decide)
    refine ⟨octavesOf slots.toList, collapseToLog2_eq_ok.2 ⟨fun _ => hfits, rfl⟩, ?_, ?_, ?_, ?_⟩
    · rw [octavesOf, List.length_map, List.length_range]
    · intro o ho
      rw [octavesOf, List.getD_eq_getElem?_getD, List.getElem?_map, List.getElem?_range ho]
      exact toNat_ofNat_of_fits (hfits o ho)
    · rw [hcount]
      exact observed_octavesOf hlen.le hfits
    · exact hcount.symm

end Agreement

section Full

attribute [local instance] releaseBuild

/-- Half a `u32` of requests in each of two slots of the first octave leaves the octave
empty. -/
theorem full_octave_lost :
    ¬ SameObservations (Vector.ofFn fun s : Fin maxSlots => if s.val < 2 then 2 ^ 31 else 0) := by
  intro h
  have hfits := fits_of_same h (show 0 < maxOctaves by decide)
  revert hfits
  decide +kernel

end Full

end BlockGadget

end Assayist
