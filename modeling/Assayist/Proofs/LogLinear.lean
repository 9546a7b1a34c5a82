import Assayist.Proofs.Collapse
import Assayist.Proofs.Kvm
import Mathlib.Order.Monotone.Basic
import Assayist.Spec.Block

/-! The block gadget's log-linear slots: where a latency is counted, and what is left of the
slots when they are collapsed to octaves. -/

namespace Assayist

namespace BlockGadget

section Slot

def octave (n : ℕ) : ℕ := min (Nat.log 2 n) (maxOctaves - 1)

def sub (n : ℕ) : ℕ := min ((n - 2 ^ octave n) * subslots / 2 ^ octave n) (subslots - 1)

theorem octave_lt (n : ℕ) : octave n < 40 := by
  unfold octave maxOctaves
  omega

theorem sub_lt (n : ℕ) : sub n < 4 := by
  unfold sub subslots
  omega

theorem octaveOf_toNat (delta : UInt64) : (octaveOf delta).toNat = octave delta.toNat := by
  have hlog := log2U64_toNat delta
  rw [Nat.log2_eq_log_two] at hlog
  unfold octaveOf octave
  dsimp only
  split_ifs with h
  · have hge : 40 ≤ (log2U64 delta).toNat := UInt64.le_iff_toNat_le.1 h
    have hlast : (UInt64.ofNat maxOctaves - 1).toNat = 39 := rfl
    rw [hlast, ← hlog]
    unfold maxOctaves
    omega
  · have hlt : (log2U64 delta).toNat < 40 := UInt64.lt_iff_toNat_lt.1 (UInt64.not_le.1 h)
    rw [← hlog]
    unfold maxOctaves
    omega

theorem base_toNat (delta : UInt64) :
    ((1 : UInt64) <<< octaveOf delta).toNat = 2 ^ octave delta.toNat := by
  have hlt := octave_lt delta.toNat
  have hmod : octave delta.toNat % 64 = octave delta.toNat := Nat.mod_eq_of_lt (by omega)
  have hpow : 2 ^ octave delta.toNat < 2 ^ 64 := Nat.pow_lt_pow_right (by omega) (by omega)
  rw [UInt64.toNat_shiftLeft, UInt64.toNat_one, octaveOf_toNat, hmod, Nat.one_shiftLeft,
    Nat.mod_eq_of_lt hpow]

theorem subOf_toNat {delta : UInt64} (hdelta : delta.toNat < 2 ^ 62) :
    (subOf delta (1 <<< octaveOf delta)).toNat = sub delta.toNat := by
  have hbase := base_toNat delta
  have hrem : (if (1 : UInt64) <<< octaveOf delta < delta then delta - 1 <<< octaveOf delta
      else 0).toNat = delta.toNat - 2 ^ octave delta.toNat := by
    split_ifs with h
    · rw [UInt64.toNat_sub_of_le _ _ (UInt64.le_of_lt h), hbase]
    · have hle := UInt64.le_iff_toNat_le.1 (UInt64.not_lt.1 h)
      rw [hbase] at hle
      rw [UInt64.toNat_zero]
      omega
  have hfour : (UInt64.ofNat subslots).toNat = 4 := rfl
  unfold subOf sub
  dsimp only
  generalize (if (1 : UInt64) <<< octaveOf delta < delta then delta - 1 <<< octaveOf delta
    else 0) = rem at hrem ⊢
  have hquot : (rem * UInt64.ofNat subslots / 1 <<< octaveOf delta).toNat =
      (delta.toNat - 2 ^ octave delta.toNat) * subslots / 2 ^ octave delta.toNat := by
    have hfits : rem.toNat * 4 < 2 ^ 64 := by omega
    rw [UInt64.toNat_div, UInt64.toNat_mul, hfour, Nat.mod_eq_of_lt hfits, hbase, hrem]
    rfl
  split_ifs with h
  · have hge := UInt64.le_iff_toNat_le.1 h
    rw [hquot, hfour] at hge
    have hlast : (UInt64.ofNat subslots - 1).toNat = 3 := rfl
    rw [hlast]
    unfold subslots at hge ⊢
    omega
  · have hlt := UInt64.lt_iff_toNat_lt.1 (UInt64.not_le.1 h)
    rw [hquot, hfour] at hlt
    rw [hquot]
    unfold subslots at hlt ⊢
    omega

/-- The slot of a latency is its sub-bucket within its octave. -/
theorem slotOf_eq {delta : UInt64} (hdelta : delta.toNat < 2 ^ 62) :
    slotOf delta = 4 * octave delta.toNat + sub delta.toNat := by
  have hoctave := octave_lt delta.toNat
  have hsub := sub_lt delta.toNat
  have hfour : (UInt64.ofNat subslots).toNat = 4 := rfl
  have hslot : (octaveOf delta * UInt64.ofNat subslots + subOf delta (1 <<< octaveOf delta)).toNat =
      4 * octave delta.toNat + sub delta.toNat := by
    rw [UInt64.toNat_add, UInt64.toNat_mul, octaveOf_toNat, subOf_toNat hdelta, hfour]
    omega
  have hfits : ¬ UInt64.ofNat maxSlots ≤
      octaveOf delta * UInt64.ofNat subslots + subOf delta (1 <<< octaveOf delta) := by
    intro h
    have hge : 160 ≤ _ := UInt64.le_iff_toNat_le.1 h
    omega
  unfold slotOf
  dsimp only
  rw [if_neg hfits, hslot]

end Slot

section Edges

/-- Four times the lower edge of a slot. -/
def edge (s : ℕ) : ℕ := 2 ^ (s / 4) * (4 + s % 4)

theorem edge_eq {o k : ℕ} (hk : k < 4) : edge (4 * o + k) = 2 ^ o * (4 + k) := by
  have hdiv : (4 * o + k) / 4 = o := by omega
  have hmod : (4 * o + k) % 4 = k := by omega
  rw [edge, hdiv, hmod]

theorem edge_succ_eq {o k : ℕ} (hk : k < 4) : edge (4 * o + k + 1) = 2 ^ o * (5 + k) := by
  rcases Nat.lt_or_ge (k + 1) 4 with hlt | hge
  · rw [Nat.add_assoc, edge_eq hlt]
    congr 1
    omega
  · have hlast : 4 * o + k + 1 = 4 * (o + 1) + 0 := by omega
    obtain rfl : k = 3 := by omega
    rw [hlast, edge_eq (by omega), Nat.pow_succ]
    omega

theorem edge_strictMono : StrictMono edge := by
  apply strictMono_nat_of_lt_succ
  intro s
  have hsplit : s = 4 * (s / 4) + s % 4 := by omega
  have hmod : s % 4 < 4 := Nat.mod_lt s (by omega)
  rw [hsplit, edge_eq hmod, edge_succ_eq hmod]
  exact Nat.mul_lt_mul_of_pos_left (by omega) (Nat.two_pow_pos _)

/-- A latency is not below the slot it is counted in, but for 0, which has no octave. -/
theorem edge_le {n : ℕ} (h : 4 * octave n + sub n ≠ 0) : edge (4 * octave n + sub n) ≤ 4 * n := by
  rw [edge_eq (sub_lt n)]
  rcases Nat.eq_zero_or_pos n with rfl | hn
  · exact absurd rfl h
  · have hbase : 2 ^ octave n ≤ n :=
      Nat.pow_le_of_le_log hn.ne' (Nat.min_le_left _ _)
    have hsub : 2 ^ octave n * sub n ≤ (n - 2 ^ octave n) * subslots := by
      have hle : sub n ≤ (n - 2 ^ octave n) * subslots / 2 ^ octave n := Nat.min_le_left _ _
      calc 2 ^ octave n * sub n
          ≤ 2 ^ octave n * ((n - 2 ^ octave n) * subslots / 2 ^ octave n) :=
            Nat.mul_le_mul_left _ hle
        _ ≤ (n - 2 ^ octave n) * subslots := Nat.mul_div_le _ _
    rw [Nat.mul_add]
    unfold subslots at hsub
    omega

/-- A latency is below the end of its slot, but for the last one, which has none. -/
theorem lt_edge {n : ℕ} (h : 4 * octave n + sub n < 159) :
    4 * n < edge (4 * octave n + sub n + 1) := by
  have hpos : 0 < 2 ^ octave n := Nat.two_pow_pos _
  rw [edge_succ_eq (sub_lt n)]
  rcases Nat.lt_or_ge (sub n) 3 with hlt | hge
  · have hsub : sub n = (n - 2 ^ octave n) * subslots / 2 ^ octave n := by
      unfold sub subslots at hlt ⊢
      omega
    have hrem : (n - 2 ^ octave n) * subslots < 2 ^ octave n * (sub n + 1) := by
      rw [hsub]
      exact Nat.lt_mul_div_succ _ hpos
    rw [Nat.mul_add] at hrem ⊢
    unfold subslots at hrem
    omega
  · have hoctave : octave n < 39 := by omega
    have hlog : octave n = Nat.log 2 n := by
      unfold octave maxOctaves at hoctave ⊢
      omega
    have hlt : n < 2 ^ (octave n + 1) := by
      rw [hlog]
      exact Nat.lt_pow_succ_log_self Nat.one_lt_two n
    have hsub := sub_lt n
    obtain hthree : sub n = 3 := by omega
    rw [Nat.pow_succ] at hlt
    rw [hthree]
    omega

/-- The slot of a latency is the one between whose edges it lies. -/
theorem slotOf_iff {delta : UInt64} (hdelta : delta.toNat < 2 ^ 62) {s : ℕ} (hs : s < maxSlots) :
    slotOf delta = s ↔ (0 < s → edge s ≤ 4 * delta.toNat) ∧
      (s < maxSlots - 1 → 4 * delta.toNat < edge (s + 1)) := by
  have hmax : maxSlots = 160 := rfl
  have hoctave := octave_lt delta.toNat
  have hsub := sub_lt delta.toNat
  rw [slotOf_eq hdelta, hmax]
  rw [hmax] at hs
  apply Iff.intro
  · intro h
    subst h
    exact ⟨fun hpos => edge_le hpos.ne', fun hlt => lt_edge hlt⟩
  · intro h
    obtain ⟨hlow, hhigh⟩ := h
    by_contra hne
    rcases Nat.lt_or_gt_of_ne hne with hlt | hgt
    · have hend := lt_edge (show 4 * octave delta.toNat + sub delta.toNat < 159 by omega)
      have hmono : edge (4 * octave delta.toNat + sub delta.toNat + 1) ≤ edge s :=
        edge_strictMono.monotone (by omega)
      have hstart := hlow (by omega)
      omega
    · have hend := hhigh (by omega)
      have hmono : edge (s + 1) ≤ edge (4 * octave delta.toNat + sub delta.toNat) :=
        edge_strictMono.monotone (by omega)
      have hstart := edge_le (show 4 * octave delta.toNat + sub delta.toNat ≠ 0 by omega)
      omega

end Edges

section Bounds

/-- The octave is the floor of the logarithm, up to the last. -/
theorem log2U64_eq_log (delta : UInt64) : (log2U64 delta).toNat = Nat.log 2 delta.toNat := by
  rw [log2U64_toNat, Nat.log2_eq_log_two]

theorem logLinearBounds_getD {s : ℕ} (hs : s < maxSlots - 1) :
    (logLinearBounds (F := ℝ)).getD s 0 = (edge (s + 1) : ℝ) / 4 := by
  have hsplit : s = 4 * (s / 4) + s % 4 := by omega
  have hedge : edge (s + 1) = 2 ^ (s / 4) * (5 + s % 4) := by
    have hsucc := edge_succ_eq (o := s / 4) (Nat.mod_lt s (show 0 < 4 by omega))
    rwa [← hsplit] at hsucc
  have hrange : s < maxOctaves * subslots - 1 := hs
  have hget : (logLinearBounds (F := ℝ))[s]? =
      some (((2 ^ (s / 4) : ℕ) : ℝ) * (1 + (((s % 4 : ℕ) : ℝ) + 1) / ((4 : ℕ) : ℝ))) := by
    rw [logLinearBounds, List.getElem?_map, List.getElem?_range hrange]
    rfl
  rw [List.getD_eq_getElem?_getD, hget, Option.getD_some, hedge]
  push_cast
  ring

/-- The slot of a latency is the one between whose bounds it lies. -/
theorem slotOf_bounds {delta : UInt64} (hdelta : delta.toNat < 2 ^ 62) {s : ℕ}
    (hs : s < maxSlots) :
    slotOf delta = s ↔
      (0 < s → (logLinearBounds (F := ℝ)).getD (s - 1) 0 ≤ delta.toNat) ∧
        (s < maxSlots - 1 → (delta.toNat : ℝ) < (logLinearBounds (F := ℝ)).getD s 0) := by
  have hlow (hpos : 0 < s) : (logLinearBounds (F := ℝ)).getD (s - 1) 0 ≤ delta.toNat ↔
      edge s ≤ 4 * delta.toNat := by
    have hprev : s - 1 + 1 = s := by omega
    rw [logLinearBounds_getD (by omega), hprev, div_le_iff₀ (by norm_num), mul_comm]
    exact_mod_cast Iff.rfl
  have hhigh (hlast : s < maxSlots - 1) :
      (delta.toNat : ℝ) < (logLinearBounds (F := ℝ)).getD s 0 ↔
        4 * delta.toNat < edge (s + 1) := by
    rw [logLinearBounds_getD hlast, lt_div_iff₀ (by norm_num), mul_comm]
    exact_mod_cast Iff.rfl
  rw [slotOf_iff hdelta hs]
  exact and_congr (forall_congr' fun hpos => (hlow hpos).symm)
    (forall_congr' fun hlast => (hhigh hlast).symm)

end Bounds

section Tally

def logLinear (deltas : List UInt64) : Slots :=
  deltas.foldl Slots.bump (Vector.replicate maxSlots 0)

/-- The log2 histogram of the same latencies, with the slots of the kvm gadget. -/
def plain (deltas : List UInt64) : KvmGadget.Hist :=
  deltas.foldl KvmGadget.Hist.bump (Vector.replicate KvmGadget.maxSlots 0)

/-- Counting latencies one by one adds to each slot, modulo `2^32`, how many are in it. -/
theorem foldl_bump {n : ℕ} {idx : UInt64 → ℕ} (hidx : ∀ d, idx d < n) (deltas : List UInt64)
    (f : ℕ → ℕ) :
    deltas.foldl (fun v d => v.set (idx d) (v.get ⟨idx d, hidx d⟩ + 1) (hidx d))
        (Vector.ofFn fun s : Fin n => UInt32.ofNat (f s)) =
      Vector.ofFn fun s : Fin n => UInt32.ofNat (f s + deltas.countP fun d => idx d = s) := by
  induction deltas generalizing f with
  | nil => rfl
  | cons d deltas ih =>
    rw [List.foldl_cons, KvmGadget.set_ofFn, ih fun s => f s + if idx d = s then 1 else 0]
    refine congrArg Vector.ofFn (funext fun s => ?_)
    simp only [List.countP_cons, decide_eq_true_eq]
    rw [Nat.add_assoc, Nat.add_comm (List.countP _ _)]

theorem replicate_eq_ofFn (n : ℕ) :
    Vector.replicate n (0 : UInt32) = Vector.ofFn fun _ : Fin n => UInt32.ofNat 0 := by
  apply Vector.ext
  intro i hi
  rw [Vector.getElem_replicate, Vector.getElem_ofFn]
  rfl

theorem toList_ofFn {n : ℕ} (f : ℕ → UInt32) :
    (Vector.ofFn fun s : Fin n => f s).toList = (List.range n).map f := by
  rw [Vector.toList_ofFn, List.ofFn_eq_map, ← List.map_coe_finRange_eq_range, List.map_map]
  rfl

theorem logLinear_toList (deltas : List UInt64) :
    (logLinear deltas).toList =
      (List.range maxSlots).map fun s => UInt32.ofNat (deltas.countP fun d => slotOf d = s) := by
  have hfold := foldl_bump slotOf_lt deltas fun _ => 0
  rw [← replicate_eq_ofFn] at hfold
  simp only [Nat.zero_add] at hfold
  rw [← toList_ofFn, ← hfold]
  rfl

theorem plain_toList (deltas : List UInt64) :
    (plain deltas).toList = (List.range maxOctaves).map fun o =>
      UInt32.ofNat (deltas.countP fun d => KvmGadget.slotOf d = o) := by
  have hfold := foldl_bump KvmGadget.slotOf_lt deltas fun _ => 0
  rw [← replicate_eq_ofFn] at hfold
  simp only [Nat.zero_add] at hfold
  have hmax : maxOctaves = KvmGadget.maxSlots := rfl
  rw [hmax, ← toList_ofFn, ← hfold]
  rfl

end Tally

section Octaves

/-- The four slots of an octave are those of the latencies in its log2 bucket. -/
theorem slotOf_div {delta : UInt64} (hdelta : delta.toNat < 2 ^ 62) :
    slotOf delta / 4 = KvmGadget.slotOf delta := by
  have hsub := sub_lt delta.toNat
  have hoctave : octave delta.toNat = KvmGadget.bucket delta := by
    rw [octave, KvmGadget.bucket, Nat.log2_eq_log_two]
    rfl
  rw [slotOf_eq hdelta, KvmGadget.slotOf_eq, ← hoctave]
  omega

theorem countP_octave {deltas : List UInt64} (hdeltas : ∀ d ∈ deltas, d.toNat < 2 ^ 62) (o : ℕ) :
    ((List.range' (4 * o) 4).map fun s => deltas.countP fun d => slotOf d = s).sum =
      deltas.countP fun d => KvmGadget.slotOf d = o := by
  induction deltas with
  | nil => simp
  | cons d deltas ih =>
    have hrest := ih fun d' hd' => hdeltas d' (List.mem_cons_of_mem d hd')
    have hd := slotOf_div (hdeltas d List.mem_cons_self)
    simp only [List.range', List.map_cons, List.map_nil, List.sum_cons, List.sum_nil,
      List.countP_cons, decide_eq_true_eq] at hrest ⊢
    rw [← hrest, ← hd]
    split_ifs <;> omega

theorem octaveSlots_range {g : ℕ → UInt32} {o : ℕ} (ho : o < maxOctaves) :
    octaveSlots ((List.range maxSlots).map g) o = (List.range' (4 * o) 4).map g := by
  have hroom : subslots ≤ maxSlots - o * subslots := by
    unfold maxSlots subslots maxOctaves at *
    omega
  rw [octaveSlots, ← List.map_drop, ← List.map_take, List.range_eq_range', List.drop_range',
    List.take_range'_of_length_ge hroom]
  have hstart : 0 + o * subslots * 1 = 4 * o := by
    unfold subslots
    omega
  rw [hstart]
  rfl

/-- Slots that wrapped add up to what wraps to the same, and to no more. -/
theorem observed_ofNat (counts : List ℕ) :
    UInt32.ofNat (observed (counts.map UInt32.ofNat)) = UInt32.ofNat counts.sum ∧
      observed (counts.map UInt32.ofNat) ≤ counts.sum := by
  induction counts with
  | nil => exact ⟨rfl, Nat.le_refl 0⟩
  | cons n counts ih =>
    obtain ⟨hwrap, hle⟩ := ih
    have hcons : observed ((n :: counts).map UInt32.ofNat) =
        (UInt32.ofNat n).toNat + observed (counts.map UInt32.ofNat) := rfl
    have hn : (UInt32.ofNat n).toNat ≤ n := by
      rw [UInt32.toNat_ofNat']
      exact Nat.mod_le n _
    rw [hcons, List.sum_cons]
    refine ⟨?_, Nat.add_le_add hn hle⟩
    rw [UInt32.ofNat_add, UInt32.ofNat_toNat, hwrap, UInt32.ofNat_add]

variable [Build]

/-- The log-linear histogram of some latencies collapses to their log2 histogram. -/
theorem collapse_logLinear {deltas : List UInt64} (hdeltas : ∀ d ∈ deltas, d.toNat < 2 ^ 62)
    (hfits : Build.overflowChecks = true →
      ∀ o < maxOctaves, (deltas.countP fun d => KvmGadget.slotOf d = o) < 2 ^ 32) :
    collapseToLog2 (logLinear deltas).toList = .ok (plain deltas).toList := by
  have hoctave {o : ℕ} (ho : o < maxOctaves) :
      UInt32.ofNat (observed (octaveSlots (logLinear deltas).toList o)) =
          UInt32.ofNat (deltas.countP fun d => KvmGadget.slotOf d = o) ∧
        observed (octaveSlots (logLinear deltas).toList o) ≤
          deltas.countP fun d => KvmGadget.slotOf d = o := by
    have hcounts := observed_ofNat
      ((List.range' (4 * o) 4).map fun s => deltas.countP fun d => slotOf d = s)
    rw [countP_octave hdeltas, List.map_map] at hcounts
    rw [logLinear_toList, octaveSlots_range ho]
    exact hcounts
  rw [collapseToLog2_eq_ok, plain_toList]
  refine ⟨?_, ?_⟩
  · intro hon o ho
    exact Nat.lt_of_le_of_lt (hoctave ho).2 (hfits hon o ho)
  · apply List.map_congr_left
    intro o ho
    exact (hoctave (List.mem_range.1 ho)).1

end Octaves

section Run

def slotsUnder (m : Maps) (bk : BlkKey) : Slots := ((m.stats.lookup bk).getD .zero).slots

/-- The latency an event adds under a key: that of a request that is in flight, if the map has
an entry for the key or room for it. -/
def counted (m : Maps) (bk : BlkKey) : Event → Option UInt64
  | .issue .. => none
  | .complete dev sector now =>
    (m.inflight.lookup ⟨dev, sector⟩).bind fun s =>
      if bk = ⟨dev, s.isWrite⟩ ∧ ((initStat m.stats bk).lookup bk).isSome then some (now - s.ts)
      else none

/-- The latencies that a sequence of events adds under a key. -/
def latencies (bk : BlkKey) : Maps → List Event → List UInt64
  | _, [] => []
  | m, e :: evs => (counted m bk e).toList ++ latencies bk (handle m e) evs

variable {m : Maps} {bk : BlkKey}

/-- Making an entry for a key changes no count. -/
theorem lookup_initStat (stats : BoundedMap BlkKey Stat) (bk k : BlkKey) :
    ((initStat stats bk).lookup k).getD .zero = (stats.lookup k).getD .zero := by
  unfold initStat
  cases h : stats.lookup bk with
  | some st => rfl
  | none =>
    dsimp only
    by_cases htakes : stats.Takes bk
    · rw [BoundedMap.lookup_create htakes]
      by_cases hk : k = bk
      · subst hk
        rw [if_pos rfl, h]
        rfl
      · rw [if_neg hk]
    · rw [BoundedMap.create_of_full htakes]

/-- An event adds to the slots under a key the latency it counts there, and nothing else. -/
theorem slotsUnder_handle (m : Maps) (bk : BlkKey) (e : Event) :
    slotsUnder (handle m e) bk = (counted m bk e).toList.foldl Slots.bump (slotsUnder m bk) := by
  cases e with
  | issue dev sector bytes rwbs now => rfl
  | complete dev sector now =>
    unfold handle handleComplete counted
    dsimp only
    cases hs : m.inflight.lookup ⟨dev, sector⟩ with
    | none => rfl
    | some s =>
      have hinit := lookup_initStat m.stats ⟨dev, s.isWrite⟩ bk
      dsimp only [Option.bind_some]
      unfold slotsUnder
      cases hst : (initStat m.stats ⟨dev, s.isWrite⟩).lookup ⟨dev, s.isWrite⟩ with
      | none =>
        have hdrop : ¬ (bk = ⟨dev, s.isWrite⟩ ∧ ((initStat m.stats bk).lookup bk).isSome) := by
          intro h
          obtain ⟨rfl, hsome⟩ := h
          rw [hst] at hsome
          exact absurd hsome Bool.false_ne_true
        rw [if_neg hdrop]
        dsimp only
        rw [hinit]
        rfl
      | some st =>
        dsimp only
        rw [BoundedMap.lookup_modify]
        by_cases hbk : bk = ⟨dev, s.isWrite⟩
        · subst hbk
          rw [hst, Option.getD_some] at hinit
          rw [if_pos rfl, hst, ← hinit]
          simp [Stat.add]
        · have hother : ¬ (bk = ⟨dev, s.isWrite⟩ ∧ ((initStat m.stats bk).lookup bk).isSome) :=
            fun h => hbk h.1
          rw [if_neg hbk, if_neg hother, hinit]
          rfl

theorem slotsUnder_foldl (evs : List Event) (m : Maps) (bk : BlkKey) :
    slotsUnder (evs.foldl handle m) bk =
      (latencies bk m evs).foldl Slots.bump (slotsUnder m bk) := by
  induction evs generalizing m with
  | nil => rfl
  | cons e evs ih =>
    rw [List.foldl_cons, ih, slotsUnder_handle, latencies, List.foldl_append]

/-- After any run the slots under a key are the histogram of the latencies counted there. -/
theorem slotsUnder_run (evs : List Event) (bk : BlkKey) :
    slotsUnder (run evs) bk = logLinear (latencies bk .new evs) := by
  have hnew : slotsUnder .new bk = Vector.replicate maxSlots 0 := by
    unfold slotsUnder Maps.new
    rw [BoundedMap.lookup_empty]
    rfl
  rw [run, slotsUnder_foldl, hnew]
  rfl

variable [Build]

/-- The gadgets' logarithm is the floor of the base-2 one, a latency is counted in the slot
between whose bounds it lies, the slots under a key count the latencies added there, and
collapsed to octaves they are the log2 histogram of these latencies. -/
theorem logLinear_refines :
    (∀ delta : UInt64, delta.toNat < 2 ^ 62 →
      (log2U64 delta).toNat = Nat.log 2 delta.toNat ∧
      ∀ s < maxSlots, slotOf delta = s ↔
        (0 < s → (logLinearBounds (F := ℝ)).getD (s - 1) 0 ≤ delta.toNat) ∧
          (s < maxSlots - 1 → (delta.toNat : ℝ) < (logLinearBounds (F := ℝ)).getD s 0)) ∧
    (∀ evs bk, slotsUnder (run evs) bk = logLinear (latencies bk .new evs)) ∧
    ∀ deltas : List UInt64, (∀ d ∈ deltas, d.toNat < 2 ^ 62) →
      (Build.overflowChecks = true →
        ∀ o < maxOctaves, (deltas.countP fun d => KvmGadget.slotOf d = o) < 2 ^ 32) →
      collapseToLog2 (logLinear deltas).toList = .ok (plain deltas).toList := by
  refine ⟨?_, slotsUnder_run, ?_⟩
  · intro delta hdelta
    exact ⟨log2U64_eq_log delta, fun s hs => slotOf_bounds hdelta hs⟩
  · intro deltas hdeltas hfits
    exact collapse_logLinear hdeltas hfits

end Run

end BlockGadget

end Assayist
