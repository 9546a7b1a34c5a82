import Assayist.Lib.Histograms
import Mathlib.Data.Finset.Max
import Mathlib.Data.List.Basic
import Mathlib.Data.List.Sort

/-! Samples that are known by the bins they fall in only. Where a larger sample falls in no lower
bin, the bin at a rank is the bin of the sample at that rank, and the mean of the bins' values is
that of the values that the samples are counted at. -/

namespace Histograms

section Binned

variable {α : Type} (bin : α → ℕ) (n : ℕ)

def binned (xs : List α) : List ℕ := (List.range n).map fun i => xs.countP fun x => bin x = i

variable {bin n} {xs : List α}

theorem sum_indicator (k m : ℕ) :
    ((List.range m).map fun i => if k = i then 1 else 0).sum = if k < m then 1 else 0 := by
  induction m with
  | zero => rfl
  | succ m ih =>
    rw [List.range_succ, List.map_append, List.sum_append, ih, List.map_singleton,
      List.sum_singleton]
    split_ifs <;> omega

theorem sum_countP (m : ℕ) :
    ((List.range m).map fun i => xs.countP fun x => bin x = i).sum =
      xs.countP fun x => bin x < m := by
  induction xs with
  | nil => simp
  | cons x xs ih =>
    simp only [List.countP_cons, decide_eq_true_eq]
    rw [List.sum_map_add, ih, sum_indicator]

theorem upTo_binned (h : ∀ x ∈ xs, bin x < n) (i : ℕ) :
    upTo (binned bin n xs) i = xs.countP fun x => bin x ≤ i := by
  rw [upTo, binned, ← List.map_take, List.take_range, sum_countP]
  apply List.countP_congr
  intro x hx
  have hlt := h x hx
  simp only [decide_eq_true_eq]
  omega

theorem sum_binned (h : ∀ x ∈ xs, bin x < n) : (binned bin n xs).sum = xs.length := by
  rw [binned, sum_countP, List.countP_eq_length]
  intro x hx
  exact decide_eq_true (h x hx)

section Weighted

variable {K : Type} [Field K] {value : ℕ → K}

theorem weighted_concat (i c : ℕ) (counts : List ℕ) :
    weighted value i (counts ++ [c]) =
      weighted value i counts + c * value (i + counts.length) := by
  induction counts generalizing i with
  | nil => simp [weighted]
  | cons d counts ih =>
    have hlast : i + 1 + counts.length = i + (counts.length + 1) := by omega
    rw [List.cons_append, weighted, weighted, ih, List.length_cons, hlast, add_assoc]

theorem weighted_congr {value' : ℕ → K} {i : ℕ} {counts : List ℕ}
    (h : ∀ k < counts.length, value (i + k) = value' (i + k)) :
    weighted value i counts = weighted value' i counts := by
  induction counts generalizing i with
  | nil => rfl
  | cons c counts ih =>
    rw [List.length_cons, forall_lt_succ (p := fun k => value k = value' k)] at h
    rw [weighted, weighted, h.1, ih h.2]

theorem weighted_range (f : ℕ → ℕ) (m : ℕ) :
    weighted value 0 ((List.range m).map f) =
      ((List.range m).map fun i => (f i : K) * value i).sum := by
  induction m with
  | zero => rfl
  | succ m ih =>
    rw [List.range_succ, List.map_append, List.map_singleton, weighted_concat, ih, List.map_append,
      List.sum_append, List.map_singleton, List.sum_singleton, List.length_map, List.length_range,
      Nat.zero_add]

theorem sum_at (k m : ℕ) :
    ((List.range m).map fun i => ((if k = i then 1 else 0 : ℕ) : K) * value i).sum =
      if k < m then value k else 0 := by
  induction m with
  | zero => rfl
  | succ m ih =>
    rw [List.range_succ, List.map_append, List.sum_append, ih, List.map_singleton,
      List.sum_singleton]
    rcases Nat.lt_trichotomy k m with h | rfl | h
    · rw [if_pos h, if_neg h.ne, if_pos (by omega), Nat.cast_zero, zero_mul, add_zero]
    · rw [if_neg (Nat.lt_irrefl k), if_pos rfl, if_pos (by omega), Nat.cast_one, one_mul, zero_add]
    · rw [if_neg (by omega), if_neg h.ne', if_neg (by omega), Nat.cast_zero, zero_mul, add_zero]

theorem weighted_binned (h : ∀ x ∈ xs, bin x < n) :
    weighted value 0 (binned bin n xs) = (xs.map fun x => value (bin x)).sum := by
  rw [binned, weighted_range]
  induction xs with
  | nil => simp
  | cons x xs ih =>
    rw [List.forall_mem_cons] at h
    have hsplit (i : ℕ) : (((x :: xs).countP fun x => bin x = i : ℕ) : K) * value i =
        ((xs.countP fun x => bin x = i : ℕ) : K) * value i +
          ((if bin x = i then 1 else 0 : ℕ) : K) * value i := by
      rw [List.countP_cons, Nat.cast_add, add_mul]
      simp only [decide_eq_true_eq]
    simp only [hsplit]
    rw [List.sum_map_add, ih h.2, sum_at, if_pos h.1, List.map_cons, List.sum_cons, add_comm]

end Weighted

end Binned

section Ranks

variable {α : Type} [LinearOrder α]

/-- The sample at a rank: the least value that so many samples are not above. -/
def AtRank (xs : List α) (r : ℕ) (x : α) : Prop := IsLeast {y | r ≤ xs.countP fun z => z ≤ y} x

variable {xs : List α} {r : ℕ} {x : α}

theorem exists_largest (h : xs ≠ []) : ∃ y ∈ xs, ∀ z ∈ xs, z ≤ y := by
  obtain ⟨a, ha⟩ := List.exists_mem_of_ne_nil xs h
  obtain ⟨y, hy, hmax⟩ := Finset.exists_max_image xs.toFinset id ⟨a, List.mem_toFinset.2 ha⟩
  exact ⟨y, List.mem_toFinset.1 hy, fun z hz => hmax z (List.mem_toFinset.2 hz)⟩

/-- Where so many samples have a property, one that has it is not below so many. -/
theorem exists_above {p : α → Bool} (hr : 0 < r) (h : r ≤ xs.countP p) :
    ∃ y ∈ xs, p y ∧ r ≤ xs.countP fun z => z ≤ y := by
  have hne : xs.filter p ≠ [] := by
    rw [← List.length_pos_iff, ← List.countP_eq_length_filter]
    omega
  obtain ⟨y, hy, hmax⟩ := exists_largest hne
  obtain ⟨hmem, hp⟩ := List.mem_filter.1 hy
  refine ⟨y, hmem, hp, h.trans (List.countP_mono_left fun z hz hpz => ?_)⟩
  exact decide_eq_true (hmax z (List.mem_filter.2 ⟨hz, hpz⟩))

theorem exists_atRank (hr : 0 < r) (h : r ≤ xs.length) : ∃ x ∈ xs, AtRank xs r x := by
  have hall : r ≤ xs.countP fun _ => true := by rwa [List.countP_true]
  obtain ⟨y, hy, -, hcount⟩ := exists_above hr hall
  obtain ⟨x, hx, hmin⟩ := Finset.exists_min_image
    (xs.toFinset.filter fun y => r ≤ xs.countP fun z => z ≤ y) id
    ⟨y, Finset.mem_filter.2 ⟨List.mem_toFinset.2 hy, hcount⟩⟩
  obtain ⟨hmem, hxr⟩ := Finset.mem_filter.1 hx
  refine ⟨x, List.mem_toFinset.1 hmem, hxr, ?_⟩
  intro w hw
  obtain ⟨v, hv, hvw, hcount⟩ := exists_above hr hw
  have hle := hmin v (Finset.mem_filter.2 ⟨List.mem_toFinset.2 hv, hcount⟩)
  exact le_trans hle (of_decide_eq_true hvw)

/-- The bin at a rank is the bin of the sample at that rank. -/
theorem AtRank.bin {bin : α → ℕ} (hbin : Monotone bin) {n : ℕ} (hn : ∀ x ∈ xs, bin x < n)
    (hr : 0 < r) (h : AtRank xs r x) : IsLeast {i | r ≤ upTo (binned bin n xs) i} (bin x) := by
  refine ⟨?_, ?_⟩
  · change r ≤ upTo _ _
    rw [upTo_binned hn]
    apply h.1.trans
    apply List.countP_mono_left
    intro z _ hz
    exact decide_eq_true (hbin (of_decide_eq_true hz))
  · intro i hi
    change r ≤ upTo _ _ at hi
    rw [upTo_binned hn] at hi
    obtain ⟨y, -, hy, hcount⟩ := exists_above hr hi
    exact (hbin (h.2 hcount)).trans (of_decide_eq_true hy)

/-- Among samples in order, the one at an index is at the rank one above it. -/
theorem AtRank.of_pairwise (hsorted : xs.Pairwise (· ≤ ·)) {i : ℕ}
    (h : i < xs.length) : AtRank xs (i + 1) xs[i] := by
  rw [List.pairwise_iff_getElem] at hsorted
  apply And.intro
  · change i + 1 ≤ xs.countP _
    have hall : (xs.take (i + 1)).countP (fun z => z ≤ xs[i]) = i + 1 := by
      rw [List.countP_eq_length.2, List.length_take_of_le h]
      intro z hz
      obtain ⟨j, hj, rfl⟩ := List.mem_take_iff_getElem.1 hz
      apply decide_eq_true
      rcases (Nat.le_of_lt_succ (lt_of_lt_of_le hj (min_le_left _ _))).lt_or_eq with hlt | rfl
      · exact hsorted j i _ h hlt
      · exact le_rfl
    rw [← hall]
    exact (List.take_sublist _ _).countP_le
  · intro w hw
    change i + 1 ≤ xs.countP _ at hw
    by_contra hlt
    have hlt : w < xs[i] := not_le.1 hlt
    rw [← List.take_append_drop i xs, List.countP_append] at hw
    have hnone : (xs.drop i).countP (fun z => z ≤ w) = 0 := by
      rw [List.countP_eq_zero]
      intro z hz
      obtain ⟨j, hj, rfl⟩ := List.mem_drop_iff_getElem.1 hz
      have hle : xs[i] ≤ xs[i + j] := by
        rcases Nat.eq_zero_or_pos j with rfl | hpos
        · exact le_rfl
        · exact hsorted i (i + j) h _ (by omega)
      rw [decide_eq_true_eq, not_le]
      exact hlt.trans_le hle
    have hfew : (xs.take i).countP (fun z => z ≤ w) ≤ i :=
      List.countP_le_length.trans (List.length_take_le _ _)
    omega

theorem AtRank.perm {ys : List α} (h : xs.Perm ys) (hx : AtRank ys r x) :
    AtRank xs r x := by
  unfold AtRank at hx ⊢
  simpa only [h.countP_eq] using hx

theorem AtRank.insertionSort {i : ℕ} (h : i < (xs.insertionSort (· ≤ ·)).length) :
    AtRank xs (i + 1) (xs.insertionSort (· ≤ ·))[i] :=
  AtRank.perm (List.perm_insertionSort (· ≤ ·) xs).symm
    (AtRank.of_pairwise (List.pairwise_insertionSort _ xs) h)

end Ranks

end Histograms
