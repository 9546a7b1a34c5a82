import Mathlib.Algebra.BigOperators.Group.List.Basic
import Mathlib.Algebra.Order.BigOperators.Group.List
import Mathlib.Algebra.Order.Field.Basic
import Mathlib.Tactic.Linarith
import Mathlib.Tactic.Ring

/-! Histograms as lists of counts: samples counted bin by bin, the first bin at which a
running count is enough, and totals weighted by one value a bin. -/

namespace Histograms

section Bins

variable {K : Type} [LinearOrder K]

/-- The number of samples above `a` and up to `b`. -/
def between (a b : K) (xs : List K) : ℕ := xs.countP fun x => decide (a < x ∧ x ≤ b)

theorem between_add {a b c : K} (hab : a ≤ b) (hbc : b ≤ c) (xs : List K) :
    between a b xs + between b c xs = between a c xs := by
  unfold between
  induction xs with
  | nil => rfl
  | cons x xs ih =>
    simp only [List.countP_cons, decide_eq_true_eq]
    rcases le_or_gt x b with hb | hb
    · have hlow : ¬ (b < x ∧ x ≤ c) := fun h => absurd h.1 (not_lt.2 hb)
      have hsame : (a < x ∧ x ≤ c) ↔ (a < x ∧ x ≤ b) :=
        ⟨fun h => ⟨h.1, hb⟩, fun h => ⟨h.1, hb.trans hbc⟩⟩
      simp only [hlow, hsame, if_false]
      omega
    · have hhigh : ¬ (a < x ∧ x ≤ b) := fun h => absurd h.2 (not_le.2 hb)
      have hsame : (a < x ∧ x ≤ c) ↔ (b < x ∧ x ≤ c) :=
        ⟨fun h => ⟨hb, h.2⟩, fun h => ⟨hab.trans_lt hb, h.2⟩⟩
      simp only [hhigh, hsame, if_false]
      omega

theorem between_self (a : K) (xs : List K) : between a a xs = 0 := by
  unfold between
  rw [List.countP_eq_zero]
  intro x _ hx
  rw [decide_eq_true_eq] at hx
  exact absurd hx.1 (not_lt.2 hx.2)

theorem between_pos {a b x : K} {xs : List K} (hx : x ∈ xs) (ha : a < x) (hb : x ≤ b) :
    between a b xs ≠ 0 := by
  unfold between
  have hpos : 0 < xs.countP fun x => decide (a < x ∧ x ≤ b) :=
    List.countP_pos_iff.2 ⟨x, hx, decide_eq_true ⟨ha, hb⟩⟩
  omega

variable {edge : ℕ → K} (hedge : Monotone edge) {xs : List K}

include hedge in
/-- The bins from the `i`-th on hold what lies between the first edge and the last. -/
theorem sum_bins {counts : List ℕ} {i : ℕ}
    (h : ∀ k < counts.length, counts.getD k 0 = between (edge (i + k)) (edge (i + k + 1)) xs) :
    counts.sum = between (edge i) (edge (i + counts.length)) xs := by
  induction counts generalizing i with
  | nil => exact (between_self _ _).symm
  | cons n counts ih =>
    have hfirst : n = between (edge i) (edge (i + 1)) xs := h 0 (Nat.succ_pos _)
    have hrest : counts.sum = between (edge (i + 1)) (edge (i + 1 + counts.length)) xs := by
      apply ih
      intro k hk
      have hk' := h (k + 1) (Nat.succ_lt_succ hk)
      rwa [List.getD_cons_succ, show i + (k + 1) = i + 1 + k by omega] at hk'
    rw [List.sum_cons, hrest, hfirst, List.length_cons,
      show i + (counts.length + 1) = i + 1 + counts.length by omega]
    exact between_add (hedge (by omega)) (hedge (by omega)) xs

include hedge in
/-- Consecutive bins hold no sample twice. -/
theorem sum_bins_le {counts : List ℕ} {i : ℕ}
    (h : ∀ k < counts.length, counts.getD k 0 = between (edge (i + k)) (edge (i + k + 1)) xs) :
    counts.sum ≤ xs.length := by
  rw [sum_bins hedge h]
  exact List.countP_le_length

end Bins

theorem sum_ne_zero {counts : List ℕ} : counts.sum ≠ 0 ↔ ∃ k, counts.getD k 0 ≠ 0 := by
  induction counts with
  | nil => simp
  | cons n counts ih =>
    rw [List.sum_cons]
    apply Iff.intro
    · intro h
      rcases Nat.eq_zero_or_pos n with rfl | hn
      · obtain ⟨k, hk⟩ := ih.1 (by omega)
        exact ⟨k + 1, hk⟩
      · exact ⟨0, by rw [List.getD_cons_zero]; omega⟩
    · intro h
      obtain ⟨k, hk⟩ := h
      cases k with
      | zero =>
        rw [List.getD_cons_zero] at hk
        omega
      | succ k =>
        have hrest := ih.2 ⟨k, hk⟩
        omega

theorem lt_length_of_getD {counts : List ℕ} {k : ℕ} (h : counts.getD k 0 ≠ 0) :
    k < counts.length := by
  by_contra hk
  rw [List.getD_eq_getElem?_getD, List.getElem?_eq_none (not_lt.1 hk)] at h
  exact h rfl

/-- A histogram with a count has a first bin that holds one. -/
theorem exists_first {counts : List ℕ} (h : counts.sum ≠ 0) :
    ∃ k, counts.getD k 0 ≠ 0 ∧ ∀ l, counts.getD l 0 ≠ 0 → k ≤ l := by
  have hex := sum_ne_zero.1 h
  exact ⟨Nat.find hex, Nat.find_spec hex, fun l hl => Nat.find_min' hex hl⟩

theorem forall_lt_succ {p : ℕ → Prop} {i n : ℕ} :
    (∀ k < n + 1, p (i + k)) ↔ p i ∧ ∀ k < n, p (i + 1 + k) := by
  apply Iff.intro
  · intro h
    refine ⟨h 0 (Nat.succ_pos n), ?_⟩
    intro k hk
    rw [show i + 1 + k = i + (k + 1) by omega]
    exact h (k + 1) (Nat.succ_lt_succ hk)
  · rintro ⟨hi, h⟩ k hk
    cases k with
    | zero => exact hi
    | succ k =>
      rw [show i + (k + 1) = i + 1 + k by omega]
      exact h k (Nat.lt_of_succ_lt_succ hk)

section Ranks

variable (enough : ℕ → Prop) [DecidablePred enough]

/-- The first bin, from the `i`-th on, at which the running count from `cum` is enough. -/
def rankFrom : ℕ → ℕ → List ℕ → Option ℕ
  | _, _, [] => none
  | i, cum, n :: counts =>
    if enough (cum + n) then some i else rankFrom (i + 1) (cum + n) counts

variable {enough}

theorem exists_rankFrom {i cum : ℕ} {counts : List ℕ} (hcum : ¬ enough cum)
    (h : enough (cum + counts.sum)) : ∃ r, rankFrom enough i cum counts = some r := by
  induction counts generalizing i cum with
  | nil => exact absurd h hcum
  | cons n counts ih =>
    rw [rankFrom]
    by_cases hn : enough (cum + n)
    · exact ⟨i, if_pos hn⟩
    · rw [if_neg hn]
      apply ih hn
      rwa [List.sum_cons, ← Nat.add_assoc] at h

/-- The bin at which the count gets to be enough holds a count. -/
theorem rankFrom_occupied {i cum r : ℕ} {counts : List ℕ} (hcum : ¬ enough cum)
    (h : rankFrom enough i cum counts = some r) : ∃ k, r = i + k ∧ counts.getD k 0 ≠ 0 := by
  induction counts generalizing i cum with
  | nil => simp [rankFrom] at h
  | cons n counts ih =>
    rw [rankFrom] at h
    by_cases hn : enough (cum + n)
    · rw [if_pos hn, Option.some.injEq] at h
      refine ⟨0, h.symm, ?_⟩
      rw [List.getD_cons_zero]
      rintro rfl
      exact hcum hn
    · rw [if_neg hn] at h
      obtain ⟨k, hr, hk⟩ := ih hn h
      refine ⟨k + 1, by omega, ?_⟩
      rwa [List.getD_cons_succ]

theorem le_of_rankFrom {i cum r : ℕ} {counts : List ℕ} (h : rankFrom enough i cum counts = some r) :
    i ≤ r ∧ r < i + counts.length := by
  induction counts generalizing i cum with
  | nil => simp [rankFrom] at h
  | cons n counts ih =>
    rw [rankFrom] at h
    rw [List.length_cons]
    by_cases hn : enough (cum + n)
    · rw [if_pos hn, Option.some.injEq] at h
      omega
    · rw [if_neg hn] at h
      have hrest := ih h
      omega

/-- The bin comes before the `n`-th exactly when one of the first `n` running counts is
enough. -/
theorem rankFrom_lt_iff {i cum n : ℕ} {counts : List ℕ} :
    (∃ r, rankFrom enough i cum counts = some r ∧ r < i + n) ↔
      ∃ k < n, k < counts.length ∧ enough (cum + (counts.take (k + 1)).sum) := by
  induction counts generalizing i cum n with
  | nil => simp [rankFrom]
  | cons m counts ih =>
    rw [rankFrom]
    by_cases hm : enough (cum + m)
    · rw [if_pos hm]
      apply Iff.intro
      · intro h
        obtain ⟨r, hr, hlt⟩ := h
        rw [Option.some.injEq] at hr
        exact ⟨0, by omega, Nat.succ_pos _, by simpa using hm⟩
      · intro h
        obtain ⟨k, hk, _, _⟩ := h
        exact ⟨i, rfl, by omega⟩
    · rw [if_neg hm]
      cases n with
      | zero =>
        apply Iff.intro
        · intro h
          obtain ⟨r, hr, hlt⟩ := h
          have hle := le_of_rankFrom hr
          omega
        · intro h
          obtain ⟨k, hk, _, _⟩ := h
          omega
      | succ n =>
        rw [show i + (n + 1) = i + 1 + n by omega, ih]
        apply Iff.intro
        · intro h
          obtain ⟨k, hk, hlen, henough⟩ := h
          refine ⟨k + 1, by omega, Nat.succ_lt_succ hlen, ?_⟩
          rwa [List.take_succ_cons, List.sum_cons, ← Nat.add_assoc]
        · intro h
          obtain ⟨k, hk, hlen, henough⟩ := h
          cases k with
          | zero =>
            rw [List.take_succ_cons, List.take_zero, List.sum_cons, List.sum_nil,
              Nat.add_zero] at henough
            exact absurd henough hm
          | succ k =>
            refine ⟨k, by omega, Nat.lt_of_succ_lt_succ hlen, ?_⟩
            rwa [List.take_succ_cons, List.sum_cons, ← Nat.add_assoc] at henough

/-- With the last bin standing in when no count is enough. -/
theorem getD_rankFrom_lt_iff {n : ℕ} {counts : List ℕ} (hn : 0 < n) :
    (rankFrom enough 0 0 counts).getD (counts.length - 1) < n ↔
      counts.length ≤ n ∨ ∃ k < n, enough (counts.take (k + 1)).sum := by
  have hfirst : (∃ r, rankFrom enough 0 0 counts = some r ∧ r < 0 + n) ↔
      ∃ k < n, k < counts.length ∧ enough (0 + (counts.take (k + 1)).sum) := rankFrom_lt_iff
  simp only [Nat.zero_add] at hfirst
  cases hrank : rankFrom enough 0 0 counts with
  | none =>
    rw [hrank] at hfirst
    rw [Option.getD_none]
    apply Iff.intro
    · intro h
      exact Or.inl (by omega)
    · rintro (h | ⟨k, hk, henough⟩)
      · omega
      · by_contra hlen
        obtain ⟨r, hr, _⟩ := hfirst.2 ⟨k, hk, by omega, henough⟩
        cases hr
  | some r =>
    have hlen := (le_of_rankFrom hrank).2
    rw [hrank] at hfirst
    rw [Option.getD_some]
    apply Iff.intro
    · intro h
      obtain ⟨k, hk, _, henough⟩ := hfirst.1 ⟨r, rfl, h⟩
      exact Or.inr ⟨k, hk, henough⟩
    · rintro (h | ⟨k, hk, henough⟩)
      · omega
      · rcases Nat.lt_or_ge k counts.length with hklen | hklen
        · obtain ⟨r', hr', hlt⟩ := hfirst.2 ⟨k, hk, hklen, henough⟩
          rw [Option.some.injEq] at hr'
          omega
        · omega

def upTo (counts : List ℕ) (i : ℕ) : ℕ := (counts.take (i + 1)).sum

theorem upTo_succ (counts : List ℕ) (i : ℕ) :
    upTo counts (i + 1) = upTo counts i + counts.getD (i + 1) 0 := by
  unfold upTo
  rw [List.take_add_one (i := i + 1), List.sum_append, List.getD_eq_getElem?_getD]
  cases counts[i + 1]? with
  | none => rfl
  | some n => simp

theorem upTo_mono (counts : List ℕ) : Monotone (upTo counts) := by
  apply monotone_nat_of_le_succ
  intro i
  rw [upTo_succ]
  exact Nat.le_add_right _ _

theorem upTo_le (counts : List ℕ) (i : ℕ) : upTo counts i ≤ counts.sum :=
  (List.take_sublist _ _).sum_le_sum fun _ _ => Nat.zero_le _

/-- A total that reaches a bound gets there at some bin. -/
theorem exists_crossing {counts : List ℕ} {bound : ℕ} (hpos : 0 < bound) (h : bound ≤ counts.sum) :
    ∃ k, (counts.take k).sum < bound ∧ bound ≤ upTo counts k := by
  induction counts generalizing bound with
  | nil =>
    rw [List.sum_nil] at h
    omega
  | cons n counts ih =>
    rw [List.sum_cons] at h
    rcases Nat.lt_or_ge n bound with hn | hn
    · obtain ⟨k, hbefore, hreach⟩ := @ih (bound - n) (by omega) (by omega)
      refine ⟨k + 1, ?_, ?_⟩
      · rw [List.take_succ_cons, List.sum_cons]
        omega
      · rw [upTo] at hreach ⊢
        rw [List.take_succ_cons, List.sum_cons]
        omega
    · exact ⟨0, hpos, by simpa [upTo] using hn⟩

/-- The bin at the rank is the least at which the running count is enough. -/
theorem rankFrom_isLeast {r : ℕ} {counts : List ℕ} (h : rankFrom enough 0 0 counts = some r) :
    IsLeast {i | enough (upTo counts i)} r := by
  have hlen := (le_of_rankFrom h).2
  have hfirst {n : ℕ} : r < n ↔ ∃ k < n, k < counts.length ∧ enough (upTo counts k) := by
    have hlt : (∃ r, rankFrom enough 0 0 counts = some r ∧ r < 0 + n) ↔
        ∃ k < n, k < counts.length ∧ enough (0 + upTo counts k) := rankFrom_lt_iff
    simpa only [h, Option.some.injEq, exists_eq_left', Nat.zero_add] using hlt
  refine ⟨?_, ?_⟩
  · obtain ⟨k, hk, hklen, henough⟩ := hfirst.1 (Nat.lt_succ_self r)
    have hle : r < k + 1 := hfirst.2 ⟨k, Nat.lt_succ_self k, hklen, henough⟩
    obtain rfl : k = r := by omega
    exact henough
  · intro i hi
    by_contra hlt
    have hle : r < i + 1 := hfirst.2 ⟨i, Nat.lt_succ_self i, by omega, hi⟩
    omega

/-- A bin by which all samples are counted is followed by empty ones only. -/
theorem empty_after {r k : ℕ} {counts : List ℕ} (h : counts.sum ≤ upTo counts r) (hk : r < k) :
    counts.getD k 0 = 0 := by
  obtain ⟨j, rfl⟩ : ∃ j, k = j + 1 := ⟨k - 1, by omega⟩
  have hmono := upTo_mono counts (show r ≤ j by omega)
  have hle := upTo_le counts (j + 1)
  rw [upTo_succ] at hle
  omega

/-- A histogram with a count has a last bin that holds one, by which all samples are
counted. -/
theorem exists_last {counts : List ℕ} (h : counts.sum ≠ 0) :
    ∃ r, IsLeast {i | counts.sum ≤ upTo counts i} r ∧ IsGreatest {k | counts.getD k 0 ≠ 0} r := by
  have hnone : ¬ counts.sum ≤ 0 := by omega
  have hall : counts.sum ≤ 0 + counts.sum := by omega
  obtain ⟨r, hr⟩ : ∃ r, rankFrom (fun n => counts.sum ≤ n) 0 0 counts = some r :=
    exists_rankFrom hnone hall
  have hleast : IsLeast {i | counts.sum ≤ upTo counts i} r := rankFrom_isLeast hr
  obtain ⟨k, rfl, hocc⟩ := rankFrom_occupied hnone hr
  rw [Nat.zero_add] at hleast
  refine ⟨k, hleast, hocc, ?_⟩
  intro l hl
  by_contra hlt
  exact hl (empty_after hleast.1 (not_le.1 hlt))

end Ranks

section Weighted

variable {K : Type} [Field K]

/-- The bins from the `i`-th on, each count weighted by the value of its bin. -/
def weighted (value : ℕ → K) : ℕ → List ℕ → K
  | _, [] => 0
  | i, n :: counts => n * value i + weighted value (i + 1) counts

variable {value : ℕ → K}

theorem weighted_neg (i : ℕ) (counts : List ℕ) :
    weighted (fun k => -value k) i counts = -weighted value i counts := by
  induction counts generalizing i with
  | nil => simp [weighted]
  | cons n counts ih =>
    rw [weighted, weighted, ih]
    ring

variable [LinearOrder K] [IsStrictOrderedRing K] {bound : K}

theorem weighted_le {i : ℕ} {counts : List ℕ}
    (h : ∀ k, counts.getD k 0 ≠ 0 → value (i + k) ≤ bound) :
    weighted value i counts ≤ counts.sum * bound := by
  induction counts generalizing i with
  | nil => simp [weighted]
  | cons n counts ih =>
    have hfirst : (n : K) * value i ≤ n * bound := by
      rcases Nat.eq_zero_or_pos n with rfl | hn
      · simp
      · have hv : value (i + 0) ≤ bound := h 0 (by rw [List.getD_cons_zero]; omega)
        exact mul_le_mul_of_nonneg_left hv (Nat.cast_nonneg n)
    have hrest : weighted value (i + 1) counts ≤ counts.sum * bound := by
      apply ih
      intro k hk
      rw [show i + 1 + k = i + (k + 1) by omega]
      exact h (k + 1) (by rwa [List.getD_cons_succ])
    calc weighted value i (n :: counts) = n * value i + weighted value (i + 1) counts := rfl
      _ ≤ n * bound + counts.sum * bound := add_le_add hfirst hrest
      _ = ((n :: counts).sum : ℕ) * bound := by rw [List.sum_cons]; push_cast; ring

theorem le_weighted {i : ℕ} {counts : List ℕ}
    (h : ∀ k, counts.getD k 0 ≠ 0 → bound ≤ value (i + k)) :
    counts.sum * bound ≤ weighted value i counts := by
  have hneg : weighted (fun k => -value k) i counts ≤ counts.sum * -bound :=
    weighted_le fun k hk => neg_le_neg (h k hk)
  rw [weighted_neg] at hneg
  linarith

end Weighted

end Histograms
