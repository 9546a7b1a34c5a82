import Mathlib.Data.List.Basic
import Std.Data.TreeMap.Lemmas

/-! Folding a list into a map that keeps one accumulator per key. What the map holds
under a key is the fold over the elements with that key, in their order. -/

namespace Grouping

section Fold

variable {κ β V : Type} [Ord κ] [Std.TransOrd κ] [Std.LawfulEqOrd κ] [DecidableEq κ]

def put (key : β → κ) (f : Option V → β → V) (m : Std.TreeMap κ V) (x : β) : Std.TreeMap κ V :=
  m.alter (key x) fun v => some (f v x)

theorem getElem?_put (key : β → κ) (f : Option V → β → V) (m : Std.TreeMap κ V) (x : β) (k : κ) :
    (put key f m x)[k]? = if key x = k then some (f m[k]? x) else m[k]? := by
  unfold put
  rw [Std.TreeMap.getElem?_alter]
  by_cases h : key x = k
  · subst h
    simp
  · have hne : compare (key x) k ≠ .eq := fun he => h (Std.LawfulEqOrd.eq_of_compare he)
    simp [hne, h]

theorem getElem?_foldl_put (key : β → κ) (f : Option V → β → V) (xs : List β)
    (m : Std.TreeMap κ V) (k : κ) :
    (xs.foldl (put key f) m)[k]? =
      (xs.filter fun x => key x = k).foldl (fun v x => some (f v x)) m[k]? := by
  induction xs generalizing m with
  | nil => rfl
  | cons x xs ih =>
    rw [List.foldl_cons, ih, getElem?_put]
    by_cases h : key x = k
    · simp [h]
    · simp [h]

end Fold

section Accumulators

variable {β γ : Type}

theorem foldl_append (g : β → γ) (xs : List β) (v : Option (List γ)) :
    xs.foldl (fun v x => some (v.getD [] ++ [g x])) v =
      if xs.isEmpty then v else some (v.getD [] ++ xs.map g) := by
  induction xs generalizing v with
  | nil => rfl
  | cons x xs ih =>
    rw [List.foldl_cons, ih]
    cases xs <;> simp

theorem foldl_any (p : β → Bool) (xs : List β) (v : Option Bool) :
    (xs.foldl (fun v x => some (v.getD false || p x)) v).getD false =
      (v.getD false || xs.any p) := by
  induction xs generalizing v with
  | nil => simp
  | cons x xs ih =>
    rw [List.foldl_cons, ih]
    simp [Bool.or_assoc]

/-- The first value seen stays. -/
theorem foldl_first (g : β → γ) (xs : List β) (v : Option γ) :
    xs.foldl (fun v x => some (v.getD (g x))) v = v.or (xs.head?.map g) := by
  induction xs generalizing v with
  | nil => simp
  | cons x xs ih =>
    rw [List.foldl_cons, ih]
    cases v <;> simp

/-- The distinct values, in order of appearance. -/
def addNew [BEq γ] (xs : List γ) (x : γ) : List γ := if xs.contains x then xs else xs ++ [x]

theorem foldl_addNew_append [BEq γ] [LawfulBEq γ] (xs acc : List γ) :
    xs.foldl addNew acc = acc ++ (xs.filter fun x => !acc.contains x).eraseDups := by
  induction xs generalizing acc with
  | nil => simp
  | cons x xs ih =>
    rw [List.foldl_cons, ih, addNew]
    by_cases hx : acc.contains x = true
    · rw [if_pos hx, List.filter_cons, hx]
      rfl
    · have hkeep : (xs.filter fun y => !(acc ++ [x]).contains y) =
          (xs.filter fun y => !acc.contains y).filter fun y => !y == x := by
        rw [List.filter_filter]
        refine List.filter_congr fun y _ => ?_
        rw [List.contains_append, Bool.not_or, Bool.and_comm, List.contains_cons, List.contains_nil,
          Bool.or_false]
      rw [if_neg hx, hkeep, List.filter_cons, if_pos (by simpa using hx), List.eraseDups_cons,
        List.append_assoc]
      rfl

/-- Each value once, where it came first. -/
theorem foldl_addNew_nil [BEq γ] [LawfulBEq γ] (xs : List γ) :
    xs.foldl addNew [] = xs.eraseDups := by
  rw [foldl_addNew_append, List.nil_append, List.filter_eq_self.2 (by simp)]

end Accumulators

section Partition

variable {κ β : Type} [DecidableEq κ]

end Partition

end Grouping
