import Mathlib.Algebra.BigOperators.Group.Finset.Piecewise
import Mathlib.Algebra.BigOperators.Group.Multiset.Basic
import Mathlib.Data.Fintype.Basic

/-! Counters that many parties add to. A party takes an amount on for a key and later puts it
into the key's entry, or opens the entry with it, in a step of its own, so that the steps of the
parties mix in every order. An amount is lost when it was to open an entry that is there by then.
Whatever the order, what went into the entries, what is still pending and what was lost make up
what was taken on. -/

def amounts {κ V : Type} [DecidableEq κ] (k : κ) (xs : List (κ × V)) : Multiset V :=
  (xs.filter (·.1 = k)).map (·.2)

/-- An entry that amounts went into; it is there from the first one on. -/
def entryOf {V : Type} [AddCommMonoid V] (paid : Multiset V) : Option V :=
  if paid.card = 0 then none else some paid.sum

/-- The entries, what each party still has to put in, and what was taken on and lost so far. -/
structure Tally (ι κ V : Type) where
  entries : κ → Option V
  pending : ι → Option (κ × V)
  taken : List (κ × V)
  lost : List (κ × V)

section Amounts

variable {κ V : Type} [DecidableEq κ]

@[simp] theorem amounts_nil (k : κ) : amounts k ([] : List (κ × V)) = 0 := rfl

theorem amounts_append (k : κ) (xs ys : List (κ × V)) :
    amounts k (xs ++ ys) = amounts k xs + amounts k ys := by
  simp [amounts]

theorem amounts_single (k k' : κ) (v : V) :
    amounts k' [(k, v)] = if k' = k then {v} else 0 := by
  unfold amounts
  by_cases h : k' = k
  · simp [h]
  · simp [h, Ne.symm h]

end Amounts

section Entries

variable {V : Type} [AddCommMonoid V]

theorem entryOf_eq_none {paid : Multiset V} : entryOf paid = none ↔ paid = 0 := by
  unfold entryOf
  split_ifs with h
  · exact iff_of_true rfl (Multiset.card_eq_zero.1 h)
  · exact iff_of_false (by simp) fun hzero => h (Multiset.card_eq_zero.2 hzero)

theorem entryOf_add (v : V) (paid : Multiset V) :
    entryOf (paid + {v}) = some (((entryOf paid).getD 0) + v) := by
  have hcard : (paid + {v}).card ≠ 0 := by simp
  unfold entryOf
  rw [if_neg hcard, Multiset.sum_add, Multiset.sum_singleton]
  by_cases h : paid.card = 0
  · rw [if_pos h, Multiset.card_eq_zero.1 h]
    rfl
  · rw [if_neg h]
    rfl

end Entries

namespace Tally

variable {ι κ V : Type}

def due [Fintype ι] [DecidableEq κ] (pending : ι → Option (κ × V)) (k : κ) : Multiset V :=
  ∑ i, amounts k (pending i).toList

variable [DecidableEq κ]

section Due

variable [Fintype ι] {pending : ι → Option (κ × V)} {i : ι} {k k' : κ} {v : V}

theorem due_none (h : ∀ i, pending i = none) : due pending k = 0 := by
  refine Finset.sum_eq_zero fun i _ => ?_
  rw [h i]
  rfl

variable [DecidableEq ι]

theorem due_update (pending : ι → Option (κ × V)) (i : ι) (k : κ) (o : Option (κ × V)) :
    due (Function.update pending i o) k + amounts k (pending i).toList =
      due pending k + amounts k o.toList := by
  have hrest : ∑ j ∈ Finset.univ.erase i, amounts k (Function.update pending i o j).toList =
      ∑ j ∈ Finset.univ.erase i, amounts k (pending j).toList := by
    refine Finset.sum_congr rfl fun j hj => ?_
    rw [Function.update_of_ne (Finset.ne_of_mem_erase hj)]
  have hi : i ∈ Finset.univ := Finset.mem_univ i
  rw [due, due, ← Finset.add_sum_erase _ _ hi, ← Finset.add_sum_erase _ _ hi, hrest,
    Function.update_self]
  ac_rfl

theorem due_take (h : pending i = none) :
    due (Function.update pending i (some (k, v))) k' = due pending k' + amounts k' [(k, v)] := by
  have hdue := due_update pending i k' (some (k, v))
  rwa [h, Option.toList_none, amounts_nil, add_zero] at hdue

theorem due_settle (h : pending i = some (k, v)) :
    due pending k' = due (Function.update pending i none) k' + amounts k' [(k, v)] := by
  have hdue := due_update pending i k' none
  rw [h, Option.toList_none, amounts_nil, add_zero] at hdue
  exact hdue.symm

end Due

variable [AddCommMonoid V]

section Balance

variable [Fintype ι] {t : Tally ι κ V}

/-- Every amount that was taken on went into its entry once, is pending, or was lost to an entry
that is there. -/
def Balanced (t : Tally ι κ V) : Prop :=
  ∀ k, ∃ paid, paid + due t.pending k + amounts k t.lost = amounts k t.taken ∧
    t.entries k = entryOf paid ∧ (t.entries k = none → amounts k t.lost = 0)

theorem balanced_start (entries : κ → Option V) (pending : ι → Option (κ × V))
    (hentries : ∀ k, entries k = none) (hpending : ∀ i, pending i = none) :
    Balanced ⟨entries, pending, [], []⟩ := fun k =>
  ⟨0, by rw [due_none hpending]; rfl, hentries k, fun _ => rfl⟩

/-- With nothing pending, an entry holds what was taken on exactly when what was lost comes to
nothing. -/
theorem entry_exact [IsCancelAdd V] (hbal : t.Balanced) (hidle : ∀ i, t.pending i = none)
    (k : κ) :
    t.entries k = entryOf (amounts k t.taken) ↔ (amounts k t.lost).sum = 0 := by
  obtain ⟨paid, hsum, hentry, hlost⟩ := hbal k
  rw [due_none hidle, add_zero] at hsum
  rw [hentry, entryOf_eq_none] at hlost
  rw [hentry, ← hsum]
  by_cases hpaid : paid = 0
  · rw [hlost hpaid, add_zero]
    exact iff_of_true rfl rfl
  · have hcard : paid.card ≠ 0 := fun h => hpaid (Multiset.card_eq_zero.1 h)
    have hcard' : (paid + amounts k t.lost).card ≠ 0 := by
      rw [Multiset.card_add]
      omega
    rw [entryOf, entryOf, if_neg hcard, if_neg hcard', Multiset.sum_add, Option.some.injEq,
      left_eq_add]

end Balance

variable [DecidableEq ι]

inductive Step : Tally ι κ V → Tally ι κ V → Prop
  | take {t : Tally ι κ V} {i : ι} {k : κ} {v : V} (h : t.pending i = none) :
      Step t { t with pending := Function.update t.pending i (some (k, v))
                      taken := t.taken ++ [(k, v)] }
  | add {t : Tally ι κ V} {i : ι} {k : κ} {v w : V} (h : t.pending i = some (k, v))
      (hk : t.entries k = some w) :
      Step t { t with entries := Function.update t.entries k (some (w + v))
                      pending := Function.update t.pending i none }
  | insert {t : Tally ι κ V} {i : ι} {k : κ} {v : V} (h : t.pending i = some (k, v))
      (hk : t.entries k = none) :
      Step t { t with entries := Function.update t.entries k (some v)
                      pending := Function.update t.pending i none }
  | lose {t : Tally ι κ V} {i : ι} {k : κ} {v w : V} (h : t.pending i = some (k, v))
      (hk : t.entries k = some w) :
      Step t { t with pending := Function.update t.pending i none
                      lost := t.lost ++ [(k, v)] }

variable [Fintype ι] {t t' : Tally ι κ V}

theorem balanced_put {i : ι} {k : κ} {v : V} (h : t.pending i = some (k, v))
    (hbal : t.Balanced) :
    Balanced { t with entries := Function.update t.entries k (some ((t.entries k).getD 0 + v))
                      pending := Function.update t.pending i none } := by
  intro k'
  obtain ⟨paid, hsum, hentry, hlost⟩ := hbal k'
  rw [due_settle h, amounts_single] at hsum
  dsimp only
  by_cases hk : k' = k
  · subst hk
    rw [if_pos rfl] at hsum
    rw [Function.update_self]
    refine ⟨paid + {v}, ?_, ?_, fun hnone => (nomatch hnone)⟩
    · rw [← hsum]
      ac_rfl
    · rw [hentry, entryOf_add]
  · rw [if_neg hk, add_zero] at hsum
    rw [Function.update_of_ne hk]
    exact ⟨paid, hsum, hentry, hlost⟩

theorem balanced_step (h : Step t t') (hbal : t.Balanced) : t'.Balanced := by
  cases h with
  | take hi =>
    intro k
    obtain ⟨paid, hsum, hentry⟩ := hbal k
    refine ⟨paid, ?_, hentry⟩
    dsimp only
    rw [due_take hi, amounts_append, ← hsum]
    ac_rfl
  | add hi hk =>
    have hput := balanced_put hi hbal
    rwa [hk] at hput
  | insert hi hk =>
    have hput := balanced_put hi hbal
    rwa [hk, Option.getD_none, zero_add] at hput
  | lose hi hk =>
    rename_i i k v w
    intro k'
    obtain ⟨paid, hsum, hentry, hlost⟩ := hbal k'
    rw [due_settle hi] at hsum
    refine ⟨paid, ?_, hentry, fun hnone => ?_⟩
    · dsimp only
      rw [amounts_append, ← hsum]
      ac_rfl
    · have hne : k' ≠ k := by
        rintro rfl
        exact nomatch hnone.symm.trans hk
      dsimp only
      rw [amounts_append, hlost hnone, amounts_single, if_neg hne, add_zero]

end Tally
