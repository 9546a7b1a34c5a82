import Mathlib.Data.Set.Card

/-! Tables whose values carry a tag, and which are asked for a tag as well as for a key. While
no tag is under two keys, the answer to a tag is the one key that has it. -/

namespace Tagged

variable {κ α τ : Type}

abbrev Table (κ α : Type) := κ → Option α

def Table.empty : Table κ α := fun _ => none

def occupied (t : Table κ α) : Set κ := {k | t k ≠ none}

section Find

variable (tag : α → τ)

def Has (t : Table κ α) (k : κ) (x : τ) : Prop := ∃ a, t k = some a ∧ tag a = x

/-- No tag is under two keys. -/
def OneEach (t : Table κ α) : Prop := ∀ k l x, Has tag t k x → Has tag t l x → k = l

open Classical in
noncomputable def find (t : Table κ α) (x : τ) : Option κ :=
  if h : ∃ k, Has tag t k x then some h.choose else none

variable {tag} {t : Table κ α} {k : κ} {x : τ}

theorem find_eq_none_iff : find tag t x = none ↔ ∀ k, ¬ Has tag t k x := by
  unfold find
  split_ifs with h
  · obtain ⟨k, hk⟩ := h
    simp only [false_iff, not_forall, not_not]
    exact ⟨k, hk⟩
  · simp only [true_iff]
    exact not_exists.1 h

theorem find_eq_some_iff (hone : OneEach tag t) : find tag t x = some k ↔ Has tag t k x := by
  unfold find
  split_ifs with h
  · rw [Option.some.injEq]
    apply Iff.intro
    · intro hk
      rw [← hk]
      exact h.choose_spec
    · intro hk
      exact hone _ _ x h.choose_spec hk
  · simp only [false_iff]
    exact fun hk => h ⟨k, hk⟩

end Find

section Change

variable [DecidableEq κ]

def put (t : Table κ α) (k : κ) (a : α) : Table κ α := Function.update t k (some a)

def drop (t : Table κ α) (k : κ) : Table κ α := Function.update t k none

variable {t : Table κ α} {k l : κ} {a : α}

theorem put_self : put t k a k = some a := Function.update_self ..

theorem put_of_ne (h : l ≠ k) : put t k a l = t l := Function.update_of_ne h ..

theorem drop_self : drop t k k = none := Function.update_self ..

theorem drop_of_ne (h : l ≠ k) : drop t k l = t l := Function.update_of_ne h ..

theorem occupied_put : occupied (put t k a) = insert k (occupied t) := by
  ext l
  by_cases hl : l = k
  · simp [occupied, hl, put_self]
  · simp [occupied, hl, put_of_ne hl]

end Change

end Tagged
