import Mathlib.Data.List.Basic
import Mathlib.Data.List.Flatten

/-! Separated streams that arrive in pieces. A listener that gathers up to a separator, and
that drops what it holds when nothing comes in time, hears the pieces of the stream exactly
when no such gap falls inside one of them. -/

namespace Framing

variable {α : Type} [DecidableEq α] {sep : α}

/-- What a listener meets: some elements at once, or a gap in which nothing comes. -/
inductive Arrival (α : Type) where
  | chunk (first : α) (rest : List α)
  | gap
  deriving DecidableEq, Repr

/-- A list cut behind each separator, into whole pieces and what is left, on top of a part
of a piece that came before. -/
def cut (sep : α) : List α → List α → List (List α) × List α
  | part, [] => ([], part)
  | part, x :: xs =>
    if x = sep then ((part ++ [x]) :: (cut sep [] xs).1, (cut sep [] xs).2)
    else cut sep (part ++ [x]) xs

def Whole (sep : α) (xs : List α) : Prop := ∀ x ∈ xs.getLast?, x = sep

instance (xs : List α) : Decidable (Whole sep xs) :=
  inferInstanceAs (Decidable (∀ x ∈ xs.getLast?, x = sep))

def sent : List (Arrival α) → List α
  | [] => []
  | .gap :: as => sent as
  | .chunk x xs :: as => (x :: xs) ++ sent as

/-- What the listener makes of a stream, the part before its end included. -/
def heard (sep : α) : List α → List (Arrival α) → List (List α)
  | part, [] => if part = [] then [] else [part]
  | _, .gap :: as => heard sep [] as
  | part, .chunk x xs :: as =>
    (cut sep part (x :: xs)).1 ++ heard sep (cut sep part (x :: xs)).2 as

def lost (sep : α) : List α → List (Arrival α) → List α
  | _, [] => []
  | part, .gap :: as => part ++ lost sep [] as
  | part, .chunk x xs :: as => lost sep (cut sep part (x :: xs)).2 as

/-- Every gap comes after whole pieces. -/
def Aligned (sep : α) (as : List (Arrival α)) : Prop :=
  ∀ before later, as = before ++ .gap :: later → Whole sep (sent before)

theorem cut_append (part xs ys : List α) :
    cut sep part (xs ++ ys) =
      ((cut sep part xs).1 ++ (cut sep (cut sep part xs).2 ys).1,
        (cut sep (cut sep part xs).2 ys).2) := by
  induction xs generalizing part with
  | nil => rfl
  | cons x xs ih =>
    simp only [List.cons_append, cut]
    split_ifs
    · rw [ih]
      rfl
    · exact ih _

theorem cut_flatten (part xs : List α) :
    (cut sep part xs).1.flatten ++ (cut sep part xs).2 = part ++ xs := by
  induction xs generalizing part with
  | nil => simp [cut]
  | cons x xs ih =>
    simp only [cut]
    split_ifs
    · rw [List.flatten_cons, List.append_assoc, ih]
      simp
    · rw [ih]
      simp

/-- Without a separator nothing is complete. -/
theorem cut_none (part : List α) {xs : List α} (h : sep ∉ xs) :
    cut sep part xs = ([], part ++ xs) := by
  induction xs generalizing part with
  | nil => simp [cut]
  | cons x xs ih =>
    rw [List.mem_cons, not_or] at h
    rw [cut, if_neg (Ne.symm h.1), ih _ h.2, List.append_assoc, List.singleton_append]

/-- With one, the first piece ends there. -/
theorem cut_first (part : List α) {xs : List α} (h : sep ∈ xs) :
    cut sep part xs =
      ((part ++ xs.take (xs.idxOf sep + 1)) :: (cut sep [] (xs.drop (xs.idxOf sep + 1))).1,
        (cut sep [] (xs.drop (xs.idxOf sep + 1))).2) := by
  induction xs generalizing part with
  | nil => exact absurd h List.not_mem_nil
  | cons x xs ih =>
    by_cases hx : x = sep
    · rw [cut, if_pos hx, hx, List.idxOf_cons_self]
      rfl
    · have hmem : sep ∈ xs := (List.mem_cons.1 h).resolve_left (Ne.symm hx)
      rw [cut, if_neg hx, ih _ hmem, List.idxOf_cons_ne _ hx]
      simp

theorem cut_left_append (part xs : List α) {x : α} :
    (cut sep part (xs ++ [x])).2 = [] ↔ x = sep := by
  rw [cut_append]
  simp only [cut]
  split_ifs with h
  · simp [h]
  · simp [h]

/-- Nothing is left over of whole pieces, and of nothing else. -/
theorem cut_left_iff (xs : List α) : (cut sep [] xs).2 = [] ↔ Whole sep xs := by
  rcases xs.eq_nil_or_concat with h | ⟨init, x, h⟩
  · subst h
    simp [cut, Whole]
  · subst h
    rw [List.concat_eq_append, cut_left_append, Whole, List.getLast?_append]
    simp

theorem cut_whole {xs : List α} (h : Whole sep xs) : (cut sep [] xs).1.flatten = xs := by
  have hall := @cut_flatten _ _ sep [] xs
  rwa [(cut_left_iff xs).2 h, List.append_nil, List.nil_append] at hall

theorem heard_length (part : List α) (as : List (Arrival α)) :
    (heard sep part as).flatten.length + (lost sep part as).length =
      part.length + (sent as).length := by
  induction as generalizing part with
  | nil =>
    unfold heard lost sent
    split_ifs with h
    · simp [h]
    · simp
  | cons a as ih =>
    cases a with
    | gap =>
      have h := ih []
      simp only [heard, lost, sent, List.length_append, List.length_nil] at h ⊢
      omega
    | chunk x xs =>
      have h := ih (cut sep part (x :: xs)).2
      have hcut := congrArg List.length (@cut_flatten _ _ sep part (x :: xs))
      simp only [heard, lost, sent, List.flatten_append, List.length_append] at h hcut ⊢
      omega

/-- Where nothing is lost, the gaps make no difference. -/
theorem heard_of_lost {part : List α} {as : List (Arrival α)} (h : lost sep part as = []) :
    heard sep part as = (cut sep part (sent as)).1 ++
      if (cut sep part (sent as)).2 = [] then [] else [(cut sep part (sent as)).2] := by
  induction as generalizing part with
  | nil => rfl
  | cons a as ih =>
    cases a with
    | gap =>
      obtain ⟨hpart, hlost⟩ := List.append_eq_nil_iff.1 h
      rw [hpart]
      exact ih hlost
    | chunk x xs =>
      simp only [heard, sent, cut_append, List.append_assoc]
      rw [ih h]

theorem lost_eq_nil_iff {part : List α} {as : List (Arrival α)} :
    lost sep part as = [] ↔
      ∀ before later, as = before ++ .gap :: later → (cut sep part (sent before)).2 = [] := by
  induction as generalizing part with
  | nil => simp [lost]
  | cons a as ih =>
    cases a with
    | gap =>
      rw [lost, List.append_eq_nil_iff, ih]
      apply Iff.intro
      · intro h before later heq
        obtain ⟨hpart, hrest⟩ := h
        cases before with
        | nil => exact hpart
        | cons b before =>
          obtain ⟨hb, hrestEq⟩ := List.cons.inj heq
          subst hb hpart
          exact hrest before later hrestEq
      · intro h
        have hpart := h [] as rfl
        refine ⟨hpart, fun before later heq => ?_⟩
        have hnext := h (.gap :: before) later (by rw [heq, List.cons_append])
        rwa [show part = [] from hpart] at hnext
    | chunk x xs =>
      rw [lost, ih]
      apply Iff.intro
      · intro h before later heq
        cases before with
        | nil => exact absurd (List.cons.inj heq).1 (by simp)
        | cons b before =>
          obtain ⟨hb, hrestEq⟩ := List.cons.inj heq
          subst hb
          rw [sent, cut_append]
          exact h before later hrestEq
      · intro h before later heq
        have hnext := h (.chunk x xs :: before) later (by rw [heq, List.cons_append])
        rwa [sent, cut_append] at hnext

theorem lost_iff_aligned (as : List (Arrival α)) : lost sep [] as = [] ↔ Aligned sep as := by
  rw [lost_eq_nil_iff]
  unfold Aligned
  simp only [cut_left_iff]

/-- Of a stream of whole pieces nothing is heard but its pieces, and all of them, exactly
when no gap falls inside one; and what a test leaves out of them is missing too. -/
theorem heard_filter_iff {as : List (Arrival α)} (hwhole : Whole sep (sent as))
    (p : List α → Bool) :
    (heard sep [] as).filter p = (cut sep [] (sent as)).1 ↔
      Aligned sep as ∧ ∀ piece ∈ (cut sep [] (sent as)).1, p piece := by
  have hleft := (cut_left_iff (sent as)).2 hwhole
  have hlen := @heard_length _ _ sep [] as
  rw [← lost_iff_aligned]
  apply Iff.intro
  · intro h
    have hsub : List.Sublist ((heard sep [] as).filter p) (heard sep [] as) :=
      List.filter_sublist
    have hle := hsub.flatten.length_le
    rw [h, cut_whole hwhole] at hle
    rw [List.length_nil, Nat.zero_add] at hlen
    have hlost : (lost sep [] as).length = 0 := by omega
    refine ⟨List.eq_nil_of_length_eq_zero hlost, fun piece hpiece => ?_⟩
    rw [← h] at hpiece
    exact (List.mem_filter.1 hpiece).2
  · intro h
    obtain ⟨hlost, hp⟩ := h
    rw [heard_of_lost hlost, hleft, if_pos rfl, List.append_nil]
    exact List.filter_eq_self.2 hp

end Framing
