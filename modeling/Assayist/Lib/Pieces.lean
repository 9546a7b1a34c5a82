import Mathlib.Algebra.Order.BigOperators.Group.List
import Mathlib.Algebra.Order.Group.Nat

/-! Concatenations of pieces. Two concatenations over one list, whose pieces agree in
length element by element, are equal exactly when the pieces are; and a common filling of
the same slots can be read back. A text without the separator between two pieces lies within
one of them, and of parts joined by a separator no more can be told than the words between the
separators. -/

namespace Pieces

variable {α β : Type}

/-- Aligned pieces can be compared one by one. -/
theorem flatMap_eq_iff {f g : α → List β} {xs : List α}
    (hlen : ∀ x ∈ xs, (f x).length = (g x).length) :
    xs.flatMap f = xs.flatMap g ↔ ∀ x ∈ xs, f x = g x := by
  induction xs with
  | nil => simp
  | cons x xs ih =>
    have hx := hlen x List.mem_cons_self
    have hxs := ih fun y hy => hlen y (List.mem_cons_of_mem _ hy)
    rw [List.flatMap_cons, List.flatMap_cons, List.forall_mem_cons, ← hxs]
    refine ⟨fun h => List.append_inj h hx, fun h => ?_⟩
    rw [h.1, h.2]

section Related

variable {γ : Type} {R : β → γ → Prop} {f : α → List β} {g : α → List γ}

/-- Two related lists one of which is cut no longer than the other are cut alike. -/
theorem forall₂_append_iff {bs bs' : List β} {cs cs' : List γ} (h : cs.length ≤ bs.length)
    (h' : cs'.length ≤ bs'.length) :
    List.Forall₂ R (bs ++ bs') (cs ++ cs') ↔ List.Forall₂ R bs cs ∧ List.Forall₂ R bs' cs' := by
  induction bs generalizing cs with
  | nil =>
    have hcs : cs = [] := List.eq_nil_of_length_eq_zero (by simpa using h)
    subst hcs
    simp
  | cons b bs ih =>
    cases cs with
    | nil =>
      apply Iff.intro
      · intro hall
        have hlen := hall.length_eq
        simp only [List.length_append, List.length_cons, List.nil_append] at hlen
        omega
      · intro hall
        exact absurd hall.1 (by simp)
    | cons c cs =>
      rw [List.length_cons, List.length_cons] at h
      rw [List.cons_append, List.cons_append, List.forall₂_cons, List.forall₂_cons,
        ih (by omega), and_assoc]

theorem length_flatMap_le {xs : List α} (hle : ∀ x ∈ xs, (g x).length ≤ (f x).length) :
    (xs.flatMap g).length ≤ (xs.flatMap f).length := by
  rw [List.length_flatMap, List.length_flatMap]
  exact List.sum_le_sum hle

/-- Where no piece of the second list is longer, the lists are related piece by piece. -/
theorem forall₂_flatMap_iff {xs : List α} (hle : ∀ x ∈ xs, (g x).length ≤ (f x).length) :
    List.Forall₂ R (xs.flatMap f) (xs.flatMap g) ↔ ∀ x ∈ xs, List.Forall₂ R (f x) (g x) := by
  induction xs with
  | nil => simp
  | cons x xs ih =>
    have hx := hle x List.mem_cons_self
    have hxs : ∀ y ∈ xs, (g y).length ≤ (f y).length := fun y hy =>
      hle y (List.mem_cons_of_mem _ hy)
    rw [List.flatMap_cons, List.flatMap_cons, forall₂_append_iff hx (length_flatMap_le hxs),
      ih hxs, List.forall_mem_cons]

end Related

section Slots

variable {before after : α → List β} {slot : α → Bool}

/-- A piece whose end is the filling at a slot, and its own text elsewhere. -/
def filled (before after : α → List β) (slot : α → Bool) (u : List β) (x : α) : List β :=
  before x ++ if slot x then u else after x

theorem length_filled (u v : List β) (h : u.length = v.length) (x : α) :
    (filled before after slot u x).length = (filled before after slot v x).length := by
  unfold filled
  split_ifs
  · rw [List.length_append, List.length_append, h]
  · rfl

theorem length_filled_lt {u v : List β} (h : u.length < v.length) {xs : List α} {x : α}
    (hx : x ∈ xs) (hslot : slot x = true) :
    (xs.flatMap (filled before after slot u)).length <
      (xs.flatMap (filled before after slot v)).length := by
  rw [List.length_flatMap, List.length_flatMap]
  refine List.sum_lt_sum _ _ (fun y _ => ?_) ⟨x, hx, ?_⟩
  · unfold filled
    split_ifs
    · simp only [List.length_append]
      omega
    · exact le_rfl
  · simp only [filled, hslot, if_true, List.length_append]
    omega

/-- The filling of a slot that occurs can be read back off the concatenation. -/
theorem filled_inj {u v : List β} {xs : List α} {x : α} (hx : x ∈ xs) (hslot : slot x = true)
    (h : xs.flatMap (filled before after slot u) = xs.flatMap (filled before after slot v)) :
    u = v := by
  have hlen : u.length = v.length := by
    rcases Nat.lt_trichotomy u.length v.length with hlt | heq | hgt
    · exact absurd (congrArg List.length h) (length_filled_lt hlt hx hslot).ne
    · exact heq
    · exact absurd (congrArg List.length h) (length_filled_lt hgt hx hslot).ne'
  have hpiece := (flatMap_eq_iff fun y _ => length_filled u v hlen y).1 h x hx
  unfold filled at hpiece
  rw [if_pos hslot, if_pos hslot] at hpiece
  exact List.append_cancel_left hpiece

end Slots

section Separated

variable {t a b : List α} {x : α}

/-- A prefix without the separator ends before it. -/
theorem prefix_of_prefix_sep (hx : x ∉ t) (h : t <+: a ++ x :: b) : t <+: a := by
  induction a generalizing t with
  | nil =>
    cases t with
    | nil => exact List.nil_prefix
    | cons y t =>
      obtain ⟨rfl, -⟩ := List.cons_prefix_cons.1 h
      exact absurd List.mem_cons_self hx
  | cons z a ih =>
    cases t with
    | nil => exact List.nil_prefix
    | cons y t =>
      obtain ⟨rfl, htail⟩ := List.cons_prefix_cons.1 h
      exact List.cons_prefix_cons.2 ⟨rfl, ih (fun hmem => hx (List.mem_cons_of_mem _ hmem)) htail⟩

theorem infix_sep_iff (hx : x ∉ t) : t <:+: a ++ x :: b ↔ t <:+: a ∨ t <:+: b := by
  apply Iff.intro
  · intro h
    induction a with
    | nil =>
      rcases List.infix_cons_iff.1 h with hpre | hrest
      · exact .inl (prefix_of_prefix_sep hx hpre).isInfix
      · exact .inr hrest
    | cons z a ih =>
      rcases List.infix_cons_iff.1 h with hpre | hrest
      · exact .inl (prefix_of_prefix_sep (a := z :: a) hx hpre).isInfix
      · exact (ih hrest).imp_left List.infix_cons
  · rintro (h | h)
    · exact List.infix_append_of_infix_left h
    · exact List.infix_append_of_infix_right (List.infix_cons h)

/-- The last separator tells where a text without one begins. -/
theorem sep_last_inj {u : List α} (ht : x ∉ t) (hu : x ∉ u) (h : a ++ x :: t = b ++ x :: u) :
    a = b ∧ t = u := by
  rcases List.append_eq_append_iff.1 h with ⟨c, hb, hc⟩ | ⟨c, ha, hc⟩
  · cases c with
    | nil => exact ⟨by simpa using hb.symm, (List.cons.inj hc).2⟩
    | cons y c => exact absurd (by rw [(List.cons.inj hc).2]; simp) ht
  · cases c with
    | nil => exact ⟨by simpa using ha, (List.cons.inj hc).2.symm⟩
    | cons y c => exact absurd (by rw [(List.cons.inj hc).2]; simp) hu

/-- And the first one where such a text ends. -/
theorem sep_first_inj {u : List α} (ha : x ∉ a) (hb : x ∉ b) (h : a ++ x :: t = b ++ x :: u) :
    a = b ∧ t = u := by
  have hrev := congrArg List.reverse h
  simp only [List.reverse_append, List.reverse_cons, List.append_assoc,
    List.singleton_append] at hrev
  have hinj := sep_last_inj (by simpa using ha) (by simpa using hb) hrev
  exact ⟨List.reverse_injective hinj.2, List.reverse_injective hinj.1⟩

end Separated

section Joined

variable [DecidableEq α] {sep : α} {p q : List α} {ps qs : List (List α)}

def joined (sep : α) (p : List α) (ps : List (List α)) : List α := p ++ ps.flatMap (sep :: ·)

omit [DecidableEq α] in
@[simp] theorem joined_nil (sep : α) (p : List α) : joined sep p [] = p := List.append_nil p

omit [DecidableEq α] in
theorem joined_cons (sep : α) (p q : List α) (ps : List (List α)) :
    joined sep p (q :: ps) = p ++ sep :: joined sep q ps := by
  simp [joined]

/-- What can be told of the parts is the words between the separators. -/
theorem splitOn_joined (sep : α) (p : List α) (ps : List (List α)) :
    (joined sep p ps).splitOn sep = (p :: ps).flatMap (List.splitOn sep) := by
  induction ps generalizing p with
  | nil => simp
  | cons q ps ih =>
    rw [joined_cons, List.splitOn_append_cons_self, ih]
    rfl

theorem joined_eq_iff : joined sep p ps = joined sep q qs ↔
    (p :: ps).flatMap (List.splitOn sep) = (q :: qs).flatMap (List.splitOn sep) := by
  rw [← splitOn_joined, ← splitOn_joined]
  apply Iff.intro
  · exact congrArg _
  · intro h
    have hread := @List.intercalate_splitOn _ (joined sep p ps) _ _ sep
    rw [h, List.intercalate_splitOn] at hread
    exact hread.symm

theorem words_of_plain (h : ∀ t ∈ ps, sep ∉ t) : ps.flatMap (List.splitOn sep) = ps := by
  induction ps with
  | nil => rfl
  | cons t ps ih =>
    obtain ⟨ht, hps⟩ := List.forall_mem_cons.1 h
    rw [List.flatMap_cons, List.splitOn_eq_singleton ht, ih hps, List.singleton_append]

end Joined

end Pieces
