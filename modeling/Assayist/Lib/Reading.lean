import Mathlib.Data.List.Forall2

/-! Texts with no mark of where they end, read where they stand. A text is told by what it is
followed by: nothing, or a stop. A list of such texts is then told as well, between a separator
and a closing mark that are stops. -/

namespace Reading

variable {χ α : Type} (R : α → α → Prop) (write : α → List χ) (stops : χ → Prop)

/-- What may follow a text: nothing, or what starts with a stop. -/
def Ends (r : List χ) : Prop := ∀ c ∈ r.head?, stops c

/-- Where both texts could stand, the values are related and what follows is the same. -/
def ReadAs (a b : α) : Prop :=
  ∀ r s, Ends stops r → Ends stops s → write a ++ r = write b ++ s → R a b ∧ r = s

variable {R write stops}

theorem ends_cons {c : χ} {r : List χ} (h : stops c) : Ends stops (c :: r) := by
  intro d hd
  rw [List.head?_cons, Option.mem_some_iff] at hd
  rwa [← hd]

/-- A text starts, with something of a kind. -/
def Starts (p : χ → Prop) (r : List χ) : Prop := ∃ c cs, r = c :: cs ∧ p c

theorem not_starts_close {close : χ} {r s t : List χ} (h : Starts (· ≠ close) t) :
    close :: r ≠ t ++ s := by
  obtain ⟨c, cs, rfl, hne⟩ := h
  intro heq
  exact hne (List.cons.inj heq).1.symm

/-- Texts without a stop are told where the first stop is. -/
theorem read_run {t u r s : List χ} (ht : ∀ c ∈ t, ¬ stops c) (hu : ∀ c ∈ u, ¬ stops c)
    (hr : Ends stops r) (hs : Ends stops s) (h : t ++ r = u ++ s) : t = u ∧ r = s := by
  have hstop {t' u' r' : List χ} {c : χ} (hc : ¬ stops c) (hr' : Ends stops r') :
      r' ≠ c :: t' ++ u' := by
    rintro rfl
    exact hc (hr' c rfl)
  induction t generalizing u with
  | nil =>
    cases u with
    | nil => exact ⟨rfl, h⟩
    | cons c u => exact absurd h (hstop (hu c List.mem_cons_self) hr)
  | cons c t ih =>
    cases u with
    | nil => exact absurd h.symm (hstop (ht c List.mem_cons_self) hs)
    | cons d u =>
      obtain ⟨hcd, hrest⟩ := List.cons.inj h
      obtain ⟨htu, hrs⟩ := ih (fun x hx => ht x (List.mem_cons_of_mem c hx))
        (fun x hx => hu x (List.mem_cons_of_mem d hx)) hrest
      exact ⟨congrArg₂ _ hcd htu, hrs⟩

/-- Texts in a row up to a closing mark, where each starts with a stop. -/
theorem read_flatMap {close : χ} (hclose : stops close) {as bs : List α}
    (has : ∀ a ∈ as, Starts (fun c => stops c ∧ c ≠ close) (write a))
    (hbs : ∀ b ∈ bs, Starts (fun c => stops c ∧ c ≠ close) (write b))
    (hread : ∀ a ∈ as, ∀ b ∈ bs, ReadAs R write stops a b) {r s : List χ}
    (h : as.flatMap write ++ close :: r = bs.flatMap write ++ close :: s) :
    List.Forall₂ R as bs ∧ r = s := by
  have hends {xs : List α} (hxs : ∀ x ∈ xs, Starts (fun c => stops c ∧ c ≠ close) (write x))
      (t : List χ) : Ends stops (xs.flatMap write ++ close :: t) := by
    cases xs with
    | nil => exact ends_cons hclose
    | cons x xs =>
      obtain ⟨c, cs, hx, hc, -⟩ := hxs x List.mem_cons_self
      rw [List.flatMap_cons, hx]
      exact ends_cons hc
  have hopen {x : α} (hx : Starts (fun c => stops c ∧ c ≠ close) (write x)) :
      Starts (· ≠ close) (write x) := by
    obtain ⟨c, cs, hx, -, hne⟩ := hx
    exact ⟨c, cs, hx, hne⟩
  induction as generalizing bs with
  | nil =>
    cases bs with
    | nil => exact ⟨.nil, (List.cons.inj h).2⟩
    | cons b bs =>
      rw [List.flatMap_cons, List.append_assoc] at h
      exact absurd h (not_starts_close (hopen (hbs b List.mem_cons_self)))
  | cons a as ih =>
    cases bs with
    | nil =>
      rw [List.flatMap_cons, List.append_assoc] at h
      exact absurd h.symm (not_starts_close (hopen (has a List.mem_cons_self)))
    | cons b bs =>
      rw [List.flatMap_cons, List.append_assoc, List.flatMap_cons, List.append_assoc] at h
      have has' := fun x hx => has x (List.mem_cons_of_mem a hx)
      have hbs' := fun x hx => hbs x (List.mem_cons_of_mem b hx)
      obtain ⟨hab, hrest⟩ := hread a List.mem_cons_self b List.mem_cons_self _ _
        (hends has' r) (hends hbs' s) h
      obtain ⟨hall, hrs⟩ := ih has' hbs' (fun x hx y hy =>
        hread x (List.mem_cons_of_mem a hx) y (List.mem_cons_of_mem b hy)) hrest
      exact ⟨.cons hab hall, hrs⟩

/-- With a separator in front, a list is a row. -/
theorem cons_intercalate {sep : χ} {as : List α} (h : as ≠ []) :
    sep :: [sep].intercalate (as.map write) = as.flatMap fun a => sep :: write a := by
  induction as with
  | nil => exact absurd rfl h
  | cons a as ih =>
    cases as with
    | nil => simp
    | cons b bs =>
      have hrest := ih (List.cons_ne_nil b bs)
      have hne : (b :: bs).map write ≠ [] := List.cons_ne_nil _ _
      rw [List.map_cons, List.intercalate_cons_of_ne_nil hne, List.flatMap_cons, ← hrest,
        List.append_assoc]
      rfl

/-- Texts between separators, up to a closing mark. -/
theorem read_intercalate {sep close : χ} (hsep : stops sep) (hclose : stops close)
    (hne : sep ≠ close) {as bs : List α} (has : ∀ a ∈ as, Starts (· ≠ close) (write a))
    (hbs : ∀ b ∈ bs, Starts (· ≠ close) (write b))
    (hread : ∀ a ∈ as, ∀ b ∈ bs, ReadAs R write stops a b) {r s : List χ}
    (h : [sep].intercalate (as.map write) ++ close :: r =
      [sep].intercalate (bs.map write) ++ close :: s) : List.Forall₂ R as bs ∧ r = s := by
  have hopen {x : α} {xs : List α} (hx : Starts (· ≠ close) (write x)) :
      Starts (· ≠ close) ([sep].intercalate ((x :: xs).map write)) := by
    obtain ⟨c, cs, hc, hne⟩ := hx
    cases xs with
    | nil => exact ⟨c, cs, by simp [hc], hne⟩
    | cons y ys =>
      refine ⟨c, cs ++ ([sep] ++ [sep].intercalate ((y :: ys).map write)), ?_, hne⟩
      have hys : (y :: ys).map write ≠ [] := List.cons_ne_nil _ _
      rw [List.map_cons, List.intercalate_cons_of_ne_nil hys, hc, List.append_assoc,
        List.cons_append]
  cases as with
  | nil =>
    cases bs with
    | nil => exact ⟨.nil, (List.cons.inj h).2⟩
    | cons b bs => exact absurd h (not_starts_close (hopen (hbs b List.mem_cons_self)))
  | cons a as =>
    cases bs with
    | nil => exact absurd h.symm (not_starts_close (hopen (has a List.mem_cons_self)))
    | cons b bs =>
      have hrow := congrArg (sep :: ·) h
      simp only [← List.cons_append] at hrow
      rw [cons_intercalate (List.cons_ne_nil a as),
        cons_intercalate (List.cons_ne_nil b bs)] at hrow
      have hstart (x : α) : Starts (fun c => stops c ∧ c ≠ close) (sep :: write x) :=
        ⟨sep, write x, rfl, hsep, hne⟩
      refine read_flatMap hclose (fun x _ => hstart x) (fun x _ => hstart x) ?_ hrow
      intro x hx y hy r s hr hs heq
      exact hread x hx y hy r s hr hs (List.cons.inj heq).2

end Reading
