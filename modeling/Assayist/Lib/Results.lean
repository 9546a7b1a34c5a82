import Mathlib.Data.List.Forall2
import Mathlib.Data.List.Nodup

/-! When a computation that may fail succeeds: through a sequence, a traversal of a
list, and a loop whose body fails only in its first half. -/

namespace Results

variable {ε α β σ : Type}

theorem bind_eq_ok {x : Except ε α} {f : α → Except ε β} {b : β} :
    x >>= f = .ok b ↔ ∃ a, x = .ok a ∧ f a = .ok b := by
  cases x with
  | error e => simp [bind, Except.bind]
  | ok a => simp [bind, Except.bind]

theorem map_eq_ok {f : α → β} {x : Except ε α} {b : β} :
    f <$> x = .ok b ↔ ∃ a, x = .ok a ∧ f a = b := by
  cases x with
  | error e => simp [Functor.map, Except.map]
  | ok a => simp [Functor.map, Except.map]

theorem pure_eq_ok {a b : α} : (pure a : Except ε α) = .ok b ↔ a = b := by
  simp [pure, Except.pure]

theorem exists_ok {x : Except ε α} (h : x.isOk = true) : ∃ a, x = .ok a := by
  cases x with
  | error e => simp [Except.isOk, Except.toBool] at h
  | ok a => exact ⟨a, rfl⟩

theorem exists_of_any {p : α → Bool} {x : Except ε α} (h : x.toOption.any p = true) :
    ∃ a, x = .ok a ∧ p a = true := by
  cases x with
  | error e => exact absurd h Bool.false_ne_true
  | ok a => exact ⟨a, rfl, h⟩

theorem exists_error {x : Except ε α} (h : ∀ a, x ≠ .ok a) : ∃ e, x = .error e := by
  cases x with
  | error e => exact ⟨e, rfl⟩
  | ok a => exact absurd rfl (h a)

/-- Related lists relate every element of the first to one of the second. -/
theorem exists_right {R : α → β → Prop} {xs : List α} {ys : List β} (h : List.Forall₂ R xs ys)
    {x : α} (hx : x ∈ xs) : ∃ y ∈ ys, R x y := by
  induction h with
  | nil => simp at hx
  | cons hr _ ih =>
    rcases List.mem_cons.1 hx with rfl | hx
    · exact ⟨_, List.mem_cons_self, hr⟩
    · obtain ⟨y, hy, hr'⟩ := ih hx
      exact ⟨y, List.mem_cons_of_mem _ hy, hr'⟩

theorem exists_left {R : α → β → Prop} {xs : List α} {ys : List β} (h : List.Forall₂ R xs ys)
    {y : β} (hy : y ∈ ys) : ∃ x ∈ xs, R x y :=
  exists_right (R := fun y x => R x y) h.flip hy

/-- What is read off related elements repeats nothing where each names its relative. -/
theorem nodup_filterMap {γ : Type} {R : α → β → Prop} {f : β → Option γ} {g : α → γ} {xs : List α}
    {ys : List β} (h : List.Forall₂ R xs ys) (hxs : xs.Nodup)
    (hread : ∀ x ∈ xs, ∀ y z, R x y → f y = some z → z = g x)
    (hinj : ∀ x ∈ xs, ∀ x' ∈ xs, g x = g x' → x = x') : (ys.filterMap f).Nodup := by
  induction h with
  | nil => exact List.nodup_nil
  | @cons x y xs ys hr hrest ih =>
    obtain ⟨hx, hxs⟩ := List.nodup_cons.1 hxs
    have htail : (ys.filterMap f).Nodup :=
      ih hxs (fun x' hx' => hread x' (List.mem_cons_of_mem _ hx'))
        fun x' hx' x'' hx'' => hinj x' (List.mem_cons_of_mem _ hx') x'' (List.mem_cons_of_mem _ hx'')
    cases hy : f y with
    | none => rwa [List.filterMap_cons_none hy]
    | some z =>
      rw [List.filterMap_cons_some hy]
      refine List.nodup_cons.2 ⟨fun hz => ?_, htail⟩
      obtain ⟨y', hy', hz'⟩ := List.mem_filterMap.1 hz
      obtain ⟨x', hx', hr'⟩ := exists_left hrest hy'
      have hhead := hread x List.mem_cons_self y z hr hy
      have hother := hread x' (List.mem_cons_of_mem _ hx') y' z hr' hz'
      rw [hinj x List.mem_cons_self x' (List.mem_cons_of_mem _ hx') (hhead ▸ hother)] at hx
      exact hx hx'

theorem exists_forall₂ {R : α → β → Prop} {xs : List α} :
    (∃ ys, List.Forall₂ R xs ys) ↔ ∀ x ∈ xs, ∃ y, R x y := by
  apply Iff.intro
  · intro h x hx
    obtain ⟨ys, hys⟩ := h
    obtain ⟨y, _, hy⟩ := exists_right hys hx
    exact ⟨y, hy⟩
  · intro h
    induction xs with
    | nil => exact ⟨[], .nil⟩
    | cons x xs ih =>
      obtain ⟨y, hy⟩ := h x List.mem_cons_self
      obtain ⟨ys, hys⟩ := ih fun x' hx' => h x' (List.mem_cons_of_mem x hx')
      exact ⟨y :: ys, .cons hy hys⟩

theorem forall₂_and {R S : α → β → Prop} {xs : List α} {ys : List β} (hR : List.Forall₂ R xs ys)
    (hS : List.Forall₂ S xs ys) : List.Forall₂ (fun x y => R x y ∧ S x y) xs ys := by
  induction hR with
  | nil => exact .nil
  | cons hr _ ih =>
    obtain ⟨hs, hS⟩ := List.forall₂_cons.1 hS
    exact .cons ⟨hr, hs⟩ (ih hS)

theorem exists_append {R : α → β → Prop} {xs xs' : List α} {zs : List β}
    (h : List.Forall₂ R (xs ++ xs') zs) :
    ∃ ys ys', zs = ys ++ ys' ∧ List.Forall₂ R xs ys ∧ List.Forall₂ R xs' ys' := by
  induction xs generalizing zs with
  | nil => exact ⟨[], zs, rfl, .nil, h⟩
  | cons x xs ih =>
    cases h with
    | cons hx h =>
      obtain ⟨ys, ys', rfl, hxs, hxs'⟩ := ih h
      exact ⟨_, ys', rfl, .cons hx hxs, hxs'⟩

theorem exists_map {γ : Type} {R : α → β → Prop} {f : β → γ} {xs : List α} {zs : List γ}
    (h : List.Forall₂ (fun x z => ∃ y, R x y ∧ f y = z) xs zs) :
    ∃ ys, List.Forall₂ R xs ys ∧ ys.map f = zs := by
  induction h with
  | nil => exact ⟨[], .nil, rfl⟩
  | cons hz _ ih =>
    obtain ⟨y, hy, rfl⟩ := hz
    obtain ⟨ys, hys, rfl⟩ := ih
    exact ⟨y :: ys, .cons hy hys, rfl⟩

/-- A list related to another by a condition on its elements and a function of them. -/
theorem forall₂_and_eq {P : α → Prop} {f : α → β} {xs : List α} {ys : List β} :
    List.Forall₂ (fun x y => P x ∧ f x = y) xs ys ↔ (∀ x ∈ xs, P x) ∧ xs.map f = ys := by
  apply Iff.intro
  · intro h
    induction h with
    | nil => simp
    | cons hxy _ ih =>
      obtain ⟨hx, rfl⟩ := hxy
      exact ⟨List.forall_mem_cons.2 ⟨hx, ih.1⟩, by rw [List.map_cons, ih.2]⟩
  · intro h
    obtain ⟨hall, rfl⟩ := h
    rw [List.forall₂_map_right_iff, List.forall₂_same]
    exact fun x hx => ⟨hall x hx, rfl⟩

theorem mapM_eq_ok {f : α → Except ε β} {xs : List α} {ys : List β} :
    xs.mapM f = .ok ys ↔ List.Forall₂ (fun x y => f x = .ok y) xs ys := by
  induction xs generalizing ys with
  | nil =>
    rw [List.mapM_nil, pure_eq_ok, List.forall₂_nil_left_iff]
    exact eq_comm
  | cons x xs ih =>
    rw [List.mapM_cons, List.forall₂_cons_left_iff, bind_eq_ok]
    simp only [bind_eq_ok, pure_eq_ok, ih]
    apply Iff.intro
    · intro h
      obtain ⟨y, hy, ys', hys, rfl⟩ := h
      exact ⟨y, ys', hy, hys, rfl⟩
    · intro h
      obtain ⟨y, ys', hy, hys, rfl⟩ := h
      exact ⟨y, hy, ys', hys, rfl⟩

/-- A loop that computes something from each element and then updates its state. -/
theorem foldlM_eq_ok {f : α → Except ε β} {g : σ → α → β → σ} {xs : List α} {s t : σ} :
    xs.foldlM (fun s x => do let y ← f x; pure (g s x y)) s = .ok t ↔
      ∃ ys, List.Forall₂ (fun x y => f x = .ok y) xs ys ∧
        t = (xs.zip ys).foldl (fun s p => g s p.1 p.2) s := by
  induction xs generalizing s with
  | nil =>
    rw [List.foldlM_nil, pure_eq_ok]
    simp [List.forall₂_nil_left_iff, eq_comm]
  | cons x xs ih =>
    rw [List.foldlM_cons, bind_eq_ok]
    simp only [bind_eq_ok, pure_eq_ok, ih]
    apply Iff.intro
    · intro h
      obtain ⟨_, ⟨y, hy, rfl⟩, ys, hys, rfl⟩ := h
      exact ⟨y :: ys, .cons hy hys, rfl⟩
    · intro h
      obtain ⟨_, hall, rfl⟩ := h
      obtain ⟨y, ys, hy, hys, rfl⟩ := List.forall₂_cons_left_iff.1 hall
      exact ⟨_, ⟨y, hy, rfl⟩, ys, hys, rfl⟩

end Results
