import Assayist.Lib.Pieces
import Mathlib.Algebra.BigOperators.Group.List.Basic
import Mathlib.Algebra.Group.Action.Defs
import Mathlib.Data.List.Forall2
import Mathlib.Tactic.Ring

/-! The combinations of one value for each of several axes, the last axis varying fastest: how
a loop builds them, how they split around one axis, and what a choice along that axis keeps. -/

namespace Combos

variable {α : Type}

/-- Every way to take one value from each axis. -/
def combos : List (List α) → List (List α)
  | [] => [[]]
  | vs :: axes => vs.flatMap fun v => (combos axes).map (v :: ·)

theorem foldl_extend (axes acc : List (List α)) :
    axes.foldl (fun acc vs => acc.flatMap fun c => vs.map fun v => c ++ [v]) acc =
      acc.flatMap fun c => (combos axes).map (c ++ ·) := by
  induction axes generalizing acc with
  | nil => simp [combos]
  | cons vs axes ih =>
    rw [List.foldl_cons, ih, List.flatMap_assoc]
    refine List.flatMap_congr fun c _ => ?_
    rw [combos, List.map_flatMap, List.flatMap_map]
    refine List.flatMap_congr fun v _ => ?_
    rw [List.map_map]
    refine List.map_congr_left fun d _ => ?_
    simp

theorem combos_append (before after : List (List α)) :
    combos (before ++ after) = (combos before).flatMap fun a => (combos after).map (a ++ ·) := by
  induction before with
  | nil => simp [combos]
  | cons vs before ih =>
    rw [List.cons_append, combos, ih, combos, List.flatMap_assoc]
    refine List.flatMap_congr fun v _ => ?_
    rw [List.map_flatMap, List.flatMap_map]
    refine List.flatMap_congr fun a _ => ?_
    rw [List.map_map]
    rfl

/-- The combinations around one axis. -/
theorem combos_split (before after : List (List α)) (vs : List α) :
    combos (before ++ vs :: after) = (combos before).flatMap fun a =>
      vs.flatMap fun v => (combos after).map fun b => a ++ v :: b := by
  rw [combos_append, combos]
  refine List.flatMap_congr fun a _ => ?_
  rw [List.map_flatMap]
  refine List.flatMap_congr fun v _ => ?_
  rw [List.map_map]
  rfl

theorem length_of_mem {axes : List (List α)} {c : List α} (h : c ∈ combos axes) :
    c.length = axes.length := by
  induction axes generalizing c with
  | nil =>
    rw [List.mem_singleton.1 h]
    rfl
  | cons vs axes ih =>
    obtain ⟨v, -, h⟩ := List.mem_flatMap.1 h
    obtain ⟨d, hd, rfl⟩ := List.mem_map.1 h
    rw [List.length_cons, List.length_cons, ih hd]

theorem forall_of_mem {p : α → Prop} {axes : List (List α)} (h : ∀ vs ∈ axes, ∀ v ∈ vs, p v)
    {c : List α} (hc : c ∈ combos axes) : ∀ v ∈ c, p v := by
  induction axes generalizing c with
  | nil =>
    rw [List.mem_singleton.1 hc]
    intro v hv
    cases hv
  | cons vs axes ih =>
    obtain ⟨v, hv, hc⟩ := List.mem_flatMap.1 hc
    obtain ⟨d, hd, rfl⟩ := List.mem_map.1 hc
    have hrest := ih (fun ws hws => h ws (List.mem_cons_of_mem vs hws)) hd
    intro x hx
    rcases List.mem_cons.1 hx with rfl | hx
    · exact h vs List.mem_cons_self x hv
    · exact hrest x hx

theorem combos_eq_nil_iff {axes : List (List α)} : combos axes = [] ↔ [] ∈ axes := by
  induction axes with
  | nil => simp [combos]
  | cons vs axes ih =>
    rw [combos, List.flatMap_eq_nil_iff, List.mem_cons, ← ih]
    apply Iff.intro
    · intro h
      cases vs with
      | nil => exact .inl rfl
      | cons v vs => exact .inr (List.map_eq_nil_iff.1 (h v List.mem_cons_self))
    · intro h v hv
      rcases h with hnil | hnil
      · rw [← hnil] at hv
        cases hv
      · rw [hnil, List.map_nil]

section Indices

/-- A combination takes a value from each axis. -/
theorem mem_combos_iff {axes : List (List α)} {c : List α} :
    c ∈ combos axes ↔ List.Forall₂ (· ∈ ·) c axes := by
  induction axes generalizing c with
  | nil => rw [combos, List.mem_singleton, List.forall₂_nil_right_iff]
  | cons vs axes ih =>
    rw [combos, List.mem_flatMap, List.forall₂_cons_right_iff]
    apply Iff.intro
    · rintro ⟨v, hv, hc⟩
      obtain ⟨d, hd, rfl⟩ := List.mem_map.1 hc
      exact ⟨v, d, hv, ih.1 hd, rfl⟩
    · rintro ⟨v, d, hv, hd, rfl⟩
      exact ⟨v, hv, List.mem_map_of_mem (ih.2 hd)⟩

theorem length_combos (axes : List (List α)) :
    (combos axes).length = (axes.map List.length).prod := by
  induction axes with
  | nil => rfl
  | cons vs axes ih =>
    simp only [combos, List.length_flatMap, List.length_map, List.map_const', List.sum_replicate,
      smul_eq_mul, List.map_cons, List.prod_cons, ih]

/-- Ascending axes have ascending combinations, the first axis deciding first. -/
theorem combos_pairwise [LT α] {axes : List (List α)} (h : ∀ vs ∈ axes, vs.Pairwise (· < ·)) :
    (combos axes).Pairwise (· < ·) := by
  induction axes with
  | nil => exact List.pairwise_singleton _ _
  | cons vs axes ih =>
    have hrest := ih fun ws hws => h ws (List.mem_cons_of_mem vs hws)
    have hvs := h vs List.mem_cons_self
    rw [combos, List.pairwise_flatMap]
    refine ⟨fun v _ => ?_, hvs.imp fun hlt => ?_⟩
    · rw [List.pairwise_map]
      exact hrest.imp fun hlt => List.Lex.cons hlt
    · intro c hc d hd
      obtain ⟨c, -, rfl⟩ := List.mem_map.1 hc
      obtain ⟨d, -, rfl⟩ := List.mem_map.1 hd
      exact List.Lex.rel hlt

/-- The positions of the combinations: a position on each axis, the last one fastest. -/
def indices (axes : List (List α)) : List (List ℕ) :=
  combos (axes.map fun vs => List.range vs.length)

theorem mem_indices_iff {axes : List (List α)} {ι : List ℕ} :
    ι ∈ indices axes ↔ List.Forall₂ (fun i vs => i < vs.length) ι axes := by
  rw [indices, mem_combos_iff, List.forall₂_map_right_iff]
  simp only [List.mem_range]

theorem indices_pairwise (axes : List (List α)) : (indices axes).Pairwise (· < ·) := by
  refine combos_pairwise fun vs hvs => ?_
  obtain ⟨ws, -, rfl⟩ := List.mem_map.1 hvs
  exact List.pairwise_lt_range

/-- What stands at a position: nothing, off an axis. -/
def pick (axes : List (List α)) (ι : List ℕ) : List (Option α) :=
  List.zipWith (fun vs i => vs[i]?) axes ι

/-- The combinations stand at their positions, in order. -/
theorem map_pick_indices (axes : List (List α)) :
    (indices axes).map (pick axes) = (combos axes).map (List.map some) := by
  induction axes with
  | nil => rfl
  | cons vs axes ih =>
    have haxis : (List.range vs.length).map (fun i => vs[i]?) = vs.map some := by
      refine List.ext_getElem (by simp) fun i hi hi' => ?_
      have hlt : i < vs.length := by simpa using hi
      rw [List.getElem_map, List.getElem_range, List.getElem_map, List.getElem?_eq_getElem hlt]
    calc (indices (vs :: axes)).map (pick (vs :: axes))
        = (List.range vs.length).flatMap fun i =>
            ((indices axes).map (pick axes)).map (vs[i]? :: ·) := by
          rw [indices, List.map_cons, combos, List.map_flatMap]
          refine List.flatMap_congr fun i _ => ?_
          rw [List.map_map, List.map_map]
          rfl
      _ = ((List.range vs.length).map fun i => vs[i]?).flatMap fun o =>
            ((combos axes).map (List.map some)).map (o :: ·) := by
          rw [ih, List.flatMap_map]
      _ = (combos (vs :: axes)).map (List.map some) := by
          rw [haxis, combos, List.flatMap_map, List.map_flatMap]
          refine List.flatMap_congr fun v _ => ?_
          rw [List.map_map, List.map_map]
          rfl

theorem forall₂_indices (axes : List (List α)) :
    List.Forall₂ (fun ι c => pick axes ι = c.map some) (indices axes) (combos axes) := by
  have heq : List.Forall₂ Eq ((indices axes).map (pick axes))
      ((combos axes).map (List.map some)) := by
    rw [List.forall₂_eq_eq_eq]
    exact map_pick_indices axes
  rwa [List.forall₂_map_left_iff, List.forall₂_map_right_iff] at heq

end Indices

section Choice

variable {β : Type} (make : List α → α → List α → β) (before after : List (List α))

def made (vs : List α) : List β :=
  (combos before).flatMap fun a => vs.flatMap fun v => (combos after).map fun b => make a v b

theorem length_made (vs : List α) : (made make before after vs).length =
    (combos before).length * (combos after).length * vs.length := by
  unfold made
  simp only [List.length_flatMap, List.length_map, List.map_const', List.sum_replicate,
    smul_eq_mul]
  ring

/-- Two values on the axis are each taken with everything else. -/
theorem made_pair (v w : α) : (made make before after [v] ++ made make before after [w]).Perm
    (made make before after [v, w]) := by
  unfold made
  simp only [List.flatMap_cons, List.flatMap_nil, List.append_nil]
  exact List.flatMap_append_perm _ _ _

/-- To choose by the value on the axis is to choose the values first. -/
theorem filter_made {p : β → Bool} {q : α → Bool}
    (h : ∀ a ∈ combos before, ∀ v b, p (make a v b) = q v) (vs : List α) :
    (made make before after vs).filter p = made make before after (vs.filter q) := by
  unfold made
  rw [List.filter_flatMap]
  refine List.flatMap_congr fun a ha => ?_
  induction vs with
  | nil => rfl
  | cons v vs ih =>
    have hpiece : ((combos after).map (make a v)).filter p =
        if q v then (combos after).map (make a v) else [] := by
      split_ifs with hv
      · refine List.filter_eq_self.2 fun x hx => ?_
        obtain ⟨b, -, rfl⟩ := List.mem_map.1 hx
        rw [h a ha, hv]
      · refine List.filter_eq_nil_iff.2 fun x hx => ?_
        obtain ⟨b, -, rfl⟩ := List.mem_map.1 hx
        rw [h a ha]
        exact hv
    rw [List.flatMap_cons, List.filter_append, hpiece, ih, List.filter_cons]
    split_ifs <;> rfl

theorem made_singleton (v : α) : made make before after [v] =
    (combos before).flatMap fun a => (combos after).map fun b => make a v b := by
  unfold made
  simp only [List.flatMap_cons, List.flatMap_nil, List.append_nil]

/-- The `i`-th with one value and the `i`-th with another have the rest in common. -/
theorem forall₂_made_iff {R : β → β → Prop} {v w : α} :
    List.Forall₂ R (made make before after [v]) (made make before after [w]) ↔
      ∀ a ∈ combos before, ∀ b ∈ combos after, R (make a v b) (make a w b) := by
  have hlen : ∀ a ∈ combos before, ((combos after).map fun b => make a w b).length ≤
      ((combos after).map fun b => make a v b).length := by
    intro a _
    rw [List.length_map, List.length_map]
  rw [made_singleton, made_singleton, Pieces.forall₂_flatMap_iff hlen]
  refine forall₂_congr fun a _ => ?_
  rw [List.forall₂_map_left_iff, List.forall₂_map_right_iff, List.forall₂_same]

end Choice

end Combos
