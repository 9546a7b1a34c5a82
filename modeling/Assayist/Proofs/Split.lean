import Assayist.Proofs.Accepted
import Assayist.Spec.RunGate

/-! The A and B cells of a comparison against the cells of the matrix: they split it, cell
against cell, while the two levels can be told apart. -/

namespace Assayist

section Split

variable {F : Type}

/-- Two cells that differ in the compared dimension only. -/
structure Counterparts [BEq F] (dim : String) (a b : Cell F) : Prop where
  same : ∀ k, k ≠ dim → a.params.get k = b.params.get k
  differ : ∃ x y, a.params.get dim = some x ∧ b.params.get dim = some y ∧ x.beq y = false

/-- The two groups split the cells: each cell is in one of them, once, they are of one length,
and the `i`-th of the one is the counterpart of the `i`-th of the other. -/
structure Splits [BEq F] (dim : String) (cells as bs : List (Cell F)) : Prop where
  once : (as ++ bs).Perm cells
  length : as.length = bs.length
  paired : List.Forall₂ (Counterparts dim) as bs

/-- The two levels can be told apart: each equals itself and neither the other. -/
def Apart [BEq F] (v w : Json F) : Prop :=
  v.beq v = true ∧ w.beq w = true ∧ v.beq w = false ∧ w.beq v = false

end Split

section Params

variable {F : Type} {dim k : String} {names later : List String} {a b : List (Json F)}
  {v w : Json F}

theorem get_cellParams (h : a.length = names.length) (hdim : dim ∉ names) :
    (cellParams (names ++ dim :: later) (a ++ v :: b)).get dim = some v := by
  induction names generalizing a with
  | nil =>
    rw [List.eq_nil_of_length_eq_zero h]
    exact List.lookup_cons_self
  | cons n names ih =>
    cases a with
    | nil => cases h
    | cons x a =>
      have hne : dim ≠ n := fun heq => hdim (heq ▸ List.mem_cons_self)
      have hrest := ih (Nat.succ.inj h) fun hmem => hdim (List.mem_cons_of_mem _ hmem)
      change ((n, x) :: (names ++ dim :: later).zip (a ++ v :: b)).lookup dim = _
      rw [List.lookup_cons, beq_false_of_ne hne]
      exact hrest

theorem get_cellParams_of_ne (h : a.length = names.length) (hk : k ≠ dim) :
    (cellParams (names ++ dim :: later) (a ++ v :: b)).get k =
      (cellParams (names ++ dim :: later) (a ++ w :: b)).get k := by
  unfold cellParams Json.get
  simp only
  rw [List.zip_append h.symm, List.zip_append h.symm, List.lookup_append, List.lookup_append,
    List.zip_cons_cons, List.zip_cons_cons, List.lookup_cons, List.lookup_cons,
    beq_false_of_ne hk]

end Params

section Cells

open Combos

variable {F : Type} [FloatText F] {d : BenchmarkDef F} (sha256Hex : String → String)

def cellAt (names : List String) (a : List (Json F)) (v : Json F) (b : List (Json F)) : Cell F :=
  ⟨cellParams names (a ++ v :: b), Def.paramsHash sha256Hex (cellParams names (a ++ v :: b))⟩

/-- The dimensions around the compared one. -/
structure Around (d : BenchmarkDef F) (dim : String) (v0 v1 : Json F)
    (before after : List (String × List (Json F))) : Prop where
  axes : d.parameterise = before ++ (dim, [v0, v1]) :: after
  first : dim ∉ before.map Prod.fst

omit [FloatText F] in
theorem exists_around {dim : String} {v0 v1 : Json F}
    (h : d.parameterise.lookup dim = some [v0, v1]) :
    ∃ before after, Around d dim v0 v1 before after := by
  obtain ⟨before, after, haxes, hfirst⟩ := List.lookup_eq_some_iff.1 h
  refine ⟨before, after, haxes, fun hmem => ?_⟩
  obtain ⟨axis, haxis, hname⟩ := List.mem_map.1 hmem
  have hne := hfirst axis haxis
  rw [hname] at hne
  simp at hne

variable {dim : String} {v0 v1 : Json F} {before after : List (String × List (Json F))}

def cellsAlong (d : BenchmarkDef F) (before after : List (String × List (Json F)))
    (vs : List (Json F)) : List (Cell F) :=
  made (cellAt sha256Hex (d.parameterise.map Prod.fst)) (before.map Prod.snd) (after.map Prod.snd)
    vs

theorem expandCells_eq (h : Around d dim v0 v1 before after) :
    expandCells sha256Hex d = cellsAlong sha256Hex d before after [v0, v1] := by
  have hlevels : d.parameterise.map Prod.snd =
      before.map Prod.snd ++ [v0, v1] :: after.map Prod.snd := by
    rw [h.axes, List.map_append]
    rfl
  unfold expandCells cellsAlong made
  rw [levelCombos_eq, hlevels, combos_split, List.map_flatMap]
  refine List.flatMap_congr fun a _ => ?_
  rw [List.map_flatMap]
  refine List.flatMap_congr fun v _ => ?_
  rw [List.map_map]
  rfl

theorem get_cellAt (h : Around d dim v0 v1 before after) {a : List (Json F)}
    (ha : a ∈ combos (before.map Prod.snd)) (v : Json F) (b : List (Json F)) :
    (cellAt sha256Hex (d.parameterise.map Prod.fst) a v b).params.get dim = some v := by
  have hlength : a.length = (before.map Prod.fst).length := by
    rw [length_of_mem ha, List.length_map, List.length_map]
  unfold cellAt
  rw [h.axes, List.map_append, List.map_cons]
  exact get_cellParams hlength h.first

variable [BEq F]

/-- A group is made of the levels that are equal to its own. -/
theorem selectCells_eq (h : Around d dim v0 v1 before after) (v : Json F) :
    selectCells dim v (expandCells sha256Hex d) =
      cellsAlong sha256Hex d before after ([v0, v1].filter (Json.beq · v)) := by
  rw [expandCells_eq sha256Hex h]
  refine filter_made _ _ _ (fun a ha x b => ?_) _
  rw [get_cellAt sha256Hex h ha]

theorem counterparts_iff (h : Around d dim v0 v1 before after) {a : List (Json F)}
    (ha : a ∈ combos (before.map Prod.snd)) (x y : Json F) (b : List (Json F)) :
    Counterparts dim (cellAt sha256Hex (d.parameterise.map Prod.fst) a x b)
      (cellAt sha256Hex (d.parameterise.map Prod.fst) a y b) ↔ x.beq y = false := by
  have hx := get_cellAt sha256Hex h ha x b
  have hy := get_cellAt sha256Hex h ha y b
  apply Iff.intro
  · intro hc
    obtain ⟨x', y', hx', hy', hdiffer⟩ := hc.differ
    rw [hx] at hx'
    rw [hy] at hy'
    rwa [Option.some.inj hx', Option.some.inj hy']
  · intro hdiffer
    refine ⟨fun k hk => ?_, x, y, hx, hy, hdiffer⟩
    have hlength : a.length = (before.map Prod.fst).length := by
      rw [length_of_mem ha, List.length_map, List.length_map]
    unfold cellAt
    rw [h.axes, List.map_append, List.map_cons]
    exact get_cellParams_of_ne hlength hk

/-- While there are cells, those of one level face those of another exactly when the levels
differ. -/
theorem paired_cells_iff (h : Around d dim v0 v1 before after)
    (hcells : ∃ a ∈ combos (before.map Prod.snd), ∃ b, b ∈ combos (after.map Prod.snd))
    (x y : Json F) :
    List.Forall₂ (Counterparts dim) (cellsAlong sha256Hex d before after [x])
        (cellsAlong sha256Hex d before after [y]) ↔ x.beq y = false := by
  unfold cellsAlong
  rw [forall₂_made_iff]
  apply Iff.intro
  · intro hall
    obtain ⟨a, ha, b, hb⟩ := hcells
    exact (counterparts_iff sha256Hex h ha x y b).1 (hall a ha b hb)
  · intro hdiffer a ha b _
    exact (counterparts_iff sha256Hex h ha x y b).2 hdiffer

omit [BEq F] in
theorem length_cellsAlong (before after : List (String × List (Json F))) (vs : List (Json F)) :
    (cellsAlong sha256Hex d before after vs).length =
      (combos (before.map Prod.snd)).length * (combos (after.map Prod.snd)).length * vs.length :=
  length_made _ _ _ vs

omit [FloatText F] [BEq F] in
/-- A selection of two levels that is one level. -/
theorem filter_pair_length {p : Json F → Bool} {v w : Json F}
    (h : ([v, w].filter p).length = 1) :
    ([v, w].filter p = [v] ∧ p v = true ∧ p w = false) ∨
      ([v, w].filter p = [w] ∧ p v = false ∧ p w = true) := by
  cases hv : p v <;> cases hw : p w <;> simp [hv, hw] at h ⊢

/-- The two groups split the cells exactly when the two levels can be told apart, provided
there are cells. -/
theorem splits_cells_iff (h : Around d dim v0 v1 before after)
    (hcells : ∃ a ∈ combos (before.map Prod.snd), ∃ b, b ∈ combos (after.map Prod.snd)) :
    Splits dim (expandCells sha256Hex d) (selectCells dim v0 (expandCells sha256Hex d))
      (selectCells dim v1 (expandCells sha256Hex d)) ↔ Apart v0 v1 := by
  rw [selectCells_eq sha256Hex h, selectCells_eq sha256Hex h, expandCells_eq sha256Hex h]
  have hpositive : 0 < (combos (before.map Prod.snd)).length *
      (combos (after.map Prod.snd)).length := by
    obtain ⟨a, ha, b, hb⟩ := hcells
    exact Nat.mul_pos (List.length_pos_of_mem ha) (List.length_pos_of_mem hb)
  apply Iff.intro
  · intro hsplits
    have hboth := hsplits.once.length_eq
    have hsame := hsplits.length
    rw [List.length_append, length_cellsAlong, length_cellsAlong, length_cellsAlong,
      ← Nat.mul_add] at hboth
    rw [length_cellsAlong, length_cellsAlong] at hsame
    have htwo := Nat.eq_of_mul_eq_mul_left hpositive hboth
    have hequal := Nat.eq_of_mul_eq_mul_left hpositive hsame
    rw [List.length_cons, List.length_cons, List.length_nil] at htwo
    have hpaired := hsplits.paired
    rcases filter_pair_length (show ([v0, v1].filter (Json.beq · v0)).length = 1 by omega) with
      ⟨hfirst, h00, h10⟩ | ⟨hfirst, h00, h10⟩
    · rcases filter_pair_length (show ([v0, v1].filter (Json.beq · v1)).length = 1 by omega) with
        ⟨hsecond, h01, h11⟩ | ⟨hsecond, h01, h11⟩
      · rw [hfirst, hsecond, paired_cells_iff sha256Hex h hcells, h00] at hpaired
        cases hpaired
      · exact ⟨h00, h11, h01, h10⟩
    · rcases filter_pair_length (show ([v0, v1].filter (Json.beq · v1)).length = 1 by omega) with
        ⟨hsecond, h01, h11⟩ | ⟨hsecond, h01, h11⟩
      · rw [hfirst, hsecond, paired_cells_iff sha256Hex h hcells, h10] at hpaired
        cases hpaired
      · rw [hfirst, hsecond, paired_cells_iff sha256Hex h hcells, h11] at hpaired
        cases hpaired
  · intro hapart
    obtain ⟨h00, h11, h01, h10⟩ := hapart
    have hfirst : [v0, v1].filter (Json.beq · v0) = [v0] := by
      simp [h00, h10]
    have hsecond : [v0, v1].filter (Json.beq · v1) = [v1] := by
      simp [h01, h11]
    rw [hfirst, hsecond]
    refine ⟨made_pair _ _ _ v0 v1, ?_, (paired_cells_iff sha256Hex h hcells v0 v1).2 h01⟩
    rw [length_cellsAlong, length_cellsAlong]
    rfl

omit [FloatText F] in
theorem splits_nil : Splits dim ([] : List (Cell F)) [] [] :=
  ⟨List.Perm.nil, rfl, List.Forall₂.nil⟩

omit [BEq F] in
theorem expandCells_of_empty (h : ∃ axis ∈ d.parameterise, axis.2 = []) :
    expandCells sha256Hex d = [] := by
  obtain ⟨axis, haxis, hempty⟩ := h
  have hnil : combos (d.parameterise.map Prod.snd) = [] :=
    combos_eq_nil_iff.2 (List.mem_map.2 ⟨axis, haxis, hempty⟩)
  rw [expandCells, levelCombos_eq, hnil]
  rfl

omit [FloatText F] [BEq F] in
theorem exists_combo (axes : List (String × List (Json F))) (h : ∀ axis ∈ axes, axis.2 ≠ []) :
    ∃ a, a ∈ combos (axes.map Prod.snd) := by
  refine List.exists_mem_of_ne_nil _ fun hnil => ?_
  obtain ⟨axis, haxis, hempty⟩ := List.mem_map.1 (combos_eq_nil_iff.1 hnil)
  exact h axis haxis hempty

/-- For a definition that is accepted and compares a dimension: the groups are the cells of
its two levels, and they split the cells exactly when some dimension has no level or the two
can be told apart. -/
theorem groups_split_iff (hvalid : d.validate = .ok ()) (hcompare : d.compare = some dim)
    (aSut bSut : String) :
    ∃ v0 v1 as bs, d.parameterise.lookup dim = some [v0, v1] ∧
      cellGroups d (expandCells sha256Hex d) aSut bSut =
        some [("a", aSut, as), ("b", bSut, bs)] ∧
      (Splits dim (expandCells sha256Hex d) as bs ↔
        (∃ axis ∈ d.parameterise, axis.2 = []) ∨ Apart v0 v1) := by
  obtain ⟨v0, v1, hlevels⟩ := compared_levels hvalid hcompare
  obtain ⟨before, after, haround⟩ := exists_around hlevels
  refine ⟨v0, v1, selectCells dim v0 (expandCells sha256Hex d),
    selectCells dim v1 (expandCells sha256Hex d), hlevels, ?_, ?_⟩
  · unfold cellGroups
    rw [hcompare]
    simp only [hlevels]
    rfl
  · by_cases hempty : ∃ axis ∈ d.parameterise, axis.2 = []
    · rw [expandCells_of_empty sha256Hex hempty]
      exact iff_of_true splits_nil (.inl hempty)
    · have hlevels : ∀ axis ∈ d.parameterise, axis.2 ≠ [] := fun axis haxis hnil =>
        hempty ⟨axis, haxis, hnil⟩
      rw [haround.axes] at hlevels
      obtain ⟨a, ha⟩ := exists_combo before fun axis haxis =>
        hlevels axis (List.mem_append_left _ haxis)
      obtain ⟨b, hb⟩ := exists_combo after fun axis haxis =>
        hlevels axis (List.mem_append_right _ (List.mem_cons_of_mem _ haxis))
      rw [splits_cells_iff sha256Hex haround ⟨a, ha, b, hb⟩]
      simp only [hempty, false_or]

end Cells

section Example

def engineDef (first second : String) : BenchmarkDef ℚ where
  apiVersion := "assayist/v0"
  name := "engines"
  target := ⟨"local", "1", [], []⟩
  workload := ⟨"fio", "3", [], []⟩
  gate := ⟨"ab_permutation", none, none, none, []⟩
  parameterise := [("engine", [.string first, .string second]), ("iodepth", [.nat 1, .nat 32])]
  compare := some "engine"
  capture := []
  hostPrep := .null
  tenancy := "single_tenant"

theorem engines_split : ∃ v0 v1 as bs,
    (engineDef "io_uring" "libaio").parameterise.lookup "engine" = some [v0, v1] ∧
    cellGroups (engineDef "io_uring" "libaio") (expandCells id (engineDef "io_uring" "libaio"))
      "1234567" "1234567" = some [("a", "1234567", as), ("b", "1234567", bs)] ∧
    (Splits "engine" (expandCells id (engineDef "io_uring" "libaio")) as bs ↔
      (∃ axis ∈ (engineDef "io_uring" "libaio").parameterise, axis.2 = []) ∨ Apart v0 v1) :=
  groups_split_iff id (d := engineDef "io_uring" "libaio") rfl rfl _ _

/-- One engine against itself is accepted, and each group has every cell. -/
theorem repeated_engine_unsplit : (engineDef "io_uring" "io_uring").validate = .ok () ∧
    ∃ as bs, cellGroups (engineDef "io_uring" "io_uring")
        (expandCells id (engineDef "io_uring" "io_uring")) "1234567" "1234567" =
        some [("a", "1234567", as), ("b", "1234567", bs)] ∧
      ¬ Splits "engine" (expandCells id (engineDef "io_uring" "io_uring")) as bs := by
  refine ⟨rfl, _, _, rfl, fun h => ?_⟩
  have hlength := h.once.length_eq
  revert hlength
  decide

end Example

end Assayist
