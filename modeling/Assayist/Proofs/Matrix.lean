import Assayist.Proofs.Accepted

/-! What `expand_cells` makes of a `parameterise` map: the cartesian product of its dimensions,
one cell for each tuple of positions. -/

namespace Assayist

open Combos

section Matrix

variable {F : Type} [FloatText F]

def tuples (d : BenchmarkDef F) : List (List ℕ) := indices (d.parameterise.map Prod.snd)

def Positions (d : BenchmarkDef F) (ι : List ℕ) : Prop :=
  List.Forall₂ (fun i axis => i < axis.2.length) ι d.parameterise

/-- The cell of a tuple: under each dimension's name the level at the tuple's position, and the
hash of these parameters. -/
structure IsCellAt (sha256Hex : String → String) (d : BenchmarkDef F) (ι : List ℕ)
    (cell : Cell F) : Prop where
  params : ∃ m, cell.params = .object m ∧ m.map (fun e => (e.1, some e.2)) =
    List.zipWith (fun axis i => (axis.1, axis.2[i]?)) d.parameterise ι
  hash : cell.paramsHash = Def.paramsHash sha256Hex cell.params

variable (sha256Hex : String → String) (d : BenchmarkDef F)

omit [FloatText F] in
theorem mem_tuples_iff {ι : List ℕ} : ι ∈ tuples d ↔ Positions d ι := by
  rw [tuples, mem_indices_iff, List.forall₂_map_right_iff]
  exact Iff.rfl

theorem length_expandCells : (expandCells sha256Hex d).length =
    (d.parameterise.map fun axis => axis.2.length).prod := by
  rw [expandCells, List.length_map, levelCombos_eq, length_combos, List.map_map]
  rfl

omit [FloatText F] in
theorem zip_at {axes : List (String × List (Json F))} {ι : List ℕ} {combo : List (Json F)}
    (h : pick (axes.map Prod.snd) ι = combo.map some) :
    ((axes.map Prod.fst).zip combo).map (fun e => (e.1, some e.2)) =
      List.zipWith (fun axis i => (axis.1, axis.2[i]?)) axes ι := by
  induction axes generalizing ι combo with
  | nil => rfl
  | cons axis axes ih =>
    cases ι with
    | nil =>
      cases combo with
      | nil => rfl
      | cons v combo => cases h
    | cons i ι =>
      cases combo with
      | nil => cases h
      | cons v combo =>
        obtain ⟨hv, hrest⟩ := List.cons.inj h
        simp only [List.map_cons, List.zip_cons_cons, List.zipWith_cons_cons, ih hrest, hv]

theorem cells_at : List.Forall₂ (IsCellAt sha256Hex d) (tuples d) (expandCells sha256Hex d) := by
  rw [expandCells, levelCombos_eq, List.forall₂_map_right_iff]
  exact (forall₂_indices _).imp fun ι combo h => ⟨⟨_, rfl, zip_at h⟩, rfl⟩

/-- As many cells as the product of the numbers of levels, and the cells in the lexicographic
order of the tuples, which are all the tuples there are. -/
theorem cells_product : (expandCells sha256Hex d).length =
      (d.parameterise.map fun axis => axis.2.length).prod ∧
    (∀ ι, ι ∈ tuples d ↔ Positions d ι) ∧ (tuples d).Pairwise (· < ·) ∧
    List.Forall₂ (IsCellAt sha256Hex d) (tuples d) (expandCells sha256Hex d) :=
  ⟨length_expandCells sha256Hex d, fun _ => mem_tuples_iff d, indices_pairwise _,
    cells_at sha256Hex d⟩

end Matrix

end Assayist
