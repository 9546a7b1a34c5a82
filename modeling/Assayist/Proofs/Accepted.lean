import Assayist.Lib.Combos
import Assayist.Spec.Def

/-! What the load-time rules leave of the definitions they accept, and where the parameters of
a definition's cells come from. -/

namespace Assayist

section Accepted

variable {F : Type} {d : BenchmarkDef F}

theorem validate_eq_ok_iff : d.validate = .ok () ↔ defErrors d = [] := by
  unfold BenchmarkDef.validate
  cases defErrors d with
  | nil => exact iff_of_true rfl rfl
  | cons e es => exact iff_of_false (by simp) (by simp)

/-- A definition is accepted when no rule has a problem with it. -/
theorem validate_iff : d.validate = .ok () ↔
    modeErrors d = [] ∧ tenancyErrors d = [] ∧ compareErrors d = [] ∧
      d.capture.flatMap captureErrors = [] := by
  rw [validate_eq_ok_iff, defErrors]
  simp only [List.append_eq_nil_iff, and_assoc]

theorem mode_of_validate (h : d.validate = .ok ()) : d.gate.mode ∈ gateModes := by
  by_contra hmode
  have herr := (validate_iff.1 h).1
  rw [modeErrors, if_neg fun h => hmode (List.contains_iff_mem.1 h)] at herr
  cases herr

theorem tenancy_of_validate (h : d.validate = .ok ()) : d.tenancy ∈ tenancies := by
  by_contra htenancy
  have herr := (validate_iff.1 h).2.1
  rw [tenancyErrors, if_neg fun h => htenancy (List.contains_iff_mem.1 h)] at herr
  cases herr

/-- An accepted definition gives the compared dimension two levels. -/
theorem compared_levels (h : d.validate = .ok ()) {dim : String} (hcompare : d.compare = some dim) :
    ∃ v0 v1, d.parameterise.lookup dim = some [v0, v1] := by
  have hcompared := (validate_iff.1 h).2.2.1
  unfold compareErrors at hcompared
  rw [hcompare] at hcompared
  cases hlookup : d.parameterise.lookup dim with
  | none =>
    simp only [hlookup] at hcompared
    cases hcompared
  | some values =>
    simp only [hlookup, ne_eq, ite_not, ite_eq_left_iff, reduceCtorEq, imp_false,
      not_not] at hcompared
    obtain ⟨v0, v1, rfl⟩ := List.length_eq_two.1 hcompared
    exact ⟨v0, v1, rfl⟩

end Accepted

section Levels

open Combos

variable {F : Type}

theorem levelCombos_eq (axes : List (String × List (Json F))) :
    levelCombos axes = combos (axes.map Prod.snd) := by
  have hloop := foldl_extend (axes.map Prod.snd) [[]]
  rw [List.foldl_map] at hloop
  refine hloop.trans ?_
  simp

/-- Every parameter of a cell is a level of some dimension. -/
theorem params_of_levels [FloatText F] {sha256Hex : String → String} {d : BenchmarkDef F}
    {p : Json F → Prop} (h : ∀ axis ∈ d.parameterise, ∀ v ∈ axis.2, p v) {cell : Cell F}
    (hcell : cell ∈ expandCells sha256Hex d) :
    ∃ m, cell.params = .object m ∧ ∀ e ∈ m, p e.2 := by
  unfold expandCells at hcell
  obtain ⟨combo, hcombo, rfl⟩ := List.mem_map.1 hcell
  rw [levelCombos_eq] at hcombo
  refine ⟨_, rfl, fun e he => ?_⟩
  have hlevels : ∀ vs ∈ d.parameterise.map Prod.snd, ∀ v ∈ vs, p v := by
    intro vs hvs
    obtain ⟨axis, haxis, rfl⟩ := List.mem_map.1 hvs
    exact h axis haxis
  exact forall_of_mem hlevels hcombo e.2 (List.of_mem_zip he).2

end Levels

end Assayist
