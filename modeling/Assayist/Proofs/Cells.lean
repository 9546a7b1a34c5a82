import Assayist.Proofs.Power

/-! A regression in every parameterisation cell against the verdict over all cells pooled.
The pooled groups are put to the same tests, but their spread also holds that of the cells'
means, which no cell alone shows. -/

namespace Assayist

section Cells

variable {F : Type}

def inCell (h : String) (runs : List (Json F)) : List (Json F) :=
  runs.filter fun run => paramsHash run = h

def cellsOf (runs : List (Json F)) : List String := (runs.map paramsHash).dedup

theorem mem_inCell {runs : List (Json F)} {run : Json F} (h : run ∈ runs) :
    run ∈ inCell (paramsHash run) runs := by
  simp [inCell, h]

variable [F64 F] [FloatText F] [Build]

/-- `ab` restricted to each single cell lists the metric as regressed. -/
def RegressedInCells (id : String) (a b : List (Json F)) (cfg : Config F) : Prop :=
  a ++ b ≠ [] ∧ ∀ h ∈ cellsOf (a ++ b),
    ∃ rep, ab (inCell h a) (inCell h b) cfg = .ok rep ∧ Listed id rep

variable {id : String} {a b : List (Json F)} {cfg : Config F}

theorem RegressedInCells.cell (h : RegressedInCells id a b cfg) {run : Json F}
    (hrun : run ∈ a ++ b) :
    Sound (inCell (paramsHash run) a) (inCell (paramsHash run) b) cfg ∧
      Condemned cfg id (pooledMetrics id (inCell (paramsHash run) a))
        (pooledMetrics id (inCell (paramsHash run) b)) := by
  rw [← listed_iff]
  apply h.2
  rw [cellsOf, List.mem_dedup]
  exact List.mem_map_of_mem hrun

theorem RegressedInCells.clean (h : RegressedInCells id a b cfg) :
    ∀ m ∈ pooledMetrics id a ++ pooledMetrics id b, m.contaminated = false := by
  have hcell {runs : List (Json F)} {m : Metric F} (hm : m ∈ pooledMetrics id runs) :
      ∃ run ∈ runs, m ∈ pooledMetrics id (inCell (paramsHash run) runs) := by
    obtain ⟨run, hrun, ms, hms, hmem, hid⟩ := mem_pooledMetrics.1 hm
    exact ⟨run, hrun, mem_pooledMetrics.2 ⟨run, mem_inCell hrun, ms, hms, hmem, hid⟩⟩
  intro m hm
  rcases List.mem_append.1 hm with hm | hm
  · obtain ⟨run, hrun, hm⟩ := hcell hm
    exact (h.cell (List.mem_append_left b hrun)).2.clean m (List.mem_append_left _ hm)
  · obtain ⟨run, hrun, hm⟩ := hcell hm
    exact (h.cell (List.mem_append_right a hrun)).2.clean m (List.mem_append_right _ hm)

end Cells

section Noise

variable [FloatText ℝ] [Build]

end Noise

section Shift

end Shift

section Pooling

variable [FloatText ℝ] [Build]

noncomputable def samplesIn (id : String) (runs : List (Json ℝ)) (h : String) : List ℝ :=
  valuesOf (pooledMetrics id (inCell h runs))

/-- A metric measured evenly over the cells: each cell has the same share of A's samples as of
B's, the means of A's cells have one sign and A's samples one polarity, and the two groups lie
farther apart than the parts of any division of the samples that mixes them. -/
structure EvenlyMeasured (id : String) (a b : List (Json ℝ)) : Prop where
  shares : ∀ h ∈ cellsOf (a ++ b),
    (samplesIn id a h).length * (pooledMetrics id b).length =
      (samplesIn id b h).length * (pooledMetrics id a).length
  signed : (∀ h ∈ cellsOf (a ++ b), 0 < Spread.mean (samplesIn id a h)) ∨
    ∀ h ∈ cellsOf (a ++ b), Spread.mean (samplesIn id a h) < 0
  directed : ∃ pol, ∀ m ∈ pooledMetrics id a, m.polarity = pol
  apart : Resampling.Farthest eps (valuesOf (pooledMetrics id a)) (valuesOf (pooledMetrics id b))

variable {id : String} {a b : List (Json ℝ)} {cfg : Config ℝ}

/-- The sign of the means of A's cells. -/
theorem EvenlyMeasured.sign (heven : EvenlyMeasured id a b) : ∃ s : ℝ, (s = 1 ∨ s = -1) ∧
    ∀ cell ∈ cellsOf (a ++ b), 0 < s * Spread.mean (samplesIn id a cell) := by
  rcases heven.signed with hpos | hneg
  · refine ⟨1, .inl rfl, fun cell hcell => ?_⟩
    rw [one_mul]
    exact hpos cell hcell
  · refine ⟨-1, .inr rfl, fun cell hcell => ?_⟩
    rw [neg_one_mul, neg_pos]
    exact hneg cell hcell

end Pooling

section Runs

attribute [local instance] releaseBuild wholeText

end Runs

end Assayist
