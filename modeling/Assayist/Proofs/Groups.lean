import Assayist.Lib.Grouping
import Assayist.Proofs.Series
import Assayist.Spec.Gate

/-! What `collect` gathers under a metric id: the values of the metrics with that id
across the runs, in order; contaminated if one of them is; the first one's polarity. -/

namespace Assayist

section Groups

variable {F : Type}

/-- The metrics of a group of runs, each with its run's parameterisation cell. -/
def tagged (runs : List (Json F)) (parts : List (List (Metric F))) : List (String × Metric F) :=
  (runs.zip parts).flatMap fun p => p.2.map fun m => (paramsHash p.1, m)

def groupOf (ms : List (String × Metric F)) : Group F :=
  ms.foldl (fun g p => g.push p.1 p.2) Group.empty

def own (id : String) (ms : List (String × Metric F)) : List (String × Metric F) :=
  ms.filter fun p => p.2.id = id

theorem mem_own {id : String} {ms : List (String × Metric F)} {p : String × Metric F} :
    p ∈ own id ms ↔ p ∈ ms ∧ p.2.id = id := by
  simp [own]

/-- The four maps of a group are four independent folds. -/
theorem foldl_push (ms : List (String × Metric F)) (g : Group F) :
    ms.foldl (fun g p => g.push p.1 p.2) g =
      { samples := ms.foldl (Grouping.put (·.2.id) fun v p => v.getD [] ++ [p.2.value]) g.samples
        contaminated := ms.foldl
          (Grouping.put (·.2.id) fun c p => c.getD false || p.2.contaminated) g.contaminated
        polarity := ms.foldl (Grouping.put (·.2.id) fun q p => q.getD p.2.polarity) g.polarity
        cells := ms.foldl
          (Grouping.put (·.2.id) fun cs p => Grouping.addNew (cs.getD []) p.1) g.cells } := by
  induction ms generalizing g with
  | nil => rfl
  | cons p ms ih =>
    simp only [List.foldl_cons]
    rw [ih]
    rfl

theorem groupOf_samples (ms : List (String × Metric F)) (id : String) :
    (groupOf ms).samples[id]? =
      if (own id ms).isEmpty then none else some ((own id ms).map (·.2.value)) := by
  rw [groupOf, foldl_push, Grouping.getElem?_foldl_put, Grouping.foldl_append]
  rfl

theorem groupOf_contaminated (ms : List (String × Metric F)) (id : String) :
    ((groupOf ms).contaminated[id]?).getD false = (own id ms).any (·.2.contaminated) := by
  rw [groupOf, foldl_push, Grouping.getElem?_foldl_put, Grouping.foldl_any]
  simp [Group.empty, own]

theorem groupOf_polarity (ms : List (String × Metric F)) (id : String) :
    (groupOf ms).polarity[id]? = (own id ms).head?.map (·.2.polarity) := by
  rw [groupOf, foldl_push, Grouping.getElem?_foldl_put, Grouping.foldl_first]
  simp [Group.empty, own]

theorem mem_samples_toList {ms : List (String × Metric F)} {id : String} {vals : List F} :
    (id, vals) ∈ (groupOf ms).samples.toList ↔
      own id ms ≠ [] ∧ vals = (own id ms).map (·.2.value) := by
  rw [Std.TreeMap.mem_toList_iff_getElem?_eq_some, groupOf_samples]
  by_cases h : own id ms = []
  · simp [h]
  · simp only [List.isEmpty_iff, h, if_false, Option.some.injEq, ne_eq, not_false_eq_true, true_and]
    exact eq_comm

end Groups

section Collect

variable {F : Type} [F64 F] [FloatText F] [Build]

/-- Every run of a group reduces, to the metrics listed for it. -/
def Reduces (runs : List (Json F)) (parts : List (List (Metric F))) : Prop :=
  List.Forall₂ (fun run ms => reduce run = .ok ms) runs parts

theorem collect_eq_ok {runs : List (Json F)} {g : Group F} :
    collect runs = .ok g ↔ ∃ parts, Reduces runs parts ∧ g = groupOf (tagged runs parts) := by
  rw [collect]
  change (runs.foldlM (fun g run => do
    let ms ← reduce run
    pure (ms.foldl (Group.push (paramsHash run)) g)) Group.empty = .ok g) ↔ _
  rw [Results.foldlM_eq_ok]
  have hfold (ps : List (Json F × List (Metric F))) (g : Group F) :
      ps.foldl (fun g p => p.2.foldl (Group.push (paramsHash p.1)) g) g =
        (ps.flatMap fun p => p.2.map fun m => (paramsHash p.1, m)).foldl
          (fun g p => g.push p.1 p.2) g := by
    rw [List.foldl_flatMap]
    congr 1
    funext g p
    rw [List.foldl_map]
  simp only [hfold]
  rfl

theorem mem_tagged {runs : List (Json F)} {parts : List (List (Metric F))}
    (h : Reduces runs parts) {p : String × Metric F} :
    p ∈ tagged runs parts ↔
      ∃ run ∈ runs, ∃ ms, reduce run = .ok ms ∧ p.1 = paramsHash run ∧ p.2 ∈ ms := by
  induction h with
  | nil => simp [tagged]
  | @cons run ms runs parts hms htail ih =>
    have hsplit : p ∈ tagged (run :: runs) (ms :: parts) ↔
        (p.1 = paramsHash run ∧ p.2 ∈ ms) ∨ p ∈ tagged runs parts := by
      obtain ⟨c, m⟩ := p
      simp [tagged, eq_comm, and_comm]
    rw [hsplit, ih]
    simp only [List.mem_cons, exists_eq_or_imp, hms, Except.ok.injEq, exists_eq_left']

end Collect

end Assayist
