import Assayist.Lib.Results
import Assayist.Spec.Capture

/-! The fragment files of a plan. Their names are those of the probes with what a file name
should not hold replaced, so two probes can share one. -/

namespace Assayist

section Names

/-- A character that is an underscore in the name of a file. -/
def Blank (c : Char) : Prop := ¬ (c.isAlphanum || c == '-')

instance (c : Char) : Decidable (Blank c) := inferInstanceAs (Decidable (¬ _))

/-- Two probes whose names differ, if at all, only where neither has an ASCII letter, a digit or
a hyphen. -/
def Similar (p q : String) : Prop :=
  List.Forall₂ (fun a b => a = b ∨ Blank a ∧ Blank b) p.toList q.toList

theorem sanitize_char (c : Char) :
    (if c.isAlphanum || c == '-' || c == '_' then c else '_') = if Blank c then '_' else c := by
  by_cases h : Blank c
  · have hkept : (c.isAlphanum || c == '-') = false := by simpa [Blank] using h
    rw [if_pos h, hkept, Bool.false_or]
    split_ifs with hc
    · simpa using hc
    · rfl
  · have hkept : (c.isAlphanum || c == '-') = true := not_not.1 h
    rw [if_neg h, hkept, Bool.true_or, if_pos rfl]

/-- Similar names are what the names of files do not tell apart. -/
theorem sanitize_eq_iff {p q : String} : sanitize p = sanitize q ↔ Similar p q := by
  have hunderscore : Blank '_' := by decide
  have hchar (a b : Char) :
      ((if Blank a then '_' else a) = if Blank b then '_' else b) ↔ a = b ∨ Blank a ∧ Blank b := by
    split_ifs with ha hb hb
    · exact iff_of_true rfl (Or.inr ⟨ha, hb⟩)
    · refine iff_of_false ?_ ?_
      · rintro rfl
        exact hb hunderscore
      · rintro (rfl | ⟨-, h⟩)
        · exact hb ha
        · exact hb h
    · refine iff_of_false ?_ ?_
      · rintro rfl
        exact ha hunderscore
      · rintro (rfl | ⟨h, -⟩)
        · exact ha hb
        · exact ha h
    · exact ⟨Or.inl, fun h => h.elim id fun hblank => absurd hblank.1 ha⟩
  unfold sanitize Similar
  simp only [sanitize_char]
  rw [String.ofList_inj]
  generalize p.toList = cs
  generalize q.toList = ds
  induction cs generalizing ds with
  | nil => cases ds <;> simp
  | cons c cs ih =>
    cases ds with
    | nil => simp
    | cons d ds =>
      rw [List.map_cons, List.map_cons, List.cons.injEq, List.forall₂_cons]
      exact and_congr (hchar c d) (ih ds)

theorem outPath_inj {dir p q : String} :
    joinPath dir (sanitize p ++ ".frag.json") = joinPath dir (sanitize q ++ ".frag.json") ↔
      Similar p q := by
  rw [← sanitize_eq_iff]
  unfold joinPath
  split_ifs
  · rw [String.append_right_inj, String.append_left_inj]
  · rw [String.append_right_inj, String.append_left_inj]

end Names

section Plan

variable {entries : List CaptureEntry} {durationSecs : UInt64} {outDir : String} {vars : Vars}
  {plan : List GadgetInvocation}

theorem planGadget_eq_ok {e : CaptureEntry} {inv : GadgetInvocation}
    (h : planGadget durationSecs outDir vars e = .ok inv) :
    e.gadget = some inv.gadget ∧ inv.probe = e.probe ∧
      inv.outPath = joinPath outDir (sanitize e.probe ++ ".frag.json") := by
  unfold planGadget at h
  cases hgadget : e.gadget with
  | none =>
    rw [hgadget] at h
    cases h
  | some gadget =>
    rw [hgadget] at h
    cases h
    exact ⟨rfl, rfl, rfl⟩

/-- A plan has one launch for each entry, in order. -/
theorem planGadgets_eq_ok (h : planGadgets entries durationSecs outDir vars = .ok plan) :
    List.Forall₂ (fun e inv => e.gadget = some inv.gadget ∧ inv.probe = e.probe ∧
      inv.outPath = joinPath outDir (sanitize e.probe ++ ".frag.json")) entries plan :=
  (Results.mapM_eq_ok.1 h).imp fun _ _ he => planGadget_eq_ok he

theorem exists_plan (hnamed : ∀ e ∈ entries, e.gadget.isSome) :
    ∃ plan, planGadgets entries durationSecs outDir vars = .ok plan := by
  unfold planGadgets
  simp only [Results.mapM_eq_ok]
  rw [Results.exists_forall₂]
  intro e he
  obtain ⟨gadget, hgadget⟩ := Option.isSome_iff_exists.1 (hnamed e he)
  unfold planGadget
  rw [hgadget]
  exact ⟨_, rfl⟩

/-- The launches of a plan have paths of their own exactly when no two probes are similar. -/
theorem outPaths_nodup (h : planGadgets entries durationSecs outDir vars = .ok plan) :
    (plan.map GadgetInvocation.outPath).Nodup ↔
      entries.Pairwise fun e e' => ¬ Similar e.probe e'.probe := by
  have hpaths : plan.map GadgetInvocation.outPath =
      entries.map fun e => joinPath outDir (sanitize e.probe ++ ".frag.json") := by
    have hsame := (planGadgets_eq_ok h).imp fun _ _ he => he.2.2.symm
    rw [← List.forall₂_map_right_iff, ← List.forall₂_map_left_iff, List.forall₂_eq_eq_eq] at hsame
    exact hsame.symm
  rw [hpaths, List.Nodup, List.pairwise_map]
  simp only [ne_eq, outPath_inj]

/-- What is in a file once the gadgets of `written` have written their fragments, in this
order: the fragment of the last one that has the file. -/
def fragmentAt (plan : List GadgetInvocation) {α : Type} (fragment : ℕ → α) (written : List ℕ)
    (path : String) : Option α :=
  (written.reverse.find? fun i => (plan.map GadgetInvocation.outPath)[i]? = some path).map fragment

/-- With paths of their own, whichever gadgets have written by then, a gadget that has is read
as itself. -/
theorem fragmentAt_own (hnodup : (plan.map GadgetInvocation.outPath).Nodup) {α : Type}
    (fragment : ℕ → α) {written : List ℕ} {i : ℕ} (hi : i ∈ written) {inv : GadgetInvocation}
    (hinv : plan[i]? = some inv) :
    fragmentAt plan fragment written inv.outPath = some (fragment i) := by
  have hpath : (plan.map GadgetInvocation.outPath)[i]? = some inv.outPath := by
    rw [List.getElem?_map, hinv]
    rfl
  unfold fragmentAt
  cases hfound : written.reverse.find? fun i =>
      (plan.map GadgetInvocation.outPath)[i]? = some inv.outPath with
  | none =>
    rw [List.find?_eq_none] at hfound
    exact absurd hpath (by simpa using hfound i (List.mem_reverse.2 hi))
  | some j =>
    have hj : (plan.map GadgetInvocation.outPath)[j]? = some inv.outPath := by
      simpa using List.find?_some hfound
    have hlt : i < (plan.map GadgetInvocation.outPath).length :=
      (List.getElem?_eq_some_iff.1 hpath).1
    have heq : i = j := (List.getElem?_inj hlt hnodup).1 (hpath.trans hj.symm)
    rw [heq]
    rfl

end Plan

section Own

variable {F : Type}

/-- The plan has one launch for each entry, in order, with a path of its own, and whatever
gadgets have written by the time a fragment is read, it is the gadget's own. -/
def OwnFragments (d : BenchmarkDef F) (durationSecs : UInt64) (outDir : String) (vars : Vars) :
    Prop :=
  ∃ plan, planGadgets d.capture durationSecs outDir vars = .ok plan ∧
    List.Forall₂ (fun e inv => e.gadget = some inv.gadget ∧ inv.probe = e.probe) d.capture plan ∧
    (plan.map GadgetInvocation.outPath).Nodup ∧
    ∀ (fragment : ℕ → Fragment F) (written : List ℕ), ∀ i ∈ written, ∀ inv, plan[i]? = some inv →
      fragmentAt plan fragment written inv.outPath = some (fragment i)

def ProbesApart (d : BenchmarkDef F) : Prop :=
  d.capture.Pairwise fun e e' => ¬ Similar e.probe e'.probe

theorem apart_of_ownFragments {d : BenchmarkDef F} {durationSecs : UInt64} {outDir : String}
    {vars : Vars} (h : OwnFragments d durationSecs outDir vars) : ProbesApart d := by
  obtain ⟨plan, hplan, -, hnodup, -⟩ := h
  exact (outPaths_nodup hplan).1 hnodup

/-- An accepted definition whose entries all name a gadget has fragments that stay apart exactly
when its probes do. -/
theorem ownFragments_iff (d : BenchmarkDef F) (hnamed : ∀ e ∈ d.capture, e.gadget.isSome)
    (durationSecs : UInt64) (outDir : String) (vars : Vars) :
    OwnFragments d durationSecs outDir vars ↔ ProbesApart d := by
  apply Iff.intro
  · exact apart_of_ownFragments
  · intro hapart
    obtain ⟨plan, hplan⟩ := @exists_plan _ durationSecs outDir vars hnamed
    have hnodup := (outPaths_nodup hplan).2 hapart
    refine ⟨plan, hplan, (planGadgets_eq_ok hplan).imp fun _ _ he => ⟨he.1, he.2.1⟩, hnodup, ?_⟩
    intro fragment written i hi inv hinv
    exact fragmentAt_own hnodup fragment hi hinv

def twoProbes (p q : String) : BenchmarkDef ℚ where
  apiVersion := "assayist/v0"
  name := "bench"
  target := ⟨"firecracker", "1", [], []⟩
  workload := ⟨"fio", "3", [], []⟩
  gate := ⟨"ab_permutation", none, none, none, []⟩
  parameterise := []
  compare := none
  capture := [⟨p, some "assayist-capture-kvm", ⟨"singleton", none, none⟩, none, false, []⟩,
    ⟨q, some "assayist-capture-block", ⟨"singleton", none, none⟩, none, false, []⟩]
  hostPrep := .null
  tenancy := "single_tenant"

theorem probesApart_twoProbes {p q : String} :
    ProbesApart (twoProbes p q) ↔ sanitize p ≠ sanitize q := by
  unfold ProbesApart twoProbes
  rw [List.pairwise_pair, ← sanitize_eq_iff]

theorem two_probes_apart :
    OwnFragments (twoProbes "kvm.exit" "block.rq") 30 "/tmp/x" [("sut_sha", "abc")] :=
  (ownFragments_iff (twoProbes "kvm.exit" "block.rq") (by decide) 30 "/tmp/x" _).2
    (probesApart_twoProbes.2 (by decide))

/-- Two probes that differ in a dot write one file. -/
theorem similar_probes_collide :
    (twoProbes "kvm.exit" "kvm_exit").validate = .ok () ∧
      (∀ e ∈ (twoProbes "kvm.exit" "kvm_exit").capture, e.gadget.isSome) ∧
      ¬ OwnFragments (twoProbes "kvm.exit" "kvm_exit") 30 "/tmp/x" [("sut_sha", "abc")] := by
  refine ⟨by decide, by decide, fun h => ?_⟩
  exact probesApart_twoProbes.1 (apart_of_ownFragments h) (by decide)

end Own

end Assayist
