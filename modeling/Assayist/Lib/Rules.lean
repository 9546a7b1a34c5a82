import Mathlib.Data.List.Basic
import Mathlib.Data.List.Forall2
import Mathlib.Data.List.Perm.Subperm

/-! A check made of rules, each with the messages it gives. The check reports everything when
every rule that is broken has a message of its own. -/

namespace Rules

variable {ρ μ : Type} (holds : ρ → Prop) [DecidablePred holds] (about : ρ → μ → Prop)

def broken (rules : List ρ) : List ρ := rules.filter fun r => ¬ holds r

/-- Every broken rule has a message about it, no message serving for two of them. -/
def Reported (rules : List ρ) (messages : List μ) : Prop :=
  ∃ ms : List μ, ms.Subperm messages ∧ List.Forall₂ about (broken holds rules) ms

/-- A rule says nothing when it holds, and one thing when it is broken. -/
structure Loud (report : ρ → List μ) (r : ρ) : Prop where
  quiet : holds r → report r = []
  speaks : ¬ holds r → ∃ m, report r = [m] ∧ about r m

variable {holds about} {report : ρ → List μ} {rules : List ρ}

theorem forall₂_broken (h : ∀ r ∈ rules, Loud holds about report r) :
    List.Forall₂ about (broken holds rules) (rules.flatMap report) := by
  induction rules with
  | nil => exact .nil
  | cons r rules ih =>
    have hrest := ih fun r' hr' => h r' (List.mem_cons_of_mem r hr')
    have hr := h r List.mem_cons_self
    unfold broken at hrest ⊢
    rw [List.flatMap_cons]
    by_cases hholds : holds r
    · rw [List.filter_cons_of_neg (by simpa using hholds), hr.quiet hholds, List.nil_append]
      exact hrest
    · obtain ⟨m, hm, habout⟩ := hr.speaks hholds
      rw [List.filter_cons_of_pos (by simpa using hholds), hm, List.singleton_append]
      exact .cons habout hrest

/-- A check whose rules all speak reports everything. -/
theorem reported_of_loud (h : ∀ r ∈ rules, Loud holds about report r) :
    Reported holds about rules (rules.flatMap report) :=
  ⟨_, List.Subperm.refl _, forall₂_broken h⟩

theorem flatMap_eq_nil (h : ∀ r ∈ rules, Loud holds about report r) :
    rules.flatMap report = [] ↔ ∀ r ∈ rules, holds r := by
  rw [List.flatMap_eq_nil_iff]
  apply Iff.intro
  · intro hnil r hr
    by_contra hbroken
    obtain ⟨m, hm, -⟩ := (h r hr).speaks hbroken
    rw [hnil r hr] at hm
    cases hm
  · intro hholds r hr
    exact (h r hr).quiet (hholds r hr)

theorem length_flatMap_le (h : ∀ r ∈ rules, (holds r → report r = []) ∧ (report r).length ≤ 1) :
    (rules.flatMap report).length ≤ (broken holds rules).length := by
  induction rules with
  | nil => exact Nat.le_refl 0
  | cons r rules ih =>
    have hrest := ih fun r' hr' => h r' (List.mem_cons_of_mem r hr')
    obtain ⟨hquiet, hone⟩ := h r List.mem_cons_self
    unfold broken at hrest ⊢
    rw [List.flatMap_cons, List.length_append]
    by_cases hholds : holds r
    · rw [List.filter_cons_of_neg (by simpa using hholds), hquiet hholds]
      simpa using hrest
    · rw [List.filter_cons_of_pos (by simpa using hholds), List.length_cons]
      omega

/-- With a broken rule among them that says nothing, not everything is reported. -/
theorem not_reported_of_silent
    (h : ∀ r ∈ rules, (holds r → report r = []) ∧ (report r).length ≤ 1) {r : ρ} (hr : r ∈ rules)
    (hbroken : ¬ holds r) (hsilent : report r = []) :
    ¬ Reported holds about rules (rules.flatMap report) := by
  intro hreported
  obtain ⟨ms, hsub, habout⟩ := hreported
  obtain ⟨before, after, rfl⟩ := List.append_of_mem hr
  have hbefore := length_flatMap_le fun r' hr' => h r' (List.mem_append_left _ hr')
  have hafter := length_flatMap_le fun r' hr' =>
    h r' (List.mem_append_right _ (List.mem_cons_of_mem r hr'))
  have hle := hsub.length_le
  have hsame := habout.length_eq
  unfold broken at hbefore hafter hsame
  rw [List.filter_append, List.filter_cons_of_pos (by simpa using hbroken), List.length_append,
    List.length_cons] at hsame
  rw [List.flatMap_append, List.flatMap_cons, hsilent, List.nil_append, List.length_append] at hle
  omega

end Rules
