import Assayist.Proofs.Power
import Assayist.Proofs.Signs
import Assayist.Proofs.Tokens

/-! How metrics that measure memory consumption are graded. The throughput rule stands before
the memory rule, so a memory metric in bytes is read as a throughput; where it is not, `ab`
directs it as it should over means that are not negative. -/

namespace Assayist

section Lower

variable {F : Type} [F64 F] [FloatText F] [Build]

/-- Every metric of a run whose id names memory consumption is lower-better. -/
def MemoryLower (run : Json F) : Prop :=
  ∀ ms, reduce run = .ok ms → ∀ m ∈ ms, names memoryTokens m.id = true →
    m.polarity = .lowerBetter

/-- No id of a run that names memory consumption also names a throughput or has the unit of
bytes. -/
def MemoryPlain (run : Json F) : Prop :=
  (∃ ms, reduce run = .ok ms) → ∀ e ∈ gradedIds run, names memoryTokens e.1 = true →
    names throughputTokens e.1 = false ∧ e.2 ≠ "By"

theorem memoryLower_iff {run : Json F} : MemoryLower run ↔ MemoryPlain run := by
  apply Iff.intro
  · intro hlower hreduce e he hmem
    obtain ⟨ms, hms⟩ := hreduce
    obtain ⟨m, hm, hid, hpol⟩ := reduce_graded hms he
    rw [← polarityOf_memory hmem, ← hpol]
    apply hlower ms hms m hm
    rw [hid]
    exact hmem
  · intro hplain ms hms m hm hmem
    rcases reduce_grade_mem hms hm with ⟨e, he, hid, hpol⟩ | hspan
    · rw [hid] at hmem
      rw [hpol, polarityOf_memory hmem]
      exact hplain ⟨ms, hms⟩ e he hmem
    · exact hspan

/-- Where memory metrics are lower-better, so is the polarity a comparison goes by. -/
theorem leadPolarity_memory {runs : List (Json F)} (h : ∀ run ∈ runs, MemoryLower run)
    {id : String} (hid : names memoryTokens id = true) (hne : pooledMetrics id runs ≠ []) :
    leadPolarity (pooledMetrics id runs) = .lowerBetter := by
  obtain ⟨m, rest, hsplit⟩ := List.exists_cons_of_ne_nil hne
  have hm : m ∈ pooledMetrics id runs := by
    rw [hsplit]
    exact List.mem_cons_self
  obtain ⟨run, hrun, ms, hms, hmem, rfl⟩ := mem_pooledMetrics.1 hm
  rw [leadPolarity, hsplit]
  exact h run hrun ms hms m hmem hid

end Lower

section Memory

/-- Over a lower-better metric a rise is not called better, nor a fall worse, exactly where
the means are equal or upright. -/
theorem lower_points_iff {ma mb : ℝ} :
    (∀ bad, badDirection .lowerBetter (relDelta ma mb) = some bad →
      if bad then ¬ mb < ma else ¬ ma < mb) ↔ ma = mb ∨ upright ma mb := by
  rw [← rise_iff_upright]
  simp only [badDirection, Option.some.injEq, forall_eq', decide_eq_true_eq]
  rcases lt_trichotomy ma mb with hlt | rfl | hgt
  · simp [hlt, hlt.ne, hlt.not_gt]
  · simp
  · simp [hgt, hgt.ne', hgt.not_gt]

variable [FloatText ℝ] [Build]

/-- `ab` reports no rise of a memory metric as improved and no fall as regressed. -/
def MemoryPoints (a b : List (Json ℝ)) (cfg : Config ℝ) : Prop :=
  ∀ rep, ab a b cfg = .ok rep → ∀ d ∈ rep.detail, names memoryTokens d.id = true →
    let ma := mean (valuesOf (pooledMetrics d.id a))
    let mb := mean (valuesOf (pooledMetrics d.id b))
    (ma < mb → d.status ≠ .improved) ∧ (mb < ma → d.status ≠ .regressed)

/-- Where memory metrics are lower-better, `ab` points the right way exactly over means that
are equal or upright. -/
theorem memoryPoints_iff {a b : List (Json ℝ)} {cfg : Config ℝ}
    (hlower : ∀ run ∈ a, MemoryLower run) :
    MemoryPoints a b cfg ↔ (Sound a b cfg → ∀ id, names memoryTokens id = true →
      Tested cfg id (pooledMetrics id a) (pooledMetrics id b) →
        mean (valuesOf (pooledMetrics id a)) = mean (valuesOf (pooledMetrics id b)) ∨
          upright (mean (valuesOf (pooledMetrics id a)))
            (mean (valuesOf (pooledMetrics id b)))) := by
  have hsides := directed_forall_iff a b cfg fun id bad =>
    names memoryTokens id = true →
      if bad then
        ¬ mean (valuesOf (pooledMetrics id b)) < mean (valuesOf (pooledMetrics id a))
      else ¬ mean (valuesOf (pooledMetrics id a)) < mean (valuesOf (pooledMetrics id b))
  have hpoints : MemoryPoints a b cfg ↔ ∀ rep, ab a b cfg = .ok rep → ∀ d ∈ rep.detail, ∀ bad,
      d.status = directed bad → names memoryTokens d.id = true →
        if bad then
          ¬ mean (valuesOf (pooledMetrics d.id b)) < mean (valuesOf (pooledMetrics d.id a))
        else ¬ mean (valuesOf (pooledMetrics d.id a)) <
          mean (valuesOf (pooledMetrics d.id b)) := by
    unfold MemoryPoints
    simp only [Bool.forall_bool, directed, Bool.false_eq_true, if_false, if_true]
    apply forall_congr'
    intro rep
    apply imp_congr_right
    intro _
    apply forall₂_congr
    intro d _
    apply Iff.intro
    · intro h
      exact ⟨fun himproved hmem hlt => (h hmem).1 hlt himproved,
        fun hregressed hmem hgt => (h hmem).2 hgt hregressed⟩
    · intro h hmem
      exact ⟨fun hlt himproved => h.1 himproved hmem hlt,
        fun hgt hregressed => h.2 hregressed hmem hgt⟩
  rw [hpoints, hsides]
  apply imp_congr_right
  intro _
  apply forall_congr'
  intro id
  have hlead (hmem : names memoryTokens id = true)
      (htested : Tested cfg id (pooledMetrics id a) (pooledMetrics id b)) :
      leadPolarity (pooledMetrics id a) = .lowerBetter := by
    apply leadPolarity_memory hlower hmem
    intro hnil
    have hlen := htested.enoughA
    simp [hnil] at hlen
  apply Iff.intro
  · intro h hmem htested
    apply lower_points_iff.1
    intro bad hbad
    rw [← hlead hmem htested] at hbad
    exact h htested bad hbad hmem
  · intro h htested bad hbad hmem
    rw [hlead hmem htested] at hbad
    exact lower_points_iff.2 (h hmem htested) bad hbad

/-- The memory metrics of the runs are lower-better, and `ab` points the right way on them. -/
def MemoryGraded (a b : List (Json ℝ)) (cfg : Config ℝ) : Prop :=
  (∀ run ∈ a ++ b, MemoryLower run) ∧ MemoryPoints a b cfg

/-- Memory consumption is graded as such exactly where no memory metric is in bytes or names
a throughput, and the means of those that `ab` directs are equal or upright. -/
theorem memoryGraded_iff (a b : List (Json ℝ)) (cfg : Config ℝ) :
    MemoryGraded a b cfg ↔ (∀ run ∈ a ++ b, MemoryPlain run) ∧
      (Sound a b cfg → ∀ id, names memoryTokens id = true →
        Tested cfg id (pooledMetrics id a) (pooledMetrics id b) →
          mean (valuesOf (pooledMetrics id a)) = mean (valuesOf (pooledMetrics id b)) ∨
            upright (mean (valuesOf (pooledMetrics id a)))
              (mean (valuesOf (pooledMetrics id b)))) := by
  unfold MemoryGraded
  simp only [memoryLower_iff]
  apply and_congr_right
  intro hplain
  apply memoryPoints_iff
  intro run hrun
  exact memoryLower_iff.2 (hplain run (List.mem_append_left _ hrun))

end Memory

section Inverted

attribute [local instance] releaseBuild wholeText

theorem consumed_bytes_misread :
    ¬ MemoryGraded [(gaugeCarrier "mem_consumed_bytes" "By").run 1]
      [(gaugeCarrier "mem_consumed_bytes" "By").run 2] Config.default := by
  intro h
  have hlower := h.1 _ List.mem_cons_self _
    ((gaugeCarrier "mem_consumed_bytes" "By").reduces 1) _ List.mem_cons_self
    (by decide : names memoryTokens ("mem_consumed_bytes" ++ "|" ++ "value") = true)
  rw [sample, polarityOf_higher.2 (.inr rfl)] at hlower
  cases hlower

end Inverted

end Assayist
