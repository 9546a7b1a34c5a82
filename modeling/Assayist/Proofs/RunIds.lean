import Assayist.Proofs.SpanTrip

/-! The run id through the bridge: it rides on the spans, so a run without spans comes back
without one. -/

namespace Assayist

section RunIds

variable {F : Type} [F64 F] [FloatText F] (hash : String → String → ℕ → String)
  (run : AssayRun F) (ts : UInt64)

def importedId : String := (importRun (exportAt hash run ts)).runId

variable {run}

theorem importedId_of_spans (h : run.spans ≠ []) : importedId hash run ts = run.runId :=
  importRun_runId hash ts h

theorem importedId_of_no_spans (h : run.spans = []) : importedId hash run ts = "" := by
  have hid : importedId hash run ts =
      ((exportSpans hash run).head?.bind (·.getStr "traceId")).getD "" := by
    rw [← nested_spans hash run ts]
    rfl
  rw [hid, exportSpans, h]
  rfl

theorem importedId_kept_iff :
    importedId hash run ts = run.runId ↔ run.spans ≠ [] ∨ run.runId = "" := by
  by_cases h : run.spans = []
  · rw [importedId_of_no_spans hash ts h]
    simp only [h, ne_eq, not_true_eq_false, false_or]
    exact eq_comm
  · simp only [importedId_of_spans hash ts h, ne_eq, h, not_false_eq_true, true_or]

variable {a b : AssayRun F}

/-- Of two runs with different ids, both keep theirs exactly when each has a span or no id
to lose; and they come back with different ids exactly when at most one of them has lost
its own, and that one to an id the other does not have. -/
theorem runIds_kept_iff (h : a.runId ≠ b.runId) (ts ts' : UInt64) :
    ((importedId hash a ts = a.runId ∧ importedId hash b ts' = b.runId) ↔
      (a.spans ≠ [] ∨ a.runId = "") ∧ (b.spans ≠ [] ∨ b.runId = "")) ∧
    (importedId hash a ts ≠ importedId hash b ts' ↔
      (a.spans ≠ [] ∧ (b.spans ≠ [] ∨ a.runId ≠ "")) ∨
        (a.spans = [] ∧ b.spans ≠ [] ∧ b.runId ≠ "")) := by
  refine ⟨and_congr (importedId_kept_iff hash ts) (importedId_kept_iff hash ts'), ?_⟩
  by_cases ha : a.spans = []
  · rw [importedId_of_no_spans hash ts ha]
    by_cases hb : b.spans = []
    · rw [importedId_of_no_spans hash ts' hb]
      simp [ha, hb]
    · rw [importedId_of_spans hash ts' hb]
      simp only [ha, hb, ne_eq, not_true_eq_false, not_false_eq_true, false_and, false_or,
        true_and, eq_comm]
  · rw [importedId_of_spans hash ts ha]
    by_cases hb : b.spans = []
    · rw [importedId_of_no_spans hash ts' hb]
      simp [ha, hb]
    · rw [importedId_of_spans hash ts' hb]
      simp [ha, hb, h]

end RunIds

section Example

/-- A run as `capture` assembles one: it has no spans. -/
def capturedRun (runId : String) : AssayRun ℚ :=
  .assemble runId sampleIdentity sampleFingerprint (.object []) [] []

theorem treeRuns_kept :
    (importedId plainHash treeRun 0 = treeRun.runId ∧
        importedId plainHash { treeRun with runId := "fedcba9876543210fedcba9876543210" } 0 =
          "fedcba9876543210fedcba9876543210") ∧
      importedId plainHash treeRun 0 ≠
        importedId plainHash { treeRun with runId := "fedcba9876543210fedcba9876543210" } 0 := by
  have hspans : treeRun.spans ≠ [] := List.cons_ne_nil _ _
  have hkept := runIds_kept_iff plainHash (a := treeRun)
    (b := { treeRun with runId := "fedcba9876543210fedcba9876543210" }) (by decide) 0 0
  exact ⟨hkept.1.2 ⟨.inl hspans, .inl hspans⟩, hkept.2.2 (.inl ⟨hspans, .inl hspans⟩)⟩

/-- Two captured runs come back as one. -/
theorem capturedRuns_merged :
    (capturedRun "0123456789abcdef0123456789abcdef").runId ≠
      (capturedRun "fedcba9876543210fedcba9876543210").runId ∧
    importedId plainHash (capturedRun "0123456789abcdef0123456789abcdef") 0 =
      importedId plainHash (capturedRun "fedcba9876543210fedcba9876543210") 0 := by
  refine ⟨by decide, ?_⟩
  rw [importedId_of_no_spans plainHash 0 rfl, importedId_of_no_spans plainHash 0 rfl]

end Example

end Assayist
