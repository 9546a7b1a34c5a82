import Assayist.Proofs.Owner
import Mathlib.Order.Bounds.Basic

/-! The owner's bookkeeping over the lines it serves: what each reply says of the map, the four
counts, and the occupancy. -/

namespace Assayist

namespace Owner

section Bookkeeping

variable {kernel : Kernel}

def Stats.applied (stats : Stats) : ℕ := stats.adds + stats.states + stats.removes

/-- A command that takes effect is counted once, and as nothing else. -/
theorem applyMap_stats {k : ℕ} {m : BpfMap} {stats : Stats} {cmd : Command} {r : BpfMap × Stats}
    (h : applyMap kernel k m stats cmd = .ok r) :
    r.2.applied = stats.applied + 1 ∧ r.2.errors = stats.errors ∧
      r.2.peakLive = stats.peakLive := by
  cases cmd with
  | add ifindex handle netnsInum =>
    simp only [applyMap] at h
    split at h
    · obtain ⟨⟩ := h
      exact ⟨by simp only [Stats.applied]; omega, rfl, rfl⟩
    · cases h
  | state handle state =>
    simp only [applyMap] at h
    split at h
    · cases h
    · split at h
      · cases h
      · obtain ⟨m', -, hr⟩ := Results.bind_eq_ok.1 h
        obtain ⟨⟩ := hr
        exact ⟨by simp only [Stats.applied]; omega, rfl, rfl⟩
  | remove handle =>
    simp only [applyMap] at h
    split at h
    · cases h
    · obtain ⟨⟩ := h
      exact ⟨by simp only [Stats.applied]; omega, rfl, rfl⟩

/-- The two ways a line can be served: refused, with one more error and nothing else changed, or
taken, with one more command and the occupancy that it leaves. -/
theorem serveLine_cases (kernel : Kernel) (o : State) (line : String) :
    (∃ e, serveLine kernel o line = ("err " ++ e,
      { o with stats := { o.stats with errors := o.stats.errors + 1 }
               served := o.served + 1 })) ∨
    ∃ m stats, serveLine kernel o line = ("ok", ⟨m, stats, o.served + 1⟩) ∧
      stats.applied = o.stats.applied + 1 ∧ stats.errors = o.stats.errors ∧
      stats.finalLive = m.entries.length ∧
      stats.peakLive = max o.stats.peakLive m.entries.length := by
  unfold serveLine
  cases parseCommand (trim line) with
  | error e => exact .inl ⟨e, rfl⟩
  | ok cmd =>
    cases happly : applyMap kernel o.served o.map o.stats cmd with
    | error e =>
      refine .inl ⟨e, ?_⟩
      simp only [apply, happly]
      rfl
    | ok r =>
      obtain ⟨m, stats⟩ := r
      obtain ⟨happlied, herrors, hpeak⟩ := applyMap_stats happly
      have hkeys : m.keys.length = m.entries.length := List.length_map _
      refine .inr ⟨m, { stats with finalLive := m.keys.length
                                   peakLive := max stats.peakLive m.keys.length }, ?_, happlied,
        herrors, ?_, ?_⟩
      · simp only [apply, happly]
        rfl
      · exact hkeys
      · rw [← hpeak, ← hkeys]

/-- How many entries the map has after each number of lines. -/
def occupancy (kernel : Kernel) (lines : List String) (k : ℕ) : ℕ :=
  (serve kernel .new (lines.take k)).map.entries.length

structure Tallied (kernel : Kernel) (lines : List String) (stats : Stats) : Prop where
  counts : stats.adds + stats.states + stats.removes + stats.errors = lines.length
  final : stats.finalLive = occupancy kernel lines lines.length
  peak : IsGreatest (Set.range (occupancy kernel lines)) stats.peakLive

theorem occupancy_of_le {lines : List String} {k : ℕ} (h : k ≤ lines.length) (line : String) :
    occupancy kernel (lines ++ [line]) k = occupancy kernel lines k := by
  rw [occupancy, List.take_append_of_le_length h, occupancy]

theorem occupancy_of_lt {lines : List String} {k : ℕ} (h : lines.length < k) (line : String) :
    occupancy kernel (lines ++ [line]) k =
      (serve kernel .new (lines ++ [line])).map.entries.length := by
  rw [occupancy, List.take_of_length_le]
  rw [List.length_append, List.length_singleton]
  omega

theorem range_occupancy_concat (lines : List String) (line : String) :
    Set.range (occupancy kernel (lines ++ [line])) =
      insert (serve kernel .new (lines ++ [line])).map.entries.length
        (Set.range (occupancy kernel lines)) := by
  ext n
  rw [Set.mem_insert_iff, Set.mem_range, Set.mem_range]
  apply Iff.intro
  · rintro ⟨k, rfl⟩
    rcases le_or_gt k lines.length with hk | hk
    · exact .inr ⟨k, (occupancy_of_le hk line).symm⟩
    · exact .inl (occupancy_of_lt hk line)
  · rintro (rfl | ⟨k, rfl⟩)
    · exact ⟨lines.length + 1, occupancy_of_lt (Nat.lt_succ_self _) line⟩
    · refine ⟨min k lines.length, ?_⟩
      rw [occupancy_of_le (Nat.min_le_right k _), occupancy, occupancy, ← List.take_take,
        List.take_length]

theorem Tallied.nil : Tallied kernel [] Stats.default where
  counts := rfl
  final := rfl
  peak := by
    refine ⟨⟨0, rfl⟩, ?_⟩
    rintro n ⟨k, rfl⟩
    rw [occupancy, List.take_nil]
    exact Nat.zero_le _

theorem Tallied.concat {lines : List String}
    (h : Tallied kernel lines (serve kernel .new lines).stats) (line : String) :
    Tallied kernel (lines ++ [line]) (serve kernel .new (lines ++ [line])).stats := by
  have hlength : (lines ++ [line]).length = lines.length + 1 := List.length_append
  have hlast : occupancy kernel (lines ++ [line]) (lines ++ [line]).length =
      (serve kernel .new (lines ++ [line])).map.entries.length :=
    occupancy_of_lt (by omega) line
  have hsame : occupancy kernel lines lines.length =
      (serve kernel .new lines).map.entries.length := by
    rw [occupancy, List.take_length]
  have hcounts := h.counts
  rcases serveLine_cases kernel (serve kernel .new lines) line with
    ⟨e, heq⟩ | ⟨m, stats, heq, happlied, herrors, hfinal, hpeak⟩
  · have hserve : serve kernel .new (lines ++ [line]) = _ :=
      (serve_concat _ lines line).trans (congrArg Prod.snd heq)
    refine ⟨?_, ?_, ?_⟩
    · rw [hserve, hlength, ← hcounts]
      exact (Nat.add_assoc _ _ 1).symm
    · rw [hlast, hserve]
      exact h.final.trans hsame
    · rw [range_occupancy_concat, hserve]
      have hmem : (serve kernel .new lines).map.entries.length ∈
          Set.range (occupancy kernel lines) := ⟨lines.length, hsame⟩
      rw [Set.insert_eq_of_mem hmem]
      exact h.peak
  · have hserve : serve kernel .new (lines ++ [line]) = _ :=
      (serve_concat _ lines line).trans (congrArg Prod.snd heq)
    refine ⟨?_, ?_, ?_⟩
    · rw [hserve, hlength, ← hcounts]
      simp only [Stats.applied] at happlied
      dsimp only
      omega
    · rw [hlast, hserve]
      exact hfinal
    · rw [range_occupancy_concat, hserve]
      dsimp only
      rw [hpeak, max_comm]
      exact h.peak.insert _

/-- From an empty map of any capacity, whatever else the kernel refuses: every line is answered,
with an `err` only if it leaves the map as it was; every line is counted once; and the occupancy
reported is that of the map at the end, and the greatest there was. -/
theorem lines_tallied (kernel : Kernel) (lines : List String) :
    (∀ (o : State) (line : String), (serveLine kernel o line).1 = "ok" ∨
      ∃ e, (serveLine kernel o line).1 = "err " ++ e ∧ (serveLine kernel o line).2.map = o.map) ∧
    Tallied kernel lines (serve kernel .new lines).stats := by
  refine ⟨fun o line => ?_, ?_⟩
  · rcases serveLine_cases kernel o line with ⟨e, heq⟩ | ⟨m, stats, heq, -⟩
    · exact .inr ⟨e, by rw [heq], by rw [heq]⟩
    · exact .inl (by rw [heq])
  · induction lines using List.reverseRecOn with
    | nil => exact .nil
    | append_singleton lines line ih => exact ih.concat line

end Bookkeeping

end Owner

end Assayist
