import Assayist.Proofs.VmIds

/-! The label rewrite over whole fragments: what it sets, what it leaves alone, which handles it
reports, and that a second pass finds nothing more to do. -/

namespace Assayist

variable {F : Type}

section Assignment

/-- `v[k] = w`, where `w` is itself assigned within the old value: on `Null` it makes an object,
a missing key is inserted in key order, and anything but an object is a panic (`none`). -/
def assignAt (v : Json F) (k : String) (f : Json F → Option (Json F)) : Option (Json F) :=
  match v with
  | .null => (f .null).map fun w => .object [(k, w)]
  | .object m =>
    match m.lookup k with
    | some old => (f old).map fun w => .object (replaceField m k w)
    | none => (f .null).map fun w =>
        .object ((m.takeWhile fun e => e.1 < k) ++ (k, w) :: m.dropWhile fun e => e.1 < k)
  | _ => none

/-- `s["labels"]["vm_id"] = json!(id)` on any value. -/
def assignVmId (s : Json F) (id : String) : Option (Json F) :=
  assignAt s "labels" fun labels => assignAt labels "vm_id" fun _ => some (.string id)

/-- On a series that has the label the assignment neither inserts nor panics. -/
theorem assignVmId_of_label {s : Json F} {raw : String} (h : vmIdLabel s = some raw)
    (id : String) : assignVmId s id = some (setVmId s id) := by
  obtain ⟨m, labels, rfl, hm, hlabels⟩ := vmIdLabel_eq_some h
  simp only [assignVmId, assignAt, hm, hlabels, Option.map_some, setVmId_object hm]

theorem keys_replaceField (m : List (String × Json F)) (k : String) (v : Json F) :
    (replaceField m k v).map Prod.fst = m.map Prod.fst := by
  rw [replaceField, List.map_map]
  refine List.map_congr_left fun e _ => ?_
  rw [Function.comp_apply]
  split_ifs with hk
  · exact hk.symm
  · rfl

/-- A series after the assignment of `id` to its label, which is all that changed: the other
labels are as they were, and so are the other fields. -/
structure Relabelled (id : String) (s s' : Json F) : Prop where
  assigned : assignVmId s id = some s'
  only : ∃ m m' labels labels', s = .object m ∧ s' = .object m' ∧
    m.lookup "labels" = some (.object labels) ∧ m'.lookup "labels" = some (.object labels') ∧
    m'.map Prod.fst = m.map Prod.fst ∧ (∀ k ≠ "labels", m'.lookup k = m.lookup k) ∧
    labels'.map Prod.fst = labels.map Prod.fst ∧
    (∀ k ≠ "vm_id", labels'.lookup k = labels.lookup k) ∧
    labels'.lookup "vm_id" = some (.string id)

theorem setVmId_relabelled {s : Json F} {raw : String} (h : vmIdLabel s = some raw)
    (id : String) : Relabelled id s (setVmId s id) := by
  refine ⟨assignVmId_of_label h id, ?_⟩
  obtain ⟨m, labels, rfl, hm, hlabels⟩ := vmIdLabel_eq_some h
  rw [setVmId_object hm]
  exact ⟨m, _, labels, _, rfl, rfl, hm, lookup_replaceField_self hm _, keys_replaceField m _ _,
    fun k hk => lookup_replaceField_ne m hk _, keys_replaceField labels _ _,
    fun k hk => lookup_replaceField_ne labels hk _, lookup_replaceField_self hlabels _⟩

theorem vmIdLabel_setVmId {s : Json F} {raw : String} (h : vmIdLabel s = some raw)
    (id : String) : vmIdLabel (setVmId s id) = some id := by
  obtain ⟨m, labels, rfl, hm, hlabels⟩ := vmIdLabel_eq_some h
  rw [setVmId_object hm, vmIdLabel, Json.get, lookup_replaceField_self hm, Option.bind_some,
    Json.getStr, Json.get, lookup_replaceField_self hlabels, Option.bind_some, Json.asStr]

end Assignment

section Report

variable (table : HandleTable)

/-- The label of a series, when it is a handle that was never issued. -/
def unissued (s : Json F) : Option String :=
  (vmIdLabel s).bind fun raw =>
    if (parseU64 raw).any fun h => (table.get h.toNat).isNone then some raw else none

theorem rewriteSeries_snd (unknown : List String) (s : Json F) :
    (rewriteSeries table unknown s).2 =
      (unissued table s).toList.foldl Grouping.addNew unknown := by
  unfold rewriteSeries unissued
  cases vmIdLabel s with
  | none => rfl
  | some raw =>
    cases hraw : parseU64 raw with
    | none => simp [hraw]
    | some h => cases hget : table.get h.toNat <;> simp [hraw, hget, Grouping.addNew]

theorem rewriteAll_snd (unknown : List String) (ss : List (Json F)) :
    (rewriteAll table unknown ss).2 =
      (ss.filterMap (unissued table)).foldl Grouping.addNew unknown := by
  induction ss generalizing unknown with
  | nil => rfl
  | cons s ss ih =>
    have hstep : (rewriteAll table unknown (s :: ss)).2 =
        (rewriteAll table (rewriteSeries table unknown s).2 ss).2 := rfl
    rw [hstep, ih, rewriteSeries_snd, ← List.foldl_append, List.filterMap_cons]
    cases unissued table s <;> rfl

theorem rewrite_report (unknown : List String) (fs : List (Fragment F)) :
    (rewriteVmIdLabels table unknown fs).2 =
      ((fs.flatMap (·.series)).filterMap (unissued table)).foldl Grouping.addNew unknown := by
  induction fs generalizing unknown with
  | nil => rfl
  | cons f fs ih =>
    have hstep : (rewriteVmIdLabels table unknown (f :: fs)).2 =
        (rewriteVmIdLabels table (rewriteAll table unknown f.series).2 fs).2 := rfl
    rw [hstep, ih, rewriteAll_snd, ← List.foldl_append, List.flatMap_cons, List.filterMap_append]

theorem rewrite_fragments (unknown : List String) (fs : List (Fragment F)) :
    (rewriteVmIdLabels table unknown fs).1 =
      fs.map fun f => { f with series := f.series.map (relabel table) } := by
  induction fs generalizing unknown with
  | nil => rfl
  | cons f fs ih =>
    rw [List.map_cons, ← ih (rewriteAll table unknown f.series).2, ← rewriteAll_fst table unknown]
    rfl

variable {table}

theorem entryOf_relabel (h : ∀ k p, table.get k = some p → parseU64 p.vmId = none) (s : Json F) :
    entryOf table (relabel table s) = none ∨ relabel table s = s := by
  rw [relabel_eq]
  cases hentry : entryOf table s with
  | none => exact .inr rfl
  | some p =>
    obtain ⟨raw, k, hraw, -, hget⟩ := entryOf_eq_some hentry
    refine .inl ?_
    rw [entryOf, vmIdLabel_setVmId hraw, Option.bind_some, h _ p hget]
    rfl

theorem relabel_relabel (h : ∀ k p, table.get k = some p → parseU64 p.vmId = none) (s : Json F) :
    relabel table (relabel table s) = relabel table s := by
  rcases entryOf_relabel h s with hnone | hsame
  · rw [relabel_eq table (relabel table s), hnone]
  · rw [hsame, hsame]

/-- A pass leaves the unissued labels for the next pass to find. -/
theorem unissued_relabel (h : ∀ k p, table.get k = some p → parseU64 p.vmId = none) (s : Json F) :
    unissued table (relabel table s) = unissued table s := by
  rw [relabel_eq]
  cases hentry : entryOf table s with
  | none => rfl
  | some p =>
    obtain ⟨raw, k, hraw, hparse, hget⟩ := entryOf_eq_some hentry
    have hnew : parseU64 p.vmId = none := h _ p hget
    simp only [unissued, vmIdLabel_setVmId hraw, hraw, Option.bind_some, hnew, hparse, hget,
      Option.any_none, Option.any_some, Option.isNone_some, Bool.false_eq_true, if_false]

end Report

section Pass

variable (table : HandleTable)

/-- A series after a pass: with the entry's id when its label is an issued handle, else as it
was. -/
inductive Passed (s s' : Json F) : Prop
  | relabelled {p : VmProvenance} (h : entryOf table s = some p) (hs : Relabelled p.vmId s s')
  | kept (h : entryOf table s = none) (hs : s' = s)

/-- A fragment after a pass: as many series in the same order, and nothing else touched. -/
structure FragmentPassed (f f' : Fragment F) : Prop where
  series : List.Forall₂ (Passed table) f.series f'.series
  selfMetrics : f'.selfMetrics = f.selfMetrics
  captureMeta : f'.captureMeta = f.captureMeta

theorem relabel_passed (s : Json F) : Passed table s (relabel table s) := by
  rw [relabel_eq]
  cases hentry : entryOf table s with
  | none => exact .kept hentry rfl
  | some p =>
    obtain ⟨raw, k, hraw, -⟩ := entryOf_eq_some hentry
    exact .relabelled hentry (setVmId_relabelled hraw p.vmId)

/-- One pass sets the labels that are issued handles and nothing else, and reports each handle
that was never issued where it came first; a second pass changes nothing and reports the
same. -/
theorem rewrite_pass (fs : List (Fragment F))
    (h : ∀ k p, table.get k = some p → parseU64 p.vmId = none) :
    List.Forall₂ (FragmentPassed table) fs (rewriteVmIdLabels table [] fs).1 ∧
    (rewriteVmIdLabels table [] fs).2 =
      ((fs.flatMap (·.series)).filterMap (unissued table)).eraseDups ∧
    rewriteVmIdLabels table [] (rewriteVmIdLabels table [] fs).1 =
      rewriteVmIdLabels table [] fs := by
  refine ⟨?_, ?_, ?_⟩
  · rw [rewrite_fragments, List.forall₂_map_right_iff, List.forall₂_same]
    refine fun f _ => ⟨?_, rfl, rfl⟩
    rw [List.forall₂_map_right_iff, List.forall₂_same]
    exact fun s _ => relabel_passed table s
  · rw [rewrite_report, Grouping.foldl_addNew_nil]
  · refine Prod.ext ?_ ?_
    · rw [rewrite_fragments, rewrite_fragments, List.map_map]
      refine List.map_congr_left fun f _ => ?_
      rw [Function.comp_apply, List.map_map]
      have htwice : relabel table ∘ relabel table = relabel (F := F) table :=
        funext fun s => relabel_relabel h s
      rw [htwice]
    · rw [rewrite_report, rewrite_report, rewrite_series, List.filterMap_map]
      have hsame : unissued table ∘ relabel table = unissued (F := F) table :=
        funext fun s => unissued_relabel h s
      rw [hsame]

def oneGuest : HandleTable :=
  HandleTable.new.insert ⟨0, "01ULID", "tap0", "02:00:00:00:00:01", 11, 40⟩

/-- The handle of the one guest, one that was never issued, and a series without a label. -/
def guestFragments : List (Fragment ℚ) :=
  [⟨[.object [("labels", .object [("vm_id", .string "0")])],
      .object [("labels", .object [("vm_id", .string "77")])], .object []], [], none⟩]

theorem rewrite_pass_guest :
    List.Forall₂ (FragmentPassed oneGuest) guestFragments
      (rewriteVmIdLabels oneGuest [] guestFragments).1 ∧
    (rewriteVmIdLabels oneGuest [] guestFragments).2 =
      ((guestFragments.flatMap (·.series)).filterMap (unissued oneGuest)).eraseDups ∧
    rewriteVmIdLabels oneGuest [] (rewriteVmIdLabels oneGuest [] guestFragments).1 =
      rewriteVmIdLabels oneGuest [] guestFragments := by
  refine rewrite_pass oneGuest guestFragments fun k p hget => ?_
  rw [oneGuest, HandleTable.get_insert] at hget
  split_ifs at hget with hk
  · rw [← Option.some.inj hget]
    decide
  · simp [HandleTable.get, HandleTable.new] at hget

end Pass

end Assayist
