import Assayist.Lib.Pieces
import Assayist.Proofs.Series
import Assayist.Spec.Netattrib

/-! The label rewrite and the metric ids. Setting `labels.vm_id` changes nothing of a
series but its base, and the base tells two values apart. -/

namespace Assayist

variable {F : Type}

section Fields

theorem lookup_replaceField_ne (m : List (String × Json F)) {k l : String} (h : l ≠ k)
    (v : Json F) : (replaceField m k v).lookup l = m.lookup l := by
  induction m with
  | nil => rfl
  | cons e m ih =>
    obtain ⟨k', w⟩ := e
    by_cases hk : k' = k
    · subst hk
      rw [replaceField, List.map_cons, if_pos rfl, List.lookup_cons, List.lookup_cons,
        beq_false_of_ne h]
      exact ih
    · rw [replaceField, List.map_cons, if_neg hk, List.lookup_cons, List.lookup_cons]
      cases l == k' with
      | true => rfl
      | false => exact ih

theorem lookup_replaceField_self {m : List (String × Json F)} {k : String} {w : Json F}
    (h : m.lookup k = some w) (v : Json F) : (replaceField m k v).lookup k = some v := by
  induction m with
  | nil => simp at h
  | cons e m ih =>
    obtain ⟨k', w'⟩ := e
    by_cases hk : k' = k
    · subst hk
      rw [replaceField, List.map_cons, if_pos rfl, List.lookup_cons, beq_self_eq_true]
    · have hne : (k == k') = false := beq_false_of_ne (Ne.symm hk)
      rw [List.lookup_cons, hne] at h
      rw [replaceField, List.map_cons, if_neg hk, List.lookup_cons, hne]
      exact ih h

/-- A series with a `vm_id` label is an object that holds an object of labels. -/
theorem vmIdLabel_eq_some {s : Json F} {raw : String} (h : vmIdLabel s = some raw) :
    ∃ m labels, s = .object m ∧ m.lookup "labels" = some (.object labels) ∧
      labels.lookup "vm_id" = some (.string raw) := by
  unfold vmIdLabel Json.getStr at h
  obtain ⟨l, hl, h⟩ := Option.bind_eq_some_iff.1 h
  obtain ⟨v, hv, h⟩ := Option.bind_eq_some_iff.1 h
  cases s with
  | object m =>
    cases l with
    | object labels =>
      cases v with
      | string t => exact ⟨m, labels, rfl, hl, by rw [← Option.some.inj h]; exact hv⟩
      | _ => cases h
    | _ => cases hv
  | _ => cases hl

theorem setVmId_object {m labels : List (String × Json F)}
    (h : m.lookup "labels" = some (.object labels)) (id : String) :
    setVmId (.object m) id =
      .object (replaceField m "labels" (.object (replaceField labels "vm_id" (.string id)))) := by
  simp only [setVmId, h]

theorem setVmId_get {s : Json F} {raw : String} (h : vmIdLabel s = some raw) (id : String)
    {k : String} (hk : k ≠ "labels") : (setVmId s id).get k = s.get k := by
  obtain ⟨m, labels, rfl, hm, -⟩ := vmIdLabel_eq_some h
  rw [setVmId_object hm]
  exact lookup_replaceField_ne m hk _

theorem setVmId_getStr {s : Json F} {raw : String} (h : vmIdLabel s = some raw) (id : String)
    {k : String} (hk : k ≠ "labels") : (setVmId s id).getStr k = s.getStr k := by
  rw [Json.getStr, setVmId_get h id hk, Json.getStr]

theorem setVmId_seriesFields [F64 F] {s : Json F} {raw : String} (h : vmIdLabel s = some raw)
    (id : String) (win : Option F) : seriesFields win (setVmId s id) = seriesFields win s := by
  unfold seriesFields
  rw [setVmId_get h id (by decide), setVmId_getStr h id (by decide)]

end Fields

section Suffix

variable [FloatText F]

def labelHead (p : String × String) : List Char := ("|" ++ p.1 ++ "=").toList

def byKey (a b : String × String) : Bool := decide (a.1 ≤ b.1)

def labelPairs (labels : List (String × Json F)) : List (String × String) :=
  (labels.map fun (k, v) => (k, scalarToString v)).mergeSort byKey

def isVmId (p : String × String) : Bool := decide (p.1 = "vm_id")

omit [FloatText F] in
theorem foldl_append_toList {α : Type} (g : α → String) (xs : List α) (s : String) :
    (xs.foldl (fun s x => s ++ g x) s).toList = s.toList ++ xs.flatMap fun x => (g x).toList := by
  induction xs generalizing s with
  | nil => simp
  | cons x xs ih => rw [List.foldl_cons, ih, String.toList_append, List.flatMap_cons,
      List.append_assoc]

theorem labelPairs_replaceField (labels : List (String × Json F)) (id : String) :
    labelPairs (replaceField labels "vm_id" (.string id)) =
      (labelPairs labels).map fun p => (p.1, if isVmId p then id else p.2) := by
  have hsort (l : List (String × String)) :
      (l.mergeSort byKey).map (fun p => (p.1, if isVmId p then id else p.2)) =
        (l.map fun p => (p.1, if isVmId p then id else p.2)).mergeSort byKey :=
    List.map_mergeSort fun _ _ _ _ => rfl
  unfold labelPairs
  rw [hsort]
  congr 1
  unfold replaceField
  rw [List.map_map, List.map_map]
  refine List.map_congr_left fun e _ => ?_
  by_cases hk : e.1 = "vm_id"
  · simp [hk, isVmId, scalarToString]
  · simp [hk, isVmId]

/-- The suffix of rewritten labels: the old pieces, with the id filled in. -/
theorem labelsSuffix_replaceField (labels : List (String × Json F)) (id : String) :
    (labelsSuffix (some (.object (replaceField labels "vm_id" (.string id))))).toList =
      (labelPairs labels).flatMap
        (Pieces.filled labelHead (fun p => p.2.toList) isVmId id.toList) := by
  have hfold : labelsSuffix (some (.object (replaceField labels "vm_id" (.string id)))) =
      (labelPairs (replaceField labels "vm_id" (.string id))).foldl
        (fun s p => s ++ ("|" ++ p.1 ++ "=" ++ p.2)) "" := rfl
  rw [hfold, foldl_append_toList, labelPairs_replaceField, List.flatMap_map]
  simp only [String.toList_empty, List.nil_append]
  congr 1
  funext p
  rw [Pieces.filled, labelHead, String.toList_append]
  split_ifs <;> rfl

theorem vmId_mem_labelPairs {labels : List (String × Json F)} {raw : String}
    (h : labels.lookup "vm_id" = some (.string raw)) :
    ∃ p ∈ labelPairs labels, isVmId p = true := by
  obtain ⟨l₁, l₂, rfl, -⟩ := List.lookup_eq_some_iff.1 h
  refine ⟨("vm_id", scalarToString (.string raw : Json F)), ?_, rfl⟩
  rw [labelPairs, List.mem_mergeSort, List.mem_map]
  exact ⟨("vm_id", .string raw), by simp, rfl⟩

/-- What a series' ids start with, under any flags. -/
def seriesBase (s : Json F) : String := (seriesHead [] false s).base

@[simp] theorem seriesHead_base (overbudget : List String) (overflow : Bool) (s : Json F) :
    (seriesHead overbudget overflow s).base = seriesBase s := rfl

/-- Two values of `vm_id` give two bases. -/
theorem seriesBase_setVmId_inj {s : Json F} {raw u v : String} (h : vmIdLabel s = some raw)
    (hbase : seriesBase (setVmId s u) = seriesBase (setVmId s v)) : u = v := by
  obtain ⟨m, labels, rfl, hm, hid⟩ := vmIdLabel_eq_some h
  obtain ⟨p, hp, hslot⟩ := vmId_mem_labelPairs hid
  unfold seriesBase seriesHead at hbase
  simp only [setVmId_getStr h _ (show "name" ≠ "labels" by decide),
    setVmId_getStr h _ (show "key" ≠ "labels" by decide), String.append_right_inj] at hbase
  have hlabels (id : String) : (setVmId (.object m) id).get "labels" =
      some (.object (replaceField labels "vm_id" (.string id))) := by
    rw [setVmId_object hm]
    exact lookup_replaceField_self hm _
  rw [hlabels, hlabels] at hbase
  have hlist := congrArg String.toList hbase
  rw [labelsSuffix_replaceField, labelsSuffix_replaceField] at hlist
  exact String.toList_injective (Pieces.filled_inj hp hslot hlist)

end Suffix

end Assayist
