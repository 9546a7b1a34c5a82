import Mathlib.Data.List.Nodup

/-! Association lists with distinct keys, as maps. Two of them hold the same entries exactly
when they look up alike, and sorting by key then leaves nothing of the order they were
written in. -/

namespace Keyed

variable {κ β : Type} [BEq κ] [LawfulBEq κ] {l l' : List (κ × β)}

theorem lookup_of_mem {k : κ} {v : β} (h : (l.map Prod.fst).Nodup) (hmem : (k, v) ∈ l) :
    l.lookup k = some v := by
  induction l with
  | nil => cases hmem
  | cons e l ih =>
    rw [List.map_cons, List.nodup_cons] at h
    rcases List.mem_cons.1 hmem with heq | hrest
    · rw [← heq]
      exact List.lookup_cons_self
    · have hk : k ∈ l.map Prod.fst := List.mem_map_of_mem hrest
      have hne : k ≠ e.1 := fun heq => h.1 (heq ▸ hk)
      rw [List.lookup_cons, beq_false_of_ne hne]
      exact ih h.2 hrest

theorem lookup_eq_some_iff {k : κ} {v : β} (h : (l.map Prod.fst).Nodup) :
    l.lookup k = some v ↔ (k, v) ∈ l := by
  apply Iff.intro
  · intro hv
    obtain ⟨l₁, l₂, heq, -⟩ := List.lookup_eq_some_iff.1 hv
    rw [heq]
    exact List.mem_append_right _ List.mem_cons_self
  · exact fun hmem => lookup_of_mem h hmem

theorem perm_others {k : κ} {v : β} (h : (l.map Prod.fst).Nodup) (hlookup : l.lookup k = some v) :
    l.Perm ((k, v) :: l.filter fun e => e.1 != k) := by
  induction l with
  | nil => cases hlookup
  | cons e l ih =>
    obtain ⟨k', v'⟩ := e
    rw [List.map_cons, List.nodup_cons] at h
    by_cases hk : k = k'
    · subst hk
      rw [List.lookup_cons_self, Option.some.injEq] at hlookup
      have hrest : (l.filter fun e => e.1 != k) = l := by
        rw [List.filter_eq_self]
        intro e he
        have hmem : e.1 ∈ l.map Prod.fst := List.mem_map_of_mem he
        have hne : e.1 ≠ k := fun heq => h.1 (heq ▸ hmem)
        simpa using hne
      rw [List.filter_cons, if_neg (by simp), hrest, hlookup]
    · have hkey : k' ≠ k := fun heq => hk heq.symm
      rw [List.lookup_cons, beq_false_of_ne hk] at hlookup
      rw [List.filter_cons, if_pos (by simpa using hkey)]
      exact ((ih h.2 hlookup).cons _).trans (.swap _ _ _)

/-- The entries of a map are what it looks up. -/
theorem perm_of_lookup (h : (l.map Prod.fst).Nodup) (h' : (l'.map Prod.fst).Nodup)
    (hlookup : ∀ k, l.lookup k = l'.lookup k) : l.Perm l' := by
  rw [List.perm_ext_iff_of_nodup (h.of_map _) (h'.of_map _)]
  rintro ⟨k, v⟩
  rw [← lookup_eq_some_iff h, ← lookup_eq_some_iff h', hlookup k]

theorem lookup_of_perm (h : (l.map Prod.fst).Nodup) (hperm : l.Perm l') (k : κ) :
    l.lookup k = l'.lookup k := by
  have h' : (l'.map Prod.fst).Nodup := ((hperm.map Prod.fst).nodup_iff).1 h
  refine Option.ext fun v => ?_
  rw [lookup_eq_some_iff h, lookup_eq_some_iff h', hperm.mem_iff]

/-- Sorted by key, a map has one writing. -/
theorem mergeSort_eq_of_perm (le : κ → κ → Bool) (htrans : ∀ a b c, le a b → le b c → le a c)
    (htotal : ∀ a b, le a b || le b a) (hantisymm : ∀ a b, le a b → le b a → a = b)
    (h : (l.map Prod.fst).Nodup) (hperm : l.Perm l') :
    l.mergeSort (fun a b => le a.1 b.1) = l'.mergeSort fun a b => le a.1 b.1 := by
  have hsorted (m : List (κ × β)) :
      (m.mergeSort fun a b => le a.1 b.1).Pairwise fun a b => le a.1 b.1 :=
    List.pairwise_mergeSort (fun a b c => htrans a.1 b.1 c.1) (fun a b => htotal a.1 b.1) m
  refine List.Perm.eq_of_pairwise ?_ (hsorted l) (hsorted l') ?_
  · intro a b ha hb hab hba
    have hkey : a.1 = b.1 := hantisymm _ _ hab hba
    have hva := lookup_of_mem h (List.mem_mergeSort.1 ha)
    have hvb := lookup_of_mem h (hperm.mem_iff.2 (List.mem_mergeSort.1 hb))
    rw [← hkey, hva, Option.some.injEq] at hvb
    exact Prod.ext hkey hvb
  · exact (List.mergeSort_perm l _).trans (hperm.trans (List.mergeSort_perm l' _).symm)

end Keyed
