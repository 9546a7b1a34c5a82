import Mathlib.Data.List.AList

/-! A hash map of a fixed capacity, as a kernel keeps it: an update of a present key always
succeeds, a new key is taken in only while there is room, and a stored value can be changed
in place. -/

structure BoundedMap (κ V : Type) where
  maxEntries : ℕ
  table : AList fun _ : κ => V
  fits : table.keys.length ≤ maxEntries

namespace BoundedMap

variable {κ V : Type}

def empty (maxEntries : ℕ) : BoundedMap κ V := ⟨maxEntries, ∅, Nat.zero_le maxEntries⟩

def size (m : BoundedMap κ V) : ℕ := m.table.keys.length

variable [DecidableEq κ]

def lookup (m : BoundedMap κ V) (k : κ) : Option V := m.table.lookup k

theorem fits_insert (m : BoundedMap κ V) {k : κ} (v : V)
    (h : k ∈ m.table ∨ m.size < m.maxEntries) :
    (m.table.insert k v).keys.length ≤ m.maxEntries := by
  have hfits := m.fits
  rw [AList.keys_insert, List.length_cons]
  rcases h with hk | hroom
  · have hlen := List.length_erase_of_mem (AList.mem_keys.1 hk)
    have hpos := List.length_pos_of_mem (AList.mem_keys.1 hk)
    omega
  · have hlen := List.length_erase_le (a := k) (l := m.table.keys)
    unfold size at hroom
    omega

/-- The entry of a key is written, unless the key is new and the map is full. -/
def update (m : BoundedMap κ V) (k : κ) (v : V) : BoundedMap κ V :=
  if h : k ∈ m.table ∨ m.size < m.maxEntries then
    ⟨m.maxEntries, m.table.insert k v, m.fits_insert v h⟩
  else m

/-- The entry of a key is written only where there is none. -/
def create (m : BoundedMap κ V) (k : κ) (v : V) : BoundedMap κ V :=
  if k ∈ m.table then m else m.update k v

def delete (m : BoundedMap κ V) (k : κ) : BoundedMap κ V where
  maxEntries := m.maxEntries
  table := m.table.erase k
  fits := by
    rw [AList.keys_erase]
    exact Nat.le_trans List.length_erase_le m.fits

def modify (m : BoundedMap κ V) (k : κ) (f : V → V) : BoundedMap κ V :=
  match m.lookup k with
  | some v => m.update k (f v)
  | none => m

variable {m : BoundedMap κ V} {k k' : κ} {v : V}

@[simp] theorem lookup_empty (maxEntries : ℕ) (k : κ) :
    (empty maxEntries : BoundedMap κ V).lookup k = none :=
  AList.lookup_empty k

theorem mem_table : k ∈ m.table ↔ (m.lookup k).isSome :=
  AList.lookup_isSome.symm

def Takes (m : BoundedMap κ V) (k : κ) : Prop := (m.lookup k).isSome ∨ m.size < m.maxEntries

theorem lookup_update (h : m.Takes k) :
    (m.update k v).lookup k' = if k' = k then some v else m.lookup k' := by
  have hroom : k ∈ m.table ∨ m.size < m.maxEntries := by
    rwa [mem_table]
  unfold update
  rw [dif_pos hroom]
  by_cases hk : k' = k
  · subst hk
    rw [if_pos rfl]
    exact AList.lookup_insert m.table
  · rw [if_neg hk]
    exact AList.lookup_insert_ne hk

theorem lookup_create (h : m.Takes k) :
    (m.create k v).lookup k' = if k' = k then some ((m.lookup k).getD v) else m.lookup k' := by
  unfold create
  by_cases hmem : k ∈ m.table
  · rw [if_pos hmem]
    obtain ⟨w, hw⟩ := Option.isSome_iff_exists.1 (mem_table.1 hmem)
    by_cases hk : k' = k
    · subst hk
      rw [if_pos rfl, hw]
      rfl
    · rw [if_neg hk]
  · rw [if_neg hmem, lookup_update h]
    have hnone : m.lookup k = none := AList.lookup_eq_none.2 hmem
    rw [hnone]
    rfl

theorem create_of_full (h : ¬ m.Takes k) : m.create k v = m := by
  have hroom : ¬ (k ∈ m.table ∨ m.size < m.maxEntries) := by
    rwa [mem_table]
  unfold create update
  rw [dif_neg hroom, ite_self]

theorem lookup_delete : (m.delete k).lookup k' = if k' = k then none else m.lookup k' := by
  by_cases hk : k' = k
  · subst hk
    rw [if_pos rfl]
    exact AList.lookup_erase k' m.table
  · rw [if_neg hk]
    exact AList.lookup_erase_ne hk

theorem lookup_modify {f : V → V} :
    (m.modify k f).lookup k' = if k' = k then (m.lookup k).map f else m.lookup k' := by
  unfold modify
  cases hk : m.lookup k with
  | none =>
    by_cases hk' : k' = k
    · subst hk'
      rw [if_pos rfl]
      exact hk
    · rw [if_neg hk']
  | some w =>
    have htakes : m.Takes k := Or.inl (by rw [hk]; rfl)
    exact lookup_update htakes

theorem modify_of_some {f : V → V} {w : V} (h : m.lookup k = some w) :
    (m.modify k f).lookup = Function.update m.lookup k (some (f w)) := by
  funext k'
  rw [lookup_modify, h, Function.update_apply]
  rfl

theorem create_of_none (h : m.lookup k = none) (hroom : m.size < m.maxEntries) :
    (m.create k v).lookup = Function.update m.lookup k (some v) := by
  funext k'
  rw [lookup_create (Or.inr hroom), h, Function.update_apply]
  rfl

theorem create_of_some {w : V} (h : m.lookup k = some w) :
    (m.create k v).lookup = m.lookup := by
  have hmem : k ∈ m.table := mem_table.2 (by rw [h]; rfl)
  rw [create, if_pos hmem]

theorem isSome_modify {f : V → V} (h : (m.lookup k').isSome) :
    ((m.modify k f).lookup k').isSome := by
  rw [lookup_modify]
  split_ifs with hk
  · rw [← hk, Option.isSome_map]
    exact h
  · exact h

theorem isSome_create (h : (m.lookup k').isSome) : ((m.create k v).lookup k').isSome := by
  by_cases htakes : m.Takes k
  · rw [lookup_create htakes]
    split_ifs
    · rfl
    · exact h
  · rwa [create_of_full htakes]

end BoundedMap
