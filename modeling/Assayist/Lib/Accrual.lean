import Assayist.Lib.BoundedMap
import Assayist.Lib.Tally
import Mathlib.Data.Multiset.MapFold
import Mathlib.Logic.Relation

/-! Entries of a shared map of a fixed capacity that many parties feed. A party looks an entry up,
makes one of zero if there is none, looks it up again, and then changes it in place, a part at a
time; it gives up only if there is still no entry. The steps of the parties mix in every order.
Entries are never taken out, so a key is fed in full or not at all: no change is lost or made twice
at an entry that is there, and a key that has none was given up on every time, by a full map. -/

/-- What a party does next for a key, and the changes that it still has to make. -/
inductive Phase (κ D : Type) where
  | idle
  | find (k : κ) (ds : List D)
  | create (k : κ) (ds : List D)
  | again (k : κ) (ds : List D)
  | add (k : κ) (ds : List D)

/-- The map, where each party is, and what was begun and given up so far. -/
structure Accrual (ι κ V D : Type) where
  map : BoundedMap κ V
  phase : ι → Phase κ D
  begun : List (κ × D)
  dropped : List (κ × D)

namespace BoundedMap

variable {κ V : Type} [DecidableEq κ] {m : BoundedMap κ V} {k k' : κ} {v : V}

theorem isSome_create_self (h : m.Takes k) : ((m.create k v).lookup k).isSome := by
  rw [lookup_create h, if_pos rfl]
  rfl

theorem size_update_of_mem (h : k ∈ m.table) : (m.update k v).size = m.size := by
  have hlen := List.length_erase_of_mem (AList.mem_keys.1 h)
  have hpos := List.length_pos_of_mem (AList.mem_keys.1 h)
  unfold update
  rw [dif_pos (Or.inl h)]
  change (m.table.insert k v).keys.length = m.table.keys.length
  rw [AList.keys_insert, List.length_cons]
  omega

theorem maxEntries_update : (m.update k v).maxEntries = m.maxEntries := by
  unfold update
  split_ifs
  · rfl
  · rfl

theorem maxEntries_create : (m.create k v).maxEntries = m.maxEntries := by
  unfold create
  split_ifs
  · rfl
  · exact maxEntries_update

theorem maxEntries_modify {f : V → V} : (m.modify k f).maxEntries = m.maxEntries := by
  unfold modify
  cases m.lookup k with
  | none => rfl
  | some w => exact maxEntries_update

theorem takes_modify {f : V → V} : (m.modify k f).Takes k' ↔ m.Takes k' := by
  have hsize : (m.modify k f).size = m.size := by
    unfold modify
    cases hk : m.lookup k with
    | none => rfl
    | some w => exact size_update_of_mem (mem_table.2 (by rw [hk]; rfl))
  have hsome : ((m.modify k f).lookup k').isSome = (m.lookup k').isSome := by
    rw [lookup_modify]
    split_ifs with h
    · rw [h, Option.isSome_map]
    · rfl
  unfold Takes
  rw [hsize, maxEntries_modify, hsome]

omit [DecidableEq κ] in
theorem size_le : m.size ≤ m.maxEntries := m.fits

/-- A map does not take a key that it has not when it is full. -/
theorem not_takes_iff : ¬ m.Takes k ↔ m.lookup k = none ∧ m.size = m.maxEntries := by
  have hle := m.size_le
  unfold Takes
  rw [not_or, Option.not_isSome_iff_eq_none]
  apply and_congr_right
  intro _
  omega

/-- A map that is full for a key takes no other key in. -/
theorem create_of_other (h : ¬ m.Takes k) : m.create k' v = m := by
  by_cases htakes : m.Takes k'
  · have hmem : k' ∈ m.table := by
      rcases htakes with hsome | hroom
      · exact mem_table.2 hsome
      · exact absurd (Or.inr hroom) h
    rw [create, if_pos hmem]
  · exact create_of_full htakes

end BoundedMap

namespace Phase

variable {κ D : Type} {k : κ} {ds : List D}

def owed : Phase κ D → List (κ × D)
  | idle => []
  | find k ds | create k ds | again k ds | add k ds => ds.map (k, ·)

def key : Phase κ D → Option κ
  | idle => none
  | find k _ | create k _ | again k _ | add k _ => some k

def adding (k : κ) : List D → Phase κ D
  | [] => idle
  | d :: ds => add k (d :: ds)

@[simp] theorem owed_adding : (adding k ds).owed = ds.map (k, ·) := by
  cases ds with
  | nil => rfl
  | cons d ds => rfl

theorem key_adding {k' : κ} (h : (adding k ds).key = some k') : k = k' := by
  cases ds with
  | nil => cases h
  | cons d ds => exact Option.some.inj h

theorem of_adding_eq_add {k' : κ} {ds' : List D} (h : adding k ds = .add k' ds') : k = k' := by
  cases ds with
  | nil => cases h
  | cons d ds =>
    cases h
    rfl

theorem adding_ne_again {k' : κ} {ds' : List D} : adding k ds ≠ .again k' ds' := by
  cases ds with
  | nil => exact fun h => by cases h
  | cons d ds => exact fun h => by cases h

end Phase

theorem of_update {ι γ : Type} [DecidableEq ι] {f : ι → γ} {i j : ι} {p q : γ}
    (h : Function.update f i p j = q) : (j = i ∧ p = q) ∨ f j = q := by
  by_cases hij : j = i
  · subst hij
    rw [Function.update_self] at h
    exact Or.inl ⟨rfl, h⟩
  · rw [Function.update_of_ne hij] at h
    exact Or.inr h

namespace Accrual

variable {ι κ V D : Type} [DecidableEq κ]

theorem amounts_map (k k' : κ) (ds : List D) :
    amounts k' (ds.map (k, ·)) = if k' = k then (ds : Multiset D) else 0 := by
  unfold amounts
  rw [List.filter_map, List.map_map]
  by_cases h : k' = k
  · simp [h, Function.comp_def]
  · simp [h, Ne.symm h, Function.comp_def]

def due [Fintype ι] (phase : ι → Phase κ D) (k : κ) : Multiset D := ∑ i, amounts k (phase i).owed

section Due

variable [Fintype ι] {phase : ι → Phase κ D} {i : ι} {k : κ} {p : Phase κ D}

theorem due_idle (h : ∀ i, phase i = .idle) : due phase k = 0 := by
  refine Finset.sum_eq_zero fun i _ => ?_
  rw [h i]
  rfl

theorem due_update [DecidableEq ι] (phase : ι → Phase κ D) (i : ι) (k : κ) (p : Phase κ D) :
    due (Function.update phase i p) k + amounts k (phase i).owed =
      due phase k + amounts k p.owed := by
  have hrest : ∑ j ∈ Finset.univ.erase i, amounts k (Function.update phase i p j).owed =
      ∑ j ∈ Finset.univ.erase i, amounts k (phase j).owed := by
    refine Finset.sum_congr rfl fun j hj => ?_
    rw [Function.update_of_ne (Finset.ne_of_mem_erase hj)]
  have hi : i ∈ Finset.univ := Finset.mem_univ i
  rw [due, due, ← Finset.add_sum_erase _ _ hi, ← Finset.add_sum_erase _ _ hi, hrest,
    Function.update_self]
  ac_rfl

/-- A party that owes the same as before changes nothing in what is due. -/
theorem due_same [DecidableEq ι] (h : p.owed = (phase i).owed) :
    due (Function.update phase i p) k = due phase k := by
  have hdue := due_update phase i k p
  rw [h] at hdue
  exact add_right_cancel hdue

end Due

variable [DecidableEq ι] (act : D → V → V) (zero : V)

inductive Move : Accrual ι κ V D → Accrual ι κ V D → Prop
  | found {a : Accrual ι κ V D} (i : ι) (k : κ) (ds : List D) (h : a.phase i = .find k ds)
      (hk : (a.map.lookup k).isSome) :
      Move a { a with phase := Function.update a.phase i (.adding k ds) }
  | missing {a : Accrual ι κ V D} (i : ι) (k : κ) (ds : List D) (h : a.phase i = .find k ds)
      (hk : a.map.lookup k = none) :
      Move a { a with phase := Function.update a.phase i (.create k ds) }
  | create {a : Accrual ι κ V D} (i : ι) (k : κ) (ds : List D) (h : a.phase i = .create k ds) :
      Move a { a with map := a.map.create k zero
                      phase := Function.update a.phase i (.again k ds) }
  | retried {a : Accrual ι κ V D} (i : ι) (k : κ) (ds : List D) (h : a.phase i = .again k ds)
      (hk : (a.map.lookup k).isSome) :
      Move a { a with phase := Function.update a.phase i (.adding k ds) }
  | drop {a : Accrual ι κ V D} (i : ι) (k : κ) (ds : List D) (h : a.phase i = .again k ds)
      (hk : a.map.lookup k = none) :
      Move a { a with phase := Function.update a.phase i .idle
                      dropped := a.dropped ++ ds.map (k, ·) }
  | add {a : Accrual ι κ V D} (i : ι) (k : κ) (d : D) (ds : List D)
      (h : a.phase i = .add k (d :: ds)) :
      Move a { a with map := a.map.modify k (act d)
                      phase := Function.update a.phase i (.adding k ds) }

/-- One step of one party: it takes changes on, or works at them. -/
inductive Step : Accrual ι κ V D → Accrual ι κ V D → Prop
  | start {a : Accrual ι κ V D} (i : ι) (k : κ) (ds : List D) (h : a.phase i = .idle)
      (hds : ds ≠ []) :
      Step a { a with phase := Function.update a.phase i (.find k ds)
                      begun := a.begun ++ ds.map (k, ·) }
  | move {a b : Accrual ι κ V D} (h : Move act zero a b) : Step a b

variable [LeftCommutative act]

/-- An entry that these changes were made to, if there is one. -/
def Holds (o : Option V) (paid : Multiset D) : Prop :=
  (o = none ∧ paid = 0) ∨ o = some (paid.foldr act zero)

variable [Fintype ι]

/-- Every change that was begun was made once, is due, or was given up on; and it was given up on
only where the map is full without the key. -/
structure Accounted (a : Accrual ι κ V D) : Prop where
  balance : ∀ k, ∃ paid, paid + due a.phase k + amounts k a.dropped = amounts k a.begun ∧
    Holds act zero (a.map.lookup k) paid
  held : ∀ i k ds, a.phase i = .add k ds → (a.map.lookup k).isSome
  retried : ∀ i k ds, a.phase i = .again k ds → a.map.Takes k → (a.map.lookup k).isSome
  full : ∀ k, amounts k a.dropped ≠ 0 → ¬ a.map.Takes k
  busy : ∀ i k, (a.phase i).key = some k → amounts k a.begun ≠ 0
  opened : ∀ k, (a.map.lookup k).isSome → amounts k a.begun ≠ 0

variable {act zero} {a b : Accrual ι κ V D}

omit [DecidableEq ι] in
theorem accounted_start {map : BoundedMap κ V} {phase : ι → Phase κ D}
    (hmap : ∀ k, map.lookup k = none) (hphase : ∀ i, phase i = .idle) :
    Accounted act zero ⟨map, phase, [], []⟩ where
  balance k := ⟨0, by rw [due_idle hphase]; rfl, Or.inl ⟨hmap k, rfl⟩⟩
  held i k ds h := by cases (hphase i).symm.trans h
  retried i k ds h := by cases (hphase i).symm.trans h
  full k h := absurd rfl h
  busy i k h := by
    dsimp only at h
    rw [hphase i] at h
    cases h
  opened k h := by
    rw [hmap k] at h
    cases h

omit [DecidableEq κ] [Fintype ι] in
theorem key_of_update {phase : ι → Phase κ D} {i j : ι} {p : Phase κ D} {k : κ}
    (h : (Function.update phase i p j).key = some k) :
    p.key = some k ∨ (phase j).key = some k := by
  rw [Function.apply_update (fun _ => Phase.key)] at h
  rcases of_update h with ⟨_, hp⟩ | hj
  · exact Or.inl hp
  · exact Or.inr hj

omit [DecidableEq ι] [Fintype ι] in
theorem amounts_append_ne_zero {k : κ} {xs ys : List (κ × D)} (h : amounts k xs ≠ 0) :
    amounts k (xs ++ ys) ≠ 0 := by
  rw [amounts_append, ← Multiset.card_pos, Multiset.card_add]
  have hpos := Multiset.card_pos.2 h
  omega

theorem Accounted.look (h : Accounted act zero a) {i : ι} {p : Phase κ D}
    (howed : p.owed = (a.phase i).owed) (hkey : ∀ k, p.key = some k → (a.phase i).key = some k)
    (hadd : ∀ k ds, p = .add k ds → (a.map.lookup k).isSome)
    (hagain : ∀ k ds, p = .again k ds → a.map.Takes k → (a.map.lookup k).isSome) :
    Accounted act zero { a with phase := Function.update a.phase i p } where
  balance k := by
    rw [due_same howed]
    exact h.balance k
  held j k ds hj := by
    rcases of_update hj with ⟨_, hp⟩ | hj
    · exact hadd k ds hp
    · exact h.held j k ds hj
  retried j k ds hj := by
    rcases of_update hj with ⟨_, hp⟩ | hj
    · exact hagain k ds hp
    · exact h.retried j k ds hj
  full := h.full
  busy j k hj := by
    rcases key_of_update hj with hp | hj
    · exact h.busy i k (hkey k hp)
    · exact h.busy j k hj
  opened := h.opened

theorem Accounted.start (h : Accounted act zero a) {i : ι} {k : κ} {ds : List D}
    (hi : a.phase i = .idle) (hds : ds ≠ []) :
    Accounted act zero { a with phase := Function.update a.phase i (.find k ds)
                                begun := a.begun ++ ds.map (k, ·) } where
  balance k' := by
    obtain ⟨paid, hsum, hholds⟩ := h.balance k'
    have hdue := due_update a.phase i k' (.find k ds)
    rw [hi] at hdue
    change due _ k' + 0 = due a.phase k' + amounts k' (ds.map (k, ·)) at hdue
    refine ⟨paid, ?_, hholds⟩
    rw [amounts_append, ← hsum, ← add_zero (due _ k'), hdue]
    ac_rfl
  held j k' ds' hj := by
    rcases of_update hj with ⟨_, hp⟩ | hj
    · cases hp
    · exact h.held j k' ds' hj
  retried j k' ds' hj := by
    rcases of_update hj with ⟨_, hp⟩ | hj
    · cases hp
    · exact h.retried j k' ds' hj
  full := h.full
  busy j k' hj := by
    rcases key_of_update hj with hp | hj
    · cases hp
      rw [amounts_append, amounts_map, if_pos rfl, ← Multiset.card_pos, Multiset.card_add]
      have hpos := List.length_pos_iff.2 hds
      rw [Multiset.coe_card]
      omega
    · exact amounts_append_ne_zero (h.busy j k' hj)
  opened k' hk' := amounts_append_ne_zero (h.opened k' hk')

omit [DecidableEq ι] in
/-- An entry of zero that is made for a key holds what the missing entry held. -/
theorem Accounted.create (h : Accounted act zero a) {k : κ} (hbegun : amounts k a.begun ≠ 0) :
    Accounted act zero { a with map := a.map.create k zero } where
  balance k' := by
    obtain ⟨paid, hsum, hholds⟩ := h.balance k'
    refine ⟨paid, hsum, ?_⟩
    dsimp only
    by_cases htakes : a.map.Takes k
    · rw [BoundedMap.lookup_create htakes]
      split_ifs with hk
      · subst hk
        right
        rcases hholds with ⟨hnone, rfl⟩ | hsome
        · rw [hnone]
          rfl
        · rw [hsome]
          rfl
      · exact hholds
    · rwa [BoundedMap.create_of_full htakes]
  held i k' ds hi := BoundedMap.isSome_create (h.held i k' ds hi)
  retried i k' ds hi htakes' := by
    by_cases htakes : a.map.Takes k'
    · exact BoundedMap.isSome_create (h.retried i k' ds hi htakes)
    · dsimp only at htakes'
      rw [BoundedMap.create_of_other htakes] at htakes'
      exact absurd htakes' htakes
  full k' hk' := by
    dsimp only
    rw [BoundedMap.create_of_other (h.full k' hk')]
    exact h.full k' hk'
  busy := h.busy
  opened k' hk' := by
    dsimp only at hk'
    by_cases htakes : a.map.Takes k
    · rw [BoundedMap.lookup_create htakes] at hk'
      split_ifs at hk' with hkk
      · rwa [hkk]
      · exact h.opened k' hk'
    · rw [BoundedMap.create_of_full htakes] at hk'
      exact h.opened k' hk'

theorem Accounted.drop (h : Accounted act zero a) {i : ι} {k : κ} {ds : List D}
    (hi : a.phase i = .again k ds) (hk : a.map.lookup k = none) :
    Accounted act zero { a with phase := Function.update a.phase i .idle
                                dropped := a.dropped ++ ds.map (k, ·) } where
  balance k' := by
    obtain ⟨paid, hsum, hholds⟩ := h.balance k'
    have hdue := due_update a.phase i k' .idle
    rw [hi] at hdue
    change due _ k' + amounts k' (ds.map (k, ·)) = due a.phase k' + 0 at hdue
    refine ⟨paid, ?_, hholds⟩
    rw [amounts_append, ← hsum, ← add_zero (due a.phase k'), ← hdue]
    ac_rfl
  held j k' ds' hj := by
    rcases of_update hj with ⟨_, hp⟩ | hj
    · cases hp
    · exact h.held j k' ds' hj
  retried j k' ds' hj := by
    rcases of_update hj with ⟨_, hp⟩ | hj
    · cases hp
    · exact h.retried j k' ds' hj
  full k' hk' := by
    dsimp only at hk' ⊢
    rw [amounts_append, amounts_map] at hk'
    by_cases hkk : k' = k
    · subst hkk
      intro htakes
      have hsome := h.retried i k' ds hi htakes
      rw [hk] at hsome
      cases hsome
    · rw [if_neg hkk, add_zero] at hk'
      exact h.full k' hk'
  busy j k' hj := by
    rcases key_of_update hj with hp | hj
    · cases hp
    · exact h.busy j k' hj
  opened := h.opened

/-- A change is made to an entry that is there. -/
theorem Accounted.add (h : Accounted act zero a) {i : ι} {k : κ} {d : D} {ds : List D}
    (hi : a.phase i = .add k (d :: ds)) :
    Accounted act zero { a with map := a.map.modify k (act d)
                                phase := Function.update a.phase i (.adding k ds) } where
  balance k' := by
    obtain ⟨paid, hsum, hholds⟩ := h.balance k'
    have hdue := due_update a.phase i k' (.adding k ds)
    rw [hi, Phase.owed_adding, amounts_map] at hdue
    change due _ k' + amounts k' ((d :: ds).map (k, ·)) = _ at hdue
    rw [amounts_map] at hdue
    dsimp only
    rw [BoundedMap.lookup_modify]
    by_cases hkk : k' = k
    · subst hkk
      rw [if_pos rfl, if_pos rfl, ← Multiset.cons_coe, ← Multiset.singleton_add, ← add_assoc]
        at hdue
      rw [if_pos rfl]
      refine ⟨d ::ₘ paid, ?_, ?_⟩
      · rw [← hsum, ← add_right_cancel hdue, ← Multiset.singleton_add]
        ac_rfl
      · right
        rcases hholds with ⟨hnone, _⟩ | hsome
        · have hheld := h.held i k' _ hi
          rw [hnone] at hheld
          cases hheld
        · rw [hsome, Multiset.foldr_cons]
          rfl
    · rw [if_neg hkk, if_neg hkk, add_zero, add_zero] at hdue
      rw [if_neg hkk, hdue]
      exact ⟨paid, hsum, hholds⟩
  held j k' ds' hj := by
    apply BoundedMap.isSome_modify
    rcases of_update hj with ⟨_, hp⟩ | hj
    · rw [← Phase.of_adding_eq_add hp]
      exact h.held i k _ hi
    · exact h.held j k' ds' hj
  retried j k' ds' hj htakes := by
    apply BoundedMap.isSome_modify
    rcases of_update hj with ⟨_, hp⟩ | hj
    · exact absurd hp Phase.adding_ne_again
    · exact h.retried j k' ds' hj (BoundedMap.takes_modify.1 htakes)
  full k' hk' := by
    dsimp only at hk' ⊢
    rw [BoundedMap.takes_modify]
    exact h.full k' hk'
  busy j k' hj := by
    rcases key_of_update hj with hp | hj
    · rw [← Phase.key_adding hp]
      exact h.busy i k (by rw [hi]; rfl)
    · exact h.busy j k' hj
  opened k' hk' := by
    dsimp only at hk'
    rw [BoundedMap.lookup_modify] at hk'
    split_ifs at hk' with hkk
    · rw [hkk]
      exact h.busy i k (by rw [hi]; rfl)
    · exact h.opened k' hk'

theorem accounted_move (hmove : Move act zero a b) (h : Accounted act zero a) :
    Accounted act zero b := by
  have hadding {k : κ} {ds : List D} (hk : (a.map.lookup k).isSome) (k' : κ) (ds' : List D)
      (hp : Phase.adding k ds = .add k' ds') : (a.map.lookup k').isSome := by
    rwa [← Phase.of_adding_eq_add hp]
  cases hmove with
  | found i k ds hi hk =>
    apply h.look _ _ (hadding hk)
    · exact fun k' ds' hp => absurd hp Phase.adding_ne_again
    · rw [hi, Phase.owed_adding]
      rfl
    · rw [hi]
      exact fun k' hk' => congrArg some (Phase.key_adding hk')
  | missing i k ds hi hk =>
    apply h.look
    · rw [hi]
      rfl
    · rw [hi]
      exact fun k' hk' => hk'
    · exact fun k' ds' hp => by cases hp
    · exact fun k' ds' hp => by cases hp
  | create i k ds hi =>
    apply (h.create (h.busy i k (by rw [hi]; rfl))).look
    · dsimp only
      rw [hi]
      rfl
    · dsimp only
      rw [hi]
      exact fun k' hk' => hk'
    · exact fun k' ds' hp => by cases hp
    · rintro k' ds' hp htakes
      cases hp
      by_cases hroom : a.map.Takes k
      · exact BoundedMap.isSome_create_self hroom
      · dsimp only at htakes
        rw [BoundedMap.create_of_full hroom] at htakes
        exact absurd htakes hroom
  | retried i k ds hi hk =>
    apply h.look _ _ (hadding hk)
    · exact fun k' ds' hp => absurd hp Phase.adding_ne_again
    · rw [hi, Phase.owed_adding]
      rfl
    · rw [hi]
      exact fun k' hk' => congrArg some (Phase.key_adding hk')
  | drop i k ds hi hk => exact h.drop hi hk
  | add i k d ds hi => exact h.add hi

theorem accounted_step (hstep : Step act zero a b) (h : Accounted act zero a) :
    Accounted act zero b := by
  cases hstep with
  | start i k ds hi hds => exact h.start hi hds
  | move hmove => exact accounted_move hmove h

theorem accounted_run (hrun : Relation.ReflTransGen (Step act zero) a b)
    (h : Accounted act zero a) : Accounted act zero b := by
  induction hrun with
  | refl => exact h
  | tail _ hstep ih => exact accounted_step hstep ih

omit [LeftCommutative act] [Fintype ι] in
theorem maxEntries_move (hmove : Move act zero a b) : b.map.maxEntries = a.map.maxEntries := by
  cases hmove with
  | create => exact BoundedMap.maxEntries_create
  | add => exact BoundedMap.maxEntries_modify
  | _ => rfl

omit [LeftCommutative act] [Fintype ι] in
theorem maxEntries_run (hrun : Relation.ReflTransGen (Step act zero) a b) :
    b.map.maxEntries = a.map.maxEntries := by
  induction hrun with
  | refl => rfl
  | tail _ hstep ih =>
    rw [← ih]
    cases hstep with
    | start => rfl
    | move hmove => exact maxEntries_move hmove

omit [DecidableEq ι] in
/-- When no party is at work, a key was fed everything that was begun for it, or nothing. -/
theorem Accounted.settled (h : Accounted act zero a) (hidle : ∀ i, a.phase i = .idle) (k : κ) :
    (amounts k a.begun ≠ 0 ∧ amounts k a.dropped = 0 ∧
        a.map.lookup k = some ((amounts k a.begun).foldr act zero)) ∨
      a.map.lookup k = none ∧ amounts k a.dropped = amounts k a.begun ∧
        (amounts k a.begun ≠ 0 → a.map.size = a.map.maxEntries) := by
  obtain ⟨paid, hsum, hholds⟩ := h.balance k
  rw [due_idle hidle, add_zero] at hsum
  rcases hholds with ⟨hnone, rfl⟩ | hsome
  · rw [zero_add] at hsum
    refine Or.inr ⟨hnone, hsum, fun hbegun => ?_⟩
    rw [← hsum] at hbegun
    exact (BoundedMap.not_takes_iff.1 (h.full k hbegun)).2
  · have hthere : (a.map.lookup k).isSome := by
      rw [hsome]
      rfl
    have hzero : amounts k a.dropped = 0 := by
      by_contra hdropped
      exact h.full k hdropped (Or.inl hthere)
    rw [hzero, add_zero] at hsum
    refine Or.inl ⟨h.opened k hthere, hzero, ?_⟩
    rw [← hsum]
    exact hsome

end Accrual
