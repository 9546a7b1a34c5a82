import Assayist.Lib.Accrual
import Assayist.Lib.Pairing

/-! Intervals measured through two shared maps of fixed capacities. What opens an interval of an
actor is stashed in one map; the close looks it up there, feeds what it makes of both to an entry of
the other, and then deletes the stash. The steps of the parties that handle the events mix in every
order; only, while one party handles a close of an actor, no other handles an event of it. -/

/-- The stash, the actor whose close each party handles, the entries that are fed, and the events
that were let in. -/
structure Stash (ι τ α κ V D ε : Type) where
  map : BoundedMap τ α
  owner : ι → Option τ
  feed : Accrual ι κ V D
  log : List ε

namespace Stash

open Pairing

variable {ι τ α κ V D ε ξ β : Type} [DecidableEq ι] [DecidableEq τ] [DecidableEq κ]
variable (act : D → V → V) (zero : V) (actor : ε → τ) (kind : ε → ξ ⊕ β) (store : ξ → α)
  (sample : τ → α → β → κ × List D)

/-- No party handles a close of the actor. -/
def Free (s : Stash ι τ α κ V D ε) (t : τ) : Prop := ∀ i, s.owner i ≠ some t

inductive Step : Stash ι τ α κ V D ε → Stash ι τ α κ V D ε → Prop
  | opened {s : Stash ι τ α κ V D ε} (e : ε) (x : ξ) (he : kind e = .inl x)
      (hfree : s.Free (actor e)) (htakes : s.map.Takes (actor e)) :
      Step s { s with map := s.map.update (actor e) (store x), log := s.log ++ [e] }
  | missed {s : Stash ι τ α κ V D ε} (e : ε) (y : β) (he : kind e = .inr y)
      (hfree : s.Free (actor e)) (hnone : s.map.lookup (actor e) = none) :
      Step s { s with log := s.log ++ [e] }
  | closed {s : Stash ι τ α κ V D ε} (i : ι) (e : ε) (y : β) (a : α) (he : kind e = .inr y)
      (hfree : s.Free (actor e)) (hsome : s.map.lookup (actor e) = some a)
      (howner : s.owner i = none) (hi : s.feed.phase i = .idle)
      (hds : (sample (actor e) a y).2 ≠ []) :
      Step s
        { s with
          owner := Function.update s.owner i (some (actor e))
          feed := { s.feed with
            phase := Function.update s.feed.phase i
              (.find (sample (actor e) a y).1 (sample (actor e) a y).2)
            begun := s.feed.begun ++
              (sample (actor e) a y).2.map ((sample (actor e) a y).1, ·) }
          log := s.log ++ [e] }
  | fed {s : Stash ι τ α κ V D ε} {feed : Accrual ι κ V D}
      (hmove : Accrual.Move act zero s.feed feed) : Step s { s with feed }
  | forgot {s : Stash ι τ α κ V D ε} (i : ι) (t : τ) (hi : s.owner i = some t) :
      Step s { s with map := s.map.delete t, owner := Function.update s.owner i none }

def fedBy (c : τ × ξ × β) : List (κ × D) :=
  (sample c.1 (store c.2.1) c.2.2).2.map ((sample c.1 (store c.2.1) c.2.2).1, ·)

variable [LeftCommutative act] [Fintype ι]

/-- The stash holds what each actor has open, but for one whose close is being handled, and the
entries were fed what was completed. -/
structure Kept (s : Stash ι τ α κ V D ε) : Prop where
  pending : ∀ t, s.Free t → s.map.lookup t = (pending actor kind t s.log).map store
  owned : ∀ i t, s.owner i = some t → Pairing.pending actor kind t s.log = none
  begun : s.feed.begun = (completed actor kind s.log).flatMap (fedBy store sample)
  fed : Accrual.Accounted act zero s.feed

variable {act zero actor kind store sample} {s s' : Stash ι τ α κ V D ε}

theorem completedBy_inl {evs : List ε} {e : ε} {x : ξ} (he : kind e = .inl x) :
    completedBy actor kind evs e = none := by
  rw [completedBy, he]

theorem completedBy_inr {evs : List ε} {e : ε} {y : β} (he : kind e = .inr y) :
    completedBy actor kind evs e =
      (Pairing.pending actor kind (actor e) evs).map fun x => (actor e, x, y) := by
  rw [completedBy, he]

theorem kept_step (h : Step act zero actor kind store sample s s')
    (hk : Kept act zero actor kind store sample s) :
    Kept act zero actor kind store sample s' := by
  have hopen (e : ε) (t : τ) (hne : actor e ≠ t) :
      Pairing.pending actor kind t (s.log ++ [e]) = Pairing.pending actor kind t s.log := by
    rw [pending_snoc, if_neg hne]
  cases h with
  | opened e x he hfree htakes =>
    refine ⟨fun t ht => ?_, fun i t hi => ?_, ?_, hk.fed⟩
    · dsimp only
      rw [BoundedMap.lookup_update htakes, pending_snoc, he]
      by_cases hte : actor e = t
      · rw [if_pos hte.symm, if_pos hte]
        rfl
      · rw [if_neg (Ne.symm hte), if_neg hte]
        exact hk.pending t ht
    · have hne : actor e ≠ t := fun hte => hfree i (hte ▸ hi)
      rw [hopen e t hne]
      exact hk.owned i t hi
    · rw [completed_snoc, completedBy_inl he, Option.toList_none, List.append_nil]
      exact hk.begun
  | missed e y he hfree hnone =>
    have hpend : Pairing.pending actor kind (actor e) s.log = none := by
      rw [hk.pending _ hfree] at hnone
      exact Option.map_eq_none_iff.1 hnone
    refine ⟨fun t ht => ?_, fun i t hi => ?_, ?_, hk.fed⟩
    · dsimp only
      by_cases hte : actor e = t
      · rw [pending_snoc, if_pos hte, he, ← hte]
        exact hnone
      · rw [hopen e t hte]
        exact hk.pending t ht
    · have hne : actor e ≠ t := fun hte => hfree i (hte ▸ hi)
      rw [hopen e t hne]
      exact hk.owned i t hi
    · rw [completed_snoc, completedBy_inr he, hpend, Option.map_none, Option.toList_none,
        List.append_nil]
      exact hk.begun
  | closed i e y a he hfree hsome howner hi hds =>
    obtain ⟨x, hpend, rfl⟩ : ∃ x, Pairing.pending actor kind (actor e) s.log = some x ∧
        store x = a := by
      rw [hk.pending _ hfree] at hsome
      exact Option.map_eq_some_iff.1 hsome
    have hclosed : Pairing.pending actor kind (actor e) (s.log ++ [e]) = none := by
      rw [pending_snoc, if_pos rfl, he]
      rfl
    refine ⟨fun t ht => ?_, fun j t hj => ?_, ?_, hk.fed.start hi hds⟩
    · dsimp only
      have hne : actor e ≠ t := by
        rintro rfl
        exact ht i (Function.update_self ..)
      rw [hopen e t hne]
      refine hk.pending t fun j hj => ?_
      by_cases hij : j = i
      · rw [hij, howner] at hj
        cases hj
      · exact ht j ((Function.update_of_ne hij ..).trans hj)
    · by_cases hte : actor e = t
      · rw [← hte]
        exact hclosed
      · rw [hopen e t hte]
        rcases of_update hj with ⟨_, ht⟩ | hj
        · exact absurd (Option.some.inj ht) hte
        · exact hk.owned j t hj
    · dsimp only
      rw [completed_snoc, completedBy_inr he, hpend, Option.map_some, Option.toList_some,
        List.flatMap_append, List.flatMap_singleton, hk.begun]
      rfl
  | fed hmove =>
    refine ⟨hk.pending, hk.owned, ?_, Accrual.accounted_move hmove hk.fed⟩
    rw [← hk.begun]
    cases hmove <;> rfl
  | forgot i t hi =>
    refine ⟨fun t' ht' => ?_, fun j t' hj => ?_, hk.begun, hk.fed⟩
    · dsimp only
      rw [BoundedMap.lookup_delete]
      by_cases htt : t' = t
      · rw [if_pos htt, htt, hk.owned i t hi]
        rfl
      · rw [if_neg htt]
        refine hk.pending t' fun j hj => ?_
        by_cases hij : j = i
        · rw [hij, hi] at hj
          exact htt (Option.some.inj hj).symm
        · exact ht' j ((Function.update_of_ne hij ..).trans hj)
    · rcases of_update hj with ⟨_, ht⟩ | hj
      · cases ht
      · exact hk.owned j t' hj

theorem kept_run (h : Relation.ReflTransGen (Step act zero actor kind store sample) s s')
    (hk : Kept act zero actor kind store sample s) :
    Kept act zero actor kind store sample s' := by
  induction h with
  | refl => exact hk
  | tail _ hstep ih => exact kept_step hstep ih

omit [LeftCommutative act] [Fintype ι] in
theorem maxEntries_run (h : Relation.ReflTransGen (Step act zero actor kind store sample) s s') :
    s'.feed.map.maxEntries = s.feed.map.maxEntries := by
  induction h with
  | refl => rfl
  | tail _ hstep ih =>
    rw [← ih]
    cases hstep with
    | fed hmove => exact Accrual.maxEntries_move hmove
    | _ => rfl

def parts (store : ξ → α) (sample : τ → α → β → κ × List D) (k : κ) (cs : List (τ × ξ × β)) :
    List D :=
  (cs.filter fun c => (sample c.1 (store c.2.1) c.2.2).1 = k).flatMap fun c =>
    (sample c.1 (store c.2.1) c.2.2).2

omit [DecidableEq τ] in
theorem amounts_fedBy (k : κ) (cs : List (τ × ξ × β)) :
    amounts k (cs.flatMap (fedBy store sample)) = (parts store sample k cs : Multiset D) := by
  induction cs with
  | nil => rfl
  | cons c cs ih =>
    rw [List.flatMap_cons, amounts_append, ih, fedBy, Accrual.amounts_map, parts, parts]
    by_cases h : (sample c.1 (store c.2.1) c.2.2).1 = k
    · rw [if_pos h.symm, List.filter_cons_of_pos (by simpa using h), List.flatMap_cons,
        ← Multiset.coe_add]
    · rw [if_neg (Ne.symm h), List.filter_cons_of_neg (by simpa using h), zero_add]

omit [DecidableEq ι] in
/-- When no party is at work, an entry was fed all the intervals of its key, or there is none and
the map is full if there was such an interval. -/
theorem Kept.settled (hk : Kept act zero actor kind store sample s)
    (hidle : ∀ i, s.feed.phase i = .idle) (k : κ) :
    (parts store sample k (completed actor kind s.log) ≠ [] ∧
        s.feed.map.lookup k =
          some ((parts store sample k (completed actor kind s.log)).foldr act zero)) ∨
      s.feed.map.lookup k = none ∧ (parts store sample k (completed actor kind s.log) = [] ∨
        s.feed.map.size = s.feed.map.maxEntries) := by
  have hbegun : amounts k s.feed.begun =
      (parts store sample k (completed actor kind s.log) : Multiset D) := by
    rw [hk.begun, amounts_fedBy]
  rcases hk.fed.settled hidle k with ⟨hne, _, hsome⟩ | ⟨hnone, _, hfull⟩
  · rw [hbegun] at hne hsome
    exact Or.inl ⟨fun h => hne (by rw [h]; rfl), hsome⟩
  · rw [hbegun] at hfull
    refine Or.inr ⟨hnone, ?_⟩
    by_cases h : parts store sample k (completed actor kind s.log) = []
    · exact Or.inl h
    · exact Or.inr (hfull fun hzero => h ((Multiset.coe_eq_zero _).1 hzero))

end Stash
