import Mathlib.Data.Fintype.Basic
import Mathlib.Data.List.Basic
import Mathlib.Logic.Function.Basic

/-! Handlers that run a step at a time on many parties at once, each for an actor that no other
party has a handler of. What an actor asks for takes effect at a later step of its handler, so the
requests of different actors may take effect in another order than they came in; those of one actor
take effect in theirs. -/

namespace Handlers

variable {ι P τ W : Type}

def own [DecidableEq τ] (actor : W → τ) (t : τ) (ws : List W) : List W :=
  ws.filter (actor · = t)

/-- No two parties have a handler of one actor. -/
def Alone (actorOf : P → Option τ) (place : ι → P) : Prop :=
  ∀ i j t, actorOf (place i) = some t → actorOf (place j) = some t → i = j

instance [Fintype ι] [DecidableEq ι] [DecidableEq τ] (actorOf : P → Option τ) (place : ι → P) :
    Decidable (Alone actorOf place) :=
  decidable_of_iff (∀ i j, i ≠ j → actorOf (place i) = actorOf (place j) →
    actorOf (place i) = none) (by
      apply Iff.intro
      · intro h i j t hi hj
        by_contra hne
        rw [h i j hne (hi.trans hj.symm)] at hi
        cases hi
      · intro h i j hne heq
        cases hi : actorOf (place i) with
        | none => rfl
        | some t => exact absurd (h i j t hi (heq ▸ hi)) hne)

/-- What a party enters a handler of, no other party has one of, when none has afterwards. -/
theorem Alone.free [DecidableEq ι] {actorOf : P → Option τ} {place : ι → P} {i : ι} {p : P}
    {t : τ} (h : Alone actorOf (Function.update place i p)) (hp : actorOf p = some t)
    (hidle : actorOf (place i) = none) (j : ι) : actorOf (place j) ≠ some t := by
  intro hj
  by_cases hji : j = i
  · rw [hji, hidle] at hj
    cases hj
  · refine hji (h j i t ?_ ?_)
    · rwa [Function.update_of_ne hji]
    · rwa [Function.update_self]

section Own

variable [DecidableEq τ] {actor : W → τ} {t : τ}

theorem own_append (ws ws' : List W) :
    own actor t (ws ++ ws') = own actor t ws ++ own actor t ws' :=
  List.filter_append ..

theorem own_single (w : W) : own actor t [w] = if actor w = t then [w] else [] := by
  unfold own
  by_cases h : actor w = t
  · rw [if_pos h, List.filter_cons_of_pos (by simpa using h), List.filter_nil]
  · rw [if_neg h, List.filter_cons_of_neg (by simpa using h), List.filter_nil]

end Own

variable [DecidableEq τ] (actorOf : P → Option τ) (waiting : P → Option W) (actor : W → τ)

/-- What each actor asked for has taken effect in its order, up to the last that a party is in a
handler of. -/
structure Inv (place : ι → P) (did took : List W) : Prop where
  alone : Alone actorOf place
  heard : ∀ t, ∃ rest, own actor t took ++ rest = own actor t did ∧ rest.length ≤ 1 ∧
    ∀ w, w ∈ rest ↔ actor w = t ∧ ∃ i, waiting (place i) = some w

variable {actorOf waiting actor} {place : ι → P} {did took : List W}

theorem inv_start (hnone : ∀ i, actorOf (place i) = none) (hidle : ∀ i, waiting (place i) = none) :
    Inv actorOf waiting actor place [] [] where
  alone i j t h := by
    rw [hnone i] at h
    cases h
  heard t := by
    refine ⟨[], rfl, Nat.zero_le 1, fun w => iff_of_false List.not_mem_nil ?_⟩
    rintro ⟨_, i, hi⟩
    rw [hidle i] at hi
    cases hi

theorem Inv.settled (h : Inv actorOf waiting actor place did took)
    (hidle : ∀ i, waiting (place i) = none) (t : τ) : own actor t took = own actor t did := by
  obtain ⟨rest, hrest, -, hmem⟩ := h.heard t
  have hnil : rest = [] := by
    rw [List.eq_nil_iff_forall_not_mem]
    intro w hw
    obtain ⟨-, i, hi⟩ := (hmem w).1 hw
    rw [hidle i] at hi
    cases hi
  rwa [hnil, List.append_nil] at hrest

variable [DecidableEq ι] {i : ι} {p : P}
  (hactor : ∀ p w, waiting p = some w → actorOf p = some (actor w))

include hactor

/-- A party enters a handler of an actor that no party has one of. -/
theorem Inv.enter (h : Inv actorOf waiting actor place did took) {w : W}
    (hidle : waiting (place i) = none) (hfree : ∀ j, actorOf (place j) ≠ some (actor w))
    (hp : waiting p = some w) :
    Inv actorOf waiting actor (Function.update place i p) (did ++ [w]) took where
  alone j k t hj hk := by
    have hold {j : ι} (hj : actorOf (Function.update place i p j) = some t) :
        (j = i ∧ t = actor w) ∨ actorOf (place j) = some t := by
      by_cases hji : j = i
      · rw [hji, Function.update_self, hactor p w hp] at hj
        exact Or.inl ⟨hji, (Option.some.inj hj).symm⟩
      · rw [Function.update_of_ne hji] at hj
        exact Or.inr hj
    rcases hold hj with ⟨hji, hjt⟩ | hj'
    · rcases hold hk with ⟨hki, _⟩ | hk'
      · rw [hji, hki]
      · rw [hjt] at hk'
        exact absurd hk' (hfree k)
    · rcases hold hk with ⟨_, hkt⟩ | hk'
      · rw [hkt] at hj'
        exact absurd hj' (hfree j)
      · exact h.alone j k t hj' hk'
  heard t := by
    obtain ⟨rest, hrest, hlen, hmem⟩ := h.heard t
    have hwaiting (v : W) : (∃ j, waiting (Function.update place i p j) = some v) ↔
        v = w ∨ ∃ j, waiting (place j) = some v := by
      apply Iff.intro
      · rintro ⟨j, hj⟩
        by_cases hji : j = i
        · rw [hji, Function.update_self] at hj
          exact Or.inl (Option.some.inj (hj.symm.trans hp))
        · rw [Function.update_of_ne hji] at hj
          exact Or.inr ⟨j, hj⟩
      · rintro (rfl | ⟨j, hj⟩)
        · exact ⟨i, by rw [Function.update_self, hp]⟩
        · have hne : j ≠ i := by
            rintro rfl
            rw [hidle] at hj
            cases hj
          exact ⟨j, by rw [Function.update_of_ne hne, hj]⟩
    rw [own_append, own_single, ← hrest]
    by_cases ht : actor w = t
    · have hnil : rest = [] := by
        rw [List.eq_nil_iff_forall_not_mem]
        intro v hv
        obtain ⟨hvt, j, hj⟩ := (hmem v).1 hv
        exact hfree j (by rw [hactor _ _ hj, hvt, ht])
      rw [if_pos ht, hnil, List.append_nil]
      refine ⟨[w], rfl, Nat.le_refl 1, fun v => ?_⟩
      rw [hwaiting, List.mem_singleton]
      apply Iff.intro
      · rintro rfl
        exact ⟨ht, Or.inl rfl⟩
      · rintro ⟨hv, rfl | ⟨j, hj⟩⟩
        · rfl
        · exact absurd (by rw [hactor _ _ hj, hv, ht]) (hfree j)
    · rw [if_neg ht, List.append_nil]
      refine ⟨rest, rfl, hlen, fun v => ?_⟩
      rw [hmem, hwaiting]
      apply and_congr_right
      rintro rfl
      apply Iff.intro
      · exact Or.inr
      · rintro (rfl | h)
        · exact absurd rfl ht
        · exact h

/-- A party takes a step in its handler, at which what was waiting there takes effect. -/
theorem Inv.advance (h : Inv actorOf waiting actor place did took) (hp : waiting p = none)
    (hsame : ∀ t, actorOf p = some t → actorOf (place i) = some t) :
    Inv actorOf waiting actor (Function.update place i p) did
      (took ++ (waiting (place i)).toList) where
  alone j k t hj hk := by
    have hold {j : ι} (hj : actorOf (Function.update place i p j) = some t) :
        actorOf (place j) = some t := by
      by_cases hji : j = i
      · rw [hji, Function.update_self] at hj
        rw [hji]
        exact hsame t hj
      · rwa [Function.update_of_ne hji] at hj
    exact h.alone j k t (hold hj) (hold hk)
  heard t := by
    obtain ⟨rest, hrest, hlen, hmem⟩ := h.heard t
    have hwaiting (v : W) : (∃ j, waiting (Function.update place i p j) = some v) ↔
        ∃ j ≠ i, waiting (place j) = some v := by
      apply Iff.intro
      · rintro ⟨j, hj⟩
        by_cases hji : j = i
        · rw [hji, Function.update_self, hp] at hj
          cases hj
        · rw [Function.update_of_ne hji] at hj
          exact ⟨j, hji, hj⟩
      · rintro ⟨j, hne, hj⟩
        exact ⟨j, by rw [Function.update_of_ne hne, hj]⟩
    -- what another party waits with is what the party that takes the step does not
    have hothers {v : W} (hv : ∀ w, waiting (place i) = some w → v ≠ w) :
        (∃ j, waiting (place j) = some v) ↔ ∃ j ≠ i, waiting (place j) = some v := by
      apply Iff.intro
      · rintro ⟨j, hj⟩
        refine ⟨j, ?_, hj⟩
        rintro rfl
        exact hv v hj rfl
      · rintro ⟨j, _, hj⟩
        exact ⟨j, hj⟩
    cases hw : waiting (place i) with
    | none =>
      rw [Option.toList_none, List.append_nil]
      refine ⟨rest, hrest, hlen, fun v => ?_⟩
      rw [hmem, hwaiting, hothers]
      intro w hw'
      cases hw.symm.trans hw'
    | some w =>
      rw [Option.toList_some, own_append, own_single]
      by_cases ht : actor w = t
      · have hin : w ∈ rest := (hmem w).2 ⟨ht, i, hw⟩
        obtain rfl : rest = [w] := by
          obtain ⟨v, rfl⟩ := List.length_eq_one_iff.1
            (Nat.le_antisymm hlen (List.length_pos_of_mem hin))
          rw [List.mem_singleton.1 hin]
        rw [if_pos ht, hrest]
        refine ⟨[], List.append_nil _, Nat.zero_le 1, fun v => ?_⟩
        rw [hwaiting]
        refine iff_of_false List.not_mem_nil ?_
        rintro ⟨hv, j, hne, hj⟩
        apply hne
        apply h.alone j i t
        · rw [hactor _ _ hj, hv]
        · rw [hactor _ _ hw, ht]
      · rw [if_neg ht, List.append_nil]
        refine ⟨rest, hrest, hlen, fun v => ?_⟩
        rw [hmem, hwaiting]
        apply and_congr_right
        intro hv
        apply hothers
        rintro w' hw' rfl
        rw [hw] at hw'
        cases hw'
        exact ht hv

end Handlers
