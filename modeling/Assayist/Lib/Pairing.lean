import Mathlib.Data.Set.Card
import Mathlib.Data.List.Count

/-! Events of several actors in one sequence, each of which either opens something or closes.
A close completes what its actor opened last, provided the actor did nothing since. Which
openings are completed, and by what, depends on each actor's own events only. -/

namespace Pairing

variable {ε τ α β : Type} [DecidableEq τ] (actor : ε → τ) (kind : ε → α ⊕ β)

def last (t : τ) (evs : List ε) : Option ε := (evs.filter fun e => actor e = t).getLast?

/-- What an actor has open: its last event, if that opens something. -/
def pending (t : τ) (evs : List ε) : Option α :=
  (last actor t evs).bind fun e => (kind e).getLeft?

/-- What an event completes after a sequence: the actor, what it had open and the close. -/
def completedBy (evs : List ε) (e : ε) : Option (τ × α × β) :=
  match kind e with
  | .inl _ => none
  | .inr y => (pending actor kind (actor e) evs).map fun x => (actor e, x, y)

def completed (evs : List ε) : List (τ × α × β) :=
  (List.range evs.length).filterMap fun j =>
    evs[j]?.bind (completedBy actor kind (evs.take j))

/-- The `j`-th event closes what the `i`-th opened: both are of one actor, which has no event
between them. -/
structure Pairs (evs : List ε) (i j : ℕ) (c : τ × α × β) : Prop where
  opens : ∃ e, evs[i]? = some e ∧ actor e = c.1 ∧ kind e = .inl c.2.1
  closes : ∃ e, evs[j]? = some e ∧ actor e = c.1 ∧ kind e = .inr c.2.2
  before : i < j
  next : ∀ k, i < k → k < j → ∀ e, evs[k]? = some e → actor e ≠ c.1

variable {actor kind} {evs : List ε} {e : ε} {t : τ}

section Snoc

theorem last_snoc :
    last actor t (evs ++ [e]) = if actor e = t then some e else last actor t evs := by
  unfold last
  rw [List.filter_append]
  by_cases h : actor e = t
  · simp [h]
  · simp [h]

theorem pending_snoc :
    pending actor kind t (evs ++ [e]) =
      if actor e = t then (kind e).getLeft? else pending actor kind t evs := by
  unfold pending
  rw [last_snoc]
  by_cases h : actor e = t
  · simp [h]
  · simp [h]

theorem completed_snoc :
    completed actor kind (evs ++ [e]) =
      completed actor kind evs ++ (completedBy actor kind evs e).toList := by
  unfold completed
  rw [List.length_append, List.length_singleton, List.range_succ, List.filterMap_append]
  congr 1
  · apply List.filterMap_congr
    intro j hj
    have hlt := List.mem_range.1 hj
    rw [List.getElem?_append_left hlt, List.take_append_of_le_length hlt.le]
  · rw [List.filterMap_cons, List.filterMap_nil, List.getElem?_concat_length,
      List.take_left, Option.bind_some]
    cases completedBy actor kind evs e with
    | none => rfl
    | some c => rfl

theorem completedBy_actor {c : τ × α × β} (h : completedBy actor kind evs e = some c) :
    c.1 = actor e := by
  unfold completedBy at h
  cases hkind : kind e with
  | inl x => simp [hkind] at h
  | inr y =>
    rw [hkind] at h
    obtain ⟨x, _, rfl⟩ := Option.map_eq_some_iff.1 h
    rfl

end Snoc

section Projection

theorem pending_own : pending actor kind t (evs.filter fun e => actor e = t) =
    pending actor kind t evs := by
  unfold pending last
  rw [List.filter_filter]
  simp only [Bool.and_self]

/-- What an actor's events complete is what they complete alone. -/
theorem completed_own :
    (completed actor kind evs).filter (fun c => c.1 = t) =
      completed actor kind (evs.filter fun e => actor e = t) := by
  induction evs using List.reverseRecOn with
  | nil => rfl
  | append_singleton evs e ih =>
    rw [completed_snoc, List.filter_append, List.filter_append, ih]
    by_cases h : actor e = t
    · have hown : [e].filter (fun e => actor e = t) = [e] := by simp [h]
      have hsame : completedBy actor kind (evs.filter fun e => actor e = t) e =
          completedBy actor kind evs e := by
        unfold completedBy
        rw [h, pending_own]
      rw [hown, completed_snoc, hsame]
      congr 1
      rw [List.filter_eq_self]
      intro c hc
      rw [completedBy_actor (Option.mem_toList.1 hc), h, decide_eq_true rfl]
    · have hown : [e].filter (fun e => actor e = t) = [] := by simp [h]
      have hother : (completedBy actor kind evs e).toList.filter (fun c => c.1 = t) = [] := by
        rw [List.filter_eq_nil_iff]
        intro c hc
        rw [completedBy_actor (Option.mem_toList.1 hc), decide_eq_true_eq]
        exact h
      rw [hown, hother, List.append_nil, List.append_nil]

/-- Sequences in which every actor does the same complete the same, up to order. -/
theorem completed_perm {evs' : List ε}
    (h : ∀ t, evs.filter (fun e => actor e = t) = evs'.filter fun e => actor e = t) :
    (completed actor kind evs).Perm (completed actor kind evs') := by
  classical
  rw [List.perm_iff_count]
  intro c
  have hown (xs : List (τ × α × β)) : xs.count c = (xs.filter fun d => d.1 = c.1).count c := by
    rw [List.count_filter]
    simp
  rw [hown, hown (completed actor kind evs'), completed_own, completed_own, h c.1]

end Projection

section Pairs

theorem lt_of_getElem? {k : ℕ} {d : ε} (h : evs[k]? = some d) : k < evs.length := by
  obtain ⟨hk, _⟩ := List.getElem?_eq_some_iff.1 h
  exact hk

theorem getElem?_snoc {k : ℕ} {d : ε} :
    (evs ++ [e])[k]? = some d ↔ evs[k]? = some d ∨ (k = evs.length ∧ d = e) := by
  rcases Nat.lt_trichotomy k evs.length with hk | rfl | hk
  · rw [List.getElem?_append_left hk]
    simp [hk.ne]
  · rw [List.getElem?_concat_length, List.getElem?_eq_none (Nat.le_refl evs.length)]
    simp [eq_comm]
  · rw [List.getElem?_eq_none hk.le, List.getElem?_eq_none (by simpa using hk)]
    simp [hk.ne']

/-- What an actor has open was opened by its last event. -/
theorem pending_eq_some {x : α} :
    pending actor kind t evs = some x ↔
      ∃ i : ℕ, (∃ d, evs[i]? = some d ∧ actor d = t ∧ kind d = .inl x) ∧
        ∀ k : ℕ, i < k → ∀ d, evs[k]? = some d → actor d ≠ t := by
  induction evs using List.reverseRecOn with
  | nil => simp [pending, last]
  | append_singleton evs e ih =>
    rw [pending_snoc]
    by_cases h : actor e = t
    · rw [if_pos h, Sum.getLeft?_eq_some_iff]
      apply Iff.intro
      · intro hx
        refine ⟨evs.length, ⟨e, getElem?_snoc.2 (Or.inr ⟨rfl, rfl⟩), h, hx⟩, ?_⟩
        intro k hk d hd
        rcases getElem?_snoc.1 hd with hd | ⟨rfl, _⟩
        · have hlt := lt_of_getElem? hd
          omega
        · omega
      · intro hx
        obtain ⟨i, ⟨d, hd, _, hkind⟩, hlast⟩ := hx
        rcases getElem?_snoc.1 hd with hd | ⟨_, rfl⟩
        · exact absurd h (hlast evs.length (lt_of_getElem? hd) e (getElem?_snoc.2 (Or.inr ⟨rfl, rfl⟩)))
        · exact hkind
    · rw [if_neg h, ih]
      apply Iff.intro
      · intro hx
        obtain ⟨i, ⟨d, hd, hactor, hkind⟩, hlast⟩ := hx
        refine ⟨i, ⟨d, getElem?_snoc.2 (Or.inl hd), hactor, hkind⟩, ?_⟩
        intro k hk d' hd'
        rcases getElem?_snoc.1 hd' with hd' | ⟨_, rfl⟩
        · exact hlast k hk d' hd'
        · exact h
      · intro hx
        obtain ⟨i, ⟨d, hd, hactor, hkind⟩, hlast⟩ := hx
        rcases getElem?_snoc.1 hd with hd | ⟨_, rfl⟩
        · refine ⟨i, ⟨d, hd, hactor, hkind⟩, ?_⟩
          intro k hk d' hd'
          exact hlast k hk d' (getElem?_snoc.2 (Or.inl hd'))
        · exact absurd hactor h

variable {c c' : τ × α × β}

omit [DecidableEq τ] in
/-- A pair of a longer sequence lies in the shorter one, or its close is the new event. -/
theorem pairs_snoc {i j : ℕ} :
    Pairs actor kind (evs ++ [e]) i j c ↔
      Pairs actor kind evs i j c ∨
        (j = evs.length ∧ actor e = c.1 ∧ kind e = .inr c.2.2 ∧
          (∃ d, evs[i]? = some d ∧ actor d = c.1 ∧ kind d = .inl c.2.1) ∧
          ∀ k, i < k → ∀ d, evs[k]? = some d → actor d ≠ c.1) := by
  apply Iff.intro
  · intro h
    obtain ⟨⟨d, hd, hactor, hkind⟩, ⟨d', hd', hactor', hkind'⟩, hlt, hnext⟩ := h
    rcases getElem?_snoc.1 hd' with hd' | ⟨rfl, rfl⟩
    · left
      have hj := lt_of_getElem? hd'
      rcases getElem?_snoc.1 hd with hd | ⟨rfl, _⟩
      · refine ⟨⟨d, hd, hactor, hkind⟩, ⟨d', hd', hactor', hkind'⟩, hlt, ?_⟩
        intro k hik hkj f hf
        exact hnext k hik hkj f (getElem?_snoc.2 (Or.inl hf))
      · omega
    · right
      rcases getElem?_snoc.1 hd with hd | ⟨rfl, _⟩
      · refine ⟨rfl, hactor', hkind', ⟨d, hd, hactor, hkind⟩, ?_⟩
        intro k hik f hf
        exact hnext k hik (lt_of_getElem? hf) f (getElem?_snoc.2 (Or.inl hf))
      · omega
  · rintro (h | ⟨rfl, hactor', hkind', ⟨d, hd, hactor, hkind⟩, hnext⟩)
    · obtain ⟨⟨d, hd, hactor, hkind⟩, ⟨d', hd', hactor', hkind'⟩, hlt, hnext⟩ := h
      refine ⟨⟨d, getElem?_snoc.2 (Or.inl hd), hactor, hkind⟩,
        ⟨d', getElem?_snoc.2 (Or.inl hd'), hactor', hkind'⟩, hlt, ?_⟩
      intro k hik hkj f hf
      rcases getElem?_snoc.1 hf with hf | ⟨rfl, _⟩
      · exact hnext k hik hkj f hf
      · have hj := lt_of_getElem? hd'
        omega
    · refine ⟨⟨d, getElem?_snoc.2 (Or.inl hd), hactor, hkind⟩,
        ⟨e, getElem?_snoc.2 (Or.inr ⟨rfl, rfl⟩), hactor', hkind'⟩, lt_of_getElem? hd, ?_⟩
      intro k hik hkj f hf
      rcases getElem?_snoc.1 hf with hf | ⟨rfl, _⟩
      · exact hnext k hik f hf
      · omega

theorem completedBy_eq_some :
    completedBy actor kind evs e = some c ↔
      ∃ i, Pairs actor kind (evs ++ [e]) i evs.length c := by
  have hpair {i : ℕ} : Pairs actor kind (evs ++ [e]) i evs.length c ↔
      actor e = c.1 ∧ kind e = .inr c.2.2 ∧
        (∃ d, evs[i]? = some d ∧ actor d = c.1 ∧ kind d = .inl c.2.1) ∧
        ∀ k, i < k → ∀ d, evs[k]? = some d → actor d ≠ c.1 := by
    rw [pairs_snoc]
    apply Iff.intro
    · rintro (h | ⟨_, h⟩)
      · obtain ⟨d, hd, _⟩ := h.closes
        exact absurd (lt_of_getElem? hd) (Nat.lt_irrefl _)
      · exact h
    · intro h
      exact Or.inr ⟨rfl, h⟩
  simp only [hpair]
  unfold completedBy
  cases hkind : kind e with
  | inl x => simp
  | inr y =>
    simp only [Option.map_eq_some_iff, pending_eq_some]
    apply Iff.intro
    · intro h
      obtain ⟨x, ⟨i, hopen, hnext⟩, rfl⟩ := h
      exact ⟨i, rfl, rfl, hopen, hnext⟩
    · intro h
      obtain ⟨i, hactor, hy, hopen, hnext⟩ := h
      obtain ⟨t, x, z⟩ := c
      obtain rfl := hactor
      rw [Sum.inr.injEq] at hy
      exact ⟨x, ⟨i, hopen, hnext⟩, by rw [hy]⟩

omit [DecidableEq τ] in
/-- Each opening is completed at most once. -/
theorem Pairs.close_unique {i j j' : ℕ} (h : Pairs actor kind evs i j c)
    (h' : Pairs actor kind evs i j' c') : j = j' := by
  obtain ⟨d, hd, hactor, _⟩ := h.opens
  obtain ⟨d', hd', hactor', _⟩ := h'.opens
  obtain ⟨f, hf, hfactor, _⟩ := h.closes
  obtain ⟨f', hf', hfactor', _⟩ := h'.closes
  rw [hd, Option.some.injEq] at hd'
  have hsame : c.1 = c'.1 := by rw [← hactor, ← hactor', hd']
  rcases Nat.lt_trichotomy j j' with hlt | heq | hlt
  · exact absurd (hfactor.trans hsame) (h'.next j h.before hlt f hf)
  · exact heq
  · exact absurd (hfactor'.trans hsame.symm) (h.next j' h'.before hlt f' hf')

omit [DecidableEq τ] in
/-- Each close completes at most one opening. -/
theorem Pairs.open_unique {i i' j : ℕ} (h : Pairs actor kind evs i j c)
    (h' : Pairs actor kind evs i' j c') : i = i' := by
  obtain ⟨d, hd, hactor, _⟩ := h.opens
  obtain ⟨d', hd', hactor', _⟩ := h'.opens
  obtain ⟨f, hf, hfactor, _⟩ := h.closes
  obtain ⟨f', hf', hfactor', _⟩ := h'.closes
  rw [hf, Option.some.injEq] at hf'
  have hsame : c.1 = c'.1 := by rw [← hfactor, ← hfactor', hf']
  rcases Nat.lt_trichotomy i i' with hlt | heq | hlt
  · exact absurd (hactor'.trans hsame.symm) (h.next i' hlt h'.before d' hd')
  · exact heq
  · exact absurd (hactor.trans hsame) (h'.next i hlt h.before d hd)

/-- What a sequence completes is what its pairs complete. -/
theorem mem_completed : c ∈ completed actor kind evs ↔ ∃ i j, Pairs actor kind evs i j c := by
  induction evs using List.reverseRecOn with
  | nil =>
    apply iff_of_false
    · exact List.not_mem_nil
    · intro h
      obtain ⟨i, j, h⟩ := h
      obtain ⟨d, hd, _⟩ := h.opens
      cases hd
  | append_singleton evs e ih =>
    rw [completed_snoc, List.mem_append, ih, Option.mem_toList, completedBy_eq_some]
    apply Iff.intro
    · rintro (⟨i, j, h⟩ | ⟨i, h⟩)
      · exact ⟨i, j, pairs_snoc.2 (Or.inl h)⟩
      · exact ⟨i, evs.length, h⟩
    · intro h
      obtain ⟨i, j, h⟩ := h
      rcases pairs_snoc.1 h with hold | ⟨rfl, _⟩
      · exact Or.inl ⟨i, j, hold⟩
      · exact Or.inr ⟨i, h⟩

end Pairs

section Count

variable (p : τ × α × β → Prop)

def pairsWith (actor : ε → τ) (kind : ε → α ⊕ β) (evs : List ε) : Set (ℕ × ℕ) :=
  {q | ∃ c, Pairs actor kind evs q.1 q.2 c ∧ p c}

omit [DecidableEq τ] in
theorem pairsWith_finite : (pairsWith p actor kind evs).Finite := by
  apply ((Set.finite_lt_nat evs.length).prod (Set.finite_lt_nat evs.length)).subset
  intro q hq
  obtain ⟨c, hpairs, _⟩ := hq
  obtain ⟨d, hd, _⟩ := hpairs.opens
  obtain ⟨f, hf, _⟩ := hpairs.closes
  exact ⟨lt_of_getElem? hd, lt_of_getElem? hf⟩

/-- A new event adds the pair it closes, if what it completes has the property. -/
theorem pairsWith_snoc :
    pairsWith p actor kind (evs ++ [e]) = pairsWith p actor kind evs ∪
      {q | q.2 = evs.length ∧ ∃ c, completedBy actor kind evs e = some c ∧ p c ∧
        Pairs actor kind (evs ++ [e]) q.1 evs.length c} := by
  ext ⟨i, j⟩
  apply Iff.intro
  · intro h
    obtain ⟨c, hpairs, hp⟩ := h
    rcases pairs_snoc.1 hpairs with hold | ⟨rfl, _⟩
    · exact Or.inl ⟨c, hold, hp⟩
    · exact Or.inr ⟨rfl, c, completedBy_eq_some.2 ⟨i, hpairs⟩, hp, hpairs⟩
  · rintro (h | h)
    · obtain ⟨c, hpairs, hp⟩ := h
      exact ⟨c, pairs_snoc.2 (Or.inl hpairs), hp⟩
    · obtain ⟨hj, c, _, hp, hpairs⟩ := h
      exact ⟨c, by rwa [show (i, j).2 = evs.length from hj], hp⟩

/-- As many of the completions have a property as there are pairs with it. -/
theorem countP_completed [DecidablePred p] :
    (completed actor kind evs).countP p = (pairsWith p actor kind evs).ncard := by
  induction evs using List.reverseRecOn with
  | nil =>
    have hempty : pairsWith p actor kind [] = ∅ := by
      ext q
      simp only [pairsWith, Set.mem_ofPred_eq, Set.mem_empty_iff_false, iff_false, not_exists]
      intro c h
      obtain ⟨d, hd, _⟩ := h.1.opens
      cases hd
    rw [hempty, Set.ncard_empty]
    rfl
  | append_singleton evs e ih =>
    rw [completed_snoc, List.countP_append, ih, pairsWith_snoc]
    cases hby : completedBy actor kind evs e with
    | none => simp
    | some c =>
      obtain ⟨i, hpairs⟩ := completedBy_eq_some.1 hby
      by_cases hp : p c
      · have hone : {q : ℕ × ℕ | q.2 = evs.length ∧ ∃ c', some c = some c' ∧ p c' ∧
            Pairs actor kind (evs ++ [e]) q.1 evs.length c'} = {(i, evs.length)} := by
          ext ⟨i', j⟩
          simp only [Set.mem_ofPred_eq, Set.mem_singleton_iff, Prod.mk.injEq]
          apply Iff.intro
          · intro h
            obtain ⟨rfl, c', _, _, hpairs'⟩ := h
            exact ⟨hpairs'.open_unique hpairs, rfl⟩
          · rintro ⟨rfl, rfl⟩
            exact ⟨rfl, c, rfl, hp, hpairs⟩
        have hnew : (i, evs.length) ∉ pairsWith p actor kind evs := by
          intro h
          obtain ⟨c', hpairs', _⟩ := h
          obtain ⟨d, hd, _⟩ := hpairs'.closes
          exact absurd (lt_of_getElem? hd) (Nat.lt_irrefl _)
        rw [hone, Set.union_singleton, Set.ncard_insert_of_notMem hnew (pairsWith_finite p)]
        simp [hp]
      · have hnone : {q : ℕ × ℕ | q.2 = evs.length ∧ ∃ c', some c = some c' ∧ p c' ∧
            Pairs actor kind (evs ++ [e]) q.1 evs.length c'} = ∅ := by
          ext q
          simp only [Option.some.injEq, exists_eq_left', hp, false_and, and_false,
            Set.mem_ofPred_eq, Set.mem_empty_iff_false]
        rw [hnone, Set.union_empty]
        simp [hp]

end Count

end Pairing
