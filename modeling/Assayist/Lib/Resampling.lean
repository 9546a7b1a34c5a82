import Assayist.Lib.Spread
import Mathlib.Algebra.Order.Field.Basic
import Mathlib.Data.Bool.Count
import Mathlib.Tactic.Linarith
import Mathlib.Tactic.Positivity

/-! Resampling two groups: the pooled entries are shuffled again and again, and each time
the first part is compared with the rest. How many shuffles part the pool as far as the
groups lie apart is bounded from below by how many leave the groups whole, for any data,
and is exactly that for two groups of constant value. How many are counted under a guard
changes with the guard only where a shuffle falls between the two. -/

namespace Resampling

/-- A source of shuffles. Where an entry goes does not depend on the entries. -/
structure Shuffler (σ : Type) where
  draw : {α : Type} → σ → List α → σ × List α
  perm : ∀ {α : Type} (s : σ) (xs : List α), (draw s xs).2.Perm xs
  map : ∀ {α β : Type} (f : α → β) (s : σ) (xs : List α),
    draw s (xs.map f) = ((draw s xs).1, (draw s xs).2.map f)

section Trials

variable {σ α β : Type} (S : Shuffler σ)

/-- The pool after each of a number of shuffles, each taken from the one before. -/
def trials : ℕ → σ → List α → List (List α)
  | 0, _, _ => []
  | k + 1, s, xs => (S.draw s xs).2 :: trials k (S.draw s xs).1 (S.draw s xs).2

theorem length_trials (k : ℕ) (s : σ) (xs : List α) : (trials S k s xs).length = k := by
  induction k generalizing s xs with
  | zero => rfl
  | succ k ih => rw [trials, List.length_cons, ih]

theorem trials_map (f : α → β) (k : ℕ) (s : σ) (xs : List α) :
    trials S k s (xs.map f) = (trials S k s xs).map (List.map f) := by
  induction k generalizing s xs with
  | zero => rfl
  | succ k ih =>
    rw [trials, trials, S.map, List.map_cons]
    simp only [ih]

theorem perm_of_mem_trials {k : ℕ} {s : σ} {xs t : List α} (h : t ∈ trials S k s xs) :
    t.Perm xs := by
  induction k generalizing s xs with
  | zero => simp [trials] at h
  | succ k ih =>
    rw [trials] at h
    rcases List.mem_cons.1 h with rfl | h
    · exact S.perm s xs
    · exact (ih h).trans (S.perm s xs)

/-- More shuffles go on from where fewer stopped. -/
theorem trials_prefix (k j : ℕ) (s : σ) (xs : List α) :
    trials S k s xs <+: trials S (k + j) s xs := by
  induction k generalizing s xs with
  | zero => exact List.nil_prefix
  | succ k ih =>
    rw [Nat.succ_add, trials, trials, List.prefix_cons_inj]
    exact ih _ _

end Trials

section Labels

/-- The entries of a first group of `na` and a second of `nb`, as what they belong to. -/
def labels (na nb : ℕ) : List Bool := List.replicate na false ++ List.replicate nb true

/-- Whether a rearrangement leaves the groups whole, in their places or exchanged. -/
def unmixed (na nb : ℕ) (t : List Bool) : Bool :=
  t == labels na nb || t == (labels na nb).map (!·)

theorem unmixed_iff {na nb : ℕ} {t : List Bool} :
    unmixed na nb t = true ↔
      ∃ l, t = List.replicate na l ++ List.replicate nb (!l) := by
  unfold unmixed labels
  rw [Bool.or_eq_true, beq_iff_eq, beq_iff_eq, Bool.exists_bool]
  simp

variable {α : Type}

def labelled (a b : List α) : List (Bool × α) := a.map (Prod.mk false) ++ b.map (Prod.mk true)

theorem labelled_fst (a b : List α) : (labelled a b).map Prod.fst = labels a.length b.length := by
  simp [labelled, labels, Function.comp_def, List.map_const']

theorem labelled_snd (a b : List α) : (labelled a b).map Prod.snd = a ++ b := by
  simp [labelled, Function.comp_def]

theorem labelled_filter (a b : List α) (l : Bool) :
    (labelled a b).filter (·.1 = l) = (if l then b else a).map (Prod.mk l) := by
  have hkeep (k : Bool) (xs : List α) :
      (xs.map (Prod.mk k)).filter (·.1 = l) = if k = l then xs.map (Prod.mk k) else [] := by
    induction xs with
    | nil => simp
    | cons x xs ih =>
      rw [List.map_cons, List.filter_cons, ih]
      by_cases h : k = l <;> simp [h]
  rw [labelled, List.filter_append, hkeep, hkeep]
  cases l <;> simp

/-- A part in which all labels are one is all that carries the label. -/
theorem part_perm {a b : List α} {u v t : List (Bool × α)} {l : Bool}
    (ht : t.Perm (labelled a b)) (hsplit : t = u ++ v ∨ t = v ++ u) (hu : ∀ p ∈ u, p.1 = l)
    (hv : ∀ p ∈ v, p.1 = !l) : (u.map Prod.snd).Perm (if l then b else a) := by
  have hkeep : u.filter (·.1 = l) = u := List.filter_eq_self.2 (by simpa using hu)
  have hdrop : v.filter (·.1 = l) = [] := by
    rw [List.filter_eq_nil_iff]
    intro p hp
    simp [hv p hp]
  have hfilter : t.filter (·.1 = l) = u := by
    rcases hsplit with rfl | rfl
    · rw [List.filter_append, hkeep, hdrop, List.append_nil]
    · rw [List.filter_append, hkeep, hdrop, List.nil_append]
  have hperm := (ht.filter (·.1 = l)).map Prod.snd
  rw [hfilter, labelled_filter, List.map_map] at hperm
  simpa [Function.comp_def] using hperm

end Labels

section Gap

variable {K : Type} [Field K]

/-- How far the mean of the rest lies above the mean of the first `na`. -/
def gap (na : ℕ) (xs : List K) : K := Spread.mean (xs.drop na) - Spread.mean (xs.take na)

theorem gap_append (a b : List K) : gap a.length (a ++ b) = Spread.mean b - Spread.mean a := by
  simp [gap]

variable [LinearOrder K]

/-- A rearrangement that leaves the groups whole leaves them as far apart. -/
theorem gap_of_unmixed {a b : List K} {t : List (Bool × K)} (ht : t.Perm (labelled a b))
    (hunmixed : unmixed a.length b.length (t.map Prod.fst) = true) :
    |gap a.length (t.map Prod.snd)| = |gap a.length (a ++ b)| := by
  obtain ⟨l, hl⟩ := unmixed_iff.1 hunmixed
  obtain ⟨u, v, rfl, hu, hv⟩ := List.map_eq_append_iff.1 hl
  obtain ⟨hulen, hu⟩ := List.eq_replicate_iff.1 hu
  obtain ⟨-, hv⟩ := List.eq_replicate_iff.1 hv
  rw [List.length_map] at hulen
  have hu' : ∀ p ∈ u, p.1 = l := fun p hp => hu _ (List.mem_map_of_mem hp)
  have hv' : ∀ p ∈ v, p.1 = !l := fun p hp => hv _ (List.mem_map_of_mem hp)
  have hmu := Spread.mean_perm (part_perm ht (.inl rfl) hu' hv')
  have hmv := Spread.mean_perm (part_perm ht (.inr rfl) hv' (by simpa using hu'))
  have hgap : gap a.length ((u ++ v).map Prod.snd) =
      Spread.mean (v.map Prod.snd) - Spread.mean (u.map Prod.snd) := by
    rw [List.map_append, ← hulen, ← List.length_map (f := Prod.snd), gap_append]
  rw [hgap, gap_append, hmu, hmv]
  cases l with
  | false => simp
  | true =>
    rw [abs_sub_comm]
    simp

/-- For any data, as many shuffles part the pool as far as the groups lie apart as leave the
groups whole. -/
theorem countP_unmixed_le {σ : Type} (S : Shuffler σ) (k : ℕ) (s : σ) (a b : List K) {eps : K}
    [IsStrictOrderedRing K] (heps : 0 ≤ eps) :
    (trials S k s (labels a.length b.length)).countP (unmixed a.length b.length) ≤
      (trials S k s (a ++ b)).countP
        (fun t => |gap a.length (a ++ b)| ≤ |gap a.length t| + eps) := by
  rw [← labelled_fst, ← labelled_snd, trials_map, trials_map, List.countP_map, List.countP_map]
  apply List.countP_mono_left
  intro t ht hunmixed
  have hgap := gap_of_unmixed (perm_of_mem_trials S ht) hunmixed
  rw [← labelled_snd] at hgap
  simp only [Function.comp_apply, decide_eq_true_eq, hgap]
  linarith

end Gap

section TwoValued

/-- The pool in which every entry of a group has the group's value. -/
def valued {α : Type} (x y : α) (t : List Bool) : List α := t.map fun l => if l then y else x

theorem valued_labels {α : Type} (x y : α) (na nb : ℕ) :
    valued x y (labels na nb) = List.replicate na x ++ List.replicate nb y := by
  simp [valued, labels]

variable {K : Type} [Field K]

theorem sum_valued (x y : K) (t : List Bool) :
    (valued x y t).sum = t.count false * x + t.count true * y := by
  induction t with
  | nil => simp [valued]
  | cons l t ih =>
    rw [valued, List.map_cons, List.sum_cons, ← valued, ih]
    cases l
    · simp only [Bool.false_eq_true, if_false, List.count_cons_self, ne_eq,
        not_false_eq_true, List.count_cons_of_ne, Nat.cast_add, Nat.cast_one]
      ring
    · simp only [if_true, List.count_cons_self, ne_eq, reduceCtorEq, not_false_eq_true,
        List.count_cons_of_ne, Nat.cast_add, Nat.cast_one]
      ring

def crossed (na : ℕ) (t : List Bool) : ℕ := (t.take na).count true

/-- The other parts of a rearrangement, from the number of crossed entries. -/
theorem counts {na nb : ℕ} {t : List Bool} (h : t.Perm (labels na nb)) :
    (t.take na).length = na ∧ (t.drop na).length = nb ∧
      (t.take na).count false + crossed na t = na ∧
      (t.drop na).count false = crossed na t ∧
      (t.drop na).count true + crossed na t = nb := by
  have hlen : t.length = na + nb := by
    rw [h.length_eq]
    simp [labels]
  have htake : (t.take na).length = na := by
    rw [List.length_take, hlen]
    omega
  have hdrop : (t.drop na).length = nb := by
    rw [List.length_drop, hlen]
    omega
  have hall (l : Bool) : (t.take na).count l + (t.drop na).count l = (labels na nb).count l := by
    rw [← List.count_append, List.take_append_drop, h.count_eq]
  have hfalse := hall false
  have htrue := hall true
  have htakes := List.count_false_add_count_true (t.take na)
  rw [htake] at htakes
  simp [labels, List.count_replicate] at hfalse htrue
  unfold crossed
  omega

theorem crossed_le {na nb : ℕ} {t : List Bool} (h : t.Perm (labels na nb)) :
    crossed na t ≤ na ∧ crossed na t ≤ nb := by
  obtain ⟨-, -, hfirst, -, hsecond⟩ := counts h
  omega

/-- The groups stay whole when no entry crosses, or all do. -/
theorem unmixed_iff_crossed {na nb : ℕ} {t : List Bool} (h : t.Perm (labels na nb)) :
    unmixed na nb t = true ↔ crossed na t = 0 ∨ (crossed na t = na ∧ crossed na t = nb) := by
  obtain ⟨htake, hdrop, hfirst, hback, hsecond⟩ := counts h
  have hall {l : Bool} {u : List Bool} {n : ℕ} (hlen : u.length = n) (hcount : u.count l = n) :
      u = List.replicate n l := by
    rw [List.eq_replicate_iff]
    exact ⟨hlen, fun x hx => (List.count_eq_length.1 (hcount.trans hlen.symm) x hx).symm⟩
  have hwhole {l : Bool} (hl : (t.take na).count l = na) (hl' : (t.drop na).count (!l) = nb) :
      unmixed na nb t = true := by
    rw [unmixed_iff]
    exact ⟨l, by rw [← hall htake hl, ← hall hdrop hl', List.take_append_drop]⟩
  apply Iff.intro
  · intro hunmixed
    obtain ⟨l, hl⟩ := unmixed_iff.1 hunmixed
    have hcrossed : crossed na t = if l then na else 0 := by
      rw [crossed, hl]
      cases l <;> simp [List.count_replicate]
    have hrest : (t.drop na).count true = if l then 0 else nb := by
      rw [hl]
      cases l <;> simp [List.count_replicate]
    cases l with
    | false => exact .inl hcrossed
    | true =>
      right
      simp only [if_true] at hcrossed hrest
      omega
  · intro hcrossed
    rcases hcrossed with hnone | ⟨ha, hb⟩
    · exact hwhole (l := false) (by omega) (by rw [Bool.not_false]; omega)
    · exact hwhole (l := true) ha (by rw [Bool.not_true]; omega)

section Ordered

variable [LinearOrder K] [IsStrictOrderedRing K]

/-- Neither no entry nor every entry crossing, the parts come nearer by at least one in
`na * nb`. -/
theorem abs_crossed_le {na nb j : ℕ} (ha : j ≤ na) (hb : j ≤ nb) (hsome : j ≠ 0)
    (hmixed : ¬ (j = na ∧ j = nb)) :
    |(na * nb : K) - j * (na + nb)| ≤ na * nb - 1 := by
  have hlow : 1 ≤ j * (na + nb) := Nat.mul_pos (by omega) (by omega)
  have hhigh : j * (na + nb) + 1 ≤ 2 * (na * nb) := by
    have hja : j * nb ≤ na * nb := Nat.mul_le_mul_right nb ha
    have hjb : j * na ≤ nb * na := Nat.mul_le_mul_right na hb
    rcases Nat.lt_or_ge j na with hlt | hge
    · have hstrict : j * nb < na * nb := Nat.mul_lt_mul_of_pos_right hlt (by omega)
      linarith
    · have hstrict : j * na < nb * na := Nat.mul_lt_mul_of_pos_right (by omega) (by omega)
      linarith
  have hlow' : (1 : K) ≤ j * (na + nb) := by exact_mod_cast hlow
  have hhigh' : (j * (na + nb) + 1 : K) ≤ 2 * (na * nb) := by exact_mod_cast hhigh
  rw [abs_le]
  refine ⟨?_, ?_⟩
  · linarith
  · linarith

/-- Between groups of constant value the parts of a rearrangement differ in proportion to
what has not crossed. -/
theorem gap_valued (x y : K) {na nb : ℕ} (ha : na ≠ 0) (hb : nb ≠ 0) {t : List Bool}
    (h : t.Perm (labels na nb)) :
    gap na (valued x y t) * (na * nb) =
      (y - x) * (na * nb - crossed na t * (na + nb)) := by
  obtain ⟨htake, hdrop, hfirst, hback, hsecond⟩ := counts h
  have ha' : (na : K) ≠ 0 := Nat.cast_ne_zero.2 ha
  have hb' : (nb : K) ≠ 0 := Nat.cast_ne_zero.2 hb
  have hfalse : ((t.take na).count false : K) = na - crossed na t := by
    rw [eq_sub_iff_add_eq]
    exact_mod_cast hfirst
  have htrue : ((t.drop na).count true : K) = nb - crossed na t := by
    rw [eq_sub_iff_add_eq]
    exact_mod_cast hsecond
  have hsplit (u : List Bool) : Spread.mean (valued x y u) = (valued x y u).sum / u.length := by
    rw [Spread.mean, valued, List.length_map]
  have htakes : (valued x y t).take na = valued x y (t.take na) := by simp [valued]
  have hdrops : (valued x y t).drop na = valued x y (t.drop na) := by simp [valued]
  rw [gap, htakes, hdrops, hsplit, hsplit, htake, hdrop, sum_valued, sum_valued, hfalse, htrue,
    hback, ← crossed]
  field_simp
  ring

/-- Two groups of constant value, far enough apart: a shuffle parts the pool as far as the
groups only by leaving them whole. -/
theorem gap_valued_le_iff {x y eps : K} {na nb : ℕ} (ha : na ≠ 0) (hb : nb ≠ 0)
    (heps : 0 ≤ eps) (hfar : eps * (na * nb) < |y - x|) {t : List Bool}
    (h : t.Perm (labels na nb)) :
    |gap na (valued x y (labels na nb))| ≤ |gap na (valued x y t)| + eps ↔
      unmixed na nb t = true := by
  have hpos : (0 : K) < na * nb := by
    have : 0 < na * nb := by positivity
    exact_mod_cast this
  have hobserved : |gap na (valued x y (labels na nb))| = |y - x| := by
    have hgap := gap_append (List.replicate na x) (List.replicate nb y)
    rw [List.length_replicate, ← valued_labels, Spread.mean_replicate ha,
      Spread.mean_replicate hb] at hgap
    rw [hgap]
  have hscaled : |gap na (valued x y t)| * (na * nb) =
      |y - x| * |(na * nb : K) - crossed na t * (na + nb)| := by
    rw [← abs_mul, ← gap_valued x y ha hb h, abs_mul, abs_of_pos hpos]
  obtain ⟨hja, hjb⟩ := crossed_le h
  rw [hobserved, unmixed_iff_crossed h]
  apply Iff.intro
  · intro hle
    by_contra hmixed
    obtain ⟨hsome, hnot⟩ := not_or.1 hmixed
    have hnear : |gap na (valued x y t)| * (na * nb) ≤ |y - x| * (na * nb - 1) := by
      rw [hscaled]
      exact mul_le_mul_of_nonneg_left (abs_crossed_le hja hjb hsome hnot) (abs_nonneg _)
    have hle' := mul_le_mul_of_nonneg_right hle hpos.le
    linarith
  · intro hwhole
    have hfull : |(na * nb : K) - crossed na t * (na + nb)| = na * nb := by
      rcases hwhole with hnone | ⟨hall, hall'⟩
      · simp [hnone]
      · have hsame : na = nb := hall.symm.trans hall'
        subst hsame
        have hneg : (na * na : K) - crossed na t * (na + na) = -(na * na) := by
          rw [hall]
          ring
        rw [hneg, abs_neg, abs_of_pos hpos]
    rw [hfull] at hscaled
    rw [mul_right_cancel₀ hpos.ne' hscaled]
    linarith

/-- Between two groups of constant value, exactly the shuffles that leave them whole part
the pool as far as the groups. -/
theorem countP_valued {σ : Type} (S : Shuffler σ) (k : ℕ) (s : σ) {x y eps : K} {na nb : ℕ}
    (ha : na ≠ 0) (hb : nb ≠ 0) (heps : 0 ≤ eps) (hfar : eps * (na * nb) < |y - x|) :
    (trials S k s (valued x y (labels na nb))).countP
        (fun t => |gap na (valued x y (labels na nb))| ≤ |gap na t| + eps) =
      (trials S k s (labels na nb)).countP (unmixed na nb) := by
  rw [valued, trials_map, List.countP_map]
  apply List.countP_congr
  intro t ht
  simp only [Function.comp_apply, decide_eq_true_eq]
  exact gap_valued_le_iff ha hb heps hfar (perm_of_mem_trials S ht)

end Ordered

end TwoValued

section Guards

variable {K : Type} [Field K]

/-- A change of unit and origin scales every gap, and the origin drops out. -/
theorem gap_affine [CharZero K] {na : ℕ} {t : List K} (hna : na ≠ 0) (hlen : na < t.length)
    (c d : K) : gap na (t.map fun x => c * x + d) = c * gap na t := by
  have hrest : t.drop na ≠ [] := by
    rw [Ne, List.drop_eq_nil_iff]
    omega
  have hfirst : t.take na ≠ [] := by
    intro hnil
    rcases List.take_eq_nil_iff.1 hnil with h | h
    · exact hna h
    · simp [h] at hlen
  rw [gap, gap, ← List.map_drop, ← List.map_take, Spread.mean_affine hrest,
    Spread.mean_affine hfirst]
  ring

/-- A weaker test is met as often only where it lets nothing more through. -/
theorem countP_eq_iff {α : Type} {p q : α → Bool} {l : List α}
    (h : ∀ x ∈ l, p x = true → q x = true) :
    l.countP p = l.countP q ↔ ∀ x ∈ l, q x = true → p x = true := by
  induction l with
  | nil => simp
  | cons x l ih =>
    obtain ⟨hx, hl⟩ := List.forall_mem_cons.1 h
    have htail := ih hl
    have hle : l.countP p ≤ l.countP q := List.countP_mono_left hl
    rw [List.forall_mem_cons, List.countP_cons, List.countP_cons]
    cases hp : p x with
    | true => simpa [hx hp] using htail
    | false =>
      cases hq : q x with
      | false => simpa using htail
      | true =>
        simp only [Bool.false_eq_true, if_false, if_true, imp_false, not_true_eq_false,
          false_and, iff_false]
        omega

variable [LinearOrder K] [IsStrictOrderedRing K]

/-- Two guards count the same shuffles exactly when none falls short of the observed gap by
more than the smaller and no more than the larger. -/
theorem countP_guard_iff (na : ℕ) (observed g g' : K) (ts : List (List K)) :
    ts.countP (fun t => observed ≤ |gap na t| + g) =
        ts.countP (fun t => observed ≤ |gap na t| + g') ↔
      ∀ t ∈ ts, ¬ (min g g' < observed - |gap na t| ∧ observed - |gap na t| ≤ max g g') := by
  have hordered {g g' : K} (h : g ≤ g') :
      ts.countP (fun t => observed ≤ |gap na t| + g) =
          ts.countP (fun t => observed ≤ |gap na t| + g') ↔
        ∀ t ∈ ts, ¬ (g < observed - |gap na t| ∧ observed - |gap na t| ≤ g') := by
    rw [countP_eq_iff]
    · apply forall₂_congr
      intro t _
      simp only [decide_eq_true_eq]
      rw [lt_sub_iff_add_lt', sub_le_iff_le_add', and_comm, not_and, not_lt]
    · intro t _ hnear
      simp only [decide_eq_true_eq] at hnear ⊢
      linarith
  rcases le_total g g' with h | h
  · rw [min_eq_left h, max_eq_right h]
    exact hordered h
  · rw [min_eq_right h, max_eq_left h, eq_comm]
    exact hordered h

end Guards

section Farthest

variable {K : Type} [Field K] [LinearOrder K]

/-- Two groups lie farther apart, by more than a guard, than the parts of their pool under any
rearrangement that mixes them. -/
def Farthest (guard : K) (a b : List K) : Prop :=
  ∀ t : List (Bool × K), t.Perm (labelled a b) →
    unmixed a.length b.length (t.map Prod.fst) = false →
      |gap a.length (t.map Prod.snd)| + guard < |gap a.length (a ++ b)|

/-- Of groups farthest apart, exactly the shuffles that leave them whole part the pool as
far. -/
theorem Farthest.countP_eq {guard : K} {a b : List K} (h : Farthest guard a b)
    [IsStrictOrderedRing K] (hguard : 0 ≤ guard) {σ : Type} (S : Shuffler σ) (k : ℕ) (s : σ) :
    (trials S k s (a ++ b)).countP
        (fun t => |gap a.length (a ++ b)| ≤ |gap a.length t| + guard) =
      (trials S k s (labels a.length b.length)).countP (unmixed a.length b.length) := by
  rw [← labelled_fst, ← labelled_snd, trials_map, trials_map, List.countP_map, List.countP_map]
  apply List.countP_congr
  intro t ht
  have hperm := perm_of_mem_trials S ht
  simp only [Function.comp_apply, decide_eq_true_eq, labelled_snd]
  apply Iff.intro
  · intro hfar
    by_contra hmixed
    exact absurd hfar (not_le.2 (h t hperm (Bool.eq_false_of_not_eq_true hmixed)))
  · intro hwhole
    rw [gap_of_unmixed hperm hwhole]
    linarith

end Farthest

end Resampling
