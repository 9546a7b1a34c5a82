import Mathlib.Data.List.Nodup
import Mathlib.Data.List.Range

/-! Texts whose characters remember where they come from, under the replacement of a pattern. A
replacement takes its stretches out of the text and puts in characters that come from nowhere,
so no character is ever taken out twice. -/

namespace Provenance

variable {α ι : Type} [DecidableEq α]

/-- Each character with where it comes from; what a replacement puts in comes from nowhere. -/
abbrev Origin (α ι : Type) := List (α × Option ι)

def chars (s : Origin α ι) : List α := s.map Prod.fst

def origins (s : Origin α ι) : List ι := s.filterMap Prod.snd

def inserted (rep : List α) : Origin α ι := rep.map fun c => (c, none)

/-- The stretches of the text that are found, from left to right and none overlapping the one
before, with `skip` characters of the last one still to pass over. -/
def stretches (pat : List α) : ℕ → Origin α ι → List (List (Option ι))
  | _, [] => []
  | skip + 1, _ :: s => stretches pat skip s
  | 0, c :: s =>
    if pat.isPrefixOf (chars (c :: s)) then
      ((c :: s).take pat.length).map Prod.snd :: stretches pat (pat.length - 1) s
    else stretches pat 0 s

/-- The text with `rep` put in for each of them. -/
def replace (pat rep : List α) : ℕ → Origin α ι → Origin α ι
  | _, [] => []
  | skip + 1, _ :: s => replace pat rep skip s
  | 0, c :: s =>
    if pat.isPrefixOf (chars (c :: s)) then inserted rep ++ replace pat rep (pat.length - 1) s
    else c :: replace pat rep 0 s

section Texts

variable {s s' : Origin α ι} {rep : List α}

omit [DecidableEq α] in
@[simp] theorem chars_append : chars (s ++ s') = chars s ++ chars s' := List.map_append

omit [DecidableEq α] in
@[simp] theorem origins_append : origins (s ++ s') = origins s ++ origins s' :=
  List.filterMap_append

omit [DecidableEq α] in
@[simp] theorem chars_inserted : chars (inserted rep : Origin α ι) = rep := by
  unfold chars inserted
  rw [List.map_map]
  exact List.map_id rep

omit [DecidableEq α] in
@[simp] theorem origins_inserted : origins (inserted rep : Origin α ι) = [] := by
  unfold origins inserted
  rw [List.filterMap_map, List.filterMap_eq_nil_iff]
  exact fun _ _ => rfl

end Texts

section Replacement

variable {pat rep : List α} {s : Origin α ι}

theorem stretches_skip (n : ℕ) : stretches pat n s = stretches pat 0 (s.drop n) := by
  induction n generalizing s with
  | zero => rfl
  | succ n ih =>
    cases s with
    | nil => rfl
    | cons c s => exact ih

theorem replace_skip (n : ℕ) : replace pat rep n s = replace pat rep 0 (s.drop n) := by
  induction n generalizing s with
  | zero => rfl
  | succ n ih =>
    cases s with
    | nil => rfl
    | cons c s => exact ih

theorem drop_pred {β : Type} {n : ℕ} (hn : 0 < n) (c : β) (s : List β) :
    s.drop (n - 1) = (c :: s).drop n := by
  obtain ⟨m, rfl⟩ := Nat.exists_eq_succ_of_ne_zero hn.ne'
  rfl

section Found

variable (hpat : 0 < pat.length) (hfound : pat <+: chars s)
include hpat hfound

theorem stretches_at_match :
    stretches pat 0 s =
      (s.take pat.length).map Prod.snd :: stretches pat 0 (s.drop pat.length) := by
  cases s with
  | nil =>
    rw [List.eq_nil_of_prefix_nil hfound] at hpat
    exact absurd hpat (Nat.lt_irrefl 0)
  | cons c s =>
    rw [stretches, if_pos (List.isPrefixOf_iff_prefix.2 hfound), stretches_skip, drop_pred hpat c]

theorem replace_at_match :
    replace pat rep 0 s = inserted rep ++ replace pat rep 0 (s.drop pat.length) := by
  cases s with
  | nil =>
    rw [List.eq_nil_of_prefix_nil hfound] at hpat
    exact absurd hpat (Nat.lt_irrefl 0)
  | cons c s =>
    rw [replace, if_pos (List.isPrefixOf_iff_prefix.2 hfound), replace_skip, drop_pred hpat c]

end Found

theorem stretches_at_other {c : α × Option ι} (h : ¬ pat <+: chars (c :: s)) :
    stretches pat 0 (c :: s) = stretches pat 0 s := by
  rw [stretches, if_neg (fun hp => h (List.isPrefixOf_iff_prefix.1 hp))]

theorem replace_at_other {c : α × Option ι} (h : ¬ pat <+: chars (c :: s)) :
    replace pat rep 0 (c :: s) = c :: replace pat rep 0 s := by
  rw [replace, if_neg (fun hp => h (List.isPrefixOf_iff_prefix.1 hp))]

/-- A stretch that is found stands somewhere in the text. -/
theorem exists_of_mem_stretches (hpat : 0 < pat.length) {o : List (Option ι)}
    (ho : o ∈ stretches pat 0 s) :
    ∃ n, pat <+: chars (s.drop n) ∧ ((s.drop n).take pat.length).map Prod.snd = o := by
  induction hn : s.length using Nat.strong_induction_on generalizing s with
  | _ n ih =>
    subst hn
    by_cases hfound : pat <+: chars s
    · rw [stretches_at_match hpat hfound, List.mem_cons] at ho
      rcases ho with rfl | ho
      · exact ⟨0, hfound, rfl⟩
      · have hlt : (s.drop pat.length).length < s.length := by
          have hle := hfound.length_le
          rw [chars, List.length_map] at hle
          rw [List.length_drop]
          omega
        obtain ⟨m, hm⟩ := ih _ hlt ho rfl
        rw [List.drop_drop] at hm
        exact ⟨_, hm⟩
    · cases s with
      | nil => cases ho
      | cons c s =>
        rw [stretches_at_other hfound] at ho
        obtain ⟨m, hm⟩ := ih s.length (Nat.lt_succ_self _) ho rfl
        exact ⟨m + 1, hm⟩

/-- Where nothing is found in what was put in, it is passed over. -/
theorem replace_inserted (rep : List α) {w : List α} (hpat : 0 < pat.length)
    (hplain : ∀ o ∈ stretches pat 0 (inserted w ++ s), none ∉ o) :
    stretches pat 0 (inserted w ++ s) = stretches pat 0 s ∧
      replace pat rep 0 (inserted w ++ s) = inserted w ++ replace pat rep 0 s := by
  induction w with
  | nil => exact ⟨rfl, rfl⟩
  | cons c w ih =>
    change ∀ o ∈ stretches pat 0 ((c, none) :: (inserted w ++ s)), none ∉ o at hplain
    have hno : ¬ pat <+: chars ((c, none) :: (inserted w ++ s)) := by
      intro hfound
      rw [stretches_at_match hpat hfound] at hplain
      obtain ⟨n, hn⟩ := Nat.exists_eq_succ_of_ne_zero hpat.ne'
      apply hplain _ List.mem_cons_self
      rw [hn, List.take_succ_cons, List.map_cons]
      exact List.mem_cons_self
    rw [stretches_at_other hno] at hplain
    obtain ⟨hs, hr⟩ := ih hplain
    exact ⟨(stretches_at_other hno).trans hs,
      (replace_at_other hno).trans (congrArg (List.cons (c, none)) hr)⟩

/-- Each character of the text is taken out once or left in once. -/
theorem origins_replace (rep : List α) (hpat : 0 < pat.length) :
    ((stretches pat 0 s).flatMap (List.filterMap id) ++ origins (replace pat rep 0 s)).Perm
      (origins s) := by
  induction hn : s.length using Nat.strong_induction_on generalizing s with
  | _ n ih =>
    subst hn
    by_cases hfound : pat <+: chars s
    · have hlt : (s.drop pat.length).length < s.length := by
        have hle := hfound.length_le
        rw [chars, List.length_map] at hle
        rw [List.length_drop]
        omega
      have htaken : ((s.take pat.length).map Prod.snd).filterMap id
          = origins (s.take pat.length) := by
        rw [List.filterMap_map]
        rfl
      rw [stretches_at_match hpat hfound, replace_at_match hpat hfound, List.flatMap_cons,
        origins_append, origins_inserted, List.nil_append, List.append_assoc, htaken]
      conv_rhs => rw [← List.take_append_drop pat.length s, origins_append]
      exact (ih _ hlt rfl).append_left _
    · cases s with
      | nil => exact List.Perm.refl _
      | cons c s =>
        have hrest := ih s.length (Nat.lt_succ_self _) rfl
        rw [stretches_at_other hfound, replace_at_other hfound]
        have hcons (s' : Origin α ι) : origins (c :: s') = c.2.toList ++ origins s' := by
          unfold origins
          cases hc : c.2 with
          | none => rw [List.filterMap_cons_none hc, Option.toList_none, List.nil_append]
          | some i => rw [List.filterMap_cons_some hc, Option.toList_some, List.singleton_append]
        rw [hcons, hcons]
        refine List.Perm.trans ?_ (hrest.append_left _)
        rw [← List.append_assoc, ← List.append_assoc]
        exact List.perm_append_comm.append_right _

theorem origins_subset (rep : List α) (hpat : 0 < pat.length) {i : ι}
    (hi : i ∈ origins (replace pat rep 0 s)) : i ∈ origins s :=
  (origins_replace rep hpat).subset (List.mem_append_right _ hi)

theorem not_mem_of_taken (rep : List α) (hpat : 0 < pat.length) (hs : (origins s).Nodup) {i : ι}
    {o : List (Option ι)} (ho : o ∈ stretches pat 0 s) (hi : some i ∈ o) :
    i ∉ origins (replace pat rep 0 s) := by
  have hnodup := (origins_replace rep hpat).nodup_iff.2 hs
  have htaken : i ∈ (stretches pat 0 s).flatMap (List.filterMap id) :=
    List.mem_flatMap.2 ⟨o, ho, List.mem_filterMap.2 ⟨some i, hi, rfl⟩⟩
  intro hleft
  exact (List.nodup_append.1 hnodup).2.2 i htaken i hleft rfl

/-- A search reaches a place in the text, unless it finds something across it. -/
theorem search_to (rep : List α) (hpat : 0 < pat.length) (x : Origin α ι) (c : α × Option ι)
    (z : Origin α ι) :
    ((∃ x', replace pat rep 0 (x ++ c :: z) = x' ++ replace pat rep 0 (c :: z)) ∧
        ∀ o ∈ stretches pat 0 (c :: z), o ∈ stretches pat 0 (x ++ c :: z)) ∨
      ∃ o ∈ stretches pat 0 (x ++ c :: z), c.2 ∈ o := by
  induction hn : x.length using Nat.strong_induction_on generalizing x with
  | _ n ih =>
    subst hn
    cases x with
    | nil => exact .inl ⟨⟨[], rfl⟩, fun _ ho => ho⟩
    | cons d x =>
      by_cases hfound : pat <+: chars (d :: x ++ c :: z)
      · rw [stretches_at_match hpat hfound, replace_at_match hpat hfound]
        by_cases hlen : pat.length ≤ (d :: x).length
        · have hlt : ((d :: x).drop pat.length).length < (d :: x).length := by
            rw [List.length_drop]
            omega
          rw [List.drop_append_of_le_length hlen]
          rcases ih _ hlt _ rfl with ⟨⟨x', hx'⟩, hall⟩ | ⟨o, ho, hc⟩
          · refine .inl ⟨⟨inserted rep ++ x', ?_⟩, fun o ho => List.mem_cons_of_mem _ (hall o ho)⟩
            rw [hx', List.append_assoc]
          · exact .inr ⟨o, List.mem_cons_of_mem _ ho, hc⟩
        · refine .inr ⟨_, List.mem_cons_self, List.mem_map_of_mem ?_⟩
          obtain ⟨m, hm⟩ := Nat.exists_eq_add_of_lt (Nat.lt_of_not_le hlen)
          rw [hm, Nat.add_assoc, List.take_length_add_append, List.take_succ_cons]
          exact List.mem_append_right _ List.mem_cons_self
      · rw [List.cons_append] at hfound ⊢
        rw [stretches_at_other hfound, replace_at_other hfound]
        rcases ih x.length (Nat.lt_succ_self _) x rfl with ⟨⟨x', hx'⟩, hall⟩ | htaken
        · exact .inl ⟨⟨d :: x', congrArg (List.cons d) hx'⟩, hall⟩
        · exact .inr htaken

/-- A part of the text is left as it is, or something of it is taken out. -/
theorem block_left_or_taken (rep : List α) (hpat : 0 < pat.length) (x : Origin α ι)
    {b : Origin α ι} (hb : b ≠ []) (y : Origin α ι) :
    (∃ x' y', replace pat rep 0 (x ++ (b ++ y)) = x' ++ (b ++ y')) ∨
      ∃ o ∈ stretches pat 0 (x ++ (b ++ y)), ∃ c ∈ b, c.2 ∈ o := by
  have hblock : (∃ y', replace pat rep 0 (b ++ y) = b ++ y') ∨
      ∃ o ∈ stretches pat 0 (b ++ y), ∃ c ∈ b, c.2 ∈ o := by
    clear hb
    induction b with
    | nil => exact .inl ⟨_, rfl⟩
    | cons c b ih =>
      by_cases hfound : pat <+: chars (c :: b ++ y)
      · rw [stretches_at_match hpat hfound]
        refine .inr ⟨_, List.mem_cons_self, c, List.mem_cons_self, List.mem_map_of_mem ?_⟩
        obtain ⟨n, hn⟩ := Nat.exists_eq_succ_of_ne_zero hpat.ne'
        rw [hn, List.cons_append, List.take_succ_cons]
        exact List.mem_cons_self
      · rw [List.cons_append] at hfound ⊢
        rw [stretches_at_other hfound, replace_at_other hfound]
        rcases ih with ⟨y', hy'⟩ | ⟨o, ho, d, hd, hdo⟩
        · exact .inl ⟨y', congrArg (List.cons c) hy'⟩
        · exact .inr ⟨o, ho, d, List.mem_cons_of_mem c hd, hdo⟩
  obtain ⟨c, b', rfl⟩ := List.exists_cons_of_ne_nil hb
  rcases search_to rep hpat x c (b' ++ y) with ⟨⟨x', hx'⟩, hall⟩ | ⟨o, ho, hc⟩
  · rcases hblock with ⟨y', hy'⟩ | ⟨o, ho, htaken⟩
    · exact .inl ⟨x', y', hx'.trans (congrArg (x' ++ ·) hy')⟩
    · exact .inr ⟨o, hall o ho, htaken⟩
  · exact .inr ⟨o, ho, c, List.mem_cons_self, hc⟩

/-- Where the pattern stands in the text, something of it is taken out. -/
theorem block_taken (hpat : 0 < pat.length) (x : Origin α ι) {b : Origin α ι} (hb : chars b = pat)
    (y : Origin α ι) : ∃ o ∈ stretches pat 0 (x ++ (b ++ y)), ∃ c ∈ b, c.2 ∈ o := by
  have hlen : b.length = pat.length := by
    rw [← hb]
    exact (List.length_map _).symm
  obtain ⟨c, b', rfl⟩ := List.exists_cons_of_length_pos (hlen ▸ hpat)
  have hfound : pat <+: chars (c :: b' ++ y) := by
    rw [chars_append, hb]
    exact List.prefix_append _ _
  rcases search_to [] hpat x c (b' ++ y) with ⟨-, hall⟩ | ⟨o, ho, hc⟩
  · have hfirst : ((c :: b' ++ y).take pat.length).map Prod.snd ∈
        stretches pat 0 (c :: (b' ++ y)) := by
      rw [← List.cons_append, stretches_at_match hpat hfound]
      exact List.mem_cons_self
    refine ⟨_, hall _ hfirst, c, List.mem_cons_self, ?_⟩
    rw [← hlen, List.take_left]
    exact List.mem_cons_self
  · exact ⟨o, ho, c, List.mem_cons_self, hc⟩

end Replacement

section Stretches

def stretch (p n : ℕ) : List (Option ℕ) := (List.range' p n).map some

theorem length_stretch (p n : ℕ) : (stretch p n).length = n := by
  unfold stretch
  rw [List.length_map, List.length_range']

theorem mem_stretch {p n i : ℕ} : some i ∈ stretch p n ↔ p ≤ i ∧ i < p + n := by
  unfold stretch
  rw [List.mem_map]
  simp only [Option.some.injEq, exists_eq_right, List.mem_range'_1]

theorem none_not_mem_stretch (p n : ℕ) : none ∉ stretch p n := by
  intro h
  obtain ⟨i, -, hi⟩ := List.mem_map.1 h
  cases hi

theorem stretch_inj {p q n m : ℕ} (hn : 0 < n) (h : stretch p n = stretch q m) : p = q := by
  have hm : 0 < m := by
    have hlen := congrArg List.length h
    rw [length_stretch, length_stretch] at hlen
    omega
  have hp := mem_stretch.1 (h ▸ mem_stretch.2 ⟨le_refl p, Nat.lt_add_of_pos_right hn⟩)
  have hq := mem_stretch.1 (h.symm ▸ mem_stretch.2 ⟨le_refl q, Nat.lt_add_of_pos_right hm⟩)
  exact le_antisymm hq.1 hp.1

end Stretches

end Provenance
