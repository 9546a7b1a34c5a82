import Assayist.Lib.Provenance
import Assayist.Spec.Render

/-! What rendering a template comes to. The variables are replaced one after another in the whole
text, so that the value of one may be taken for a reference to the next; substituting all of
them at once looks at the template alone. -/

namespace Assayist

open Provenance

section Simultaneous

/-- The bound variable that a text starts with a reference to; where names have braces in them,
the shortest one. -/
def reference (σ : String → Option String) (cs : List Char) : Option (String × String) :=
  (List.range cs.length).findSome? fun n =>
    let k := String.ofList ((cs.drop 1).take n)
    if (placeholder k).isPrefixOf cs then (σ k).map fun v => (k, v) else none

/-- A template from its `p`-th character on with the value put in for each reference, where
`skip` characters of the last reference are still to pass over. -/
def substitute (σ : String → Option String) : ℕ → ℕ → List Char → Origin Char ℕ
  | _, _, [] => []
  | p, skip + 1, _ :: cs => substitute σ (p + 1) skip cs
  | p, 0, c :: cs =>
    match reference σ (c :: cs) with
    | some (k, v) => inserted v.toList ++ substitute σ (p + 1) ((placeholder k).length - 1) cs
    | none => (c, some p) :: substitute σ (p + 1) 0 cs

/-- A template with all variables substituted at once. -/
def simultaneous (σ : String → Option String) (template : String) : String :=
  String.ofList (chars (substitute σ 0 0 template.toList))

end Simultaneous

section References

variable {σ : String → Option String} {T cs : List Char} {p n : ℕ} {k v : String}

theorem length_placeholder (k : String) : (placeholder k).length = k.toList.length + 2 := by
  unfold placeholder
  rw [List.cons_append, List.length_cons, List.length_append, List.length_singleton]

theorem placeholder_pos (k : String) : 0 < (placeholder k).length := by
  rw [length_placeholder]
  omega

theorem name_of_prefix (h : placeholder k <+: cs) :
    k.toList.length < cs.length ∧ String.ofList ((cs.drop 1).take k.toList.length) = k := by
  obtain ⟨rest, rfl⟩ := h
  apply And.intro
  · rw [List.length_append, length_placeholder]
    omega
  · unfold placeholder
    rw [List.cons_append, List.cons_append, List.drop_one, List.tail_cons, List.append_assoc,
      List.take_left', String.ofList_toList]
    rfl

theorem reference_spec (h : reference σ cs = some (k, v)) :
    placeholder k <+: cs ∧ σ k = some v := by
  obtain ⟨n, -, hn⟩ := List.exists_of_findSome?_eq_some h
  dsimp only at hn
  split_ifs at hn with hpre
  obtain ⟨w, hw, hkv⟩ := Option.map_eq_some_iff.1 hn
  obtain ⟨hk, hv⟩ := Prod.mk.injEq .. ▸ hkv
  subst hk hv
  exact ⟨List.isPrefixOf_iff_prefix.1 hpre, hw⟩

theorem reference_eq_none_iff :
    reference σ cs = none ↔ ∀ k, placeholder k <+: cs → σ k = none := by
  unfold reference
  rw [List.findSome?_eq_none_iff]
  apply Iff.intro
  · intro h k hk
    obtain ⟨hlt, hname⟩ := name_of_prefix hk
    have hn := h k.toList.length (List.mem_range.2 hlt)
    dsimp only at hn
    rw [hname, if_pos (List.isPrefixOf_iff_prefix.2 hk), Option.map_eq_none_iff] at hn
    exact hn
  · intro h n _
    dsimp only
    split_ifs with hpre
    · rw [h _ (List.isPrefixOf_iff_prefix.1 hpre), Option.map_none]
    · rfl

theorem substitute_skip (n : ℕ) :
    substitute σ p n cs = substitute σ (p + n) 0 (cs.drop n) := by
  induction n generalizing p cs with
  | zero => rfl
  | succ n ih =>
    cases cs with
    | nil =>
      rw [List.drop_nil]
      unfold substitute
      rfl
    | cons c cs =>
      rw [substitute, ih, List.drop_succ_cons, Nat.add_right_comm, Nat.add_assoc]

/-- The rest of the template `T` from its `p`-th character on, substituted. -/
def rest (σ : String → Option String) (T : List Char) (p : ℕ) : Origin Char ℕ :=
  substitute σ p 0 (T.drop p)

theorem rest_of_le (h : T.length ≤ p) : rest σ T p = [] := by
  unfold rest
  rw [List.drop_eq_nil_of_le h]
  rfl

theorem rest_of_reference (h : reference σ (T.drop p) = some (k, v)) :
    rest σ T p = inserted v.toList ++ rest σ T (p + (placeholder k).length) := by
  have hpre := (reference_spec h).1
  have hpos := placeholder_pos k
  unfold rest
  cases hcs : T.drop p with
  | nil =>
    rw [hcs] at hpre
    rw [List.eq_nil_of_prefix_nil hpre] at hpos
    exact absurd hpos (Nat.lt_irrefl 0)
  | cons c cs =>
    rw [hcs] at h
    rw [substitute, h]
    dsimp only
    rw [substitute_skip, drop_pred hpos c, ← hcs, List.drop_drop]
    congr 2
    omega

theorem rest_of_none (hp : p < T.length) (h : reference σ (T.drop p) = none) :
    rest σ T p = (T[p], some p) :: rest σ T (p + 1) := by
  unfold rest
  rw [List.drop_eq_getElem_cons hp] at h ⊢
  rw [substitute, h]

/-- Each character that comes from the template is the one that stands there. -/
theorem getElem?_of_mem_rest {c : Char} {i : ℕ} (h : (c, some i) ∈ rest σ T p) :
    T[i]? = some c := by
  induction hm : T.length - p using Nat.strong_induction_on generalizing p with
  | _ m ih =>
    subst hm
    by_cases hp : p < T.length
    · cases hr : reference σ (T.drop p) with
      | none =>
        rw [rest_of_none hp hr, List.mem_cons] at h
        rcases h with heq | h
        · obtain ⟨hc, hi⟩ := Prod.mk.injEq .. ▸ heq
          rw [Option.some.inj hi, hc, List.getElem?_eq_getElem hp]
        · exact ih _ (by omega) h rfl
      | some kv =>
        have hpos := placeholder_pos kv.1
        rw [rest_of_reference hr, List.mem_append] at h
        rcases h with h | h
        · obtain ⟨d, -, hd⟩ := List.mem_map.1 h
          cases (Prod.mk.injEq .. ▸ hd).2
        · exact ih _ (by omega) h rfl
    · rw [rest_of_le (Nat.le_of_not_lt hp)] at h
      cases h

theorem take_rest (hn : ∀ q, p ≤ q → q < p + n → reference σ (T.drop q) = none)
    (hle : p + n ≤ T.length) :
    (rest σ T p).take n = ((T.drop p).take n).zip (stretch p n) ∧
      (rest σ T p).drop n = rest σ T (p + n) := by
  induction n generalizing p with
  | zero => exact ⟨rfl, rfl⟩
  | succ n ih =>
    have hp : p < T.length := by omega
    obtain ⟨htake, hdrop⟩ := ih (p := p + 1) (fun q hq hlt => hn q (by omega) (by omega)) (by omega)
    have hrest := rest_of_none hp (hn p (le_refl p) (by omega))
    apply And.intro
    · rw [hrest, List.take_succ_cons, htake, List.drop_eq_getElem_cons hp, List.take_succ_cons]
      rfl
    · rw [hrest, List.drop_succ_cons, hdrop]
      congr 1
      omega

end References

section Stage

variable {σ : String → Option String} {T : List Char} {p : ℕ} {k v : String}

def RefersAt (T : List Char) (k : String) (p : ℕ) : Prop := placeholder k <+: T.drop p

def Separate (T : List Char) (names : List String) : Prop :=
  ∀ k ∈ names, ∀ k' ∈ names, ∀ p p', RefersAt T k p → RefersAt T k' p' →
    p ≤ p' → p' < p + (placeholder k).length → k = k' ∧ p = p'

theorem RefersAt.le (h : RefersAt T k p) : p + (placeholder k).length ≤ T.length := by
  have hle := h.length_le
  have hpos := placeholder_pos k
  rw [List.length_drop] at hle
  omega

/-- A stretch of the template that makes up a reference is one that the template has. -/
theorem refersAt_of_stretch {s : Origin Char ℕ} {q : ℕ}
    (hs : ∀ c i, (c, some i) ∈ s → T[i]? = some c) (hfound : placeholder k <+: chars s)
    (ho : (s.take (placeholder k).length).map Prod.snd = stretch q (placeholder k).length) :
    RefersAt T k q := by
  unfold RefersAt
  rw [List.prefix_iff_getElem?]
  intro i hi
  have hc := List.prefix_iff_getElem?.1 hfound i hi
  unfold chars at hc
  rw [List.getElem?_map, Option.map_eq_some_iff] at hc
  obtain ⟨⟨c, o⟩, hsi, hc⟩ := hc
  have horigin := congrArg (·[i]?) ho
  dsimp only at horigin hc
  unfold stretch at horigin
  rw [List.getElem?_map, List.getElem?_take_of_lt hi, hsi, Option.map_some, List.getElem?_map,
    List.getElem?_range' hi, Option.map_some, Option.some.injEq, one_mul] at horigin
  dsimp only at horigin
  subst hc horigin
  rw [List.getElem?_drop]
  exact hs _ _ (List.mem_of_getElem? hsi)

/-- Once the variables of `σ` are substituted, each reference to the next one that is found is a
reference of the template. -/
def OnlyOwn (σ : String → Option String) (T : List Char) (k : String) : Prop :=
  ∀ o ∈ stretches (placeholder k) 0 (rest σ T 0), ∃ q, o = stretch q (placeholder k).length

theorem refersAt_of_onlyOwn (hown : OnlyOwn σ T k) {o : List (Option ℕ)}
    (ho : o ∈ stretches (placeholder k) 0 (rest σ T 0)) :
    ∃ q, RefersAt T k q ∧ o = stretch q (placeholder k).length := by
  obtain ⟨q, rfl⟩ := hown o ho
  obtain ⟨n, hfound, hn⟩ := exists_of_mem_stretches (placeholder_pos k) ho
  exact ⟨q, refersAt_of_stretch (fun c i hi => getElem?_of_mem_rest (List.mem_of_mem_drop hi))
    hfound hn, rfl⟩

section Next

variable {names : List String} (hsep : Separate T names) (hk : k ∈ names)
  (hσ : ∀ j, σ j ≠ none → j ∈ names) (hnew : σ k = none)

def withVar (σ : String → Option String) (k v : String) : String → Option String :=
  fun j => if j = k then some v else σ j

theorem withVar_self : withVar σ k v k = some v := if_pos rfl

theorem withVar_of_ne {j : String} (h : j ≠ k) : withVar σ k v j = σ j := if_neg h

theorem reference_withVar_of_none (hr : reference σ (T.drop p) = none) (href : ¬ RefersAt T k p) :
    reference (withVar σ k v) (T.drop p) = none := by
  rw [reference_eq_none_iff] at hr ⊢
  intro j hj
  have hjk : j ≠ k := by
    rintro rfl
    exact href hj
  rw [withVar_of_ne hjk]
  exact hr j hj

theorem reference_withVar_self (hr : reference σ (T.drop p) = none) (href : RefersAt T k p) :
    reference (withVar σ k v) (T.drop p) = some (k, v) := by
  cases hnext : reference (withVar σ k v) (T.drop p) with
  | none =>
    have hno := reference_eq_none_iff.1 hnext k href
    rw [withVar_self] at hno
    cases hno
  | some iu =>
    obtain ⟨i, u⟩ := iu
    obtain ⟨hi, hiu⟩ := reference_spec hnext
    have hik : i = k := by
      by_contra hik
      rw [withVar_of_ne hik, reference_eq_none_iff.1 hr i hi] at hiu
      cases hiu
    rw [hik, withVar_self] at hiu
    rw [hik, Option.some.inj hiu]

include hsep hk hσ hnew

/-- No reference to another name starts inside one to `k`. -/
theorem reference_inside (href : RefersAt T k p) {q : ℕ} (hpq : p ≤ q)
    (hq : q < p + (placeholder k).length) : reference σ (T.drop q) = none := by
  rw [reference_eq_none_iff]
  intro j hj
  by_contra hσj
  obtain ⟨rfl, -⟩ := hsep k hk j (hσ j hσj) p q href hj hpq hq
  exact hσj hnew

theorem reference_withVar_before {j w : String} (hr : reference σ (T.drop p) = some (j, w)) :
    reference (withVar σ k v) (T.drop p) = some (j, w) := by
  obtain ⟨hj, hjw⟩ := reference_spec hr
  have hjk : j ≠ k := by
    rintro rfl
    cases hnew.symm.trans hjw
  cases hnext : reference (withVar σ k v) (T.drop p) with
  | none =>
    have hno := reference_eq_none_iff.1 hnext j hj
    rw [withVar_of_ne hjk, hjw] at hno
    cases hno
  | some iu =>
    obtain ⟨i, u⟩ := iu
    obtain ⟨hi, hiu⟩ := reference_spec hnext
    have hinames : i ∈ names := by
      by_cases hik : i = k
      · exact hik ▸ hk
      · rw [withVar_of_ne hik] at hiu
        exact hσ i (by rw [hiu]; exact Option.some_ne_none u)
    have hjnames : j ∈ names := hσ j (by rw [hjw]; exact Option.some_ne_none w)
    have hpos := placeholder_pos j
    obtain ⟨rfl, -⟩ := hsep j hjnames i hinames p p hj hi (le_refl p) (by omega)
    rw [withVar_of_ne hjk, hjw] at hiu
    rw [Option.some.inj hiu]

/-- A reference to `k` is still in the text, as it stands in the template. -/
theorem rest_of_refersAt (href : RefersAt T k p) :
    placeholder k <+: chars (rest σ T p) ∧
      ((rest σ T p).take (placeholder k).length).map Prod.snd =
        stretch p (placeholder k).length ∧
      (rest σ T p).drop (placeholder k).length = rest σ T (p + (placeholder k).length) := by
  have hlen := length_stretch p (placeholder k).length
  obtain ⟨htake, hdrop⟩ :=
    take_rest (fun q hpq hq => reference_inside hsep hk hσ hnew href hpq hq) href.le
  rw [← List.prefix_iff_eq_take.1 href] at htake
  refine ⟨?_, ?_, hdrop⟩
  · rw [List.prefix_iff_eq_take, chars, ← List.map_take, htake]
    exact (List.map_fst_zip (le_of_eq hlen.symm)).symm
  · rw [htake]
    exact List.map_snd_zip (le_of_eq hlen)

/-- One replacement in the whole text, where it finds references of the template only, takes each
of them and is as if its variable had been substituted with those before. -/
theorem replace_rest
    (hown : ∀ o ∈ stretches (placeholder k) 0 (rest σ T p),
      ∃ q, o = stretch q (placeholder k).length) :
    replace (placeholder k) v.toList 0 (rest σ T p) = rest (withVar σ k v) T p ∧
      ∀ q, p ≤ q → RefersAt T k q →
        stretch q (placeholder k).length ∈ stretches (placeholder k) 0 (rest σ T p) := by
  have hpos := placeholder_pos k
  induction hm : T.length - p using Nat.strong_induction_on generalizing p with
  | _ m ih =>
    subst hm
    by_cases hp : p < T.length
    swap
    · rw [rest_of_le (Nat.le_of_not_lt hp), rest_of_le (Nat.le_of_not_lt hp)]
      refine ⟨rfl, fun q hq href => ?_⟩
      have hle := href.le
      omega
    cases hr : reference σ (T.drop p) with
    | some jw =>
      obtain ⟨j, w⟩ := jw
      -- a variable that was substituted before: what it put in is passed over
      obtain ⟨hj, hjw⟩ := reference_spec hr
      have hjnames : j ∈ names := hσ j (by rw [hjw]; exact Option.some_ne_none w)
      have hposj := placeholder_pos j
      have hplain (o : List (Option ℕ)) (ho : o ∈ stretches (placeholder k) 0 (rest σ T p)) :
          none ∉ o := by
        obtain ⟨q, rfl⟩ := hown o ho
        exact none_not_mem_stretch q _
      rw [rest_of_reference hr] at hown hplain
      obtain ⟨hs, hrep⟩ := replace_inserted v.toList hpos hplain
      rw [hs] at hown
      obtain ⟨hrest, hall⟩ := ih _ (by omega) hown rfl
      rw [rest_of_reference hr,
        rest_of_reference (reference_withVar_before hsep hk hσ hnew hr), hs, hrep, hrest]
      refine ⟨rfl, fun q hq href => hall q ?_ href⟩
      by_contra hlt
      obtain ⟨rfl, -⟩ := hsep j hjnames k hk p q hj href hq (by omega)
      cases hnew.symm.trans hjw
    | none =>
      by_cases href : RefersAt T k p
      · obtain ⟨hfound, hstretch, hdrop⟩ := rest_of_refersAt hsep hk hσ hnew href
        rw [stretches_at_match hpos hfound, hdrop, hstretch] at hown
        obtain ⟨hrest, hall⟩ := ih _ (by omega)
          (fun o ho => hown o (List.mem_cons_of_mem _ ho)) rfl
        rw [rest_of_reference (reference_withVar_self hr href), replace_at_match hpos hfound,
          stretches_at_match hpos hfound, hdrop, hrest, hstretch]
        refine ⟨rfl, fun q hq hrefq => ?_⟩
        by_cases hlt : q < p + (placeholder k).length
        · obtain ⟨-, rfl⟩ := hsep k hk k hk p q href hrefq hq hlt
          exact List.mem_cons_self
        · exact List.mem_cons_of_mem _ (hall q (by omega) hrefq)
      · -- a character of the template that stays
        have hrest := rest_of_none hp hr
        have hno : ¬ placeholder k <+: chars (rest σ T p) := by
          intro hfound
          obtain ⟨q, hq⟩ := hown _ (stretches_at_match hpos hfound ▸ List.mem_cons_self)
          have hqp : q = p := by
            obtain ⟨n, hn⟩ := Nat.exists_eq_succ_of_ne_zero hpos.ne'
            rw [hrest, hn, List.take_succ_cons, List.map_cons] at hq
            unfold stretch at hq
            rw [List.range'_succ, List.map_cons, List.cons.injEq] at hq
            exact (Option.some.inj hq.1).symm
          exact href (hqp ▸ refersAt_of_stretch (fun c i hi => getElem?_of_mem_rest hi) hfound hq)
        rw [hrest] at hno hown ⊢
        rw [stretches_at_other hno] at hown ⊢
        rw [replace_at_other hno, rest_of_none hp (reference_withVar_of_none hr href)]
        obtain ⟨heq, hall⟩ := ih _ (by omega) hown rfl
        refine ⟨congrArg (List.cons _) heq, fun q hq hrefq => hall q ?_ hrefq⟩
        rcases Nat.eq_or_lt_of_le hq with rfl | hlt
        · exact absurd hrefq href
        · exact hlt

end Next

end Stage

section Run

variable {T : List Char} {t : String} {vars pre : Vars}

def original (T : List Char) : Origin Char ℕ := T.zip (stretch 0 T.length)

/-- What rendering takes out: each stretch, and the variable whose value is put in for it. -/
def replacedBy : Vars → Origin Char ℕ → List (String × List (Option ℕ))
  | [], _ => []
  | (k, v) :: vars, s =>
    (stretches (placeholder k) 0 s).map (fun o => (k, o)) ++
      replacedBy vars (replace (placeholder k) v.toList 0 s)

def rendered (vars : Vars) (s : Origin Char ℕ) : Origin Char ℕ :=
  vars.foldl (fun s e => replace (placeholder e.1) e.2.toList 0 s) s

/-- Rendering replaces each reference of the template to a variable and nothing else, in
particular nothing that it has put in. -/
def ReplacesReferences (t : String) (vars : Vars) : Prop :=
  ∀ k o, (k, o) ∈ replacedBy vars (original t.toList) ↔
    k ∈ vars.map Prod.fst ∧ ∃ p, RefersAt t.toList k p ∧ o = stretch p (placeholder k).length

/-- No two references of the template overlap, and the values of the variables before one, put
into the template all at once, make up no reference to it. -/
structure Unmixed (t : String) (vars : Vars) : Prop where
  separate : Separate t.toList (vars.map Prod.fst)
  own : ∀ pre k v post, vars = pre ++ (k, v) :: post →
    OnlyOwn (fun j => pre.lookup j) t.toList k

theorem chars_replace (pat rep : List Char) (n : ℕ) (s : Origin Char ℕ) :
    chars (replace pat rep n s) = replaceFrom pat rep n (chars s) := by
  induction s generalizing n with
  | nil =>
    unfold replace chars replaceFrom
    rfl
  | cons c s ih =>
    cases n with
    | zero =>
      unfold replace
      change _ = replaceFrom pat rep 0 (c.1 :: chars s)
      unfold replaceFrom
      split_ifs with h h' h'
      · rw [chars_append, chars_inserted, ih]
      · exact absurd h h'
      · exact absurd h' h
      · exact congrArg (List.cons c.1) (ih 0)
    | succ n => exact ih n

/-- The texts of the two runs are the same. -/
theorem render_eq (t : String) (vars : Vars) :
    render t vars = String.ofList (chars (rendered vars (original t.toList))) := by
  have hrun (s : Origin Char ℕ) :
      vars.foldl (fun s e => String.ofList (replaceFrom (placeholder e.1) e.2.toList 0 s.toList))
        (String.ofList (chars s)) = String.ofList (chars (rendered vars s)) := by
    induction vars generalizing s with
    | nil => rfl
    | cons e vars ih =>
      rw [List.foldl_cons, String.toList_ofList, ← chars_replace]
      exact ih _
  have hstart : chars (original t.toList) = t.toList := by
    exact List.map_fst_zip (length_stretch _ _).ge
  rw [← hrun, hstart, String.ofList_toList]
  rfl

theorem rest_nothing (T : List Char) : rest (fun _ => none) T 0 = original T := by
  have hfree (q : ℕ) (_ : 0 ≤ q) (_ : q < 0 + T.length) :
      reference (fun _ => none) (T.drop q) = none :=
    reference_eq_none_iff.2 (fun _ _ => rfl)
  have hend : rest (fun _ => none) T (0 + T.length) = [] := rest_of_le (Nat.zero_add _).ge
  obtain ⟨htake, hdrop⟩ := take_rest hfree (Nat.zero_add _).le
  rw [hend] at hdrop
  rw [← List.take_append_drop T.length (rest (fun _ => none) T 0), htake, hdrop, List.append_nil,
    List.drop_zero, List.take_length]
  rfl

theorem lookup_concat {k v : String} (hk : k ∉ pre.map Prod.fst) :
    (fun j => (pre ++ [(k, v)]).lookup j) = withVar (fun j => pre.lookup j) k v := by
  funext j
  unfold withVar
  dsimp only
  induction pre with
  | nil =>
    rw [List.nil_append, List.lookup_cons]
    split_ifs with h
    · rw [beq_iff_eq.2 h]
    · rw [beq_false_of_ne h]
  | cons e pre ih =>
    rw [List.map_cons, List.mem_cons, not_or] at hk
    rw [List.cons_append, List.lookup_cons, List.lookup_cons, ih hk.2]
    cases he : j == e.1 with
    | false => rfl
    | true =>
      have hj : j ≠ k := fun h => hk.1 (h.symm.trans (beq_iff_eq.1 he))
      exact (if_neg hj).symm

theorem lookup_ne_none {j : String} (h : pre.lookup j ≠ none) : j ∈ pre.map Prod.fst := by
  by_contra hj
  apply h
  rw [List.lookup_eq_none_iff]
  intro e he
  rw [bne_iff_ne]
  rintro rfl
  exact hj (List.mem_map_of_mem he)

/-- One variable of a run: where its references are its own, the rest of the run starts at the
template with it and the variables before substituted at once. -/
theorem step_rest {k v : String} {post : Vars} (hvars : (vars.map Prod.fst).Nodup)
    (hsep : Separate T (vars.map Prod.fst)) (hsplit : vars = pre ++ (k, v) :: post)
    (hown : OnlyOwn (fun j => pre.lookup j) T k) :
    replace (placeholder k) v.toList 0 (rest (fun j => pre.lookup j) T 0) =
        rest (fun j => (pre ++ [(k, v)]).lookup j) T 0 ∧
      ∀ o, o ∈ stretches (placeholder k) 0 (rest (fun j => pre.lookup j) T 0) ↔
        ∃ p, RefersAt T k p ∧ o = stretch p (placeholder k).length := by
  subst hsplit
  rw [List.map_append, List.map_cons, List.nodup_append] at hvars
  have hnew : k ∉ pre.map Prod.fst :=
    fun hk => hvars.2.2 k hk k List.mem_cons_self rfl
  have hkeys (j : String) (hj : pre.lookup j ≠ none) :
      j ∈ (pre ++ (k, v) :: post).map Prod.fst := by
    rw [List.map_append]
    exact List.mem_append_left _ (lookup_ne_none hj)
  have hk : k ∈ (pre ++ (k, v) :: post).map Prod.fst := by
    rw [List.map_append]
    exact List.mem_append_right _ List.mem_cons_self
  have hnone : pre.lookup k = none := by
    by_contra hne
    exact hnew (lookup_ne_none hne)
  obtain ⟨hrest, hall⟩ := replace_rest (v := v) hsep hk hkeys hnone hown
  refine ⟨hrest.trans (by rw [lookup_concat hnew]), fun o => ?_⟩
  apply Iff.intro
  · exact refersAt_of_onlyOwn hown
  · rintro ⟨p, hp, rfl⟩
    exact hall p (Nat.zero_le p) hp

theorem run_rest (hvars : (vars.map Prod.fst).Nodup) (hsep : Separate T (vars.map Prod.fst))
    (hown : ∀ pre k v post, vars = pre ++ (k, v) :: post → OnlyOwn (fun j => pre.lookup j) T k)
    {post : Vars} (hsplit : vars = pre ++ post) :
    rendered post (rest (fun j => pre.lookup j) T 0) = rest (fun j => vars.lookup j) T 0 ∧
      ∀ k o, (k, o) ∈ replacedBy post (rest (fun j => pre.lookup j) T 0) ↔
        k ∈ post.map Prod.fst ∧ ∃ p, RefersAt T k p ∧ o = stretch p (placeholder k).length := by
  induction post generalizing pre with
  | nil =>
    rw [hsplit, List.append_nil]
    exact ⟨rfl, fun k o => by simp [replacedBy]⟩
  | cons e post ih =>
    obtain ⟨k, v⟩ := e
    obtain ⟨hstep, hfound⟩ := step_rest hvars hsep hsplit (hown _ _ _ _ hsplit)
    have hrest : vars = (pre ++ [(k, v)]) ++ post := by
      rw [hsplit, List.append_assoc]
      rfl
    obtain ⟨hrun, hreplaced⟩ := ih hrest
    unfold rendered at hrun ⊢
    rw [List.foldl_cons, hstep]
    refine ⟨hrun, fun j o => ?_⟩
    unfold replacedBy
    rw [hstep, List.mem_append, hreplaced, List.mem_map, List.map_cons, List.mem_cons]
    apply Iff.intro
    · rintro (⟨o', ho', heq⟩ | ⟨hj, hex⟩)
      · obtain ⟨rfl, rfl⟩ := Prod.mk.injEq .. ▸ heq
        exact ⟨Or.inl rfl, (hfound _).1 ho'⟩
      · exact ⟨Or.inr hj, hex⟩
    · rintro ⟨rfl | hj, hex⟩
      · exact Or.inl ⟨o, (hfound o).2 hex, rfl⟩
      · exact Or.inr ⟨hj, hex⟩

theorem nodup_replacedBy (vars : Vars) {s : Origin Char ℕ} (hs : (origins s).Nodup) :
    ((replacedBy vars s).flatMap fun e => e.2.filterMap id).Nodup := by
  have hperm : (((replacedBy vars s).flatMap fun e => e.2.filterMap id) ++
      origins (rendered vars s)).Perm (origins s) := by
    clear hs
    induction vars generalizing s with
    | nil => exact List.Perm.refl _
    | cons e vars ih =>
      obtain ⟨k, v⟩ := e
      refine List.Perm.trans ?_ (origins_replace v.toList (placeholder_pos k))
      unfold replacedBy
      rw [List.flatMap_append, List.flatMap_map, List.append_assoc]
      exact List.Perm.append_left _ ih
  exact (hperm.nodup_iff.2 hs).of_append_left

theorem nodup_original (T : List Char) : (origins (original T)).Nodup := by
  have heq : origins (original T) = List.range' 0 T.length := by
    unfold origins
    have hsnd : (original T).map Prod.snd = stretch 0 T.length := by
      exact List.map_snd_zip (length_stretch _ _).le
    calc (original T).filterMap Prod.snd
        = ((original T).map Prod.snd).filterMap id := by rw [List.filterMap_map]; rfl
      _ = List.range' 0 T.length := by
          rw [hsnd, stretch, List.filterMap_map]
          exact List.filterMap_some
  rw [heq]
  exact List.nodup_range'

/-- References that are all replaced do not overlap. -/
theorem separate_of_replacesReferences (h : ReplacesReferences t vars) :
    Separate t.toList (vars.map Prod.fst) := by
  intro k hk k' hk' p p' hp hp' hle hlt
  have hpos := placeholder_pos k
  have hpos' := placeholder_pos k'
  have hmem := (h k _).2 ⟨hk, p, hp, rfl⟩
  have hmem' := (h k' _).2 ⟨hk', p', hp', rfl⟩
  by_contra hne
  have hdistinct : (k, stretch p (placeholder k).length) ≠
      (k', stretch p' (placeholder k').length) := by
    intro heq
    obtain ⟨hkk, ho⟩ := Prod.mk.injEq .. ▸ heq
    exact hne ⟨hkk, stretch_inj hpos ho⟩
  have hnodup := nodup_replacedBy vars (nodup_original t.toList)
  rw [List.nodup_flatMap] at hnodup
  have hsymm : Std.Symm (Function.onFun List.Disjoint
      fun e : String × List (Option ℕ) => e.2.filterMap id) := ⟨fun _ _ hd => hd.symm⟩
  have hdisjoint := hnodup.2.forall hmem hmem' hdistinct
  apply hdisjoint (a := p')
  · exact List.mem_filterMap.2 ⟨some p', mem_stretch.2 ⟨hle, hlt⟩, rfl⟩
  · exact List.mem_filterMap.2 ⟨some p', mem_stretch.2 ⟨le_refl p', by omega⟩, rfl⟩

/-- In a run that replaces references of the template only, each variable finds its own. -/
theorem onlyOwn_of_replacesReferences (hvars : (vars.map Prod.fst).Nodup)
    (h : ReplacesReferences t vars) {k v : String} {post : Vars}
    (hsplit : vars = pre ++ (k, v) :: post) : OnlyOwn (fun j => pre.lookup j) t.toList k := by
  have hsep := separate_of_replacesReferences h
  have hpart (pre' post' : Vars) (hp : vars = pre' ++ post') :
      (∀ e ∈ replacedBy post' (rest (fun j => pre'.lookup j) t.toList 0),
        e ∈ replacedBy vars (original t.toList)) := by
    induction pre' using List.reverseRecOn generalizing post' with
    | nil =>
      intro e he
      rw [hp, ← rest_nothing]
      exact he
    | append_singleton pre' e ih =>
      obtain ⟨j, w⟩ := e
      rw [List.append_assoc] at hp
      have hall := ih _ hp
      have hown : OnlyOwn (fun i => pre'.lookup i) t.toList j := by
        intro o ho
        obtain ⟨-, q, -, hq⟩ := (h j o).1 (hall _ (List.mem_append_left _ (List.mem_map_of_mem ho)))
        exact ⟨q, hq⟩
      intro e he
      apply hall
      apply List.mem_append_right
      rw [(step_rest hvars hsep hp hown).1]
      exact he
  intro o ho
  obtain ⟨-, q, -, hq⟩ :=
    (h k o).1 (hpart _ _ hsplit _ (List.mem_append_left _ (List.mem_map_of_mem ho)))
  exact ⟨q, hq⟩

/-- Rendering is the substitution of all variables at once, with each reference of the template
replaced and no text that was put in, just where the variables do not mix. Which variable comes
first matters for the rendering only. -/
theorem render_eq_simultaneous_iff (hvars : (vars.map Prod.fst).Nodup) :
    (render t vars = simultaneous (fun j => vars.lookup j) t ∧ ReplacesReferences t vars) ↔
      Unmixed t vars := by
  apply Iff.intro
  · rintro ⟨-, h⟩
    exact ⟨separate_of_replacesReferences h,
      fun _ _ _ _ hsplit => onlyOwn_of_replacesReferences hvars h hsplit⟩
  · intro h
    have hstart : vars = [] ++ vars := rfl
    obtain ⟨hrun, hreplaced⟩ := run_rest hvars h.separate h.own hstart
    change rendered vars (rest (fun _ => none) t.toList 0) = _ at hrun
    change ∀ k o, (k, o) ∈ replacedBy vars (rest (fun _ => none) t.toList 0) ↔ _ at hreplaced
    rw [rest_nothing] at hrun hreplaced
    refine ⟨?_, hreplaced⟩
    rw [render_eq, hrun]
    rfl

theorem render_eq_simultaneous_iff_plain :
    (([("a", "x"), ("b", "1")] : Vars).map Prod.fst).Nodup ∧
      ((render "\x7ba\x7d \x7bb\x7d" [("a", "x"), ("b", "1")] =
          simultaneous (fun j => [("a", "x"), ("b", "1")].lookup j) "\x7ba\x7d \x7bb\x7d" ∧
        ReplacesReferences "\x7ba\x7d \x7bb\x7d" [("a", "x"), ("b", "1")]) ↔
        Unmixed "\x7ba\x7d \x7bb\x7d" [("a", "x"), ("b", "1")]) :=
  ⟨by decide, render_eq_simultaneous_iff (by decide)⟩

/-- A value that is itself a reference to a later variable is expanded. -/
theorem render_not_simultaneous :
    ¬ ∀ (t : String) (vars : Vars), (vars.map Prod.fst).Nodup →
      render t vars = simultaneous (fun j => vars.lookup j) t := by
  intro h
  have hb := h "\x7ba\x7d" [("a", "\x7bb\x7d"), ("b", "1")] (by decide)
  exact absurd hb (by decide +kernel)

end Run

end Assayist
