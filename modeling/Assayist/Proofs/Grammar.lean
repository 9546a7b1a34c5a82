import Assayist.Lib.Results
import Assayist.Proofs.Owner

/-! Which lines the owner takes for commands. It reads the fields that a verb needs and no
further, and its numbers may carry a plus sign; the grammar of the control protocol has neither. -/

namespace Assayist

namespace Owner

section Grammar

def Numeral (bound : ℕ) (w : List Char) (n : ℕ) : Prop :=
  w ≠ [] ∧ (∀ c ∈ w, c.isDigit = true) ∧ Nat.ofDigitChars 10 w 0 = n ∧ n < bound

/-- A number that may carry a plus sign. -/
def Signed (bound : ℕ) (w : List Char) (n : ℕ) : Prop :=
  Numeral bound w n ∨ ∃ ds, w = '+' :: ds ∧ Numeral bound ds n

def stateNames : List (String × UInt8) :=
  [("RUNNING", lifecycleRunning), ("PAUSING", lifecyclePausing), ("PAUSED", lifecyclePaused),
    ("RESUMING", lifecycleResuming)]

def Names (w : List Char) (s : UInt8) : Prop :=
  ∃ name, (name, s) ∈ stateNames ∧ w.map Char.toUpper = name.toList

/-- The command that a line's fields denote, `Num` saying how numbers are written. -/
inductive Denotes (Num : ℕ → List Char → ℕ → Prop) : List (List Char) → Command → Prop where
  | add {i h n : List Char} {ifindex : UInt32} {handle : UInt64} {netnsInum : UInt32} :
      Num (2 ^ 32) i ifindex.toNat → Num (2 ^ 64) h handle.toNat → Num (2 ^ 32) n netnsInum.toNat →
      Denotes Num ["add".toList, i, h, n] (.add ifindex handle netnsInum)
  | state {h name : List Char} {handle : UInt64} {s : UInt8} :
      Num (2 ^ 64) h handle.toNat → Names name s →
      Denotes Num ["state".toList, h, name] (.state handle s)
  | remove {h : List Char} {handle : UInt64} :
      Num (2 ^ 64) h handle.toNat → Denotes Num ["remove".toList, h] (.remove handle)

/-- The fields of a command, whatever follows them. -/
def Begins (ws : List (List Char)) (cmd : Command) : Prop :=
  ∃ fields surplus, ws = fields ++ surplus ∧ Denotes Signed fields cmd

end Grammar

section Numbers

theorem digitsBelow_eq_ok {bound acc n : ℕ} (hacc : acc < bound) {cs : List Char} :
    digitsBelow bound acc cs = .ok n ↔
      (∀ c ∈ cs, c.isDigit = true) ∧ Nat.ofDigitChars 10 cs acc = n ∧ n < bound := by
  by_cases hdigits : ∀ c ∈ cs, c.isDigit = true
  · rw [digitsBelow_eq hacc hdigits, and_iff_right hdigits]
    by_cases hbound : Nat.ofDigitChars 10 cs acc < bound
    · rw [if_pos hbound, Except.ok.injEq]
      exact ⟨fun h => ⟨h, h ▸ hbound⟩, And.left⟩
    · rw [if_neg hbound]
      refine iff_of_false (by simp) fun h => hbound ?_
      rw [h.1]
      exact h.2
  · refine iff_of_false (fun h => hdigits ?_) fun h => hdigits h.1
    clear hdigits
    induction cs generalizing acc with
    | nil => simp
    | cons c cs ih =>
      unfold digitsBelow at h
      dsimp only at h
      split_ifs at h with hc hnext
      rw [Bool.not_eq_false] at hc
      exact List.forall_mem_cons.2 ⟨hc, ih hnext h⟩

theorem digitsBelow_numeral {bound n : ℕ} (hbound : 0 < bound) {cs : List Char} (hcs : cs ≠ []) :
    digitsBelow bound 0 cs = .ok n ↔ Numeral bound cs n := by
  rw [digitsBelow_eq_ok hbound, Numeral, and_iff_right hcs]

theorem not_numeral_plus {bound n : ℕ} {ds : List Char} : ¬ Numeral bound ('+' :: ds) n := by
  intro h
  exact absurd (h.2.1 '+' List.mem_cons_self) (by decide)

theorem parseUnsigned_eq_ok {bound n : ℕ} (hbound : 0 < bound) {w : List Char} :
    parseUnsigned bound w = .ok n ↔ Signed bound w n := by
  unfold parseUnsigned
  split
  · refine iff_of_false (by simp) ?_
    rintro (h | ⟨ds, h, -⟩)
    · exact h.1 rfl
    · cases h
  · refine iff_of_false (by simp) ?_
    rintro (h | ⟨ds, h, hds⟩)
    · exact not_numeral_plus h
    · cases h
      exact hds.1 rfl
  · next ds hne =>
    have hds : ds ≠ [] := fun h => hne (by rw [h])
    rw [digitsBelow_numeral hbound hds]
    apply Iff.intro
    · intro h
      exact .inr ⟨ds, rfl, h⟩
    · rintro (h | ⟨ds', h, hds'⟩)
      · exact absurd h not_numeral_plus
      · cases h
        exact hds'
  · next hnil hplus hsign =>
    rw [digitsBelow_numeral hbound hnil]
    apply Iff.intro
    · exact Or.inl
    · rintro (h | ⟨ds, h, -⟩)
      · exact h
      · exact absurd h (hsign ds)

theorem Signed.lt {bound n : ℕ} {w : List Char} (h : Signed bound w n) : n < bound := by
  rcases h with h | ⟨ds, -, h⟩
  · exact h.2.2.2
  · exact h.2.2.2

theorem parseU32_eq_ok {w : List Char} {x : UInt32} :
    parseU32 w = .ok x ↔ Signed (2 ^ 32) w x.toNat := by
  rw [parseU32, Results.map_eq_ok, ← parseUnsigned_eq_ok (by decide)]
  apply Iff.intro
  · intro h
    obtain ⟨n, hn, rfl⟩ := h
    have hlt := ((parseUnsigned_eq_ok (by decide)).1 hn).lt
    rwa [UInt32.toNat_ofNat_of_lt' hlt]
  · intro h
    exact ⟨_, h, UInt32.ofNat_toNat⟩

theorem parseHandle_eq_ok {w : List Char} {x : UInt64} :
    parseHandle w = .ok x ↔ Signed (2 ^ 64) w x.toNat := by
  rw [parseHandle, Results.map_eq_ok, ← parseUnsigned_eq_ok (by decide)]
  apply Iff.intro
  · intro h
    obtain ⟨n, hn, rfl⟩ := h
    have hlt := ((parseUnsigned_eq_ok (by decide)).1 hn).lt
    rwa [UInt64.toNat_ofNat_of_lt' hlt]
  · intro h
    exact ⟨_, h, UInt64.ofNat_toNat⟩

end Numbers

section Fields

theorem stateFromName_eq_some {w : List Char} {s : UInt8} :
    stateFromName w = some s ↔ Names w s := by
  have hname (name : String) :
      w.map Char.toUpper = name.toList ↔ String.ofList (w.map Char.toUpper) = name := by
    rw [← String.toList_inj, String.toList_ofList]
  simp only [Names, hname, exists_eq_right', stateNames, stateFromName, List.mem_cons,
    Prod.mk.injEq, List.not_mem_nil, or_false]
  generalize String.ofList (w.map Char.toUpper) = upper
  split
  all_goals simp_all [eq_comm]

theorem nextField_eq_ok {missing : String} {fs rest : List (List Char)} {w : List Char} :
    nextField missing fs = .ok (w, rest) ↔ fs = w :: rest := by
  cases fs with
  | nil => simp [nextField]
  | cons f fs => simp [nextField]

theorem begins_add {f : List (List Char)} {cmd : Command} :
    Begins ("add".toList :: f) cmd ↔ ∃ i h n rest ifindex handle netnsInum,
      f = i :: h :: n :: rest ∧ Signed (2 ^ 32) i (UInt32.toNat ifindex) ∧
        Signed (2 ^ 64) h (UInt64.toNat handle) ∧ Signed (2 ^ 32) n (UInt32.toNat netnsInum) ∧
        cmd = .add ifindex handle netnsInum := by
  apply Iff.intro
  · intro hbegins
    obtain ⟨fields, surplus, hws, hden⟩ := hbegins
    cases hden with
    | add hi hh hn =>
      obtain rfl := (List.cons.inj hws).2
      exact ⟨_, _, _, _, _, _, _, rfl, hi, hh, hn, rfl⟩
    | state => exact absurd (List.cons.inj hws).1 (by decide)
    | remove => exact absurd (List.cons.inj hws).1 (by decide)
  · intro hfields
    obtain ⟨i, h, n, rest, ifindex, handle, netnsInum, rfl, hi, hh, hn, rfl⟩ := hfields
    exact ⟨_, rest, rfl, .add hi hh hn⟩

theorem begins_state {f : List (List Char)} {cmd : Command} :
    Begins ("state".toList :: f) cmd ↔ ∃ h name rest handle s,
      f = h :: name :: rest ∧ Signed (2 ^ 64) h (UInt64.toNat handle) ∧ Names name s ∧
        cmd = .state handle s := by
  apply Iff.intro
  · intro hbegins
    obtain ⟨fields, surplus, hws, hden⟩ := hbegins
    cases hden with
    | state hh hs =>
      obtain rfl := (List.cons.inj hws).2
      exact ⟨_, _, _, _, _, rfl, hh, hs, rfl⟩
    | add => exact absurd (List.cons.inj hws).1 (by decide)
    | remove => exact absurd (List.cons.inj hws).1 (by decide)
  · intro hfields
    obtain ⟨h, name, rest, handle, s, rfl, hh, hs, rfl⟩ := hfields
    exact ⟨_, rest, rfl, .state hh hs⟩

theorem begins_remove {f : List (List Char)} {cmd : Command} :
    Begins ("remove".toList :: f) cmd ↔ ∃ h rest handle,
      f = h :: rest ∧ Signed (2 ^ 64) h (UInt64.toNat handle) ∧ cmd = .remove handle := by
  apply Iff.intro
  · intro hbegins
    obtain ⟨fields, surplus, hws, hden⟩ := hbegins
    cases hden with
    | remove hh =>
      obtain rfl := (List.cons.inj hws).2
      exact ⟨_, _, _, rfl, hh, rfl⟩
    | add => exact absurd (List.cons.inj hws).1 (by decide)
    | state => exact absurd (List.cons.inj hws).1 (by decide)
  · intro hfields
    obtain ⟨h, rest, handle, rfl, hh, rfl⟩ := hfields
    exact ⟨_, rest, rfl, .remove hh⟩

theorem Begins.verb {verb : List Char} {f : List (List Char)} {cmd : Command}
    (h : Begins (verb :: f) cmd) :
    String.ofList verb = "add" ∨ String.ofList verb = "state" ∨ String.ofList verb = "remove" := by
  obtain ⟨fields, surplus, hws, hden⟩ := h
  cases hden with
  | add =>
    rw [(List.cons.inj hws).1]
    exact .inl rfl
  | state =>
    rw [(List.cons.inj hws).1]
    exact .inr (.inl rfl)
  | remove =>
    rw [(List.cons.inj hws).1]
    exact .inr (.inr rfl)

/-- The owner takes exactly the lines that begin with the fields of a command, for that
command. -/
theorem parseCommand_eq_ok {line : String} {cmd : Command} :
    parseCommand line = .ok cmd ↔ Begins (wordsOf line.toList) cmd := by
  have hverb {verb : List Char} {s : String} (h : String.ofList verb = s) : verb = s.toList := by
    rw [← h, String.toList_ofList]
  unfold parseCommand
  cases hws : wordsOf line.toList with
  | nil =>
    refine iff_of_false (by simp [nextField, bind, Except.bind]) ?_
    rintro ⟨fields, surplus, hnil, hden⟩
    cases hden <;> cases hnil
  | cons verb f =>
    rw [nextField, Results.bind_eq_ok]
    simp only [Except.ok.injEq, exists_eq_left']
    split
    · next hadd =>
      rw [hverb hadd, begins_add]
      simp only [Results.bind_eq_ok, Prod.exists, nextField_eq_ok, Results.pure_eq_ok,
        parseU32_eq_ok, parseHandle_eq_ok]
      apply Iff.intro
      · rintro ⟨i, _, rfl, ifindex, hi, h, _, rfl, handle, hh, n, rest, rfl, netnsInum, hn, rfl⟩
        exact ⟨i, h, n, rest, ifindex, handle, netnsInum, rfl, hi, hh, hn, rfl⟩
      · rintro ⟨i, h, n, rest, ifindex, handle, netnsInum, rfl, hi, hh, hn, rfl⟩
        exact ⟨i, _, rfl, ifindex, hi, h, _, rfl, handle, hh, n, rest, rfl, netnsInum, hn, rfl⟩
    · next hstate =>
      rw [hverb hstate, begins_state]
      simp only [Results.bind_eq_ok, Prod.exists, nextField_eq_ok, parseHandle_eq_ok]
      apply Iff.intro
      · rintro ⟨h, _, rfl, handle, hh, name, rest, rfl, hs⟩
        cases hname : stateFromName name with
        | none =>
          rw [hname] at hs
          cases hs
        | some s =>
          rw [hname] at hs
          obtain rfl := Results.pure_eq_ok.1 hs
          exact ⟨h, name, rest, handle, s, rfl, hh, stateFromName_eq_some.1 hname, rfl⟩
      · rintro ⟨h, name, rest, handle, s, rfl, hh, hs, rfl⟩
        refine ⟨h, _, rfl, handle, hh, name, rest, rfl, ?_⟩
        rw [stateFromName_eq_some.2 hs]
        rfl
    · next hremove =>
      rw [hverb hremove, begins_remove]
      simp only [Results.bind_eq_ok, Prod.exists, nextField_eq_ok, Results.pure_eq_ok,
        parseHandle_eq_ok]
      apply Iff.intro
      · rintro ⟨h, rest, rfl, handle, hh, rfl⟩
        exact ⟨h, rest, handle, rfl, hh, rfl⟩
      · rintro ⟨h, rest, handle, rfl, hh, rfl⟩
        exact ⟨h, rest, rfl, handle, hh, rfl⟩
    · next hadd hstate hremove =>
      refine iff_of_false (by simp) fun h => ?_
      rcases h.verb with h | h | h
      · exact hadd h
      · exact hstate h
      · exact hremove h

end Fields

section Exactness

/-- Every line is a command for the fields it begins with, or else an error. -/
theorem parseCommand_grammar (line : String) :
    (∀ cmd, parseCommand line = .ok cmd ↔
      ∃ fields surplus, wordsOf line.toList = fields ++ surplus ∧ Denotes Signed fields cmd) ∧
    ((∃ e, parseCommand line = .error e) ↔
      ∀ fields surplus, wordsOf line.toList = fields ++ surplus →
        ∀ cmd, ¬ Denotes Signed fields cmd) := by
  refine ⟨fun cmd => parseCommand_eq_ok, ?_⟩
  apply Iff.intro
  · rintro ⟨e, he⟩ fields surplus hws cmd hden
    have hok := parseCommand_eq_ok.2 ⟨fields, surplus, hws, hden⟩
    rw [he] at hok
    cases hok
  · intro h
    refine Results.exists_error fun cmd hok => ?_
    obtain ⟨fields, surplus, hws, hden⟩ := parseCommand_eq_ok.1 hok
    exact h fields surplus hws cmd hden

theorem denotes_remove {Num : ℕ → List Char → ℕ → Prop} {f : List (List Char)} {cmd : Command}
    (h : Denotes Num ("remove".toList :: f) cmd) : ∃ w n, f = [w] ∧ Num (2 ^ 64) w n := by
  generalize hfields : "remove".toList :: f = fields at h
  cases h with
  | add => exact absurd (List.cons.inj hfields).1 (by decide)
  | state => exact absurd (List.cons.inj hfields).1 (by decide)
  | remove hh => exact ⟨_, _, (List.cons.inj hfields).2, hh⟩

/-- A surplus field is not looked at, and a sign is passed over. -/
theorem parseCommand_lenient :
    (parseCommand "remove 7 8" = .ok (.remove 7) ∧
      ¬ ∃ cmd, Denotes Numeral (wordsOf "remove 7 8".toList) cmd) ∧
    (parseCommand "remove +7" = .ok (.remove 7) ∧
      ¬ ∃ cmd, Denotes Numeral (wordsOf "remove +7".toList) cmd) := by
  have hsurplus : wordsOf "remove 7 8".toList = ["remove".toList, "7".toList, "8".toList] := by
    decide
  have hsign : wordsOf "remove +7".toList = ["remove".toList, '+' :: "7".toList] := by
    decide
  refine ⟨⟨by decide, ?_⟩, by decide, ?_⟩
  · rintro ⟨cmd, h⟩
    rw [hsurplus] at h
    obtain ⟨w, n, hw, -⟩ := denotes_remove h
    cases hw
  · rintro ⟨cmd, h⟩
    rw [hsign] at h
    obtain ⟨w, n, hw, hn⟩ := denotes_remove h
    rw [← (List.cons.inj hw).1] at hn
    exact not_numeral_plus hn

end Exactness

end Owner

end Assayist
