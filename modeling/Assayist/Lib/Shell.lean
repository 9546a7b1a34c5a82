import Mathlib.Data.List.Basic

/-! Command lines as a POSIX shell splits them into words: at blanks, with everything between two
single quotes kept as it is. A command line that says more than its words, by a character that
means something to the shell and is not quoted, or by a quotation that is not closed, has no
words here. -/

namespace Shell

/-- Characters that stand for themselves wherever they are. -/
def plain (c : Char) : Bool := c.isAlphanum || "-_./:,@+".toList.contains c

def blank (c : Char) : Bool := c = ' ' || c = '\t' || c = '\n'

/-- The words of a command line, where `word` is what has been read of the one that the line
begins in, if any, and `quoted` says that the line begins inside a quotation. -/
def splitFrom : Option (List Char) → Bool → List Char → Option (List (List Char))
  | word, false, [] => some word.toList
  | _, true, [] => none
  | word, true, c :: cs =>
    if c = '\'' then splitFrom word false cs
    else splitFrom (some (word.getD [] ++ [c])) true cs
  | word, false, c :: cs =>
    if c = '\'' then splitFrom (some (word.getD [])) true cs
    else if blank c then (splitFrom none false cs).map (word.toList ++ ·)
    else if plain c then splitFrom (some (word.getD [] ++ [c])) false cs
    else none

def split (line : List Char) : Option (List (List Char)) := splitFrom none false line

inductive Written where
  | bare (w : List Char)
  | quoted (w : List Char)

namespace Written

def word : Written → List Char
  | bare w => w
  | quoted w => w

def text : Written → List Char
  | bare w => w
  | quoted w => '\'' :: w ++ ['\'']

def Proper : Written → Prop
  | bare w => w ≠ [] ∧ ∀ c ∈ w, plain c = true
  | quoted _ => True

end Written

def line (ws : List Written) : List Char := [' '].intercalate (ws.map Written.text)

section Splitting

variable {word : Option (List Char)} {w cs : List Char}

theorem splitFrom_quoted (h : '\'' ∉ w) :
    splitFrom word true (w ++ '\'' :: cs) =
      splitFrom (if w = [] then word else some (word.getD [] ++ w)) false cs := by
  induction w generalizing word with
  | nil =>
    rw [List.nil_append, splitFrom, if_pos rfl, if_pos rfl]
  | cons c w ih =>
    obtain ⟨hc, hw⟩ := not_or.1 (List.mem_cons.not.1 h)
    rw [List.cons_append, splitFrom, if_neg (Ne.symm hc), ih hw, if_neg (List.cons_ne_nil c w)]
    split_ifs with hnil
    · rw [hnil]
    · rw [Option.getD_some, List.append_assoc, List.singleton_append]

theorem splitFrom_plain (hne : w ≠ []) (h : ∀ c ∈ w, plain c = true) :
    splitFrom word false (w ++ cs) = splitFrom (some (word.getD [] ++ w)) false cs := by
  induction w generalizing word with
  | nil => exact absurd rfl hne
  | cons c w ih =>
    have hc := h c List.mem_cons_self
    have hquote : c ≠ '\'' := by
      rintro rfl
      exact absurd hc (by decide)
    have hblank : blank c = false := by
      by_contra hb
      rw [Bool.not_eq_false, blank, Bool.or_eq_true, Bool.or_eq_true, decide_eq_true_iff,
        decide_eq_true_iff, decide_eq_true_iff] at hb
      rcases hb with (rfl | rfl) | rfl <;> exact absurd hc (by decide)
    rw [List.cons_append, splitFrom, if_neg hquote, hblank, if_neg Bool.false_ne_true, hc,
      if_pos rfl]
    cases hw : w with
    | nil => rfl
    | cons d w' =>
      rw [← hw, ih (hw ▸ List.cons_ne_nil d w')
        (fun d hd => h d (List.mem_cons_of_mem c hd)), Option.getD_some, List.append_assoc,
        List.singleton_append]

/-- One word is read as it is meant where it holds no quote. -/
theorem splitFrom_text {x : Written} (hproper : x.Proper) (h : '\'' ∉ x.word) :
    splitFrom none false (x.text ++ cs) = splitFrom (some x.word) false cs := by
  cases x with
  | bare w => exact splitFrom_plain hproper.1 hproper.2
  | quoted w =>
    change '\'' ∉ w at h
    change splitFrom none false ('\'' :: (w ++ ['\'']) ++ cs) = splitFrom (some w) false cs
    rw [List.cons_append, List.append_assoc, List.singleton_append, splitFrom, if_pos rfl,
      splitFrom_quoted h]
    split_ifs with hnil
    · rw [hnil]
      rfl
    · rfl

theorem split_line {ws : List Written} (hproper : ∀ x ∈ ws, x.Proper)
    (h : ∀ x ∈ ws, '\'' ∉ x.word) : split (line ws) = some (ws.map Written.word) := by
  unfold split line
  induction ws with
  | nil => rfl
  | cons x ws ih =>
    have hx (cs : List Char) :
        splitFrom none false (x.text ++ cs) = splitFrom (some x.word) false cs :=
      splitFrom_text (hproper x List.mem_cons_self) (h x List.mem_cons_self)
    cases hws : ws with
    | nil =>
      rw [List.map_singleton, List.intercalate_singleton, ← List.append_nil x.text, hx]
      rfl
    | cons y ws' =>
      have hrest := ih (fun z hz => hproper z (List.mem_cons_of_mem x hz))
        (fun z hz => h z (List.mem_cons_of_mem x hz))
      rw [hws] at hrest
      rw [List.map_cons, List.map_cons, List.intercalate_cons_cons, List.append_assoc, hx,
        List.singleton_append, splitFrom, if_neg (by decide),
        if_pos (by decide : blank ' ' = true)]
      rw [List.map_cons] at hrest
      rw [hrest]
      rfl

/-- No word that is read holds a quote. -/
theorem not_mem_of_splitFrom {quoted : Bool} {ws : List (List Char)}
    (hword : ∀ w ∈ word, '\'' ∉ w) (h : splitFrom word quoted cs = some ws) :
    ∀ w ∈ ws, '\'' ∉ w := by
  induction cs generalizing word quoted ws with
  | nil =>
    cases quoted with
    | true => cases h
    | false =>
      obtain rfl := Option.some.inj h
      intro w hw
      exact hword w (Option.mem_toList.1 hw)
  | cons c cs ih =>
    have hgetD : '\'' ∉ word.getD [] := by
      cases word with
      | none => exact List.not_mem_nil
      | some w => exact hword w rfl
    have hnext (hc : c ≠ '\'') : ∀ w ∈ some (word.getD [] ++ [c]), '\'' ∉ w := by
      intro w hw
      rw [← Option.some.inj hw, List.mem_append, List.mem_singleton]
      exact not_or.2 ⟨hgetD, fun he => hc he.symm⟩
    cases quoted with
    | true =>
      unfold splitFrom at h
      split_ifs at h with hc
      · exact ih hword h
      · exact ih (hnext hc) h
    | false =>
      unfold splitFrom at h
      split_ifs at h with hc hblank hplain
      · exact ih (fun w hw => Option.some.inj hw ▸ hgetD) h
      · obtain ⟨rest, hrest, rfl⟩ := Option.map_eq_some_iff.1 h
        intro w hw
        rcases List.mem_append.1 hw with hw | hw
        · exact hword w (Option.mem_toList.1 hw)
        · exact ih (fun _ hw => by cases hw) hrest w hw
      · exact ih (hnext hc) h

/-- A command line is split into the words it is meant to have just where none of them holds a
quote. -/
theorem split_line_iff {ws : List Written} (hproper : ∀ x ∈ ws, x.Proper) :
    split (line ws) = some (ws.map Written.word) ↔ ∀ x ∈ ws, '\'' ∉ x.word := by
  apply Iff.intro
  · intro h x hx
    exact not_mem_of_splitFrom (fun _ hw => by cases hw) h _ (List.mem_map_of_mem hx)
  · exact split_line hproper

end Splitting

end Shell
