import Mathlib.Logic.Basic

/-! Computations that carry a state and may stop early with an error, keeping the
state they reached. `wp` is the weakest precondition of such a computation under one
postcondition for each way of ending, and its rules are the control structure: a
sequence stops at its first error, `attempt` does not. -/

namespace Effect

/-- A computation over a state `σ` that returns or stops with an error. -/
abbrev Steps (ε σ α : Type) := ExceptT ε (StateM σ) α

section

variable {ε σ α β : Type}

def exec (m : Steps ε σ α) (s : σ) : Except ε α × σ := m.run.run s

/-- Every way `m` can end from `s` meets its postcondition. -/
def wp (m : Steps ε σ α) (s : σ) (Q : α → σ → Prop) (E : ε → σ → Prop) : Prop :=
  match exec m s with
  | (.ok a, s') => Q a s'
  | (.error e, s') => E e s'

/-- Run `m` and hand its result over as a value, an error included. -/
def attempt (m : Steps ε σ α) : Steps ε σ (Except ε α) := fun s =>
  let (r, s') := exec m s
  (.ok r, s')

def update (f : σ → σ) : Steps ε σ Unit := fun s => (.ok (), f s)

def look : Steps ε σ σ := fun s => (.ok s, s)

def give (r : Except ε α) : Steps ε σ α := fun s => (r, s)

@[simp] theorem exec_pure (a : α) (s : σ) : exec (pure a : Steps ε σ α) s = (.ok a, s) := rfl

@[simp] theorem exec_throw (e : ε) (s : σ) :
    exec (throw e : Steps ε σ α) s = (.error e, s) := rfl

@[simp] theorem exec_update (f : σ → σ) (s : σ) :
    exec (update f : Steps ε σ Unit) s = (.ok (), f s) := rfl

@[simp] theorem exec_look (s : σ) : exec (look : Steps ε σ σ) s = (.ok s, s) := rfl

@[simp] theorem exec_give (r : Except ε α) (s : σ) : exec (give r : Steps ε σ α) s = (r, s) := rfl

@[simp] theorem exec_attempt (m : Steps ε σ α) (s : σ) :
    exec (attempt m) s = (.ok (exec m s).1, (exec m s).2) := rfl

theorem exec_bind (m : Steps ε σ α) (f : α → Steps ε σ β) (s : σ) :
    exec (m >>= f) s =
      match exec m s with
      | (.ok a, s') => exec (f a) s'
      | (.error e, s') => (.error e, s') := by
  change (ExceptT.bindCont f (exec m s).1) (exec m s).2 = _
  rcases exec m s with ⟨_ | _, _⟩ <;> rfl

@[simp] theorem wp_pure (a : α) (s : σ) (Q : α → σ → Prop) (E : ε → σ → Prop) :
    wp (pure a : Steps ε σ α) s Q E ↔ Q a s := Iff.rfl

@[simp] theorem wp_throw (e : ε) (s : σ) (Q : α → σ → Prop) (E : ε → σ → Prop) :
    wp (throw e : Steps ε σ α) s Q E ↔ E e s := Iff.rfl

@[simp] theorem wp_update (f : σ → σ) (s : σ) (Q : Unit → σ → Prop) (E : ε → σ → Prop) :
    wp (update f : Steps ε σ Unit) s Q E ↔ Q () (f s) := Iff.rfl

@[simp] theorem wp_look (s : σ) (Q : σ → σ → Prop) (E : ε → σ → Prop) :
    wp (look : Steps ε σ σ) s Q E ↔ Q s s := Iff.rfl

@[simp] theorem wp_give (r : Except ε α) (s : σ) (Q : α → σ → Prop) (E : ε → σ → Prop) :
    wp (give r : Steps ε σ α) s Q E ↔ (∀ a, r = .ok a → Q a s) ∧ ∀ e, r = .error e → E e s := by
  unfold wp
  rw [exec_give]
  cases r <;> simp

@[simp] theorem wp_attempt (m : Steps ε σ α) (s : σ) (Q : Except ε α → σ → Prop)
    (E : ε → σ → Prop) :
    wp (attempt m) s Q E ↔ wp m s (fun a => Q (.ok a)) (fun e => Q (.error e)) := by
  unfold wp
  rw [exec_attempt]
  rcases exec m s with ⟨_ | _, _⟩ <;> rfl

@[simp] theorem wp_bind (m : Steps ε σ α) (f : α → Steps ε σ β) (s : σ) (Q : β → σ → Prop)
    (E : ε → σ → Prop) :
    wp (m >>= f) s Q E ↔ wp m s (fun a s' => wp (f a) s' Q E) E := by
  unfold wp
  rw [exec_bind]
  rcases exec m s with ⟨_ | _, _⟩ <;> rfl

theorem wp_mono {m : Steps ε σ α} {s : σ} {Q Q' : α → σ → Prop} {E E' : ε → σ → Prop}
    (h : wp m s Q E) (hQ : ∀ a s', Q a s' → Q' a s') (hE : ∀ e s', E e s' → E' e s') :
    wp m s Q' E' := by
  revert h
  unfold wp
  rcases exec m s with ⟨_ | _, _⟩
  · exact hE _ _
  · exact hQ _ _

/-- From every state in `P`, `m` ends with a result in `Q` or with an error in `E`. -/
def Triple (P : σ → Prop) (m : Steps ε σ α) (Q : α → σ → Prop) (E : ε → σ → Prop) : Prop :=
  ∀ s, P s → wp m s Q E

namespace Triple

variable {P P' : σ → Prop} {Q Q' : α → σ → Prop} {E E' : ε → σ → Prop}

theorem pure {a : α} (h : ∀ s, P s → Q a s) : Triple P (Pure.pure a : Steps ε σ α) Q E := h

theorem give {r : Except ε α} (hok : ∀ a, r = .ok a → ∀ s, P s → Q a s)
    (herr : ∀ e, r = .error e → ∀ s, P s → E e s) :
    Triple P (Effect.give r : Steps ε σ α) Q E := fun s hs =>
  (wp_give r s Q E).2 ⟨fun a ha => hok a ha s hs, fun e he => herr e he s hs⟩

theorem update {f : σ → σ} {Q : Unit → σ → Prop} (h : ∀ s, P s → Q () (f s)) :
    Triple P (Effect.update f : Steps ε σ Unit) Q E := h

theorem bind {m : Steps ε σ α} {f : α → Steps ε σ β} {R : β → σ → Prop} (hm : Triple P m Q E)
    (hf : ∀ a, Triple (Q a) (f a) R E) : Triple P (m >>= f) R E := fun s hs =>
  (wp_bind m f s R E).2 (wp_mono (hm s hs) (fun a s' h => hf a s' h) fun _ _ h => h)

theorem attempt {m : Steps ε σ α} {R : Except ε α → σ → Prop}
    (h : Triple P m (fun a => R (.ok a)) fun e => R (.error e)) :
    Triple P (Effect.attempt m) R E := fun s hs => (wp_attempt m s R E).2 (h s hs)

theorem weaken {m : Steps ε σ α} (h : Triple P m Q E) (hP : ∀ s, P' s → P s)
    (hQ : ∀ a s, Q a s → Q' a s) (hE : ∀ e s, E e s → E' e s) : Triple P' m Q' E' :=
  fun s hs => wp_mono (h s (hP s hs)) hQ hE

theorem assume {p : Prop} {m : Steps ε σ α} (h : p → Triple P m Q E) :
    Triple (fun s => p ∧ P s) m Q E := fun s hs => h hs.1 s hs.2

theorem always (m : Steps ε σ α) : Triple P m (fun _ _ => True) fun _ _ => True := by
  intro s _
  unfold wp
  split <;> trivial

theorem and {m : Steps ε σ α} (h : Triple P m Q E) (h' : Triple P m Q' E') :
    Triple P m (fun a s => Q a s ∧ Q' a s) fun e s => E e s ∧ E' e s := by
  intro s hs
  have hw := h s hs
  have hw' := h' s hs
  unfold wp at hw hw' ⊢
  rcases hm : Effect.exec m s with ⟨_ | _, s'⟩ <;> rw [hm] at hw hw' <;> exact ⟨hw, hw'⟩

theorem forM_flatMap {γ : Type} (xs : List γ) (g : γ → List β) (f : β → Steps ε σ PUnit) :
    (xs.flatMap g).forM f = xs.forM fun x => (g x).forM f := by
  induction xs with
  | nil => rfl
  | cons x xs ih =>
    change (g x ++ xs.flatMap g).forM f = (g x).forM f >>= fun _ => xs.forM fun x => (g x).forM f
    rw [← ih]
    exact List.forM_append

/-- A loop keeps an invariant of what it has gone through, and stops at the first error. -/
theorem forM {xs : List β} {f : β → Steps ε σ PUnit} {I : List β → σ → Prop}
    {R : List β → β → ε → σ → Prop}
    (h : ∀ before x after, xs = before ++ x :: after →
      Triple (I before) (f x) (fun _ => I (before ++ [x])) (R before x)) :
    Triple (I []) (xs.forM f) (fun _ => I xs)
      fun e s => ∃ before x after, xs = before ++ x :: after ∧ R before x e s := by
  suffices hrest : ∀ before rest, xs = before ++ rest →
      Triple (I before) (rest.forM f) (fun _ => I xs)
        fun e s => ∃ before x after, xs = before ++ x :: after ∧ R before x e s from
    hrest [] xs rfl
  intro before rest hxs
  induction rest generalizing before with
  | nil =>
    rw [List.append_nil] at hxs
    exact pure fun s hs => hxs ▸ hs
  | cons x rest ih =>
    have hx : Triple (I before) (f x) (fun _ => I (before ++ [x]))
        fun e s => ∃ before x after, xs = before ++ x :: after ∧ R before x e s :=
      (h before x rest hxs).weaken (fun _ hs => hs) (fun _ _ hq => hq)
        fun e s he => ⟨before, x, rest, hxs, he⟩
    exact bind hx fun _ => ih (before ++ [x]) (by rw [hxs, List.append_assoc]; rfl)

theorem exec {m : Steps ε σ α} {R : σ → Prop} (h : Triple P m (fun _ => R) fun _ => R) {s : σ}
    (hs : P s) : R (exec m s).2 := by
  have hw := h s hs
  unfold wp at hw
  rcases hm : Effect.exec m s with ⟨_ | _, s'⟩ <;> rw [hm] at hw <;> exact hw

end Triple

/-- A predicate that holds before `m` holds after it, however `m` ends. -/
def Keeps (P : σ → Prop) (m : Steps ε σ α) : Prop := Triple P m (fun _ => P) fun _ => P

namespace Keeps

variable {P : σ → Prop}

theorem pure (a : α) : Keeps P (Pure.pure a : Steps ε σ α) := Triple.pure fun _ h => h

theorem give (r : Except ε α) : Keeps P (Effect.give r : Steps ε σ α) :=
  Triple.give (fun _ _ _ h => h) fun _ _ _ h => h

theorem look : Keeps P (Effect.look : Steps ε σ σ) := fun _ h => h

theorem update {f : σ → σ} (h : ∀ s, P s → P (f s)) :
    Keeps P (Effect.update f : Steps ε σ Unit) := Triple.update h

theorem bind {m : Steps ε σ α} {f : α → Steps ε σ β} (hm : Keeps P m) (hf : ∀ a, Keeps P (f a)) :
    Keeps P (m >>= f) := Triple.bind hm hf

theorem attempt {m : Steps ε σ α} (hm : Keeps P m) : Keeps P (Effect.attempt m) :=
  Triple.attempt hm

/-- `m` run for its effect alone, then more from where it left. -/
theorem attempt_then {m : Steps ε σ α} {f : Except ε α → Steps ε σ β} {Q : β → σ → Prop}
    {E : ε → σ → Prop} (hm : Keeps P m) (hf : ∀ r, Triple P (f r) Q E) :
    Triple P (Effect.attempt m >>= f) Q E :=
  Triple.bind (Triple.attempt (Triple.weaken hm (fun _ h => h) (fun _ _ h => h)
    fun _ _ h => h)) hf

end Keeps

/-- From a state in `P`, `m` returns exactly when `c`, and then leaves a state in `Q`. -/
def Decides (P : σ → Prop) (m : Steps ε σ α) (c : Prop) (Q : σ → Prop) : Prop :=
  Triple P m (fun _ s => c ∧ Q s) fun _ _ => ¬ c

namespace Decides

variable {P Q R : σ → Prop} {c d : Prop}

theorem returns {m : Steps ε σ α} (h : Triple P m (fun _ => Q) fun _ _ => False) :
    Decides P m True Q :=
  Triple.weaken h (fun _ h => h) (fun _ _ h => ⟨trivial, h⟩) fun _ _ h => h.elim

theorem never {m : Steps ε σ α} (h : Triple P m (fun _ _ => False) fun _ _ => True) :
    Decides P m False Q :=
  Triple.weaken h (fun _ h => h) (fun _ _ h => h.elim) fun _ _ _ h => h

theorem give (r : Except ε α) : Decides P (Effect.give r : Steps ε σ α) (∃ a, r = .ok a) P := by
  refine Triple.give (fun a ha s hs => ⟨⟨a, ha⟩, hs⟩) fun e he s _ h => ?_
  obtain ⟨a, ha⟩ := h
  rw [he] at ha
  cases ha

theorem congr {m : Steps ε σ α} (h : Decides P m c Q) (hc : c ↔ d) : Decides P m d Q :=
  Triple.weaken h (fun _ h => h) (fun _ _ h => ⟨hc.1 h.1, h.2⟩) fun _ _ h hd => h (hc.2 hd)

theorem bind {m : Steps ε σ α} {f : α → Steps ε σ β} (hm : Decides P m c Q)
    (hf : ∀ a, Decides Q (f a) d R) : Decides P (m >>= f) (c ∧ d) R := by
  refine Triple.bind (Triple.weaken hm (fun _ h => h) (fun _ _ h => h)
    fun _ _ h hcd => h hcd.1) fun a s hs => ?_
  exact wp_mono (hf a s hs.2) (fun _ _ h => ⟨⟨hs.1, h.1⟩, h.2⟩) fun _ _ h hcd => h hcd.2

/-- A decision together with what else is known of the run. -/
theorem along {m : Steps ε σ α} {P' : σ → Prop} {Q' : α → σ → Prop} {E : ε → σ → Prop}
    (h : Decides P m c Q) (h' : Triple P' m Q' E) :
    Triple (fun s => P s ∧ P' s) m (fun a s => c ∧ Q s ∧ Q' a s) fun e s => ¬ c ∧ E e s := by
  have hP : Triple (fun s => P s ∧ P' s) m (fun _ s => c ∧ Q s) fun _ _ => ¬ c :=
    Triple.weaken h (fun _ hs => hs.1) (fun _ _ hq => hq) fun _ _ he => he
  have hP' : Triple (fun s => P s ∧ P' s) m Q' E :=
    h'.weaken (fun _ hs => hs.2) (fun _ _ hq => hq) fun _ _ he => he
  exact (hP.and hP').weaken (fun _ hs => hs) (fun _ _ hq => ⟨hq.1.1, hq.1.2, hq.2⟩)
    fun _ _ he => he

/-- An attempt whose error is never recovered from. -/
theorem attempt_bind {m : Steps ε σ α} {f : Except ε α → Steps ε σ β} (hm : Decides P m c Q)
    (hok : ∀ a, Decides Q (f (.ok a)) d R)
    (herr : ∀ e, Triple (fun _ => True) (f (.error e)) (fun _ _ => False) fun _ _ => True) :
    Decides P (Effect.attempt m >>= f) (c ∧ d) R := by
  have hattempt : Triple P (Effect.attempt m) (fun r s => (∀ a, r = .ok a → c ∧ Q s) ∧
      ∀ e, r = .error e → ¬ c) fun _ _ => ¬ (c ∧ d) := by
    refine Triple.attempt (Triple.weaken hm (fun _ h => h) (fun a s h => ?_) fun e s h => ?_)
    · exact ⟨fun _ _ => h, fun _ he => (nomatch he)⟩
    · exact ⟨fun _ ha => (nomatch ha), fun _ _ => h⟩
  refine Triple.bind hattempt fun r s hs => ?_
  cases r with
  | ok a =>
    have hc := hs.1 a rfl
    exact wp_mono (hok a s hc.2) (fun _ _ h => ⟨⟨hc.1, h.1⟩, h.2⟩) fun _ _ h hcd => h hcd.2
  | error e =>
    exact wp_mono (herr e s trivial) (fun _ _ h => h.elim) fun _ _ _ hcd => hs.2 e rfl hcd.1

end Decides

end

end Effect
