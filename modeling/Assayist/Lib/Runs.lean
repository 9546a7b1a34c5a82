import Mathlib.Logic.Relation

/-! Runs of a machine whose steps may be refused and put something out: what a run puts out, the
states that it goes through, and the simulation of a run by an abstract machine from that of one
step. -/

namespace Runs

variable {S E O A : Type} (step : S → E → Option S) (out : S → E → List O)

def outputs (s : S) : List E → List O
  | [] => []
  | e :: es =>
    match step s e with
    | some s' => out s e ++ outputs s' es
    | none => []

def states (s : S) : List E → List S
  | [] => [s]
  | e :: es =>
    match step s e with
    | some s' => s :: states s' es
    | none => [s]

variable {step out} {s s' : S} {es : List E}

theorem self_mem_states (step : S → E → Option S) (s : S) (es : List E) :
    s ∈ states step s es := by
  cases es with
  | nil => exact List.mem_singleton_self s
  | cons e es =>
    rw [states]
    cases step s e with
    | none => exact List.mem_singleton_self s
    | some t => exact List.mem_cons_self

/-- What one step to a good state keeps of what was asked for and what was put out, a run through
good states keeps. -/
theorem keeps {W : Type} {Good : S → Prop} (asked : E → List W)
    (Inv : S → List W → List O → Prop)
    (hstep : ∀ s e s' ws os, Good s' → step s e = some s' → Inv s ws os →
      Inv s' (ws ++ asked e) (os ++ out s e))
    (hrun : es.foldlM step s = some s') (hgood : ∀ t ∈ states step s es, Good t) (ws : List W)
    (os : List O) (h : Inv s ws os) :
    Inv s' (ws ++ es.flatMap asked) (os ++ outputs step out s es) := by
  induction es generalizing s ws os with
  | nil =>
    cases hrun
    rwa [List.flatMap_nil, outputs, List.append_nil, List.append_nil]
  | cons e es ih =>
    obtain ⟨t, ht, hrest⟩ := Option.bind_eq_some_iff.1 hrun
    rw [states, ht, List.forall_mem_cons] at hgood
    rw [outputs, ht, List.flatMap_cons, ← List.append_assoc, ← List.append_assoc]
    exact ih hrest hgood.2 _ _ (hstep s e t ws os (hgood.2 t (self_mem_states step t es)) ht h)

/-- A machine whose every step between good states is some steps of another has every run through
good states as a run of the other. -/
theorem simulates {T : A → A → Prop} {Good : S → Prop} (Rel : S → List O → A → Prop)
    (hstep : ∀ s e s' os a, Good s → Good s' → step s e = some s' → Rel s os a →
      ∃ a', Relation.ReflTransGen T a a' ∧ Rel s' (os ++ out s e) a')
    (hrun : es.foldlM step s = some s') (hgood : ∀ t ∈ states step s es, Good t) (os : List O)
    (a : A) (h : Rel s os a) :
    ∃ a', Relation.ReflTransGen T a a' ∧ Rel s' (os ++ outputs step out s es) a' := by
  induction es generalizing s os a with
  | nil =>
    cases hrun
    exact ⟨a, .refl, by rwa [outputs, List.append_nil]⟩
  | cons e es ih =>
    obtain ⟨t, ht, hrest⟩ := Option.bind_eq_some_iff.1 hrun
    rw [states, ht, List.forall_mem_cons] at hgood
    obtain ⟨b, hfirst, hb⟩ :=
      hstep s e t os a hgood.1 (hgood.2 t (self_mem_states step t es)) ht h
    obtain ⟨c, hthen, hc⟩ := ih hrest hgood.2 _ b hb
    refine ⟨c, hfirst.trans hthen, ?_⟩
    rwa [outputs, ht, ← List.append_assoc]

end Runs
