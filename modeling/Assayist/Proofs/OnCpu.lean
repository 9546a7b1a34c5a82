import Assayist.Lib.Tally
import Assayist.Spec.CtrlPlane

/-! The time that the control-plane gadget gives to each cgroup, over every order of the steps of
every CPU's handlers. A counter is opened by an insert that leaves an entry that is there as it is,
so a slice is lost where another CPU has opened the counter since the lookup, and nowhere else. -/

namespace Assayist

namespace CtrlPlane

section Slices

variable {Cpu : Type} [DecidableEq Cpu]

def onRecord (flt : Filter) (l : Switch) : Oncpu :=
  if allowedCg flt l.next.cgroup then ⟨l.now, l.next.cgroup⟩ else ⟨0, 0⟩

/-- What the switches alone tell: who is on each CPU since when, and the slices that ended. -/
structure Watch (Cpu : Type) where
  on : Cpu → Oncpu
  ended : List (UInt64 × UInt64)

/-- The slice that ends on a CPU at a switch, if it was recorded who began it. -/
def Watch.slice (w : Watch Cpu) (cpu : Cpu) (now : UInt64) : List (UInt64 × UInt64) :=
  if (w.on cpu).ts = 0 then [] else [((w.on cpu).cgroupId, now - (w.on cpu).ts)]

def Watch.see (flt : Filter) (w : Watch Cpu) : Event Cpu → Watch Cpu
  | .switch cpu now next =>
    { on := Function.update w.on cpu (onRecord flt ⟨now, next⟩)
      ended := w.ended ++ w.slice cpu now }
  | _ => w

/-- The slices that end in a sequence of events, each with its cgroup. -/
def slicesOf (flt : Filter) (evs : List (Event Cpu)) : List (UInt64 × UInt64) :=
  (evs.foldl (Watch.see flt) ⟨fun _ => ⟨0, 0⟩, []⟩).ended

def totalNs (slices : List (UInt64 × UInt64)) (cg : UInt64) : UInt64 :=
  .ofNat ((slices.filter (·.1 = cg)).map (·.2.toNat)).sum

def counterOf (slices : List (UInt64 × UInt64)) (cg : UInt64) : Option UInt64 :=
  if slices.any (·.1 = cg) then some (totalNs slices cg) else none

/-- The slice that a CPU is about to fail to insert, as the counter is there by now. -/
def lostFrom (m : Maps) (core : Core) : List (UInt64 × UInt64) :=
  match core.pc with
  | .insert _ delta =>
    if (m.oncpuNs.lookup core.cur.cgroupId).isSome then [(core.cur.cgroupId, delta)] else []
  | _ => []

def lostAt (s : State Cpu) : Event Cpu → List (UInt64 × UInt64)
  | .step cpu _ => lostFrom s.maps (s.cores cpu)
  | _ => []

def lostOf (flt : Filter) (s : State Cpu) : List (Event Cpu) → List (UInt64 × UInt64)
  | [] => []
  | e :: evs =>
    match step flt s e with
    | some s' => lostAt s e ++ lostOf flt s' evs
    | none => []

def states (flt : Filter) (s : State Cpu) : List (Event Cpu) → List (State Cpu)
  | [] => [s]
  | e :: evs =>
    match step flt s e with
    | some s' => s :: states flt s' evs
    | none => [s]

/-- No state of a run has all the counters that fit. -/
def NeverFull (flt : Filter) (s : State Cpu) (evs : List (Event Cpu)) : Prop :=
  ∀ t ∈ states flt s evs, t.maps.oncpuNs.size < t.maps.oncpuNs.maxEntries

instance (flt : Filter) (s : State Cpu) (evs : List (Event Cpu)) :
    Decidable (NeverFull flt s evs) :=
  inferInstanceAs (Decidable (∀ t ∈ states flt s evs, _))

end Slices

section Core

variable {flt : Filter} {clock : UInt64} {m : Maps} {core : Core} {cg : UInt64}

/-- The slice that a CPU still has to account for. -/
def pendingOf (core : Core) : Option (UInt64 × UInt64) :=
  match core.pc with
  | .record l =>
    if core.cur.ts = 0 then none else some (core.cur.cgroupId, l.now - core.cur.ts)
  | .account _ delta | .add _ delta | .insert _ delta => some (core.cur.cgroupId, delta)
  | _ => none

/-- What a CPU's record is once it has left its handler. -/
def dueOf (flt : Filter) (core : Core) : Oncpu :=
  match core.pc with
  | .idle | .wakeup _ | .stamp _ => core.cur
  | .record l | .account l _ | .add l _ | .insert l _ | .permit l => onRecord flt l
  | .woken l | .latency l _ | .create l _ | .again l _ | .bump l _ | .forget l =>
    ⟨l.now, l.next.cgroup⟩
  | .leave l ok => if ok then ⟨l.now, l.next.cgroup⟩ else ⟨0, 0⟩

/-- A CPU that is about to add has a counter to add to. -/
def Held (m : Maps) (core : Core) : Prop :=
  ∀ l delta, core.pc = .add l delta → (m.oncpuNs.lookup core.cur.cgroupId).isSome

theorem advance_due (flt : Filter) (clock : UInt64) (m : Maps) (core : Core) :
    dueOf flt (advance flt clock m core).2 = dueOf flt core := by
  obtain ⟨cur, pc⟩ := core
  cases pc with
  | wakeup p =>
    dsimp only [advance]
    split_ifs <;> rfl
  | record l =>
    dsimp only [advance]
    split_ifs <;> rfl
  | account l delta =>
    dsimp only [advance]
    split_ifs <;> rfl
  | permit l =>
    dsimp only [advance, dueOf, onRecord]
    split_ifs <;> rfl
  | woken l =>
    dsimp only [advance]
    cases m.wakeupTs.lookup l.next.pid <;> rfl
  | latency l d =>
    dsimp only [advance]
    split_ifs <;> rfl
  | again l d =>
    dsimp only [advance]
    split_ifs <;> rfl
  | _ => rfl

/-- What a CPU's step does to the counters and to what it still has to account for. -/
theorem advance_oncpu (flt : Filter) (clock : UInt64) (m : Maps) (core : Core) :
    ((advance flt clock m core).1.oncpuNs = m.oncpuNs ∧
      pendingOf (advance flt clock m core).2 = pendingOf core ∧ lostFrom m core = []) ∨
    ∃ l delta, pendingOf core = some (core.cur.cgroupId, delta) ∧
      pendingOf (advance flt clock m core).2 = none ∧
      ((core.pc = .add l delta ∧ lostFrom m core = [] ∧ (advance flt clock m core).1.oncpuNs =
          m.oncpuNs.modify core.cur.cgroupId (· + delta)) ∨
        lostFrom m core = (if (m.oncpuNs.lookup core.cur.cgroupId).isSome then
          [(core.cur.cgroupId, delta)] else []) ∧
        (advance flt clock m core).1.oncpuNs = m.oncpuNs.create core.cur.cgroupId delta) := by
  obtain ⟨cur, pc⟩ := core
  cases pc with
  | wakeup p =>
    dsimp only [advance]
    split_ifs <;> exact .inl ⟨rfl, rfl, rfl⟩
  | record l =>
    dsimp only [advance, pendingOf]
    refine .inl ⟨rfl, ?_, rfl⟩
    by_cases hts : cur.ts = 0
    · simp [hts]
    · simp [hts]
  | account l delta =>
    dsimp only [advance]
    split_ifs <;> exact .inl ⟨rfl, rfl, rfl⟩
  | add l delta => exact .inr ⟨l, delta, rfl, rfl, .inl ⟨rfl, rfl, rfl⟩⟩
  | insert l delta => exact .inr ⟨l, delta, rfl, rfl, .inr ⟨rfl, rfl⟩⟩
  | permit l =>
    dsimp only [advance]
    split_ifs <;> exact .inl ⟨rfl, rfl, rfl⟩
  | woken l =>
    dsimp only [advance]
    cases m.wakeupTs.lookup l.next.pid <;> exact .inl ⟨rfl, rfl, rfl⟩
  | latency l d =>
    dsimp only [advance]
    split_ifs <;> exact .inl ⟨rfl, rfl, rfl⟩
  | again l d =>
    dsimp only [advance]
    split_ifs <;> exact .inl ⟨rfl, rfl, rfl⟩
  | _ => exact .inl ⟨rfl, rfl, rfl⟩

/-- A CPU's step leaves no counter out. -/
theorem advance_isSome (h : (m.oncpuNs.lookup cg).isSome) :
    ((advance flt clock m core).1.oncpuNs.lookup cg).isSome := by
  obtain ⟨hsame, -⟩ | ⟨l, delta, -, -, ⟨-, -, hadd⟩ | ⟨-, hinsert⟩⟩ :=
    advance_oncpu flt clock m core
  · rwa [hsame]
  · rw [hadd]
    exact BoundedMap.isSome_modify h
  · rw [hinsert]
    exact BoundedMap.isSome_create h

theorem advance_held : Held (advance flt clock m core).1 (advance flt clock m core).2 := by
  intro l delta h
  obtain ⟨cur, pc⟩ := core
  cases pc with
  | account l' delta' =>
    dsimp only [advance] at h ⊢
    split_ifs at h with hacc
    exact hacc
  | woken l =>
    dsimp only [advance] at h
    cases hts : m.wakeupTs.lookup l.next.pid with
    | none => simp [hts] at h
    | some ts => simp [hts] at h
  | wakeup p | record l | permit l | latency l d | again l d =>
    dsimp only [advance] at h
    split_ifs at h
  | _ => cases h

end Core

section Runs

variable {Cpu : Type} [DecidableEq Cpu] {flt : Filter} {s s' : State Cpu} {w : Watch Cpu}
  {lost : List (UInt64 × UInt64)} {e : Event Cpu} {evs : List (Event Cpu)}

/-- The gadget as counters that its CPUs add to. -/
def tallyOf (s : State Cpu) (ended lost : List (UInt64 × UInt64)) : Tally Cpu UInt64 UInt64 where
  entries := s.maps.oncpuNs.lookup
  pending cpu := pendingOf (s.cores cpu)
  taken := ended
  lost := lost

theorem tallyOf_set (s : State Cpu) (cpu : Cpu) (mc : Maps × Core)
    (ended lost : List (UInt64 × UInt64)) :
    tallyOf (s.set cpu mc) ended lost =
      { tallyOf s ended lost with
        entries := mc.1.oncpuNs.lookup
        pending := Function.update (tallyOf s ended lost).pending cpu (pendingOf mc.2) } := by
  have hpending : (fun c => pendingOf ((s.set cpu mc).cores c)) =
      Function.update (fun c => pendingOf (s.cores c)) cpu (pendingOf mc.2) :=
    Function.comp_update pendingOf s.cores cpu mc.2
  unfold tallyOf
  rw [hpending]
  rfl

theorem tallyOf_same {cpu : Cpu} {mc : Maps × Core} {ended : List (UInt64 × UInt64)}
    (hmap : mc.1.oncpuNs = s.maps.oncpuNs) (hpending : pendingOf mc.2 = pendingOf (s.cores cpu)) :
    tallyOf (s.set cpu mc) ended lost = tallyOf s ended lost := by
  rw [tallyOf_set, hmap, hpending]
  exact congrArg (Tally.mk _ · _ _) (Function.update_eq_self cpu _)

structure Inv (flt : Filter) (s : State Cpu) (w : Watch Cpu) : Prop where
  held : ∀ cpu, Held s.maps (s.cores cpu)
  due : ∀ cpu, dueOf flt (s.cores cpu) = w.on cpu

omit [DecidableEq Cpu] in
theorem inv_new (flt : Filter) : Inv flt (.new : State Cpu) ⟨fun _ => ⟨0, 0⟩, []⟩ :=
  ⟨fun _ _ _ h => (nomatch h), fun _ => rfl⟩

theorem step_cases (h : step flt s e = some s') :
    (∃ cpu p, e = .wakeup cpu p ∧ (s.cores cpu).pc = .idle ∧
      s' = s.set cpu (s.maps, { s.cores cpu with pc := .wakeup p })) ∨
    (∃ cpu now next, e = .switch cpu now next ∧ (s.cores cpu).pc = .idle ∧
      s' = s.set cpu (s.maps, { s.cores cpu with pc := .record ⟨now, next⟩ })) ∨
    ∃ cpu clock, e = .step cpu clock ∧ s' = s.set cpu (advance flt clock s.maps (s.cores cpu)) := by
  have henter {cpu : Cpu} {pc : Pc} (h : enter s cpu pc = some s') :
      (s.cores cpu).pc = .idle ∧ s' = s.set cpu (s.maps, { s.cores cpu with pc }) := by
    unfold enter at h
    split_ifs at h with hidle
    exact ⟨hidle, (Option.some.inj h).symm⟩
  cases e with
  | wakeup cpu p =>
    obtain ⟨hidle, hs⟩ := henter h
    exact .inl ⟨cpu, p, rfl, hidle, hs⟩
  | switch cpu now next =>
    obtain ⟨hidle, hs⟩ := henter h
    exact .inr (.inl ⟨cpu, now, next, rfl, hidle, hs⟩)
  | step cpu clock => exact .inr (.inr ⟨cpu, clock, rfl, (Option.some.inj h).symm⟩)

theorem inv_set (hinv : Inv flt s w) {cpu : Cpu} {mc : Maps × Core} {w' : Watch Cpu}
    (hheld : Held mc.1 mc.2)
    (hsome : ∀ cg, (s.maps.oncpuNs.lookup cg).isSome → (mc.1.oncpuNs.lookup cg).isSome)
    (hon : w'.on = Function.update w.on cpu (dueOf flt mc.2)) : Inv flt (s.set cpu mc) w' := by
  refine ⟨fun c => ?_, fun c => ?_⟩
  · by_cases hc : c = cpu
    · subst hc
      simpa [State.set] using hheld
    · intro l delta hadd
      have hcore : (s.set cpu mc).cores c = s.cores c := Function.update_of_ne hc _ _
      rw [hcore] at hadd ⊢
      exact hsome _ (hinv.held c l delta hadd)
  · rw [hon]
    by_cases hc : c = cpu
    · subst hc
      simp [State.set]
    · simp [State.set, hc, hinv.due c]

theorem step_inv (h : step flt s e = some s') (hinv : Inv flt s w) : Inv flt s' (w.see flt e) := by
  obtain ⟨cpu, p, rfl, hidle, rfl⟩ | ⟨cpu, now, next, rfl, -, rfl⟩ | ⟨cpu, clock, rfl, rfl⟩ :=
    step_cases h
  · refine inv_set hinv (fun _ _ hadd => (nomatch hadd)) (fun _ hcg => hcg) ?_
    have hcur := hinv.due cpu
    rw [dueOf, hidle] at hcur
    exact (Function.update_eq_self_iff.2 hcur).symm
  · exact inv_set hinv (fun _ _ hadd => (nomatch hadd)) (fun _ hcg => hcg) rfl
  · refine inv_set hinv advance_held (fun _ hcg => advance_isSome hcg) ?_
    rw [advance_due, hinv.due cpu]
    exact (Function.update_eq_self cpu w.on).symm

theorem step_tally (h : step flt s e = some s') (hinv : Inv flt s w)
    (hroom : s.maps.oncpuNs.size < s.maps.oncpuNs.maxEntries) :
    Relation.ReflGen Tally.Step (tallyOf s w.ended lost)
      (tallyOf s' (w.see flt e).ended (lost ++ lostAt s e)) := by
  obtain ⟨cpu, p, rfl, hidle, rfl⟩ | ⟨cpu, now, next, rfl, hidle, rfl⟩ | ⟨cpu, clock, rfl, rfl⟩ :=
    step_cases h
  · have hpending : pendingOf (s.cores cpu) = none := by
      rw [pendingOf, hidle]
    have hlost : lost ++ lostAt s (.wakeup cpu p) = lost := List.append_nil lost
    rw [hlost, tallyOf_same]
    · exact .refl
    · rfl
    · exact hpending.symm
  · have hpending : pendingOf (s.cores cpu) = none := by
      rw [pendingOf, hidle]
    have hcur : (s.cores cpu).cur = w.on cpu := by
      rw [← hinv.due cpu, dueOf, hidle]
    have hlost : lost ++ lostAt s (.switch cpu now next) = lost := List.append_nil lost
    have hnew : pendingOf ⟨(s.cores cpu).cur, .record ⟨now, next⟩⟩ =
        if (w.on cpu).ts = 0 then none else some ((w.on cpu).cgroupId, now - (w.on cpu).ts) := by
      rw [← hcur]
      rfl
    have hended : (w.see flt (.switch cpu now next)).ended = w.ended ++ w.slice cpu now := rfl
    rw [hlost, hended]
    by_cases hts : (w.on cpu).ts = 0
    · rw [if_pos hts] at hnew
      rw [Watch.slice, if_pos hts, List.append_nil, tallyOf_same]
      · rfl
      · exact hnew.trans hpending.symm
    · rw [if_neg hts] at hnew
      rw [Watch.slice, if_neg hts, tallyOf_set, hnew]
      exact .single (.take hpending)
  · have hlostAt : lostAt s (.step cpu clock) = lostFrom s.maps (s.cores cpu) := rfl
    have hended : (w.see flt (.step cpu clock)).ended = w.ended := rfl
    rw [hlostAt, hended]
    obtain ⟨hmap, hpending, hlost⟩ |
        ⟨l, delta, hpending, hnone, ⟨hpc, hlost, hmap⟩ | ⟨hlost, hmap⟩⟩ :=
      advance_oncpu flt clock s.maps (s.cores cpu)
    · rw [tallyOf_same hmap hpending, hlost, List.append_nil]
    · obtain ⟨acc, hacc⟩ := Option.isSome_iff_exists.1 (hinv.held cpu l delta hpc)
      rw [tallyOf_set, hmap, hnone, BoundedMap.modify_of_some hacc, hlost, List.append_nil]
      exact .single (.add hpending hacc)
    · cases hacc : s.maps.oncpuNs.lookup (s.cores cpu).cur.cgroupId with
      | none =>
        rw [hacc, if_neg (by decide)] at hlost
        rw [tallyOf_set, hmap, hnone, BoundedMap.create_of_none hacc hroom, hlost, List.append_nil]
        exact .single (.insert hpending hacc)
      | some acc =>
        rw [hacc, Option.isSome_some, if_pos rfl] at hlost
        rw [tallyOf_set, hmap, hnone, BoundedMap.create_of_some hacc, hlost]
        exact .single (.lose hpending hacc)

/-- The gadget's counters balance after every run that leaves room for one more. -/
theorem run_balanced [Fintype Cpu] (h : run flt s evs = some s') (hroom : NeverFull flt s evs)
    (hinv : Inv flt s w) (hbal : (tallyOf s w.ended lost).Balanced) :
    (tallyOf s' (evs.foldl (Watch.see flt) w).ended (lost ++ lostOf flt s evs)).Balanced := by
  induction evs generalizing s w lost with
  | nil =>
    obtain rfl : s = s' := Option.some.inj h
    rwa [lostOf, List.append_nil]
  | cons e evs ih =>
    obtain ⟨t, ht, h⟩ := Option.bind_eq_some_iff.1 h
    rw [NeverFull, states, ht, List.forall_mem_cons] at hroom
    rw [lostOf, ht, ← List.append_assoc]
    refine ih h hroom.2 (step_inv ht hinv) ?_
    have htally : Relation.ReflGen Tally.Step (tallyOf s w.ended lost) _ :=
      step_tally ht hinv hroom.1
    generalize tallyOf t (w.see flt e).ended (lost ++ lostAt s e) = t' at htally ⊢
    cases htally with
    | refl => exact hbal
    | single hstep => exact Tally.balanced_step hstep hbal

theorem sum_amounts (slices : List (UInt64 × UInt64)) (cg : UInt64) :
    (amounts cg slices).sum = totalNs slices cg := by
  unfold amounts totalNs
  rw [Multiset.sum_coe]
  induction slices.filter (·.1 = cg) with
  | nil => rfl
  | cons x xs ih =>
    rw [List.map_cons, List.sum_cons, ih, List.map_cons, List.sum_cons, UInt64.ofNat_add,
      UInt64.ofNat_toNat]

theorem entryOf_amounts (slices : List (UInt64 × UInt64)) (cg : UInt64) :
    entryOf (amounts cg slices) = counterOf slices cg := by
  have hcard : (amounts cg slices).card = 0 ↔ ¬ slices.any (·.1 = cg) = true := by
    simp only [amounts, Multiset.coe_card, List.length_map, List.length_eq_zero_iff,
      List.filter_eq_nil_iff, List.any_eq_true, not_exists, not_and]
  unfold entryOf counterOf
  rw [sum_amounts]
  by_cases hany : slices.any (·.1 = cg) = true
  · rw [if_pos hany, if_neg fun h => hcard.1 h hany]
  · rw [if_neg hany, if_pos (hcard.2 hany)]

/-- On any number of CPUs and in any order of their steps, a counter ends up as the sum of its
cgroup's slices exactly when the slices that found it there on being inserted come to nothing. -/
theorem oncpu_slices [Fintype Cpu] (h : run flt .new evs = some s)
    (hroom : NeverFull flt .new evs) (hidle : ∀ cpu, (s.cores cpu).pc = .idle) (cg : UInt64) :
    s.maps.oncpuNs.lookup cg = counterOf (slicesOf flt evs) cg ↔
      totalNs (lostOf flt .new evs) cg = 0 := by
  have hstart : (tallyOf (.new : State Cpu) [] []).Balanced :=
    Tally.balanced_start _ _ (fun k => BoundedMap.lookup_empty _ k) fun _ => rfl
  have hbal := run_balanced h hroom (inv_new flt) hstart
  have hsettled : ∀ cpu, pendingOf (s.cores cpu) = none := by
    intro cpu
    rw [pendingOf, hidle cpu]
  rw [← entryOf_amounts, ← sum_amounts]
  exact Tally.entry_exact hbal hsettled cg

end Runs

section Example

def oneCg : Filter := ⟨true, [7]⟩

def steps (cpu : Fin 2) (n : ℕ) : List (Event (Fin 2)) := List.replicate n (.step cpu 0)

/-- Two CPUs begin a slice of one cgroup. -/
def begun : List (Event (Fin 2)) :=
  .switch 0 100 ⟨10, 7⟩ :: steps 0 4 ++ .switch 1 100 ⟨11, 7⟩ :: steps 1 4

def inTurn : List (Event (Fin 2)) :=
  begun ++ .switch 0 150 ⟨0, 1⟩ :: steps 0 5 ++ .switch 1 160 ⟨0, 1⟩ :: steps 1 5

/-- The slices end together: both CPUs look the counter up before either opens it. -/
def together : List (Event (Fin 2)) :=
  begun ++ .switch 0 150 ⟨0, 1⟩ :: steps 0 2 ++ .switch 1 160 ⟨0, 1⟩ :: steps 1 2 ++ steps 0 3 ++
    steps 1 3

theorem oncpu_slices_inTurn : ∃ s, run oneCg .new inTurn = some s ∧
    s.maps.oncpuNs.lookup 7 = counterOf (slicesOf oneCg inTurn) 7 := by
  have hsome : (run oneCg .new inTurn).isSome := by decide +kernel
  refine ⟨_, (Option.some_get hsome).symm, ?_⟩
  have hidle : ∀ cpu, (((run oneCg .new inTurn).get hsome).cores cpu).pc = .idle := by
    decide +kernel +revert
  exact (oncpu_slices (Option.some_get hsome).symm (by decide +kernel) hidle 7).2
    (by decide +kernel)

theorem oncpu_slices_together : ∃ s, run oneCg .new together = some s ∧
    NeverFull oneCg .new together ∧ (∀ cpu, (s.cores cpu).pc = .idle) ∧
    s.maps.oncpuNs.lookup 7 = some 50 ∧ counterOf (slicesOf oneCg together) 7 = some 110 := by
  have hsome : (run oneCg .new together).isSome := by decide +kernel
  refine ⟨_, (Option.some_get hsome).symm, by decide +kernel, ?_, ?_, by decide +kernel⟩
  · decide +kernel +revert
  · decide +kernel +revert

end Example

end CtrlPlane

end Assayist
