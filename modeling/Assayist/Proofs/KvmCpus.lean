import Assayist.Lib.Handlers
import Assayist.Lib.Runs
import Assayist.Lib.Stash
import Assayist.Proofs.Kvm
import Assayist.Spec.KvmCpus

/-! The kvm gadget's histograms over every order of the steps of every CPU's handlers. They are those
of a sequence in which each handler runs at once and each thread does what it did; a histogram that
is missing there is one for which the map had no room. -/

namespace Assayist

namespace KvmGadget

section Counting

def count (delta : UInt64) (h : Hist) : Hist := h.bump delta

theorem getElem_bump (h : Hist) (delta : UInt64) {j : ℕ} (hj : j < maxSlots) :
    (h.bump delta)[j] = h[j] + if slotOf delta = j then 1 else 0 := by
  rw [Hist.bump, Vector.getElem_set]
  split_ifs with heq
  · subst heq
    rfl
  · rw [UInt32.add_zero]

instance : LeftCommutative count where
  left_comm d d' h := by
    apply Vector.ext
    intro j hj
    change ((h.bump d').bump d)[j] = ((h.bump d).bump d')[j]
    rw [getElem_bump, getElem_bump, getElem_bump, getElem_bump, UInt32.add_assoc, UInt32.add_assoc,
      UInt32.add_comm (if slotOf d' = j then 1 else 0)]

theorem foldr_count (ds : List UInt64) :
    ds.foldr count (Vector.replicate maxSlots 0) =
      Vector.ofFn fun s : Fin maxSlots => UInt32.ofNat (ds.countP fun d => bucket d = s) := by
  induction ds with
  | nil =>
    apply Vector.ext
    intro j hj
    rw [List.foldr_nil, Vector.getElem_replicate, Vector.getElem_ofFn]
    rfl
  | cons d ds ih =>
    rw [List.foldr_cons, ih, count, bump_ofFn (f := fun s => ds.countP fun d => bucket d = s)]
    apply Vector.ext
    intro j hj
    rw [Vector.getElem_ofFn, Vector.getElem_ofFn, List.countP_cons]
    simp only [decide_eq_true_eq]

end Counting

end KvmGadget

namespace KvmCpus

open KvmGadget Pairing

section Samples

/-- What a thread's exit and the entry after it add, and where. -/
def sample (_ : UInt32) (st : ExitState) (now : UInt64) : HistKey × List UInt64 :=
  (⟨st.cgroupId, st.exitReason⟩, [now - st.ts])

theorem parts_eq (perGuest : Bool) (key : HistKey) (cs : List Sample) :
    Stash.parts (stash perGuest) sample key cs =
      (cs.filter fun c => keyOf perGuest c = key).map latency := by
  unfold Stash.parts
  rw [List.map_eq_flatMap]
  rfl

theorem tally_eq {perGuest : Bool} {key : HistKey} {cs : List Sample}
    (h : Stash.parts (stash perGuest) sample key cs ≠ []) :
    tally perGuest cs key =
      some ((Stash.parts (stash perGuest) sample key cs).foldr count
        (Vector.replicate maxSlots 0)) := by
  rw [parts_eq] at h ⊢
  unfold tally
  dsimp only
  rw [if_neg (by simpa using h), foldr_count]
  simp only [List.countP_map, Function.comp_def]

theorem tally_eq_none {perGuest : Bool} {key : HistKey} {cs : List Sample}
    (h : Stash.parts (stash perGuest) sample key cs = []) : tally perGuest cs key = none := by
  rw [parts_eq, List.map_eq_nil_iff] at h
  unfold tally
  dsimp only
  rw [h]
  rfl

end Samples

section Steps

open Stash (Free)

variable {Cpu : Type}

def ownerOf : Pc → Option UInt32
  | .find tid _ _ | .create tid _ _ | .again tid _ _ | .bump tid _ _ | .forget tid => some tid
  | _ => none

def phaseOf : Pc → Phase HistKey UInt64
  | .find _ hk delta => .find hk [delta]
  | .create _ hk delta => .create hk [delta]
  | .again _ hk delta => .again hk [delta]
  | .bump _ hk delta => .add hk [delta]
  | _ => .idle

/-- The gadget as intervals measured through its two maps. -/
def stashed (s : State Cpu) (log : List KvmGadget.Event) (begun dropped : List (HistKey × UInt64)) :
    Stash Cpu UInt32 ExitState HistKey Hist UInt64 KvmGadget.Event where
  map := s.maps.exitStart
  owner := ownerOf ∘ s.cores
  feed := ⟨s.maps.hists, phaseOf ∘ s.cores, begun, dropped⟩
  log := log

/-- What takes effect at a step: an exit as it is stashed, an entry as it looks the exit up. -/
def heardAt (s : State Cpu) : Event Cpu → List KvmGadget.Event
  | .step cpu clock =>
    match s.cores cpu with
    | .stash tid now exitReason cgroup => [.kvmExit tid now exitReason cgroup]
    | .exit tid => [.kvmEntry tid clock]
    | _ => []
  | _ => []

theorem tid_of_owner {pc : Pc} {tid : UInt32} (h : ownerOf pc = some tid) : pc.tid = some tid := by
  cases pc with
  | idle | stash | exit => cases h
  | _ => exact h

theorem free_of_alone {s : State Cpu} (h : Handlers.Alone Pc.tid s.cores) {cpu : Cpu} {tid : UInt32}
    (htid : (s.cores cpu).tid = some tid) (howner : ownerOf (s.cores cpu) = none)
    {log : List KvmGadget.Event} {begun dropped : List (HistKey × UInt64)} :
    (stashed s log begun dropped).Free tid := by
  intro c hc
  have hsame := h c cpu tid (tid_of_owner hc) htid
  rw [hsame] at hc
  exact Option.some_ne_none tid (hc.symm.trans howner)

variable [DecidableEq Cpu]

theorem cores_set_self (s : State Cpu) (cpu : Cpu) (r : Maps × Pc) :
    (s.set cpu r).cores cpu = r.2 :=
  Function.update_self ..

theorem stashed_set (s : State Cpu) (cpu : Cpu) (m : Maps) (pc : Pc) (log : List KvmGadget.Event)
    (begun dropped : List (HistKey × UInt64)) :
    stashed (s.set cpu (m, pc)) log begun dropped =
      { map := m.exitStart
        owner := Function.update (ownerOf ∘ s.cores) cpu (ownerOf pc)
        feed := ⟨m.hists, Function.update (phaseOf ∘ s.cores) cpu (phaseOf pc), begun, dropped⟩
        log := log } := by
  unfold stashed State.set
  rw [Function.comp_update, Function.comp_update]

theorem advance_stash {perGuest : Bool} {s : State Cpu}
    (halone : Handlers.Alone Pc.tid s.cores)
    (hroom : s.maps.exitStart.size < s.maps.exitStart.maxEntries) (cpu : Cpu) (clock : UInt64)
    (log : List KvmGadget.Event) (begun dropped : List (HistKey × UInt64)) :
    ∃ begun' dropped', Relation.ReflGen
      (Stash.Step count (Vector.replicate maxSlots 0) Event.tid Event.kind (stash perGuest) sample)
      (stashed s log begun dropped)
      (stashed (s.set cpu (advance perGuest clock s.maps (s.cores cpu)))
        (log ++ heardAt s (.step cpu clock)) begun' dropped') := by
  have howner {pc : Pc} (hpc : s.cores cpu = pc) (pc' : Pc) (h : ownerOf pc = ownerOf pc') :
      Function.update (ownerOf ∘ s.cores) cpu (ownerOf pc') = ownerOf ∘ s.cores := by
    rw [← h, ← hpc]
    exact Function.update_eq_self cpu (ownerOf ∘ s.cores)
  have hphase {pc : Pc} (hpc : s.cores cpu = pc) (pc' : Pc) (h : phaseOf pc = phaseOf pc') :
      Function.update (phaseOf ∘ s.cores) cpu (phaseOf pc') = phaseOf ∘ s.cores := by
    rw [← h, ← hpc]
    exact Function.update_eq_self cpu (phaseOf ∘ s.cores)
  have hat {pc : Pc} (hpc : s.cores cpu = pc) : (phaseOf ∘ s.cores) cpu = phaseOf pc :=
    congrArg phaseOf hpc
  cases hpc : s.cores cpu with
  | idle =>
    refine ⟨begun, dropped, ?_⟩
    dsimp only [advance, heardAt]
    rw [hpc, stashed_set, howner hpc .idle rfl, hphase hpc .idle rfl, List.append_nil]
    exact .refl
  | stash tid now exitReason cgroup =>
    refine ⟨begun, dropped, ?_⟩
    dsimp only [advance, heardAt, handleKvmExit]
    rw [hpc, stashed_set, howner hpc .idle rfl, hphase hpc .idle rfl]
    have hfree : (stashed s log begun dropped).Free tid :=
      free_of_alone halone (congrArg Pc.tid hpc) (congrArg ownerOf hpc)
    exact .single (.opened (KvmGadget.Event.kvmExit tid now exitReason cgroup)
      (Exit.mk now exitReason cgroup) rfl hfree (Or.inr hroom))
  | exit tid =>
    have hfree : (stashed s log begun dropped).Free tid :=
      free_of_alone halone (congrArg Pc.tid hpc) (congrArg ownerOf hpc)
    dsimp only [advance, heardAt]
    rw [hpc]
    cases hst : s.maps.exitStart.lookup tid with
    | none =>
      refine ⟨begun, dropped, ?_⟩
      dsimp only
      rw [stashed_set, howner hpc .idle rfl, hphase hpc .idle rfl]
      exact .single (.missed (KvmGadget.Event.kvmEntry tid clock) clock rfl hfree hst)
    | some st =>
      refine ⟨begun ++ [(⟨st.cgroupId, st.exitReason⟩, clock - st.ts)], dropped, ?_⟩
      dsimp only
      rw [stashed_set]
      exact .single (.closed cpu (KvmGadget.Event.kvmEntry tid clock) clock st rfl hfree
        hst (congrArg ownerOf hpc) (hat hpc) (List.cons_ne_nil _ _))
  | find tid hk delta =>
    refine ⟨begun, dropped, ?_⟩
    dsimp only [advance, heardAt]
    rw [hpc, List.append_nil]
    split_ifs with hh
    · rw [stashed_set, howner hpc (.bump tid hk delta) rfl]
      exact .single (.fed (.found cpu hk [delta] (hat hpc) hh))
    · rw [stashed_set, howner hpc (.create tid hk delta) rfl]
      exact .single (.fed (.missing cpu hk [delta] (hat hpc) (Option.not_isSome_iff_eq_none.1 hh)))
  | create tid hk delta =>
    refine ⟨begun, dropped, ?_⟩
    dsimp only [advance, heardAt]
    rw [hpc, List.append_nil, stashed_set, howner hpc (.again tid hk delta) rfl]
    exact .single (.fed (.create cpu hk [delta] (hat hpc)))
  | again tid hk delta =>
    dsimp only [advance, heardAt]
    rw [hpc, List.append_nil]
    split_ifs with hh
    · refine ⟨begun, dropped, ?_⟩
      rw [stashed_set, howner hpc (.bump tid hk delta) rfl]
      exact .single (.fed (.retried cpu hk [delta] (hat hpc) hh))
    · refine ⟨begun, dropped ++ [(hk, delta)], ?_⟩
      rw [stashed_set, howner hpc (.forget tid) rfl]
      exact .single (.fed (.drop cpu hk [delta] (hat hpc) (Option.not_isSome_iff_eq_none.1 hh)))
  | bump tid hk delta =>
    refine ⟨begun, dropped, ?_⟩
    dsimp only [advance, heardAt]
    rw [hpc, List.append_nil, stashed_set, howner hpc (.forget tid) rfl]
    exact .single (.fed (.add cpu hk delta [] (hat hpc)))
  | forget tid =>
    refine ⟨begun, dropped, ?_⟩
    dsimp only [advance, heardAt]
    rw [hpc, List.append_nil, stashed_set, hphase hpc .idle rfl]
    exact .single (.forgot cpu tid (congrArg ownerOf hpc))

end Steps

section Deeds

variable {Cpu : Type}

/-- What a thread does, but for the time of an entry: it has a handler of its exit or of its entry
run. -/
abbrev Deed := UInt32 × Option Exit

def deed : KvmGadget.Event → Deed
  | .kvmExit tid now exitReason cgroup => (tid, some ⟨now, exitReason, cgroup⟩)
  | .kvmEntry tid _ => (tid, none)

def deedOf : Event Cpu → Option Deed
  | .kvmExit _ tid now exitReason cgroup => some (tid, some ⟨now, exitReason, cgroup⟩)
  | .kvmEntry _ tid => some (tid, none)
  | .step _ _ => none

def waiting : Pc → Option Deed
  | .stash tid now exitReason cgroup => some (tid, some ⟨now, exitReason, cgroup⟩)
  | .exit tid => some (tid, none)
  | _ => none

abbrev own (tid : UInt32) (ds : List Deed) : List Deed := Handlers.own Prod.fst tid ds

theorem tid_of_waiting {pc : Pc} {w : Deed} (h : waiting pc = some w) : pc.tid = some w.1 := by
  cases pc with
  | stash | exit =>
    cases h
    rfl
  | _ => cases h

theorem owner_of_waiting {pc : Pc} {w : Deed} (h : waiting pc = some w) : ownerOf pc = none := by
  cases pc with
  | stash | exit => rfl
  | _ => cases h

theorem phase_of_waiting {pc : Pc} {w : Deed} (h : waiting pc = some w) : phaseOf pc = .idle := by
  cases pc with
  | stash | exit => rfl
  | _ => cases h

theorem heardAt_step (s : State Cpu) (cpu : Cpu) (clock : UInt64) :
    (heardAt s (.step cpu clock)).map deed = (waiting (s.cores cpu)).toList := by
  dsimp only [heardAt]
  cases s.cores cpu <;> rfl

variable {perGuest : Bool} {clock : UInt64}

theorem waiting_advance (m : Maps) (pc : Pc) : waiting (advance perGuest clock m pc).2 = none := by
  cases pc with
  | exit tid =>
    dsimp only [advance]
    cases m.exitStart.lookup tid <;> rfl
  | find tid hk delta | again tid hk delta =>
    dsimp only [advance]
    split_ifs <;> rfl
  | _ => rfl

theorem tid_advance {m : Maps} {pc : Pc} {tid : UInt32}
    (h : (advance perGuest clock m pc).2.tid = some tid) : pc.tid = some tid := by
  cases pc with
  | idle | stash | forget => cases h
  | exit tid =>
    dsimp only [advance] at h
    cases hst : m.exitStart.lookup tid with
    | none =>
      rw [hst] at h
      cases h
    | some st =>
      rw [hst] at h
      exact h
  | find tid hk delta | again tid hk delta =>
    dsimp only [advance] at h
    split_ifs at h
    · exact h
    · exact h
  | create | bump => exact h

end Deeds

section Runs

variable {Cpu : Type} [DecidableEq Cpu] [Fintype Cpu] {perGuest : Bool} {s s' : State Cpu}
  {e : Event Cpu} {evs : List (Event Cpu)}

def heardOf (perGuest : Bool) (s : State Cpu) (evs : List (Event Cpu)) : List KvmGadget.Event :=
  Runs.outputs (step perGuest) heardAt s evs

/-- No state of a run has all the exits stashed that fit. -/
def NeverFull (perGuest : Bool) (s : State Cpu) (evs : List (Event Cpu)) : Prop :=
  ∀ t ∈ Runs.states (step perGuest) s evs, t.maps.exitStart.size < t.maps.exitStart.maxEntries

instance (perGuest : Bool) (s : State Cpu) (evs : List (Event Cpu)) :
    Decidable (NeverFull perGuest s evs) :=
  inferInstanceAs (Decidable (∀ t ∈ Runs.states (step perGuest) s evs, _))

theorem step_cases (h : step perGuest s e = some s') :
    (∃ cpu pc w, s.cores cpu = .idle ∧ (∀ c, (s.cores c).tid ≠ some w.1) ∧
      waiting pc = some w ∧ deedOf e = some w ∧ heardAt s e = [] ∧ s' = s.set cpu (s.maps, pc)) ∨
    ∃ cpu clock, e = .step cpu clock ∧
      s' = s.set cpu (advance perGuest clock s.maps (s.cores cpu)) := by
  have henter {cpu : Cpu} {tid : UInt32} {pc : Pc} (h : enter s cpu tid pc = some s') :
      (s.cores cpu = .idle ∧ ∀ c, (s.cores c).tid ≠ some tid) ∧ s' = s.set cpu (s.maps, pc) := by
    unfold enter at h
    split_ifs at h with hfree
    exact ⟨hfree, (Option.some.inj h).symm⟩
  cases e with
  | kvmExit cpu tid now exitReason cgroup =>
    obtain ⟨⟨hidle, hfree⟩, hs⟩ := henter h
    exact .inl ⟨cpu, _, _, hidle, hfree, rfl, rfl, rfl, hs⟩
  | kvmEntry cpu tid =>
    obtain ⟨⟨hidle, hfree⟩, hs⟩ := henter h
    exact .inl ⟨cpu, _, _, hidle, hfree, rfl, rfl, rfl, hs⟩
  | step cpu clock => exact .inr ⟨cpu, clock, rfl, (Option.some.inj h).symm⟩

/-- What holds after a run: a thread is on one CPU, and what it did has taken effect in order, up to
the last that a CPU is in a handler of. -/
abbrev Inv (s : State Cpu) (did took : List Deed) : Prop :=
  Handlers.Inv Pc.tid waiting Prod.fst s.cores did took

theorem step_inv {did took : List Deed} (h : step perGuest s e = some s') (hinv : Inv s did took) :
    Inv s' (did ++ (deedOf e).toList) (took ++ (heardAt s e).map deed) := by
  obtain ⟨cpu, pc, w, hidle, hfree, hpc, hdeed, hheard, rfl⟩ | ⟨cpu, clock, rfl, rfl⟩ := step_cases h
  · rw [hdeed, hheard, List.map_nil, List.append_nil]
    exact hinv.enter (fun _ _ => tid_of_waiting) (by rw [hidle]; rfl) hfree hpc
  · rw [heardAt_step]
    have hdid : did ++ (deedOf (.step cpu clock)).toList = did := List.append_nil did
    rw [hdid]
    exact hinv.advance (fun _ _ => tid_of_waiting) (waiting_advance s.maps (s.cores cpu))
      fun _ => tid_advance

theorem step_stash (h : step perGuest s e = some s') (halone : Handlers.Alone Pc.tid s.cores)
    (hroom : s.maps.exitStart.size < s.maps.exitStart.maxEntries) (log : List KvmGadget.Event)
    (begun dropped : List (HistKey × UInt64)) :
    ∃ begun' dropped', Relation.ReflGen
      (Stash.Step count (Vector.replicate maxSlots 0) Event.tid Event.kind (stash perGuest) sample)
      (stashed s log begun dropped) (stashed s' (log ++ heardAt s e) begun' dropped') := by
  obtain ⟨cpu, pc, w, hidle, -, hpc, -, hheard, rfl⟩ | ⟨cpu, clock, rfl, rfl⟩ := step_cases h
  · refine ⟨begun, dropped, ?_⟩
    have howner : Function.update (ownerOf ∘ s.cores) cpu (ownerOf pc) = ownerOf ∘ s.cores := by
      refine Function.update_eq_self_iff.2 ?_
      rw [owner_of_waiting hpc, Function.comp_apply, hidle]
      rfl
    have hphase : Function.update (phaseOf ∘ s.cores) cpu (phaseOf pc) = phaseOf ∘ s.cores := by
      refine Function.update_eq_self_iff.2 ?_
      rw [phase_of_waiting hpc, Function.comp_apply, hidle]
      rfl
    rw [hheard, List.append_nil, stashed_set, stashed, howner, hphase]
  · exact advance_stash halone hroom cpu clock log begun dropped

omit [DecidableEq Cpu] [Fintype Cpu] in
theorem inv_new : Inv (.new : State Cpu) [] [] :=
  Handlers.inv_start (fun _ => rfl) fun _ => rfl

/-- What each thread did and what has taken effect, after a run. -/
theorem run_inv (h : run perGuest .new evs = some s') :
    Inv s' (evs.filterMap deedOf) ((heardOf perGuest .new evs).map deed) := by
  have hkeeps := Runs.keeps (fun e => (deedOf e).toList)
    (fun (s : State Cpu) ws os => Inv s ws (os.map deed)) (fun s e s' ws os _ hstep hinv => by
      rw [List.map_append]
      exact step_inv hstep hinv) h (fun _ _ => trivial) [] [] inv_new
  rwa [List.nil_append, List.nil_append, ← List.filterMap_eq_flatMap_toList] at hkeeps

theorem run_stash (h : run perGuest .new evs = some s') (hroom : NeverFull perGuest .new evs) :
    ∃ begun dropped, Relation.ReflTransGen
      (Stash.Step count (Vector.replicate maxSlots 0) Event.tid Event.kind (stash perGuest) sample)
      (stashed .new [] [] []) (stashed s' (heardOf perGuest .new evs) begun dropped) := by
  obtain ⟨a, hsteps, -, begun, dropped, rfl⟩ := Runs.simulates
    (fun (s : State Cpu) log a => (∃ did took, Inv s did took) ∧
      ∃ begun dropped, a = stashed s log begun dropped)
    (fun s e s' log a hroom _ hstep hrel => by
      obtain ⟨⟨did, took, hinv⟩, begun, dropped, rfl⟩ := hrel
      obtain ⟨begun', dropped', hsteps⟩ := step_stash hstep hinv.alone hroom log begun dropped
      exact ⟨_, hsteps.to_reflTransGen, ⟨_, _, step_inv hstep hinv⟩, begun', dropped', rfl⟩)
    h hroom [] _ ⟨⟨[], [], inv_new⟩, [], [], rfl⟩
  exact ⟨begun, dropped, hsteps⟩

/-- On any number of CPUs and in any order of their steps, what takes effect is what each thread did
in its order, and each histogram is that of the pairs of an exit and the entry after it in there, but
for histograms that the map had no room for, which are missing as a whole. -/
theorem handlers_paired (evs : List (Event Cpu)) (hrun : run perGuest .new evs = some s')
    (hroom : NeverFull perGuest .new evs) (hidle : ∀ cpu, s'.cores cpu = .idle) :
    (∀ tid, own tid ((heardOf perGuest .new evs).map deed) = own tid (evs.filterMap deedOf)) ∧
      ∀ key, s'.maps.hists.lookup key =
          tally perGuest (completed Event.tid Event.kind (heardOf perGuest .new evs)) key ∨
        s'.maps.hists.lookup key = none ∧ s'.maps.hists.size = 262144 := by
  obtain ⟨begun, dropped, hsteps⟩ := run_stash hrun hroom
  have hstart : Stash.Kept count (Vector.replicate maxSlots 0) Event.tid Event.kind
      (stash perGuest) sample (stashed (.new : State Cpu) [] [] []) :=
    { pending := fun tid _ => BoundedMap.lookup_empty 131072 tid
      owned := fun c tid h => by cases h
      begun := rfl
      fed := Accrual.accounted_start (BoundedMap.lookup_empty 262144) fun _ => rfl }
  have hmax : s'.maps.hists.maxEntries = 262144 := Stash.maxEntries_run hsteps
  refine ⟨fun tid => ?_, fun key => ?_⟩
  · exact (run_inv hrun).settled (fun c => by rw [hidle c]; rfl) tid
  · rcases (Stash.kept_run hsteps hstart).settled (fun c => congrArg phaseOf (hidle c)) key with
      ⟨hne, hsome⟩ | ⟨hnone, hnil | hfull⟩
    · exact Or.inl (hsome.trans (tally_eq hne).symm)
    · exact Or.inl (hnone.trans (tally_eq_none hnil).symm)
    · exact Or.inr ⟨hnone, hfull.trans hmax⟩

/-- Two threads leave the guest for one reason on two CPUs, which both find no histogram when they
go back; the first has left it once more in between. -/
def crossed : List (Event Bool) :=
  [.kvmExit true 7 100 12 0, .kvmExit false 8 110 12 0, .step false 0, .step true 0,
    .kvmEntry true 7, .kvmEntry false 8, .step false 174, .step true 164, .step true 0,
    .step false 0, .step true 0, .step false 0, .step false 0, .step true 0, .step true 0,
    .step true 0, .kvmExit true 7 200 30 0, .step false 0, .step false 0, .step true 0]

theorem crossed_run : (run false .new crossed).isSome := by decide +kernel

theorem crossed_paired :
    ((run false .new crossed).get crossed_run).maps.hists.lookup ⟨0, 12⟩ =
      tally false [(8, ⟨110, 12, 0⟩, 174), (7, ⟨100, 12, 0⟩, 164)] ⟨0, 12⟩ := by
  have hidle : ∀ cpu, ((run false .new crossed).get crossed_run).cores cpu = .idle := by
    decide +kernel +revert
  have hpaired := (handlers_paired crossed (Option.some_get crossed_run).symm (by decide +kernel)
    hidle).2 ⟨0, 12⟩
  rcases hpaired with h | ⟨h, _⟩
  · exact h.trans (by decide +kernel)
  · exact absurd h (by decide +kernel +revert)

end Runs

section Solo

variable {Cpu : Type} [DecidableEq Cpu] [Fintype Cpu]

/-- A handler that runs from its start to its end with no other CPU taking a step. -/
def solo (cpu : Cpu) : KvmGadget.Event → List (Event Cpu)
  | .kvmExit tid now exitReason cgroup =>
    [.kvmExit cpu tid now exitReason cgroup, .step cpu now]
  | .kvmEntry tid now => .kvmEntry cpu tid :: List.replicate 6 (.step cpu now)

def advances (perGuest : Bool) (clock : UInt64) (n : ℕ) (r : Maps × Pc) : Maps × Pc :=
  (fun r => advance perGuest clock r.1 r.2)^[n] r

theorem run_steps (perGuest : Bool) (cpu : Cpu) (clock : UInt64) (n : ℕ) (s : State Cpu) :
    run perGuest s (List.replicate n (.step cpu clock)) =
      some (s.set cpu (advances perGuest clock n (s.maps, s.cores cpu))) := by
  induction n generalizing s with
  | zero =>
    change some s = some ⟨s.maps, Function.update s.cores cpu (s.cores cpu)⟩
    rw [Function.update_eq_self]
  | succ n ih =>
    change run perGuest (s.set cpu (advance perGuest clock s.maps (s.cores cpu)))
      (List.replicate n (.step cpu clock)) = _
    rw [ih, cores_set_self, advances, advances, Function.iterate_succ_apply, State.set, State.set,
      State.set, Function.update_idem]

theorem advances_entry (perGuest : Bool) (m : Maps) (tid : UInt32) (now : UInt64) :
    advances perGuest now 6 (m, .exit tid) = (handleKvmEntry m tid now, .idle) := by
  unfold advances handleKvmEntry initHist
  simp only [Function.iterate_succ_apply, Function.iterate_zero_apply]
  cases hst : m.exitStart.lookup tid with
  | none => simp only [advance, hst]
  | some st =>
    cases hh : m.hists.lookup ⟨st.cgroupId, st.exitReason⟩ with
    | some h => simp only [advance, hst, hh, Option.isSome_some, if_true]
    | none =>
      cases hagain : (m.hists.create ⟨st.cgroupId, st.exitReason⟩
          (Vector.replicate maxSlots 0)).lookup ⟨st.cgroupId, st.exitReason⟩ with
      | some h => simp [advance, hst, hh, hagain]
      | none => simp [advance, hst, hh, hagain]

theorem run_solo (perGuest : Bool) (cpu : Cpu) (m : Maps) (e : KvmGadget.Event) :
    run perGuest ⟨m, fun _ => .idle⟩ (solo cpu e) =
      some (⟨handle perGuest m e, fun _ => .idle⟩ : State Cpu) := by
  have henter (tid : UInt32) (pc : Pc) : enter ⟨m, fun _ => .idle⟩ cpu tid pc =
      some ((⟨m, fun _ => .idle⟩ : State Cpu).set cpu (m, pc)) :=
    if_pos ⟨rfl, fun _ h => by cases h⟩
  have hback (m' : Maps) (pc : Pc) :
      (((⟨m, fun _ => .idle⟩ : State Cpu).set cpu (m, pc)).set cpu (m', .idle)) =
        ⟨m', fun _ => .idle⟩ := by
    rw [State.set, State.set, Function.update_idem]
    exact congrArg (State.mk m') (Function.update_eq_self cpu fun _ => Pc.idle)
  cases e with
  | kvmExit tid now exitReason cgroup =>
    change (enter ⟨m, fun _ => .idle⟩ cpu tid _ >>= fun s =>
      run perGuest s (List.replicate 1 (.step cpu now))) = _
    rw [henter]
    change run perGuest _ _ = _
    rw [run_steps, cores_set_self]
    exact congrArg some (hback _ _)
  | kvmEntry tid now =>
    change (enter ⟨m, fun _ => .idle⟩ cpu tid _ >>= fun s =>
      run perGuest s (List.replicate 6 (.step cpu now))) = _
    rw [henter]
    change run perGuest _ _ = _
    rw [run_steps, cores_set_self]
    change some (State.set _ cpu (advances perGuest now 6 (m, .exit tid))) = _
    rw [advances_entry]
    exact congrArg some (hback _ _)

/-- The handlers of the events one after another, each on a CPU of its own choice, leave the
maps of the events one after another. -/
theorem run_solos (perGuest : Bool) (evs : List (Cpu × KvmGadget.Event)) :
    run perGuest .new (evs.flatMap fun e => solo e.1 e.2) =
      some ⟨KvmGadget.run perGuest (evs.map Prod.snd), fun _ => .idle⟩ := by
  induction evs using List.reverseRecOn with
  | nil => rfl
  | append_singleton evs e ih =>
    rw [List.flatMap_append, List.flatMap_singleton, run, List.foldlM_append]
    change (run perGuest .new (evs.flatMap fun e => solo e.1 e.2) >>= fun s =>
      run perGuest s (solo e.1 e.2)) = _
    rw [ih]
    change run perGuest _ _ = _
    have hlast : KvmGadget.run perGuest ((evs ++ [e]).map Prod.snd) =
        handle perGuest (KvmGadget.run perGuest (evs.map Prod.snd)) e.2 := by
      rw [List.map_append, List.map_singleton]
      exact List.foldl_append ..
    rw [run_solo, hlast]

end Solo

end KvmCpus

end Assayist
