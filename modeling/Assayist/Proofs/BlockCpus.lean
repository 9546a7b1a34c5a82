import Assayist.Lib.Handlers
import Assayist.Lib.Runs
import Assayist.Lib.Stash
import Assayist.Spec.BlockCpus

/-! The block gadget's histograms and byte counters over every order of the steps of every CPU's
handlers, no two of them for one request at a time. A completed request adds to both of its device
or to neither. -/

namespace Assayist

deriving instance DecidableEq for BlockGadget.Stat

namespace BlockCpus

open BlockGadget Pairing

section Requests

structure Issue where
  bytes : UInt64
  rwbs : Char
  now : UInt64

def request : BlockGadget.Event → RqKey
  | .issue dev sector _ _ _ => ⟨dev, sector⟩
  | .complete dev sector _ => ⟨dev, sector⟩

def kind : BlockGadget.Event → Issue ⊕ UInt64
  | .issue _ _ bytes rwbs now => .inl ⟨bytes, rwbs, now⟩
  | .complete _ _ now => .inr now

abbrev Request := RqKey × Issue × UInt64

def stash (x : Issue) : RqStart where
  ts := x.now
  bytes := x.bytes
  isWrite := x.rwbs != 'R'

def keyOf (c : Request) : BlkKey := ⟨c.1.dev, c.2.1.rwbs != 'R'⟩

def latency (c : Request) : UInt64 := c.2.2 - c.2.1.now

/-- The requests of a device in one direction, counted by slot, and their bytes. -/
def statOf (cs : List Request) (bk : BlkKey) : Option Stat :=
  let own := cs.filter fun c => keyOf c = bk
  if own.isEmpty then none
  else some
    { slots := .ofFn fun s => .ofNat (own.countP fun c => slotOf (latency c) = s)
      bytes := .ofNat (own.map fun c => c.2.1.bytes.toNat).sum }

inductive Part where
  | slot (delta : UInt64)
  | bytes (n : UInt64)

def Part.add (p : Part) (st : Stat) : Stat :=
  match p with
  | .slot delta => { st with slots := st.slots.bump delta }
  | .bytes n => { st with bytes := st.bytes + n }

theorem getElem_bump (slots : Slots) (delta : UInt64) {j : ℕ} (hj : j < maxSlots) :
    (slots.bump delta)[j] = slots[j] + if slotOf delta = j then 1 else 0 := by
  rw [Slots.bump, Vector.getElem_set]
  split_ifs with heq
  · subst heq
    rfl
  · rw [UInt32.add_zero]

theorem bump_comm (slots : Slots) (d d' : UInt64) :
    (slots.bump d').bump d = (slots.bump d).bump d' := by
  apply Vector.ext
  intro j hj
  rw [getElem_bump, getElem_bump, getElem_bump, getElem_bump, UInt32.add_assoc, UInt32.add_assoc,
    UInt32.add_comm (if slotOf d' = j then 1 else 0)]

instance : LeftCommutative Part.add where
  left_comm p q st := by
    cases p with
    | slot d =>
      cases q with
      | slot d' => exact congrArg (Stat.mk · st.bytes) (bump_comm st.slots d d')
      | bytes n => rfl
    | bytes n =>
      cases q with
      | slot d => rfl
      | bytes n' =>
        apply congrArg (Stat.mk st.slots)
        dsimp only [Part.add]
        rw [UInt64.add_assoc, UInt64.add_comm n', UInt64.add_assoc]

def sample (k : RqKey) (st : RqStart) (now : UInt64) : BlkKey × List Part :=
  (⟨k.dev, st.isWrite⟩, [.slot (now - st.ts), .bytes st.bytes])

theorem foldr_parts (cs : List Request) :
    (cs.flatMap fun c => [Part.slot (latency c), .bytes c.2.1.bytes]).foldr Part.add .zero =
      { slots := .ofFn fun s => .ofNat (cs.countP fun c => slotOf (latency c) = s)
        bytes := .ofNat (cs.map fun c => c.2.1.bytes.toNat).sum } := by
  induction cs with
  | nil =>
    refine congrArg₂ Stat.mk ?_ rfl
    apply Vector.ext
    intro j hj
    rw [Vector.getElem_replicate, Vector.getElem_ofFn]
    rfl
  | cons c cs ih =>
    rw [List.flatMap_cons, List.foldr_append, ih]
    refine congrArg₂ Stat.mk ?_ ?_
    · apply Vector.ext
      intro j hj
      dsimp only [List.foldr_cons, List.foldr_nil, Part.add]
      rw [getElem_bump, Vector.getElem_ofFn, Vector.getElem_ofFn, List.countP_cons,
        UInt32.ofNat_add]
      by_cases h : slotOf (latency c) = j
      · rw [if_pos h, if_pos (by simpa using h)]
        rfl
      · rw [if_neg h, if_neg (by simpa using h)]
        rfl
    · dsimp only [List.foldr_cons, List.foldr_nil, Part.add]
      rw [List.map_cons, List.sum_cons, UInt64.ofNat_add, UInt64.ofNat_toNat, UInt64.add_comm]

theorem parts_eq (bk : BlkKey) (cs : List Request) :
    Stash.parts stash sample bk cs = (cs.filter fun c => keyOf c = bk).flatMap fun c =>
      [Part.slot (latency c), .bytes c.2.1.bytes] :=
  rfl

theorem statOf_eq {bk : BlkKey} {cs : List Request} (h : Stash.parts stash sample bk cs ≠ []) :
    statOf cs bk = some ((Stash.parts stash sample bk cs).foldr Part.add .zero) := by
  rw [parts_eq] at h ⊢
  unfold statOf
  dsimp only
  have hne : ¬ (cs.filter fun c => keyOf c = bk).isEmpty := by
    rw [List.isEmpty_iff]
    exact fun hnil => h (by rw [hnil]; rfl)
  rw [if_neg hne, foldr_parts]

theorem statOf_eq_none {bk : BlkKey} {cs : List Request}
    (h : Stash.parts stash sample bk cs = []) : statOf cs bk = none := by
  rw [parts_eq] at h
  have hnil : cs.filter (fun c => keyOf c = bk) = [] := by
    rw [List.eq_nil_iff_forall_not_mem]
    intro c hc
    have hnone := List.flatMap_eq_nil_iff.1 h c hc
    cases hnone
  unfold statOf
  dsimp only
  rw [hnil]
  rfl

end Requests

section Steps

variable {Cpu : Type}

def ownerOf : Pc → Option RqKey
  | .find k _ _ _ | .create k _ _ _ | .again k _ _ _ | .slot k _ _ _ | .bytes k _ _
  | .forget k => some k
  | _ => none

def phaseOf : Pc → Phase BlkKey Part
  | .find _ bk delta bytes => .find bk [.slot delta, .bytes bytes]
  | .create _ bk delta bytes => .create bk [.slot delta, .bytes bytes]
  | .again _ bk delta bytes => .again bk [.slot delta, .bytes bytes]
  | .slot _ bk delta bytes => .add bk [.slot delta, .bytes bytes]
  | .bytes _ bk bytes => .add bk [.bytes bytes]
  | _ => .idle

/-- The gadget as intervals measured through its two maps. -/
def stashed (s : State Cpu) (log : List BlockGadget.Event) (begun dropped : List (BlkKey × Part)) :
    Stash Cpu RqKey RqStart BlkKey Stat Part BlockGadget.Event where
  map := s.maps.inflight
  owner := ownerOf ∘ s.cores
  feed := ⟨s.maps.stats, phaseOf ∘ s.cores, begun, dropped⟩
  log := log

/-- What takes effect at a step: an issue as it is stashed, a completion as it looks the issue up. -/
def heardAt (s : State Cpu) : Event Cpu → List BlockGadget.Event
  | .step cpu clock =>
    match s.cores cpu with
    | .stash k bytes rwbs now => [.issue k.dev k.sector bytes rwbs now]
    | .start k => [.complete k.dev k.sector clock]
    | _ => []
  | _ => []

theorem request_of_owner {pc : Pc} {k : RqKey} (h : ownerOf pc = some k) :
    pc.request = some k := by
  cases pc with
  | idle | stash | start => cases h
  | _ => exact h

theorem free_of_alone {s : State Cpu} (h : Handlers.Alone Pc.request s.cores) {cpu : Cpu}
    {k : RqKey} (hk : (s.cores cpu).request = some k) (howner : ownerOf (s.cores cpu) = none)
    {log : List BlockGadget.Event} {begun dropped : List (BlkKey × Part)} :
    (stashed s log begun dropped).Free k := by
  intro c hc
  have hsame := h c cpu k (request_of_owner hc) hk
  rw [hsame] at hc
  exact Option.some_ne_none k (hc.symm.trans howner)

variable [DecidableEq Cpu]

theorem stashed_set (s : State Cpu) (cpu : Cpu) (m : Maps) (pc : Pc)
    (log : List BlockGadget.Event) (begun dropped : List (BlkKey × Part)) :
    stashed (s.set cpu (m, pc)) log begun dropped =
      { map := m.inflight
        owner := Function.update (ownerOf ∘ s.cores) cpu (ownerOf pc)
        feed := ⟨m.stats, Function.update (phaseOf ∘ s.cores) cpu (phaseOf pc), begun, dropped⟩
        log := log } := by
  unfold stashed State.set
  rw [Function.comp_update, Function.comp_update]

theorem advance_stash {s : State Cpu} (halone : Handlers.Alone Pc.request s.cores)
    (hroom : s.maps.inflight.size < s.maps.inflight.maxEntries) (cpu : Cpu) (clock : UInt64)
    (log : List BlockGadget.Event) (begun dropped : List (BlkKey × Part)) :
    ∃ begun' dropped', Relation.ReflGen
      (Stash.Step Part.add .zero request kind stash sample)
      (stashed s log begun dropped)
      (stashed (s.set cpu (advance clock s.maps (s.cores cpu)))
        (log ++ heardAt s (.step cpu clock)) begun' dropped') := by
  have howner {pc : Pc} (hpc : s.cores cpu = pc) (pc' : Pc) (h : ownerOf pc = ownerOf pc') :
      Function.update (ownerOf ∘ s.cores) cpu (ownerOf pc') = ownerOf ∘ s.cores := by
    rw [← h, ← hpc]
    exact Function.update_eq_self cpu (ownerOf ∘ s.cores)
  have hphase {pc : Pc} (hpc : s.cores cpu = pc) (pc' : Pc) (h : phaseOf pc = phaseOf pc') :
      Function.update (phaseOf ∘ s.cores) cpu (phaseOf pc') = phaseOf ∘ s.cores := by
    rw [← h, ← hpc]
    exact Function.update_eq_self cpu (phaseOf ∘ s.cores)
  have hat {pc : Pc} (hpc : s.cores cpu = pc) : (phaseOf ∘ s.cores) cpu = phaseOf pc :=
    congrArg phaseOf hpc
  cases hpc : s.cores cpu with
  | idle =>
    refine ⟨begun, dropped, ?_⟩
    dsimp only [advance, heardAt]
    rw [hpc, stashed_set, howner hpc .idle rfl, hphase hpc .idle rfl, List.append_nil]
    exact .refl
  | stash k bytes rwbs now =>
    refine ⟨begun, dropped, ?_⟩
    dsimp only [advance, heardAt, handleIssue]
    rw [hpc, stashed_set, howner hpc .idle rfl, hphase hpc .idle rfl]
    have hfree : (stashed s log begun dropped).Free k :=
      free_of_alone halone (congrArg Pc.request hpc) (congrArg ownerOf hpc)
    exact .single (.opened (BlockGadget.Event.issue k.dev k.sector bytes rwbs now)
      (Issue.mk bytes rwbs now) rfl hfree (Or.inr hroom))
  | start k =>
    have hfree : (stashed s log begun dropped).Free k :=
      free_of_alone halone (congrArg Pc.request hpc) (congrArg ownerOf hpc)
    dsimp only [advance, heardAt]
    rw [hpc]
    cases hst : s.maps.inflight.lookup k with
    | none =>
      refine ⟨begun, dropped, ?_⟩
      dsimp only
      rw [stashed_set, howner hpc .idle rfl, hphase hpc .idle rfl]
      exact .single (.missed (BlockGadget.Event.complete k.dev k.sector clock) clock rfl hfree hst)
    | some st =>
      refine ⟨begun ++ [Part.slot (clock - st.ts), .bytes st.bytes].map
        ((⟨k.dev, st.isWrite⟩ : BlkKey), ·), dropped, ?_⟩
      dsimp only
      rw [stashed_set]
      exact .single (.closed cpu (BlockGadget.Event.complete k.dev k.sector clock) clock st rfl hfree
        hst (congrArg ownerOf hpc) (hat hpc) (List.cons_ne_nil _ _))
  | find k bk delta bytes =>
    refine ⟨begun, dropped, ?_⟩
    dsimp only [advance, heardAt]
    rw [hpc, List.append_nil]
    split_ifs with hh
    · rw [stashed_set, howner hpc (.slot k bk delta bytes) rfl]
      exact .single (.fed (.found cpu bk [Part.slot delta, .bytes bytes] (hat hpc) hh))
    · rw [stashed_set, howner hpc (.create k bk delta bytes) rfl]
      exact .single (.fed (.missing cpu bk [Part.slot delta, .bytes bytes] (hat hpc)
        (Option.not_isSome_iff_eq_none.1 hh)))
  | create k bk delta bytes =>
    refine ⟨begun, dropped, ?_⟩
    dsimp only [advance, heardAt]
    rw [hpc, List.append_nil, stashed_set, howner hpc (.again k bk delta bytes) rfl]
    exact .single (.fed (.create cpu bk [Part.slot delta, .bytes bytes] (hat hpc)))
  | again k bk delta bytes =>
    dsimp only [advance, heardAt]
    rw [hpc, List.append_nil]
    split_ifs with hh
    · refine ⟨begun, dropped, ?_⟩
      rw [stashed_set, howner hpc (.slot k bk delta bytes) rfl]
      exact .single (.fed (.retried cpu bk [Part.slot delta, .bytes bytes] (hat hpc) hh))
    · refine ⟨begun, dropped ++ [Part.slot delta, .bytes bytes].map (bk, ·), ?_⟩
      rw [stashed_set, howner hpc (.forget k) rfl]
      exact .single (.fed (.drop cpu bk [Part.slot delta, .bytes bytes] (hat hpc)
        (Option.not_isSome_iff_eq_none.1 hh)))
  | slot k bk delta bytes =>
    refine ⟨begun, dropped, ?_⟩
    dsimp only [advance, heardAt]
    rw [hpc, List.append_nil, stashed_set, howner hpc (.bytes k bk bytes) rfl]
    exact .single (.fed (.add cpu bk (Part.slot delta) [Part.bytes bytes] (hat hpc)))
  | bytes k bk bytes =>
    refine ⟨begun, dropped, ?_⟩
    dsimp only [advance, heardAt]
    rw [hpc, List.append_nil, stashed_set, howner hpc (.forget k) rfl]
    exact .single (.fed (.add cpu bk (Part.bytes bytes) [] (hat hpc)))
  | forget k =>
    refine ⟨begun, dropped, ?_⟩
    dsimp only [advance, heardAt]
    rw [hpc, List.append_nil, stashed_set, hphase hpc .idle rfl]
    exact .single (.forgot cpu k (congrArg ownerOf hpc))

end Steps

section Deeds

variable {Cpu : Type}

/-- What happens to a request, but for the time of a completion. -/
abbrev Deed := RqKey × Option Issue

def deed : BlockGadget.Event → Deed
  | .issue dev sector bytes rwbs now => (⟨dev, sector⟩, some ⟨bytes, rwbs, now⟩)
  | .complete dev sector _ => (⟨dev, sector⟩, none)

def deedOf : Event Cpu → Option Deed
  | .issue _ dev sector bytes rwbs now => some (⟨dev, sector⟩, some ⟨bytes, rwbs, now⟩)
  | .complete _ dev sector => some (⟨dev, sector⟩, none)
  | .step _ _ => none

def waiting : Pc → Option Deed
  | .stash k bytes rwbs now => some (k, some ⟨bytes, rwbs, now⟩)
  | .start k => some (k, none)
  | _ => none

abbrev own (k : RqKey) (ds : List Deed) : List Deed := Handlers.own Prod.fst k ds

theorem request_of_waiting {pc : Pc} {w : Deed} (h : waiting pc = some w) :
    pc.request = some w.1 := by
  cases pc with
  | stash | start =>
    cases h
    rfl
  | _ => cases h

theorem owner_of_waiting {pc : Pc} {w : Deed} (h : waiting pc = some w) : ownerOf pc = none := by
  cases pc with
  | stash | start => rfl
  | _ => cases h

theorem phase_of_waiting {pc : Pc} {w : Deed} (h : waiting pc = some w) : phaseOf pc = .idle := by
  cases pc with
  | stash | start => rfl
  | _ => cases h

theorem heardAt_step (s : State Cpu) (cpu : Cpu) (clock : UInt64) :
    (heardAt s (.step cpu clock)).map deed = (waiting (s.cores cpu)).toList := by
  dsimp only [heardAt]
  cases s.cores cpu <;> rfl

variable {clock : UInt64}

theorem waiting_advance (m : Maps) (pc : Pc) : waiting (advance clock m pc).2 = none := by
  cases pc with
  | start k =>
    dsimp only [advance]
    cases m.inflight.lookup k <;> rfl
  | find | again =>
    dsimp only [advance]
    split_ifs <;> rfl
  | _ => rfl

theorem request_advance {m : Maps} {pc : Pc} {k : RqKey}
    (h : (advance clock m pc).2.request = some k) : pc.request = some k := by
  cases pc with
  | idle | stash | forget => cases h
  | start k =>
    dsimp only [advance] at h
    cases hst : m.inflight.lookup k with
    | none =>
      rw [hst] at h
      cases h
    | some st =>
      rw [hst] at h
      exact h
  | find | again =>
    dsimp only [advance] at h
    split_ifs at h
    · exact h
    · exact h
  | create | slot | bytes => exact h

end Deeds

section Runs

variable {Cpu : Type} [DecidableEq Cpu] {s s' : State Cpu} {e : Event Cpu}
  {evs : List (Event Cpu)}

def heardOf (s : State Cpu) (evs : List (Event Cpu)) : List BlockGadget.Event :=
  Runs.outputs step heardAt s evs

/-- No state of a run has all the requests stashed that fit. -/
def NeverFull (s : State Cpu) (evs : List (Event Cpu)) : Prop :=
  ∀ t ∈ Runs.states step s evs, t.maps.inflight.size < t.maps.inflight.maxEntries

instance (s : State Cpu) (evs : List (Event Cpu)) : Decidable (NeverFull s evs) :=
  inferInstanceAs (Decidable (∀ t ∈ Runs.states step s evs, _))

/-- In no state of a run are two CPUs in handlers of one request. -/
def Apart (s : State Cpu) (evs : List (Event Cpu)) : Prop :=
  ∀ t ∈ Runs.states step s evs, Handlers.Alone Pc.request t.cores

instance [Fintype Cpu] (s : State Cpu) (evs : List (Event Cpu)) : Decidable (Apart s evs) :=
  inferInstanceAs (Decidable (∀ t ∈ Runs.states step s evs, _))

theorem step_cases (h : step s e = some s') :
    (∃ cpu pc w, s.cores cpu = .idle ∧ waiting pc = some w ∧ deedOf e = some w ∧
      heardAt s e = [] ∧ s' = s.set cpu (s.maps, pc)) ∨
    ∃ cpu clock, e = .step cpu clock ∧ s' = s.set cpu (advance clock s.maps (s.cores cpu)) := by
  have henter {cpu : Cpu} {pc : Pc} (h : enter s cpu pc = some s') :
      s.cores cpu = .idle ∧ s' = s.set cpu (s.maps, pc) := by
    unfold enter at h
    split_ifs at h with hidle
    exact ⟨hidle, (Option.some.inj h).symm⟩
  cases e with
  | issue cpu dev sector bytes rwbs now =>
    obtain ⟨hidle, hs⟩ := henter h
    exact .inl ⟨cpu, _, _, hidle, rfl, rfl, rfl, hs⟩
  | complete cpu dev sector =>
    obtain ⟨hidle, hs⟩ := henter h
    exact .inl ⟨cpu, _, _, hidle, rfl, rfl, rfl, hs⟩
  | step cpu clock => exact .inr ⟨cpu, clock, rfl, (Option.some.inj h).symm⟩

/-- What holds after a run: a request has one handler, and what happened to it has taken effect in
order, up to the last that a CPU is in a handler of. -/
abbrev Inv (s : State Cpu) (did took : List Deed) : Prop :=
  Handlers.Inv Pc.request waiting Prod.fst s.cores did took

omit [DecidableEq Cpu] in
theorem inv_new : Inv (.new : State Cpu) [] [] :=
  Handlers.inv_start (fun _ => rfl) fun _ => rfl

theorem step_inv {did took : List Deed} (halone : Handlers.Alone Pc.request s'.cores)
    (h : step s e = some s') (hinv : Inv s did took) :
    Inv s' (did ++ (deedOf e).toList) (took ++ (heardAt s e).map deed) := by
  obtain ⟨cpu, pc, w, hidle, hpc, hdeed, hheard, rfl⟩ | ⟨cpu, clock, rfl, rfl⟩ := step_cases h
  · rw [hdeed, hheard, List.map_nil, List.append_nil]
    have hfree := halone.free (request_of_waiting hpc) (by rw [hidle]; rfl)
    exact hinv.enter (fun _ _ => request_of_waiting) (by rw [hidle]; rfl) hfree hpc
  · rw [heardAt_step]
    have hdid : did ++ (deedOf (.step cpu clock)).toList = did := List.append_nil did
    rw [hdid]
    exact hinv.advance (fun _ _ => request_of_waiting) (waiting_advance s.maps (s.cores cpu))
      fun _ => request_advance

theorem step_stash (h : step s e = some s') (halone : Handlers.Alone Pc.request s.cores)
    (hroom : s.maps.inflight.size < s.maps.inflight.maxEntries) (log : List BlockGadget.Event)
    (begun dropped : List (BlkKey × Part)) :
    ∃ begun' dropped', Relation.ReflGen (Stash.Step Part.add .zero request kind stash sample)
      (stashed s log begun dropped) (stashed s' (log ++ heardAt s e) begun' dropped') := by
  obtain ⟨cpu, pc, w, hidle, hpc, -, hheard, rfl⟩ | ⟨cpu, clock, rfl, rfl⟩ := step_cases h
  · refine ⟨begun, dropped, ?_⟩
    have howner : Function.update (ownerOf ∘ s.cores) cpu (ownerOf pc) = ownerOf ∘ s.cores := by
      refine Function.update_eq_self_iff.2 ?_
      rw [owner_of_waiting hpc, Function.comp_apply, hidle]
      rfl
    have hphase : Function.update (phaseOf ∘ s.cores) cpu (phaseOf pc) = phaseOf ∘ s.cores := by
      refine Function.update_eq_self_iff.2 ?_
      rw [phase_of_waiting hpc, Function.comp_apply, hidle]
      rfl
    rw [hheard, List.append_nil, stashed_set, stashed, howner, hphase]
  · exact advance_stash halone hroom cpu clock log begun dropped

/-- What happened to each request and what has taken effect, after a run. -/
theorem run_inv (h : run .new evs = some s') (hapart : Apart .new evs) :
    Inv s' (evs.filterMap deedOf) ((heardOf .new evs).map deed) := by
  have hkeeps := Runs.keeps (fun e => (deedOf e).toList)
    (fun (s : State Cpu) ws os => Inv s ws (os.map deed))
    (fun s e s' ws os halone hstep hinv => by
      rw [List.map_append]
      exact step_inv halone hstep hinv) h hapart [] [] inv_new
  rwa [List.nil_append, List.nil_append, ← List.filterMap_eq_flatMap_toList] at hkeeps

theorem run_stash (h : run .new evs = some s') (hapart : Apart .new evs)
    (hroom : NeverFull .new evs) :
    ∃ begun dropped, Relation.ReflTransGen (Stash.Step Part.add .zero request kind stash sample)
      (stashed .new [] [] []) (stashed s' (heardOf .new evs) begun dropped) := by
  obtain ⟨a, hsteps, begun, dropped, rfl⟩ := Runs.simulates
    (fun (s : State Cpu) log a => ∃ begun dropped, a = stashed s log begun dropped)
    (fun s e s' log a hgood _ hstep hrel => by
      obtain ⟨begun, dropped, rfl⟩ := hrel
      obtain ⟨begun', dropped', hsteps⟩ := step_stash hstep hgood.1 hgood.2 log begun dropped
      exact ⟨_, hsteps.to_reflTransGen, begun', dropped', rfl⟩)
    h (fun t ht => And.intro (hapart t ht) (hroom t ht)) [] _ ⟨[], [], rfl⟩
  exact ⟨begun, dropped, hsteps⟩

variable [Fintype Cpu]

/-- On any number of CPUs and in any order of their steps, as long as no two are in handlers of one
request, what takes effect is what happened to each request in its order, and each device's entry
counts, in the slots and in the bytes alike, the pairs of an issue and the completion after it in
there, but for entries that the map had no room for. -/
theorem requests_paired (evs : List (Event Cpu)) (hrun : run .new evs = some s')
    (hapart : Apart .new evs) (hroom : NeverFull .new evs) (hidle : ∀ cpu, s'.cores cpu = .idle) :
    (∀ k, own k ((heardOf .new evs).map deed) = own k (evs.filterMap deedOf)) ∧
      ∀ bk, s'.maps.stats.lookup bk = statOf (completed request kind (heardOf .new evs)) bk ∨
        s'.maps.stats.lookup bk = none ∧ s'.maps.stats.size = 1024 := by
  obtain ⟨begun, dropped, hsteps⟩ := run_stash hrun hapart hroom
  have hstart : Stash.Kept Part.add .zero request kind stash sample
      (stashed (.new : State Cpu) [] [] []) :=
    { pending := fun k _ => BoundedMap.lookup_empty 65536 k
      owned := fun c k h => by cases h
      begun := rfl
      fed := Accrual.accounted_start (BoundedMap.lookup_empty 1024) fun _ => rfl }
  have hmax : s'.maps.stats.maxEntries = 1024 := Stash.maxEntries_run hsteps
  refine ⟨fun k => ?_, fun bk => ?_⟩
  · exact (run_inv hrun hapart).settled (fun c => by rw [hidle c]; rfl) k
  · rcases (Stash.kept_run hsteps hstart).settled (fun c => congrArg phaseOf (hidle c)) bk with
      ⟨hne, hsome⟩ | ⟨hnone, hnil | hfull⟩
    · exact Or.inl (hsome.trans (statOf_eq hne).symm)
    · exact Or.inl (hnone.trans (statOf_eq_none hnil).symm)
    · exact Or.inr ⟨hnone, hfull.trans hmax⟩

def crossed : List (Event Bool) :=
  [.issue true 8 0 4096 'R' 100, .step true 0, .issue true 8 64 512 'R' 110, .step true 0,
    .complete true 8 0, .complete false 8 64, .step true 1124, .step false 1134, .step false 0,
    .step true 0, .step true 0, .step false 0, .step true 0, .step false 0, .step false 0,
    .step false 0, .step true 0, .step true 0, .step false 0, .step true 0]

theorem crossed_run : (run .new crossed).isSome := by decide +kernel

theorem reads_paired :
    ((run .new crossed).get crossed_run).maps.stats.lookup ⟨8, false⟩ =
      statOf [(⟨8, 0⟩, ⟨4096, 'R', 100⟩, 1124), (⟨8, 64⟩, ⟨512, 'R', 110⟩, 1134)] ⟨8, false⟩ := by
  have hidle : ∀ cpu, ((run .new crossed).get crossed_run).cores cpu = .idle := by
    decide +kernel +revert
  have hpaired := (requests_paired crossed (Option.some_get crossed_run).symm (by decide +kernel)
    (by decide +kernel) hidle).2 ⟨8, false⟩
  rcases hpaired with h | ⟨h, _⟩
  · exact h.trans (by decide +kernel)
  · exact absurd h (by decide +kernel +revert)

end Runs

end BlockCpus

end Assayist
