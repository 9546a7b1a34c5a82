import Assayist.Lib.Runs
import Assayist.Proofs.KvmCpus
import Assayist.Proofs.OnCpu

/-! The run-queue histograms of the control-plane gadget, over every order of the steps of every
CPU's handlers. A wait is taken as a switch looks the wakeup up, and from there it is counted once:
a histogram is made of zeroes and added to, so none is lost as a first slice on a CPU can be. -/

namespace Assayist

namespace CtrlPlane

open Pairing
open KvmGadget (count)

section Waits

/-- A task is woken, or gets a turn on a CPU. -/
inductive Turn where
  | woke (pid : UInt32) (ts : UInt64)
  | ran (pid : UInt32) (now cgroup : UInt64)
  deriving DecidableEq, Repr

def Turn.pid : Turn → UInt32
  | .woke pid _ => pid
  | .ran pid _ _ => pid

def Turn.kind : Turn → UInt64 ⊕ (UInt64 × UInt64)
  | .woke _ ts => .inl ts
  | .ran _ now cgroup => .inr (now, cgroup)

/-- A task, its wakeup, and the time and the cgroup of the turn after it. -/
abbrev Wait := UInt32 × UInt64 × UInt64 × UInt64

def sample (_ : UInt32) (ts : UInt64) (y : UInt64 × UInt64) : UInt64 × List UInt64 :=
  (y.2, [y.1 - ts])

/-- The histogram of a cgroup's waits, if it has any. -/
def waitHist (cs : List Wait) (cg : UInt64) : Option Hist :=
  let own := cs.filter fun c => c.2.2.2 = cg
  if own.isEmpty then none
  else some (Vector.ofFn fun s =>
    UInt32.ofNat (own.countP fun c => KvmGadget.bucket (c.2.2.1 - c.2.1) = s))

theorem parts_eq (cg : UInt64) (cs : List Wait) :
    Stash.parts id sample cg cs =
      (cs.filter fun c => c.2.2.2 = cg).map fun c => c.2.2.1 - c.2.1 := by
  unfold Stash.parts
  rw [List.map_eq_flatMap]
  rfl

theorem waitHist_eq {cg : UInt64} {cs : List Wait} (h : Stash.parts id sample cg cs ≠ []) :
    waitHist cs cg = some ((Stash.parts id sample cg cs).foldr count
      (Vector.replicate KvmGadget.maxSlots 0)) := by
  rw [parts_eq] at h ⊢
  unfold waitHist
  dsimp only
  rw [if_neg (by simpa using h), KvmGadget.foldr_count]
  simp only [List.countP_map, Function.comp_def]

theorem waitHist_eq_none {cg : UInt64} {cs : List Wait} (h : Stash.parts id sample cg cs = []) :
    waitHist cs cg = none := by
  rw [parts_eq, List.map_eq_nil_iff] at h
  unfold waitHist
  dsimp only
  rw [h]
  rfl

end Waits

section Steps

variable {Cpu : Type}

def ownerOf (core : Core) : Option UInt32 :=
  match core.pc with
  | .latency l _ | .create l _ | .again l _ | .bump l _ | .forget l => some l.next.pid
  | _ => none

/-- The task whose wakeup a CPU is about to stamp or to look up. -/
def touched (core : Core) : Option UInt32 :=
  match core.pc with
  | .stamp p => some p.pid
  | .woken l => some l.next.pid
  | _ => none

def feeding (core : Core) : Phase UInt64 UInt64 :=
  match core.pc with
  | .latency l d => .find l.next.cgroup [d]
  | .create l d => .create l.next.cgroup [d]
  | .again l d => .again l.next.cgroup [d]
  | .bump l d => .add l.next.cgroup [d]
  | _ => .idle

/-- The gadget as waits measured through two of its maps. -/
def stashed (s : State Cpu) (log : List Turn) (begun dropped : List (UInt64 × UInt64)) :
    Stash Cpu UInt32 UInt64 UInt64 Hist UInt64 Turn where
  map := s.maps.wakeupTs
  owner := ownerOf ∘ s.cores
  feed := ⟨s.maps.runq, feeding ∘ s.cores, begun, dropped⟩
  log := log

def turnsAt (s : State Cpu) : Event Cpu → List Turn
  | .step cpu clock =>
    match (s.cores cpu).pc with
    | .stamp p => [.woke p.pid clock]
    | .woken l => [.ran l.next.pid l.now l.next.cgroup]
    | _ => []
  | _ => []

/-- There is room for a wakeup, and no CPU is about to stamp or to look up one that another CPU has
taken and not deleted yet; the lock of a run queue sees to that. -/
structure Orderly (s : State Cpu) : Prop where
  room : s.maps.wakeupTs.size < s.maps.wakeupTs.maxEntries
  apart : ∀ c c', touched (s.cores c) ≠ none → touched (s.cores c) ≠ ownerOf (s.cores c')

instance [Fintype Cpu] (s : State Cpu) : Decidable (Orderly s) :=
  decidable_of_iff (s.maps.wakeupTs.size < s.maps.wakeupTs.maxEntries ∧
      ∀ c c', touched (s.cores c) ≠ none → touched (s.cores c) ≠ ownerOf (s.cores c'))
    ⟨fun h => ⟨h.1, h.2⟩, fun h => ⟨h.room, h.apart⟩⟩

theorem Orderly.free {s : State Cpu} (h : Orderly s) {cpu : Cpu} {pid : UInt32}
    (hpid : touched (s.cores cpu) = some pid) {log : List Turn}
    {begun dropped : List (UInt64 × UInt64)} : (stashed s log begun dropped).Free pid := by
  intro c hc
  have hapart := h.apart cpu c (by rw [hpid]; exact Option.some_ne_none pid)
  exact hapart (hpid.trans hc.symm)

variable [DecidableEq Cpu]

theorem stashed_set (s : State Cpu) (cpu : Cpu) (m : Maps) (core : Core) (log : List Turn)
    (begun dropped : List (UInt64 × UInt64)) :
    stashed (s.set cpu (m, core)) log begun dropped =
      { map := m.wakeupTs
        owner := Function.update (ownerOf ∘ s.cores) cpu (ownerOf core)
        feed := ⟨m.runq, Function.update (feeding ∘ s.cores) cpu (feeding core), begun, dropped⟩
        log := log } := by
  unfold stashed State.set
  rw [Function.comp_update, Function.comp_update]

theorem stashed_same {s : State Cpu} {cpu : Cpu} {m : Maps} {core : Core} (log : List Turn)
    (begun dropped : List (UInt64 × UInt64)) (hts : m.wakeupTs = s.maps.wakeupTs)
    (hrunq : m.runq = s.maps.runq) (howner : ownerOf core = ownerOf (s.cores cpu))
    (hfeeding : feeding core = feeding (s.cores cpu)) :
    stashed (s.set cpu (m, core)) log begun dropped = stashed s log begun dropped := by
  rw [stashed_set, hts, hrunq, howner, hfeeding]
  exact congrArg₂ (fun o p => (⟨_, o, ⟨_, p, _, _⟩, _⟩ : Stash _ _ _ _ _ _ _))
    (Function.update_eq_self cpu (ownerOf ∘ s.cores))
    (Function.update_eq_self cpu (feeding ∘ s.cores))

theorem advance_stash (flt : Filter) {s : State Cpu} (hs : Orderly s) (cpu : Cpu) (clock : UInt64)
    (log : List Turn) (begun dropped : List (UInt64 × UInt64)) :
    ∃ begun' dropped', Relation.ReflGen
      (Stash.Step count (Vector.replicate KvmGadget.maxSlots 0) Turn.pid Turn.kind id sample)
      (stashed s log begun dropped)
      (stashed (s.set cpu (advance flt clock s.maps (s.cores cpu)))
        (log ++ turnsAt s (.step cpu clock)) begun' dropped') := by
  have howner {core : Core} (hcore : s.cores cpu = core) (core' : Core)
      (h : ownerOf core = ownerOf core') :
      Function.update (ownerOf ∘ s.cores) cpu (ownerOf core') = ownerOf ∘ s.cores := by
    rw [← h, ← hcore]
    exact Function.update_eq_self cpu (ownerOf ∘ s.cores)
  have hfeeding {core : Core} (hcore : s.cores cpu = core) (core' : Core)
      (h : feeding core = feeding core') :
      Function.update (feeding ∘ s.cores) cpu (feeding core') = feeding ∘ s.cores := by
    rw [← h, ← hcore]
    exact Function.update_eq_self cpu (feeding ∘ s.cores)
  have hat {core : Core} (hcore : s.cores cpu = core) :
      (feeding ∘ s.cores) cpu = feeding core :=
    congrArg feeding hcore
  have hsame {m : Maps} {core : Core} (hts : m.wakeupTs = s.maps.wakeupTs)
      (hrunq : m.runq = s.maps.runq) (ho : ownerOf core = ownerOf (s.cores cpu))
      (hf : feeding core = feeding (s.cores cpu)) :
      ∃ begun' dropped', Relation.ReflGen
        (Stash.Step count (Vector.replicate KvmGadget.maxSlots 0) Turn.pid Turn.kind id sample)
        (stashed s log begun dropped)
        (stashed (s.set cpu (m, core)) (log ++ []) begun' dropped') := by
    refine ⟨begun, dropped, ?_⟩
    rw [List.append_nil, stashed_same log begun dropped hts hrunq ho hf]
  dsimp only [turnsAt]
  cases hcore : s.cores cpu with
  | mk cur pc =>
    cases pc with
    | idle => exact hsame rfl rfl (congrArg ownerOf hcore.symm) (congrArg feeding hcore.symm)
    | add l delta | insert l delta | leave l ok =>
      exact hsame rfl rfl (by rw [hcore]; rfl) (by rw [hcore]; rfl)
    | wakeup p | record l | account l delta | permit l =>
      dsimp only [advance]
      split_ifs
      · exact hsame rfl rfl (by rw [hcore]; rfl) (by rw [hcore]; rfl)
      · exact hsame rfl rfl (by rw [hcore]; rfl) (by rw [hcore]; rfl)
    | stamp p =>
      have hfree : (stashed s log begun dropped).Free p.pid :=
        hs.free (congrArg touched hcore)
      refine ⟨begun, dropped, ?_⟩
      dsimp only [advance]
      rw [stashed_set, howner hcore ⟨cur, .idle⟩ rfl, hfeeding hcore ⟨cur, .idle⟩ rfl]
      exact .single (.opened (Turn.woke p.pid clock) clock rfl hfree (Or.inr hs.room))
    | woken l =>
      have hfree : (stashed s log begun dropped).Free l.next.pid :=
        hs.free (congrArg touched hcore)
      dsimp only [advance]
      cases hts : s.maps.wakeupTs.lookup l.next.pid with
      | none =>
        refine ⟨begun, dropped, ?_⟩
        dsimp only
        rw [stashed_set, howner hcore ⟨cur, .leave l true⟩ rfl,
          hfeeding hcore ⟨cur, .leave l true⟩ rfl]
        exact .single (.missed (Turn.ran l.next.pid l.now l.next.cgroup) (l.now, l.next.cgroup) rfl
          hfree hts)
      | some ts =>
        refine ⟨begun ++ [(l.next.cgroup, l.now - ts)], dropped, ?_⟩
        dsimp only
        rw [stashed_set]
        exact .single (.closed cpu (Turn.ran l.next.pid l.now l.next.cgroup)
          (l.now, l.next.cgroup) ts rfl hfree hts (congrArg ownerOf hcore) (hat hcore)
          (List.cons_ne_nil _ _))
    | latency l d =>
      refine ⟨begun, dropped, ?_⟩
      dsimp only [advance]
      rw [List.append_nil]
      split_ifs with hh
      · rw [stashed_set, howner hcore ⟨cur, .bump l d⟩ rfl]
        exact .single (.fed (.found cpu l.next.cgroup [d] (hat hcore) hh))
      · rw [stashed_set, howner hcore ⟨cur, .create l d⟩ rfl]
        exact .single (.fed (.missing cpu l.next.cgroup [d] (hat hcore)
          (Option.not_isSome_iff_eq_none.1 hh)))
    | create l d =>
      refine ⟨begun, dropped, ?_⟩
      dsimp only [advance]
      rw [List.append_nil, stashed_set, howner hcore ⟨cur, .again l d⟩ rfl]
      exact .single (.fed (.create cpu l.next.cgroup [d] (hat hcore)))
    | again l d =>
      dsimp only [advance]
      rw [List.append_nil]
      split_ifs with hh
      · refine ⟨begun, dropped, ?_⟩
        rw [stashed_set, howner hcore ⟨cur, .bump l d⟩ rfl]
        exact .single (.fed (.retried cpu l.next.cgroup [d] (hat hcore) hh))
      · refine ⟨begun, dropped ++ [(l.next.cgroup, d)], ?_⟩
        rw [stashed_set, howner hcore ⟨cur, .forget l⟩ rfl]
        exact .single (.fed (.drop cpu l.next.cgroup [d] (hat hcore)
          (Option.not_isSome_iff_eq_none.1 hh)))
    | bump l d =>
      refine ⟨begun, dropped, ?_⟩
      dsimp only [advance]
      rw [List.append_nil, stashed_set, howner hcore ⟨cur, .forget l⟩ rfl]
      exact .single (.fed (.add cpu l.next.cgroup d [] (hat hcore)))
    | forget l =>
      refine ⟨begun, dropped, ?_⟩
      dsimp only [advance]
      rw [List.append_nil, stashed_set, hfeeding hcore ⟨cur, .leave l true⟩ rfl]
      exact .single (.forgot cpu l.next.pid (congrArg ownerOf hcore))

end Steps

section Runs

variable {Cpu : Type} [DecidableEq Cpu] {flt : Filter} {s s' : State Cpu} {e : Event Cpu}
  {evs : List (Event Cpu)}

def turnsOf (flt : Filter) (s : State Cpu) (evs : List (Event Cpu)) : List Turn :=
  Runs.outputs (step flt) turnsAt s evs

theorem step_stash (h : step flt s e = some s') (hs : Orderly s) (log : List Turn)
    (begun dropped : List (UInt64 × UInt64)) :
    ∃ begun' dropped', Relation.ReflGen
      (Stash.Step count (Vector.replicate KvmGadget.maxSlots 0) Turn.pid Turn.kind id sample)
      (stashed s log begun dropped) (stashed s' (log ++ turnsAt s e) begun' dropped') := by
  have henter {cpu : Cpu} {pc : Pc} (hidle : (s.cores cpu).pc = .idle)
      (ho : ownerOf ⟨(s.cores cpu).cur, pc⟩ = none)
      (hf : feeding ⟨(s.cores cpu).cur, pc⟩ = .idle) :
      stashed (s.set cpu (s.maps, { s.cores cpu with pc })) log begun dropped =
        stashed s log begun dropped := by
    apply stashed_same log begun dropped rfl rfl
    · rw [ho, ownerOf, hidle]
    · rw [hf, feeding, hidle]
  obtain ⟨cpu, p, rfl, hidle, rfl⟩ | ⟨cpu, now, next, rfl, hidle, rfl⟩ | ⟨cpu, clock, rfl, rfl⟩ :=
    step_cases h
  · have hnil : log ++ turnsAt s (.wakeup cpu p) = log := List.append_nil log
    refine ⟨begun, dropped, ?_⟩
    rw [hnil, henter hidle rfl rfl]
  · have hnil : log ++ turnsAt s (.switch cpu now next) = log := List.append_nil log
    refine ⟨begun, dropped, ?_⟩
    rw [hnil, henter hidle rfl rfl]
  · exact advance_stash flt hs cpu clock log begun dropped

theorem run_stash (h : run flt .new evs = some s)
    (hs : ∀ t ∈ Runs.states (step flt) .new evs, Orderly t) :
    ∃ begun dropped, Relation.ReflTransGen
      (Stash.Step count (Vector.replicate KvmGadget.maxSlots 0) Turn.pid Turn.kind id sample)
      (stashed .new [] [] []) (stashed s (turnsOf flt .new evs) begun dropped) := by
  obtain ⟨a, hsteps, begun, dropped, rfl⟩ := Runs.simulates
    (fun (s : State Cpu) log a => ∃ begun dropped, a = stashed s log begun dropped)
    (fun s e s' log a hs _ hstep hrel => by
      obtain ⟨begun, dropped, rfl⟩ := hrel
      obtain ⟨begun', dropped', hsteps⟩ := step_stash hstep hs log begun dropped
      exact ⟨_, hsteps.to_reflTransGen, begun', dropped', rfl⟩)
    h hs [] _ ⟨[], [], rfl⟩
  exact ⟨begun, dropped, hsteps⟩

/-- On any number of CPUs and in any order of their steps, a cgroup's histogram counts each wait of
its tasks once, from the wakeup to the turn, or the map had no room for the histogram and it counts
none. -/
theorem waits_counted [Fintype Cpu] (h : run flt .new evs = some s)
    (hs : ∀ t ∈ Runs.states (step flt) .new evs, Orderly t) (hidle : ∀ cpu, (s.cores cpu).pc = .idle)
    (cg : UInt64) :
    s.maps.runq.lookup cg = waitHist (completed Turn.pid Turn.kind (turnsOf flt .new evs)) cg ∨
      s.maps.runq.lookup cg = none ∧ s.maps.runq.size = 4096 := by
  obtain ⟨begun, dropped, hsteps⟩ := run_stash h hs
  have hstart : Stash.Kept count (Vector.replicate KvmGadget.maxSlots 0) Turn.pid Turn.kind id
      sample (stashed (.new : State Cpu) [] [] []) :=
    { pending := fun pid _ => BoundedMap.lookup_empty 262144 pid
      owned := fun c pid h => by cases h
      begun := rfl
      fed := Accrual.accounted_start (BoundedMap.lookup_empty 4096) fun _ => rfl }
  have hmax : s.maps.runq.maxEntries = 4096 := Stash.maxEntries_run hsteps
  have hfed : ∀ cpu, feeding (s.cores cpu) = .idle := by
    intro cpu
    rw [feeding, hidle cpu]
  rcases (Stash.kept_run hsteps hstart).settled hfed cg with
    ⟨hne, hsome⟩ | ⟨hnone, hnil | hfull⟩
  · exact Or.inl (hsome.trans (waitHist_eq hne).symm)
  · exact Or.inl (hnone.trans (waitHist_eq_none hnil).symm)
  · exact Or.inr ⟨hnone, hfull.trans hmax⟩

def byTurns (n : ℕ) : List (Event Bool) :=
  (List.replicate n [.step true 0, .step false 0]).flatten

/-- Two tasks of one cgroup are woken, and get turns on two CPUs that both find no histogram. -/
def abreast : List (Event Bool) :=
  [.wakeup true ⟨10, 7⟩, .wakeup false ⟨11, 7⟩, .step true 0, .step false 0, .step true 100,
    .step false 110, .switch true 164 ⟨10, 7⟩, .switch false 174 ⟨11, 7⟩] ++ byTurns 9

theorem abreast_run : (run ⟨false, []⟩ .new abreast).isSome := by decide +kernel

theorem abreast_counted :
    ((run ⟨false, []⟩ .new abreast).get abreast_run).maps.runq.lookup 7 =
      waitHist [(10, 100, 164, 7), (11, 110, 174, 7)] 7 := by
  have hidle : ∀ cpu, (((run ⟨false, []⟩ .new abreast).get abreast_run).cores cpu).pc = .idle := by
    decide +kernel +revert
  have horderly : ∀ t ∈ Runs.states (step ⟨false, []⟩) .new abreast, Orderly t := by
    decide +kernel
  rcases waits_counted (Option.some_get abreast_run).symm horderly hidle 7 with h | ⟨h, _⟩
  · exact h.trans (by decide +kernel)
  · exact absurd h (by decide +kernel +revert)

end Runs

end CtrlPlane

end Assayist
