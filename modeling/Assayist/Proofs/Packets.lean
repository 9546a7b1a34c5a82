import Assayist.Lib.Accrual
import Assayist.Spec.Net

/-! What the tap gadget counts, over every order of the steps of every CPU. An interface has an entry
that counts each of its packets once, or it has none, and then none of its packets is counted and
the map is full of others. -/

namespace Assayist

namespace NetGadget

section Counts

def Event.packet? {Cpu : Type} : Event Cpu → Option Packet
  | .packet _ p => some p
  | .step _ => none

def packetsAt {Cpu : Type} (i : UInt32) (evs : List (Event Cpu)) : List Packet :=
  (evs.filterMap Event.packet?).filter (·.ifindex = i)

/-- What should be counted of the packets of one direction. -/
def dirStatOf (ps : List Packet) (dir : Dir) : DirStat where
  packets := .ofNat (ps.countP (·.dir = dir))
  bytes := .ofNat ((ps.filter (·.dir = dir)).map (·.len.toNat)).sum
  size := .ofFn fun b => .ofNat (ps.countP fun p => p.dir = dir ∧ sizeBucket p.len = b)

def statOf (ps : List Packet) : IfStat := ⟨dirStatOf ps .rx, dirStatOf ps .tx⟩

def changesOf (p : Packet) : List Change :=
  [.packets p.dir, .bytes p.dir p.len, .size p.dir (sizeBucket p.len)]

theorem Sizes.getElem_add (size : Sizes) (b : Fin sizeBuckets) {j : ℕ} (hj : j < sizeBuckets) :
    (size.add b)[j] = size[j] + if b.val = j then 1 else 0 := by
  rw [Sizes.add, Vector.getElem_set]
  split_ifs with h
  · subst h
    rfl
  · rw [UInt32.add_zero]

theorem Sizes.add_comm (size : Sizes) (a b : Fin sizeBuckets) :
    (size.add a).add b = (size.add b).add a := by
  apply Vector.ext
  intro j hj
  rw [getElem_add, getElem_add, getElem_add, getElem_add, UInt32.add_assoc, UInt32.add_assoc,
    UInt32.add_comm (if a.val = j then 1 else 0)]

/-- The additions to an entry may come in any order. -/
instance : LeftCommutative IfStat.change where
  left_comm c c' s := by
    cases c with
    | packets dir =>
      cases c' with
      | packets dir' => cases dir <;> cases dir' <;> rfl
      | bytes dir' len' => cases dir <;> cases dir' <;> rfl
      | size dir' b' => cases dir <;> cases dir' <;> rfl
    | bytes dir len =>
      have hcomm (n len' : UInt64) : n + len' + len = n + len + len' := by
        rw [UInt64.add_assoc, UInt64.add_comm len', UInt64.add_assoc]
      cases c' with
      | packets dir' => cases dir <;> cases dir' <;> rfl
      | bytes dir' len' =>
        cases dir <;> cases dir' <;> simp [IfStat.change, IfStat.modify, hcomm]
      | size dir' b' => cases dir <;> cases dir' <;> rfl
    | size dir b =>
      cases c' with
      | packets dir' => cases dir <;> cases dir' <;> rfl
      | bytes dir' len' => cases dir <;> cases dir' <;> rfl
      | size dir' b' =>
        cases dir <;> cases dir' <;> simp [IfStat.change, IfStat.modify, Sizes.add_comm _ b' b]

theorem dirStatOf_cons (p : Packet) (ps : List Packet) (dir : Dir) :
    dirStatOf (p :: ps) dir =
      if p.dir = dir then
        { packets := (dirStatOf ps dir).packets + 1
          bytes := (dirStatOf ps dir).bytes + p.len
          size := (dirStatOf ps dir).size.add (sizeBucket p.len) }
      else dirStatOf ps dir := by
  unfold dirStatOf
  by_cases h : p.dir = dir
  · have hbytes : UInt64.ofNat (p.len.toNat + ((ps.filter (·.dir = dir)).map (·.len.toNat)).sum) =
        UInt64.ofNat ((ps.filter (·.dir = dir)).map (·.len.toNat)).sum + p.len := by
      rw [UInt64.ofNat_add, UInt64.ofNat_toNat, UInt64.add_comm]
    have hsize : (Vector.ofFn fun b : Fin sizeBuckets => UInt32.ofNat
          ((p :: ps).countP fun p => p.dir = dir ∧ sizeBucket p.len = b)) =
        Sizes.add (Vector.ofFn fun b : Fin sizeBuckets => UInt32.ofNat
          (ps.countP fun p => p.dir = dir ∧ sizeBucket p.len = b)) (sizeBucket p.len) := by
      apply Vector.ext
      intro j hj
      rw [Sizes.getElem_add, Vector.getElem_ofFn, Vector.getElem_ofFn, List.countP_cons,
        UInt32.ofNat_add]
      by_cases hb : (sizeBucket p.len).val = j
      · subst hb
        rw [if_pos (by simp [h]), if_pos rfl]
        rfl
      · have hne : sizeBucket p.len ≠ ⟨j, hj⟩ := fun heq => hb (congrArg Fin.val heq)
        rw [if_neg (by simp [hne]), if_neg hb]
        rfl
    rw [if_pos h, List.countP_cons_of_pos (by simpa using h),
      List.filter_cons_of_pos (by simpa using h), List.map_cons, List.sum_cons, hbytes, hsize,
      UInt64.ofNat_add]
    rfl
  · rw [if_neg h, List.countP_cons_of_neg (by simpa using h),
      List.filter_cons_of_neg (by simpa using h)]
    congr 2
    funext b
    rw [List.countP_cons_of_neg (by simp [h])]

theorem foldr_changes (ps : List Packet) :
    (ps.flatMap changesOf).foldr IfStat.change IfStat.zero = statOf ps := by
  induction ps with
  | nil => decide
  | cons p ps ih =>
    rw [List.flatMap_cons, List.foldr_append, ih]
    unfold statOf
    rw [dirStatOf_cons, dirStatOf_cons]
    obtain ⟨dir, i, len⟩ := p
    cases dir with
    | rx => simp [changesOf, IfStat.change, IfStat.modify]
    | tx => simp [changesOf, IfStat.change, IfStat.modify]

end Counts

section Runs

open Accrual

variable {Cpu : Type}

def phaseOf : Pc → Phase UInt32 Change
  | .idle => .idle
  | .find p => .find p.ifindex (changesOf p)
  | .create p => .create p.ifindex (changesOf p)
  | .again p => .again p.ifindex (changesOf p)
  | .packets p => .add p.ifindex (changesOf p)
  | .bytes p => .add p.ifindex [.bytes p.dir p.len, .size p.dir (sizeBucket p.len)]
  | .size p => .add p.ifindex [.size p.dir (sizeBucket p.len)]

def accrual (s : State Cpu) (begun dropped : List (UInt32 × Change)) :
    Accrual Cpu UInt32 IfStat Change :=
  ⟨s.stats, phaseOf ∘ s.cores, begun, dropped⟩

def begunOf : Event Cpu → List (UInt32 × Change)
  | .packet _ p => (changesOf p).map (p.ifindex, ·)
  | .step _ => []

theorem amounts_begunOf (i : UInt32) (evs : List (Event Cpu)) :
    amounts i (evs.flatMap begunOf) = ((packetsAt i evs).flatMap changesOf : Multiset Change) := by
  induction evs with
  | nil => rfl
  | cons e evs ih =>
    rw [List.flatMap_cons, amounts_append, ih]
    cases e with
    | packet cpu p =>
      unfold packetsAt begunOf
      rw [amounts_map, List.filterMap_cons_some (show Event.packet? (.packet cpu p) = some p from rfl)]
      by_cases h : p.ifindex = i
      · rw [if_pos h.symm, List.filter_cons_of_pos (by simpa using h), List.flatMap_cons,
          ← Multiset.coe_add]
      · rw [if_neg (Ne.symm h), List.filter_cons_of_neg (by simpa using h), zero_add]
    | step cpu => exact zero_add _

variable [DecidableEq Cpu] {s s' : State Cpu}

theorem step_accrual {e : Event Cpu} (h : step s e = some s')
    (begun dropped : List (UInt32 × Change)) :
    ∃ dropped', Relation.ReflTransGen (Step IfStat.change IfStat.zero)
      (accrual s begun dropped) (accrual s' (begun ++ begunOf e) dropped') := by
  cases e with
  | packet cpu p =>
    dsimp only [step] at h
    split_ifs at h with hidle
    cases h
    refine ⟨dropped, .single ?_⟩
    unfold accrual
    rw [Function.comp_update]
    exact .start cpu p.ifindex (changesOf p) (congrArg phaseOf hidle) (by simp [changesOf])
  | step cpu =>
    cases h
    unfold accrual
    rw [Function.comp_update, begunOf, List.append_nil]
    have hat {pc : Pc} (hpc : s.cores cpu = pc) : (phaseOf ∘ s.cores) cpu = phaseOf pc :=
      congrArg phaseOf hpc
    cases hpc : s.cores cpu with
    | idle =>
      refine ⟨dropped, ?_⟩
      dsimp only [advance]
      rw [← hat hpc, Function.update_eq_self]
    | find p =>
      refine ⟨dropped, .single ?_⟩
      dsimp only [advance]
      split_ifs with hk
      · exact .move (.found cpu p.ifindex (changesOf p) (hat hpc) hk)
      · exact .move (.missing cpu p.ifindex (changesOf p) (hat hpc)
          (Option.not_isSome_iff_eq_none.1 hk))
    | create p => exact ⟨dropped, .single (.move (.create cpu p.ifindex (changesOf p) (hat hpc)))⟩
    | again p =>
      dsimp only [advance]
      split_ifs with hk
      · exact ⟨dropped, .single (.move (.retried cpu p.ifindex (changesOf p) (hat hpc) hk))⟩
      · exact ⟨_, .single (.move (.drop cpu p.ifindex (changesOf p) (hat hpc)
          (Option.not_isSome_iff_eq_none.1 hk)))⟩
    | packets p =>
      exact ⟨dropped, .single (.move (.add cpu p.ifindex (Change.packets p.dir)
        [Change.bytes p.dir p.len, Change.size p.dir (sizeBucket p.len)] (hat hpc)))⟩
    | bytes p =>
      exact ⟨dropped, .single (.move (.add cpu p.ifindex (Change.bytes p.dir p.len)
        [Change.size p.dir (sizeBucket p.len)] (hat hpc)))⟩
    | size p =>
      exact ⟨dropped, .single (.move (.add cpu p.ifindex (Change.size p.dir (sizeBucket p.len)) []
        (hat hpc)))⟩

theorem run_accrual {evs : List (Event Cpu)} (h : run s evs = some s')
    (begun dropped : List (UInt32 × Change)) :
    ∃ dropped', Relation.ReflTransGen (Step IfStat.change IfStat.zero)
      (accrual s begun dropped) (accrual s' (begun ++ evs.flatMap begunOf) dropped') := by
  induction evs generalizing s begun dropped with
  | nil =>
    cases h
    exact ⟨dropped, by rw [List.flatMap_nil, List.append_nil]⟩
  | cons e evs ih =>
    obtain ⟨t, hstep, hrest⟩ := Option.bind_eq_some_iff.1 h
    obtain ⟨dropped', hfirst⟩ := step_accrual hstep begun dropped
    obtain ⟨dropped'', hthen⟩ := ih hrest (begun ++ begunOf e) dropped'
    refine ⟨dropped'', hfirst.trans ?_⟩
    rwa [List.flatMap_cons, ← List.append_assoc]

variable [Fintype Cpu]

/-- In every order of the steps of all CPUs, when no CPU is in a program any more, an interface
with a packet has an entry that counts every packet of it once in each of its fields, or it has no
entry and the map is full. -/
theorem packets_counted (evs : List (Event Cpu)) (hrun : run .new evs = some s')
    (hidle : ∀ cpu, s'.cores cpu = .idle) (i : UInt32) :
    (packetsAt i evs ≠ [] ∧ s'.stats.lookup i = some (statOf (packetsAt i evs))) ∨
      s'.stats.lookup i = none ∧ (packetsAt i evs = [] ∨ s'.stats.size = 16384) := by
  obtain ⟨dropped, hsteps⟩ := run_accrual hrun [] []
  have hstart : Accounted IfStat.change IfStat.zero (accrual (.new : State Cpu) [] []) :=
    accounted_start (BoundedMap.lookup_empty 16384) fun _ => rfl
  have hmax : s'.stats.maxEntries = 16384 := maxEntries_run hsteps
  have hbegun : amounts i ([] ++ evs.flatMap begunOf) ≠ 0 ↔ packetsAt i evs ≠ [] := by
    rw [List.nil_append, amounts_begunOf]
    cases packetsAt i evs with
    | nil => simp
    | cons p ps => simp [changesOf]
  rcases (accounted_run hsteps hstart).settled (fun cpu => congrArg phaseOf (hidle cpu)) i with
    ⟨hne, _, hsome⟩ | ⟨hnone, _, hfull⟩
  · refine Or.inl ⟨hbegun.1 hne, hsome.trans ?_⟩
    change some ((amounts i ([] ++ evs.flatMap begunOf)).foldr IfStat.change IfStat.zero) = _
    rw [List.nil_append, amounts_begunOf, Multiset.coe_foldr, foldr_changes]
  · refine Or.inr ⟨hnone, ?_⟩
    by_cases hps : packetsAt i evs = []
    · exact Or.inl hps
    · exact Or.inr ((hfull (hbegun.2 hps)).trans hmax)

/-- Two CPUs that both find no entry for the first packets of an interface. -/
def racing (len len' : UInt64) : List (Event Bool) :=
  [.packet true ⟨.rx, 3, len⟩, .packet false ⟨.rx, 3, len'⟩, .step true, .step false, .step false,
    .step true, .step false, .step true, .step true, .step false, .step false, .step true,
    .step false, .step true]

def races : List (Event Bool) := racing 60 1500

theorem races_run : (run .new races).isSome := by decide +kernel

theorem races_counted :
    ((run .new races).get races_run).stats.lookup 3 =
      some ⟨⟨2, 1560, #v[1, 0, 0, 0, 0, 1, 0, 0]⟩, .zero⟩ := by
  have hidle : ∀ cpu, ((run .new races).get races_run).cores cpu = .idle := by
    decide +kernel +revert
  rcases packets_counted races (Option.some_get races_run).symm hidle 3 with ⟨_, h⟩ | ⟨h, _⟩
  · exact h.trans (by decide +kernel)
  · exact absurd h (by decide +kernel +revert)

end Runs

end NetGadget

end Assayist
