import Assayist.Proofs.Owner
import Assayist.Proofs.Phases

/-! What becomes of the handles a run registers. Every exit but one removes each of them,
before it tears the target down, and the owner's map holds none of them afterwards; a run
that cannot read its spans leaves with all of them in the map. -/

namespace Assayist

open Effect

section Log

def sentLine : Event → Option String
  | .command line _ => some line
  | _ => none

def sentLines (log : List Event) : List String := log.filterMap sentLine

def sends (line : String) (e : Event) : Bool := sentLine e == some line

def isTeardownCall : Event → Bool
  | .target .teardown _ => true
  | .inner _ .teardown _ => true
  | _ => false

def adds (handle : ℕ) (e : Event) : Prop :=
  ∃ ifindex netnsInum, e = .command (addLine ifindex handle netnsInum) true

/-- Every accepted `add` is followed by exactly one `remove` of its handle, which is sent
before any teardown that follows. -/
def Released (log : List Event) : Prop :=
  ∀ handle before e after, log = before ++ e :: after → adds handle e →
    after.countP (sends (removeLine handle)) = 1 ∧
      ∀ mid t rest, after = mid ++ t :: rest → isTeardownCall t = true →
        mid.countP (sends (removeLine handle)) = 1

/-- `k` handles from `n` on were registered, and nothing was removed or torn down. -/
structure Registered (n k : ℕ) (log : List Event) : Prop where
  bounds : ∀ h, ∀ e ∈ log, adds h e → n ≤ h ∧ h < n + k
  all : ∀ h, n ≤ h → h < n + k → ∃ e ∈ log, adds h e
  kept : ∀ h, log.countP (sends (removeLine h)) = 0
  up : ∀ e ∈ log, isTeardownCall e = false

/-- The removal of the first `j` handles from `n` on, and nothing else. -/
structure Removals (n j : ℕ) (evs : List Event) : Prop where
  count : ∀ h, evs.countP (sends (removeLine h)) = if n ≤ h ∧ h < n + j then 1 else 0
  only : ∀ e ∈ evs, ∃ h ok, e = .command (removeLine h) ok

theorem sends_command (line l : String) (ok : Bool) :
    sends line (.command l ok) = decide (l = line) := by
  rw [sends, sentLine, Option.some_beq_some]
  exact beq_eq_decide l line

theorem sends_of_none {line : String} {e : Event} (h : sentLine e = none) :
    sends line e = false := by
  rw [sends, h]
  rfl

theorem Registered.nil (n : ℕ) : Registered n 0 [] where
  bounds _ _ he := absurd he List.not_mem_nil
  all h hn hk := absurd hk (by omega)
  kept _ := rfl
  up _ he := absurd he List.not_mem_nil

variable {n k j : ℕ} {log evs : List Event}

theorem Registered.concat (h : Registered n k log) {e : Event} (hadd : ∀ handle, ¬ adds handle e)
    (hremove : ∀ handle, sends (removeLine handle) e = false) (hup : isTeardownCall e = false) :
    Registered n k (log ++ [e]) where
  bounds handle d hd hadds := by
    rcases List.mem_append.1 hd with hd | hd
    · exact h.bounds handle d hd hadds
    · rw [List.mem_singleton.1 hd] at hadds
      exact absurd hadds (hadd handle)
  all handle hn hk := by
    obtain ⟨d, hd, hadds⟩ := h.all handle hn hk
    exact ⟨d, List.mem_append_left _ hd, hadds⟩
  kept handle := by simp [List.countP_append, h.kept handle, hremove handle]
  up d hd := by
    rcases List.mem_append.1 hd with hd | hd
    · exact h.up d hd
    · rw [List.mem_singleton.1 hd]
      exact hup

theorem Registered.quiet (h : Registered n k log) {e : Event} (hsent : sentLine e = none)
    (hup : isTeardownCall e = false) : Registered n k (log ++ [e]) := by
  refine h.concat (fun handle hadds => ?_) (fun handle => sends_of_none hsent) hup
  obtain ⟨i, m, rfl⟩ := hadds
  cases hsent

theorem Registered.add (h : Registered n k log) (i m : UInt32) :
    Registered n (k + 1) (log ++ [.command (addLine i (n + k) m) true]) where
  bounds handle d hd hadds := by
    rcases List.mem_append.1 hd with hd | hd
    · have hle := h.bounds handle d hd hadds
      omega
    · obtain ⟨j, l, rfl⟩ := hadds
      have hline := (Event.command.inj (List.mem_singleton.1 hd)).1
      have hhandle := Owner.addLine_handle hline
      omega
  all handle hn hk := by
    by_cases heq : handle = n + k
    · exact ⟨_, List.mem_append_right _ (List.mem_singleton_self _), i, m, by rw [heq]⟩
    · obtain ⟨d, hd, hadds⟩ := h.all handle hn (by omega)
      exact ⟨d, List.mem_append_left _ hd, hadds⟩
  kept handle := by
    have hne : addLine i (n + k) m ≠ removeLine handle := Owner.ne_of_verb (by simp)
    simp [List.countP_append, h.kept handle, sends_command, hne]
  up d hd := by
    rcases List.mem_append.1 hd with hd | hd
    · exact h.up d hd
    · rw [List.mem_singleton.1 hd]
      rfl

theorem Registered.refused (h : Registered n k log) (i m : UInt32) (handle : ℕ) :
    Registered n k (log ++ [.command (addLine i handle m) false]) := by
  refine h.concat (fun _ hadds => ?_) (fun g => ?_) rfl
  · obtain ⟨_, _, heq⟩ := hadds
    cases (Event.command.inj heq).2
  · have hne : addLine i handle m ≠ removeLine g := Owner.ne_of_verb (by simp)
    simp [sends_command, hne]

theorem Registered.state (h : Registered n k log) (handle : ℕ) (ok : Bool) :
    Registered n k (log ++ [.command (stateLine handle lifecycleRunning) ok]) := by
  refine h.concat (fun g hadds => ?_) (fun g => ?_) rfl
  · obtain ⟨i, m, heq⟩ := hadds
    exact Owner.ne_of_verb (by simp) (Event.command.inj heq).1
  · have hne : stateLine handle lifecycleRunning ≠ removeLine g :=
      Owner.ne_of_verb (by simp)
    simp [sends_command, hne]

theorem Removals.nil (n : ℕ) : Removals n 0 [] where
  count h := by
    rw [if_neg (by omega)]
    rfl
  only _ he := absurd he List.not_mem_nil

theorem Removals.concat (h : Removals n j evs) (ok : Bool) :
    Removals n (j + 1) (evs ++ [.command (removeLine (n + j)) ok]) where
  count handle := by
    rw [List.countP_append, h.count, List.countP_singleton, sends_command]
    by_cases heq : n + j = handle
    · subst heq
      rw [if_neg (by omega), if_pos (by simp), if_pos (by omega)]
    · have hne : removeLine (n + j) ≠ removeLine handle := fun hl => heq (Owner.removeLine_inj hl)
      simp only [hne, decide_false, Bool.false_eq_true, if_false, Nat.add_zero]
      exact if_congr (by omega) rfl rfl
  only e he := by
    rcases List.mem_append.1 he with he | he
    · exact h.only e he
    · exact ⟨_, _, List.mem_singleton.1 he⟩

/-- An element that is not in the second part of a list is in the first. -/
theorem cut_left {α : Type} {xs ys a b : List α} {e : α} (h : xs ++ ys = a ++ e :: b)
    (he : e ∉ ys) : ∃ m, xs = a ++ e :: m ∧ b = m ++ ys := by
  rcases List.append_eq_append_iff.1 h with ⟨m, rfl, hy⟩ | ⟨m, rfl, hb⟩
  · exact absurd (hy ▸ List.mem_append_right m List.mem_cons_self) he
  · cases m with
    | nil => exact absurd ((List.nil_append _ ▸ hb) ▸ List.mem_cons_self) he
    | cons c m =>
      obtain ⟨rfl, rfl⟩ := List.cons.inj hb
      exact ⟨m, rfl, rfl⟩

theorem cut_right {α : Type} {xs ys a b : List α} {e : α} (h : xs ++ ys = a ++ e :: b)
    (he : e ∉ xs) : ∃ m, ys = m ++ e :: b ∧ a = xs ++ m := by
  rcases List.append_eq_append_iff.1 h with ⟨m, rfl, hy⟩ | ⟨m, rfl, hb⟩
  · exact ⟨m, hy, rfl⟩
  · cases m with
    | nil => exact ⟨[], by simpa using hb.symm, by simp⟩
    | cons c m =>
      obtain ⟨rfl, -⟩ := List.cons.inj hb
      exact absurd (List.mem_append_right a List.mem_cons_self) he

/-- Registrations, then the removal of each, then no more commands. -/
theorem released_of_removals {opened rest : List Event} (hopened : Registered n k opened)
    (hevs : Removals n k evs) (hrest : ∀ e ∈ rest, sentLine e = none) :
    Released (opened ++ evs ++ rest) := by
  have hrest0 (line : String) {part : List Event} (hpart : ∀ e ∈ part, e ∈ rest) :
      part.countP (sends line) = 0 := by
    rw [List.countP_eq_zero]
    intro e he
    rw [sends_of_none (hrest e (hpart e he))]
    exact Bool.false_ne_true
  intro handle before e after hlog hadds
  have hopen : e ∉ evs ++ rest := by
    obtain ⟨i, m, rfl⟩ := hadds
    intro hmem
    rcases List.mem_append.1 hmem with hmem | hmem
    · obtain ⟨g, ok, heq⟩ := hevs.only _ hmem
      exact Owner.ne_of_verb (by simp) (Event.command.inj heq).1
    · cases hrest _ hmem
  rw [List.append_assoc] at hlog
  obtain ⟨mid₀, hsplit, rfl⟩ := cut_left hlog hopen
  have hbounds := hopened.bounds handle e (by rw [hsplit]; simp) hadds
  have hmid₀ : mid₀.countP (sends (removeLine handle)) = 0 := by
    have hkept := hopened.kept handle
    rw [hsplit, List.countP_append, List.countP_cons] at hkept
    omega
  have honce : (mid₀ ++ evs).countP (sends (removeLine handle)) = 1 := by
    rw [List.countP_append, hmid₀, hevs.count, if_pos hbounds]
  refine ⟨?_, fun mid t rest' hafter ht => ?_⟩
  · rw [← List.append_assoc, List.countP_append, honce, hrest0 _ fun _ he => he]
  · have hdown : t ∉ mid₀ ++ evs := by
      intro hmem
      rcases List.mem_append.1 hmem with hmem | hmem
      · rw [hopened.up t (by rw [hsplit]; simp [hmem])] at ht
        cases ht
      · obtain ⟨g, ok, rfl⟩ := hevs.only t hmem
        cases ht
    rw [← List.append_assoc] at hafter
    obtain ⟨m, rfl, rfl⟩ := cut_right hafter hdown
    rw [List.countP_append, honce, hrest0 _ fun _ he => List.mem_append_left _ he]

/-- Registrations that are never removed. -/
theorem not_released (h : Registered n k log) (hk : 0 < k) : ¬ Released log := by
  intro hreleased
  obtain ⟨e, he, hadds⟩ := h.all n le_rfl (by omega)
  obtain ⟨before, after, rfl⟩ := List.append_of_mem he
  have hone := (hreleased n before e after rfl hadds).1
  have hkept := h.kept n
  rw [List.countP_append, List.countP_cons] at hkept
  omega

end Log

section Drive

variable {F : Type} (kernel : Owner.Kernel) (owner : Owner.State)

/-- The handles the owner's map holds once it has served a log's commands. -/
def heldAfter (log : List Event) : List UInt64 :=
  (Owner.serve kernel owner (sentLines log)).handles

theorem heldAfter_command (log : List Event) (line : String) (ok : Bool) :
    Owner.Changes line (heldAfter kernel owner log)
      (heldAfter kernel owner (log ++ [.command line ok])) := by
  have hlines : sentLines (log ++ [.command line ok]) = sentLines log ++ [line] := by
    simp [sentLines, sentLine]
  rw [heldAfter, heldAfter, hlines, Owner.serve_concat]
  exact Owner.serveLine_changes _ _

theorem heldAfter_quiet (log : List Event) {e : Event} (h : sentLine e = none) :
    heldAfter kernel owner (log ++ [e]) = heldAfter kernel owner log := by
  have hlines : sentLines (log ++ [e]) = sentLines log := by simp [sentLines, h]
  rw [heldAfter, heldAfter, hlines]

def opens (next : ℕ) (s : RunState F) : Prop :=
  ∃ session, s.session = some session ∧ session.table.next = next

/-- `k` handles from `n` on are registered, `t` were tried. -/
def live (n k t : ℕ) (s : RunState F) : Prop :=
  Registered n k s.log ∧ opens (n + t) s ∧ Owner.Tracked n (n + t) (heldAfter kernel owner s.log)

/-- Of `k` handles registered `j` are removed, and the owner holds none of those. -/
def closing (n k j : ℕ) (s : RunState F) : Prop :=
  (∃ opened evs, s.log = opened ++ evs ∧ Registered n k opened ∧ Removals n j evs) ∧
    s.session ≠ none ∧ (∃ next, Owner.Tracked n next (heldAfter kernel owner s.log)) ∧
    ∀ h ∈ heldAfter kernel owner s.log, n ≤ h.toNat → n + j ≤ h.toNat

def closed (n : ℕ) (s : RunState F) : Prop :=
  ∃ k opened evs rest, s.log = opened ++ evs ++ rest ∧ Registered n k opened ∧
    Removals n k evs ∧ (∀ e ∈ rest, sentLine e = none) ∧
    ∀ h ∈ heldAfter kernel owner s.log, n ≤ h.toNat → n + k ≤ h.toNat

structure Quiet (e : Event) : Prop where
  sent : sentLine e = none
  up : isTeardownCall e = false

variable {kernel owner} {env : RunEnv F} {n k t j : ℕ}

theorem frame_live : Frame (F := F) Quiet (live kernel owner n k t) where
  log s e he hs := by
    obtain ⟨hreg, hopen, htracked⟩ := hs
    refine ⟨hreg.quiet he.sent he.up, hopen, ?_⟩
    rwa [heldAfter_quiet _ _ _ he.sent]
  client s session client hsession hs := by
    obtain ⟨hreg, ⟨session', hsome, hnext⟩, htracked⟩ := hs
    rw [hsession, Option.some.injEq] at hsome
    exact ⟨hreg, ⟨_, rfl, hsome ▸ hnext⟩, htracked⟩
  span _ _ hs := hs

theorem quiet_inner {i : ℕ} {m : Method} {ok : Bool} (hm : m ≠ .teardown) :
    Quiet (.inner i m ok) := by
  refine ⟨rfl, ?_⟩
  cases m <;> first | rfl | exact absurd rfl hm

theorem callTarget_live {m : Method} (hm : m ≠ .teardown) :
    Keeps (live kernel owner n k t) (callTarget env m) := by
  have hquiet (ok : Bool) : Quiet (.target m ok) := by
    refine ⟨rfl, ?_⟩
    cases m <;> first | rfl | exact absurd rfl hm
  refine (frame_live.methodBody env hm fun _ _ _ h => quiet_inner h).attempt_then fun r => ?_
  exact (frame_live.emit (hquiet _)).bind fun _ => .give _

theorem register_live (vmId : String) (na : NetAttribution) :
    Triple (live kernel owner n k k) (register env vmId na)
      (fun handle s => handle = n + k ∧ live kernel owner n (k + 1) (k + 1) s)
      fun _ => live kernel owner n k (k + 1) := by
  have hreserve : Triple (live kernel owner n k k) (reserveHandle : Driver F ℕ)
      (fun handle s => handle = n + k ∧ Registered n k s.log ∧ opens (n + (k + 1)) s ∧
        Owner.Tracked n (n + k) (heldAfter kernel owner s.log))
      fun _ => live kernel owner n k (k + 1) := by
    intro s hs
    obtain ⟨hreg, ⟨session, hsession, hnext⟩, htracked⟩ := hs
    refine (wp_bind _ _ _ _ _).2 ?_
    rw [wp_look, hsession]
    exact ⟨hnext, hreg, ⟨_, rfl, congrArg (· + 1) hnext⟩, htracked⟩
  refine hreserve.bind fun handle => .assume fun hhandle => ?_
  subst hhandle
  refine .bind (Q := fun _ => live kernel owner n (k + 1) (k + 1))
    (sendCommand_triple (Q := fun r s => match r with
      | .ok _ => live kernel owner n (k + 1) (k + 1) s
      | .error _ => live kernel owner n k (k + 1) s) (fun s hs => ?_) fun s session r client hs
        hsession _ => ?_) fun _ => ?_
  · obtain ⟨-, ⟨session, hsession, -⟩, -⟩ := hs
    rw [hsession]
    exact Option.some_ne_none session
  · obtain ⟨hreg, ⟨session', hsome, hnext⟩, htracked⟩ := hs
    have htracked' := htracked.add (heldAfter_command kernel owner s.log
      (addLine na.ifindex (n + k) na.netnsInum) (isOk r))
    rw [hsession, Option.some.injEq] at hsome
    cases r with
    | ok u => exact ⟨hreg.add _ _, ⟨_, rfl, hsome ▸ hnext⟩, htracked'⟩
    | error e => exact ⟨hreg.refused _ _ _, ⟨_, rfl, hsome ▸ hnext⟩, htracked'⟩
  · refine .bind (Q := fun _ => live kernel owner n (k + 1) (k + 1)) (.update fun s hs => ?_)
      fun _ => .pure fun _ hs => ⟨rfl, hs⟩
    obtain ⟨hreg, ⟨session, hsession, hnext⟩, htracked⟩ := hs
    refine ⟨hreg, ⟨_, congrArg (Option.map _) hsession, ?_⟩, htracked⟩
    exact hnext

theorem sendState_live (handle : ℕ) :
    Keeps (live kernel owner n k t)
      (sendCommand env (stateLine handle lifecycleRunning)) := by
  refine sendCommand_triple (Q := fun _ => live kernel owner n k t) (fun s hs => ?_)
    fun s session r client hs hsession _ => ?_
  · obtain ⟨-, ⟨session, hsession, -⟩, -⟩ := hs
    rw [hsession]
    exact Option.some_ne_none session
  · obtain ⟨hreg, ⟨session', hsome, hnext⟩, htracked⟩ := hs
    rw [hsession, Option.some.injEq] at hsome
    exact ⟨hreg.state _ _, ⟨_, rfl, hsome ▸ hnext⟩,
      htracked.state (heldAfter_command kernel owner s.log _ _)⟩

theorem deregisterAll_closing (m : ℕ) :
    Triple (closing kernel owner n k j) (deregisterAll env (List.range' (n + j) m))
      (fun _ => closing (F := F) kernel owner n k (j + m)) fun _ _ => False := by
  induction m generalizing j with
  | zero => exact .pure fun _ hs => hs
  | succ m ih =>
    rw [List.range'_succ]
    have hremove : Keeps (fun _ => True) (sendCommand env (removeLine (n + j))) := .always _
    refine .bind (Q := fun _ => closing kernel owner n k (j + 1)) (.attempt
      (sendCommand_triple (Q := fun _ => closing kernel owner n k (j + 1)) (fun s hs => hs.2.1)
        fun s session r client hs hsession _ => ?_)) fun _ => ?_
    · obtain ⟨⟨opened, evs, hlog, hreg, hevs⟩, -, ⟨next, htracked⟩, hgone⟩ := hs
      obtain ⟨htracked', hsub, hnot⟩ := htracked.remove (Nat.le_add_right n j)
        (heldAfter_command kernel owner s.log (removeLine (n + j)) (isOk r))
      refine ⟨⟨opened, _, ?_, hreg, hevs.concat (isOk r)⟩, Option.some_ne_none _,
        ⟨next, htracked'⟩, fun h hh hn => ?_⟩
      · rw [hlog, List.append_assoc]
      · have hle := hgone h (hsub h hh) hn
        have hne := hnot h hh
        omega
    · have hrest := ih (j := j + 1)
      rw [← Nat.add_assoc n j 1, Nat.add_right_comm j 1 m] at hrest
      exact hrest

theorem closing_of_live {s : RunState F} (h : live kernel owner n k t s) :
    closing kernel owner n k 0 s := by
  obtain ⟨hreg, ⟨session, hsession, -⟩, htracked⟩ := h
  refine ⟨⟨s.log, [], (List.append_nil _).symm, hreg, .nil n⟩, ?_, ⟨_, htracked⟩, fun _ _ h => h⟩
  rw [hsession]
  exact Option.some_ne_none session

theorem closed_of_closing {s : RunState F} (h : closing kernel owner n k k s) :
    closed kernel owner n s := by
  obtain ⟨⟨opened, evs, hlog, hreg, hevs⟩, -, -, hgone⟩ := h
  exact ⟨k, opened, evs, [], by rw [hlog, List.append_nil], hreg, hevs,
    fun _ he => absurd he List.not_mem_nil, hgone⟩

/-- The removal of everything registered. -/
theorem deregisterAll_closed :
    Triple (live kernel owner n k t) (deregisterAll env (List.range' n k))
      (fun _ => closed (F := F) kernel owner n) fun _ _ => False := by
  have hall : Triple (closing kernel owner n k 0) (deregisterAll env (List.range' (n + 0) k))
      (fun _ => closing (F := F) kernel owner n k (0 + k)) fun _ _ => False :=
    deregisterAll_closing k
  rw [Nat.add_zero, Nat.zero_add] at hall
  exact hall.weaken (fun _ h => closing_of_live h) (fun _ _ h => closed_of_closing h)
    fun _ _ h => h

theorem logs_closed : Logs (F := F) (fun e => sentLine e = none) (closed kernel owner n) where
  log s e he hs := by
    obtain ⟨k, opened, evs, rest, hlog, hreg, hevs, hrest, hgone⟩ := hs
    refine ⟨k, opened, evs, rest ++ [e], ?_, hreg, hevs, fun d hd => ?_, ?_⟩
    · rw [hlog, List.append_assoc]
    · rcases List.mem_append.1 hd with hd | hd
      · exact hrest d hd
      · rw [List.mem_singleton.1 hd]
        exact he
    · rwa [heldAfter_quiet _ _ _ he]
  span _ _ hs := hs

theorem callTarget_closed (m : Method) : Keeps (closed kernel owner n) (callTarget env m) :=
  logs_closed.callTarget (fun _ _ _ => rfl) (fun _ _ => rfl) env m

/-- The cleanup of an abort path removes everything registered. -/
theorem abandon_closed {α : Type} (e : String) (Q : α → RunState F → Prop) :
    Triple (live kernel owner n k t) (abandon env (List.range' n k) e : Driver F α) Q
      fun _ => closed kernel owner n :=
  .bind (deregisterAll_closed.weaken (fun _ h => h) (fun _ _ h => h) fun _ _ h => h.elim)
    fun _ => (callTarget_closed .teardown).attempt_then fun _ =>
      .give (fun _ hok => by cases hok) fun _ _ _ h => h

theorem registerAll_live (vms : List NetAttribution) :
    Triple (live kernel owner n k k) (registerAll env vms (List.range' n k))
      (fun attributed s => attributed = List.range' n (k + vms.length) ∧
        live kernel owner n (k + vms.length) (k + vms.length) s)
      fun _ => closed kernel owner n := by
  induction vms generalizing k with
  | nil => exact .pure fun _ hs => ⟨rfl, hs⟩
  | cons na vms ih =>
    refine .bind (Q := fun _ => live kernel owner n k k) (.bind (Q := fun _ =>
      live kernel owner n k k) (fun _ hs => hs) fun _ => .bind (Q := fun _ =>
      live kernel owner n k k) (.update fun _ hs => hs) fun _ => .pure fun _ hs => hs)
      fun vmId => ?_
    refine .bind (Q := fun r s => match r with
      | .ok handle => handle = n + k ∧ live kernel owner n (k + 1) (k + 1) s
      | .error _ => live kernel owner n k (k + 1) s) (.attempt (register_live vmId na)) fun r => ?_
    cases r with
    | error e => exact abandon_closed e _
    | ok handle =>
      refine .assume fun hhandle => ?_
      have hnext : List.range' n k ++ [handle] = List.range' n (k + 1) := by
        rw [hhandle, List.range'_concat, Nat.one_mul]
      refine (sendState_live handle).attempt_then fun r => ?_
      rw [hnext]
      cases r with
      | error e => exact abandon_closed e _
      | ok u =>
        rw [List.length_cons, Nat.add_comm vms.length, ← Nat.add_assoc]
        exact ih

variable {session : AttributionSession}

def attributed (session : AttributionSession) (kernel : Owner.Kernel) (owner : Owner.State)
    (handles : List ℕ) (s : RunState F) : Prop :=
  (handles ≠ [] ∧ handles = List.range' session.table.next handles.length) ∧
    live kernel owner session.table.next handles.length handles.length s

theorem attributeVms_live :
    Triple (fun s => s.session = some session ∧ live kernel owner session.table.next 0 0 s)
      (attributeVms env) (attributed session kernel owner)
      fun _ => closed kernel owner session.table.next := by
  intro s hs
  obtain ⟨hsession, hs⟩ := hs
  refine (wp_bind _ _ _ _ _).2 ?_
  rw [wp_look, hsession]
  simp only [Option.isNone_some, Bool.false_eq_true, if_false]
  split
  · exact abandon_closed (k := 0) noTapError _ s hs
  · next htaps =>
    refine (registerAll_live (k := 0) env.target.netAttribution).weaken (fun _ h => h)
      (fun handles s h => ?_) (fun _ _ h => h) s hs
    obtain ⟨hhandles, h⟩ := h
    rw [Nat.zero_add] at hhandles h
    have hlen : handles.length = env.target.netAttribution.length := by
      rw [hhandles, List.length_range']
    refine ⟨⟨fun hnil => htaps ?_, by rw [hlen, ← hhandles]⟩, by rwa [hlen]⟩
    rw [List.isEmpty_iff, ← List.length_eq_zero_iff, ← hlen, hnil]
    rfl

theorem attributed_frame (handles : List ℕ) :
    Frame (F := F) Quiet (attributed session kernel owner handles) where
  log s e he hs := ⟨hs.1, frame_live.log s e he hs.2⟩
  client s session client hsession hs := ⟨hs.1, frame_live.client s session client hsession hs.2⟩
  span s spans hs := ⟨hs.1, frame_live.span s spans hs.2⟩

theorem quiet_workload (m : WorkloadMethod) (ok : Bool) : Quiet (.workload m ok) := ⟨rfl, rfl⟩

theorem abandon_attributed {α : Type} (handles : List ℕ) (e : String)
    (Q : α → RunState F → Prop) :
    Triple (attributed session kernel owner handles) (abandon env handles e : Driver F α) Q
      fun _ => closed kernel owner session.table.next := by
  intro s hs
  obtain ⟨⟨-, hhandles⟩, hs⟩ := hs
  rw [hhandles]
  exact abandon_closed e Q s hs

theorem spawnAll_attributed (handles : List ℕ) (gs : List GadgetInvocation) (i : ℕ) :
    Triple (attributed session kernel owner handles) (spawnAll env handles i gs)
      (fun _ => attributed session kernel owner handles)
      fun _ => closed kernel owner session.table.next :=
  (attributed_frame handles).spawnAll (fun _ _ => ⟨rfl, rfl⟩) handles (abandon_attributed handles)
    gs i

theorem waitAll_attributed (handles : List ℕ) (gs : List GadgetInvocation) (i : ℕ)
    (fragments : List (Fragment F)) :
    Triple (attributed session kernel owner handles) (waitAll env handles i gs fragments)
      (fun _ => attributed session kernel owner handles)
      fun _ => closed kernel owner session.table.next :=
  (attributed_frame handles).waitAll (fun _ _ => ⟨rfl, rfl⟩) (quiet_workload .stop) handles
    (abandon_attributed handles) gs i fragments

variable [F64 F]

theorem windDown_attributed (handles : List ℕ) (fragments : List (Fragment F)) :
    Triple (attributed session kernel owner handles) (windDown env handles fragments)
      (fun _ s => if env.target.answers .spans = true then closed kernel owner session.table.next s
        else attributed session kernel owner handles s)
      fun _ s => if env.target.answers .spans = true then closed kernel owner session.table.next s
        else attributed session kernel owner handles s := by
  have hlogs : Logs (fun _ => True) (fun _ : RunState F => True) :=
    ⟨fun _ _ _ _ => trivial, fun _ _ _ => trivial⟩
  have hspans : Keeps (attributed session kernel owner handles) (callTarget env .spans) :=
    fun s hs => wp_mono (callTarget_live (by decide) s hs.2) (fun _ _ h => ⟨hs.1, h⟩)
      fun _ _ h => ⟨hs.1, h⟩
  refine ((attributed_frame handles).callWorkload (quiet_workload .stop) _).attempt_then
    fun _ => ?_
  refine ((attributed_frame handles).callWorkload (quiet_workload .report) _).attempt_then
    fun _ => ?_
  refine .bind (Q := fun _ s => env.target.answers .spans = true ∧
    attributed session kernel owner handles s) (callSpans_triple ?_) fun _ => .assume fun hok => ?_
  · exact ((callTarget_decides hlogs env (by decide)).along hspans).weaken
      (fun _ h => ⟨trivial, h⟩) (fun _ _ h => ⟨h.1, h.2.2⟩)
      fun _ _ h => by rw [if_neg h.1]; exact h.2
  · simp only [hok, if_true]
    refine .bind (Q := fun _ => closed kernel owner session.table.next) (fun s hs => ?_)
      fun _ => ?_
    · obtain ⟨⟨-, hhandles⟩, hs⟩ := hs
      rw [hhandles]
      exact wp_mono (deregisterAll_closed s hs) (fun _ _ h => h) fun _ _ h => h.elim
    · refine (callTarget_closed .teardown).attempt_then fun r => ?_
      refine .bind (Q := fun _ => closed kernel owner session.table.next) (fun _ h => h)
        fun s => ?_
      refine .bind (Q := fun _ => closed kernel owner session.table.next)
        (.give (fun _ _ _ h => h) fun _ _ _ h => h) fun _ => .pure fun _ h => h

/-- What each phase of an attributed run leaves in the owner's map. -/
theorem phases_attributed : Phases env (some session)
    (live kernel owner session.table.next 0 0) (attributed session kernel owner)
    (attributed session kernel owner) (attributed session kernel owner)
    (closed kernel owner session.table.next) (closed kernel owner session.table.next)
    (fun s => ∃ handles, attributed session kernel owner handles s) where
  call _ hm := (callTarget_live hm).weaken (fun _ h => h) (fun _ _ h => h) fun _ _ h =>
    closed_of_closing (closing_of_live h)
  registers := attributeVms_live.weaken (fun _ h => h) (fun _ _ h => h) fun _ _ h _ => h
  spawn _ _ handles := spawnAll_attributed handles env.gadgets 0
  workload handles := (attributed_frame handles).callWorkload (quiet_workload .start) _
  abandon _ _ _ _ handles e Q := abandon_attributed handles e Q
  wait _ _ _ _ handles := waitAll_attributed handles env.gadgets 0 []
  windDown _ handles fragments := by
    have hend (s : RunState F) (hs : if env.target.answers .spans = true then
        closed kernel owner session.table.next s else attributed session kernel owner handles s) :
        if env.target.answers .spans = true then closed kernel owner session.table.next s
          else ∃ handles, attributed session kernel owner handles s := by
      by_cases hspans : env.target.answers .spans = true
      · rwa [if_pos hspans] at hs ⊢
      · rw [if_neg hspans] at hs ⊢
        exact ⟨handles, hs⟩
    exact (windDown_attributed handles fragments).weaken (fun _ h => h) (fun _ s hs => hend s hs)
      fun _ s hs => hend s hs

end Drive

section Result

variable {F : Type} [F64 F]

/-- The channel is in step, and every command on it is delivered and answered. -/
def Healthy (env : RunEnv F) (session : AttributionSession) : Prop :=
  session.client.poisoned = false ∧
    ∀ k, session.client.sent ≤ k → ∃ reply, env.exchange k = .reply reply

/-- The lines that reach the owner: those the client writes on a channel in step, up to the
first that is not answered. -/
def delivered (exchange : ℕ → Exchange) (c : ControlClient) : List String → List String
  | [] => []
  | line :: lines =>
    if c.poisoned then []
    else
      match exchange c.sent with
      | .reply _ => line :: delivered exchange (c.command exchange line).2 lines
      | .ioError _ _ => []

theorem delivered_of_healthy {exchange : ℕ → Exchange} {c : ControlClient}
    (hpoisoned : c.poisoned = false)
    (h : ∀ k, c.sent ≤ k → ∃ reply, exchange k = .reply reply) (lines : List String) :
    delivered exchange c lines = lines := by
  induction lines generalizing c with
  | nil => rfl
  | cons line lines ih =>
    obtain ⟨reply, hreply⟩ := h c.sent le_rfl
    have hnext : (c.command exchange line).2 = ⟨false, c.sent + 1⟩ := by
      unfold ControlClient.command
      rw [hpoisoned, hreply]
      rfl
    rw [delivered, hpoisoned, if_neg Bool.false_ne_true, hreply]
    simp only [hnext]
    rw [ih rfl fun k hk => h k (Nat.le_of_succ_le hk)]

/-- What a run leaves of its registrations: each accepted one is removed, before any
teardown, and the owner's map holds none of their handles. -/
def LeavesNothing (kernel : Owner.Kernel) (owner : Owner.State) (env : RunEnv F)
    (session : AttributionSession) : Prop :=
  let log := (runOf env (some session)).2.log
  Released log ∧
    ∀ handle, ∀ e ∈ log, adds handle e →
      ∀ h ∈ (Owner.serve kernel owner
        (delivered env.exchange session.client (sentLines log))).handles, h.toNat ≠ handle

/-- A run over a healthy channel, and an owner that holds no handle the session has yet to
issue, leaves nothing behind unless it gets as far as its spans and cannot read them. -/
theorem leavesNothing_iff (kernel : Owner.Kernel) (owner : Owner.State) (env : RunEnv F)
    (session : AttributionSession) (hhealthy : Healthy env session)
    (hfresh : ∀ h ∈ owner.handles, h.toNat < session.table.next) :
    LeavesNothing kernel owner env session ↔ ¬ stopsAtSpans env (some session) := by
  have hstart : live kernel owner session.table.next 0 0
      (RunState.initial (F := F) (some session)) :=
    ⟨.nil _, ⟨session, rfl, rfl⟩, .of_below hfresh⟩
  have hclosed {s : RunState F} (hs : closed kernel owner session.table.next s)
      (hlog : s.log = (runOf env (some session)).2.log) :
      LeavesNothing kernel owner env session := by
    obtain ⟨k, opened, evs, rest, heq, hreg, hevs, hrest, hgone⟩ := hs
    unfold LeavesNothing
    rw [← hlog]
    refine ⟨by rw [heq]; exact released_of_removals hreg hevs hrest, fun handle e he hadds h hh =>
      ?_⟩
    rw [delivered_of_healthy hhealthy.1 hhealthy.2] at hh
    have hopen : e ∈ opened := by
      rw [heq] at he
      rcases List.mem_append.1 he with he | he
      · rcases List.mem_append.1 he with he | he
        · exact he
        · obtain ⟨i, m, rfl⟩ := hadds
          obtain ⟨g, ok, heq⟩ := hevs.only _ he
          exact absurd (Event.command.inj heq).1 (Owner.ne_of_verb (by simp))
      · obtain ⟨i, m, rfl⟩ := hadds
        cases hrest _ he
    have hbounds := hreg.bounds handle e hopen hadds
    have hle := hgone h hh
    omega
  rcases phases_attributed.runOf hstart with ⟨hup, h⟩ | ⟨hup, hstop, h⟩ | ⟨hstop, handles, h⟩
  · exact iff_of_true (hclosed h rfl) fun hstop => hup hstop.1
  · exact iff_of_true (hclosed h rfl) hstop
  · refine iff_of_false (fun hleaves => ?_) fun hnot => hnot hstop
    exact not_released h.2.1 (List.length_pos_iff.2 h.1.1) hleaves.1

end Result

section Runs

/-- A target with one tap whose spans cannot be read, and an owner that answers `ok`. -/
def unreadableSpans : RunEnv ℚ where
  target := .single
    { version := "1", provision := .ok (), start := .ok (), reachSteady := .ok ()
      spans := .error "no such file", teardown := .ok (), pinningLayout := none
      residentFiles := [], netAttribution := [⟨"asyq-0", 11, "02:00:00:00:00:00", 0⟩] }
  workload := ⟨"1", .ok (), .ok (), .ok .null⟩
  gadgets := []
  meminfoBefore := .ok ""
  meminfoAfter := .ok ""
  spawn _ := .ok ()
  wait _ := .error ""
  sampleResidency _ := none
  provisionNs := 0
  steadyNs := 0
  newRunId _ := "01AAA"
  exchange _ := .reply "ok"

/-- The default map, on a kernel that refuses nothing. -/
def roomy : Owner.Kernel := ⟨1024, fun _ => none, fun _ => 0⟩

theorem leavesNothing_unreadableSpans :
    LeavesNothing roomy .new unreadableSpans .new ↔
      ¬ stopsAtSpans unreadableSpans (some .new) :=
  leavesNothing_iff roomy .new unreadableSpans .new ⟨rfl, fun _ _ => ⟨"ok", rfl⟩⟩
    fun _ hh => absurd hh List.not_mem_nil

theorem unreadableSpans_log : (runOf unreadableSpans (some .new)).2.log =
    [.target .provision true, .target .start true, .target .reachSteady true,
      .command (addLine 11 0 0) true, .command (stateLine 0 lifecycleRunning) true,
      .workload .start true, .workload .stop true, .workload .report true,
      .target .spans false] := by
  decide +kernel

/-- Its VM was added, and is never removed. -/
theorem unreadable_spans_leak :
    Healthy unreadableSpans .new ∧ ¬ LeavesNothing roomy .new unreadableSpans .new := by
  refine ⟨⟨rfl, fun _ _ => ⟨"ok", rfl⟩⟩, fun h => ?_⟩
  obtain ⟨hreleased, -⟩ := h
  rw [unreadableSpans_log] at hreleased
  have hone := (hreleased 0 [.target .provision true, .target .start true,
    .target .reachSteady true] _ _ rfl ⟨11, 0, rfl⟩).1
  exact absurd hone (by decide +kernel)

end Runs

end Assayist
