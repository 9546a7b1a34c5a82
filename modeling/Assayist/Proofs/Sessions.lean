import Assayist.Proofs.Attribution

/-! An attribution session over all its calls: which handles it sends, and what its table and the
provenance made of it hold, whatever the owner answers. -/

namespace Assayist

section Registrations

/-- A registration as it went: the provenance asked for, under the handle reserved for it, the
line written to the owner and the owner's answer, if any, and what the call returned. -/
structure Registration where
  provenance : VmProvenance
  line : Option String
  reply : Option String
  result : Except String ℕ

def Registration.accepted (r : Registration) : Bool := r.reply.any fun reply => trim reply == "ok"

/-- What a command writes: nothing, on a channel out of step. -/
def ControlClient.writes (c : ControlClient) (line : String) : Option String :=
  if c.poisoned then none else some line

variable (exchange : ℕ → Exchange)

/-- What the owner answers to the line a command writes: nothing to a line not written, or
when the exchange breaks off. -/
def ControlClient.answer (c : ControlClient) : Option String :=
  if c.poisoned then none else
    match exchange c.sent with
    | .ioError _ _ => none
    | .reply reply => some reply

def registrationOf (s : AttributionSession) : SessionCall → List Registration
  | .register vmId tap guestMac ifindex netnsInum =>
    [⟨⟨s.table.reserve.1, vmId, tap, guestMac, ifindex, netnsInum⟩,
      s.client.writes (addLine ifindex s.table.reserve.1 netnsInum), s.client.answer exchange,
      (s.register exchange vmId tap guestMac ifindex netnsInum).1⟩]
  | .setState _ _ => []
  | .deregister _ => []

def registrations : AttributionSession → List SessionCall → List Registration
  | _, [] => []
  | s, c :: cs => registrationOf exchange s c ++ registrations (s.after exchange c) cs

def sessionAfter (s : AttributionSession) (calls : List SessionCall) : AttributionSession :=
  calls.foldl (AttributionSession.after exchange) s

variable {exchange} {s : AttributionSession}

theorem command_answered (exchange : ℕ → Exchange) (c : ControlClient) (line : String) :
    isOk (c.command exchange line).1 =
      (c.answer exchange).any fun reply => trim reply == "ok" := by
  rw [Bool.eq_iff_iff, (command_isOk exchange c line).1]
  unfold ControlClient.answer accepted
  cases c.poisoned with
  | true => simp
  | false =>
    cases exchange c.sent with
    | ioError phase msg => simp
    | reply reply => simp

/-- The two ways a registration can go: the number is used up in both, and only one that the
owner answers with `ok` is recorded. -/
theorem register_cases (exchange : ℕ → Exchange) (s : AttributionSession)
    (vmId tap guestMac : String) (ifindex netnsInum : UInt32) :
    ((s.client.answer exchange).any (fun reply => trim reply == "ok") = false ∧
      ∃ e client, s.register exchange vmId tap guestMac ifindex netnsInum =
        (.error e, ⟨client, { s.table with next := s.table.next + 1 }⟩)) ∨
    (s.client.answer exchange).any (fun reply => trim reply == "ok") = true ∧
      ∃ client, s.register exchange vmId tap guestMac ifindex netnsInum =
        (.ok s.table.next, ⟨client, HandleTable.insert { s.table with next := s.table.next + 1 }
          ⟨s.table.next, vmId, tap, guestMac, ifindex, netnsInum⟩⟩) := by
  have hreserve : s.table.reserve = (s.table.next, { s.table with next := s.table.next + 1 }) := rfl
  have hanswered := command_answered exchange s.client (addLine ifindex s.table.next netnsInum)
  unfold AttributionSession.register
  rw [hreserve, ← hanswered]
  dsimp only
  obtain ⟨r, client⟩ := s.client.command exchange (addLine ifindex s.table.next netnsInum)
  cases r with
  | error e => exact .inl ⟨rfl, e, client, rfl⟩
  | ok u => exact .inr ⟨rfl, client, rfl⟩

structure Recorded (rs : List Registration) (table : HandleTable) : Prop where
  next : table.next = rs.length
  handles : rs.map (·.provenance.handle) = List.range rs.length
  answered : ∀ r ∈ rs, ∀ h, r.result = .ok h ↔ r.accepted = true ∧ h = r.provenance.handle
  get : ∀ h p, table.get h = some p ↔
    p.handle = h ∧ ∃ r ∈ rs, r.accepted = true ∧ r.provenance = p

theorem Recorded.new : Recorded [] .new where
  next := rfl
  handles := rfl
  answered r hr := absurd hr List.not_mem_nil
  get h p := by
    apply iff_of_false
    · simp [HandleTable.get, HandleTable.new]
    · rintro ⟨-, r, hr, -⟩
      cases hr

theorem Recorded.fresh {rs : List Registration} {table : HandleTable} (h : Recorded rs table) :
    ∀ r ∈ rs, r.provenance.handle < table.next := by
  intro r hr
  have hmem : r.provenance.handle ∈ rs.map (·.provenance.handle) := List.mem_map_of_mem hr
  rw [h.handles, List.mem_range] at hmem
  rwa [h.next]

/-- A provenance under the next handle joins those that are recorded. -/
theorem Recorded.get_insert {rs : List Registration} {table : HandleTable} (h : Recorded rs table)
    {q : VmProvenance} (hq : q.handle = table.next) (k : ℕ) (p : VmProvenance) :
    (HandleTable.insert { table with next := table.next + 1 } q).get k = some p ↔
      p.handle = k ∧ ((∃ r ∈ rs, r.accepted = true ∧ r.provenance = p) ∨ q = p) := by
  have hold : HandleTable.get { table with next := table.next + 1 } k = table.get k := rfl
  rw [HandleTable.get_insert, hold]
  split_ifs with hk
  · apply Iff.intro
    · intro heq
      obtain ⟨⟩ := heq
      exact ⟨hk, .inr rfl⟩
    · rintro ⟨hp, ⟨r, hr, -, rfl⟩ | rfl⟩
      · have hlt := h.fresh r hr
        omega
      · rfl
  · rw [h.get]
    apply Iff.intro
    · exact fun ⟨hp, hr⟩ => ⟨hp, .inl hr⟩
    · rintro ⟨hp, hr | rfl⟩
      · exact ⟨hp, hr⟩
      · exact absurd hp hk

/-- What a registration that went as given does to the record. -/
theorem Recorded.snoc {rs : List Registration} {table : HandleTable} (h : Recorded rs table)
    {r : Registration} (hr : r.provenance.handle = table.next)
    (hresult : ∀ k, r.result = .ok k ↔ r.accepted = true ∧ k = table.next) :
    Recorded (rs ++ [r])
      (if r.accepted then HandleTable.insert { table with next := table.next + 1 } r.provenance
        else { table with next := table.next + 1 }) where
  next := by
    rw [List.length_append, List.length_singleton, ← h.next]
    split_ifs <;> rfl
  handles := by
    rw [List.map_append, h.handles, List.length_append, List.length_singleton, List.range_succ,
      ← h.next, ← hr]
    rfl
  answered q hq k := by
    rcases List.mem_append.1 hq with hq | hq
    · exact h.answered q hq k
    · rw [List.mem_singleton.1 hq, hr]
      exact hresult k
  get k p := by
    simp only [List.mem_append, List.mem_singleton, or_and_right, exists_or, exists_eq_left]
    cases haccepted : r.accepted with
    | false =>
      have hold : HandleTable.get { table with next := table.next + 1 } k = table.get k := rfl
      rw [if_neg Bool.false_ne_true, hold, h.get]
      simp
    | true =>
      rw [if_pos rfl, h.get_insert hr]
      simp

theorem Recorded.after {rs : List Registration} (h : Recorded rs s.table) (c : SessionCall) :
    Recorded (rs ++ registrationOf exchange s c) (s.after exchange c).table := by
  cases c with
  | setState handle state =>
    rw [registrationOf, List.append_nil]
    exact h
  | deregister handle =>
    rw [registrationOf, List.append_nil]
    exact h
  | register vmId tap guestMac ifindex netnsInum =>
    rw [registrationOf, AttributionSession.after]
    rcases register_cases exchange s vmId tap guestMac ifindex netnsInum with
      ⟨hno, e, client, heq⟩ | ⟨hyes, client, heq⟩
    · rw [heq]
      have hsnoc := h.snoc (r := ⟨⟨s.table.next, vmId, tap, guestMac, ifindex, netnsInum⟩,
        s.client.writes (addLine ifindex s.table.next netnsInum), s.client.answer exchange,
        .error e⟩) rfl fun k => by simp [Registration.accepted, hno]
      rwa [Registration.accepted, hno, if_neg Bool.false_ne_true] at hsnoc
    · rw [heq]
      have hsnoc := h.snoc (r := ⟨⟨s.table.next, vmId, tap, guestMac, ifindex, netnsInum⟩,
        s.client.writes (addLine ifindex s.table.next netnsInum), s.client.answer exchange,
        .ok s.table.next⟩) rfl fun k => by simp [Registration.accepted, hyes, eq_comm]
      rwa [Registration.accepted, hyes, if_pos rfl] at hsnoc

theorem Recorded.all {rs : List Registration} (h : Recorded rs s.table) (calls : List SessionCall) :
    Recorded (rs ++ registrations exchange s calls) (sessionAfter exchange s calls).table := by
  induction calls generalizing rs s with
  | nil =>
    rw [registrations, List.append_nil]
    exact h
  | cons c cs ih =>
    rw [registrations, ← List.append_assoc]
    exact ih (h.after c)

theorem Recorded.ascending {rs : List Registration} {table : HandleTable}
    (h : Recorded rs table) : (rs.map (·.provenance.handle)).Pairwise (· < ·) := by
  rw [h.handles]
  exact List.pairwise_lt_range

theorem Recorded.fits {rs : List Registration} {table : HandleTable} (h : Recorded rs table)
    (hlen : rs.length ≤ 2 ^ 64) :
    ∀ r ∈ rs, (UInt64.ofNat r.provenance.handle).toNat = r.provenance.handle := by
  intro r hr
  have hmem : r.provenance.handle ∈ rs.map (·.provenance.handle) := List.mem_map_of_mem hr
  rw [h.handles, List.mem_range] at hmem
  exact UInt64.toNat_ofNat_of_lt' (lt_of_lt_of_le hmem hlen)

/-- The table lists the accepted registrations in the order in which they were made. -/
theorem Recorded.entries {rs : List Registration} {table : HandleTable} (h : Recorded rs table) :
    table.byHandle.toList =
      (rs.filter Registration.accepted).map fun r => (r.provenance.handle, r.provenance) := by
  have hlist : ((rs.filter Registration.accepted).map fun r =>
      (r.provenance.handle, r.provenance)).Pairwise fun a b => a.1 < b.1 := by
    rw [List.pairwise_map]
    exact (List.pairwise_map.1 h.ascending).filter _
  have htable : table.byHandle.toList.Pairwise fun a b => a.1 < b.1 :=
    Std.TreeMap.ordered_keys_toList.imp fun hlt => Nat.compare_eq_lt.1 hlt
  have hnodup {l : List (ℕ × VmProvenance)} (hl : l.Pairwise fun a b => a.1 < b.1) : l.Nodup :=
    hl.imp fun hlt heq => absurd (congrArg Prod.fst heq) hlt.ne
  refine List.Perm.eq_of_pairwise (fun a b _ _ hab hba => absurd hba hab.asymm) htable hlist ?_
  rw [List.perm_ext_iff_of_nodup (hnodup htable) (hnodup hlist)]
  rintro ⟨k, p⟩
  rw [Std.TreeMap.mem_toList_iff_getElem?_eq_some, List.mem_map]
  refine (h.get k p).trans ?_
  simp only [List.mem_filter, Prod.mk.injEq]
  apply Iff.intro
  · rintro ⟨rfl, r, hr, haccepted, rfl⟩
    exact ⟨r, ⟨hr, haccepted⟩, rfl, rfl⟩
  · rintro ⟨r, ⟨hr, haccepted⟩, rfl, rfl⟩
    exact ⟨rfl, r, hr, haccepted, rfl⟩

end Registrations

section Driver

open Effect

variable {F : Type}

/-- The driver's registration is the session's. -/
theorem register_session (env : RunEnv F) (vmId : String) (na : NetAttribution) {s : RunState F}
    {session : AttributionSession} (h : s.session = some session) :
    let r := session.register env.exchange vmId na.tap na.guestMac na.ifindex na.netnsInum
    (exec (register env vmId na) s).1 = r.1 ∧
      (exec (register env vmId na) s).2.session = some r.2 := by
  have hreserve : session.table.reserve =
      (session.table.next, { session.table with next := session.table.next + 1 }) := rfl
  unfold register reserveHandle sendCommand emit recordProvenance AttributionSession.register
  simp only [exec_bind, exec_look, h, hreserve, exec_update, exec_pure, exec_give]
  obtain ⟨r, client⟩ := session.client.command env.exchange
    (addLine na.ifindex session.table.next na.netnsInum)
  cases r with
  | error e => exact ⟨rfl, rfl⟩
  | ok u => exact ⟨rfl, rfl⟩

end Driver

section History

variable {F : Type}

def provenanceRow (p : VmProvenance) : Json F :=
  .object [("handle", .nat (.ofNat p.handle)), ("vm_id", .string p.vmId), ("tap", .string p.tap),
    ("guest_mac", .string p.guestMac), ("ifindex", .nat p.ifindex.toUInt64),
    ("netns_inum", .nat p.netnsInum.toUInt64)]

/-- A session's registrations, and its table, accounted for. The model's handles are natural
numbers, those of the code 64 bits wide. -/
structure Accounted (F : Type) (exchange : ℕ → Exchange) (rs : List Registration)
    (table : HandleTable) : Prop where
  /-- No handle is reserved twice, not even one whose registration failed. -/
  reserved : (rs.map (·.provenance.handle)).Pairwise (· < ·)
  sent : ((rs.filter (·.line.isSome)).map (·.provenance.handle)).Pairwise (· < ·)
  written : ∀ r ∈ rs, ∀ line, r.line = some line →
    line = addLine r.provenance.ifindex r.provenance.handle r.provenance.netnsInum
  /-- Up to 2^64 registrations the handles fit. -/
  fits : rs.length ≤ 2 ^ 64 → ∀ r ∈ rs,
    (UInt64.ofNat r.provenance.handle).toNat = r.provenance.handle
  /-- A call returns its handle exactly when the owner answers its line with `ok`. -/
  returned : ∀ r ∈ rs, ∀ h, r.result = .ok h ↔ r.accepted = true ∧ h = r.provenance.handle
  /-- A registration that fails, in whatever state, records nothing. -/
  failed : ∀ (s : AttributionSession) vmId tap guestMac ifindex netnsInum e,
    (s.register exchange vmId tap guestMac ifindex netnsInum).1 = .error e →
    (s.register exchange vmId tap guestMac ifindex netnsInum).2.table.byHandle = s.table.byHandle
  held : ∀ h p, table.get h = some p ↔
    p.handle = h ∧ ∃ r ∈ rs, r.accepted = true ∧ r.provenance = p
  provenance : (table.provenanceJson : Json F) =
    .array ((rs.filter Registration.accepted).map fun r => provenanceRow r.provenance)

end History

end Assayist
