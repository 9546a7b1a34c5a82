import Assayist.Lib.Tagged
import Assayist.Proofs.Channel
import Assayist.Proofs.Owner

/-! The attribution map as a table from ifindex to a VM's handle, namespace and state. The
client's lines, the owner's parser and the bytes of the kernel map implement it. -/

namespace Assayist

open Tagged

/-- What the map is for: the VM behind an interface, and where it is in its lifecycle. -/
structure VmEntry where
  handle : UInt64
  netnsInum : UInt32
  state : UInt8

abbrev VmTable := Table UInt32 VmEntry

namespace VmTable

noncomputable def own (t : VmTable) : Call → Option UInt32
  | .add ifindex _ _ => some ifindex
  | .state handle _ => find VmEntry.handle t handle
  | .remove handle => find VmEntry.handle t handle

/-- A call on the table, `none` when it is rejected. A handle that is not there cannot change
state or be removed. -/
noncomputable def step (t : VmTable) (call : Call) : Option VmTable :=
  match call with
  | .add ifindex handle netnsInum => some (put t ifindex ⟨handle, netnsInum, lifecycleRunning⟩)
  | .state handle s => do
    let i ← find VmEntry.handle t handle
    let e ← t i
    pure (put t i { e with state := s })
  | .remove handle => do
    let i ← find VmEntry.handle t handle
    pure (drop t i)

/-- The table after a call; one that is rejected leaves it as it was. -/
noncomputable def after (t : VmTable) (call : Call) : VmTable := (t.step call).getD t

noncomputable def afterAll (calls : List Call) : VmTable := calls.foldl after Table.empty

end VmTable

namespace Owner

def keyBytes (ifindex : UInt32) : List UInt8 := leBytes 4 ifindex.toNat

def entryBytes (e : VmEntry) : List UInt8 := VmCtx.asBytes ⟨e.handle, e.netnsInum, e.state⟩

/-- The kernel map holds the table: an entry's bytes under the bytes of its interface, and
nothing else. -/
structure Represents (m : BpfMap) (t : VmTable) : Prop where
  bytes : ∀ i, m.lookup (keyBytes i) = (t i).map entryBytes
  keys : ∀ key ∈ m.keys, ∃ i, key = keyBytes i

theorem keyBytes_inj {i j : UInt32} (h : keyBytes i = keyBytes j) : i = j := by
  have hvalue := congrArg leValue h
  unfold keyBytes at hvalue
  rw [leValue_leBytes, leValue_leBytes] at hvalue
  have hi := i.toNat_lt
  have hj := j.toNat_lt
  refine UInt32.toNat_inj.1 ?_
  omega

section Lookup

variable {kernel : Kernel} {k : ℕ} {m m' : BpfMap} {key other value : List UInt8}

theorem lookup_eq_some : m.lookup key = some value ↔ (key, value) ∈ m.entries :=
  Keyed.lookup_eq_some_iff m.nodup

theorem mem_keys_iff : key ∈ m.keys ↔ ∃ v, m.lookup key = some v := by
  apply Iff.intro
  · intro h
    obtain ⟨e, he, hkey⟩ := List.mem_map.1 h
    exact ⟨e.2, hkey ▸ lookup_of_mem he⟩
  · intro h
    obtain ⟨v, hv⟩ := h
    exact List.mem_map.2 ⟨(key, v), lookup_eq_some.1 hv, rfl⟩

theorem lookup_perm (h : m.entries.Perm m'.entries) (key : List UInt8) :
    m'.lookup key = m.lookup key := (Keyed.lookup_of_perm m.nodup h key).symm

theorem lookup_update_self (h : m.update kernel k key value = .ok m') :
    m'.lookup key = some value :=
  lookup_eq_some.2 ((update_perm h).mem_iff.2 List.mem_cons_self)

theorem mem_others {v : List UInt8} : (other, v) ∈ m.others key ↔
    (other, v) ∈ m.entries ∧ other ≠ key := by
  simp [BpfMap.others]

theorem lookup_update_of_ne (h : m.update kernel k key value = .ok m') (hne : other ≠ key) :
    m'.lookup other = m.lookup other := by
  refine Option.ext fun v => ?_
  rw [lookup_eq_some, lookup_eq_some, (update_perm h).mem_iff, List.mem_cons, mem_others]
  simp [hne]

theorem lookup_delete_self : (m.delete key).lookup key = none := by
  refine Option.eq_none_iff_forall_ne_some.2 fun v hv => ?_
  exact (mem_others.1 (lookup_eq_some.1 hv)).2 rfl

theorem lookup_delete_of_ne (hne : other ≠ key) : (m.delete key).lookup other = m.lookup other := by
  refine Option.ext fun v => ?_
  rw [lookup_eq_some, lookup_eq_some]
  change (other, v) ∈ m.others key ↔ _
  rw [mem_others]
  simp [hne]

end Lookup

section Represents

variable {kernel : Kernel} {k : ℕ} {m m' : BpfMap} {t : VmTable} {i : UInt32} {e : VmEntry}

theorem Represents.empty : Represents .empty Table.empty where
  bytes _ := rfl
  keys _ h := by cases h

theorem Represents.perm (h : Represents m t) (hperm : m.entries.Perm m'.entries) :
    Represents m' t where
  bytes i := by rw [lookup_perm hperm, h.bytes]
  keys key hkey := h.keys key ((hperm.map Prod.fst).mem_iff.2 hkey)

theorem Represents.put (h : Represents m t)
    (hupdate : m.update kernel k (keyBytes i) (entryBytes e) = .ok m') :
    Represents m' (put t i e) where
  bytes j := by
    by_cases hj : j = i
    · rw [hj, lookup_update_self hupdate, put_self]
      rfl
    · rw [lookup_update_of_ne hupdate fun heq => hj (keyBytes_inj heq), h.bytes, put_of_ne hj]
  keys key hkey := by
    by_cases heq : key = keyBytes i
    · exact ⟨i, heq⟩
    · obtain ⟨v, hv⟩ := mem_keys_iff.1 hkey
      rw [lookup_update_of_ne hupdate heq] at hv
      exact h.keys key (mem_keys_iff.2 ⟨v, hv⟩)

theorem Represents.drop (h : Represents m t) : Represents (m.delete (keyBytes i)) (drop t i) where
  bytes j := by
    by_cases hj : j = i
    · rw [hj, lookup_delete_self, drop_self]
      rfl
    · rw [lookup_delete_of_ne fun heq => hj (keyBytes_inj heq), h.bytes, drop_of_ne hj]
  keys key hkey := by
    obtain ⟨v, hv⟩ := mem_keys_iff.1 hkey
    have hmem : (key, v) ∈ m.others (keyBytes i) := lookup_eq_some.1 hv
    exact h.keys key (mem_keys_iff.2 ⟨v, lookup_eq_some.2 (mem_others.1 hmem).1⟩)

theorem vmId_entryBytes (e : VmEntry) : (VmCtx.fromBytes (entryBytes e)).vmId = e.handle := by
  rw [entryBytes, fromBytes_asBytes]

/-- The reverse lookup finds the interface of a handle, whatever the order of the keys. -/
theorem Represents.keyForHandle_eq (h : Represents m t) (hone : OneEach VmEntry.handle t)
    (handle : UInt64) :
    keyForHandle m handle = (find VmEntry.handle t handle).map keyBytes := by
  cases hkey : keyForHandle m handle with
  | none =>
    have hnone : find VmEntry.handle t handle = none := by
      refine find_eq_none_iff.2 fun i hi => ?_
      obtain ⟨e, he, hhandle⟩ := hi
      have hlookup := h.bytes i
      rw [he, Option.map_some] at hlookup
      refine keyForHandle_none hkey (List.mem_map.2 ⟨_, lookup_eq_some.1 hlookup, ?_⟩)
      rw [carries, vmId_entryBytes, hhandle]
    rw [hnone]
    rfl
  | some key =>
    obtain ⟨v, hv, hid⟩ := keyForHandle_some hkey
    obtain ⟨i, rfl⟩ := h.keys key (mem_keys_iff.2 ⟨v, hv⟩)
    rw [h.bytes] at hv
    obtain ⟨e, he, rfl⟩ := Option.map_eq_some_iff.1 hv
    rw [vmId_entryBytes] at hid
    rw [(find_eq_some_iff hone).2 ⟨e, he, hid⟩]
    rfl

theorem Represents.image (h : Represents m t) :
    (m.keys.toFinset : Set (List UInt8)) = keyBytes '' occupied t := by
  ext key
  rw [List.coe_toFinset, Set.mem_ofPred_eq, mem_keys_iff, Set.mem_image]
  apply Iff.intro
  · intro hkey
    obtain ⟨i, rfl⟩ := h.keys key (mem_keys_iff.2 hkey)
    obtain ⟨v, hv⟩ := hkey
    rw [h.bytes] at hv
    obtain ⟨e, he, -⟩ := Option.map_eq_some_iff.1 hv
    refine ⟨i, ?_, rfl⟩
    rw [occupied, Set.mem_ofPred_eq, he]
    exact Option.some_ne_none e
  · intro hkey
    obtain ⟨i, hi, rfl⟩ := hkey
    obtain ⟨e, he⟩ := Option.ne_none_iff_exists'.1 hi
    exact ⟨entryBytes e, by rw [h.bytes, he]; rfl⟩

theorem Represents.finite (h : Represents m t) : (occupied t).Finite := by
  refine Set.Finite.of_finite_image ?_ fun i _ j _ => keyBytes_inj
  rw [← h.image]
  exact Finset.finite_toSet _

theorem Represents.length (h : Represents m t) : m.entries.length = (occupied t).ncard := by
  have hcard : (m.keys.toFinset : Set (List UInt8)).ncard = m.entries.length := by
    rw [Set.ncard_coe_finset, BpfMap.keys, List.toFinset_card_of_nodup m.nodup, List.length_map]
  rw [← hcard, h.image, Set.ncard_image_of_injective _ fun _ _ => keyBytes_inj]

theorem update_ok (hrefuses : kernel.refuses k = none) {key : List UInt8} (value : List UInt8)
    (hroom : m.lookup key ≠ none ∨ m.entries.length < kernel.maxEntries) :
    ∃ m', m.update kernel k key value = .ok m' := by
  unfold BpfMap.update
  rw [hrefuses]
  simp only
  rw [if_neg]
  · exact ⟨_, rfl⟩
  · intro hfull
    rcases hroom with hthere | hless
    · exact hthere hfull.1
    · omega

end Represents

def commandOf : Call → Command
  | .add ifindex handle netnsInum => .add ifindex handle netnsInum
  | .state handle s => .state handle s
  | .remove handle => .remove handle

def Lifecycle (call : Call) : Prop := ∀ handle s, call = .state handle s → s ∈ lifecycleStates

/-- The text of a call is read back as the call. -/
theorem reads_line {call : Call} (h : Lifecycle call) :
    reads (call.line ++ "\n") = .ok (commandOf call) := by
  have hline : reads (call.line ++ "\n") = reads call.line := by
    rw [reads, trim_newline, ← reads]
  rw [hline]
  cases call with
  | add ifindex handle netnsInum =>
    rw [Call.line, reads_addLine, if_pos handle.toNat_lt, UInt64.ofNat_toNat]
    rfl
  | state handle s =>
    rw [Call.line, reads_stateLine _ (h handle s rfl), if_pos handle.toNat_lt, UInt64.ofNat_toNat]
    rfl
  | remove handle =>
    rw [Call.line, reads_removeLine, if_pos handle.toNat_lt, UInt64.ofNat_toNat]
    rfl

section Serve

variable {kernel : Kernel} {k : ℕ} {m : BpfMap} {t : VmTable} {call : Call} {stats : Stats}

theorem VmTable.step_state_eq_some {handle : UInt64} {s : UInt8} {t' : VmTable} :
    t.step (.state handle s) = some t' ↔ ∃ i e, find VmEntry.handle t handle = some i ∧
      t i = some e ∧ t' = put t i { e with state := s } := by
  unfold VmTable.step
  apply Iff.intro
  · intro h
    obtain ⟨i, hi, h⟩ := Option.bind_eq_some_iff.1 h
    obtain ⟨e, he, h⟩ := Option.bind_eq_some_iff.1 h
    exact ⟨i, e, hi, he, (Option.some.inj h).symm⟩
  · intro h
    obtain ⟨i, e, hi, he, rfl⟩ := h
    simp only [hi, he, Option.bind_eq_bind, Option.bind_some]
    rfl

theorem VmTable.step_remove_eq_some {handle : UInt64} {t' : VmTable} :
    t.step (.remove handle) = some t' ↔ ∃ i, find VmEntry.handle t handle = some i ∧
      t' = drop t i := by
  unfold VmTable.step
  apply Iff.intro
  · intro h
    obtain ⟨i, hi, h⟩ := Option.bind_eq_some_iff.1 h
    exact ⟨i, hi, (Option.some.inj h).symm⟩
  · intro h
    obtain ⟨i, hi, rfl⟩ := h
    simp only [hi, Option.bind_eq_bind, Option.bind_some]
    rfl

/-- An interface that is new to the table has room in the map. -/
theorem Represents.room (h : Represents m t) {i : UInt32} {e : VmEntry}
    (hcapacity : (occupied (Tagged.put t i e)).ncard ≤ kernel.maxEntries) :
    m.lookup (keyBytes i) ≠ none ∨ m.entries.length < kernel.maxEntries := by
  by_cases hi : i ∈ occupied t
  · obtain ⟨d, hd⟩ := Option.ne_none_iff_exists'.1 hi
    refine .inl ?_
    rw [h.bytes, hd]
    exact Option.some_ne_none _
  · rw [occupied_put, Set.ncard_insert_of_notMem hi h.finite, ← h.length] at hcapacity
    exact .inr hcapacity

/-- A call the table accepts goes through on the map, which then holds the table after it. -/
theorem Represents.applyMap_ok (h : Represents m t) (hone : OneEach VmEntry.handle t)
    (hrefuses : kernel.refuses k = none) {t' : VmTable} (hstep : t.step call = some t')
    (hcapacity : (occupied t').ncard ≤ kernel.maxEntries) :
    ∃ m' stats', applyMap kernel k m stats (commandOf call) = .ok (m', stats') ∧
      Represents m' t' := by
  cases call with
  | add i handle netnsInum =>
    rw [← Option.some.inj hstep] at hcapacity ⊢
    obtain ⟨m', hm'⟩ := update_ok hrefuses
      (entryBytes ⟨handle, netnsInum, lifecycleRunning⟩) (h.room hcapacity)
    refine ⟨m', { stats with adds := stats.adds + 1 }, ?_, h.put hm'⟩
    have hupdate : m.update kernel k (leBytes 4 i.toNat)
      (VmCtx.asBytes ⟨handle, netnsInum, lifecycleRunning⟩) = .ok m' := hm'
    unfold applyMap commandOf
    simp only [hupdate]
  | state handle s =>
    obtain ⟨i, e, hi, he, rfl⟩ := VmTable.step_state_eq_some.1 hstep
    have hlookup := h.bytes i
    rw [he, Option.map_some] at hlookup
    have hthere : m.lookup (keyBytes i) ≠ none := by
      rw [hlookup]
      exact Option.some_ne_none _
    obtain ⟨m', hm'⟩ := update_ok hrefuses (entryBytes { e with state := s }) (.inl hthere)
    refine ⟨m', { stats with states := stats.states + 1 }, ?_, h.put hm'⟩
    unfold applyMap commandOf
    simp only [h.keyForHandle_eq hone, hi, Option.map_some, hlookup]
    rw [show VmCtx.fromBytes (entryBytes e) = ⟨e.handle, e.netnsInum, e.state⟩ from
      fromBytes_asBytes _]
    change (m.update kernel k (keyBytes i) (entryBytes { e with state := s }) >>= _) = _
    rw [hm']
    rfl
  | remove handle =>
    obtain ⟨i, hi, rfl⟩ := VmTable.step_remove_eq_some.1 hstep
    refine ⟨m.delete (keyBytes i), { stats with removes := stats.removes + 1 }, ?_, h.drop⟩
    unfold applyMap commandOf
    simp only [h.keyForHandle_eq hone, hi, Option.map_some]

/-- A call the table rejects is refused: its handle is under no key. -/
theorem Represents.applyMap_error (h : Represents m t) (hone : OneEach VmEntry.handle t)
    (hstep : t.step call = none) :
    ∃ e, applyMap kernel k m stats (commandOf call) = .error e := by
  have hfound {handle : UInt64} {i : UInt32} (hi : find VmEntry.handle t handle = some i) :
      ∃ e, t i = some e := by
    obtain ⟨e, he, -⟩ := (find_eq_some_iff hone).1 hi
    exact ⟨e, he⟩
  cases call with
  | add i handle netnsInum => cases hstep
  | state handle s =>
    cases hi : find VmEntry.handle t handle with
    | none =>
      refine ⟨"no entry for handle " ++ toString handle.toNat, ?_⟩
      unfold applyMap commandOf
      simp only [h.keyForHandle_eq hone, hi, Option.map_none]
    | some i =>
      obtain ⟨e, he⟩ := hfound hi
      have hsome : t.step (.state handle s) = some (Tagged.put t i { e with state := s }) :=
        VmTable.step_state_eq_some.2 ⟨i, e, hi, he, rfl⟩
      rw [hstep] at hsome
      cases hsome
  | remove handle =>
    cases hi : find VmEntry.handle t handle with
    | none =>
      refine ⟨"no entry for handle " ++ toString handle.toNat, ?_⟩
      unfold applyMap commandOf
      simp only [h.keyForHandle_eq hone, hi, Option.map_none]
    | some i =>
      have hsome := VmTable.step_remove_eq_some.2 ⟨i, hi, rfl⟩
      rw [hstep] at hsome
      cases hsome

end Serve

section Replies

variable {kernel : Kernel} {o : State} {line : String} {cmd : Command}

theorem serveLine_accepts {m : BpfMap} {stats : Stats} (h : reads line = .ok cmd)
    (hok : applyMap kernel o.served o.map o.stats cmd = .ok (m, stats)) :
    (serveLine kernel o line).1 = "ok" := by
  unfold serveLine apply
  rw [← reads, h]
  simp only [hok]
  rfl

theorem serveLine_rejects {e : String} (h : reads line = .ok cmd)
    (herror : applyMap kernel o.served o.map o.stats cmd = .error e) :
    (serveLine kernel o line).1 = "err " ++ e := by
  unfold serveLine apply
  rw [← reads, h]
  simp only [herror]
  rfl

theorem trim_err_ne_ok (e : String) : trim ("err " ++ e) ≠ "ok" := by
  have htext : ("err " ++ e).toList = 'e' :: ("rr ".toList ++ e.toList) := String.toList_append
  have hkeep : ('e' :: ("rr ".toList ++ e.toList)).dropWhile isWhite =
      'e' :: ("rr ".toList ++ e.toList) := List.dropWhile_cons_of_neg (by decide)
  have hprefix := List.reverse_prefix.2 (List.dropWhile_suffix isWhite
    (l := ('e' :: ("rr ".toList ++ e.toList)).reverse))
  rw [List.reverse_reverse] at hprefix
  intro hok
  have hlist := congrArg String.toList hok
  rw [trim, htext, hkeep, String.toList_ofList] at hlist
  have hfirst : "ok".toList = ['o', 'k'] := by decide
  rw [hlist, hfirst, List.cons_prefix_cons] at hprefix
  exact absurd hprefix.1 (by decide)

end Replies

end Owner

structure Attached where
  client : ControlClient
  owner : Owner.State

namespace Attached

open Owner

def new : Attached := ⟨.new, .new⟩

/-- A call made: its line goes to the owner, whose reply line comes back. -/
def call (kernel : Kernel) (d : Attached) (c : Call) : Except String Unit × Attached :=
  let (reply, owner) := serveLine kernel d.owner (c.line ++ "\n")
  let (result, client) := d.client.command (fun _ => .reply (reply ++ "\n")) c.line
  (result, ⟨client, owner⟩)

/-- The same owner, its map listed in another order. -/
structure Shuffled (o o' : State) : Prop where
  stats : o'.stats = o.stats
  served : o'.served = o.served
  entries : o.map.entries.Perm o'.map.entries

/-- One call, the kernel listing the map in any order it likes. -/
def Step (kernel : Kernel) (d : Attached) (c : Call) (result : Except String Unit)
    (d' : Attached) : Prop :=
  ∃ o, Shuffled d.owner o ∧ call kernel ⟨d.client, o⟩ c = (result, d')

/-- The calls made so far, from a fresh client and an empty map. -/
inductive Runs (kernel : Kernel) : List Call → Attached → Prop where
  | new : Runs kernel [] new
  | call {calls : List Call} {d d' : Attached} {c : Call} {result : Except String Unit}
    (hrun : Runs kernel calls d) (hstep : Step kernel d c result d') : Runs kernel (calls ++ [c]) d'

/-- Calls that ask for lifecycle states only, add no handle under two interfaces and never
put more interfaces in use than the map has room for. -/
structure Orderly (kernel : Kernel) (calls : List Call) : Prop where
  states : ∀ c ∈ calls, Lifecycle c
  handles : ∀ i j handle n n', .add i handle n ∈ calls → .add j handle n' ∈ calls → i = j
  capacity : ∀ earlier, earlier <+: calls →
    (occupied (VmTable.afterAll earlier)).ncard ≤ kernel.maxEntries

theorem Orderly.earlier {kernel : Kernel} {calls later : List Call}
    (h : Orderly kernel (calls ++ later)) : Orderly kernel calls where
  states c hc := h.states c (List.mem_append_left _ hc)
  handles i j handle n n' hi hj :=
    h.handles i j handle n n' (List.mem_append_left _ hi) (List.mem_append_left _ hj)
  capacity earlier hearlier := h.capacity earlier (hearlier.trans (List.prefix_append _ _))

/-- Every handle of the table was added under its interface. -/
def Added (calls : List Call) (t : VmTable) : Prop :=
  ∀ i handle, Has VmEntry.handle t i handle → ∃ n, .add i handle n ∈ calls

theorem Added.oneEach {kernel : Kernel} {calls : List Call} {t : VmTable} (h : Added calls t)
    (horderly : Orderly kernel calls) : OneEach VmEntry.handle t := by
  intro i j handle hi hj
  obtain ⟨n, hn⟩ := h i handle hi
  obtain ⟨n', hn'⟩ := h j handle hj
  exact horderly.handles i j handle n n' hn hn'

theorem Added.more {calls : List Call} {t : VmTable} (h : Added calls t) (c : Call) :
    Added (calls ++ [c]) t := by
  intro i handle hi
  obtain ⟨n, hn⟩ := h i handle hi
  exact ⟨n, List.mem_append_left _ hn⟩

/-- A call puts no handle under an interface but by adding it there. -/
theorem Added.after {calls : List Call} {t : VmTable} (h : Added calls t) (c : Call) :
    Added (calls ++ [c]) (t.after c) := by
  unfold VmTable.after
  cases hstep : t.step c with
  | none => exact h.more c
  | some t' =>
    rw [Option.getD_some]
    intro i handle hi
    obtain ⟨e, he, hhandle⟩ := hi
    cases c with
    | add j handle' n =>
      rw [← Option.some.inj hstep] at he
      by_cases hij : i = j
      · rw [hij, put_self] at he
        rw [← hhandle, ← Option.some.inj he, hij]
        exact ⟨n, List.mem_append_right _ List.mem_cons_self⟩
      · rw [put_of_ne hij] at he
        exact h.more _ i handle ⟨e, he, hhandle⟩
    | state handle' s =>
      obtain ⟨j, d, -, hd, rfl⟩ := VmTable.step_state_eq_some.1 hstep
      by_cases hij : i = j
      · rw [hij, put_self] at he
        rw [hij]
        refine h.more _ j handle ⟨d, hd, ?_⟩
        rw [← hhandle, ← Option.some.inj he]
      · rw [put_of_ne hij] at he
        exact h.more _ i handle ⟨e, he, hhandle⟩
    | remove handle' =>
      obtain ⟨j, -, rfl⟩ := VmTable.step_remove_eq_some.1 hstep
      by_cases hij : i = j
      · rw [hij, drop_self] at he
        cases he
      · rw [drop_of_ne hij] at he
        exact h.more _ i handle ⟨e, he, hhandle⟩

/-- A call leaves every interface but its own as it was. -/
theorem after_frame (t : VmTable) (c : Call) {j : UInt32} (hj : t.own c ≠ some j) :
    t.after c j = t j := by
  unfold VmTable.after
  cases hstep : t.step c with
  | none => rfl
  | some t' =>
    rw [Option.getD_some]
    cases c with
    | add i handle n =>
      have hne : j ≠ i := fun heq => hj (congrArg some heq.symm)
      rw [← Option.some.inj hstep, put_of_ne hne]
    | state handle s =>
      obtain ⟨i, e, hi, -, rfl⟩ := VmTable.step_state_eq_some.1 hstep
      have hne : j ≠ i := fun heq => hj (hi.trans (congrArg some heq.symm))
      rw [put_of_ne hne]
    | remove handle =>
      obtain ⟨i, hi, rfl⟩ := VmTable.step_remove_eq_some.1 hstep
      have hne : j ≠ i := fun heq => hj (hi.trans (congrArg some heq.symm))
      rw [drop_of_ne hne]

structure Holds (d : Attached) (t : VmTable) : Prop where
  inStep : d.client.poisoned = false
  map : Represents d.owner.map t

/-- What a call comes to over a channel in step. -/
theorem call_eq (kernel : Kernel) {client : ControlClient} (hp : client.poisoned = false)
    (o : State) (c : Call) : call kernel ⟨client, o⟩ c =
      (ControlClient.readReply c.line ((serveLine kernel o (c.line ++ "\n")).1 ++ "\n"),
        ⟨⟨false, client.sent + 1⟩, (serveLine kernel o (c.line ++ "\n")).2⟩) := by
  unfold call ControlClient.command
  simp only
  rw [if_neg (by rw [hp]; decide)]

/-- One call against the table: accepted and rejected alike, and the map holds the table
after it. -/
theorem Holds.step {kernel : Kernel} {d d' : Attached} {t : VmTable} {c : Call}
    {result : Except String Unit} (h : Holds d t) (hkernel : ∀ k, kernel.refuses k = none)
    (hone : OneEach VmEntry.handle t) (hlife : Lifecycle c)
    (hcapacity : (occupied (t.after c)).ncard ≤ kernel.maxEntries)
    (hstep : Step kernel d c result d') :
    (isOk result = true ↔ t.step c ≠ none) ∧ Holds d' (t.after c) := by
  obtain ⟨o, hshuffled, hcall⟩ := hstep
  have hmap := h.map.perm hshuffled.entries
  have hreads := reads_line hlife
  rw [call_eq kernel h.inStep] at hcall
  have hresult := congrArg Prod.fst hcall
  have hd' := congrArg Prod.snd hcall
  simp only at hresult hd'
  rw [← hresult, ← hd', readReply_isOk, trim_newline]
  cases hstep : t.step c with
  | none =>
    have herror : ∃ e, applyMap kernel o.served o.map o.stats (commandOf c) = .error e :=
      hmap.applyMap_error hone hstep
    obtain ⟨e, he⟩ := herror
    have hafter : t.after c = t := by rw [VmTable.after, hstep, Option.getD_none]
    rw [serveLine_rejects hreads he, hafter]
    refine ⟨?_, rfl, ?_⟩
    · simp only [trim_err_ne_ok, ne_eq, not_true_eq_false]
    · rw [serveLine_refused hreads he]
      exact hmap
  | some t' =>
    have hafter : t.after c = t' := by rw [VmTable.after, hstep, Option.getD_some]
    rw [hafter] at hcapacity ⊢
    have hok : ∃ m' stats', applyMap kernel o.served o.map o.stats (commandOf c) =
        .ok (m', stats') ∧ Represents m' t' :=
      hmap.applyMap_ok hone (hkernel o.served) hstep hcapacity
    obtain ⟨m', stats', hok, hmap'⟩ := hok
    have htrim : trim "ok" = "ok" := by decide
    rw [serveLine_accepts hreads hok]
    refine ⟨?_, rfl, ?_⟩
    · simp only [htrim, ne_eq, reduceCtorEq, not_false_eq_true]
    · rw [serveLine_map hreads hok]
      exact hmap'

theorem afterAll_concat (calls : List Call) (c : Call) :
    VmTable.afterAll (calls ++ [c]) = (VmTable.afterAll calls).after c := by
  rw [VmTable.afterAll, List.foldl_append]
  rfl

theorem added_afterAll (calls : List Call) : Added calls (VmTable.afterAll calls) := by
  induction calls using List.reverseRecOn with
  | nil =>
    intro i handle h
    obtain ⟨e, he, -⟩ := h
    cases he
  | append_singleton calls c ih =>
    rw [afterAll_concat]
    exact ih.after c

theorem holds_run {kernel : Kernel} (hkernel : ∀ k, kernel.refuses k = none) {calls : List Call}
    {d : Attached} (hrun : Runs kernel calls d) (horderly : Orderly kernel calls) :
    Holds d (VmTable.afterAll calls) := by
  induction hrun with
  | new => exact ⟨rfl, .empty⟩
  | @call calls d d' c result hrun hstep ih =>
    have hcapacity := horderly.capacity _ (List.prefix_refl _)
    rw [afterAll_concat] at hcapacity ⊢
    have hlife := horderly.states c (List.mem_append_right _ List.mem_cons_self)
    have hone := (added_afterAll calls).oneEach horderly.earlier
    exact ((ih horderly.earlier).step hkernel hone hlife hcapacity hstep).2

/-- The sixteen bytes of an entry: its handle, its namespace and its state at their offsets. -/
def Decodes (b : List UInt8) (e : VmEntry) : Prop :=
  b.length = 16 ∧ leValue (b.take 8) = e.handle.toNat ∧
    leValue ((b.drop 8).take 4) = e.netnsInum.toNat ∧ b[12]? = some e.state

theorem decodes_entryBytes (e : VmEntry) : Decodes (entryBytes e) e :=
  ⟨(asBytes_state _).1, asBytes_vmId _, asBytes_netnsInum _, (asBytes_state _).2⟩

/-- Every step of every orderly run: the call is accepted exactly when the table accepts it,
the map then holds the table after it, each entry's bytes decode to the entry, and the bytes
under every other interface are those of before. -/
theorem owner_simulates {kernel : Kernel} (hkernel : ∀ k, kernel.refuses k = none)
    {calls : List Call} {c : Call} {d d' : Attached} {result : Except String Unit}
    (horderly : Orderly kernel (calls ++ [c])) (hrun : Runs kernel calls d)
    (hstep : Step kernel d c result d') :
    (isOk result = true ↔ (VmTable.afterAll calls).step c ≠ none) ∧
    Represents d'.owner.map (VmTable.afterAll (calls ++ [c])) ∧
    (∀ i e, VmTable.afterAll (calls ++ [c]) i = some e →
      ∃ b, d'.owner.map.lookup (keyBytes i) = some b ∧ Decodes b e) ∧
    ∀ j, (VmTable.afterAll calls).own c ≠ some j →
      d'.owner.map.lookup (keyBytes j) = d.owner.map.lookup (keyBytes j) := by
  have hholds := holds_run hkernel hrun horderly.earlier
  have hone := (added_afterAll calls).oneEach horderly.earlier
  have hcapacity := horderly.capacity _ (List.prefix_refl _)
  rw [afterAll_concat] at hcapacity ⊢
  have hlife := horderly.states c (List.mem_append_right _ List.mem_cons_self)
  obtain ⟨hsame, hholds'⟩ := hholds.step hkernel hone hlife hcapacity hstep
  refine ⟨hsame, hholds'.map, fun i e he => ?_, fun j hj => ?_⟩
  · refine ⟨entryBytes e, ?_, decodes_entryBytes e⟩
    rw [hholds'.map.bytes, he]
    rfl
  · rw [hholds'.map.bytes, hholds.map.bytes, after_frame _ _ hj]

def added : Call → Option UInt32
  | .add ifindex _ _ => some ifindex
  | _ => none

/-- No more interfaces are ever in use than were added. -/
theorem occupied_le (calls : List Call) :
    (occupied (VmTable.afterAll calls)).ncard ≤ (calls.filterMap added).toFinset.card := by
  rw [← Set.ncard_coe_finset]
  refine Set.ncard_le_ncard (fun i hi => ?_) (Finset.finite_toSet _)
  obtain ⟨e, he⟩ := Option.ne_none_iff_exists'.1 hi
  obtain ⟨n, hn⟩ := added_afterAll calls i e.handle ⟨e, he, rfl⟩
  rw [List.coe_toFinset]
  exact List.mem_filterMap.2 ⟨_, hn, rfl⟩

theorem exists_run (kernel : Kernel) (calls : List Call) : ∃ d, Runs kernel calls d := by
  induction calls using List.reverseRecOn with
  | nil => exact ⟨new, .new⟩
  | append_singleton calls c ih =>
    obtain ⟨d, hd⟩ := ih
    exact ⟨_, hd.call ⟨d.owner, ⟨rfl, rfl, List.Perm.refl _⟩, rfl⟩⟩

section Example

/-- Two VMs registered in a map with room for two, one of them paused. -/
def pauseCalls : List Call := [.add 11 0 7, .add 12 1 7, .state 1 lifecyclePaused]

def twoPlaces : Kernel := ⟨2, fun _ => none, fun k => k⟩

theorem pauseCalls_orderly : Orderly twoPlaces (pauseCalls ++ [.remove 1]) where
  states c hc handle s heq := by
    subst heq
    simp only [pauseCalls, List.cons_append, List.nil_append, List.mem_cons, reduceCtorEq,
      List.not_mem_nil, Call.state.injEq, or_false, false_or] at hc
    rw [hc.2]
    decide
  handles i j handle n n' hi hj := by
    simp only [pauseCalls, List.cons_append, List.nil_append, List.mem_cons, reduceCtorEq,
      List.not_mem_nil, Call.add.injEq, or_false] at hi hj
    rcases hi with ⟨rfl, rfl, -⟩ | ⟨rfl, rfl, -⟩
    · rcases hj with ⟨rfl, -, -⟩ | ⟨-, hh, -⟩
      · rfl
      · exact absurd hh (by decide)
    · rcases hj with ⟨-, hh, -⟩ | ⟨rfl, -, -⟩
      · exact absurd hh (by decide)
      · rfl
  capacity earlier hearlier := by
    refine (occupied_le earlier).trans ?_
    have hsub : (earlier.filterMap added).toFinset ⊆
        ((pauseCalls ++ [Call.remove 1]).filterMap added).toFinset := by
      intro i hi
      rw [List.mem_toFinset] at hi ⊢
      exact (hearlier.sublist.filterMap added).subset hi
    exact (Finset.card_le_card hsub).trans (by decide)

theorem pauseCalls_simulated : ∃ d d' result, Runs twoPlaces pauseCalls d ∧
    Step twoPlaces d (.remove 1) result d' ∧
    (isOk result = true ↔ (VmTable.afterAll pauseCalls).step (.remove 1) ≠ none) ∧
    Represents d'.owner.map (VmTable.afterAll (pauseCalls ++ [.remove 1])) ∧
    (∀ i e, VmTable.afterAll (pauseCalls ++ [.remove 1]) i = some e →
      ∃ b, d'.owner.map.lookup (keyBytes i) = some b ∧ Decodes b e) ∧
    ∀ j, (VmTable.afterAll pauseCalls).own (.remove 1) ≠ some j →
      d'.owner.map.lookup (keyBytes j) = d.owner.map.lookup (keyBytes j) := by
  obtain ⟨d, hrun⟩ := exists_run twoPlaces pauseCalls
  have hstep : Step twoPlaces d (.remove 1) (call twoPlaces d (.remove 1)).1
      (call twoPlaces d (.remove 1)).2 := ⟨d.owner, ⟨rfl, rfl, List.Perm.refl _⟩, rfl⟩
  exact ⟨d, _, _, hrun, hstep, owner_simulates (fun _ => rfl) pauseCalls_orderly hrun hstep⟩

end Example

end Attached

end Assayist
