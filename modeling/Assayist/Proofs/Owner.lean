import Assayist.Lib.Keyed
import Assayist.Lib.Results
import Assayist.Proofs.Text
import Assayist.Spec.Owner

/-! What the owner makes of the orchestrator's commands: the three lines parse to the
commands they were written from, and a served line adds, keeps or removes one handle. -/

namespace Assayist

namespace Owner

section Bytes

@[simp] theorem length_leBytes (width n : ℕ) : (leBytes width n).length = width := by
  induction width generalizing n with
  | zero => rfl
  | succ width ih => rw [leBytes, List.length_cons, ih]

theorem leValue_leBytes (width n : ℕ) : leValue (leBytes width n) = n % 256 ^ width := by
  induction width generalizing n with
  | zero => rw [leBytes, leValue, pow_zero, Nat.mod_one]
  | succ width ih =>
    have hbyte : (UInt8.ofNat (n % 256)).toNat = n % 256 := by
      rw [UInt8.toNat_ofNat']
      exact Nat.mod_mod_of_dvd n (by decide)
    rw [leBytes, leValue, ih, hbyte, pow_succ', Nat.mod_mul]

theorem asBytes_vmId (v : VmCtx) : leValue (v.asBytes.take 8) = v.vmId.toNat := by
  rw [VmCtx.asBytes, List.append_assoc, List.take_left' (length_leBytes 8 _), leValue_leBytes]
  exact Nat.mod_eq_of_lt v.vmId.toNat_lt

theorem asBytes_netnsInum (v : VmCtx) :
    leValue ((v.asBytes.drop 8).take 4) = v.netnsInum.toNat := by
  rw [VmCtx.asBytes, List.append_assoc, List.drop_left' (length_leBytes 8 _),
    List.take_left' (length_leBytes 4 _), leValue_leBytes]
  exact Nat.mod_eq_of_lt v.netnsInum.toNat_lt

theorem asBytes_state (v : VmCtx) :
    v.asBytes.length = 16 ∧ v.asBytes[12]? = some v.lifecycleState := by
  apply And.intro
  · simp [VmCtx.asBytes]
  · have hlength : (leBytes 8 v.vmId.toNat ++ leBytes 4 v.netnsInum.toNat).length = 12 := by simp
    rw [VmCtx.asBytes, List.getElem?_append_right (by rw [hlength]), hlength]
    rfl

theorem fromBytes_asBytes (v : VmCtx) : VmCtx.fromBytes v.asBytes = v := by
  have hstate : v.asBytes.getD 12 0 = v.lifecycleState := by
    rw [List.getD_eq_getElem?_getD, (asBytes_state v).2, Option.getD_some]
  unfold VmCtx.fromBytes
  rw [asBytes_vmId, asBytes_netnsInum, hstate, UInt64.ofNat_toNat, UInt32.ofNat_toNat]

end Bytes

section Words

/-- A word: some characters, none of them white. -/
def Word (w : List Char) : Prop := w ≠ [] ∧ ∀ c ∈ w, isWhite c = false

theorem word_of_all {w : List Char} (h : (!w.isEmpty && w.all fun c => !isWhite c) = true) :
    Word w := by
  rw [Bool.and_eq_true, Bool.not_eq_true', List.isEmpty_eq_false_iff] at h
  refine ⟨h.1, fun c hc => ?_⟩
  have hc' := List.all_eq_true.1 h.2 c hc
  rwa [Bool.not_eq_true'] at hc'

theorem wordsOf_single {w : List Char} (h : Word w) : wordsOf w = [w] := by
  rw [wordsOf, List.splitOnP_eq_singleton h.2]
  simp [h.1]

theorem wordsOf_cons {w : List Char} (h : Word w) (rest : List Char) :
    wordsOf (w ++ ' ' :: rest) = w :: wordsOf rest := by
  rw [wordsOf, List.splitOnP_append_cons_of_forall_mem h.2 ' ' (by decide)]
  simp [h.1, wordsOf]

theorem word_digits (n : ℕ) : Word (toString n).toList := by
  have hlist : (toString n).toList = Nat.toDigits 10 n := Nat.toList_repr
  rw [hlist]
  refine ⟨Nat.toDigits_ne_nil, fun c hc => ?_⟩
  have hdigit : c.isDigit = true := Nat.isDigit_of_mem_toDigits (by decide) (by decide) hc
  obtain ⟨hlow, hhigh⟩ : 48 ≤ c.toNat ∧ c.toNat ≤ 57 := by
    simpa [Char.isDigit, UInt32.le_iff_toNat_le] using hdigit
  unfold isWhite
  simp
  omega

/-- Trimming leaves alone what neither starts nor ends with white space. -/
theorem trim_eq_self {s : String} (hfirst : ∀ c ∈ s.toList.head?, isWhite c = false)
    (hlast : ∀ c ∈ s.toList.getLast?, isWhite c = false) : trim s = s := by
  have hdrop (cs : List Char) (h : ∀ c ∈ cs.head?, isWhite c = false) :
      cs.dropWhile isWhite = cs := by
    cases cs with
    | nil => rfl
    | cons c cs => rw [List.dropWhile_cons, h c rfl, if_neg Bool.false_ne_true]
  rw [trim, hdrop _ hfirst, hdrop, List.reverse_reverse, String.ofList_toList]
  rwa [List.head?_reverse]

end Words

section Parse

theorem le_ofDigitChars (cs : List Char) (acc : ℕ) : acc ≤ Nat.ofDigitChars 10 cs acc := by
  induction cs generalizing acc with
  | nil => exact le_rfl
  | cons c cs ih =>
    rw [Nat.ofDigitChars_cons]
    have hnext := ih (10 * acc + (c.toNat - '0'.toNat))
    omega

theorem digitsBelow_eq {bound acc : ℕ} (hacc : acc < bound) {cs : List Char}
    (h : ∀ c ∈ cs, c.isDigit = true) :
    digitsBelow bound acc cs =
      if Nat.ofDigitChars 10 cs acc < bound then .ok (Nat.ofDigitChars 10 cs acc)
      else .error "number too large to fit in target type" := by
  induction cs generalizing acc with
  | nil => rw [digitsBelow, Nat.ofDigitChars_nil, if_pos hacc]
  | cons c cs ih =>
    have hc : c.isDigit = true := h c List.mem_cons_self
    rw [digitsBelow, if_neg (by rw [hc]; decide), Nat.ofDigitChars_cons, Nat.mul_comm 10]
    by_cases hnext : acc * 10 + (c.toNat - '0'.toNat) < bound
    · exact (if_pos hnext).trans (ih hnext fun d hd => h d (List.mem_cons_of_mem _ hd))
    · have hle := le_ofDigitChars cs (acc * 10 + (c.toNat - '0'.toNat))
      exact (if_neg hnext).trans (if_neg (by omega)).symm

/-- The decimal text of a number, read back within a bound. -/
theorem parseUnsigned_nat {bound : ℕ} (hbound : 0 < bound) (n : ℕ) :
    parseUnsigned bound (toString n).toList =
      if n < bound then .ok n else .error "number too large to fit in target type" := by
  obtain ⟨c, cs, hlist, hplus, hdigits, hvalue⟩ := toList_nat n
  have hbelow := digitsBelow_eq hbound hdigits
  rw [hvalue] at hbelow
  rw [hlist, ← hbelow]
  unfold parseUnsigned
  split
  · next heq => cases heq
  · next heq => exact absurd (List.cons.inj heq).1 hplus
  · next heq => exact absurd (List.cons.inj heq).1 hplus
  · rfl

theorem parseU32_toString (n : UInt32) : parseU32 (toString n.toNat).toList = .ok n := by
  rw [parseU32, parseUnsigned_nat (by decide), if_pos n.toNat_lt]
  exact congrArg Except.ok UInt32.ofNat_toNat

theorem parseHandle_nat (h : ℕ) :
    parseHandle (toString h).toList =
      if h < 2 ^ 64 then .ok (.ofNat h) else .error "number too large to fit in target type" := by
  rw [parseHandle, parseUnsigned_nat (by decide)]
  split <;> rfl

end Parse

section Lines

theorem addLine_toList (ifindex : UInt32) (h : ℕ) (netnsInum : UInt32) :
    (addLine ifindex h netnsInum).toList =
      "add".toList ++ ' ' :: ((toString ifindex.toNat).toList ++ ' ' :: ((toString h).toList ++
        ' ' :: (toString netnsInum.toNat).toList)) := by
  simp [addLine, String.toList_append]

theorem stateLine_toList (h : ℕ) (s : UInt8) :
    (stateLine h s).toList =
      "state".toList ++ ' ' :: ((toString h).toList ++ ' ' :: (stateName s).toList) := by
  simp [stateLine, String.toList_append]

theorem removeLine_toList (h : ℕ) :
    (removeLine h).toList = "remove".toList ++ ' ' :: (toString h).toList := by
  simp [removeLine, String.toList_append]

theorem wordsOf_addLine (ifindex : UInt32) (h : ℕ) (netnsInum : UInt32) :
    wordsOf (addLine ifindex h netnsInum).toList =
      ["add".toList, (toString ifindex.toNat).toList, (toString h).toList,
        (toString netnsInum.toNat).toList] := by
  rw [addLine_toList, wordsOf_cons (word_of_all (by decide)), wordsOf_cons (word_digits _),
    wordsOf_cons (word_digits _), wordsOf_single (word_digits _)]

theorem word_stateName (s : UInt8) : Word (stateName s).toList := by
  unfold stateName
  split_ifs <;> exact word_of_all (by decide)

theorem wordsOf_stateLine (h : ℕ) (s : UInt8) :
    wordsOf (stateLine h s).toList =
      ["state".toList, (toString h).toList, (stateName s).toList] := by
  rw [stateLine_toList, wordsOf_cons (word_of_all (by decide)), wordsOf_cons (word_digits _),
    wordsOf_single (word_stateName s)]

theorem wordsOf_removeLine (h : ℕ) :
    wordsOf (removeLine h).toList = ["remove".toList, (toString h).toList] := by
  rw [removeLine_toList, wordsOf_cons (word_of_all (by decide)), wordsOf_single (word_digits _)]

theorem addLine_handle {i j l m : UInt32} {a b : ℕ} (h : addLine i a l = addLine j b m) :
    a = b := by
  have hwords := congrArg (fun s => wordsOf s.toList) h
  simp only [wordsOf_addLine, List.cons.injEq] at hwords
  exact toString_nat_inj (String.toList_inj.1 hwords.2.2.1)

theorem removeLine_inj {a b : ℕ} (h : removeLine a = removeLine b) : a = b := by
  have hwords := congrArg (fun s => wordsOf s.toList) h
  simp only [wordsOf_removeLine, List.cons.injEq] at hwords
  exact toString_nat_inj (String.toList_inj.1 hwords.2.1)

def verb (line : String) : Option (List Char) := (wordsOf line.toList).head?

@[simp] theorem verb_addLine (i m : UInt32) (h : ℕ) : verb (addLine i h m) = some "add".toList := by
  rw [verb, wordsOf_addLine, List.head?_cons]

@[simp] theorem verb_stateLine (h : ℕ) :
    verb (stateLine h lifecycleRunning) = some "state".toList := by
  rw [verb, wordsOf_stateLine, List.head?_cons]

@[simp] theorem verb_removeLine (h : ℕ) : verb (removeLine h) = some "remove".toList := by
  rw [verb, wordsOf_removeLine, List.head?_cons]

theorem ne_of_verb {a b : String} (h : verb a ≠ verb b) : a ≠ b := fun heq => h (heq ▸ rfl)

/-- A line of words has no white space at its ends. -/
theorem trim_words {s : String} (first mid last : List Char) (hfirst : Word first)
    (hlast : Word last) (h : s.toList = first ++ mid ++ last) : trim s = s := by
  refine trim_eq_self (fun c hc => ?_) fun c hc => ?_
  · rw [h, List.append_assoc, List.head?_append_of_ne_nil _ hfirst.1] at hc
    exact hfirst.2 c (List.mem_of_mem_head? hc)
  · rw [h, List.getLast?_append_of_ne_nil _ hlast.1] at hc
    exact hlast.2 c (List.mem_of_mem_getLast? hc)

def reads (line : String) : Except String Command := parseCommand (trim line)

theorem reads_addLine (ifindex : UInt32) (h : ℕ) (netnsInum : UInt32) :
    reads (addLine ifindex h netnsInum) =
      if h < 2 ^ 64 then .ok (.add ifindex (.ofNat h) netnsInum)
      else .error "number too large to fit in target type" := by
  have htrim : trim (addLine ifindex h netnsInum) = addLine ifindex h netnsInum := by
    refine trim_words "add".toList
      (' ' :: ((toString ifindex.toNat).toList ++ ' ' :: ((toString h).toList ++ [' '])))
      (toString netnsInum.toNat).toList (word_of_all (by decide)) (word_digits _) ?_
    rw [addLine_toList]
    simp
  rw [reads, htrim, parseCommand, wordsOf_addLine]
  simp only [nextField, bind, Except.bind, String.ofList_toList, parseU32_toString, parseHandle_nat]
  by_cases hbound : h < 2 ^ 64
  · rw [if_pos hbound, if_pos hbound]
    rfl
  · rw [if_neg hbound, if_neg hbound]

def lifecycleStates : List UInt8 :=
  [lifecycleRunning, lifecyclePausing, lifecyclePaused, lifecycleResuming]

theorem stateFromName_stateName {s : UInt8} (hs : s ∈ lifecycleStates) :
    stateFromName (stateName s).toList = some s := by
  simp only [lifecycleStates, List.mem_cons, List.not_mem_nil, or_false] at hs
  rcases hs with rfl | rfl | rfl | rfl <;> decide

theorem reads_stateLine (h : ℕ) {s : UInt8} (hs : s ∈ lifecycleStates) :
    reads (stateLine h s) =
      if h < 2 ^ 64 then .ok (.state (.ofNat h) s)
      else .error "number too large to fit in target type" := by
  have htrim : trim (stateLine h s) = stateLine h s := by
    refine trim_words "state".toList (' ' :: ((toString h).toList ++ [' '])) (stateName s).toList
      (word_of_all (by decide)) (word_stateName s) ?_
    rw [stateLine_toList]
    simp
  rw [reads, htrim, parseCommand, wordsOf_stateLine]
  simp only [nextField, bind, Except.bind, String.ofList_toList, parseHandle_nat,
    stateFromName_stateName hs]
  by_cases hbound : h < 2 ^ 64
  · rw [if_pos hbound, if_pos hbound]
    rfl
  · rw [if_neg hbound, if_neg hbound]

theorem reads_removeLine (h : ℕ) :
    reads (removeLine h) =
      if h < 2 ^ 64 then .ok (.remove (.ofNat h))
      else .error "number too large to fit in target type" := by
  have htrim : trim (removeLine h) = removeLine h := by
    refine trim_words "remove".toList [' '] (toString h).toList (word_of_all (by decide))
      (word_digits _) ?_
    rw [removeLine_toList]
    simp
  rw [reads, htrim, parseCommand, wordsOf_removeLine]
  simp only [nextField, bind, Except.bind, String.ofList_toList, parseHandle_nat]
  by_cases hbound : h < 2 ^ 64
  · rw [if_pos hbound, if_pos hbound]
    rfl
  · rw [if_neg hbound, if_neg hbound]

end Lines

section Map

variable {kernel : Kernel} {k : ℕ} {m m' : BpfMap} {key value : List UInt8}

def carries (e : List UInt8 × List UInt8) : UInt64 := (VmCtx.fromBytes e.2).vmId

theorem others_sublist (m : BpfMap) (key : List UInt8) :
    (m.others key).Sublist m.entries := List.filter_sublist

theorem entries_perm (h : m.lookup key = some value) :
    m.entries.Perm ((key, value) :: m.others key) := Keyed.perm_others m.nodup h

theorem lookup_of_mem {e : List UInt8 × List UInt8} (he : e ∈ m.entries) :
    m.lookup e.1 = some e.2 := Keyed.lookup_of_mem m.nodup he

theorem update_perm (h : m.update kernel k key value = .ok m') :
    m'.entries.Perm ((key, value) :: m.others key) := by
  unfold BpfMap.update at h
  split at h
  · cases h
  · split at h
    · cases h
    · rw [← Except.ok.inj h]
      exact BpfMap.placed_perm _ _ _

/-- The key found for a handle is one that carries it. -/
theorem keyForHandle_some {handle : UInt64} (h : keyForHandle m handle = some key) :
    ∃ v, m.lookup key = some v ∧ (VmCtx.fromBytes v).vmId = handle := by
  have hp := List.find?_some h
  cases hv : m.lookup key with
  | none => simp [hv] at hp
  | some v => exact ⟨v, rfl, by simpa [hv] using hp⟩

theorem keyForHandle_none {handle : UInt64} (h : keyForHandle m handle = none) :
    handle ∉ m.entries.map carries := by
  intro hmem
  obtain ⟨e, he, rfl⟩ := List.mem_map.1 hmem
  have hkey : e.1 ∈ m.keys := List.mem_map_of_mem he
  have hno := List.find?_eq_none.1 h e.1 hkey
  rw [lookup_of_mem he] at hno
  exact hno (beq_self_eq_true _)

end Map

section Serve

variable {kernel : Kernel}

theorem handles_eq (o : State) : o.handles = o.map.entries.map carries := rfl

theorem serveLine_error {o : State} {line e : String} (h : reads line = .error e) :
    (serveLine kernel o line).2.map = o.map := by
  unfold serveLine
  rw [← reads, h]

theorem serveLine_refused {o : State} {line e : String} {cmd : Command}
    (h : reads line = .ok cmd) (hrefused : applyMap kernel o.served o.map o.stats cmd = .error e) :
    (serveLine kernel o line).2.map = o.map := by
  have happly : apply kernel o.served o.map o.stats cmd = .error e := by
    rw [apply, hrefused]
    rfl
  unfold serveLine
  rw [← reads, h]
  simp only [happly]

theorem serveLine_map {o : State} {line : String} {cmd : Command} {r : BpfMap × Stats}
    (h : reads line = .ok cmd) (hok : applyMap kernel o.served o.map o.stats cmd = .ok r) :
    (serveLine kernel o line).2.map = r.1 := by
  unfold serveLine apply
  rw [← reads, h]
  simp only [hok]
  rfl

theorem applyMap_add {k : ℕ} {m : BpfMap} {stats : Stats} {r : BpfMap × Stats}
    {ifindex netnsInum : UInt32} {h : UInt64}
    (hok : applyMap kernel k m stats (.add ifindex h netnsInum) = .ok r) :
    m.update kernel k (leBytes 4 ifindex.toNat)
      (VmCtx.asBytes ⟨h, netnsInum, lifecycleRunning⟩) = .ok r.1 := by
  unfold applyMap at hok
  cases hupdate : m.update kernel k (leBytes 4 ifindex.toNat)
      (VmCtx.asBytes ⟨h, netnsInum, lifecycleRunning⟩) with
  | error e =>
    simp only [hupdate] at hok
    cases hok
  | ok m' =>
    simp only [hupdate] at hok
    rw [← Except.ok.inj hok]

theorem applyMap_state {k : ℕ} {m : BpfMap} {stats : Stats} {r : BpfMap × Stats} {h : UInt64}
    {s : UInt8} (hok : applyMap kernel k m stats (.state h s) = .ok r) :
    ∃ key cur, m.lookup key = some cur ∧ (VmCtx.fromBytes cur).vmId = h ∧
      m.update kernel k key
        (VmCtx.asBytes { VmCtx.fromBytes cur with lifecycleState := s }) = .ok r.1 := by
  unfold applyMap at hok
  cases hkey : keyForHandle m h with
  | none =>
    simp only [hkey] at hok
    cases hok
  | some key =>
    obtain ⟨cur, hcur, hid⟩ := keyForHandle_some hkey
    simp only [hkey, hcur] at hok
    obtain ⟨m', hupdate, hr⟩ := Results.bind_eq_ok.1 hok
    rw [← Except.ok.inj hr]
    exact ⟨key, cur, hcur, hid, hupdate⟩

theorem applyMap_remove {k : ℕ} {m : BpfMap} {stats : Stats} {r : BpfMap × Stats} {h : UInt64}
    (hok : applyMap kernel k m stats (.remove h) = .ok r) :
    ∃ key cur, m.lookup key = some cur ∧ (VmCtx.fromBytes cur).vmId = h ∧ r.1 = m.delete key := by
  unfold applyMap at hok
  cases hkey : keyForHandle m h with
  | none =>
    simp only [hkey] at hok
    cases hok
  | some key =>
    obtain ⟨cur, hcur, hid⟩ := keyForHandle_some hkey
    simp only [hkey] at hok
    rw [← Except.ok.inj hok]
    exact ⟨key, cur, hcur, hid, rfl⟩

theorem applyMap_remove_error {k : ℕ} {m : BpfMap} {stats : Stats} {e : String} {h : UInt64}
    (herror : applyMap kernel k m stats (.remove h) = .error e) : h ∉ m.entries.map carries := by
  unfold applyMap at herror
  cases hkey : keyForHandle m h with
  | none => exact keyForHandle_none hkey
  | some key =>
    simp only [hkey] at herror
    cases herror

/-- What a line can do to the handles the map holds. -/
inductive Changes (line : String) : List UInt64 → List UInt64 → Prop where
  /-- Nothing, and then not by refusing to remove one it holds. -/
  | none {hs : List UInt64} (h : ∀ handle, reads line = .ok (.remove handle) → handle ∉ hs) :
    Changes line hs hs
  /-- One is added, in the place of some. -/
  | add {hs hs' kept : List UInt64} {ifindex netnsInum : UInt32} {handle : UInt64}
    (h : reads line = .ok (.add ifindex handle netnsInum)) (hkept : kept.Sublist hs)
    (hperm : hs'.Perm (handle :: kept)) : Changes line hs hs'
  /-- They are the same, in another order. -/
  | state {hs hs' : List UInt64} {handle : UInt64} {s : UInt8}
    (h : reads line = .ok (.state handle s)) (hperm : hs'.Perm hs) : Changes line hs hs'
  /-- One is removed. -/
  | remove {hs hs' : List UInt64} {handle : UInt64} (h : reads line = .ok (.remove handle))
    (hperm : hs.Perm (handle :: hs')) : Changes line hs hs'

theorem serveLine_changes (o : State) (line : String) :
    Changes line o.handles (serveLine kernel o line).2.handles := by
  cases hreads : reads line with
  | error e =>
    rw [handles_eq, handles_eq, serveLine_error hreads]
    exact .none fun h hremove => by rw [hreads] at hremove; cases hremove
  | ok cmd =>
    cases happly : applyMap kernel o.served o.map o.stats cmd with
    | error e =>
      rw [handles_eq, handles_eq, serveLine_refused hreads happly]
      refine .none fun h hremove => ?_
      obtain rfl := Except.ok.inj (hreads.symm.trans hremove)
      exact applyMap_remove_error happly
    | ok r =>
      rw [handles_eq, handles_eq, serveLine_map hreads happly]
      cases cmd with
      | add ifindex h netnsInum =>
        have hperm := (update_perm (applyMap_add happly)).map carries
        rw [List.map_cons, carries, fromBytes_asBytes] at hperm
        exact .add hreads ((others_sublist _ _).map carries) hperm
      | state h s =>
        obtain ⟨key, cur, hlookup, hcur, hupdate⟩ := applyMap_state happly
        have hperm := (update_perm hupdate).map carries
        rw [List.map_cons, carries, fromBytes_asBytes] at hperm
        exact .state hreads (hperm.trans ((entries_perm hlookup).map carries).symm)
      | remove h =>
        obtain ⟨key, cur, hlookup, hcur, hm⟩ := applyMap_remove happly
        have hperm := (entries_perm hlookup).map carries
        rw [List.map_cons, carries, hcur] at hperm
        rw [hm]
        exact .remove hreads hperm

theorem serve_concat (o : State) (lines : List String) (line : String) :
    serve kernel o (lines ++ [line]) = (serveLine kernel (serve kernel o lines) line).2 := by
  rw [serve, List.foldl_append]
  rfl

end Serve

section Tracked

/-- Handles below `next`, of which each from `n` on is held at most once. -/
structure Tracked (n next : ℕ) (hs : List UInt64) : Prop where
  below : ∀ h ∈ hs, h.toNat < next
  once : ∀ h, n ≤ h.toNat → hs.count h ≤ 1

variable {n next : ℕ} {hs hs' : List UInt64}

theorem Tracked.of_below (h : ∀ handle ∈ hs, handle.toNat < n) : Tracked n n hs where
  below := h
  once handle hn := by
    have hnone : handle ∉ hs := fun hmem => absurd (h handle hmem) (by omega)
    rw [List.count_eq_zero_of_not_mem hnone]
    exact Nat.zero_le 1

theorem Tracked.sublist (h : Tracked n next hs) (hsub : hs'.Subperm hs) : Tracked n next hs' where
  below handle hmem := h.below handle (hsub.subset hmem)
  once handle hn := (hsub.count_le handle).trans (h.once handle hn)

/-- What cannot be both. -/
theorem reads_ne {line : String} {h : ℕ} {cmd cmd' : Command} {e : String}
    (hline : reads line = if h < 2 ^ 64 then .ok cmd else .error e)
    (hreads : reads line = .ok cmd') : h < 2 ^ 64 ∧ cmd = cmd' := by
  rw [hline] at hreads
  split at hreads
  · next hfits => exact ⟨hfits, Except.ok.inj hreads⟩
  · cases hreads

/-- Adding the next handle, accepted or not. -/
theorem Tracked.add (h : Tracked n next hs) {i m : UInt32}
    (hchanges : Changes (addLine i next m) hs hs') : Tracked n (next + 1) hs' := by
  have hweak : Tracked n (next + 1) hs :=
    ⟨fun handle hmem => (h.below handle hmem).trans (Nat.lt_succ_self next), h.once⟩
  cases hchanges with
  | none => exact hweak
  | add hadd hkept hperm =>
    obtain ⟨hfits, heq⟩ := reads_ne (reads_addLine i next m) hadd
    obtain ⟨-, rfl, -⟩ := Command.add.inj heq
    have hnat : (UInt64.ofNat next).toNat = next := UInt64.toNat_ofNat_of_lt hfits
    refine ⟨fun g hg => ?_, fun g hg => ?_⟩
    · rcases List.mem_cons.1 (hperm.mem_iff.1 hg) with rfl | hg
      · omega
      · exact hweak.below g (hkept.subset hg)
    · rw [hperm.count_eq, List.count_cons]
      by_cases heq : UInt64.ofNat next = g
      · have hnone : g ∉ _ := fun hmem => absurd (h.below g (hkept.subset hmem)) (by
          rw [← heq, hnat]
          omega)
        rw [List.count_eq_zero_of_not_mem hnone, heq, beq_self_eq_true, if_pos rfl]
      · rw [if_neg (by simpa using heq)]
        exact (hkept.count_le g).trans (h.once g hg)
  | state hstate => exact Command.noConfusion (reads_ne (reads_addLine i next m) hstate).2
  | remove hremove => exact Command.noConfusion (reads_ne (reads_addLine i next m) hremove).2

theorem Tracked.state (h : Tracked n next hs) {handle : ℕ}
    (hchanges : Changes (stateLine handle lifecycleRunning) hs hs') : Tracked n next hs' := by
  cases hchanges with
  | none => exact h
  | add hadd => exact Command.noConfusion (reads_ne (reads_stateLine handle (by decide)) hadd).2
  | state _ hperm => exact h.sublist hperm.subperm
  | remove hremove =>
    exact Command.noConfusion (reads_ne (reads_stateLine handle (by decide)) hremove).2

/-- Removing a handle: none is added, and one that was held at most once is gone. -/
theorem Tracked.remove (h : Tracked n next hs) {handle : ℕ} (hn : n ≤ handle)
    (hchanges : Changes (removeLine handle) hs hs') :
    Tracked n next hs' ∧ (∀ g ∈ hs', g ∈ hs) ∧ ∀ g ∈ hs', g.toNat ≠ handle := by
  cases hchanges with
  | none hno =>
    refine ⟨h, fun _ hg => hg, fun g hg heq => ?_⟩
    subst heq
    refine hno g ?_ hg
    rw [reads_removeLine, if_pos g.toNat_lt, UInt64.ofNat_toNat]
  | add hadd => exact Command.noConfusion (reads_ne (reads_removeLine handle) hadd).2
  | state hstate => exact Command.noConfusion (reads_ne (reads_removeLine handle) hstate).2
  | remove hremove hperm =>
    obtain ⟨hfits, heq⟩ := reads_ne (reads_removeLine handle) hremove
    obtain rfl := Command.remove.inj heq
    have hsub : hs'.Subperm hs := (List.sublist_cons_self _ hs').subperm.trans hperm.symm.subperm
    refine ⟨h.sublist hsub, fun g hg => hsub.subset hg, fun g hg heq => ?_⟩
    have honce := h.once g (by omega)
    rw [hperm.count_eq, ← heq, UInt64.ofNat_toNat, List.count_cons_self] at honce
    have hpos := List.count_pos_iff.2 hg
    omega

end Tracked

end Owner

end Assayist
