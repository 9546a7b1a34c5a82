import Assayist.Lib.Pairing
import Assayist.Spec.Kvm
import Mathlib.Data.Nat.Log

/-! The kvm gadget's histograms: what they count is, for each thread on its own, the time from
an exit to the entry that follows it, however the events of the threads are interleaved. -/

namespace Assayist

section Log2

theorem log2_of_ge {n k : ℕ} (h : 2 ^ k ≤ n) : n.log2 = k + (n / 2 ^ k).log2 := by
  have hk : k ≤ Nat.log 2 n := Nat.le_log_of_pow_le Nat.one_lt_two h
  rw [Nat.log2_eq_log_two, Nat.log2_eq_log_two, Nat.log_div_base_pow]
  omega

/-- A stage halves the length a value can have and takes nothing from its logarithm but the
shift. -/
theorem above_spec {v bound s : UInt64} {k : ℕ} (hbound : bound.toNat + 1 = 2 ^ k)
    (hs : ((1 : UInt64) <<< s).toNat = k) (hk : k < 64) (hv : v.toNat < 2 ^ (k + k)) :
    (v >>> above v bound s).toNat < 2 ^ k ∧
      v.toNat.log2 = (above v bound s).toNat + (v >>> above v bound s).toNat.log2 ∧
      (above v bound s = 0 ∨ above v bound s = 1 <<< s) := by
  unfold above
  by_cases h : bound < v
  · rw [if_pos h]
    have hge : 2 ^ k ≤ v.toNat := by
      have hlt := UInt64.lt_iff_toNat_lt.1 h
      omega
    have hshift : (v >>> ((1 : UInt64) <<< s)).toNat = v.toNat / 2 ^ k := by
      rw [UInt64.toNat_shiftRight, hs, Nat.mod_eq_of_lt hk, Nat.shiftRight_eq_div_pow]
    refine ⟨?_, ?_, Or.inr rfl⟩
    · rw [hshift]
      rw [pow_add] at hv
      exact Nat.div_lt_of_lt_mul hv
    · rw [hshift, hs]
      exact log2_of_ge hge
  · rw [if_neg h]
    have hzero : (0 : UInt64) <<< s = 0 := by simp
    rw [hzero]
    have hlt : v.toNat < 2 ^ k := by
      have hle := UInt64.le_iff_toNat_le.1 (UInt64.not_lt.1 h)
      omega
    refine ⟨?_, ?_, Or.inl rfl⟩
    · simpa using hlt
    · simp

/-- The last bit of a logarithm. -/
theorem log2_of_lt {v : UInt64} (h : v.toNat < 4) :
    v.toNat.log2 = (v >>> 1).toNat ∧ (v >>> 1 = 0 ∨ v >>> 1 = 1) := by
  have hv : v = 0 ∨ v = 1 ∨ v = 2 ∨ v = 3 := by
    simp only [← UInt64.toNat_inj]
    simp
    omega
  rcases hv with rfl | rfl | rfl | rfl
  · decide
  · decide
  · decide
  · decide

/-- The shifts have one bit each, all different. -/
theorem toNat_or {a b c d e f : UInt64} (ha : a = 0 ∨ a = 32) (hb : b = 0 ∨ b = 16)
    (hc : c = 0 ∨ c = 8) (hd : d = 0 ∨ d = 4) (he : e = 0 ∨ e = 2) (hf : f = 0 ∨ f = 1) :
    (a ||| b ||| c ||| d ||| e ||| f).toNat =
      a.toNat + b.toNat + c.toNat + d.toNat + e.toNat + f.toNat := by
  rcases ha with rfl | rfl <;> rcases hb with rfl | rfl <;> rcases hc with rfl | rfl <;>
    rcases hd with rfl | rfl <;> rcases he with rfl | rfl <;> rcases hf with rfl | rfl <;> rfl

theorem log2U64_toNat (v : UInt64) : (log2U64 v).toNat = v.toNat.log2 := by
  have hv : v.toNat < 2 ^ (32 + 32) := v.toNat_lt
  obtain ⟨hv, hlog5, h5⟩ :=
    above_spec (show (0xFFFFFFFF : UInt64).toNat + 1 = 2 ^ 32 from rfl)
      (show ((1 : UInt64) <<< 5).toNat = 32 from rfl) (by decide) hv
  obtain ⟨hv, hlog4, h4⟩ :=
    above_spec (show (0xFFFF : UInt64).toNat + 1 = 2 ^ 16 from rfl)
      (show ((1 : UInt64) <<< 4).toNat = 16 from rfl) (by decide) hv
  obtain ⟨hv, hlog3, h3⟩ :=
    above_spec (show (0xFF : UInt64).toNat + 1 = 2 ^ 8 from rfl)
      (show ((1 : UInt64) <<< 3).toNat = 8 from rfl) (by decide) hv
  obtain ⟨hv, hlog2, h2⟩ :=
    above_spec (show (0xF : UInt64).toNat + 1 = 2 ^ 4 from rfl)
      (show ((1 : UInt64) <<< 2).toNat = 4 from rfl) (by decide) hv
  obtain ⟨hv, hlog1, h1⟩ :=
    above_spec (show (0x3 : UInt64).toNat + 1 = 2 ^ 2 from rfl)
      (show ((1 : UInt64) <<< 1).toNat = 2 from rfl) (by decide) hv
  obtain ⟨hlog0, h0⟩ := log2_of_lt hv
  unfold log2U64
  dsimp only
  rw [toNat_or h5 h4 h3 h2 h1 h0, hlog5, hlog4, hlog3, hlog2, hlog1, hlog0]
  omega

end Log2

namespace KvmGadget

open Pairing

section Samples

structure Exit where
  ts : UInt64
  exitReason : UInt32
  cgroup : UInt64

def Event.tid : Event → UInt32
  | .kvmExit tid _ _ _ => tid
  | .kvmEntry tid _ => tid

/-- An exit opens an interval out of the guest and an entry closes it. -/
def Event.kind : Event → Exit ⊕ UInt64
  | .kvmExit _ now exitReason cgroup => .inl ⟨now, exitReason, cgroup⟩
  | .kvmEntry _ now => .inr now

abbrev Sample := UInt32 × Exit × UInt64

/-- The histogram a sample belongs to: that of the exit's reason, and of its cgroup where the
guests are told apart. -/
def keyOf (perGuest : Bool) (c : Sample) : HistKey where
  cgroupId := if perGuest then c.2.1.cgroup else 0
  exitReason := c.2.1.exitReason

def latency (c : Sample) : UInt64 := c.2.2 - c.2.1.ts

/-- The bucket of a latency: the floor of its base-2 logarithm, up to the last bucket. -/
def bucket (delta : UInt64) : ℕ := min delta.toNat.log2 (maxSlots - 1)

theorem slotOf_eq (delta : UInt64) : slotOf delta = bucket delta := by
  have hpos : 0 < maxSlots := by decide
  unfold slotOf bucket
  dsimp only
  rw [log2U64_toNat]
  split_ifs with h
  · omega
  · omega

def stash (perGuest : Bool) (x : Exit) : ExitState where
  ts := x.ts
  cgroupId := if perGuest then x.cgroup else 0
  exitReason := x.exitReason

def tally (perGuest : Bool) (cs : List Sample) (key : HistKey) : Option Hist :=
  let own := cs.filter fun c => keyOf perGuest c = key
  if own.isEmpty then none
  else some (Vector.ofFn fun s => UInt32.ofNat (own.countP fun c => bucket (latency c) = s))

variable {perGuest : Bool} {cs : List Sample} {c : Sample} {key : HistKey}

theorem set_ofFn {n j : ℕ} {f : ℕ → ℕ} (hj : j < n) :
    (Vector.ofFn fun s : Fin n => UInt32.ofNat (f s)).set j
        ((Vector.ofFn fun s : Fin n => UInt32.ofNat (f s)).get ⟨j, hj⟩ + 1) hj =
      Vector.ofFn fun s : Fin n => UInt32.ofNat (f s + if j = s then 1 else 0) := by
  apply Vector.ext
  intro i hi
  rw [Vector.getElem_set, Vector.getElem_ofFn, Vector.getElem_ofFn]
  by_cases h : j = i
  · subst h
    have hget : (Vector.ofFn fun s : Fin n => UInt32.ofNat (f s)).get ⟨j, hj⟩ =
        UInt32.ofNat (f j) := Vector.getElem_ofFn hj
    rw [if_pos rfl, if_pos rfl, UInt32.ofNat_add, hget]
    rfl
  · rw [if_neg h, if_neg h, Nat.add_zero]

theorem bump_ofFn {f : ℕ → ℕ} (delta : UInt64) :
    Hist.bump (Vector.ofFn fun s : Fin maxSlots => UInt32.ofNat (f s)) delta =
      Vector.ofFn fun s : Fin maxSlots => UInt32.ofNat (f s + if bucket delta = s then 1 else 0) := by
  unfold Hist.bump
  rw [set_ofFn, slotOf_eq]

theorem tally_getD :
    (tally perGuest cs key).getD (Vector.replicate maxSlots 0) =
      Vector.ofFn fun s : Fin maxSlots => UInt32.ofNat
        ((cs.filter fun c => keyOf perGuest c = key).countP fun c => bucket (latency c) = s) := by
  unfold tally
  dsimp only
  cases cs.filter fun c => keyOf perGuest c = key with
  | nil =>
    rw [List.isEmpty_nil, if_pos rfl, Option.getD_none]
    apply Vector.ext
    intro i hi
    rw [Vector.getElem_replicate, Vector.getElem_ofFn]
    rfl
  | cons c own => rfl

theorem tally_snoc :
    tally perGuest (cs ++ [c]) key =
      if keyOf perGuest c = key then
        some (((tally perGuest cs key).getD (Vector.replicate maxSlots 0)).bump (latency c))
      else tally perGuest cs key := by
  by_cases h : keyOf perGuest c = key
  · have hown : (cs ++ [c]).filter (fun c => keyOf perGuest c = key) =
        (cs.filter fun c => keyOf perGuest c = key) ++ [c] := by
      rw [List.filter_append]
      simp [h]
    rw [if_pos h, tally_getD, bump_ofFn (f := fun s => (cs.filter fun c =>
      keyOf perGuest c = key).countP fun c => bucket (latency c) = s)]
    unfold tally
    rw [hown]
    dsimp only
    rw [if_neg (by simp)]
    simp only [List.countP_append, List.countP_singleton, decide_eq_true_eq]
  · have hown : (cs ++ [c]).filter (fun c => keyOf perGuest c = key) =
        cs.filter fun c => keyOf perGuest c = key := by
      rw [List.filter_append]
      simp [h]
    rw [if_neg h]
    unfold tally
    rw [hown]

end Samples

section Run

/-- The maps hold what each thread has open and the tally of what is complete. -/
structure Represents (perGuest : Bool) (evs : List Event) (m : Maps) : Prop where
  pending : ∀ tid, m.exitStart.lookup tid =
    (pending Event.tid Event.kind tid evs).map (stash perGuest)
  counts : ∀ key, m.hists.lookup key = tally perGuest (completed Event.tid Event.kind evs) key

structure Room (m : Maps) : Prop where
  exitStart : m.exitStart.size < m.exitStart.maxEntries
  hists : m.hists.size < m.hists.maxEntries

instance (m : Maps) : Decidable (Room m) :=
  decidable_of_iff
    (m.exitStart.size < m.exitStart.maxEntries ∧ m.hists.size < m.hists.maxEntries)
    ⟨fun h => ⟨h.1, h.2⟩, fun h => ⟨h.exitStart, h.hists⟩⟩

variable {perGuest : Bool} {evs : List Event} {m : Maps}

theorem represents_new (perGuest : Bool) : Represents perGuest [] Maps.new where
  pending tid := BoundedMap.lookup_empty 131072 tid
  counts key := BoundedMap.lookup_empty 262144 key

theorem represents_exit (h : Represents perGuest evs m) (hroom : Room m) {tid : UInt32}
    {now : UInt64} {exitReason : UInt32} {cgroup : UInt64} :
    Represents perGuest (evs ++ [.kvmExit tid now exitReason cgroup])
      (handleKvmExit perGuest m tid now exitReason cgroup) where
  pending tid' := by
    unfold handleKvmExit
    rw [BoundedMap.lookup_update (Or.inr hroom.exitStart), pending_snoc, h.pending]
    change _ = Option.map _ (if tid = tid' then some _ else _)
    by_cases htid : tid' = tid
    · subst htid
      rw [if_pos rfl, if_pos rfl]
      rfl
    · rw [if_neg htid, if_neg (Ne.symm htid)]
  counts key := by
    rw [completed_snoc]
    change m.hists.lookup key = tally perGuest (completed Event.tid Event.kind evs ++ []) key
    rw [List.append_nil]
    exact h.counts key

theorem lookup_initHist (hroom : Room m) {hk key : HistKey} :
    (initHist m.hists hk).lookup key =
      if key = hk then some ((m.hists.lookup hk).getD (Vector.replicate maxSlots 0))
      else m.hists.lookup key := by
  unfold initHist
  cases hh : m.hists.lookup hk with
  | none => rw [BoundedMap.lookup_create (Or.inr hroom.hists), hh]
  | some h =>
    by_cases hkey : key = hk
    · subst hkey
      rw [if_pos rfl]
      exact hh
    · rw [if_neg hkey]

/-- With room in the maps, an entry with an open exit always counts its sample. -/
theorem handleKvmEntry_some (hroom : Room m) {tid : UInt32} {now : UInt64} {st : ExitState}
    (hst : m.exitStart.lookup tid = some st) :
    handleKvmEntry m tid now =
      { hists := (initHist m.hists ⟨st.cgroupId, st.exitReason⟩).modify
          ⟨st.cgroupId, st.exitReason⟩ (·.bump (now - st.ts))
        exitStart := m.exitStart.delete tid } := by
  unfold handleKvmEntry
  rw [hst]
  dsimp only
  rw [lookup_initHist hroom, if_pos rfl]

theorem represents_entry (h : Represents perGuest evs m) (hroom : Room m) {tid : UInt32}
    {now : UInt64} :
    Represents perGuest (evs ++ [.kvmEntry tid now]) (handleKvmEntry m tid now) := by
  have hpending (tid' : UInt32) :
      pending Event.tid Event.kind tid' (evs ++ [.kvmEntry tid now]) =
        if tid = tid' then none else pending Event.tid Event.kind tid' evs := pending_snoc
  cases hopen : pending Event.tid Event.kind tid evs with
  | none =>
    have hnone : m.exitStart.lookup tid = none := by rw [h.pending, hopen]; rfl
    have hby : completedBy Event.tid Event.kind evs (.kvmEntry tid now) = none := by
      change Option.map _ (pending Event.tid Event.kind tid evs) = none
      rw [hopen]
      rfl
    unfold handleKvmEntry
    rw [hnone]
    refine ⟨?_, ?_⟩
    · intro tid'
      rw [hpending, h.pending]
      by_cases htid : tid = tid'
      · subst htid
        rw [if_pos rfl, hopen]
      · rw [if_neg htid]
    · intro key
      rw [completed_snoc, hby, Option.toList_none, List.append_nil]
      exact h.counts key
  | some x =>
    have hsome : m.exitStart.lookup tid = some (stash perGuest x) := by rw [h.pending, hopen]; rfl
    have hby : completedBy Event.tid Event.kind evs (.kvmEntry tid now) = some (tid, x, now) := by
      change Option.map _ (pending Event.tid Event.kind tid evs) = _
      rw [hopen]
      rfl
    rw [handleKvmEntry_some hroom hsome]
    refine ⟨?_, ?_⟩
    · intro tid'
      rw [hpending, BoundedMap.lookup_delete, h.pending]
      by_cases htid : tid' = tid
      · rw [if_pos htid, if_pos htid.symm]
        rfl
      · rw [if_neg htid, if_neg (Ne.symm htid)]
    · intro key
      rw [completed_snoc, hby, Option.toList_some, tally_snoc, BoundedMap.lookup_modify,
        lookup_initHist hroom, lookup_initHist hroom, if_pos rfl, h.counts, h.counts]
      change (if key = keyOf perGuest (tid, x, now) then _ else _) = _
      by_cases hkey : key = keyOf perGuest (tid, x, now)
      · subst hkey
        rw [if_pos rfl, if_pos rfl]
        rfl
      · rw [if_neg hkey, if_neg (Ne.symm hkey)]
        exact if_neg hkey

theorem represents_handle (h : Represents perGuest evs m) (hroom : Room m) (e : Event) :
    Represents perGuest (evs ++ [e]) (handle perGuest m e) := by
  cases e with
  | kvmExit tid now exitReason cgroup => exact represents_exit h hroom
  | kvmEntry tid now => exact represents_entry h hroom

/-- Neither map reaches its capacity at any point of a sequence. -/
def BelowCapacity (perGuest : Bool) (evs : List Event) : Prop :=
  ∀ k ≤ evs.length, Room (run perGuest (evs.take k))

/-- After any sequence that leaves room in the maps they hold what is open and what is
complete. -/
theorem represents_run (hroom : BelowCapacity perGuest evs) :
    Represents perGuest evs (run perGuest evs) := by
  induction evs using List.reverseRecOn with
  | nil => exact represents_new perGuest
  | append_singleton evs e ih =>
    have hprefix : BelowCapacity perGuest evs := by
      intro k hk
      have hlong := hroom k (by rw [List.length_append]; omega)
      rwa [List.take_append_of_le_length hk] at hlong
    have hnow : Room (run perGuest evs) := by
      have hlong := hprefix evs.length (Nat.le_refl _)
      rwa [List.take_length] at hlong
    have hrun : run perGuest (evs ++ [e]) = handle perGuest (run perGuest evs) e := by
      unfold run
      rw [List.foldl_append]
      rfl
    rw [hrun]
    exact represents_handle (ih hprefix) hnow e

theorem tally_isSome {cs : List Sample} {key : HistKey} :
    (tally perGuest cs key).isSome ↔ ∃ c ∈ cs, keyOf perGuest c = key := by
  unfold tally
  dsimp only
  split_ifs with h
  · rw [List.isEmpty_iff, List.filter_eq_nil_iff] at h
    simp only [decide_eq_true_eq] at h
    simpa using h
  · rw [List.isEmpty_iff, List.filter_eq_nil_iff] at h
    simpa using h

theorem tally_perm {cs cs' : List Sample} (h : cs.Perm cs') (key : HistKey) :
    tally perGuest cs key = tally perGuest cs' key := by
  have hown := h.filter fun c => keyOf perGuest c = key
  unfold tally
  dsimp only
  have hempty : (cs.filter fun c => keyOf perGuest c = key).isEmpty =
      (cs'.filter fun c => keyOf perGuest c = key).isEmpty := by
    rw [Bool.eq_iff_iff, List.isEmpty_iff, List.isEmpty_iff, ← List.length_eq_zero_iff,
      ← List.length_eq_zero_iff, hown.length_eq]
  rw [hempty]
  simp only [hown.countP_eq]

end Run

section Histograms

variable {perGuest : Bool} {evs : List Event}

def countAt (hists : BoundedMap HistKey Hist) (key : HistKey) (s : Fin maxSlots) : UInt32 :=
  ((hists.lookup key).getD (Vector.replicate maxSlots 0)).get s

def SameThreads (evs evs' : List Event) : Prop :=
  ∀ tid, evs.filter (fun e => e.tid = tid) = evs'.filter fun e => e.tid = tid

/-- The histograms count, modulo `2 ^ 32`, the pairs of an exit and the same thread's next
event where that is an entry, each exit at most once, whatever the interleaving. -/
theorem histograms_paired (perGuest : Bool) (evs : List Event)
    (hroom : BelowCapacity perGuest evs) :
    (∀ key s, countAt (run perGuest evs).hists key s = UInt32.ofNat
      {q : ℕ × ℕ | ∃ c, Pairs Event.tid Event.kind evs q.1 q.2 c ∧ keyOf perGuest c = key ∧
        bucket (latency c) = s}.ncard) ∧
    (∀ key, ((run perGuest evs).hists.lookup key).isSome ↔
      ∃ i j c, Pairs Event.tid Event.kind evs i j c ∧ keyOf perGuest c = key) ∧
    (∀ i j j' c c', Pairs Event.tid Event.kind evs i j c → Pairs Event.tid Event.kind evs i j' c' →
      j = j') ∧
    ∀ evs', SameThreads evs evs' → BelowCapacity perGuest evs' → ∀ key,
      (run perGuest evs').hists.lookup key = (run perGuest evs).hists.lookup key := by
  have hrep := represents_run hroom
  refine ⟨?_, ?_, ?_, ?_⟩
  · intro key s
    have hcount : (((completed Event.tid Event.kind evs).filter fun c =>
        keyOf perGuest c = key).countP fun c => bucket (latency c) = s) =
        (completed Event.tid Event.kind evs).countP fun c =>
          keyOf perGuest c = key ∧ bucket (latency c) = s := by
      rw [List.countP_filter]
      simp only [Bool.decide_and, Bool.and_comm]
    unfold countAt
    rw [hrep.counts, tally_getD]
    refine (Vector.getElem_ofFn s.isLt).trans ?_
    rw [hcount, countP_completed]
    rfl
  · intro key
    rw [hrep.counts, tally_isSome]
    simp only [mem_completed]
    apply Iff.intro
    · intro h
      obtain ⟨c, ⟨i, j, hpairs⟩, hkey⟩ := h
      exact ⟨i, j, c, hpairs, hkey⟩
    · intro h
      obtain ⟨i, j, c, hpairs, hkey⟩ := h
      exact ⟨c, ⟨i, j, hpairs⟩, hkey⟩
  · intro i j j' c c' h h'
    exact h.close_unique h'
  · intro evs' hsame hroom' key
    rw [(represents_run hroom').counts, hrep.counts]
    exact (tally_perm (completed_perm hsame) key).symm

/-- Two threads whose exits and entries interleave, with an exit repeated and an entry
unmatched. -/
def interleaved : List Event :=
  [.kvmExit 7 100 12 1, .kvmExit 8 110 48 2, .kvmEntry 7 164, .kvmExit 8 120 30 2,
    .kvmEntry 9 130, .kvmEntry 8 1144]

theorem interleaved_room : BelowCapacity true interleaved := by
  have hall : ∀ k ∈ List.range 7, Room (run true (interleaved.take k)) := by decide +kernel
  intro k hk
  exact hall k (List.mem_range.2 (Nat.lt_succ_of_le hk))

/-- Of the exits of a thread the last before its entry is counted, and no other. -/
theorem interleaved_counted :
    BelowCapacity true interleaved ∧
      UInt32.ofNat {q : ℕ × ℕ | ∃ c, Pairs Event.tid Event.kind interleaved q.1 q.2 c ∧
        keyOf true c = ⟨2, 30⟩ ∧ bucket (latency c) = 10}.ncard = 1 := by
  have hcount := (histograms_paired true interleaved interleaved_room).1 ⟨2, 30⟩ ⟨10, by decide⟩
  refine ⟨interleaved_room, hcount.symm.trans ?_⟩
  decide +kernel

end Histograms

end KvmGadget

end Assayist
