import Assayist.Proofs.Budget
import Assayist.Proofs.Truncation

/-! A bounded series declares how many distinct keys it may have. The loaders copy the
declaration into each series and then read out the whole map: more keys than declared are
neither cut off nor flagged, and the flag there is follows the capacity of the map. -/

namespace Assayist

section Keys

variable {F : Type}

def seriesKey (s : Json F) : Option (String × String) :=
  (s.getStr "name").bind fun n => (s.getStr "key").map fun k => (n, k)

def Fragment.keys (f : Fragment F) : List (String × String) := f.series.filterMap seriesKey

def keysOf (ps : List (String × String)) (name : String) : List String :=
  (ps.filter fun p => p.1 = name).map Prod.snd

def distinctKeys (ps : List (String × String)) (name : String) : ℕ :=
  (keysOf ps name).dedup.length

theorem distinctKeys_le (ps : List (String × String)) (name : String) :
    distinctKeys ps name ≤ (keysOf ps name).length :=
  (List.dedup_sublist _).length_le

end Keys

section Held

variable {F : Type}

/-- What an entry of the kvm map holds, by guest: a latency for its exit reason. -/
def kvmHeld (c : KvmCapture F) (h : KvmHist) : Option (String × String) :=
  if slotCount h.slots = 0 then none
  else if c.perGuest then
    some ("kvm.exit_handling_latency:" ++ reasonName c.vendor h.exitReason,
      toString h.cgroupId.toNat)
  else none

/-- What an entry of the block map holds: a latency and a byte count of the device. -/
def blockHeld (st : BlkStat) : List (String × String) :=
  if slotCount st.slots = 0 then []
  else
    let rw := if st.isWrite then "write" else "read"
    [("block.io_latency:" ++ rw, devStr st.dev), ("block.io_bytes:" ++ rw, devStr st.dev)]

/-- What the two ctrlplane maps hold: a latency and an on-CPU time of the component. -/
def ctrlplaneHeld (c : CtrlplaneCapture F) : List (String × String) :=
  (c.runq.filterMap fun h =>
    if slotCount h.slots = 0 then none
    else some ("sched.runqueue_latency", nameFor c h.cgroupId)) ++
  c.oncpu.map fun o => ("sched.on_cpu_ns", nameFor c o.cgroupId)

def Loader.held : Loader F → List (String × String)
  | .kvm c => c.hists.filterMap (kvmHeld c)
  | .block c => c.stats.flatMap blockHeld
  | .ctrlplane c => ctrlplaneHeld c

def Loader.maxKeys : Loader F → UInt64
  | .kvm c => c.maxKeys
  | .block c => c.maxKeys
  | .ctrlplane c => c.maxKeys

def Loader.filled : Loader F → Bool
  | .kvm c => kvmOverflow c
  | .block _ => false
  | .ctrlplane _ => false

theorem seriesKey_keyed (name unit kind source key : String) (cardinality data : Json F) :
    seriesKey (seriesJson name unit kind source (some key) cardinality data) = some (name, key) :=
  rfl

theorem seriesKey_unkeyed (name unit kind source : String) (cardinality data : Json F) :
    seriesKey (seriesJson name unit kind source none cardinality data) = none :=
  rfl

theorem kvmSeries_key (c : KvmCapture F) (h : KvmHist) :
    (kvmSeries c h).bind seriesKey = kvmHeld c h := by
  unfold kvmSeries kvmHeld
  by_cases hcount : slotCount h.slots = 0
  · rw [if_pos hcount, if_pos hcount, Option.bind_none]
  · rw [if_neg hcount, if_neg hcount, Option.bind_some]
    cases c.perGuest with
    | false => exact seriesKey_unkeyed _ _ _ _ _ _
    | true => exact seriesKey_keyed _ _ _ _ _ _ _

theorem runqSeries_key (c : CtrlplaneCapture F) (h : RunqHist) :
    (runqSeries c h).bind seriesKey =
      if slotCount h.slots = 0 then none
      else some ("sched.runqueue_latency", nameFor c h.cgroupId) := by
  unfold runqSeries
  by_cases hcount : slotCount h.slots = 0
  · rw [if_pos hcount, if_pos hcount, Option.bind_none]
  · rw [if_neg hcount, if_neg hcount, Option.bind_some]
    exact seriesKey_keyed _ _ _ _ _ _ _

variable [F64 F] [Build]

theorem blockSeries_key {c : BlockCapture F} {st : BlkStat} {ss : List (Json F)}
    (hss : blockSeries c st = .ok ss) : ss.filterMap seriesKey = blockHeld st := by
  unfold blockSeries at hss
  unfold blockHeld
  by_cases hcount : slotCount st.slots = 0
  · rw [if_pos hcount] at hss ⊢
    rw [← Results.pure_eq_ok.1 hss, List.filterMap_nil]
  · rw [if_neg hcount] at hss ⊢
    obtain ⟨data, -, hdata⟩ := Results.bind_eq_ok.1 hss
    rw [← Results.pure_eq_ok.1 hdata]
    rfl

theorem loader_keys {l : Loader F} {f : Fragment F} (hf : l.fragment = .ok f) :
    f.keys = l.held := by
  cases l with
  | kvm c =>
    cases hf
    unfold Fragment.keys kvmFragment
    rw [List.filterMap_filterMap]
    exact List.filterMap_congr fun h _ => kvmSeries_key c h
  | block c =>
    simp only [Loader.fragment, blockFragment, Results.bind_eq_ok, Results.mapM_eq_ok,
      Results.pure_eq_ok] at hf
    obtain ⟨parts, hparts, rfl⟩ := hf
    change parts.flatten.filterMap seriesKey = c.stats.flatMap blockHeld
    generalize c.stats = sts at hparts ⊢
    induction hparts with
    | nil => rfl
    | cons hst _ ih =>
      rw [List.flatten_cons, List.filterMap_append, List.flatMap_cons, ih, blockSeries_key hst]
  | ctrlplane c =>
    cases hf
    unfold Fragment.keys ctrlplaneFragment
    rw [List.filterMap_append, List.filterMap_filterMap, List.filterMap_map]
    refine congrArg₂ _ (List.filterMap_congr fun h _ => runqSeries_key c h) ?_
    rw [← List.filterMap_eq_map]
    exact List.filterMap_congr fun o _ => seriesKey_keyed _ _ _ _ _ _ _

theorem loader_metaOverflow {l : Loader F} {f : Fragment F} (hf : l.fragment = .ok f) :
    metaOverflow f = l.filled := by
  cases l with
  | kvm c =>
    cases hf
    rfl
  | block c =>
    simp only [Loader.fragment, blockFragment, Results.bind_eq_ok, Results.pure_eq_ok] at hf
    obtain ⟨parts, -, rfl⟩ := hf
    rfl
  | ctrlplane c =>
    cases hf
    rfl

end Held

section Ceiling

variable {F : Type} [F64 F]

def nameFlagged (f : Fragment F) (name : String) : Prop :=
  ∃ s ∈ f.series, s.getStr "name" = some name ∧ flagged s = true

/-- A fragment respects the ceiling on the keys its maps hold: a name with too many is
truncated and marked, and below the ceiling nothing is dropped or marked. -/
structure CeilingKept (held : List (String × String)) (maxKeys : UInt64) (f : Fragment F) :
    Prop where
  truncated : ∀ name, maxKeys.toNat < distinctKeys held name →
    (nameFlagged f name ∨ metaOverflow f = true) ∧
      (keysOf f.keys name).length ≤ maxKeys.toNat
  whole : ∀ name, distinctKeys held name ≤ maxKeys.toNat →
    (∀ k ∈ keysOf held name, k ∈ keysOf f.keys name) ∧ ¬ nameFlagged f name
  quiet : (∀ name, distinctKeys held name ≤ maxKeys.toNat) → metaOverflow f = false

variable [Build]

theorem loader_unflagged {l : Loader F} {f : Fragment F} (hf : l.fragment = .ok f)
    (name : String) : ¬ nameFlagged f name := by
  intro h
  obtain ⟨s, hs, -, hflag⟩ := h
  obtain ⟨-, -, hno⟩ := loader_series hf hs
  rw [hno] at hflag
  exact absurd hflag Bool.false_ne_true

/-- A loader's fragment respects the ceiling exactly when nothing reaches it: no name has
more keys than declared, and the map has room. -/
theorem ceilingKept_iff (l : Loader F) (f : Fragment F) (hf : l.fragment = .ok f) :
    CeilingKept l.held l.maxKeys f ↔
      (∀ name, distinctKeys l.held name ≤ l.maxKeys.toNat) ∧ l.filled = false := by
  have hkeys := loader_keys hf
  have hmeta := loader_metaOverflow hf
  apply Iff.intro
  · intro hkept
    have hbelow : ∀ name, distinctKeys l.held name ≤ l.maxKeys.toNat := by
      intro name
      by_contra hover
      -- everything is emitted, so the emitted series exceed the ceiling too
      have htrunc := (hkept.truncated name (by omega)).2
      rw [hkeys] at htrunc
      have hle := distinctKeys_le l.held name
      omega
    exact ⟨hbelow, hmeta ▸ hkept.quiet hbelow⟩
  · intro h
    obtain ⟨hbelow, hroom⟩ := h
    refine ⟨fun name hover => ?_, fun name _ => ?_, fun _ => ?_⟩
    · have hle := hbelow name
      omega
    · rw [hkeys]
      exact ⟨fun k hk => hk, loader_unflagged hf name⟩
    · rw [hmeta]
      exact hroom

end Ceiling

section Runs

attribute [local instance] releaseBuild

def twoGuests (maxKeys : UInt64) : KvmCapture ℚ where
  vendor := "intel"
  perGuest := true
  maxKeys
  hists := [⟨1, 12, [1]⟩, ⟨2, 12, [1]⟩]
  maxEntries := 262144
  exitStats := ⟨0, 0⟩
  entryStats := ⟨0, 0⟩
  window := ⟨1000, 1⟩

def twoDevices (maxKeys : UInt64) : BlockCapture ℚ where
  maxKeys
  hires := true
  stats := [⟨0x800000, false, [1], 512⟩, ⟨0x800010, false, [1], 512⟩]
  issueStats := ⟨0, 0⟩
  completeStats := ⟨0, 0⟩
  window := ⟨1000, 1⟩

theorem distinctKeys_twoGuests (name : String) :
    distinctKeys (Loader.kvm (twoGuests 2)).held name ≤ 2 :=
  (distinctKeys_le _ name).trans ((List.length_map _).trans_le (List.length_filter_le _ _))

theorem ceilingKept_twoGuests :
    CeilingKept (Loader.kvm (twoGuests 2)).held 2 (kvmFragment (twoGuests 2)) :=
  (ceilingKept_iff (.kvm (twoGuests 2)) _ rfl).2 ⟨distinctKeys_twoGuests, by decide⟩

/-- A second guest, or a second device, over a ceiling of one: both are written out and
nothing is marked. -/
theorem ceiling_ignored :
    ¬ CeilingKept (Loader.kvm (twoGuests 1)).held 1 (kvmFragment (twoGuests 1)) ∧
    ∃ f, blockFragment (twoDevices 1) = .ok f ∧
      ¬ CeilingKept (Loader.block (twoDevices 1)).held 1 f := by
  refine ⟨fun hkept => ?_, _, rfl, fun hkept => ?_⟩
  · obtain ⟨-, hle⟩ := hkept.truncated "kvm.exit_handling_latency:HLT" (by decide)
    exact absurd hle (by decide)
  · obtain ⟨-, hle⟩ := hkept.truncated "block.io_latency:read" (by decide)
    exact absurd hle (by decide)

end Runs

end Assayist
