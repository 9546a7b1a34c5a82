import Assayist.Proofs.Instances
import Mathlib.Data.Nat.Digits.Lemmas

/-! The names of tap devices. They tell processes and instances apart, so that the delete with
which a target clears its name takes no other process's device. -/

namespace Assayist

section Base36

def digits36 (n : ℕ) : List ℕ := if n = 0 then [0] else (Nat.digits 36 n).reverse

def digit36 (d : ℕ) : Char := base36Digits.getD d '0'

theorem base36_toList (n : ℕ) : (base36 n).toList = (digits36 n).map digit36 := by
  unfold base36 digits36
  split_ifs with hn
  · rfl
  · rw [String.toList_ofList]
    rfl

theorem digits36_lt {n d : ℕ} (h : d ∈ digits36 n) : d < 36 := by
  unfold digits36 at h
  split_ifs at h with hn
  · rw [List.mem_singleton.1 h]
    decide
  · exact Nat.digits_lt_base (by decide) (List.mem_reverse.1 h)

theorem ofDigits_digits36 (n : ℕ) : Nat.ofDigits 36 (digits36 n).reverse = n := by
  unfold digits36
  split_ifs with hn
  · rw [hn]
    rfl
  · rw [List.reverse_reverse, Nat.ofDigits_digits]

theorem idxOf_digit36 : ∀ d < 36, base36Digits.idxOf (digit36 d) = d := by decide

theorem digit36_ne_dash : ∀ d < 36, digit36 d ≠ '-' := by decide

theorem base36_inj {m n : ℕ} (h : base36 m = base36 n) : m = n := by
  have hread (n : ℕ) : (base36 n).toList.map base36Digits.idxOf = digits36 n := by
    rw [base36_toList, List.map_map]
    refine (List.map_congr_left fun d hd => ?_).trans (List.map_id _)
    exact idxOf_digit36 d (digits36_lt hd)
  rw [← ofDigits_digits36 m, ← hread m, h, hread, ofDigits_digits36]

theorem dash_notMem_base36 (n : ℕ) : '-' ∉ (base36 n).toList := by
  rw [base36_toList]
  intro h
  obtain ⟨d, hd, hdash⟩ := List.mem_map.1 h
  exact digit36_ne_dash d (digits36_lt hd) hdash

theorem length_base36_le {k n : ℕ} (hk : 0 < k) (h : n < 36 ^ k) : (base36 n).length ≤ k := by
  rw [← String.length_toList, base36_toList, List.length_map]
  unfold digits36
  split_ifs with hn
  · exact hk
  · rw [List.length_reverse]
    exact (Nat.digits_length_le_iff (by decide) n).2 h

end Base36

section Names

def tapName (pid : UInt32) (index : UInt64) : String :=
  "asy" ++ base36 pid.toNat ++ "-" ++ toString index.toNat

theorem tapName_toList (pid : UInt32) (index : UInt64) :
    (tapName pid index).toList =
      "asy".toList ++ ((base36 pid.toNat).toList ++ '-' :: (toString index.toNat).toList) := by
  simp [tapName, String.toList_append]

theorem dash_notMem_nat (n : ℕ) : '-' ∉ (toString n).toList := by
  obtain ⟨c, cs, hlist, -, hdigits, -⟩ := toList_nat n
  rw [hlist]
  intro h
  exact absurd (hdigits '-' h) (by decide)

theorem tapName_inj {p q : UInt32} {i j : UInt64} :
    tapName p i = tapName q j ↔ p = q ∧ i = j := by
  apply Iff.intro
  · intro h
    have htext := congrArg String.toList h
    rw [tapName_toList, tapName_toList, List.append_right_inj,
      List.append_cons_inj_of_notMem (dash_notMem_base36 _) (dash_notMem_nat _)] at htext
    obtain ⟨hpid, -, hindex⟩ := htext
    exact ⟨UInt32.toNat_inj.1 (base36_inj (String.toList_inj.1 hpid)),
      UInt64.toNat_inj.1 (toString_nat_inj (String.toList_inj.1 hindex))⟩
  · rintro ⟨rfl, rfl⟩
    rfl

/-- A name that the kernel takes, for up to ten thousand instances. -/
theorem length_tapName_le (pid : UInt32) {index : UInt64} (h : index.toNat ≤ 9999) :
    (tapName pid index).length ≤ 15 := by
  have hpid : (base36 pid.toNat).toList.length ≤ 7 := by
    rw [String.length_toList]
    exact length_base36_le (by decide) (pid.toNat_lt.trans (by decide))
  have hindex : (toString index.toNat).toList.length ≤ 4 := by
    have hlist : (toString index.toNat).toList = Nat.toDigits 10 index.toNat := Nat.toList_repr
    rw [hlist]
    exact (Nat.length_toDigits_le_iff (by decide) (by decide)).2 (by omega)
  rw [← String.length_toList, tapName_toList, List.length_append, List.length_append,
    List.length_cons]
  have hprefix : "asy".toList.length = 3 := rfl
  omega

end Names

section Devices

variable {F : Type} [FloatText F]

def tapIndex (vars : Vars) : UInt64 := ((vars.lookup "instance").bind parseU64).getD 0

theorem firecrackerTarget_tap {pid : UInt32} {now : UInt64} {config : List (String × Json F)}
    {vars : Vars} {pinThreads : Bool} {name : String}
    (h : (firecrackerTarget pid now config vars pinThreads).tap = some name) :
    name = tapName pid (tapIndex vars) := by
  change (if toLowercase (cfg config vars "network" "") = "tap" then
    some (tapName pid (tapIndex vars)) else none) = some name at h
  split_ifs at h
  exact (Option.some.inj h).symm

/-- A tap device of the host, with the process and the instance that it was added for. -/
structure Device where
  name : String
  pid : UInt32
  index : UInt64
  deriving DecidableEq

/-- `ip tuntap del dev '{name}' mode tap`. -/
def tuntapDel (devices : List Device) (name : String) : List Device :=
  devices.filter fun d => d.name != name

/-- A target with the process that runs it and what it was made from. -/
structure Running (F : Type) where
  pid : UInt32
  nowNanos : UInt64
  config : List (String × Json F)
  vars : Vars
  pinThreads : Bool

def Running.target (r : Running F) : FirecrackerTarget :=
  firecrackerTarget r.pid r.nowNanos r.config r.vars r.pinThreads

/-- What a target does to the host's devices; `added` says whether the device could be added. -/
inductive TapEvent (F : Type) where
  | provision (r : Running F) (added : Bool)
  | teardown (r : Running F)

def TapEvent.running : TapEvent F → Running F
  | .provision r _ => r
  | .teardown r => r

/-- A cold boot clears the name of its device before it adds it; a restored VM has none. -/
def TapEvent.apply (devices : List Device) : TapEvent F → List Device
  | .provision r added =>
    match r.target.fromSnapshot, r.target.tap with
    | none, some tap =>
      let devices := tuntapDel devices tap
      if added then ⟨tap, r.pid, tapIndex r.vars⟩ :: devices else devices
    | _, _ => devices
  | .teardown r =>
    match r.target.tap with
    | some tap => tuntapDel devices tap
    | none => devices

/-- The devices that the targets of any processes have left on a host that had none of theirs. -/
def devicesAfter (evs : List (TapEvent F)) : List Device := evs.foldl TapEvent.apply []

/-- Every device has the name of the process and the instance that it was added for. -/
def Named (devices : List Device) : Prop := ∀ d ∈ devices, d.name = tapName d.pid d.index

/-- An event keeps the devices, or deletes a name of its own process, and then may add it. -/
theorem apply_cases (devices : List Device) (e : TapEvent F) :
    TapEvent.apply devices e = devices ∨
      ∃ rest, (rest = [] ∨
          rest = [⟨tapName e.running.pid (tapIndex e.running.vars), e.running.pid,
            tapIndex e.running.vars⟩]) ∧
        TapEvent.apply devices e =
          rest ++ tuntapDel devices (tapName e.running.pid (tapIndex e.running.vars)) := by
  cases e with
  | provision r added =>
    unfold TapEvent.apply
    dsimp only
    split
    · next tap hsnap htap =>
      right
      rw [firecrackerTarget_tap htap]
      cases added with
      | false => exact ⟨[], .inl rfl, rfl⟩
      | true => exact ⟨_, .inr rfl, rfl⟩
    · exact .inl rfl
  | teardown r =>
    unfold TapEvent.apply
    dsimp only
    split
    · next tap htap =>
      right
      rw [firecrackerTarget_tap htap]
      exact ⟨[], .inl rfl, rfl⟩
    · exact .inl rfl

theorem named_apply {devices : List Device} (h : Named devices) (e : TapEvent F) :
    Named (TapEvent.apply devices e) := by
  rcases apply_cases devices e with heq | ⟨rest, hrest, heq⟩
  · rwa [heq]
  · rw [heq]
    intro d hd
    rcases List.mem_append.1 hd with hd | hd
    · rcases hrest with rfl | rfl
      · exact absurd hd List.not_mem_nil
      · rw [List.mem_singleton.1 hd]
    · exact h d (List.mem_of_mem_filter hd)

theorem named_devicesAfter (evs : List (TapEvent F)) : Named (devicesAfter evs) := by
  have hrun (devices : List Device) (h : Named devices) :
      Named (evs.foldl TapEvent.apply devices) := by
    induction evs generalizing devices with
    | nil => exact h
    | cons e evs ih => exact ih _ (named_apply h e)
  exact hrun [] fun d hd => absurd hd List.not_mem_nil

theorem removed_own {evs : List (TapEvent F)} {e : TapEvent F} {d : Device}
    (hd : d ∈ devicesAfter evs) (hgone : d ∉ TapEvent.apply (devicesAfter evs) e) :
    d.pid = e.running.pid ∧ d.index = tapIndex e.running.vars := by
  rcases apply_cases (devicesAfter evs) e with heq | ⟨rest, -, heq⟩
  · rw [heq] at hgone
    exact absurd hd hgone
  · have hname : d.name = tapName e.running.pid (tapIndex e.running.vars) := by
      by_contra hne
      rw [heq] at hgone
      exact hgone (List.mem_append_right _ (List.mem_filter.2 ⟨hd, by simpa using hne⟩))
    rw [named_devicesAfter evs d hd] at hname
    exact tapName_inj.1 hname

end Devices

section Runs

variable {F τ : Type} [FloatText F] [Build] {host : Host}
  {others : BenchmarkDef F → Vars → Bool → τ} {d : BenchmarkDef F} {vars : Vars} {pinThreads : Bool}

def tapOf : FirecrackerTarget ⊕ τ → Option String
  | .inl t => t.tap
  | .inr _ => none

def Built.taps : Built (FirecrackerTarget ⊕ τ) → List String
  | .single t => (tapOf t).toList
  | .fanout ts => ts.filterMap tapOf

omit [Build] in
theorem tapOf_selectTarget {i : ℕ} {name : String}
    (h : tapOf (selectTarget host others d pinThreads i vars) = some name) :
    name = tapName host.pid (tapIndex vars) := by
  unfold selectTarget at h
  split_ifs at h
  · exact firecrackerTarget_tap h
  · cases h

/-- A run's targets: a lone one, or one made with each index. -/
theorem buildTarget_cases {built : Built τ} {select : ℕ → Vars → τ}
    (h : buildTarget select d vars pinThreads = .ok built) :
    built = .single (select 0 vars) ∨ ∃ inners, built = .fanout inners ∧
      List.Forall₂ (fun i t => ∃ v, v.lookup "instance" = some (toString i) ∧ t = select i v)
        (List.range (instancesOf d vars).toNat) inners := by
  unfold buildTarget at h
  dsimp only at h
  split_ifs at h with hone
  · exact .inl (Results.pure_eq_ok.1 h).symm
  · obtain ⟨inners, hinners, hbuilt⟩ := Results.bind_eq_ok.1 h
    refine .inr ⟨inners, (Results.pure_eq_ok.1 hbuilt).symm, ?_⟩
    refine (Results.mapM_eq_ok.1 hinners).imp fun i t ht => ?_
    obtain ⟨v, hv, ht⟩ := Results.bind_eq_ok.1 ht
    exact ⟨v, lookup_instanceVars hv, (Results.pure_eq_ok.1 ht).symm⟩

omit [Build] in
theorem tapIndex_eq {i : ℕ} (hi : i < 2 ^ 64) (h : vars.lookup "instance" = some (toString i)) :
    tapIndex vars = UInt64.ofNat i := by
  rw [tapIndex, h, Option.bind_some, parseU64_nat i hi, Option.getD_some]

theorem mem_taps {built : Built (FirecrackerTarget ⊕ τ)}
    (h : buildTarget (selectTarget host others d pinThreads) d vars pinThreads = .ok built)
    {name : String} (hname : name ∈ built.taps) : ∃ index, name = tapName host.pid index := by
  rcases buildTarget_cases h with rfl | ⟨inners, rfl, hall⟩
  · exact ⟨_, tapOf_selectTarget (Option.mem_toList.1 hname)⟩
  · obtain ⟨t, ht, htap⟩ := List.mem_filterMap.1 hname
    obtain ⟨i, -, v, -, rfl⟩ := Results.exists_left hall ht
    exact ⟨_, tapOf_selectTarget htap⟩

/-- The targets of a run have each a tap device of their own. -/
theorem nodup_taps {built : Built (FirecrackerTarget ⊕ τ)}
    (h : buildTarget (selectTarget host others d pinThreads) d vars pinThreads = .ok built) :
    built.taps.Nodup := by
  rcases buildTarget_cases h with rfl | ⟨inners, rfl, hall⟩
  · unfold Built.taps
    dsimp only
    cases tapOf (selectTarget host others d pinThreads 0 vars) with
    | none => exact List.nodup_nil
    | some name => exact List.nodup_singleton name
  · have hfits : ∀ i ∈ List.range (instancesOf d vars).toNat, i < 2 ^ 64 := by
      intro i hi
      have hlt := List.mem_range.1 hi
      have hcount := (instancesOf d vars).toNat_lt
      omega
    refine Results.nodup_filterMap (g := fun i => tapName host.pid (UInt64.ofNat i)) hall
      List.nodup_range (fun i hi t name ht htap => ?_) fun i hi j hj hij => ?_
    · obtain ⟨v, hv, rfl⟩ := ht
      rw [tapOf_selectTarget htap, tapIndex_eq (hfits i hi) hv]
    · have hindex := congrArg UInt64.toNat (tapName_inj.1 hij).2
      rwa [UInt64.toNat_ofNat_of_lt' (hfits i hi), UInt64.toNat_ofNat_of_lt' (hfits j hj)] at hindex

/-- Names of tap devices tell processes and instances apart and fit the kernel; so no two targets
of a run have one device, no two processes do, and no target deletes a device that was not added
for its own process and instance. -/
theorem taps_apart :
    (∀ (p q : UInt32) (i j : UInt64), tapName p i = tapName q j ↔ p = q ∧ i = j) ∧
    (∀ (p : UInt32) (i : UInt64), i.toNat ≤ 9999 → (tapName p i).length ≤ 15) ∧
    (∀ (pid : UInt32) (now : UInt64) (config : List (String × Json F)) (vars : Vars) (pin : Bool),
      ∀ name ∈ (firecrackerTarget pid now config vars pin).tap,
        name = tapName pid (tapIndex vars)) ∧
    (∀ (host host' : Host) (d d' : BenchmarkDef F) (vars vars' : Vars) (pin pin' : Bool)
        (built built' : Built (FirecrackerTarget ⊕ τ)),
      buildTarget (selectTarget host others d pin) d vars pin = .ok built →
      buildTarget (selectTarget host' others d' pin') d' vars' pin' = .ok built' →
        built.taps.Nodup ∧ (host.pid ≠ host'.pid → List.Disjoint built.taps built'.taps)) ∧
    ∀ (evs : List (TapEvent F)) (e : TapEvent F), ∀ dev ∈ devicesAfter evs,
      dev ∉ TapEvent.apply (devicesAfter evs) e →
        dev.pid = e.running.pid ∧ dev.index = tapIndex e.running.vars := by
  refine ⟨fun p q i j => tapName_inj, fun p i h => length_tapName_le p h,
    fun pid now config vars pin name h => firecrackerTarget_tap h, ?_,
    fun evs e dev hdev hgone => removed_own hdev hgone⟩
  intro host host' d d' vars vars' pin pin' built built' h h'
  refine ⟨nodup_taps h, fun hpid name hname hname' => ?_⟩
  obtain ⟨i, hi⟩ := mem_taps h hname
  obtain ⟨j, hj⟩ := mem_taps h' hname'
  exact hpid (tapName_inj.1 (hi.symm.trans hj)).1

end Runs

section Example

attribute [local instance] releaseBuild

/-- The last of ten thousand instances of the greatest process id. -/
theorem taps_apart_last :
    tapName 4294967295 9999 ≠ tapName 4294967295 999 ∧ (tapName 4294967295 9999).length ≤ 15 := by
  have hnames := @taps_apart ℚ Unit _ _ fun _ _ _ => ()
  exact ⟨fun h => absurd ((hnames.1 _ _ _ _).1 h).2 (by decide), hnames.2.1 _ _ (by decide)⟩

end Example

end Assayist
