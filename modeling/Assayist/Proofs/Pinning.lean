import Assayist.Lib.Results
import Assayist.Lib.Strides
import Assayist.Proofs.Text
import Assayist.Spec.Firecracker

/-! Where the instances of a concurrent run pin their threads. How far apart they start is read
from the `vcpu` setting as it is written, but how many CPUs each takes from the setting as the
target renders it. -/

namespace Assayist

section Text

theorem isDigit_of_digitsValue {cs : List Char} {acc n : ℕ} (h : digitsValue cs acc = some n) :
    ∀ c ∈ cs, c.isDigit = true := by
  induction cs generalizing acc with
  | nil => simp
  | cons c cs ih =>
    unfold digitsValue at h
    split_ifs at h with hc
    intro d hd
    rcases List.mem_cons.1 hd with rfl | hd
    · exact hc
    · exact ih h d hd

theorem not_mem_of_parseU64 {s : String} {n : UInt64} (h : parseU64 s = some n) :
    '\x7b' ∉ s.toList := by
  have hdigits {cs : List Char} {m : ℕ} (hcs : digitsValue cs 0 = some m) : '\x7b' ∉ cs := by
    intro hmem
    exact absurd (isDigit_of_digitsValue hcs _ hmem) (by decide)
  unfold parseU64 at h
  dsimp only at h
  split_ifs at h with hempty
  split at h
  · next m hm =>
    split at hm
    · next rest hplus =>
      rw [hplus, List.mem_cons, not_or]
      exact ⟨by decide, hdigits hm⟩
    · exact hdigits hm
  · cases h

theorem replaceFrom_of_not_mem {pat rep cs : List Char} (h : '\x7b' ∉ cs) :
    replaceFrom ('\x7b' :: pat) rep 0 cs = cs := by
  induction cs with
  | nil => rfl
  | cons c cs ih =>
    obtain ⟨hc, hcs⟩ := not_or.1 (List.mem_cons.not.1 h)
    have hno : ('\x7b' :: pat).isPrefixOf (c :: cs) = false := by
      rw [List.isPrefixOf_cons_cons, beq_false_of_ne hc, Bool.false_and]
    unfold replaceFrom
    rw [hno, if_neg Bool.false_ne_true, ih hcs]

theorem render_of_not_mem {s : String} (h : '\x7b' ∉ s.toList) (vars : Vars) :
    render s vars = s := by
  unfold render
  induction vars with
  | nil => rfl
  | cons e vars ih =>
    have hsame : String.ofList (replaceFrom (placeholder e.1) e.2.toList 0 s.toList) = s := by
      unfold placeholder
      rw [List.cons_append, replaceFrom_of_not_mem h, String.ofList_toList]
    rw [List.foldl_cons, hsame, ih]

theorem parseU32_toString (n : UInt32) : parseU32 (toString n.toNat) = some n := by
  have hlt := n.toNat_lt
  have hnat : (UInt64.ofNat n.toNat).toNat = n.toNat := by
    rw [UInt64.toNat_ofNat', Nat.mod_eq_of_lt (by omega)]
  unfold parseU32
  rw [parseU64_nat n.toNat (by omega), Option.bind_some, hnat, if_pos hlt]
  congr 1
  rw [← UInt32.toNat_inj, UInt64.toNat_toUInt32, hnat, Nat.mod_eq_of_lt hlt]

theorem parseU64_of_parseU32 {s : String} {n : UInt32} (h : parseU32 s = some n) :
    parseU64 s = some n.toUInt64 := by
  obtain ⟨m, hm, hlt⟩ := Option.bind_eq_some_iff.1 h
  split_ifs at hlt with hfits
  obtain rfl : m.toUInt32 = n := Option.some.inj hlt
  rw [hm, Option.some.injEq, ← UInt64.toNat_inj, UInt32.toNat_toUInt64, UInt64.toNat_toUInt32,
    Nat.mod_eq_of_lt hfits]

end Text

section Vars

theorem Vars.lookup_insert (k v k' : String) (m : Vars) :
    (Vars.insert k v m).lookup k' = if k' = k then some v else m.lookup k' := by
  induction m with
  | nil =>
    unfold Vars.insert
    rw [List.lookup_cons]
    split_ifs with h
    · rw [beq_iff_eq.2 h]
    · rw [beq_false_of_ne h]
  | cons e m ih =>
    unfold Vars.insert
    by_cases hk : k = e.1
    · rw [if_pos hk, List.lookup_cons, List.lookup_cons, hk]
      by_cases hk' : k' = e.1
      · rw [if_pos hk', beq_iff_eq.2 hk']
      · rw [if_neg hk', beq_false_of_ne hk']
    · rw [if_neg hk]
      split_ifs with hlt h h
      · rw [List.lookup_cons, beq_iff_eq.2 h]
      · rw [List.lookup_cons, beq_false_of_ne h]
      · rw [List.lookup_cons, beq_false_of_ne (h ▸ hk), ih, if_pos h]
      · rw [List.lookup_cons, List.lookup_cons, ih, if_neg h]

end Vars

section Targets

open Strides

variable {F τ : Type} [FloatText F] [Build] {d : BenchmarkDef F} {vars : Vars} {host : Host}
  {others : BenchmarkDef F → Vars → Bool → τ}

theorem mulU32_eq_ok {a b c : UInt32} :
    mulU32 a b = .ok c ↔ (Build.overflowChecks = true → a.toNat * b.toNat < 2 ^ 32) ∧ a * b = c :=
  checked_eq_ok

def varsOf (vars : Vars) (i base : ℕ) : Vars :=
  Vars.insert "cpu_base" (toString base) (Vars.insert "instance" (toString i) vars)

/-- The `i`-th instance of a run whose instances start `stride` CPUs apart. -/
def targetAt (host : Host) (d : BenchmarkDef F) (vars : Vars) (stride : UInt32) (i : ℕ) :
    FirecrackerTarget :=
  firecrackerTarget host.pid (host.nowNanos i) d.target.config
    (varsOf vars i (UInt32.ofNat i * stride).toNat) true

omit [Build] in
theorem toNat_ofInstance {i : ℕ} {n : UInt32} (hi : i < n.toNat) : (UInt32.ofNat i).toNat = i := by
  have hn := n.toNat_lt
  rw [UInt32.toNat_ofNat', Nat.mod_eq_of_lt (by omega)]

/-- A concurrent run is of its instances; where the build checks, none of the CPUs they start at
may overflow. -/
theorem buildTarget_eq_ok (hadapter : d.target.adapter = "firecracker")
    (hmany : 1 < instancesOf d vars) {ts : List FirecrackerTarget} :
    buildTarget (selectTarget host others d true) d vars true = .ok (.fanout (ts.map .inl)) ↔
      (Build.overflowChecks = true → ∀ i < (instancesOf d vars).toNat,
        i * (declaredU32 d vars "vcpu").toNat < 2 ^ 32) ∧
      (List.range (instancesOf d vars).toNat).map
        (targetAt host d vars (declaredU32 d vars "vcpu")) = ts := by
  have hstep (i : ℕ) (t : FirecrackerTarget ⊕ τ) :
      (do
        let v ← instanceVars vars true (declaredU32 d vars "vcpu") i
        pure (selectTarget host others d true i v) : Except Abort _) = .ok t ↔
      (Build.overflowChecks = true → (UInt32.ofNat i).toNat *
        (declaredU32 d vars "vcpu").toNat < 2 ^ 32) ∧
        Sum.inl (targetAt host d vars (declaredU32 d vars "vcpu") i) = t := by
    unfold instanceVars selectTarget
    simp only [if_pos hadapter, if_true, Results.bind_eq_ok, Results.pure_eq_ok, mulU32_eq_ok]
    apply Iff.intro
    · intro h
      obtain ⟨v, ⟨base, ⟨hfits, rfl⟩, rfl⟩, rfl⟩ := h
      exact ⟨hfits, rfl⟩
    · intro h
      obtain ⟨hfits, rfl⟩ := h
      exact ⟨_, ⟨_, ⟨hfits, rfl⟩, rfl⟩, rfl⟩
  have hfits : (∀ i ∈ List.range (instancesOf d vars).toNat, Build.overflowChecks = true →
      (UInt32.ofNat i).toNat * (declaredU32 d vars "vcpu").toNat < 2 ^ 32) ↔
      (Build.overflowChecks = true → ∀ i < (instancesOf d vars).toNat,
        i * (declaredU32 d vars "vcpu").toNat < 2 ^ 32) := by
    simp only [List.mem_range]
    apply Iff.intro
    · intro h hon i hi
      have hlt := h i hi hon
      rwa [toNat_ofInstance hi] at hlt
    · intro h i hi hon
      rw [toNat_ofInstance hi]
      exact h hon i hi
  unfold buildTarget
  dsimp only
  rw [if_neg (UInt32.not_le.2 hmany), Results.bind_eq_ok]
  simp only [Results.pure_eq_ok, Results.mapM_eq_ok, hstep, Results.forall₂_and_eq, hfits]
  apply Iff.intro
  · intro h
    obtain ⟨inners, ⟨hall, hinners⟩, hts⟩ := h
    obtain rfl : inners = ts.map .inl := by
      injection hts
    refine ⟨hall, ?_⟩
    have hinj : Function.Injective
        (List.map (Sum.inl : FirecrackerTarget → FirecrackerTarget ⊕ τ)) :=
      List.map_injective_iff.2 Sum.inl_injective
    apply hinj
    rw [List.map_map]
    exact hinners
  · intro h
    obtain ⟨hall, rfl⟩ := h
    refine ⟨_, ⟨hall, ?_⟩, rfl⟩
    rw [List.map_map]
    rfl

end Targets

section Pins

open Strides

variable {F τ : Type} [FloatText F] {d : BenchmarkDef F} {vars : Vars} {host : Host}

/-- The logical CPUs that a target pins the vCPUs of its machine to. -/
def FirecrackerTarget.pins (t : FirecrackerTarget) : Set ℕ :=
  {cpu | ∃ n < t.vcpuCount.toNat, t.pinnedCpu n = cpu}

theorem pins_eq (t : FirecrackerTarget) :
    t.pins = stretch t.cpuBase.toNat t.vcpuCount.toNat := by
  ext cpu
  unfold FirecrackerTarget.pins FirecrackerTarget.pinnedCpu stretch
  rw [Set.mem_ofPred_eq, Set.mem_Ico]
  apply Iff.intro
  · intro h
    obtain ⟨n, hn, rfl⟩ := h
    omega
  · intro h
    obtain ⟨hle, hlt⟩ := h
    exact ⟨cpu - t.cpuBase.toNat, by omega, by omega⟩

theorem cpuBase_targetAt {stride : UInt32} {i : ℕ} :
    (targetAt host d vars stride i).cpuBase = UInt32.ofNat i * stride := by
  have hlookup : (varsOf vars i (UInt32.ofNat i * stride).toNat).lookup "cpu_base" =
      some (toString (UInt32.ofNat i * stride).toNat) := by
    unfold varsOf
    rw [Vars.lookup_insert, if_pos rfl]
  have hbase : (targetAt host d vars stride i).cpuBase =
      (((varsOf vars i (UInt32.ofNat i * stride).toNat).lookup "cpu_base").bind parseU32).getD 0 :=
    rfl
  rw [hbase, hlookup, Option.bind_some, parseU32_toString, Option.getD_some]

/-- How many vCPUs the machine of the `i`-th instance has where its CPUs start at `base`. -/
def vcpusAt (d : BenchmarkDef F) (vars : Vars) (i base : ℕ) : ℕ :=
  ((parseU64 ((vars.lookup "vcpu").getD
    (cfg d.target.config (varsOf vars i base) "vcpu" "1"))).getD 1).toNat

theorem vcpuCount_targetAt {stride : UInt32} {i : ℕ} :
    (targetAt host d vars stride i).vcpuCount.toNat =
      vcpusAt d vars i (UInt32.ofNat i * stride).toNat := by
  have hlookup (base : ℕ) : (varsOf vars i base).lookup "vcpu" = vars.lookup "vcpu" := by
    unfold varsOf
    rw [Vars.lookup_insert, Vars.lookup_insert, if_neg (by decide), if_neg (by decide)]
  have hvcpu : (targetAt host d vars stride i).vcpu =
      ((varsOf vars i (UInt32.ofNat i * stride).toNat).lookup "vcpu").getD
        (cfg d.target.config (varsOf vars i (UInt32.ofNat i * stride).toNat) "vcpu" "1") := rfl
  rw [FirecrackerTarget.vcpuCount, hvcpu, hlookup]
  rfl

theorem vcpusAt_of_number {v : UInt32} (h : (declared d vars "vcpu").bind parseU32 = some v)
    (i base : ℕ) : vcpusAt d vars i base = v.toNat := by
  obtain ⟨s, hs, hv⟩ := Option.bind_eq_some_iff.1 h
  have hparse := parseU64_of_parseU32 hv
  have htext : (vars.lookup "vcpu").getD (cfg d.target.config (varsOf vars i base) "vcpu" "1") =
      s := by
    unfold declared at hs
    cases hvars : vars.lookup "vcpu" with
    | some t =>
      rw [hvars] at hs
      exact Option.some.inj hs
    | none =>
      rw [hvars, Option.none_or, Option.map_eq_some_iff] at hs
      obtain ⟨setting, hsetting, rfl⟩ := hs
      unfold cfg
      rw [hsetting, Option.getD_none]
      cases setting with
      | string t => exact render_of_not_mem (not_mem_of_parseU64 hparse) _
      | null => rfl
      | bool b => rfl
      | number n => rfl
      | array xs => rfl
      | object m => rfl
  rw [vcpusAt, htext, hparse, Option.getD_some, UInt32.toNat_toUInt64]

theorem declaredU32_of_number {key : String} {v : UInt32}
    (h : (declared d vars key).bind parseU32 = some v) :
    (declaredU32 d vars key).toNat = max v.toNat 1 := by
  have hmax : (max v 1).toNat = (if v ≤ 1 then (1 : UInt32) else v).toNat := rfl
  have hone : (1 : UInt32).toNat = 1 := rfl
  rw [declaredU32, h, Option.getD_some, hmax]
  split_ifs with hle
  · have hnat := UInt32.le_iff_toNat_le.1 hle
    omega
  · have hnat := UInt32.le_iff_toNat_le.not.1 hle
    omega

theorem declaredU32_of_none {key : String} (h : (declared d vars key).bind parseU32 = none) :
    declaredU32 d vars key = 1 := by
  rw [declaredU32, h]
  rfl

end Pins

section Disjoint

open Strides

variable {F τ : Type} [FloatText F] [Build]

/-- The run is built, of as many instances as it should have, and no two of them pin to a
common CPU. -/
def DisjointPins (host : Host) (others : BenchmarkDef F → Vars → Bool → τ) (d : BenchmarkDef F)
    (vars : Vars) : Prop :=
  ∃ ts : List FirecrackerTarget,
    buildTarget (selectTarget host others d true) d vars true = .ok (.fanout (ts.map .inl)) ∧
    ts.length = (instancesOf d vars).toNat ∧ ts.Pairwise fun t u => Apart t.pins u.pins

/-- The count is declared as a number and the CPUs can be counted in a `u32`, or it is not, the
instances start one CPU apart, and none has so many that it reaches another. -/
def CpusFit (d : BenchmarkDef F) (vars : Vars) : Prop :=
  match (declared d vars "vcpu").bind parseU32 with
  | some v => ((instancesOf d vars).toNat - 1) * v.toNat < 2 ^ 32
  | none => ∀ i j, i < j → j < (instancesOf d vars).toNat →
      vcpusAt d vars i i ≤ j - i ∨ vcpusAt d vars j j = 0

variable {d : BenchmarkDef F} {vars : Vars} {host : Host}
  {others : BenchmarkDef F → Vars → Bool → τ}

omit [Build] in
theorem pairwise_targets (host : Host) {stride : UInt32} {n : ℕ} :
    (((List.range n).map (targetAt host d vars stride)).Pairwise
        fun t u => Apart t.pins u.pins) ↔
      ∀ i j, i < j → j < n →
        Apart (stretch (UInt32.ofNat i * stride).toNat
            (vcpusAt d vars i (UInt32.ofNat i * stride).toNat))
          (stretch (UInt32.ofNat j * stride).toNat
            (vcpusAt d vars j (UInt32.ofNat j * stride).toNat)) := by
  rw [List.pairwise_map, List.pairwise_iff_getElem]
  simp only [List.length_range, List.getElem_range, pins_eq, cpuBase_targetAt,
    vcpuCount_targetAt]
  exact ⟨fun h i j hij hj => h i j (by omega) hj hij, fun h i j _ hj hij => h i j hij hj⟩

theorem disjointPins_targets (hadapter : d.target.adapter = "firecracker")
    (hmany : 1 < instancesOf d vars) :
    DisjointPins host others d vars ↔
      (Build.overflowChecks = true → ∀ i < (instancesOf d vars).toNat,
        i * (declaredU32 d vars "vcpu").toNat < 2 ^ 32) ∧
      ∀ i j, i < j → j < (instancesOf d vars).toNat →
        Apart (stretch (UInt32.ofNat i * declaredU32 d vars "vcpu").toNat
            (vcpusAt d vars i (UInt32.ofNat i * declaredU32 d vars "vcpu").toNat))
          (stretch (UInt32.ofNat j * declaredU32 d vars "vcpu").toNat
            (vcpusAt d vars j (UInt32.ofNat j * declaredU32 d vars "vcpu").toNat)) := by
  unfold DisjointPins
  simp only [buildTarget_eq_ok hadapter hmany]
  rw [← pairwise_targets host]
  apply Iff.intro
  · intro h
    obtain ⟨ts, ⟨hfits, rfl⟩, -, hapart⟩ := h
    exact ⟨hfits, hapart⟩
  · intro h
    obtain ⟨hfits, hapart⟩ := h
    exact ⟨_, ⟨hfits, rfl⟩, by rw [List.length_map, List.length_range], hapart⟩

/-- The instances start as far apart as a number declares, if it declares any. -/
theorem disjointPins_of_number {v : UInt32} (hadapter : d.target.adapter = "firecracker")
    (hmany : 1 < instancesOf d vars) (hv : (declared d vars "vcpu").bind parseU32 = some v) :
    DisjointPins host others d vars ↔ ((instancesOf d vars).toNat - 1) * v.toNat < 2 ^ 32 := by
  have hstride := declaredU32_of_number hv
  have hn := (instancesOf d vars).toNat_lt
  rw [disjointPins_targets hadapter hmany, hstride]
  have hstart {i : ℕ} (hi : i < (instancesOf d vars).toNat) :
      (UInt32.ofNat i * declaredU32 d vars "vcpu").toNat = i * max v.toNat 1 % 2 ^ 32 := by
    rw [UInt32.toNat_mul, toNat_ofInstance hi, hstride]
  rcases Nat.eq_zero_or_pos v.toNat with hzero | hpos
  · -- no instance pins anything
    refine iff_of_true ⟨fun _ i hi => ?_, fun i j _ _ => ?_⟩ (by rw [hzero, Nat.mul_zero]; decide)
    · have hone : max 0 1 = 1 := rfl
      rw [hzero, hone, Nat.mul_one]
      omega
    · rw [vcpusAt_of_number hv, vcpusAt_of_number hv, hzero, apart_stretch_iff]
      exact Or.inr (Or.inr (Or.inl rfl))
  · have hmax : max v.toNat 1 = v.toNat := by omega
    rw [← strided_iff hpos v.toNat_lt]
    apply Iff.intro
    · intro h i j hij hj
      have hapart := h.2 i j hij hj
      rwa [vcpusAt_of_number hv, vcpusAt_of_number hv, hstart (hij.trans hj), hstart hj,
        hmax] at hapart
    · intro h
      refine ⟨fun _ i hi => ?_, fun i j hij hj => ?_⟩
      · have hfits := (strided_iff hpos v.toNat_lt).1 h
        rw [hmax]
        exact Nat.lt_of_le_of_lt (Nat.mul_le_mul_right _ (by omega)) hfits
      · rw [vcpusAt_of_number hv, vcpusAt_of_number hv, hstart (hij.trans hj), hstart hj, hmax]
        exact h i j hij hj

/-- Without a number declared the instances start one CPU apart. -/
theorem disjointPins_of_none (hadapter : d.target.adapter = "firecracker")
    (hmany : 1 < instancesOf d vars) (hnone : (declared d vars "vcpu").bind parseU32 = none) :
    DisjointPins host others d vars ↔ ∀ i j, i < j → j < (instancesOf d vars).toNat →
      vcpusAt d vars i i ≤ j - i ∨ vcpusAt d vars j j = 0 := by
  have hn := (instancesOf d vars).toNat_lt
  have hone : (1 : UInt32).toNat = 1 := rfl
  have hstart {i : ℕ} (hi : i < (instancesOf d vars).toNat) :
      (UInt32.ofNat i * 1).toNat = i := by
    rw [UInt32.mul_one, toNat_ofInstance hi]
  rw [disjointPins_targets hadapter hmany, declaredU32_of_none hnone]
  apply Iff.intro
  · intro h i j hij hj
    have hapart := h.2 i j hij hj
    rwa [hstart (hij.trans hj), hstart hj, apart_stretch_of_lt hij] at hapart
  · intro h
    refine ⟨fun _ i hi => ?_, fun i j hij hj => ?_⟩
    · rw [hone]
      omega
    · rw [hstart (hij.trans hj), hstart hj, apart_stretch_of_lt hij]
      exact h i j hij hj

/-- The instances of a concurrent firecracker run pin to disjoint CPUs exactly when their
counts fit between where they start. -/
theorem disjointPins_iff (host : Host) (others : BenchmarkDef F → Vars → Bool → τ)
    (d : BenchmarkDef F) (vars : Vars) (hadapter : d.target.adapter = "firecracker")
    (hmany : 1 < instancesOf d vars) :
    DisjointPins host others d vars ↔ CpusFit d vars := by
  unfold CpusFit
  cases hnumber : (declared d vars "vcpu").bind parseU32 with
  | some v => exact disjointPins_of_number hadapter hmany hnumber
  | none => exact disjointPins_of_none hadapter hmany hnumber

end Disjoint

section Runs

attribute [local instance] releaseBuild

def twoInstances (vcpu : Json ℚ) : BenchmarkDef ℚ where
  apiVersion := "assayist/v0"
  name := "bench"
  target := ⟨"firecracker", "1", [], [("instances", .nat 2), ("vcpu", vcpu)]⟩
  workload := ⟨"fio", "3", [], []⟩
  gate := ⟨"ab_permutation", none, none, none, []⟩
  parameterise := [("vcpus", [.nat 2])]
  compare := none
  capture := []
  hostPrep := .object [("pin_threads", .bool true)]
  tenancy := "single_tenant"

def someHost : Host := ⟨1234, fun _ => 0⟩

/-- Two instances of two vCPUs each, the count a number. -/
theorem numbers_disjoint :
    DisjointPins someHost (fun _ _ _ => ()) (twoInstances (.nat 2))
      (Adapter.vars (.object [("vcpus", .nat 2)] : Json ℚ) "abc") := by
  have hnumber : (declared (twoInstances (.nat 2))
      (Adapter.vars (.object [("vcpus", .nat 2)] : Json ℚ) "abc") "vcpu").bind parseU32 =
      some 2 := by decide +kernel
  refine (disjointPins_iff someHost (fun _ _ _ => ()) (twoInstances (.nat 2)) _ rfl
    (by decide +kernel)).2 ?_
  unfold CpusFit
  rw [hnumber]
  decide +kernel

/-- The same with the count taken from the cell by a reference: the second instance starts
where the first has its second vCPU. -/
theorem templates_overlap :
    ¬ DisjointPins someHost (fun _ _ _ => ()) (twoInstances (.string "\x7bvcpus\x7d"))
      (Adapter.vars (.object [("vcpus", .nat 2)] : Json ℚ) "abc") := by
  intro h
  have hfits := (disjointPins_of_none rfl (by decide +kernel) (by decide +kernel)).1 h 0 1
    (by decide) (by decide +kernel)
  revert hfits
  decide +kernel

end Runs

end Assayist
