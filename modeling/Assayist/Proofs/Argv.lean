import Assayist.Lib.Results
import Assayist.Proofs.Accepted
import Assayist.Proofs.Text
import Assayist.Spec.RunGate

/-! The argument vector the orchestrator builds against the gate's flag parser. -/

namespace Assayist

variable {F : Type}

section Paths

/-- A path that no flag can be taken for. -/
def IsPath (p : String) : Prop := startsWith p "--" = false

theorem startsWith_valueFlags : ∀ f ∈ valueFlags, startsWith f "--" = true := by decide

theorem IsPath.not_value {p : String} (h : IsPath p) : valueFlags.contains p = false := by
  rw [← Bool.not_eq_true, List.contains_iff_mem]
  intro hmem
  rw [IsPath, startsWith_valueFlags p hmem] at h
  exact absurd h (by decide)

theorem IsPath.ne {p f : String} (h : IsPath p) (hf : startsWith f "--" = true) : p ≠ f := by
  intro he
  rw [IsPath, he, hf] at h
  exact absurd h (by decide)

theorem IsPath.slot {p : String} (h : IsPath p) : Slot.ofFlag p = none := by
  have ha : p ≠ "--a" := h.ne (by decide)
  have hb : p ≠ "--b" := h.ne (by decide)
  have hbase : p ≠ "--baseline" := h.ne (by decide)
  have hcand : p ≠ "--candidate" := h.ne (by decide)
  simp [Slot.ofFlag, ha, hb, hbase, hcand]

theorem IsPath.switch {p : String} (h : IsPath p) (args : Args F) : setSwitch args p = none := by
  have hallow : p ≠ "--allow-ungraded" := h.ne (by decide)
  have hstrict : p ≠ "--strict-single-cell" := h.ne (by decide)
  simp [setSwitch, hallow, hstrict]

theorem foldl_push_a (ps : List String) (args : Args F) :
    ps.foldl (fun args p => args.push .a p) args = { args with a := args.a ++ ps } := by
  induction ps generalizing args with
  | nil => simp
  | cons p ps ih =>
    rw [List.foldl_cons, ih]
    simp [Args.push]

theorem foldl_push_b (ps : List String) (args : Args F) :
    ps.foldl (fun args p => args.push .b p) args = { args with b := args.b ++ ps } := by
  induction ps generalizing args with
  | nil => simp
  | cons p ps ih =>
    rw [List.foldl_cons, ih]
    simp [Args.push]

end Paths

section Parse

variable [FloatText F]

theorem setValue_pThreshold (args : Args F) {v : String} {x : F} (h : FloatText.parse v = some x) :
    setValue args "--p-threshold" v =
      .ok { args with cfg := { args.cfg with pThreshold := x } } := by
  simp [setValue, h, parsed]
  rfl

theorem setValue_noiseThreshold (args : Args F) {v : String} {x : F}
    (h : FloatText.parse v = some x) :
    setValue args "--noise-threshold" v =
      .ok { args with cfg := { args.cfg with noiseThreshold := x } } := by
  simp [setValue, h, parsed]
  rfl

theorem setValue_resamples (args : Args F) {v : String} {n : UInt64} (h : parseU64 v = some n) :
    setValue args "--resamples" v =
      .ok { args with cfg := { args.cfg with resamples := n.toNat } } := by
  simp [setValue, h, parsed]
  rfl

/-- A value flag takes the next argument, whatever it looks like. -/
theorem parseFrom_value {args args' : Args F} {cur : Option Slot} {flag v : String}
    {rest : List String} (hflag : flag ∈ valueFlags) (hset : setValue args flag v = .ok args') :
    parseFrom args cur (flag :: v :: rest) = parseFrom args' none rest := by
  have hmem : valueFlags.contains flag = true := List.contains_iff_mem.2 hflag
  rw [parseFrom.eq_def]
  simp only [hmem, if_true, hset]

theorem parseFrom_slot {args : Args F} {cur : Option Slot} {flag : String} {slot : Slot}
    {rest : List String} (hflag : flag ∉ valueFlags) (hslot : Slot.ofFlag flag = some slot) :
    parseFrom args cur (flag :: rest) = parseFrom args (some slot) rest := by
  have hmem : valueFlags.contains flag = false := by
    rwa [← Bool.not_eq_true, List.contains_iff_mem]
  rw [parseFrom.eq_def]
  simp only [hmem, Bool.false_eq_true, if_false, hslot]

theorem parseFrom_path {args : Args F} {slot : Slot} {p : String} {rest : List String}
    (hp : IsPath p) :
    parseFrom args (some slot) (p :: rest) = parseFrom (args.push slot p) (some slot) rest := by
  have hdash : startsWith p "--" = false := hp
  rw [parseFrom.eq_def]
  simp only [hp.not_value, Bool.false_eq_true, if_false, hp.slot, hp.switch, hdash]

theorem parseFrom_paths {slot : Slot} {ps : List String} (hps : ∀ p ∈ ps, IsPath p)
    {rest : List String} (args : Args F) :
    parseFrom args (some slot) (ps ++ rest) =
      parseFrom (ps.foldl (fun args p => args.push slot p) args) (some slot) rest := by
  induction ps generalizing args with
  | nil => rfl
  | cons p ps ih =>
    rw [List.cons_append, parseFrom_path (hps p List.mem_cons_self),
      ih fun q hq => hps q (List.mem_cons_of_mem _ hq)]
    rfl

theorem parseFrom_ignores (igs : List String) {cur : Option Slot} {rest : List String}
    (args : Args F) (hcur : igs = [] → cur = none) :
    parseFrom args cur (igs.flatMap (fun ig => ["--ignore", ig]) ++ rest) =
      parseFrom { args with cfg := { args.cfg with ignore := args.cfg.ignore ++ igs } } none
        rest := by
  induction igs generalizing args cur with
  | nil => simp [hcur rfl]
  | cons ig igs ih =>
    simp only [List.flatMap_cons, List.cons_append, List.nil_append]
    rw [parseFrom_value (by decide) rfl, ih _ fun _ => rfl]
    simp

end Parse

section Argv

variable [FloatText F] [F64 F]

/-- Text of the two thresholds that reads back as the value. -/
def TextRoundTrips (th : GateThresholds F) : Prop :=
  FloatText.parse (FloatText.display th.pThreshold) = some th.pThreshold ∧
    FloatText.parse (FloatText.display th.noiseThreshold) = some th.noiseThreshold

/-- What the gate makes of the orchestrator's arguments: both groups under `--a` and
`--b`, and the thresholds. -/
theorem parseArgs_gateArgv (mode : String) {a b : List String} {th : GateThresholds F}
    (ha : ∀ p ∈ a, IsPath p) (hb : ∀ p ∈ b, IsPath p) (htext : TextRoundTrips th) :
    parseArgs (gateArgv mode a b th) =
      .ok { mode, a, b, baseline := [], candidate := [], out := "-", cfg := th.config } := by
  obtain ⟨hp, hn⟩ := htext
  have hflags : ∀ (args : Args F), parseFrom args none
      (if th.allowUngraded then ["--allow-ungraded"] else []) =
        .ok { args with
          cfg := { args.cfg with allowUngraded := args.cfg.allowUngraded || th.allowUngraded } } := by
    intro args
    cases th.allowUngraded <;> simp [parseFrom, valueFlags, Slot.ofFlag, setSwitch]
  unfold parseArgs gateArgv
  simp only [List.append_assoc, List.cons_append, List.nil_append]
  rw [parseFrom_value (by decide) rfl, parseFrom_slot (by decide) rfl, parseFrom_paths ha,
    foldl_push_a, parseFrom_slot (by decide) rfl, parseFrom_paths hb, foldl_push_b,
    parseFrom_value (by decide) (setValue_pThreshold _ hp),
    parseFrom_value (by decide) (setValue_noiseThreshold _ hn),
    parseFrom_value (by decide) (setValue_resamples _ (parseU64_toString _)),
    parseFrom_ignores _ _ fun _ => rfl, hflags]
  simp [Args.initial, Config.default, GateThresholds.config]

end Argv

section Groups

theorem load_ne_nil {disk : Disk F} {paths : List String} {runs : List (Json F)}
    (h : disk.load paths = .ok runs) (hne : paths ≠ []) : runs ≠ [] := by
  have hlen := (Results.mapM_eq_ok.1 h).length_eq
  intro hnil
  rw [hnil, List.length_nil, List.length_eq_zero_iff] at hlen
  exact hne hlen

variable [F64 F] [FloatText F] [Build]

theorem gateRun_judge {disk : Disk F} {argv : List String} {args : Args F}
    (hargs : parseArgs argv = .ok args) (hmode : args.mode ∈ gateModes) (hout : args.out = "-")
    {a b : List (Json F)} (ha : disk.load args.groups.1 = .ok a)
    (hb : disk.load args.groups.2 = .ok b) (hane : a ≠ []) (hbne : b ≠ []) :
    gateRun disk argv = judge args.mode a b args.cfg := by
  have hknown : ["ab_permutation", "longitudinal_drift", "subsystem_triad"].contains args.mode =
      true := List.contains_iff_mem.2 hmode
  have hempty : (a.isEmpty || b.isEmpty) = false := by simp [hane, hbne]
  unfold gateRun
  rw [hargs]
  simp only [hknown, ha, hb, hout, if_true]
  change (if (a.isEmpty || b.isEmpty) = true then _ else _) = _
  rw [hempty, if_neg Bool.false_ne_true]
  cases judge args.mode a b args.cfg <;> rfl

/-- The gate reads the two groups in order under the given thresholds, and judges
them whenever their files can be read. -/
def GroupsArrive (mode : String) (a b : List String) (th : GateThresholds F) : Prop :=
  ∃ args, parseArgs (gateArgv mode a b th) = .ok args ∧ args.mode = mode ∧
    args.cfg = th.config ∧ args.groups = (a, b) ∧
    ∀ (disk : Disk F) (runsA runsB : List (Json F)), disk.load a = .ok runsA →
      disk.load b = .ok runsB →
      gateRun disk (gateArgv mode a b th) = judge mode runsA runsB th.config

/-- For an accepted definition the groups arrive in every mode but drift, which reads
its groups from flags that the orchestrator does not pass. -/
theorem groupsArrive_iff (d : BenchmarkDef F) (hd : d.validate = .ok ()) (a b : List String)
    (ha : a ≠ []) (hb : b ≠ []) (hpa : ∀ p ∈ a, IsPath p) (hpb : ∀ p ∈ b, IsPath p)
    (th : GateThresholds F) (htext : TextRoundTrips th) :
    GroupsArrive d.gate.mode a b th ↔ d.gate.mode ≠ "longitudinal_drift" := by
  have hparse := parseArgs_gateArgv d.gate.mode hpa hpb htext
  refine ⟨fun ⟨args, hargs, hmode, _, hgroups, _⟩ hdrift => ?_, fun hne => ?_⟩
  · rw [hparse] at hargs
    rw [← Except.ok.inj hargs, Args.groups, if_pos hdrift] at hgroups
    exact ha (congrArg Prod.fst hgroups).symm
  · refine ⟨_, hparse, rfl, rfl, by rw [Args.groups, if_neg hne], ?_⟩
    intro disk runsA runsB hloadA hloadB
    refine gateRun_judge hparse (mode_of_validate hd) rfl ?_ ?_ (load_ne_nil hloadA ha)
      (load_ne_nil hloadB hb)
    · rw [Args.groups, if_neg hne]
      exact hloadA
    · rw [Args.groups, if_neg hne]
      exact hloadB

end Groups

section Runs

attribute [local instance] releaseBuild

def gateOnly (mode : String) : BenchmarkDef ℚ where
  apiVersion := "assayist/v0"
  name := "bench"
  target := ⟨"firecracker", "1", [], []⟩
  workload := ⟨"fio", "3", [], []⟩
  gate := ⟨mode, none, none, none, ["p99"]⟩
  parameterise := []
  compare := none
  capture := []
  hostPrep := .null
  tenancy := "single_tenant"

theorem ab_groups_arrive :
    GroupsArrive "ab_permutation" ["a_0_0.json", "a_0_1.json"] ["b_0_0.json", "b_0_1.json"]
      (thresholdsOf (gateOnly "ab_permutation") false) :=
  (groupsArrive_iff (gateOnly "ab_permutation") (by decide) _ _ (by decide) (by decide)
    (by simp [IsPath]; decide) (by simp [IsPath]; decide) _
    ⟨by decide +kernel, by decide +kernel⟩).2 (by decide)

theorem drift_groups_lost :
    (gateOnly "longitudinal_drift").validate = .ok () ∧
      ¬ GroupsArrive "longitudinal_drift" ["a_0_0.json", "a_0_1.json"]
        ["b_0_0.json", "b_0_1.json"] (thresholdsOf (gateOnly "longitudinal_drift") false) := by
  refine ⟨by decide, fun ⟨args, hargs, hmode, _, hgroups, _⟩ => ?_⟩
  have hpaths : ∀ p ∈ ["a_0_0.json", "a_0_1.json", "b_0_0.json", "b_0_1.json"], IsPath p := by
    simp [IsPath]
    decide
  have hpa : ∀ p ∈ ["a_0_0.json", "a_0_1.json"], IsPath p :=
    fun p hp => hpaths p (List.mem_append_left _ hp)
  have hpb : ∀ p ∈ ["b_0_0.json", "b_0_1.json"], IsPath p :=
    fun p hp => hpaths p (List.mem_append_right ["a_0_0.json", "a_0_1.json"] hp)
  rw [parseArgs_gateArgv _ hpa hpb ⟨by decide +kernel, by decide +kernel⟩] at hargs
  rw [← Except.ok.inj hargs] at hgroups
  exact absurd (congrArg Prod.fst hgroups) (by decide)

end Runs

end Assayist
