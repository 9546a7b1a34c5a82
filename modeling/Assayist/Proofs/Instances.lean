import Assayist.Proofs.Pinning
import Assayist.Proofs.Substitution
import Assayist.Spec.Targets

/-! The placeholder of an instance's index, which is bound only where there are several
instances. -/

namespace Assayist

open Provenance

section Left

variable {T : List Char} {k v : String} {vars : Vars}

/-- The reference to `k` at the `p`-th character of the template, as it stands there. -/
def referenceAt (k : String) (p : ℕ) : Origin Char ℕ :=
  (placeholder k).zip (stretch p (placeholder k).length)

/-- A reference of the template to `k` is still in the text that is made of it. -/
def LeftIn (s : Origin Char ℕ) (k : String) (p : ℕ) : Prop :=
  ∃ x y, s = x ++ (referenceAt k p ++ y)

theorem chars_referenceAt (k : String) (p : ℕ) : chars (referenceAt k p) = placeholder k :=
  List.map_fst_zip (length_stretch _ _).ge

theorem referenceAt_ne_nil (k : String) (p : ℕ) : referenceAt k p ≠ [] := by
  intro h
  have hpos := placeholder_pos k
  rw [← chars_referenceAt k p, h] at hpos
  exact absurd hpos (Nat.lt_irrefl 0)

/-- Each of its characters is the template's. -/
theorem origin_of_mem {p : ℕ} {c : Char × Option ℕ} (hc : c ∈ referenceAt k p) :
    ∃ i, c.2 = some i ∧ i ∈ origins (referenceAt k p) := by
  have hsnd : c.2 ∈ stretch p (placeholder k).length := (List.of_mem_zip hc).2
  obtain ⟨i, -, hi⟩ := List.mem_map.1 hsnd
  exact ⟨i, hi.symm, List.mem_filterMap.2 ⟨c, hc, hi.symm⟩⟩

theorem leftIn_original {p : ℕ} (h : RefersAt T k p) : LeftIn (original T) k p := by
  have hfree (q : ℕ) : reference (fun _ => none) (T.drop q) = none :=
    reference_eq_none_iff.2 (fun _ _ => rfl)
  have hpos := placeholder_pos k
  have hle := h.le
  obtain ⟨-, hrest⟩ := take_rest (fun q _ _ => hfree q) (p := 0) (n := p) (by omega)
  obtain ⟨hblock, -⟩ := take_rest (fun q _ _ => hfree q) hle
  rw [Nat.zero_add] at hrest
  rw [← List.prefix_iff_eq_take.1 h] at hblock
  refine ⟨(rest (fun _ => none) T 0).take p,
    (rest (fun _ => none) T p).drop (placeholder k).length, ?_⟩
  unfold referenceAt
  rw [← rest_nothing, ← hblock, List.take_append_drop, ← hrest, List.take_append_drop]

theorem origins_rendered {s : Origin Char ℕ} {i : ℕ} (h : i ∈ origins (rendered vars s)) :
    i ∈ origins s := by
  induction vars generalizing s with
  | nil => exact h
  | cons e vars ih => exact origins_subset _ (placeholder_pos e.1) (ih h)

/-- Of a reference to a variable, something is gone once all variables have had their turn. -/
theorem taken_of_bound {s : Origin Char ℕ} {p : ℕ} (hs : (origins s).Nodup)
    (hleft : LeftIn s k p ∨ ∃ i ∈ origins (referenceAt k p), i ∉ origins s)
    (hbound : vars.lookup k = some v) :
    ∃ i ∈ origins (referenceAt k p), i ∉ origins (rendered vars s) := by
  induction vars generalizing s with
  | nil => cases hbound
  | cons e vars ih =>
    have hpos := placeholder_pos e.1
    have hstep : origins (replace (placeholder e.1) e.2.toList 0 s) ⊆ origins s :=
      fun i hi => origins_subset _ hpos hi
    have hnodup : (origins (replace (placeholder e.1) e.2.toList 0 s)).Nodup :=
      ((origins_replace e.2.toList hpos).nodup_iff.2 hs).of_append_right
    have htaken {x y : Origin Char ℕ} (heq : s = x ++ (referenceAt k p ++ y))
        (h : ∃ o ∈ stretches (placeholder e.1) 0 (x ++ (referenceAt k p ++ y)),
          ∃ c ∈ referenceAt k p, c.2 ∈ o) :
        ∃ i ∈ origins (referenceAt k p),
          i ∉ origins (replace (placeholder e.1) e.2.toList 0 s) := by
      obtain ⟨o, ho, c, hc, hco⟩ := h
      obtain ⟨i, hci, hi⟩ := origin_of_mem hc
      exact ⟨i, hi, not_mem_of_taken _ hpos hs (heq ▸ ho) (hci ▸ hco)⟩
    have hrun : rendered (e :: vars) s =
        rendered vars (replace (placeholder e.1) e.2.toList 0 s) := rfl
    rw [hrun]
    by_cases hk : k = e.1
    · -- the turn of the variable itself
      have hgone : ∃ i ∈ origins (referenceAt k p),
          i ∉ origins (replace (placeholder e.1) e.2.toList 0 s) := by
        rcases hleft with ⟨x, y, hxy⟩ | ⟨i, hi, hnot⟩
        · exact htaken hxy (block_taken hpos x (hk ▸ chars_referenceAt k p) y)
        · exact ⟨i, hi, fun h => hnot (hstep h)⟩
      obtain ⟨i, hi, hnot⟩ := hgone
      exact ⟨i, hi, fun h => hnot (origins_rendered h)⟩
    · rw [List.lookup_cons, beq_false_of_ne hk] at hbound
      apply ih hnodup _ hbound
      rcases hleft with ⟨x, y, hxy⟩ | ⟨i, hi, hnot⟩
      · rcases block_left_or_taken e.2.toList hpos x (referenceAt_ne_nil k p) y with
          ⟨x', y', hleft⟩ | h
        · exact .inl ⟨x', y', hxy ▸ hleft⟩
        · exact .inr (htaken hxy h)
      · exact .inr ⟨i, hi, fun h => hnot (hstep h)⟩

theorem not_leftIn_of_bound {p : ℕ} (href : RefersAt T k p) (hbound : vars.lookup k = some v) :
    ¬ LeftIn (rendered vars (original T)) k p := by
  rintro ⟨x, y, hxy⟩
  obtain ⟨i, hi, hnot⟩ :=
    taken_of_bound (nodup_original T) (.inl (leftIn_original href)) hbound
  apply hnot
  rw [hxy, origins_append, origins_append]
  exact List.mem_append_right _ (List.mem_append_left _ hi)

end Left

section Settings

variable {F : Type} [FloatText F] {vars : Vars} {config config' : List (String × Json F)}

/-- A setting that a parameter of the cell takes the place of. -/
def besidesCell (vars : Vars) (key : String) : List String :=
  if (vars.lookup key).isSome then [] else [key]

/-- A setting that is looked at only where another one is there. -/
def onlyWith (config : List (String × Json F)) (other key : String) : List String :=
  if (config.lookup other).isSome then [key] else []

def firecrackerSettings (config : List (String × Json F)) (vars : Vars) : List String :=
  besidesCell vars "vcpu" ++ besidesCell vars "mem_mib" ++
    onlyWith config "from_snapshot" "mem_file" ++ onlyWith config "snapshot_out" "snapshot_mem" ++
    ["bin", "api_sock", "smt", "kernel", "rootfs", "boot_args", "from_snapshot", "snapshot_out",
      "readiness", "pre_restore", "mem_backend", "uffd_handler", "stream_source", "stream_bin",
      "stream_wsmeta", "stream_prefetch", "network"]

def qemuSettings (vars : Vars) : List String :=
  besidesCell vars "vcpu" ++ besidesCell vars "mem_mib" ++
    ["bin", "qmp_sock", "kernel", "rootfs", "boot_args", "extra_args", "readiness"]

def chSettings (vars : Vars) : List String :=
  besidesCell vars "vcpu" ++ besidesCell vars "mem_mib" ++
    ["bin", "api_sock", "kernel", "rootfs", "cmdline", "extra_args", "readiness"]

def unikernelSettings (vars : Vars) : List String :=
  besidesCell vars "mem_mib" ++
    ["bin", "qmp_sock", "boot_style", "image", "boot_args", "hostfwd", "extra_args", "readiness"]

def targetPhases : List String :=
  ["version", "provision", "start", "reach_steady", "spans", "teardown"]

theorem cfg_congr {key : String} (h : config'.lookup key = config.lookup key) (default : String) :
    cfg config' vars key default = cfg config vars key default := by
  unfold cfg
  rw [h]

theorem getD_cfg_congr {key : String}
    (h : ∀ k ∈ besidesCell vars key, config'.lookup k = config.lookup k) (default : String) :
    (vars.lookup key).getD (cfg config' vars key default) =
      (vars.lookup key).getD (cfg config vars key default) := by
  cases hkey : vars.lookup key with
  | some v => rfl
  | none =>
    unfold besidesCell at h
    rw [hkey, Option.isSome_none, if_neg Bool.false_ne_true, List.forall_mem_singleton] at h
    exact cfg_congr h default

theorem pair_cfg_congr {other key : String}
    (h : ∀ k ∈ onlyWith config other key, config'.lookup k = config.lookup k) :
    (config.lookup other).map (fun _ => (cfg config vars other "", cfg config' vars key "")) =
      (config.lookup other).map fun _ => (cfg config vars other "", cfg config vars key "") := by
  cases hlookup : config.lookup other with
  | none => rfl
  | some v =>
    unfold onlyWith at h
    rw [hlookup, Option.isSome_some, if_pos rfl, List.forall_mem_singleton] at h
    rw [Option.map_some, Option.map_some, cfg_congr h]

/-- What a firecracker target is made of: no other setting has a part in it. -/
theorem firecrackerTarget_congr (pid : UInt32) (now : UInt64) (pin : Bool)
    (h : ∀ key ∈ firecrackerSettings config vars, config'.lookup key = config.lookup key) :
    firecrackerTarget pid now config' vars pin = firecrackerTarget pid now config vars pin := by
  unfold firecrackerSettings at h
  simp only [List.forall_mem_append, List.forall_mem_cons] at h
  obtain ⟨⟨⟨⟨hvcpu, hmem⟩, hmemfile⟩, hsnapmem⟩, h1, h2, h3, h4, h5, h6, h7, h8, h9, h10, h11,
    h12, h13, h14, h15, h16, h17, -⟩ := h
  unfold firecrackerTarget
  dsimp only
  simp only [getD_cfg_congr hvcpu, getD_cfg_congr hmem, cfg_congr h1, cfg_congr h2, cfg_congr h3,
    cfg_congr h4, cfg_congr h5, cfg_congr h6, cfg_congr h7, cfg_congr h8, cfg_congr h9,
    cfg_congr h10, cfg_congr h11, cfg_congr h12, cfg_congr h13, cfg_congr h14, cfg_congr h15,
    cfg_congr h16, cfg_congr h17, h7, h8, h9, h10, h12, h13, pair_cfg_congr hmemfile,
    pair_cfg_congr hsnapmem]

theorem qemuTarget_congr (pid : UInt32) (pin : Bool)
    (h : ∀ key ∈ qemuSettings vars, config'.lookup key = config.lookup key) :
    qemuTarget pid config' vars pin = qemuTarget pid config vars pin := by
  unfold qemuSettings at h
  simp only [List.forall_mem_append, List.forall_mem_cons] at h
  obtain ⟨⟨hvcpu, hmem⟩, h1, h2, h3, h4, h5, h6, h7, -⟩ := h
  unfold qemuTarget
  dsimp only
  rw [getD_cfg_congr hvcpu, getD_cfg_congr hmem, cfg_congr h1, cfg_congr h2, cfg_congr h3,
    cfg_congr h4, cfg_congr h5, cfg_congr h6, cfg_congr h7, h7]

theorem chTarget_congr (pid : UInt32) (pin : Bool)
    (h : ∀ key ∈ chSettings vars, config'.lookup key = config.lookup key) :
    chTarget pid config' vars pin = chTarget pid config vars pin := by
  unfold chSettings at h
  simp only [List.forall_mem_append, List.forall_mem_cons] at h
  obtain ⟨⟨hvcpu, hmem⟩, h1, h2, h3, h4, h5, h6, h7, -⟩ := h
  unfold chTarget
  dsimp only
  rw [getD_cfg_congr hvcpu, getD_cfg_congr hmem, cfg_congr h1, cfg_congr h2, cfg_congr h3,
    cfg_congr h4, cfg_congr h5, cfg_congr h6, cfg_congr h7, h7]

theorem unikernelTarget_congr (pid : UInt32) (pin : Bool)
    (h : ∀ key ∈ unikernelSettings vars, config'.lookup key = config.lookup key) :
    unikernelTarget pid config' vars pin = unikernelTarget pid config vars pin := by
  unfold unikernelSettings at h
  simp only [List.forall_mem_append, List.forall_mem_cons] at h
  obtain ⟨hmem, h1, h2, h3, h4, h5, h6, h7, h8, -⟩ := h
  unfold unikernelTarget
  dsimp only
  rw [getD_cfg_congr hmem, cfg_congr h1, cfg_congr h2, cfg_congr h3, cfg_congr h4, cfg_congr h5,
    cfg_congr h6, cfg_congr h7, cfg_congr h8, h8]

end Settings

section Built

variable {F : Type} {d : BenchmarkDef F} {vars : Vars}

/-- The settings that the target of a definition is made of. -/
def settingsRead (d : BenchmarkDef F) (vars : Vars) : List String :=
  if d.target.adapter = "firecracker" then firecrackerSettings d.target.config vars
  else if d.target.adapter = "qemu" then qemuSettings vars
  else if d.target.adapter = "cloud-hypervisor" ∨ d.target.adapter = "chv" then chSettings vars
  else if d.target.adapter = "unikernel" then unikernelSettings vars
  else []

def phasesRun (d : BenchmarkDef F) : List String :=
  if d.target.adapter ∈ ["firecracker", "qemu", "cloud-hypervisor", "chv", "unikernel"] then []
  else targetPhases

/-- A target is made of these settings and of its commands alone. -/
theorem selectTarget_congr [FloatText F] (host : Host) {d' : BenchmarkDef F} (pin : Bool) (i : ℕ)
    (hadapter : d'.target.adapter = d.target.adapter)
    (hsettings : ∀ key ∈ settingsRead d vars,
      d'.target.config.lookup key = d.target.config.lookup key)
    (hcommands : d'.target.commands = d.target.commands) :
    selectTarget host (otherTarget host.pid) d' pin i vars =
      selectTarget host (otherTarget host.pid) d pin i vars := by
  unfold settingsRead at hsettings
  unfold selectTarget otherTarget
  rw [hadapter, hcommands]
  split_ifs at hsettings ⊢
  · rw [firecrackerTarget_congr _ _ _ hsettings]
  · rw [qemuTarget_congr _ _ hsettings]
  · rw [chTarget_congr _ _ hsettings]
  · rw [unikernelTarget_congr _ _ hsettings]
  · rfl

/-- The templates that the target of a definition renders: the settings it is made of, where they
are strings, or the commands it runs. -/
def templatesOf (d : BenchmarkDef F) (vars : Vars) : List String :=
  (settingsRead d vars).filterMap (fun key => (d.target.config.lookup key).bind Json.asStr) ++
    (phasesRun d).filterMap fun phase => d.target.commands.lookup phase

/-- What a target is made of: its variables, with the target that they make. -/
def made [FloatText F] (host : Host) (d : BenchmarkDef F) (pinThreads : Bool) (i : ℕ)
    (vars : Vars) : Vars × (FirecrackerTarget ⊕ OtherTarget) :=
  (vars, selectTarget host (otherTarget host.pid) d pinThreads i vars)

def Built.indexed {τ : Type} : Built τ → List (String × τ)
  | .single t => [("", t)]
  | .fanout ts => ts.zipIdx.map fun e => (toString e.2, e.1)

/-- The variables bind the index of the instance wherever a template refers to it, and no
reference to it is left in the text that is made of the template. -/
structure Expanded (d : BenchmarkDef F) (index : String) (vars : Vars) : Prop where
  bound : ∀ t ∈ templatesOf d vars, (∃ p, RefersAt t.toList "instance" p) →
    vars.lookup "instance" = some index
  replaced : ∀ t ∈ templatesOf d vars, ∀ p, RefersAt t.toList "instance" p →
    ¬ LeftIn (rendered vars (original t.toList)) "instance" p

theorem expanded_iff {index : String} : Expanded d index vars ↔
    vars.lookup "instance" = some index ∨
      ∀ t ∈ templatesOf d vars, ∀ p, ¬ RefersAt t.toList "instance" p := by
  apply Iff.intro
  · intro h
    by_cases hrefers : ∃ t ∈ templatesOf d vars, ∃ p, RefersAt t.toList "instance" p
    · obtain ⟨t, ht, hp⟩ := hrefers
      exact .inl (h.bound t ht hp)
    · exact .inr (fun t ht p hp => hrefers ⟨t, ht, p, hp⟩)
  · rintro (hbound | hnone)
    · exact ⟨fun _ _ _ => hbound, fun t _ p hp => not_leftIn_of_bound hp hbound⟩
    · refine ⟨fun t ht hex => ?_, fun t ht p hp => absurd hp (hnone t ht p)⟩
      obtain ⟨p, hp⟩ := hex
      exact absurd hp (hnone t ht p)

variable [FloatText F] [Build] {host : Host} {pinThreads : Bool}

omit [FloatText F] in
theorem lookup_instanceVars {vcpu : UInt32} {i : ℕ} {v : Vars}
    (h : instanceVars vars pinThreads vcpu i = .ok v) :
    v.lookup "instance" = some (toString i) := by
  unfold instanceVars at h
  split_ifs at h
  · obtain ⟨base, -, hv⟩ := Results.bind_eq_ok.1 h
    rw [← Results.pure_eq_ok.1 hv, Vars.lookup_insert, if_neg (by decide), Vars.lookup_insert,
      if_pos rfl]
  · rw [← Results.pure_eq_ok.1 h, Vars.lookup_insert, if_pos rfl]

/-- Each of several instances is made with its index. -/
theorem bound_of_fanout (hmany : 1 < instancesOf d vars) {built : Built _}
    (h : buildTarget (made host d pinThreads) d vars pinThreads = .ok built) :
    ∀ e ∈ built.indexed, e.2.1.lookup "instance" = some e.1 := by
  unfold buildTarget at h
  dsimp only at h
  rw [if_neg (UInt32.not_le.2 hmany)] at h
  obtain ⟨inners, hinners, hbuilt⟩ := Results.bind_eq_ok.1 h
  obtain rfl := Results.pure_eq_ok.1 hbuilt
  intro e he
  obtain ⟨⟨t, i⟩, hti, rfl⟩ := List.mem_map.1 he
  have hget := List.mem_zipIdx_iff_getElem?.1 hti
  have hall := Results.mapM_eq_ok.1 hinners
  obtain ⟨hlt, ht⟩ := List.getElem?_eq_some_iff.1 hget
  have hlen := hall.length_eq
  have hmade := List.forall₂_iff_get.1 hall |>.2 i (by omega) hlt
  simp only [List.get_eq_getElem, List.getElem_range] at hmade
  obtain ⟨v, hv, hmade⟩ := Results.bind_eq_ok.1 hmade
  rw [← ht, ← Results.pure_eq_ok.1 hmade]
  exact lookup_instanceVars hv

/-- Every target of a run has its index in place of each reference to it just where there are
several instances, or nothing refers to it, or a parameter of the cell happens to stand in. -/
theorem instance_expanded_iff {built : Built (Vars × (FirecrackerTarget ⊕ OtherTarget))}
    (h : buildTarget (made host d pinThreads) d vars pinThreads = .ok built) :
    (∀ e ∈ built.indexed, Expanded d e.1 e.2.1) ↔
      1 < instancesOf d vars ∨ vars.lookup "instance" = some "" ∨
        ∀ t ∈ templatesOf d vars, ∀ p, ¬ RefersAt t.toList "instance" p := by
  by_cases hmany : 1 < instancesOf d vars
  · exact iff_of_true (fun e he => expanded_iff.2 (.inl (bound_of_fanout hmany h e he)))
      (.inl hmany)
  · have hone : buildTarget (made host d pinThreads) d vars pinThreads =
        .ok (.single (made host d pinThreads 0 vars)) := by
      unfold buildTarget
      dsimp only
      rw [if_pos (UInt32.not_lt.1 hmany)]
      rfl
    obtain rfl := Except.ok.inj (hone.symm.trans h)
    rw [or_iff_right hmany]
    change (∀ e ∈ [("", made host d pinThreads 0 vars)], Expanded d e.1 e.2.1) ↔ _
    rw [List.forall_mem_singleton]
    exact expanded_iff

end Built

section Lone

attribute [local instance] releaseBuild

def loneSocket : BenchmarkDef ℚ where
  apiVersion := "assayist/v0"
  name := "bench"
  target := ⟨"firecracker", "1", [], [("api_sock", .string "/tmp/fc\x7binstance\x7d.sock")]⟩
  workload := ⟨"fio", "3", [], []⟩
  gate := ⟨"ab_permutation", none, none, none, []⟩
  parameterise := []
  compare := none
  capture := []
  hostPrep := .null
  tenancy := "single_tenant"

theorem instance_expanded_iff_lone :
    ∃ built, buildTarget (made someHost loneSocket false) loneSocket [] false = .ok built ∧
      ((∀ e ∈ built.indexed, Expanded loneSocket e.1 e.2.1) ↔
        1 < instancesOf loneSocket [] ∨ ([] : Vars).lookup "instance" = some "" ∨
          ∀ t ∈ templatesOf loneSocket [], ∀ p, ¬ RefersAt t.toList "instance" p) := by
  have hbuilt : buildTarget (made someHost loneSocket false) loneSocket [] false =
      .ok (.single (made someHost loneSocket false 0 [])) := rfl
  exact ⟨_, hbuilt, instance_expanded_iff hbuilt⟩

/-- The socket of a lone instance has the placeholder in its path. -/
theorem instance_unexpanded :
    ¬ ∀ (host : Host) (d : BenchmarkDef ℚ) (vars : Vars) (t : FirecrackerTarget),
      buildTarget (selectTarget host (otherTarget host.pid) d false) d vars false =
        .ok (.single (.inl t)) → ¬ placeholder "instance" <:+: t.sock.toList := by
  intro h
  apply h someHost loneSocket [] _ rfl
  exact ⟨"/tmp/fc".toList, ".sock".toList, by decide +kernel⟩

end Lone

end Assayist
