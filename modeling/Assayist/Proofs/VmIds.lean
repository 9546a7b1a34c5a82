import Assayist.Proofs.Attribution

/-! Two attributed runs over one target. The raw fragments carry the same handles in
both, the rewritten ones the ids each run drew, and the gate compares those. -/

namespace Assayist

section Rewrite

variable {F : Type}

/-- One series with its handle replaced by the id the table has for it. -/
def relabel (table : HandleTable) (s : Json F) : Json F := (rewriteSeries table [] s).1

theorem rewriteSeries_fst (table : HandleTable) (unknown : List String) (s : Json F) :
    (rewriteSeries table unknown s).1 = relabel table s := by
  unfold relabel rewriteSeries
  cases vmIdLabel s with
  | none => rfl
  | some raw =>
    cases hraw : parseU64 raw with
    | none => simp only [hraw]
    | some h =>
      simp only [hraw]
      cases table.get h.toNat <;> rfl

theorem rewriteAll_fst (table : HandleTable) (unknown : List String) (ss : List (Json F)) :
    (rewriteAll table unknown ss).1 = ss.map (relabel table) := by
  induction ss generalizing unknown with
  | nil => rfl
  | cons s ss ih =>
    rw [List.map_cons, ← rewriteSeries_fst table unknown s,
      ← ih (rewriteSeries table unknown s).2]
    rfl

theorem rewrite_series (table : HandleTable) (unknown : List String) (fs : List (Fragment F)) :
    (rewriteVmIdLabels table unknown fs).1.flatMap (·.series) =
      (fs.flatMap (·.series)).map (relabel table) := by
  induction fs generalizing unknown with
  | nil => rfl
  | cons f fs ih =>
    rw [rewriteVmIdLabels, List.flatMap_cons, List.flatMap_cons, List.map_append, ih,
      rewriteAll_fst]

/-- The entry that a series' label stands for: the label parses to an issued handle. -/
def entryOf (table : HandleTable) (s : Json F) : Option VmProvenance :=
  ((vmIdLabel s).bind parseU64).bind fun h => table.get h.toNat

theorem entryOf_eq_some {table : HandleTable} {s : Json F} {p : VmProvenance}
    (h : entryOf table s = some p) : ∃ raw k, vmIdLabel s = some raw ∧ parseU64 raw = some k ∧
      table.get k.toNat = some p := by
  obtain ⟨k, hk, hget⟩ := Option.bind_eq_some_iff.1 h
  obtain ⟨raw, hraw, hparse⟩ := Option.bind_eq_some_iff.1 hk
  exact ⟨raw, k, hraw, hparse, hget⟩

theorem relabel_eq (table : HandleTable) (s : Json F) : relabel table s = match entryOf table s with
    | some p => setVmId s p.vmId
    | none => s := by
  unfold relabel rewriteSeries entryOf
  cases vmIdLabel s with
  | none => rfl
  | some raw =>
    simp only [Option.bind_some]
    cases parseU64 raw with
    | none => rfl
    | some h =>
      simp only [Option.bind_some]
      cases table.get h.toNat <;> rfl

theorem relabel_of_none {table : HandleTable} {s : Json F} (h : vmIdLabel s = none) :
    relabel table s = s := by
  rw [relabel, rewriteSeries, h]

/-- The VM a series is labelled with: the label as a handle below the number of VMs. -/
def issuedHandle (n : ℕ) (s : Json F) : Option ℕ :=
  ((vmIdLabel s).bind parseU64).bind fun h => if h.toNat < n then some h.toNat else none

theorem relabel_issued {env : RunEnv F} {n : ℕ} {table : HandleTable} (h : Issued env n table)
    (s : Json F) :
    relabel table s = match issuedHandle n s with
      | some k => setVmId s (env.newRunId k)
      | none => s := by
  have hids : (entryOf table s).map (·.vmId) = (issuedHandle n s).map env.newRunId := by
    unfold entryOf issuedHandle
    cases (vmIdLabel s).bind parseU64 with
    | none => rfl
    | some k =>
      rw [Option.bind_some, Option.bind_some, h.get_eq]
      split_ifs <;> rfl
  rw [relabel_eq]
  cases hentry : entryOf table s with
  | none =>
    rw [hentry] at hids
    rw [Option.map_eq_none_iff.1 hids.symm]
  | some p =>
    rw [hentry] at hids
    obtain ⟨k, hk, hid⟩ := Option.map_eq_some_iff.1 hids.symm
    rw [hk]
    exact congrArg (setVmId s) hid.symm

theorem vmIdLabel_of_issued {n k : ℕ} {s : Json F} (h : issuedHandle n s = some k) :
    ∃ raw, vmIdLabel s = some raw := by
  unfold issuedHandle at h
  obtain ⟨_, hk, -⟩ := Option.bind_eq_some_iff.1 h
  obtain ⟨raw, hraw, -⟩ := Option.bind_eq_some_iff.1 hk
  exact ⟨raw, hraw⟩

end Rewrite

section Ids

variable {F : Type} [F64 F] [FloatText F]

def seriesIds (s : Json F) : List String :=
  (seriesFields (none : Option F) s).map fun field => seriesBase s ++ "|" ++ field

theorem length_seriesIds_setVmId {s : Json F} {raw : String} (h : vmIdLabel s = some raw)
    (id : String) : (seriesIds (setVmId s id)).length = (seriesIds s).length := by
  rw [seriesIds, seriesIds, List.length_map, List.length_map, setVmId_seriesFields h]

/-- Two ids under one handle give a series the same metric ids only if it has none. -/
theorem seriesIds_setVmId {s : Json F} {raw u v : String} (h : vmIdLabel s = some raw)
    (huv : u ≠ v) : seriesIds (setVmId s u) = seriesIds (setVmId s v) ↔ yields s = false := by
  have hfields : seriesFields (none : Option F) s = [] ↔ yields s = false := seriesFields_eq_nil
  rw [seriesIds, seriesIds, setVmId_seriesFields h, setVmId_seriesFields h, ← hfields]
  refine ⟨fun heq => ?_, fun hnil => by rw [hnil, List.map_nil, List.map_nil]⟩
  by_contra hne
  obtain ⟨field, hfield⟩ := List.exists_mem_of_ne_nil _ hne
  have hid := List.map_inj_left.1 heq field hfield
  rw [String.append_left_inj, String.append_left_inj] at hid
  exact huv (seriesBase_setVmId_inj h hid)

variable [Build] {runId : String} {identity : Identity F} {fingerprint : Fingerprint F}
  {gate : Json F} {fragments : List (Fragment F)} {total : List (Metric F)}

/-- The metric ids of a run assembled from fragments. -/
theorem assembled_ids
    (h : reduce (assembled runId identity fingerprint gate fragments []) = .ok total) :
    total.map (·.id) = (fragments.flatMap (·.series)).flatMap seriesIds := by
  obtain ⟨parts, hparts, rfl⟩ := reduce_eq_ok.1 h
  have hseries : (assembled runId identity fingerprint gate fragments []).getArray "series" =
      some (fragments.flatMap (·.series)) := rfl
  have hworkload : workloadMetrics (assembled runId identity fingerprint gate fragments []) =
      [] := rfl
  have hspans : spanMetrics (assembled runId identity fingerprint gate fragments []) = [] := rfl
  rw [hseries, Option.getD_some] at hparts
  rw [hworkload, hspans, List.append_nil, List.append_nil]
  generalize fragments.flatMap (·.series) = ss at hparts
  clear hseries hworkload hspans h
  induction hparts with
  | nil => rfl
  | @cons s part ss parts hpart _ ih =>
    rw [metricsOf, assembled, windowNs_toJson] at hpart
    rw [List.flatten_cons, List.map_append, List.flatMap_cons, ih, seriesMetrics_ids hpart]
    rfl

end Ids

section TwoRuns

variable {F : Type}

/-- Two runs over one target with the same raw fragments, able to measure the residency
of the same files. -/
structure SameRuns (env₁ env₂ : RunEnv F) : Prop where
  target : env₁.target = env₂.target
  gadgets : env₁.gadgets = env₂.gadgets
  wait : env₁.wait = env₂.wait
  measured : ∀ path, (env₁.sampleResidency path).isSome = (env₂.sampleResidency path).isSome

theorem SameRuns.gathered {env₁ env₂ : RunEnv F} (h : SameRuns env₁ env₂)
    (gs : List GadgetInvocation) (i : ℕ) : gathered env₁ i gs = gathered env₂ i gs := by
  induction gs generalizing i with
  | nil => rfl
  | cons g gs ih => rw [Assayist.gathered, Assayist.gathered, h.wait, ih]

/-- Ids are never drawn twice, within a run or across the two. -/
structure FreshIds (ids₁ ids₂ : ℕ → String) : Prop where
  first : Function.Injective ids₁
  second : Function.Injective ids₂
  across : ∀ i j, ids₁ i ≠ ids₂ j

variable [F64 F]

theorem hostFragments_unlabelled (env : RunEnv F) :
    ∀ s ∈ (hostFragments env).flatMap (·.series), vmIdLabel s = none := by
  intro s hs
  rw [hostFragments, List.flatMap_append, List.mem_append] at hs
  rcases hs with hs | hs
  · simp only [List.flatMap_cons, List.flatMap_nil, List.append_nil, hostmemFragment,
      List.mem_cons, List.not_mem_nil, or_false] at hs
    rcases hs with rfl | rfl <;> rfl
  · unfold residentFragment at hs
    split_ifs at hs with hempty
    · simp at hs
    · simp only [Option.toList_some, List.flatMap_cons, List.flatMap_nil, List.append_nil] at hs
      obtain ⟨⟨label, resident, pages⟩, -, hs⟩ := List.mem_flatMap.1 hs
      simp only [residentSeries, List.mem_cons, List.not_mem_nil, or_false] at hs
      have hgauge (n : ℕ) (name : String) (value : Json F) :
          vmIdLabel (residentGauge n label name value) = none := by
        unfold vmIdLabel residentGauge Json.get
        cases label.isEmpty <;> rfl
      rcases hs with rfl | rfl | rfl <;> exact hgauge _ _ _

variable [FloatText F]

/-- The ids of a guest's residency series depend on its label only. -/
theorem residentSeries_ids (n : ℕ) (sample : String × UInt64 × UInt64) :
    (residentSeries n sample : List (Json F)).flatMap seriesIds =
      (residentSeries 0 (sample.1, 0, 0) : List (Json F)).flatMap seriesIds := by
  have hgauge (label name : String) (v w : Json F) :
      seriesIds (residentGauge n label name v) = seriesIds (residentGauge 0 label name w) := by
    unfold residentGauge
    cases label.isEmpty <;> rfl
  obtain ⟨label, resident, pages⟩ := sample
  simp only [residentSeries, List.flatMap_cons, List.flatMap_nil]
  rw [hgauge label _ (.nat resident), hgauge label _ (.nat pages), hgauge label _ (.float _)]

theorem residentFragment_ids (samples : List (String × UInt64 × UInt64)) :
    ((residentFragment samples).toList.flatMap fun f : Fragment F => f.series).flatMap seriesIds =
      (samples.map (·.1)).flatMap fun label =>
        (residentSeries 0 (label, 0, 0) : List (Json F)).flatMap seriesIds := by
  unfold residentFragment
  split_ifs with hempty
  · rw [List.isEmpty_iff.1 hempty]
    rfl
  · rw [Option.toList_some, List.flatMap_singleton, List.flatMap_assoc, List.flatMap_map]
    exact List.flatMap_congr fun sample _ => residentSeries_ids _ sample

omit [F64 F] [FloatText F] in
theorem residentSamples_labels (env : RunEnv F) :
    (residentSamples env).map (·.1) = env.target.residentFiles.filterMap fun file =>
      if (env.sampleResidency file.2).isSome then some file.1 else none := by
  rw [residentSamples, List.map_filterMap]
  congr 1
  funext ⟨label, path⟩
  cases h : env.sampleResidency path <;> simp [h]

theorem hostFragments_ids {env₁ env₂ : RunEnv F} (h : SameRuns env₁ env₂) :
    ((hostFragments env₁).flatMap (·.series)).flatMap seriesIds =
      ((hostFragments env₂).flatMap (·.series)).flatMap seriesIds := by
  have hlabels : (residentSamples env₁).map (·.1) = (residentSamples env₂).map (·.1) := by
    rw [residentSamples_labels, residentSamples_labels, h.target]
    simp only [h.measured]
  have hresident : ((residentFragment (residentSamples env₁)).toList.flatMap
        fun f : Fragment F => f.series).flatMap seriesIds =
      ((residentFragment (residentSamples env₂)).toList.flatMap
        fun f : Fragment F => f.series).flatMap seriesIds := by
    rw [residentFragment_ids, residentFragment_ids, hlabels]
  rw [hostFragments, hostFragments, List.flatMap_append, List.flatMap_append,
    List.flatMap_append, List.flatMap_append, hresident]
  rfl

/-- The ids of the rewritten fragments of a run. -/
theorem rewritten_ids {env : RunEnv F} (table : HandleTable) (raw : List (Fragment F)) :
    ((rewriteVmIdLabels table [] (raw ++ hostFragments env)).1.flatMap (·.series)).flatMap
        seriesIds =
      (raw.flatMap (·.series)).flatMap (fun s => seriesIds (relabel table s)) ++
        ((hostFragments env).flatMap (·.series)).flatMap seriesIds := by
  have hhost : ((hostFragments env).flatMap (·.series)).map (relabel table) =
      (hostFragments env).flatMap (·.series) :=
    (List.map_congr_left fun s hs => relabel_of_none (hostFragments_unlabelled env s hs)).trans
      (List.map_id _)
  rw [rewrite_series, List.flatMap_append, List.map_append, hhost, List.flatMap_append,
    List.flatMap_map]

/-- A series keeps its ids across the two runs unless it yields metrics under a handle
that was issued. -/
theorem relabel_ids_iff {env₁ env₂ : RunEnv F} {n : ℕ} {table₁ table₂ : HandleTable}
    (h₁ : Issued env₁ n table₁) (h₂ : Issued env₂ n table₂)
    (hfresh : FreshIds env₁.newRunId env₂.newRunId) (s : Json F) :
    seriesIds (relabel table₁ s) = seriesIds (relabel table₂ s) ↔
      (yields s = true → issuedHandle n s = none) := by
  rw [relabel_issued h₁, relabel_issued h₂]
  cases hissued : issuedHandle n s with
  | none => simp
  | some k =>
    obtain ⟨raw, hraw⟩ := vmIdLabel_of_issued hissued
    rw [seriesIds_setVmId hraw (hfresh.across k k)]
    simp

theorem length_relabel_ids {env₁ env₂ : RunEnv F} {n : ℕ} {table₁ table₂ : HandleTable}
    (h₁ : Issued env₁ n table₁) (h₂ : Issued env₂ n table₂) (s : Json F) :
    (seriesIds (relabel table₁ s)).length = (seriesIds (relabel table₂ s)).length := by
  rw [relabel_issued h₁, relabel_issued h₂]
  cases hissued : issuedHandle n s with
  | none => rfl
  | some k =>
    obtain ⟨raw, hraw⟩ := vmIdLabel_of_issued hissued
    rw [length_seriesIds_setVmId hraw, length_seriesIds_setVmId hraw]

variable [Build]

/-- Two runs have the same metric ids, so a group with the one has samples for every
metric of the other. -/
def SameIds (run₂ : Json F) (total₁ total₂ : List (Metric F)) : Prop :=
  total₁.map (·.id) = total₂.map (·.id) ∧
  ∀ m ∈ total₁, ∀ group g, run₂ ∈ group → collect group = .ok g → (g.samples[m.id]?).isSome

/-- A run's metrics have samples in every group it is in. -/
theorem collect_samples {run : Json F} {total : List (Metric F)} (h : reduce run = .ok total)
    {group : List (Json F)} (hrun : run ∈ group) {g : Group F} (hg : collect group = .ok g)
    {m : Metric F} (hm : m ∈ total) : (g.samples[m.id]?).isSome := by
  obtain ⟨parts, hparts, rfl⟩ := collect_eq_ok.1 hg
  have hown : (paramsHash run, m) ∈ own m.id (tagged group parts) :=
    mem_own.2 ⟨(mem_tagged hparts).2 ⟨run, hrun, total, h, rfl, hm⟩, rfl⟩
  have hempty : (own m.id (tagged group parts)).isEmpty = false :=
    List.isEmpty_eq_false_iff_exists_mem.2 ⟨_, hown⟩
  rw [groupOf_samples, hempty]
  rfl

theorem sameIds_iff {run₂ : Json F} {total₁ total₂ : List (Metric F)}
    (h : reduce run₂ = .ok total₂) :
    SameIds run₂ total₁ total₂ ↔ total₁.map (·.id) = total₂.map (·.id) := by
  refine ⟨fun hsame => hsame.1, fun hids => ⟨hids, fun m hm group g hrun hg => ?_⟩⟩
  have hid : m.id ∈ total₂.map (·.id) := hids ▸ List.mem_map_of_mem hm
  obtain ⟨m₂, hm₂, hid⟩ := List.mem_map.1 hid
  rw [← hid]
  exact collect_samples h hrun hg hm₂

variable {runId₁ runId₂ : String} {identity₁ identity₂ : Identity F}
  {fingerprint₁ fingerprint₂ : Fingerprint F} {gate₁ gate₂ : Json F}

/-- Two attributed runs over one target agree on their metric ids exactly when no series
that yields metrics is labelled with a handle one of the VMs was given. -/
theorem sameIds_attributed {env₁ env₂ : RunEnv F} (hsame : SameRuns env₁ env₂)
    (hfresh : FreshIds env₁.newRunId env₂.newRunId) {art₁ art₂ : RunArtifacts F}
    {s₁ s₂ : RunState F} (hrun₁ : runOf env₁ (some .new) = (.ok art₁, s₁))
    (hrun₂ : runOf env₂ (some .new) = (.ok art₂, s₂)) {total₁ total₂ : List (Metric F)}
    (htotal₁ : reduce (assembled runId₁ identity₁ fingerprint₁ gate₁ art₁.fragments []) =
      .ok total₁)
    (htotal₂ : reduce (assembled runId₂ identity₂ fingerprint₂ gate₂ art₂.fragments []) =
      .ok total₂) :
    SameIds (assembled runId₂ identity₂ fingerprint₂ gate₂ art₂.fragments []) total₁ total₂ ↔
      ∀ k < env₁.gadgets.length, ∀ f, env₁.wait k = .ok f → ∀ s ∈ f.series, yields s = true →
        issuedHandle env₁.target.netAttribution.length s = none := by
  obtain ⟨table₁, raw, hissued₁, hraw₁, hart₁⟩ := runOf_fragments hrun₁
  obtain ⟨table₂, raw₂, hissued₂, hraw₂, hart₂⟩ := runOf_fragments hrun₂
  rw [← hsame.target] at hissued₂
  rw [← hsame.gadgets, ← hsame.gathered, hraw₁, Except.ok.injEq] at hraw₂
  subst hraw₂
  rw [sameIds_iff htotal₂, assembled_ids htotal₁, assembled_ids htotal₂, hart₁, hart₂,
    rewritten_ids, rewritten_ids, hostFragments_ids hsame, List.append_cancel_right_eq,
    Pieces.flatMap_eq_iff fun s _ => length_relabel_ids hissued₁ hissued₂ s]
  simp only [relabel_ids_iff hissued₁ hissued₂ hfresh, List.mem_flatMap, mem_gathered hraw₁,
    Nat.zero_add]
  refine ⟨fun h k hk f hf s hs => ?_, fun h s hs => ?_⟩
  · exact h s ⟨f, ⟨k, hk, hf⟩, hs⟩
  · obtain ⟨f, ⟨k, hk, hf⟩, hs⟩ := hs
    exact h k hk f hf s hs

end TwoRuns

section Runs

attribute [local instance] releaseBuild

/-- A VM behind a tap, watched by a gadget that counts its bytes under a handle. -/
def tapRun (label : String) (mark : Char) : RunEnv ℚ where
  target := .single
    { version := "1", provision := .ok (), start := .ok (), reachSteady := .ok ()
      spans := .ok [], teardown := .ok (), pinningLayout := none, residentFiles := []
      netAttribution := [⟨"tap0", 3, "06:00", 7⟩] }
  workload := ⟨"1", .ok (), .ok (), .ok .null⟩
  gadgets := [⟨"net", "net_vm", [], "net.json"⟩]
  meminfoBefore := .ok ""
  meminfoAfter := .ok ""
  spawn _ := .ok ()
  wait _ := .ok
    { series := [.object [("name", .string "net.bytes"), ("kind", .string "counter"),
        ("labels", .object [("vm_id", .string label)]),
        ("data", .object [("value", .nat 512)])]]
      selfMetrics := [], captureMeta := none }
  sampleResidency _ := none
  provisionNs := 0
  steadyNs := 0
  newRunId k := String.ofList (mark :: List.replicate k '0')
  exchange _ := .reply "ok"

theorem tapRun_same (label : String) (mark₁ mark₂ : Char) :
    SameRuns (tapRun label mark₁) (tapRun label mark₂) := ⟨rfl, rfl, rfl, fun _ => rfl⟩

theorem tapRun_fresh {label : String} {mark₁ mark₂ : Char} (h : mark₁ ≠ mark₂) :
    FreshIds (tapRun label mark₁).newRunId (tapRun label mark₂).newRunId := by
  have hinj (mark : Char) : Function.Injective (tapRun label mark).newRunId := by
    intro i j hij
    have hlen := congrArg List.length (String.ofList_injective hij)
    simpa using hlen
  refine ⟨hinj _, hinj _, fun i j hij => h ?_⟩
  exact (List.cons_eq_cons.1 (String.ofList_injective hij)).1

/-- The metric ids of an attributed run, when it ends well. -/
def reducedIds (env : RunEnv ℚ) : Option (List String) :=
  match (runOf env (some .new)).1 with
  | .ok art => match reduce (sampleRun art.fragments) with
    | .ok total => some (total.map (·.id))
    | .error _ => none
  | .error _ => none

theorem reducedIds_eq {env : RunEnv ℚ} (h : (reducedIds env).isSome = true) :
    ∃ art s total, runOf env (some .new) = (.ok art, s) ∧
      reduce (sampleRun art.fragments) = .ok total ∧
      reducedIds env = some (total.map (·.id)) := by
  unfold reducedIds at h ⊢
  cases hrun : runOf env (some .new) with
  | mk r s =>
    rw [hrun] at h
    cases r with
    | error e => exact absurd h (by simp)
    | ok art =>
      simp only at h ⊢
      cases htotal : reduce (sampleRun art.fragments) with
      | error e =>
        rw [htotal] at h
        exact absurd h (by simp)
      | ok total => exact ⟨art, s, total, rfl, htotal, rfl⟩

/-- A handle that was never issued stays as the gadget wrote it, in both runs. -/
theorem unissued_handle_kept :
    ∃ art₁ s₁ art₂ s₂ total₁ total₂,
      runOf (tapRun "7" 'A') (some .new) = (.ok art₁, s₁) ∧
      runOf (tapRun "7" 'B') (some .new) = (.ok art₂, s₂) ∧
      reduce (sampleRun art₁.fragments) = .ok total₁ ∧
      reduce (sampleRun art₂.fragments) = .ok total₂ ∧
      SameIds (sampleRun art₂.fragments) total₁ total₂ := by
  have hsome (mark : Char) (h : mark = 'A' ∨ mark = 'B') :
      (reducedIds (tapRun "7" mark)).isSome = true := by
    rcases h with rfl | rfl <;> decide +kernel
  obtain ⟨art₁, s₁, total₁, hrun₁, htotal₁, -⟩ := reducedIds_eq (hsome 'A' (.inl rfl))
  obtain ⟨art₂, s₂, total₂, hrun₂, htotal₂, -⟩ := reducedIds_eq (hsome 'B' (.inr rfl))
  refine ⟨art₁, s₁, art₂, s₂, total₁, total₂, hrun₁, hrun₂, htotal₁, htotal₂, ?_⟩
  refine (sameIds_attributed (tapRun_same "7" 'A' 'B') (tapRun_fresh (by decide)) hrun₁ hrun₂
    htotal₁ htotal₂).2 fun k _ f hf s hs _ => ?_
  rw [← Except.ok.inj hf] at hs
  rw [List.mem_singleton.1 hs]
  decide

/-- One VM, one counter labelled with its handle: no second run can be compared with the
first. -/
theorem attributed_runs_differ :
    ∃ art₁ s₁ art₂ s₂ total₁ total₂,
      runOf (tapRun "0" 'A') (some .new) = (.ok art₁, s₁) ∧
      runOf (tapRun "0" 'B') (some .new) = (.ok art₂, s₂) ∧
      reduce (sampleRun art₁.fragments) = .ok total₁ ∧
      reduce (sampleRun art₂.fragments) = .ok total₂ ∧
      ¬ SameIds (sampleRun art₂.fragments) total₁ total₂ := by
  have hsome (mark : Char) (h : mark = 'A' ∨ mark = 'B') :
      (reducedIds (tapRun "0" mark)).isSome = true := by
    rcases h with rfl | rfl <;> decide +kernel
  obtain ⟨art₁, s₁, total₁, hrun₁, htotal₁, hids₁⟩ := reducedIds_eq (hsome 'A' (.inl rfl))
  obtain ⟨art₂, s₂, total₂, hrun₂, htotal₂, hids₂⟩ := reducedIds_eq (hsome 'B' (.inr rfl))
  refine ⟨art₁, s₁, art₂, s₂, total₁, total₂, hrun₁, hrun₂, htotal₁, htotal₂, fun hsame => ?_⟩
  have heq : reducedIds (tapRun "0" 'A') = reducedIds (tapRun "0" 'B') := by
    rw [hids₁, hids₂, (sameIds_iff htotal₂).1 hsame]
  exact absurd heq (by decide +kernel)

end Runs

end Assayist
