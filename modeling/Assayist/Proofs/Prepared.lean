import Assayist.Proofs.Attribution
import Assayist.Proofs.Costs

/-! A run of the driver always returns a fragment on the host's memory, which no eBPF
program paid for. The grade takes it for a probe that owes a cost record, so a run without
gadgets is never reproducible. -/

namespace Assayist

open Effect

section Returned

variable {F : Type}

def costsOf (f : Fragment F) : List (Json F) × Option (Json F) := (f.selfMetrics, f.captureMeta)

theorem broughtCosts_map (fs : List (Fragment F)) :
    broughtCosts fs ↔ ∃ c ∈ fs.map costsOf, c.1 ≠ [] := by
  apply Iff.intro
  · intro h
    obtain ⟨f, hf, hne⟩ := h
    exact ⟨costsOf f, List.mem_map_of_mem hf, hne⟩
  · intro h
    obtain ⟨c, hc, hne⟩ := h
    obtain ⟨f, hf, rfl⟩ := List.mem_map.1 hc
    exact ⟨f, hf, hne⟩

theorem rewrite_costs (table : HandleTable) (unknown : List String) (fs : List (Fragment F)) :
    (rewriteVmIdLabels table unknown fs).1.map costsOf = fs.map costsOf := by
  induction fs generalizing unknown with
  | nil => rfl
  | cons f fs ih =>
    rw [rewriteVmIdLabels, List.map_cons, List.map_cons, ih]
    rfl

theorem attributeFragments_costs (session : Option AttributionSession) (attributed : List ℕ)
    (fs : List (Fragment F)) :
    (attributeFragments session attributed fs).1.map costsOf = fs.map costsOf := by
  cases session with
  | none => rfl
  | some session =>
    unfold attributeFragments
    by_cases hempty : attributed.isEmpty = true
    · simp only [if_pos hempty]
    · simp only [if_neg hempty]
      exact rewrite_costs session.table [] fs

variable {env : RunEnv F}

theorem waitAll_returns (attributed : List ℕ) (gs : List GadgetInvocation) (i : ℕ)
    (fragments : List (Fragment F)) :
    Triple (fun _ => True) (waitAll env attributed i gs fragments)
      (fun fs _ => ∃ raw, gathered env i gs = .ok raw ∧ fs = fragments ++ raw) fun _ _ => True := by
  induction gs generalizing i fragments with
  | nil => exact .pure fun _ _ => ⟨[], rfl, (List.append_nil _).symm⟩
  | cons g gs ih =>
    refine .bind (.always _) fun _ => ?_
    cases hwait : env.wait i with
    | error e => exact .bind (.always _) fun _ => abandon_never attributed e _
    | ok f =>
      refine (ih (i + 1) (fragments ++ [f])).weaken (fun _ h => h) (fun fs _ h => ?_)
        fun _ _ h => h
      obtain ⟨raw, hraw, rfl⟩ := h
      refine ⟨f :: raw, ?_, by rw [List.append_assoc, List.singleton_append]⟩
      rw [gathered, hwait]
      simp only [hraw, bind, Except.bind, pure, Except.pure]

variable [F64 F]

theorem windDown_returns (attributed : List ℕ) (fragments : List (Fragment F)) :
    Triple (fun _ => True) (windDown env attributed fragments)
      (fun art _ => art.fragments.map costsOf = (fragments ++ hostFragments env).map costsOf)
      fun _ _ => True := by
  refine .bind (.always _) fun _ => .bind (.always _) fun report => ?_
  refine .bind (.always _) fun spans => .bind (.always _) fun _ => ?_
  refine .bind (.always _) fun teardown => .bind (.always _) fun s => ?_
  refine .bind (.always _) fun _ => .pure fun _ _ => ?_
  change (attributeFragments s.session attributed _).1.map costsOf = _
  rw [attributeFragments_costs, hostFragments, List.append_assoc]

/-- A run returns what its gadgets wrote, and the driver's own fragments. -/
theorem executeRun_returns (env : RunEnv F) :
    Triple (fun _ => True) (executeRun env)
      (fun art _ => ∃ raw, gathered env 0 env.gadgets = .ok raw ∧
        art.fragments.map costsOf = (raw ++ hostFragments env).map costsOf) fun _ _ => True := by
  refine .bind (.always _) fun _ => .bind (.always _) fun _ => .bind (.always _) fun _ => ?_
  refine .bind (.always _) fun attributed => .bind (.always _) fun _ => ?_
  refine .bind (.always _) fun r => ?_
  cases r with
  | error e => exact abandon_never attributed e _
  | ok u =>
    refine (waitAll_returns attributed env.gadgets 0 []).bind fun fragments => ?_
    intro s hs
    obtain ⟨raw, hraw, hfragments⟩ := hs
    rw [List.nil_append] at hfragments
    rw [← hfragments] at hraw
    exact (windDown_returns attributed fragments).weaken (fun _ h => h)
      (fun _ _ h => ⟨fragments, hraw, h⟩) (fun _ _ h => h) s trivial

theorem runOf_returns {session : Option AttributionSession} {art : RunArtifacts F}
    {s : RunState F} (hrun : runOf env session = (.ok art, s)) :
    ∃ raw, gathered env 0 env.gadgets = .ok raw ∧
      art.fragments.map costsOf = (raw ++ hostFragments env).map costsOf := by
  have hw := executeRun_returns env (RunState.initial session) trivial
  unfold wp at hw
  unfold runOf at hrun
  rw [hrun] at hw
  exact hw

end Returned

section Prepared

variable {F : Type} [F64 F]

/-- The grade a run deserves for its preparation alone. -/
structure GradedByPrep (fingerprint : Fingerprint F) (grade : Grade) : Prop where
  invalid : grade = .invalid ↔ fingerprint.tuningConsistent = false
  reproducible : grade = .reproducible ↔
    fingerprint.tuningConsistent = true ∧ fingerprint.hasExtended = true
  valid : grade = .valid ↔
    fingerprint.tuningConsistent = true ∧ fingerprint.hasExtended = false

/-- No gadget of the plan attaches an eBPF program. -/
def probeFree (env : RunEnv F) : Prop :=
  ∀ k < env.gadgets.length, ∀ f, env.wait k = .ok f → ¬ ebpfFragment f

/-- Some gadget of the plan reports costs all the same. -/
def plansCosts (env : RunEnv F) : Prop :=
  ∃ k < env.gadgets.length, ∃ f, env.wait k = .ok f ∧ f.selfMetrics ≠ []

theorem gradedByPrep_iff {fingerprint : Fingerprint F} {grade : Grade}
    (hinvalid : grade = .invalid ↔ fingerprint.tuningConsistent = false) :
    GradedByPrep fingerprint grade ↔
      (grade = .reproducible ↔
        fingerprint.tuningConsistent = true ∧ fingerprint.hasExtended = true) := by
  refine ⟨fun h => h.reproducible, fun h => ⟨hinvalid, h, ?_⟩⟩
  cases htuned : fingerprint.tuningConsistent with
  | false =>
    rw [hinvalid.2 htuned]
    simp
  | true =>
    rw [htuned] at hinvalid h
    cases hextended : fingerprint.hasExtended with
    | false =>
      rw [hextended] at h
      cases grade with
      | reproducible => simp at h
      | valid => simp
      | invalid => simp at hinvalid
    | true =>
      rw [h.2 ⟨rfl, hextended⟩]
      simp

theorem hostFragments_costs (env : RunEnv F) : ∀ f ∈ hostFragments env, f.selfMetrics = [] := by
  intro f hf
  rcases List.mem_append.1 hf with hf | hf
  · rw [List.mem_singleton.1 hf]
    rfl
  · unfold residentFragment at hf
    split_ifs at hf
    · exact absurd hf (by simp)
    · rw [← Option.some.inj (Option.mem_toList.1 hf)]

/-- The driver's fragments always bring data and never bring costs. -/
theorem returned_costs {env : RunEnv F} {session : Option AttributionSession}
    {art : RunArtifacts F} {s : RunState F} (hrun : runOf env session = (.ok art, s)) :
    broughtData art.fragments ∧ (broughtCosts art.fragments ↔ plansCosts env) := by
  obtain ⟨raw, hraw, hcosts⟩ := runOf_returns hrun
  refine ⟨?_, ?_⟩
  · have hhost : costsOf (hostmemFragment (F := F) (sampleMeminfo env.meminfoBefore)
        (sampleMeminfo env.meminfoAfter)) ∈ art.fragments.map costsOf := by
      rw [hcosts]
      exact List.mem_map_of_mem (List.mem_append_right _ List.mem_cons_self)
    obtain ⟨f, hf, heq⟩ := List.mem_map.1 hhost
    refine ⟨f, hf, .inr ?_⟩
    rw [show f.captureMeta = _ from congrArg Prod.snd heq]
    rfl
  · rw [broughtCosts_map, hcosts, ← broughtCosts_map]
    unfold plansCosts
    apply Iff.intro
    · intro h
      obtain ⟨f, hf, hne⟩ := h
      rcases List.mem_append.1 hf with hf | hf
      · obtain ⟨k, hk, hwait⟩ := (mem_gathered hraw).1 hf
        rw [Nat.zero_add] at hwait
        exact ⟨k, hk, f, hwait, hne⟩
      · exact absurd (hostFragments_costs env f hf) hne
    · intro h
      obtain ⟨k, hk, f, hwait, hne⟩ := h
      refine ⟨f, List.mem_append_left _ ((mem_gathered hraw).2 ⟨k, hk, ?_⟩), hne⟩
      rw [Nat.zero_add]
      exact hwait

/-- A run of a plan that attaches no eBPF program is graded by its preparation: the driver's
own fragments owe no costs. -/
def PlanGraded (env : RunEnv F) (fingerprint : Fingerprint F) (grade : Grade) : Prop :=
  probeFree env → GradedByPrep fingerprint grade

/-- It is, exactly when it could not be reproducible anyway, or some gadget reports costs
all the same. -/
theorem planGraded_iff (env : RunEnv F) (session : Option AttributionSession)
    (art : RunArtifacts F) (s : RunState F) (hrun : runOf env session = (.ok art, s))
    (runId : String) (identity : Identity F) (hsource : identity.source = "captured")
    (fingerprint : Fingerprint F) (gate : Json F) :
    PlanGraded env fingerprint
        (AssayRun.assemble runId identity fingerprint gate art.fragments art.spans).grade ↔
      ¬ probeFree env ∨ fingerprint.tuningConsistent = false ∨ fingerprint.hasExtended = false ∨
        plansCosts env := by
  obtain ⟨hdata, hcosts⟩ := returned_costs hrun
  have hown : identity.source ≠ "imported" := by
    rw [hsource]
    decide
  unfold PlanGraded
  rw [gradedByPrep_iff assemble_invalid, assemble_reproducible, hcosts]
  apply Iff.intro
  · intro h
    by_contra hno
    simp only [not_or, not_not, Bool.not_eq_false] at hno
    obtain ⟨hfree, htuned, hextended, hnone⟩ := hno
    exact hnone (((h hfree).2 ⟨htuned, hextended⟩).2 hdata)
  · intro hcond hfree
    apply Iff.intro
    · intro h
      obtain ⟨hprep, -⟩ := h
      exact ⟨hprep.tuned, hprep.extended⟩
    · intro h
      obtain ⟨htuned, hextended⟩ := h
      refine ⟨⟨htuned, hown, hextended⟩, fun _ => ?_⟩
      rcases hcond with hprobes | huntuned | hpartial | hcosted
      · exact absurd hfree hprobes
      · rw [htuned] at huntuned
        exact absurd huntuned (by decide)
      · rw [hextended] at hpartial
        exact absurd hpartial (by decide)
      · exact hcosted

end Prepared

section Runs

def bareRun : RunEnv ℚ where
  target := .single
    { version := "1", provision := .ok (), start := .ok (), reachSteady := .ok ()
      spans := .ok [], teardown := .ok (), pinningLayout := none, residentFiles := []
      netAttribution := [] }
  workload := ⟨"1", .ok (), .ok (), .ok .null⟩
  gadgets := []
  meminfoBefore := .ok ""
  meminfoAfter := .ok ""
  spawn _ := .ok ()
  wait _ := .ok ⟨[], [], none⟩
  sampleResidency _ := none
  provisionNs := 0
  steadyNs := 0
  newRunId _ := ""
  exchange _ := .reply "ok"

theorem bareRun_returns : ∃ art s, runOf bareRun none = (.ok art, s) := ⟨_, _, rfl⟩

def capturedIdentity : Identity ℚ := { sampleIdentity with source := "captured" }

/-- A run whose one gadget is the owner of the attribution map. -/
def ownerRun : RunEnv ℚ :=
  { bareRun with
    gadgets := [⟨"assayist-capture-netattrib", "netattrib", [], "netattrib.json"⟩]
    wait _ := .ok (Owner.fragment .default 5000) }

theorem ownerRun_probeFree : probeFree ownerRun := by
  intro k _ f hf
  obtain rfl := Except.ok.inj hf
  exact owner_probeless .default 5000

theorem ownerRun_returns : ∃ art s, runOf ownerRun none = (.ok art, s) := ⟨_, _, rfl⟩

/-- Without its extended fields such a run is graded as prepared. -/
theorem planGraded_partial :
    ∃ art s, runOf ownerRun none = (.ok art, s) ∧
      GradedByPrep { sampleFingerprint with nestedVirt := none }
        (AssayRun.assemble "run" capturedIdentity { sampleFingerprint with nestedVirt := none }
          (.object []) art.fragments art.spans).grade := by
  obtain ⟨art, s, hrun⟩ := ownerRun_returns
  exact ⟨art, s, hrun, (planGraded_iff ownerRun none art s hrun "run" capturedIdentity rfl
    { sampleFingerprint with nestedVirt := none } (.object [])).2 (.inr (.inr (.inl rfl)))
      ownerRun_probeFree⟩

/-- With all of them it is still not reproducible. -/
theorem bare_run_downgraded :
    ∃ art s, runOf bareRun none = (.ok art, s) ∧
      ¬ PlanGraded bareRun sampleFingerprint
        (AssayRun.assemble "run" capturedIdentity sampleFingerprint (.object []) art.fragments
          art.spans).grade := by
  obtain ⟨art, s, hrun⟩ := bareRun_returns
  refine ⟨art, s, hrun, fun h => ?_⟩
  obtain ⟨hdata, hcosts⟩ := returned_costs hrun
  have hfree : probeFree bareRun := fun k hk => absurd hk (Nat.not_lt_zero k)
  have hgrade := (h hfree).reproducible.2 ⟨by decide, by decide⟩
  obtain ⟨k, hk, -⟩ := hcosts.1 ((assemble_reproducible.1 hgrade).2 hdata)
  exact absurd hk (Nat.not_lt_zero k)

end Runs

end Assayist
