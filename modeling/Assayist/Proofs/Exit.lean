import Assayist.Spec.RunGate

/-! The exit status of `assayist run` against the verdict of the gate. The verdict
crosses two processes as an exit code; a process killed by a signal has none. -/

namespace Assayist

section Gate

variable {F : Type} [F64 F]

theorem report_verdict (rep : Report F) :
    (rep.toJson.get "outcome").bind (·.getStr "verdict") = some rep.outcome.verdict.asStr := rfl

/-- The gate's own exit code is 0 exactly for a report that passes. -/
theorem gateMain_eq_zero (r : Except Abort (Report F)) :
    gateMain r = 0 ↔ ∃ rep, r = .ok rep ∧ rep.outcome.verdict = .pass := by
  apply Iff.intro
  · intro h
    rcases r with (_ | _) | rep
    · simp [gateMain] at h
    · simp [gateMain] at h
    · refine ⟨rep, rfl, ?_⟩
      simp only [gateMain, report_verdict] at h
      cases hv : rep.outcome.verdict <;> simp [hv, Verdict.asStr] at h ⊢
  · intro h
    obtain ⟨rep, rfl, hv⟩ := h
    simp [gateMain, report_verdict, hv, Verdict.asStr]

variable [FloatText F] [Build]

/-- The ways the gate process can end: `main` returns, something outside the model
panics (a closed stdout), or a signal kills it. -/
inductive GateEnds (disk : Disk F) (argv : List String) : ExitStatus → Prop
  | returned : GateEnds disk argv (.exited (gateMain (gateRun disk argv)))
  | panicked : GateEnds disk argv (.exited 101)
  | killed (signal : ℕ) : GateEnds disk argv (.signaled signal)

theorem passed_of_exited_zero {disk : Disk F} {argv : List String}
    (h : GateEnds disk argv (.exited 0)) :
    ∃ rep, gateRun disk argv = .ok rep ∧ rep.outcome.verdict = .pass := by
  generalize hs : ExitStatus.exited 0 = status at h
  cases h with
  | returned => exact (gateMain_eq_zero _).1 (ExitStatus.exited.inj hs).symm
  | panicked => simp at hs
  | killed => simp at hs

end Gate

section Orchestrator

variable {F : Type}

theorem clampCode_exited (code : UInt8) : clampCode (code.toNat : ℤ) = code := by
  have h : code.toNat < 256 := code.toNat_lt
  have e : (max 0 (min 255 (code.toNat : ℤ))).toNat = code.toNat := by omega
  rw [clampCode, e, UInt8.ofNat_toNat]

/-- An exit code the gate process did leave is handed on as it is. -/
theorem runCmdExit_exited (parse : String → Option (Json F)) (bin : String) (code : UInt8)
    (stdout stderr : String) :
    runCmdExit (runGate parse bin (.ok ⟨.exited code, stdout, stderr⟩)) = code := by
  by_cases h : (code.toNat : ℤ) = 1
  · have : code = 1 := UInt8.toNat_inj.1 (by exact_mod_cast h)
    simp [runGate, ExitStatus.code, runCmdExit, this]
  · simp only [runGate, ExitStatus.code, Option.getD_some, h, if_false, runCmdExit]
    exact clampCode_exited code

/-- A missing exit code is read as -1, which clamps to 0. -/
theorem runCmdExit_signaled (parse : String → Option (Json F)) (bin : String) (signal : ℕ)
    (stdout stderr : String) :
    runCmdExit (runGate parse bin (.ok ⟨.signaled signal, stdout, stderr⟩)) = 0 := by
  simp [runGate, ExitStatus.code, runCmdExit, clampCode]

theorem runCmdExit_launch (parse : String → Option (Json F)) (bin e : String) :
    runCmdExit (runGate parse bin (.error e)) = 1 := rfl

variable [F64 F] [FloatText F] [Build]

/-- Exit status 0 means that the gate process exited with code 0 and its mode
returned a report that passes. -/
def ExitSound (disk : Disk F) (argv : List String) (parse : String → Option (Json F))
    (bin : String) (output : Except String ProcessOutput) : Prop :=
  runCmdExit (runGate parse bin output) = 0 →
    (∃ out, output = .ok out ∧ out.status = .exited 0) ∧
    ∃ rep, gateRun disk argv = .ok rep ∧ rep.outcome.verdict = .pass

/-- Exit status 0 can be trusted exactly when no signal killed the gate. -/
theorem exitSound_iff (disk : Disk F) (mode : String) (a b : List String) (th : GateThresholds F)
    (parse : String → Option (Json F)) (bin : String) (output : Except String ProcessOutput)
    (hends : ∀ out, output = .ok out → GateEnds disk (gateArgv mode a b th) out.status) :
    ExitSound disk (gateArgv mode a b th) parse bin output ↔
      ∀ out signal, output = .ok out → out.status ≠ .signaled signal := by
  rcases output with e | ⟨status, stdout, stderr⟩
  · simp [ExitSound, runCmdExit_launch]
  rcases status with code | signal
  · refine ⟨fun _ => ?_, fun _ hzero => ?_⟩
    · rintro out signal ⟨⟩
      simp
    rw [runCmdExit_exited] at hzero
    subst hzero
    exact ⟨⟨_, rfl, rfl⟩, passed_of_exited_zero (hends _ rfl)⟩
  · refine ⟨fun h => ?_, fun h => absurd rfl (h _ signal rfl)⟩
    obtain ⟨⟨out, hout, hcode⟩, -⟩ := h (runCmdExit_signaled parse bin signal stdout stderr)
    cases hout
    simp at hcode

end Orchestrator

section Runs

def noFiles : Disk ℚ := ⟨fun p => .error ("reading " ++ p), fun _ _ => .ok ()⟩

def defaultThresholds : GateThresholds ℚ := ⟨1 / 100, 5 / 100, 10000, [], false⟩

attribute [local instance] releaseBuild

def bootRun : Json ℚ :=
  .object [("grade", .string "reproducible"),
    ("spans", .array [.object [("name", .string "boot"), ("start_unix_nano", .nat 10),
      ("end_unix_nano", .nat 20)]])]

def bootFiles : Disk ℚ := ⟨fun _ => .ok bootRun, fun _ _ => .ok ()⟩

def bootArgv : List String :=
  gateArgv "ab_permutation" ["a0.json", "a1.json"] ["b0.json", "b1.json"]
    { defaultThresholds with resamples := 20 }

/-- Groups that are the same pass, and the status says so. -/
theorem exitSound_passed :
    runCmdExit (runGate (F := ℚ) (fun _ => none) "assayist-gate" (.ok ⟨.exited 0, "", ""⟩)) = 0 ∧
    ExitSound bootFiles bootArgv (fun _ => none) "assayist-gate" (.ok ⟨.exited 0, "", ""⟩) := by
  refine ⟨runCmdExit_exited _ _ 0 "" "",
    (exitSound_iff bootFiles _ _ _ _ _ _ _ fun out h => ?_).2 ?_⟩
  · cases h
    have hpass : gateMain (gateRun bootFiles bootArgv) = 0 := by decide +kernel
    exact hpass ▸ GateEnds.returned
  · rintro out signal ⟨⟩
    simp

/-- A gate killed by signal 9 while it resamples leaves a green run. -/
theorem killed_gate_exits_zero :
    ∃ output : Except String ProcessOutput,
      (∀ out, output = .ok out → GateEnds noFiles
        (gateArgv "ab_permutation" ["a.json"] ["b.json"] defaultThresholds) out.status) ∧
      ¬ ExitSound noFiles (gateArgv "ab_permutation" ["a.json"] ["b.json"] defaultThresholds)
        (fun _ => none) "assayist-gate" output := by
  refine ⟨.ok ⟨.signaled 9, "", ""⟩, fun out h => ?_, fun h => ?_⟩
  · cases h
    exact .killed 9
  · obtain ⟨⟨out, hout, hcode⟩, -⟩ := h (runCmdExit_signaled _ _ _ _ _)
    cases hout
    simp at hcode

end Runs

end Assayist
