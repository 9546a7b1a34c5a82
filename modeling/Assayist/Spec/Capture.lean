import Assayist.Spec.Adapter
import Assayist.Spec.Def
import Assayist.Spec.Render

/-! The plan of a definition's capture gadgets, and firing the gadgets of a plan by themselves,
with no target or workload: spawn them all, then wait on each. -/

namespace Assayist

open Effect

section Plan

/-- What of a probe's name goes into the name of a file. -/
def sanitize (s : String) : String :=
  String.ofList (s.toList.map fun c => if c.isAlphanum || c == '-' || c == '_' then c else '_')

/-- `dir.join(file)` for a relative file. -/
def joinPath (dir file : String) : String :=
  if dir = "" ∨ endsWith dir "/" then dir ++ file else dir ++ "/" ++ file

def planGadget (durationSecs : UInt64) (outDir : String) (vars : Vars) (e : CaptureEntry) :
    Except String GadgetInvocation :=
  match e.gadget with
  | none => .error ("capture '" ++ e.probe ++ "' names no gadget binary to run")
  | some gadget =>
    let outPath := joinPath outDir (sanitize e.probe ++ ".frag.json")
    .ok
      { gadget
        probe := e.probe
        args := ["--duration", toString durationSecs.toNat, "--out", outPath] ++
          e.args.map (render · vars)
        outPath }

/-- Turn the def's capture entries into concrete launches. -/
def planGadgets (entries : List CaptureEntry) (durationSecs : UInt64) (outDir : String)
    (vars : Vars) : Except String (List GadgetInvocation) :=
  entries.mapM (planGadget durationSecs outDir vars)

end Plan

/-- What happens to a gadget. -/
inductive GadgetEvent where
  | spawn (i : ℕ) (ok : Bool)
  | wait (i : ℕ) (ok : Bool)
  | kill (i : ℕ)
  deriving DecidableEq, Repr

/-- A runner by what it answers for the `i`-th gadget of a plan. `kill` answers nothing. -/
structure Runner (F : Type) where
  spawn : ℕ → Except String Unit
  wait : ℕ → Except String (Fragment F)

abbrev Capturing := Steps String (List GadgetEvent)

section Capture

variable {F : Type}

def record (e : GadgetEvent) : Capturing Unit := update fun log => log ++ [e]

def killAll : List ℕ → Capturing Unit
  | [] => pure ()
  | h :: hs => do
    record (.kill h)
    killAll hs

/-- Spawn the plan from its `i`-th gadget on, killing the ones that run if one fails. -/
def spawnPlan (runner : Runner F) : ℕ → List GadgetInvocation → List ℕ → Capturing (List ℕ)
  | _, [], handles => pure handles
  | i, _ :: plan, handles => do
    record (.spawn i (isOk (runner.spawn i)))
    match runner.spawn i with
    | .ok () => spawnPlan runner (i + 1) plan (handles ++ [i])
    | .error e => do
      killAll handles
      give (.error e)

def waitPlan (runner : Runner F) :
    List (GadgetInvocation × ℕ) → List (Fragment F) → Capturing (List (Fragment F))
  | [], fragments => pure fragments
  | (_, h) :: plan, fragments => do
    record (.wait h (isOk (runner.wait h)))
    let f ← give (runner.wait h)
    waitPlan runner plan (fragments ++ [f])

/-- Spawn every gadget, then collect every fragment. -/
def capture (plan : List GadgetInvocation) (runner : Runner F) :
    Capturing (List (Fragment F)) := do
  let handles ← spawnPlan runner 0 plan []
  waitPlan runner (plan.zip handles) []

end Capture

end Assayist
