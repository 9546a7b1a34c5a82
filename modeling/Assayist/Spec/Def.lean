import Assayist.Spec.Json

/-! Benchmark definitions and the load-time rules a definition must meet before
any capture starts. -/

namespace Assayist

structure TargetSpec (F : Type) where
  adapter : String
  version : String
  commands : List (String × String)
  config : List (String × Json F)

structure WorkloadSpec (F : Type) where
  driver : String
  version : String
  commands : List (String × String)
  config : List (String × Json F)

structure GateSpec (F : Type) where
  mode : String
  pThreshold : Option F
  noiseThreshold : Option F
  resamples : Option UInt64
  ignore : List String

structure Cardinality where
  cls : String
  keySource : Option String
  maxKeys : Option UInt64

structure CaptureEntry where
  probe : String
  gadget : Option String
  cardinality : Cardinality
  attach : Option String
  hotPath : Bool
  args : List String

structure BenchmarkDef (F : Type) where
  apiVersion : String
  name : String
  target : TargetSpec F
  workload : WorkloadSpec F
  gate : GateSpec F
  /-- In the order of the dimensions' names, as the map iterates. -/
  parameterise : List (String × List (Json F))
  compare : Option String
  capture : List CaptureEntry
  hostPrep : Json F
  tenancy : String

def gateModes : List String := ["ab_permutation", "longitudinal_drift", "subsystem_triad"]

def tenancies : List String := ["single_tenant", "density"]

def cardClasses : List String := ["singleton", "bounded"]

def attachKinds : List String :=
  ["tp_btf", "tracepoint", "fentry", "fexit", "kprobe", "kretprobe", "uprobe", "xdp", "tc"]

def wantOneOf (xs : List String) : String := " unknown (want one of " ++ ", ".intercalate xs ++ ")"

section Validate

variable {F : Type}

def modeErrors (d : BenchmarkDef F) : List String :=
  if gateModes.contains d.gate.mode then []
  else ["gate.mode '" ++ d.gate.mode ++ "'" ++ wantOneOf gateModes]

def tenancyErrors (d : BenchmarkDef F) : List String :=
  if tenancies.contains d.tenancy then []
  else ["tenancy '" ++ d.tenancy ++ "'" ++ wantOneOf tenancies]

def compareErrors (d : BenchmarkDef F) : List String :=
  match d.compare with
  | none => []
  | some dim =>
    match d.parameterise.lookup dim with
    | none => ["compare '" ++ dim ++ "' names no parameterise dimension (declare it under " ++
        "parameterise with two values)"]
    | some values =>
      if values.length ≠ 2 then
        ["compare '" ++ dim ++ "' needs exactly two values for an A/B comparison, found " ++
          toString values.length]
      else []

def captureErrors (c : CaptureEntry) : List String :=
  let at' := "capture '" ++ c.probe ++ "'"
  (if cardClasses.contains c.cardinality.cls then []
    else [at' ++ ": cardinality.class '" ++ c.cardinality.cls ++
      "' unknown (want singleton or bounded; unbounded is rejected by design)"]) ++
  (if c.cardinality.cls = "bounded" then
    (if c.cardinality.keySource.isNone then
      [at' ++ ": bounded cardinality needs a key_source"] else []) ++
    (match c.cardinality.maxKeys with
      | none => [at' ++ ": bounded cardinality needs max_keys"]
      | some n => if n = 0 then [at' ++ ": bounded cardinality max_keys must be > 0"] else [])
    else []) ++
  (match c.attach with
    | some a => if attachKinds.contains a then []
        else [at' ++ ": attach '" ++ a ++ "'" ++ wantOneOf attachKinds]
    | none => []) ++
  (if c.attach = some "uprobe" ∧ c.hotPath then
    [at' ++ ": uprobe on a hot path is banned (dual context switch); sample off the hot path " ++
      "instead"] else [])

/-- Every problem of a definition against the load-time rules. -/
def defErrors (d : BenchmarkDef F) : List String :=
  modeErrors d ++ tenancyErrors d ++ compareErrors d ++ d.capture.flatMap captureErrors

def BenchmarkDef.validate (d : BenchmarkDef F) : Except (List String) Unit :=
  let errs := defErrors d
  if errs.isEmpty then .ok () else .error errs

end Validate

section Cells

variable {F : Type}

/-- One cell of the matrix: its parameters and their hash. -/
structure Cell (F : Type) where
  params : Json F
  paramsHash : String

section Canonical

variable [FloatText F]

/-- The fields of an object in key order, as compact text. -/
def joinFields (fields : List (String × String)) : String :=
  let sorted := fields.mergeSort fun a b => !decide (b.1 < a.1)
  "\x7b" ++ ",".intercalate (sorted.map fun e => Json.quote e.1 ++ ":" ++ e.2) ++ "\x7d"

mutual

/-- Compact JSON text with the keys of every object sorted. -/
def canonicalJson : Json F → String
  | .object m => joinFields (canonicalFields m)
  | .array xs => "[" ++ ",".intercalate (canonicalItems xs) ++ "]"
  | other => other.text

def canonicalItems : List (Json F) → List String
  | [] => []
  | x :: xs => canonicalJson x :: canonicalItems xs

def canonicalFields : List (String × Json F) → List (String × String)
  | [] => []
  | (k, v) :: m => (k, canonicalJson v) :: canonicalFields m

end

/-- The hash of the canonical parameters. `sha256Hex` is SHA-256 in hexadecimal. -/
def Def.paramsHash (sha256Hex : String → String) (params : Json F) : String :=
  sha256Hex (canonicalJson params)

end Canonical

/-- Every combination of one level for each dimension, in order. -/
def levelCombos (axes : List (String × List (Json F))) : List (List (Json F)) :=
  axes.foldl (fun combos axis => combos.flatMap fun combo => axis.2.map fun v => combo ++ [v])
    [[]]

/-- The parameters of a combination: a map keyed by the names of the dimensions. -/
def cellParams (names : List String) (combo : List (Json F)) : Json F := .object (names.zip combo)

/-- The cells of the `parameterise` matrix. -/
def expandCells [FloatText F] (sha256Hex : String → String) (d : BenchmarkDef F) : List (Cell F) :=
  (levelCombos d.parameterise).map fun combo =>
    let params := cellParams (d.parameterise.map Prod.fst) combo
    { params, paramsHash := Def.paramsHash sha256Hex params }

end Cells

end Assayist
