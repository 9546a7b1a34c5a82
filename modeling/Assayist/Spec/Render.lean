import Assayist.Spec.Json

/-! Templates of a definition, which refer to the parameters of a cell as `\x7bname\x7d`. -/

namespace Assayist

/-- A `BTreeMap<String, String>` as it iterates, in the order of its keys. -/
abbrev Vars := List (String × String)

def Vars.insert (k v : String) : Vars → Vars
  | [] => [(k, v)]
  | e :: m =>
    if k = e.1 then (k, v) :: m
    else if k < e.1 then (k, v) :: e :: m
    else e :: Vars.insert k v m

section Render

/-- `s.replace(pat, rep)` for a pattern that is not empty, with `skip` characters of the last
match still to pass over. -/
def replaceFrom (pat rep : List Char) : ℕ → List Char → List Char
  | _, [] => []
  | skip + 1, _ :: cs => replaceFrom pat rep skip cs
  | 0, c :: cs =>
    if pat.isPrefixOf (c :: cs) then rep ++ replaceFrom pat rep (pat.length - 1) cs
    else c :: replaceFrom pat rep 0 cs

/-- What stands for a parameter in a template: its name in braces. -/
def placeholder (k : String) : List Char := '\x7b' :: k.toList ++ ['\x7d']

def render (template : String) (vars : Vars) : String :=
  vars.foldl (fun s e => String.ofList (replaceFrom (placeholder e.1) e.2.toList 0 s.toList))
    template

end Render

section Cell

variable {F : Type} [FloatText F]

def valueToPlain : Json F → String
  | .string s => s
  | .null => ""
  | other => other.text

/-- The parameters of a cell as variables, plus the SUT sha. -/
def Adapter.vars (params : Json F) (sutSha : String) : Vars :=
  let m := match params.asObject with
    | some obj => obj.foldl (fun m e => Vars.insert e.1 (valueToPlain e.2) m) []
    | none => []
  Vars.insert "sut_sha" sutSha m

end Cell

end Assayist
