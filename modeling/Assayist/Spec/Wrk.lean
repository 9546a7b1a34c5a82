import Assayist.Spec.Adapter
import Assayist.Spec.HostPrep
import Assayist.Spec.Native

/-! The report of the `wrk` driver: what is found in the text that wrk prints. -/

namespace Assayist

variable {F : Type} [F64 F] [FloatText F]

/-- `s.trim_start()`. -/
def trimStart (s : String) : String := String.ofList (s.toList.dropWhile isWhite)

/-- The first line that begins with a label, blanks aside. -/
def lineLabelled (text label : String) : Option String :=
  (HostPrep.lines text).find? fun l => startsWith (trimStart l) label

/-- The closure `after_colon` of `wrk_summary`. -/
def afterColon (text label : String) : Option String :=
  ((lineLabelled text label).bind fun l => (l.toList.splitOn ':')[1]?).map fun s =>
    trim (String.ofList s)

/-- The closure `latency_field` of `wrk_summary`. -/
def latencyField (text label : String) (idx : ℕ) : Json F :=
  let word := (lineLabelled text label).bind fun l =>
    (HostPrep.stripPrefix label (trimStart l)).bind fun rest => (wordsOf rest.toList)[idx]?
  (word.map fun w => Json.string (String.ofList w)).getD .null

def totalRequests (text : String) : Option UInt64 :=
  ((HostPrep.lines text).find? fun l => contains l "requests in").bind fun l =>
    (wordsOf l.toList).head?.bind fun w => parseU64 (String.ofList w)

/-- Parse wrk's text summary; any field that is not found stays `null`. -/
def wrkSummary (text : String) : Json F :=
  let reqPerSec := ((afterColon text "Requests/sec").bind fun s =>
    (FloatText.parse s).map Json.float).getD .null
  let transferPerSec := ((afterColon text "Transfer/sec").map Json.string).getD .null
  .object [("driver", .string "wrk"), ("requests_per_sec", reqPerSec),
    ("transfer_per_sec", transferPerSec), ("latency_avg", latencyField text "Latency" 0),
    ("latency_max", latencyField text "Latency" 2),
    ("total_requests", ((totalRequests text).map Json.nat).getD .null)]

end Assayist
