import Assayist.Spec.Firecracker

/-! The native workloads: the commands that the drivers run, and what the `fio` driver stores as
its report. -/

namespace Assayist

variable {F : Type}

/-- `v.get("jobs").and_then(|j| j.get(0))`. -/
def fioJob (v : Json F) : Option (Json F) := (v.getArray "jobs").bind (·[0]?)

/-- The closure `dir` of `fio_summary`. -/
def fioDir (job : Option (Json F)) (name : String) : Json F :=
  let d := job.bind (·.get name)
  let iops := (d.bind (·.get "iops")).getD .null
  let bwKb := (d.bind (·.get "bw")).getD .null
  let clat := d.bind fun d => (d.get "clat_ns").or (d.get "clat")
  let latMean := (clat.bind (·.get "mean")).getD .null
  let latP99 := ((clat.bind (·.get "percentile")).bind (·.get "99.000000")).getD .null
  .object [("iops", iops), ("bw_kb_s", bwKb), ("clat_ns_mean", latMean), ("clat_ns_p99", latP99)]

/-- Reduce fio JSON to a compact summary; a missing field becomes `null`. -/
def fioSummary (v : Json F) : Json F :=
  .object [("driver", .string "fio"),
    ("fio_version", ((v.get "fio version").or (v.get "fio_version")).getD .null),
    ("read", fioDir (fioJob v) "read"),
    ("write", fioDir (fioJob v) "write")]

section Workloads

variable [FloatText F]

/-- An fio job: the binary and its arguments. -/
structure FioWorkload where
  bin : String
  args : List String
  deriving DecidableEq

def fioWorkload (config : List (String × Json F)) (vars : Vars) : FioWorkload :=
  let g := cfg config vars
  { bin := g "bin" "fio"
    args := [
      "--name=" ++ g "name" "assayist",
      "--filename=" ++ g "filename" "/tmp/assayist-fio.dat",
      "--rw=" ++ g "rw" "randread",
      "--bs=" ++ g "bs" "4k",
      "--iodepth=" ++ g "iodepth" "32",
      "--numjobs=" ++ g "numjobs" "1",
      "--ioengine=" ++ g "ioengine" "libaio",
      "--direct=" ++ g "direct" "1",
      "--size=" ++ g "size" "1G",
      "--runtime=" ++ g "runtime" "30",
      "--time_based",
      "--output-format=json"] }

/-- An HTTP load test: the binary and its arguments. -/
structure WrkWorkload where
  bin : String
  args : List String
  deriving DecidableEq

def wrkWorkload (config : List (String × Json F)) (vars : Vars) : WrkWorkload :=
  let g := cfg config vars
  { bin := g "bin" "wrk"
    args := [
      "-t" ++ g "threads" "2",
      "-c" ++ g "connections" "10",
      "-d" ++ g "duration" "30" ++ "s",
      "--latency"] ++
      (if (config.lookup "rate").isSome then ["-R" ++ g "rate" ""] else []) ++
      (if (config.lookup "script").isSome then ["-s" ++ g "script" ""] else []) ++
      [g "url" "http://127.0.0.1:8080/"] }

/-- `'bin' 'arg' 'arg'`, which `start` runs. -/
def quotedCmd (bin : String) (args : List String) : String :=
  "'" ++ bin ++ "' " ++ " ".intercalate (args.map fun a => "'" ++ a ++ "'")

def FioWorkload.startCmd (w : FioWorkload) : String := quotedCmd w.bin w.args

def WrkWorkload.startCmd (w : WrkWorkload) : String := quotedCmd w.bin w.args

end Workloads

end Assayist
