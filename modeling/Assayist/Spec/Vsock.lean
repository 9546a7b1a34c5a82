import Assayist.Spec.Native
import Mathlib.Data.List.Sort
import Mathlib.Data.Rat.Floor

/-! The vsock workload: invocations of a guest function one after the other, each over a connection
of its own, and the summary of their round trips. What a connection answers is an argument, and so
is how often the time limit lets the first invocation be tried again. -/

namespace Assayist

variable {F : Type}

/-- A vsock workload as it is configured. -/
structure VsockWorkload where
  uds : String
  port : UInt32
  invocations : UInt32
  payload : String
  timeoutMs : UInt64

def vsockWorkload [FloatText F] (config : List (String × Json F)) (vars : Vars) : VsockWorkload :=
  let g := cfg config vars
  { uds := g "uds" ""
    port := (parseU32 (g "port" "5252")).getD 5252
    invocations := (parseU32 (g "invocations" "50")).getD 50
    payload := g "payload" ""
    timeoutMs := (parseU64 (g "timeout_ms" "5000")).getD 5000 }

/-- What the calls on one connection answer, and the round trip's time in nanoseconds. -/
structure Connection where
  connect : Except String Unit
  readTimeout : Except String Unit
  writeTimeout : Except String Unit
  request : Except String Unit
  clone : Except String Unit
  reply : Except String String
  write : Except String Unit
  response : Except String Unit
  elapsed : ℕ

/-- An error under the name of what failed. -/
def failing {α : Type} (what : String) (r : Except String α) : Except String α :=
  r.mapError fun e => what ++ ": " ++ e

/-- One invocation: connect, the CONNECT handshake, the payload if there is one, and the response
up to its end. -/
def VsockWorkload.invokeOnce (w : VsockWorkload) (c : Connection) : Except String ℕ := do
  failing ("connect " ++ w.uds) c.connect
  failing "read timeout" c.readTimeout
  failing "write timeout" c.writeTimeout
  failing "CONNECT" c.request
  failing "clone stream" c.clone
  let line ← failing "read OK" c.reply
  if startsWith line "OK " = false then
    throw ("vsock CONNECT " ++ toString w.port.toNat ++ " rejected: " ++ debugStr line)
  if w.payload.isEmpty = false then failing "write payload" c.write
  failing "read response" c.response
  pure c.elapsed

/-- What a workload has measured. A run starts a workload once, so the errors stay below
`invocations`. -/
structure VsockState where
  latenciesNs : List ℕ
  errors : ℕ
  deriving DecidableEq

def VsockState.new : VsockState := ⟨[], 0⟩

def VsockState.record (s : VsockState) : Except String ℕ → VsockState
  | .ok d => { s with latenciesNs := s.latenciesNs ++ [d] }
  | .error _ => { s with errors := s.errors + 1 }

/-- The first invocation, tried again so many times, and the number of the next connection. -/
def VsockWorkload.firstInvocation (w : VsockWorkload) (conn : ℕ → Connection) :
    ℕ → ℕ → Except String ℕ × ℕ
  | 0, k => (w.invokeOnce (conn k), k + 1)
  | retries + 1, k =>
    match w.invokeOnce (conn k) with
    | .ok d => (.ok d, k + 1)
    | .error _ => w.firstInvocation conn retries (k + 1)

/-- `start` on a workload that has measured nothing. -/
def VsockWorkload.start (w : VsockWorkload) (conn : ℕ → Connection) (retries : ℕ) :
    Except String Unit × VsockState :=
  if (trim w.uds).isEmpty then
    (.error "vsock workload needs a 'uds' (the firecracker host vsock socket)", .new)
  else
    match w.firstInvocation conn retries 0 with
    | (.error e, _) => (.error ("vsock first invocation failed: " ++ e), .new)
    | (.ok d, k) =>
      (.ok (), ((List.range' k (w.invocations.toNat - 1)).map fun j =>
        w.invokeOnce (conn j)).foldl VsockState.record (VsockState.new.record (.ok d)))

/-- `(p * (n as f64 - 1.0)).round()`, over exact arithmetic. -/
def roundedIndex (p : ℚ) (n : ℕ) : ℕ := ⌊p * ((n : ℚ) - 1) + 1 / 2⌋₊

/-- The closure `pct` of `vsock_summary`. -/
def vsockPct (sorted : List ℕ) (p : ℚ) : UInt64 :=
  .ofNat (sorted.getD (min (roundedIndex p sorted.length) (sorted.length - 1)) 0)

/-- Summarise round trips; without any, only the counts. -/
def vsockSummary (latenciesNs : List ℕ) (errors : ℕ) (requested : UInt32) : Json F :=
  if latenciesNs.isEmpty then
    .object [("driver", .string "vsock"), ("invocations", .nat 0),
      ("requested", .nat requested.toUInt64), ("errors", .nat (.ofNat errors))]
  else
    let sorted := latenciesNs.insertionSort (· ≤ ·)
    let n := sorted.length
    .object [("driver", .string "vsock"), ("invocations", .nat (.ofNat n)),
      ("requested", .nat requested.toUInt64), ("errors", .nat (.ofNat errors)),
      ("latency_avg_ns", .nat (.ofNat (sorted.sum / n))),
      ("latency_p50_ns", .nat (vsockPct sorted (1 / 2))),
      ("latency_p99_ns", .nat (vsockPct sorted (99 / 100))),
      ("latency_max_ns", .nat (.ofNat (sorted.getD (n - 1) 0)))]

def VsockWorkload.report (w : VsockWorkload) (s : VsockState) : Json F :=
  vsockSummary s.latenciesNs s.errors w.invocations

end Assayist
