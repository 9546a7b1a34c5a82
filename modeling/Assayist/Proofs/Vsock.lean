import Assayist.Lib.Quantiles
import Assayist.Lib.Results
import Assayist.Proofs.Fio
import Assayist.Spec.Vsock
import Mathlib.Data.List.GetD

/-! What a vsock workload reports is what its connections took: the first invocation is the first
connection that answers, each of the next connections is one more invocation, and the summary's
percentiles are at the ranks nearest to theirs. -/

namespace Assayist

open Histograms

section Percentiles

/-- The sample at the rank nearest to so much of the way from the first sample to the last. -/
def Percentile (ds : List ℕ) (p : ℚ) (x : ℕ) : Prop :=
  ∃ i < ds.length, |(i : ℚ) - p * (ds.length - 1)| ≤ 1 / 2 ∧ AtRank ds (i + 1) x

theorem roundedIndex_near {p : ℚ} (hp : 0 ≤ p) {n : ℕ} (hn : 0 < n) :
    |(roundedIndex p n : ℚ) - p * (n - 1)| ≤ 1 / 2 := by
  have hcast : (1 : ℚ) ≤ n := by exact_mod_cast hn
  have hpos : 0 ≤ p * ((n : ℚ) - 1) + 1 / 2 := by
    have := mul_nonneg hp (sub_nonneg.2 hcast)
    linarith
  have hle := Nat.floor_le hpos
  have hlt := Nat.lt_floor_add_one (p * ((n : ℚ) - 1) + 1 / 2)
  rw [abs_le]
  unfold roundedIndex
  constructor
  · linarith
  · linarith

theorem roundedIndex_lt {p : ℚ} (hp : 0 ≤ p) (hp1 : p ≤ 1) {n : ℕ} (hn : 0 < n) :
    roundedIndex p n < n := by
  have hcast : (1 : ℚ) ≤ n := by exact_mod_cast hn
  have hnear := (abs_le.1 (roundedIndex_near hp hn)).2
  have hmul : p * ((n : ℚ) - 1) ≤ n - 1 := mul_le_of_le_one_left (sub_nonneg.2 hcast) hp1
  have hlt : (roundedIndex p n : ℚ) < n := by linarith
  exact_mod_cast hlt

variable {ds : List ℕ}

theorem insertionSort_getD {i : ℕ} (hi : i < ds.length) :
    (ds.insertionSort (· ≤ ·)).getD i 0 ∈ ds ∧
      AtRank ds (i + 1) ((ds.insertionSort (· ≤ ·)).getD i 0) := by
  have hlen : i < (ds.insertionSort (· ≤ ·)).length := by rwa [List.length_insertionSort]
  rw [List.getD_eq_getElem _ _ hlen]
  refine ⟨?_, AtRank.insertionSort hlen⟩
  exact (List.perm_insertionSort _ ds).mem_iff.1 (List.getElem_mem hlen)

theorem vsockPct_percentile (hne : ds ≠ []) (hlt : ∀ d ∈ ds, d < 2 ^ 64) {p : ℚ} (hp : 0 ≤ p)
    (hp1 : p ≤ 1) :
    Percentile ds p (vsockPct (ds.insertionSort (· ≤ ·)) p).toNat := by
  have hpos : 0 < ds.length := List.length_pos_iff.2 hne
  have hidx := roundedIndex_lt hp hp1 hpos
  obtain ⟨hmem, hrank⟩ := insertionSort_getD hidx
  refine ⟨_, hidx, roundedIndex_near hp hpos, ?_⟩
  unfold vsockPct
  rw [List.length_insertionSort, Nat.min_eq_left (by omega),
    UInt64.toNat_ofNat_of_lt' (hlt _ hmem)]
  exact hrank

end Percentiles

section Invocations

/-- The calls on a connection by which an invocation is answered. -/
structure VsockWorkload.Answers (w : VsockWorkload) (c : Connection) : Prop where
  connect : c.connect = .ok ()
  readTimeout : c.readTimeout = .ok ()
  writeTimeout : c.writeTimeout = .ok ()
  request : c.request = .ok ()
  clone : c.clone = .ok ()
  reply : ∃ line, c.reply = .ok line ∧ startsWith line "OK " = true
  write : w.payload.isEmpty = false → c.write = .ok ()
  response : c.response = .ok ()

theorem failing_eq_ok {α : Type} {what : String} {r : Except String α} {a : α} :
    failing what r = .ok a ↔ r = .ok a := by
  cases r <;> simp [failing, Except.mapError]

theorem exists_unit {r : Except String Unit} : (∃ u, r = .ok u) ↔ r = .ok () :=
  ⟨fun ⟨(), h⟩ => h, fun h => ⟨(), h⟩⟩

variable {w : VsockWorkload} {c : Connection} {conn : ℕ → Connection}

theorem invokeOnce_eq_ok {d : ℕ} : w.invokeOnce c = .ok d ↔ w.Answers c ∧ d = c.elapsed := by
  unfold VsockWorkload.invokeOnce
  simp only [Results.bind_eq_ok, failing_eq_ok]
  constructor
  · rintro ⟨_, hconnect, _, hread, _, hwrite, _, hrequest, _, hclone, line, hline, h⟩
    cases hok : startsWith line "OK " with
    | false => simp [hok, throw, throwThe, MonadExceptOf.throw, bind, Except.bind] at h
    | true =>
      have hpaid : (w.payload.isEmpty = false → c.write = .ok ()) ∧ c.response = .ok () ∧
          c.elapsed = d := by
        cases hpay : w.payload.isEmpty with
        | true => simpa [hok, hpay, failing_eq_ok, Results.map_eq_ok, exists_unit] using h
        | false =>
          simpa [hok, hpay, Results.bind_eq_ok, failing_eq_ok, Results.map_eq_ok, exists_unit]
            using h
      exact ⟨⟨hconnect, hread, hwrite, hrequest, hclone, ⟨line, hline, hok⟩, hpaid.1, hpaid.2.1⟩,
        hpaid.2.2.symm⟩
  · rintro ⟨h, rfl⟩
    obtain ⟨line, hline, hok⟩ := h.reply
    refine ⟨(), h.connect, (), h.readTimeout, (), h.writeTimeout, (), h.request, (), h.clone,
      line, hline, ?_⟩
    cases hpay : w.payload.isEmpty with
    | true => simp [hok, Results.map_eq_ok, failing_eq_ok, h.response]
    | false =>
      simp [hok, Results.bind_eq_ok, Results.map_eq_ok, failing_eq_ok, h.response, h.write hpay]

theorem not_answers {e : String} (h : w.invokeOnce c = .error e) : ¬ w.Answers c := by
  intro hanswers
  rw [invokeOnce_eq_ok.2 ⟨hanswers, rfl⟩] at h
  cases h

instance : Decidable (w.Answers c) :=
  decidable_of_iff ((w.invokeOnce c).isOk = true)
    ⟨fun h => by obtain ⟨d, hd⟩ := Results.exists_ok h; exact (invokeOnce_eq_ok.1 hd).1,
      fun h => by rw [invokeOnce_eq_ok.2 ⟨h, rfl⟩]; rfl⟩

def VsockWorkload.roundTrips (w : VsockWorkload) (conn : ℕ → Connection) (js : List ℕ) : List ℕ :=
  (js.filter fun j => w.Answers (conn j)).map fun j => (conn j).elapsed

def VsockWorkload.refusals (w : VsockWorkload) (conn : ℕ → Connection) (js : List ℕ) : ℕ :=
  js.countP fun j => ¬ w.Answers (conn j)

theorem roundTrips_add_refusals (w : VsockWorkload) (conn : ℕ → Connection) (js : List ℕ) :
    (w.roundTrips conn js).length + w.refusals conn js = js.length := by
  rw [VsockWorkload.roundTrips, VsockWorkload.refusals, List.length_map,
    ← List.countP_eq_length_filter, List.length_eq_countP_add_countP fun j => w.Answers (conn j)]
  simp

def VsockWorkload.measured (w : VsockWorkload) (conn : ℕ → Connection) (js : List ℕ) :
    VsockState :=
  (js.map fun j => w.invokeOnce (conn j)).foldl VsockState.record .new

theorem measured_eq (js : List ℕ) :
    w.measured conn js = ⟨w.roundTrips conn js, w.refusals conn js⟩ := by
  unfold VsockWorkload.measured VsockWorkload.roundTrips VsockWorkload.refusals
  induction js using List.reverseRecOn with
  | nil => rfl
  | append_singleton js j ih =>
    rw [List.map_append, List.foldl_append, ih, List.filter_append, List.countP_append]
    by_cases h : w.Answers (conn j)
    · have hok : w.invokeOnce (conn j) = .ok (conn j).elapsed := invokeOnce_eq_ok.2 ⟨h, rfl⟩
      simp [hok, h, VsockState.record]
    · have hnone (d : ℕ) : w.invokeOnce (conn j) ≠ .ok d := fun he => h (invokeOnce_eq_ok.1 he).1
      obtain ⟨e, he⟩ := Results.exists_error hnone
      simp [he, h, VsockState.record]

/-- The first invocation is the first connection that answers, if the tries reach one. -/
theorem firstInvocation_ok {retries k n d : ℕ}
    (h : w.firstInvocation conn retries k = (.ok d, n)) :
    ∃ j, n = k + j + 1 ∧ j ≤ retries ∧ (∀ i < j, ¬ w.Answers (conn (k + i))) ∧
      w.invokeOnce (conn (k + j)) = .ok d := by
  induction retries generalizing k with
  | zero =>
    obtain ⟨hok, rfl⟩ := Prod.mk.inj h
    exact ⟨0, rfl, le_rfl, by simp, hok⟩
  | succ retries ih =>
    unfold VsockWorkload.firstInvocation at h
    split at h
    next d' hok =>
      obtain ⟨hd, rfl⟩ := Prod.mk.inj h
      exact ⟨0, rfl, Nat.zero_le _, by simp, hok.trans hd⟩
    next e herr =>
      obtain ⟨j, rfl, hj, hfailed, hok⟩ := ih h
      refine ⟨j + 1, by omega, by omega, ?_, ?_⟩
      · intro i hi
        cases i with
        | zero => exact not_answers herr
        | succ i =>
          have := hfailed i (by omega)
          rwa [Nat.add_assoc, Nat.add_comm 1 i] at this
      · rwa [Nat.add_assoc, Nat.add_comm 1 j] at hok

/-- What a workload has invoked: the connections from the first that answers on, one for each
invocation, and one even where none is asked for. -/
structure VsockWorkload.Invoked (w : VsockWorkload) (conn : ℕ → Connection) (retries j : ℕ) :
    Prop where
  uds : (trim w.uds).isEmpty = false
  tried : j ≤ retries
  failed : ∀ i < j, ¬ w.Answers (conn i)
  answered : w.Answers (conn j)

def VsockWorkload.connections (w : VsockWorkload) (j : ℕ) : List ℕ :=
  List.range' j (max 1 w.invocations.toNat)

theorem start_eq_ok {retries : ℕ} {s : VsockState} (h : w.start conn retries = (.ok (), s)) :
    ∃ j, w.Invoked conn retries j ∧ s = w.measured conn (w.connections j) := by
  unfold VsockWorkload.start at h
  split_ifs at h with huds
  · cases h
  · split at h
    next e n hfirst => cases h
    next d n hfirst =>
      obtain ⟨j, rfl, hj, hfailed, hok⟩ := firstInvocation_ok hfirst
      simp only [Nat.zero_add] at hfailed hok h
      obtain ⟨-, rfl⟩ := Prod.mk.inj h
      refine ⟨j, ⟨by simpa using huds, hj, hfailed, (invokeOnce_eq_ok.1 hok).1⟩, ?_⟩
      have hlist : w.connections j = j :: List.range' (j + 1) (w.invocations.toNat - 1) := by
        have hmax : max 1 w.invocations.toNat = w.invocations.toNat - 1 + 1 := by omega
        rw [VsockWorkload.connections, hmax, List.range'_succ]
      rw [hlist, VsockWorkload.measured, List.map_cons, List.foldl_cons, hok]

theorem start_error {retries : ℕ} {e : String} {s : VsockState}
    (h : w.start conn retries = (.error e, s)) : s = .new := by
  unfold VsockWorkload.start at h
  split_ifs at h
  · exact (Prod.mk.inj h).2.symm
  · split at h
    next => exact (Prod.mk.inj h).2.symm
    next => cases h

theorem start_unconfigured {F : Type} [FloatText F] {config : List (String × Json F)} {vars : Vars}
    (h : config.lookup "uds" = none) (retries : ℕ) :
    (vsockWorkload config vars).start conn retries =
      (.error "vsock workload needs a 'uds' (the firecracker host vsock socket)", .new) := by
  have huds : (vsockWorkload config vars).uds = "" := by
    change cfg config vars "uds" "" = ""
    unfold cfg
    rw [h]
  unfold VsockWorkload.start
  rw [huds]
  exact if_pos rfl

/-- The first invocation succeeds where one of the tries does. -/
theorem firstInvocation_of_answers {retries k j : ℕ} (hj : j ≤ retries)
    (h : w.Answers (conn (k + j))) : ∃ d n, w.firstInvocation conn retries k = (.ok d, n) := by
  induction retries generalizing k j with
  | zero =>
    obtain rfl := Nat.le_zero.1 hj
    exact ⟨_, _, Prod.ext (invokeOnce_eq_ok.2 ⟨h, rfl⟩) rfl⟩
  | succ retries ih =>
    unfold VsockWorkload.firstInvocation
    split
    next d hok => exact ⟨d, _, rfl⟩
    next e herr =>
      cases j with
      | zero => exact absurd h (not_answers herr)
      | succ j =>
        have hnext : k + (j + 1) = k + 1 + j := by omega
        exact ih (Nat.le_of_succ_le_succ hj) (hnext ▸ h)

/-- A workload starts exactly where it names a socket and one of the tries is answered. -/
theorem start_ok_iff {retries : ℕ} :
    (∃ s, w.start conn retries = (.ok (), s)) ↔ ∃ j, w.Invoked conn retries j := by
  constructor
  · rintro ⟨s, h⟩
    obtain ⟨j, hj, -⟩ := start_eq_ok h
    exact ⟨j, hj⟩
  · rintro ⟨j, hj⟩
    rw [← Nat.zero_add j] at hj
    obtain ⟨d, n, hfirst⟩ := firstInvocation_of_answers (Nat.zero_add j ▸ hj.tried) hj.answered
    unfold VsockWorkload.start
    rw [if_neg (by rw [hj.uds]; exact Bool.false_ne_true), hfirst]
    exact ⟨_, rfl⟩

end Invocations

section Summary

structure Summarises (ds : List ℕ) (mean p50 p99 top : UInt64) : Prop where
  mean : mean.toNat * ds.length ≤ ds.sum ∧ ds.sum < (mean.toNat + 1) * ds.length
  p50 : Percentile ds (1 / 2) p50.toNat
  p99 : Percentile ds (99 / 100) p99.toNat
  top : IsGreatest {d | d ∈ ds} top.toNat

variable {F : Type} {ds : List ℕ}

/-- How many invocations were answered and refused, and how many were asked for. -/
def countFields (answered refused : ℕ) (requested : UInt32) : List (String × UInt64) :=
  [("invocations", .ofNat answered), ("requested", requested.toUInt64), ("errors", .ofNat refused)]

def latencyFields (mean p50 p99 top : UInt64) : List (String × UInt64) :=
  [("latency_avg_ns", mean), ("latency_p50_ns", p50), ("latency_p99_ns", p99),
    ("latency_max_ns", top)]

theorem mean_lt (hne : ds ≠ []) (hlt : ∀ d ∈ ds, d < 2 ^ 64) : ds.sum / ds.length < 2 ^ 64 := by
  have hpos := List.length_pos_iff.2 hne
  rw [Nat.div_lt_iff_lt_mul hpos]
  calc ds.sum ≤ ds.length * (2 ^ 64 - 1) := by
        rw [← smul_eq_mul]
        exact List.sum_le_card_nsmul ds _ fun d hd => Nat.le_pred_of_lt (hlt d hd)
    _ < 2 ^ 64 * ds.length := by omega

theorem greatest (hne : ds ≠ []) :
    IsGreatest {d | d ∈ ds} ((ds.insertionSort (· ≤ ·)).getD (ds.length - 1) 0) := by
  have hpos : 0 < ds.length := List.length_pos_iff.2 hne
  obtain ⟨hmem, hrank, -⟩ := insertionSort_getD (Nat.sub_lt hpos Nat.one_pos)
  change _ ≤ ds.countP _ at hrank
  rw [Nat.sub_add_cancel hpos] at hrank
  have hall := List.countP_eq_length.1 (le_antisymm List.countP_le_length hrank)
  exact ⟨hmem, fun d hd => of_decide_eq_true (hall d hd)⟩

theorem vsockSummary_fields (hne : ds ≠ []) (hlt : ∀ d ∈ ds, d < 2 ^ 64) (errors : ℕ)
    (requested : UInt32) :
    ∃ mean p50 p99 top, Summarises ds mean p50 p99 top ∧
      vsockSummary (F := F) ds errors requested =
        .object (("driver", .string "vsock") ::
          (countFields ds.length errors requested ++ latencyFields mean p50 p99 top).map fun f =>
            (f.1, .nat f.2)) := by
  have hpos : 0 < ds.length := List.length_pos_iff.2 hne
  have hgreatest := greatest hne
  refine ⟨.ofNat (ds.sum / ds.length), vsockPct (ds.insertionSort (· ≤ ·)) (1 / 2),
    vsockPct (ds.insertionSort (· ≤ ·)) (99 / 100),
    .ofNat ((ds.insertionSort (· ≤ ·)).getD (ds.length - 1) 0), ⟨?_, ?_, ?_, ?_⟩, ?_⟩
  · rw [UInt64.toNat_ofNat_of_lt' (mean_lt hne hlt)]
    exact ⟨Nat.div_mul_le_self _ _, (Nat.div_lt_iff_lt_mul hpos).1 (Nat.lt_succ_self _)⟩
  · exact vsockPct_percentile hne hlt (by norm_num) (by norm_num)
  · exact vsockPct_percentile hne hlt (by norm_num) (by norm_num)
  · rwa [UInt64.toNat_ofNat_of_lt' (hlt _ hgreatest.1)]
  · unfold vsockSummary
    rw [if_neg (by simpa using hne)]
    simp only [List.length_insertionSort, (List.perm_insertionSort (· ≤ ·) ds).sum_eq]
    rfl

end Summary

section Reported

variable {F : Type} [F64 F]

def reportMetric (polarity : Polarity) (f : String × UInt64) : Metric F :=
  { id := "workload:" ++ f.1, value := (f.2.toNat : F), contaminated := false, polarity }

/-- A run whose workload has been started, with round trips of less than 2⁶⁴ nanoseconds, and
reports what it has measured. -/
structure VsockRun (F : Type) where
  workload : VsockWorkload
  conn : ℕ → Connection
  retries : ℕ
  short : ∀ j, (conn j).elapsed < 2 ^ 64
  state : VsockState
  started : workload.start conn retries = (.ok (), state)
  run : Json F
  reported : run.get "workload_report" = some (workload.report state)

theorem flattenFields_nat (fs : List (String × UInt64)) :
    flattenFields (F := F) "" (fs.map fun f => (f.1, .nat f.2)) =
      fs.map fun f => (f.1, (f.2.toNat : F)) := by
  induction fs with
  | nil => rfl
  | cons f fs ih =>
    rw [List.map_cons, flattenFields, ih]
    rfl

/-- A report of a name and some counts has a metric for each count. -/
theorem workloadMetrics_fields {run : Json F} {name : String} {fs : List (String × UInt64)}
    (h : run.get "workload_report" =
      some (.object (("driver", .string name) :: fs.map fun f => (f.1, .nat f.2)))) :
    workloadMetrics run =
      fs.map fun f => reportMetric (polarityOf ("workload:" ++ f.1) (reportUnit f.1)) f := by
  unfold workloadMetrics
  rw [h]
  dsimp only
  rw [flattenNumbers, flattenFields, flattenFields_nat, flattenNumbers, List.nil_append,
    List.map_map]
  · rfl
  all_goals simp

/-- The polarity's rules give counts no direction. -/
theorem countFields_graded {answered refused : ℕ} {requested : UInt32} :
    ((countFields answered refused requested).map fun f =>
        reportMetric (F := F) (polarityOf ("workload:" ++ f.1) (reportUnit f.1)) f) =
      (countFields answered refused requested).map (reportMetric .unknown) := by
  have hkeys : ∀ k ∈ ["invocations", "requested", "errors"],
      polarityOf ("workload:" ++ k) (reportUnit k) = .unknown := by
    decide +kernel
  apply List.map_congr_left
  intro f hf
  rw [hkeys f.1 (List.mem_map_of_mem (f := Prod.fst) hf)]

theorem latencyFields_graded {mean p50 p99 top : UInt64} :
    ((latencyFields mean p50 p99 top).map fun f =>
        reportMetric (F := F) (polarityOf ("workload:" ++ f.1) (reportUnit f.1)) f) =
      (latencyFields mean p50 p99 top).map (reportMetric .lowerBetter) := by
  have hkeys : ∀ k ∈ ["latency_avg_ns", "latency_p50_ns", "latency_p99_ns", "latency_max_ns"],
      polarityOf ("workload:" ++ k) (reportUnit k) = .lowerBetter := by
    decide +kernel
  apply List.map_congr_left
  intro f hf
  rw [hkeys f.1 (List.mem_map_of_mem (f := Prod.fst) hf)]

/-- The metrics of the workload's report are those of a summary of the connections from the first
that answers on, as many as invocations were asked for. -/
theorem invocations_reported (r : VsockRun F) :
    ∃ j, r.workload.Invoked r.conn r.retries j ∧
      (r.workload.roundTrips r.conn (r.workload.connections j)).length +
          r.workload.refusals r.conn (r.workload.connections j) =
        max 1 r.workload.invocations.toNat ∧
      ∃ mean p50 p99 top,
        Summarises (r.workload.roundTrips r.conn (r.workload.connections j)) mean p50 p99 top ∧
        (workloadMetrics r.run).Perm
          ((countFields (r.workload.roundTrips r.conn (r.workload.connections j)).length
              (r.workload.refusals r.conn (r.workload.connections j))
              r.workload.invocations).map (reportMetric .unknown) ++
            (latencyFields mean p50 p99 top).map (reportMetric .lowerBetter)) := by
  obtain ⟨j, hinvoked, hstate⟩ := start_eq_ok r.started
  rw [measured_eq] at hstate
  have hlt : ∀ d ∈ r.workload.roundTrips r.conn (r.workload.connections j), d < 2 ^ 64 := by
    intro d hd
    obtain ⟨i, -, rfl⟩ := List.mem_map.1 hd
    exact r.short i
  have hne : r.workload.roundTrips r.conn (r.workload.connections j) ≠ [] := by
    refine List.ne_nil_of_mem (List.mem_map.2 ⟨j, List.mem_filter.2 ⟨?_, ?_⟩, rfl⟩)
    · exact List.mem_range'_1.2 ⟨le_rfl, by omega⟩
    · exact decide_eq_true hinvoked.answered
  obtain ⟨mean, p50, p99, top, hsummary, hfields⟩ := vsockSummary_fields (F := F) hne hlt
    (r.workload.refusals r.conn (r.workload.connections j)) r.workload.invocations
  have hcount := roundTrips_add_refusals r.workload r.conn (r.workload.connections j)
  rw [VsockWorkload.connections, List.length_range'] at hcount
  refine ⟨j, hinvoked, hcount, mean, p50, p99, top, hsummary, .of_eq ?_⟩
  have hreport := r.reported
  rw [hstate, VsockWorkload.report, hfields] at hreport
  rw [workloadMetrics_fields hreport, List.map_append, countFields_graded, latencyFields_graded]

end Reported

section Runs

def replying (line : String) (elapsed : ℕ) : Connection :=
  ⟨.ok (), .ok (), .ok (), .ok (), .ok (), .ok line, .ok (), .ok (), elapsed⟩

/-- A guest that is ready at the second try and misses one of the invocations after it. -/
def restored : VsockRun ℚ where
  workload := ⟨"/run/fc.sock.d/fn.vsock", 5252, 4, "", 5000⟩
  conn j := if j = 0 then replying "" 10 else if j = 1 then replying "OK 1024\n" 3000
    else if j = 2 then replying "NO\n" 10 else if j = 3 then replying "OK 1025\n" 1000
    else replying "OK 1026\n" 2000
  retries := 5
  short j := by split_ifs <;> simp [replying]
  state := ⟨[3000, 1000, 2000], 1⟩
  started := by rfl
  run := .object [("workload_report", vsockSummary [3000, 1000, 2000] 1 4)]
  reported := rfl

theorem restored_reported :
    ∃ mean p50 p99 top, Summarises [3000, 1000, 2000] mean p50 p99 top ∧
      (workloadMetrics restored.run).Perm
        ((countFields 3 1 4).map (reportMetric .unknown) ++
          (latencyFields mean p50 p99 top).map (reportMetric .lowerBetter)) := by
  obtain ⟨j, hj, -, hreported⟩ := invocations_reported restored
  have hrefused : ¬ restored.workload.Answers (restored.conn 0) := by decide +kernel
  have hanswered : restored.workload.Answers (restored.conn 1) := by decide +kernel
  have hfirst : j = 1 := by
    rcases Nat.lt_trichotomy j 1 with hlt | heq | hgt
    · obtain rfl := Nat.lt_one_iff.1 hlt
      exact absurd hj.answered hrefused
    · exact heq
    · exact absurd hanswered (hj.failed 1 hgt)
  subst hfirst
  exact hreported

end Runs

end Assayist
