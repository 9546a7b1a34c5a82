import Assayist.Proofs.Fio
import Assayist.Proofs.Owner
import Assayist.Spec.Wrk

/-! What a report of wrk's is graded by: the rate and the number of its requests, neither of them in
a direction. Its latencies stay text. -/

namespace Assayist

section Text

/-- A text that tells how many requests there were, in the first line on requests, and their rate,
in the first line that begins with its label. -/
structure Printed (text total rate : String) : Prop where
  word : Owner.Word total.toList
  counted : ∃ before indent rest after,
    HostPrep.lines text = before ++ (indent ++ total ++ " requests in " ++ rest) :: after ∧
      (∀ c ∈ indent.toList, isWhite c = true) ∧ ∀ l ∈ before, contains l "requests in" = false
  timed : ∃ before after,
    HostPrep.lines text = before ++ ("Requests/sec:" ++ rate) :: after ∧
      ∀ l ∈ before, startsWith (trimStart l) "Requests/sec" = false
  plain : ':' ∉ rate.toList

variable {text total rate : String}

theorem Printed.afterColon (h : Printed text total rate) :
    afterColon text "Requests/sec" = some (trim rate) := by
  obtain ⟨before, after, hlines, hbefore⟩ := h.timed
  have hlist : ("Requests/sec:" ++ rate).toList = "Requests/sec".toList ++ ':' :: rate.toList := by
    rw [String.toList_append]
    rfl
  have htrim : trimStart ("Requests/sec:" ++ rate) = "Requests/sec:" ++ rate := by
    have hhead : ("Requests/sec:" ++ rate).toList.dropWhile isWhite =
        ("Requests/sec:" ++ rate).toList := by
      rw [hlist]
      rfl
    rw [trimStart, hhead, String.ofList_toList]
  have hfound : lineLabelled text "Requests/sec" = some ("Requests/sec:" ++ rate) := by
    unfold lineLabelled
    rw [hlines, List.find?_eq_some_iff_append]
    refine ⟨?_, before, after, rfl, ?_⟩
    · rw [htrim, startsWith, hlist, List.isPrefixOf_iff_prefix]
      exact List.prefix_append _ _
    · intro l hl
      rw [hbefore l hl]
      rfl
  have hsplit : ("Requests/sec:" ++ rate).toList.splitOn ':' =
      ["Requests/sec".toList, rate.toList] := by
    rw [hlist, List.splitOn_append_cons_self, List.splitOn_eq_singleton h.plain,
      List.splitOn_eq_singleton (by decide +kernel)]
    rfl
  unfold Assayist.afterColon
  rw [hfound, Option.bind_some, hsplit]
  simp

theorem wordsOf_indented {indent : List Char} (h : ∀ c ∈ indent, isWhite c = true)
    (cs : List Char) : wordsOf (indent ++ cs) = wordsOf cs := by
  induction indent with
  | nil => rfl
  | cons c indent ih =>
    rw [List.forall_mem_cons] at h
    rw [List.cons_append, wordsOf, List.splitOnP_cons_eq_if_modifyHead, if_pos h.1, ← ih h.2]
    rfl

theorem Printed.totalRequests (h : Printed text total rate) :
    totalRequests text = parseU64 total := by
  obtain ⟨before, indent, rest, after, hlines, hindent, hbefore⟩ := h.counted
  have hlist : (indent ++ total ++ " requests in " ++ rest).toList =
      indent.toList ++ (total.toList ++ ' ' :: ("requests in ".toList ++ rest.toList)) := by
    simp only [String.toList_append, List.append_assoc]
    rfl
  have hfound : ((HostPrep.lines text).find? fun l => contains l "requests in") =
      some (indent ++ total ++ " requests in " ++ rest) := by
    rw [hlines, List.find?_eq_some_iff_append]
    refine ⟨?_, before, after, rfl, ?_⟩
    · unfold contains
      rw [decide_eq_true_eq, hlist]
      refine ⟨indent.toList ++ (total.toList ++ [' ']), ' ' :: rest.toList, ?_⟩
      simp
    · intro l hl
      rw [hbefore l hl]
      rfl
  unfold Assayist.totalRequests
  rw [hfound, Option.bind_some, hlist, wordsOf_indented hindent, Owner.wordsOf_cons h.word]
  simp

end Text

section Reported

variable {F : Type} [F64 F] [FloatText F]

def wrkMetric (k : String) (x : F) : Metric F :=
  { id := "workload:" ++ k, value := x, contaminated := false, polarity := .unknown }

/-- A run that stores what is found in a text of wrk's as its workload report. -/
structure WrkRun (F : Type) [F64 F] [FloatText F] where
  run : Json F
  text : String
  reported : run.get "workload_report" = some (wrkSummary text)

theorem wrk_undirected : ∀ k ∈ ["requests_per_sec", "total_requests"],
    polarityOf ("workload:" ++ k) (reportUnit k) = .unknown := by
  decide +kernel

def rateOf (text : String) : Option F :=
  ((afterColon text "Requests/sec").bind FloatText.parse).filter fun x => F64.isFinite x

theorem leaves_wrk (text : String) :
    flattenNumbers "" (wrkSummary (F := F) text) =
      (rateOf text).toList.map (fun x => ("requests_per_sec", x)) ++
        (totalRequests text).toList.map fun n => ("total_requests", (n.toNat : F)) := by
  have hlatency (label : String) (idx : ℕ) (path : String) :
      flattenNumbers path (latencyField (F := F) text label idx) = [] := by
    unfold latencyField
    dsimp only
    cases (lineLabelled text label).bind fun l =>
      (HostPrep.stripPrefix label (trimStart l)).bind fun rest => (wordsOf rest.toList)[idx]? with
    | none => rfl
    | some w => rfl
  have htransfer (path : String) : flattenNumbers path
      (((afterColon text "Transfer/sec").map Json.string).getD (.null : Json F)) = [] := by
    cases afterColon text "Transfer/sec" with
    | none => rfl
    | some s => rfl
  have hrate (path : String) : flattenNumbers path
      (((afterColon text "Requests/sec").bind fun s =>
        (FloatText.parse s).map Json.float).getD (.null : Json F)) =
      (rateOf text).toList.map fun x => (path, x) := by
    unfold rateOf
    cases afterColon text "Requests/sec" with
    | none => rfl
    | some s =>
      rw [Option.bind_some, Option.bind_some]
      cases FloatText.parse (F := F) s with
      | none => rfl
      | some x =>
        rw [Option.map_some, Option.getD_some, Json.float]
        cases hfinite : F64.isFinite x with
        | false => simp [hfinite, flattenNumbers, Option.filter_some]
        | true => simp [hfinite, flattenNumbers, Number.asF64, Option.filter_some]
  have htotal (path : String) : flattenNumbers path
      (((totalRequests text).map Json.nat).getD (.null : Json F)) =
      (totalRequests text).toList.map fun n => (path, (n.toNat : F)) := by
    cases totalRequests text with
    | none => rfl
    | some n => rfl
  have hempty : String.isEmpty "" = true := rfl
  unfold wrkSummary
  dsimp only
  rw [flattenNumbers]
  simp only [flattenFields, hempty, if_true, hrate, htransfer, hlatency, htotal,
    List.nil_append, List.append_nil]
  rfl

theorem workloadMetrics_wrk (r : WrkRun F) :
    workloadMetrics r.run = (rateOf r.text).toList.map (wrkMetric "requests_per_sec") ++
      (totalRequests r.text).toList.map fun n => wrkMetric "total_requests" (n.toNat : F) := by
  unfold workloadMetrics
  rw [r.reported]
  dsimp only
  rw [leaves_wrk, List.map_append, List.map_map, List.map_map]
  simp only [Function.comp_def, wrk_undirected _ List.mem_cons_self,
    wrk_undirected _ (List.mem_cons_of_mem _ List.mem_cons_self)]
  rfl

variable [Build]

/-- What is compared by its report has no direction. -/
theorem leadPolarity_wrk {rs : List (WrkRun F)} {id : String}
    (hne : pooledMetrics id (rs.map (·.run)) ≠ []) (hbar : '|' ∉ id.toList) :
    leadPolarity (pooledMetrics id (rs.map (·.run))) = .unknown := by
  obtain ⟨m, rest, hsplit⟩ := List.exists_cons_of_ne_nil hne
  have hm : m ∈ pooledMetrics id (rs.map (·.run)) := by
    rw [hsplit]
    exact List.mem_cons_self
  obtain ⟨run, hrun, ms, hms, hmem, rfl⟩ := mem_pooledMetrics.1 hm
  obtain ⟨r, -, rfl⟩ := List.mem_map.1 hrun
  have hreport := mem_workloadMetrics hms hmem hbar
  rw [workloadMetrics_wrk, List.mem_append, List.mem_map, List.mem_map] at hreport
  rw [leadPolarity, hsplit]
  rcases hreport with ⟨x, -, rfl⟩ | ⟨n, -, rfl⟩
  · rfl
  · rfl

/-- What wrk prints is what the gate reads, and no comparison finds any of it better or worse. -/
theorem wrk_reported (a b : List (WrkRun F)) (cfg : Config F) :
    (∀ r ∈ a ++ b, ∀ total rate n x, Printed r.text total rate → parseU64 total = some n →
      FloatText.parse (trim rate) = some x → F64.isFinite x = true →
      (workloadMetrics r.run).Perm
        [wrkMetric "requests_per_sec" x, wrkMetric "total_requests" (n.toNat : F)]) ∧
      ∀ rep, ab (a.map (·.run)) (b.map (·.run)) cfg = .ok rep → ∀ d ∈ rep.detail,
        '|' ∉ d.id.toList → ∀ bad, d.status ≠ directed bad := by
  apply And.intro
  · intro r _ total rate n x hprinted hn hx hfinite
    rw [workloadMetrics_wrk, rateOf, hprinted.afterColon, hprinted.totalRequests, hn,
      Option.bind_some, hx, Option.filter_some, if_pos hfinite]
    rfl
  · have hall := directed_forall_iff (a.map (·.run)) (b.map (·.run)) cfg
      fun id _ => '|' ∈ id.toList
    have hpiped := hall.2 ?_
    · intro rep hrep d hd hbar bad hstatus
      exact hbar (hpiped rep hrep d hd bad hstatus)
    · intro _ id htested bad _
      by_contra hbar
      refine htested.known (leadPolarity_wrk ?_ hbar)
      exact List.ne_nil_of_length_pos (by have := htested.enoughA; omega)

end Reported

section Runs

attribute [local instance] releaseBuild

def wrkText (total rate : String) : String :=
  "  2 threads and 10 connections\n    Latency     1.23ms    0.45ms   10.50ms   80.00%\n" ++
    "  " ++ total ++ " requests in 10.00s, 12.34MB read\nRequests/sec:   " ++ rate ++
    "\nTransfer/sec:      1.23MB\n"

theorem wrkText_printed : Printed (wrkText "81234" "8123.40") "81234" "   8123.40" where
  word := Owner.word_of_all (by decide +kernel)
  counted := ⟨["  2 threads and 10 connections",
      "    Latency     1.23ms    0.45ms   10.50ms   80.00%"], "  ", "10.00s, 12.34MB read",
    ["Requests/sec:   8123.40", "Transfer/sec:      1.23MB"], by decide +kernel,
    List.all_eq_true.1 (by decide +kernel), by decide +kernel⟩
  timed := ⟨["  2 threads and 10 connections",
      "    Latency     1.23ms    0.45ms   10.50ms   80.00%",
      "  81234 requests in 10.00s, 12.34MB read"], ["Transfer/sec:      1.23MB"],
    by decide +kernel, by decide +kernel⟩
  plain := by decide +kernel

def printedRun (total rate : String) : WrkRun ℚ where
  run := .object [("grade", .string "reproducible"),
    ("workload_report", wrkSummary (wrkText total rate))]
  text := wrkText total rate
  reported := rfl

def halved : Except Abort (AbReport ℚ) :=
  ab (List.replicate 3 (printedRun "81234" "8123.40").run)
    (List.replicate 3 (printedRun "40617" "4061.70").run) { Config.default with resamples := 20 }

theorem printed_reported :
    (workloadMetrics (printedRun "81234" "8123.40").run).Perm
      [wrkMetric "requests_per_sec" (mkRat 40617 5),
        wrkMetric "total_requests" (mkRat 81234 1)] ∧
    ∃ rep, halved = .ok rep ∧ rep.detail.map AbDetail.id =
        ["workload:requests_per_sec", "workload:total_requests"] ∧
      ∀ d ∈ rep.detail, ∀ bad, d.status ≠ directed bad := by
  have hreported := wrk_reported (List.replicate 3 (printedRun "81234" "8123.40"))
    (List.replicate 3 (printedRun "40617" "4061.70")) { Config.default with resamples := 20 }
  obtain ⟨hmetrics, hundirected⟩ := hreported
  apply And.intro
  · exact hmetrics _ List.mem_cons_self "81234" "   8123.40" 81234 (mkRat 40617 5)
      wrkText_printed (by decide +kernel) (by decide +kernel) rfl
  · have hany : halved.toOption.any (fun rep => rep.detail.map AbDetail.id ==
        ["workload:requests_per_sec", "workload:total_requests"]) = true := by
      decide +kernel
    obtain ⟨rep, hrep, hids⟩ := Results.exists_of_any hany
    have hdetail := eq_of_beq hids
    refine ⟨rep, hrep, hdetail, fun d hd bad => hundirected rep hrep d hd ?_ bad⟩
    have hmem := List.mem_map_of_mem (f := AbDetail.id) hd
    rw [hdetail] at hmem
    have hplain : ∀ id ∈ ["workload:requests_per_sec", "workload:total_requests"],
        '|' ∉ id.toList := by
      decide +kernel
    exact hplain d.id hmem

end Runs

end Assayist
