import Assayist.Proofs.Labels

/-! What decides a metric's polarity: tokens that the lower-cased id contains, and the unit. The
key and the labels are parts of the id, so a token in them decides as well as one in the
name. What `reduce` grades is listed by id and unit. -/

namespace Assayist

section Tokens

def throughputTokens : List String := ["bytes", "packets", "throughput", "iops"]

def memoryTokens : List String := ["mem_consumed", "memory_consumed", "rss"]

def cpuTokens : List String := ["on_cpu", "utilis", "cpu_ns"]

/-- The lower-cased id contains one of some tokens. -/
def names (tokens : List String) (id : String) : Bool := tokens.any (contains (toLowercase id))

def timeUnits : List String := ["ns", "us", "ms", "s"]

/-- The rules of the polarity in their order: throughput before memory before CPU before the
time units. -/
theorem polarityOf_eq (id unit : String) :
    polarityOf id unit =
      if names throughputTokens id || unit == "By" then .higherBetter
      else if names memoryTokens id then .lowerBetter
      else if names cpuTokens id then .unknown
      else if timeUnits.contains unit then .lowerBetter
      else .unknown := by
  simp only [polarityOf, names, throughputTokens, memoryTokens, cpuTokens, timeUnits,
    List.any_cons, List.any_nil, Bool.or_false, Bool.or_assoc, List.contains_cons,
    List.contains_nil]

/-- Grades an id in a unit lower-better, where no throughput rule comes first. -/
def lowered (unit id : String) : Bool :=
  names memoryTokens id || (!names cpuTokens id && timeUnits.contains unit)

theorem polarityOf_lowered (id unit : String) :
    polarityOf id unit =
      if names throughputTokens id || unit == "By" then .higherBetter
      else if lowered unit id then .lowerBetter
      else .unknown := by
  rw [polarityOf_eq]
  unfold lowered
  cases names memoryTokens id <;> cases names cpuTokens id <;> simp

theorem polarityOf_higher {id unit : String} :
    polarityOf id unit = .higherBetter ↔ names throughputTokens id = true ∨ unit = "By" := by
  rw [polarityOf_eq, ← beq_iff_eq (a := unit), ← Bool.or_eq_true]
  split_ifs with h h' <;> simp [h]

/-- The memory rule decides an id that it applies to only where the throughput rule does not. -/
theorem polarityOf_memory {id unit : String} (h : names memoryTokens id = true) :
    polarityOf id unit = .lowerBetter ↔ names throughputTokens id = false ∧ unit ≠ "By" := by
  by_cases hhigher : names throughputTokens id = true ∨ unit = "By"
  · rw [polarityOf_higher.2 hhigher]
    refine iff_of_false (by simp) ?_
    rintro ⟨hid, hunit⟩
    rcases hhigher with h' | h'
    · simp [hid] at h'
    · exact hunit h'
  · rw [not_or, Bool.not_eq_true] at hhigher
    refine iff_of_true ?_ hhigher
    rw [polarityOf_eq, hhigher.1, beq_false_of_ne hhigher.2, Bool.or_false,
      if_neg Bool.false_ne_true, if_pos h]

theorem bar_mem_toList (s t : String) : '|' ∈ (s ++ "|" ++ t).toList := by
  rw [String.toList_append, String.toList_append]
  simp

theorem toLowercase_append (s t : String) :
    toLowercase (s ++ t) = toLowercase s ++ toLowercase t := by
  simp [toLowercase]

/-- A token without a bar lies on one side of it. -/
theorem contains_bar {token : String} (hbar : '|' ∉ token.toList) (s t : String) :
    contains (toLowercase (s ++ "|" ++ t)) token =
      (contains (toLowercase s) token || contains (toLowercase t) token) := by
  have hsep : (toLowercase (s ++ "|" ++ t)).toList =
      (toLowercase s).toList ++ '|' :: (toLowercase t).toList := by
    rw [toLowercase_append, toLowercase_append, String.toList_append, String.toList_append]
    simp [toLowercase]
  unfold contains
  rw [hsep, ← Bool.decide_or, decide_eq_decide]
  exact Pieces.infix_sep_iff hbar

theorem names_bar {tokens : List String} (hbar : ∀ token ∈ tokens, '|' ∉ token.toList)
    (s t : String) : names tokens (s ++ "|" ++ t) = (names tokens s || names tokens t) := by
  induction tokens with
  | nil => rfl
  | cons token tokens ih =>
    obtain ⟨htoken, htokens⟩ := List.forall_mem_cons.1 hbar
    have hrest := ih htokens
    unfold names at hrest ⊢
    rw [List.any_cons, List.any_cons, List.any_cons, hrest, contains_bar htoken]
    ac_rfl

theorem tokens_plain :
    (∀ token ∈ throughputTokens, '|' ∉ token.toList) ∧
    (∀ token ∈ memoryTokens, '|' ∉ token.toList) ∧
    ∀ token ∈ cpuTokens, '|' ∉ token.toList := by
  decide

/-- No field of a series has a token in it. -/
theorem field_plain {field : String} (h : field ∈ ["mean", "p50", "p99", "value", "rate"]) :
    names throughputTokens field = false ∧ names memoryTokens field = false ∧
      names cpuTokens field = false := by
  revert field
  decide

/-- The field of a metric plays no part in its polarity. -/
theorem polarityOf_field {field : String} (h : field ∈ ["mean", "p50", "p99", "value", "rate"])
    (base unit : String) : polarityOf (base ++ "|" ++ field) unit = polarityOf base unit := by
  obtain ⟨hthroughput, hmemory, hcpu⟩ := tokens_plain
  obtain ⟨hthroughput', hmemory', hcpu'⟩ := field_plain h
  rw [polarityOf_eq, polarityOf_eq, names_bar hthroughput, names_bar hmemory, names_bar hcpu,
    hthroughput', hmemory', hcpu', Bool.or_false, Bool.or_false, Bool.or_false]

/-- Two ids in one unit are graded alike, told by the tokens in them: the throughput tokens
first, then those of memory, then those of CPU time against the unit. -/
def tokensAgree (unit id id' : String) : Prop :=
  unit = "By" ∨ (names throughputTokens id = names throughputTokens id' ∧
    (names throughputTokens id = true ∨ lowered unit id = lowered unit id'))

theorem polarityOf_agree {unit id id' : String} :
    polarityOf id unit = polarityOf id' unit ↔ tokensAgree unit id id' := by
  rw [polarityOf_lowered, polarityOf_lowered]
  unfold tokensAgree
  by_cases hunit : unit = "By"
  · simp [hunit]
  · rw [beq_false_of_ne hunit, Bool.or_false, Bool.or_false]
    cases names throughputTokens id <;> cases names throughputTokens id' <;>
      cases lowered unit id <;> cases lowered unit id' <;> simp [hunit]

end Tokens

section Grades

variable {F : Type} [F64 F] [FloatText F]

/-- The ids of a run's series metrics, each with the unit its polarity is read from. -/
def seriesGraded (run : Json F) : List (String × String) :=
  ((run.getArray "series").getD []).flatMap fun s =>
    (seriesFields (windowNs run) s).map fun field =>
      (seriesBase s ++ "|" ++ field, (s.getStr "unit").getD "")

omit [FloatText F] in
/-- The numeric leaves of a run's workload report. -/
def reportLeaves (run : Json F) : List (String × F) :=
  match run.get "workload_report" with
  | none => []
  | some rep => flattenNumbers "" rep

/-- The ids that `reduce` grades, with their units. -/
def gradedIds (run : Json F) : List (String × String) :=
  seriesGraded run ++ (reportLeaves run).map fun leaf => ("workload:" ++ leaf.1, reportUnit leaf.1)

def gradeOfMetric (m : Metric F) : String × Polarity := (m.id, m.polarity)

def gradeOfId (e : String × String) : String × Polarity := (e.1, polarityOf e.1 e.2)

omit [FloatText F] in
theorem workloadMetrics_grades (run : Json F) :
    (workloadMetrics run).map gradeOfMetric =
      ((reportLeaves run).map fun leaf => ("workload:" ++ leaf.1, reportUnit leaf.1)).map
        gradeOfId := by
  unfold workloadMetrics reportLeaves
  cases run.get "workload_report" with
  | none => rfl
  | some rep =>
    rw [List.map_map, List.map_map]
    apply List.map_congr_left
    intro leaf _
    simp only [Function.comp_apply, gradeOfMetric, gradeOfId]

variable [Build]

theorem series_grades {run s : Json F} {ms : List (Metric F)} (h : metricsOf run s = .ok ms) :
    ms.map gradeOfMetric =
      ((seriesFields (windowNs run) s).map fun field =>
        (seriesBase s ++ "|" ++ field, (s.getStr "unit").getD "")).map gradeOfId := by
  obtain ⟨values, hlen, rfl⟩ := seriesMetrics_fields h
  rw [List.map_map]
  apply zipWith_metric_map _ hlen
  intro field value
  simp only [gradeOfMetric, gradeOfId, Function.comp_apply, SeriesHead.metric_id,
    SeriesHead.metric_polarity, seriesHead_unit, seriesHead_base]

/-- A run's metrics are graded as its ids are, and then come the spans. -/
theorem reduce_grades {run : Json F} {ms : List (Metric F)} (h : reduce run = .ok ms) :
    ms.map gradeOfMetric = (gradedIds run).map gradeOfId ++ (spanMetrics run).map gradeOfMetric := by
  obtain ⟨parts, hparts, rfl⟩ := reduce_eq_ok.1 h
  have hseries : parts.flatten.map gradeOfMetric = (seriesGraded run).map gradeOfId := by
    unfold seriesGraded
    generalize (run.getArray "series").getD [] = series at hparts
    clear h
    induction hparts with
    | nil => rfl
    | cons hs _ ih => rw [List.flatten_cons, List.map_append, ih, List.flatMap_cons,
        List.map_append, series_grades hs]
  rw [List.map_append, List.map_append, hseries, workloadMetrics_grades, gradedIds,
    List.map_append]

/-- A metric of a run is graded as one of its ids is, or it is a span. -/
theorem reduce_grade_mem {run : Json F} {ms : List (Metric F)} (h : reduce run = .ok ms)
    {m : Metric F} (hm : m ∈ ms) :
    (∃ e ∈ gradedIds run, m.id = e.1 ∧ m.polarity = polarityOf e.1 e.2) ∨
      m.polarity = .lowerBetter := by
  have hmem := List.mem_map_of_mem (f := gradeOfMetric) hm
  rw [reduce_grades h, List.mem_append, List.mem_map, List.mem_map] at hmem
  rcases hmem with ⟨e, he, heq⟩ | ⟨span, hspan, heq⟩
  · obtain ⟨hid, hpol⟩ := Prod.mk.inj heq
    exact .inl ⟨e, he, hid.symm, hpol.symm⟩
  · right
    obtain ⟨-, hpol⟩ := Prod.mk.inj heq
    obtain ⟨sp, -, hsp⟩ := List.mem_filterMap.1 hspan
    rw [← hpol]
    exact spanMetric_polarity hsp

theorem mem_workloadMetrics {run : Json F} {ms : List (Metric F)} (h : reduce run = .ok ms)
    {m : Metric F} (hm : m ∈ ms) (hbar : '|' ∉ m.id.toList) : m ∈ workloadMetrics run := by
  obtain ⟨parts, hparts, rfl⟩ := reduce_eq_ok.1 h
  rcases List.mem_append.1 hm with hm | hspan
  · rcases List.mem_append.1 hm with hseries | hreport
    · obtain ⟨part, hpart, hm⟩ := List.mem_flatten.1 hseries
      obtain ⟨s, -, hs⟩ := Results.exists_left hparts hpart
      obtain ⟨field, value, rfl⟩ := seriesMetrics_head hs hm
      exact absurd (bar_mem_toList _ _) hbar
    · exact hreport
  · obtain ⟨sp, -, hsp⟩ := List.mem_filterMap.1 hspan
    obtain ⟨name, hid⟩ := spanMetric_id hsp
    rw [hid] at hbar
    exact absurd (bar_mem_toList ("span:" ++ name) "dur") (by rwa [String.append_assoc])

theorem reduce_graded {run : Json F} {ms : List (Metric F)} (h : reduce run = .ok ms)
    {e : String × String} (he : e ∈ gradedIds run) :
    ∃ m ∈ ms, m.id = e.1 ∧ m.polarity = polarityOf e.1 e.2 := by
  have hmem : gradeOfId e ∈ ms.map gradeOfMetric := by
    rw [reduce_grades h]
    exact List.mem_append_left _ (List.mem_map_of_mem he)
  obtain ⟨m, hm, heq⟩ := List.mem_map.1 hmem
  obtain ⟨hid, hpol⟩ := Prod.mk.inj heq
  exact ⟨m, hm, hid, hpol⟩

end Grades

section Bases

theorem names_append {tokens : List String} {s : String} (h : names tokens s = true)
    (t : String) : names tokens (s ++ t) = true := by
  unfold names at h ⊢
  obtain ⟨token, hmem, hin⟩ := List.any_eq_true.1 h
  refine List.any_eq_true.2 ⟨token, hmem, ?_⟩
  unfold contains at hin ⊢
  rw [toLowercase_append, String.toList_append, decide_eq_true_eq]
  exact List.infix_append_of_infix_left (of_decide_eq_true hin)

theorem bytes_named (name : String) : names throughputTokens (name ++ "|" ++ "bytes") = true := by
  have hbytes : names throughputTokens "bytes" = true := by decide
  rw [names_bar tokens_plain.1, hbytes, Bool.or_true]

variable {F : Type} [FloatText F]

theorem seriesBase_eq (s : Json F) :
    ∃ rest, seriesBase s = (s.getStr "name").getD "" ++ rest := by
  unfold seriesBase seriesHead
  cases s.getStr "key" with
  | none => exact ⟨_, rfl⟩
  | some k =>
    refine ⟨"|" ++ k ++ labelsSuffix (s.get "labels"), ?_⟩
    simp only [String.append_assoc]

end Bases

section Alike

variable {F : Type}

structure Titled (name unit kind : String) (s : Json F) : Prop where
  name : (s.getStr "name").getD "" = name
  unit : (s.getStr "unit").getD "" = unit
  kind : (s.getStr "kind").getD "" = kind

def gradedKinds : List String := ["histogram", "counter", "gauge"]

/-- A series without labels, under a key or none. -/
def plainSeries (name unit kind : String) (key : Option String) : Json F :=
  .object ([("name", .string name), ("unit", .string unit), ("kind", .string kind),
    ("data", .object [])] ++ key.toList.map fun k => ("key", .string k))

theorem plainSeries_titled (name unit kind : String) (key : Option String) :
    Titled name unit kind (plainSeries (F := F) name unit kind key) :=
  ⟨rfl, rfl, rfl⟩

theorem plainSeries_bare [FloatText F] (name unit kind : String) :
    seriesBase (plainSeries (F := F) name unit kind none) = name := String.append_empty

theorem plainSeries_keyed [FloatText F] (name unit kind key : String) :
    seriesBase (plainSeries (F := F) name unit kind (some key)) = name ++ "|" ++ key :=
  String.append_empty

variable [F64 F] [FloatText F] [Build]

theorem plainSeries_metrics (name unit : String) {kind : String} (h : kind ∈ gradedKinds)
    (key : Option String) :
    ∃ m ms, metricsOf (F := F) .null (plainSeries name unit kind key) = .ok (m :: ms) := by
  unfold gradedKinds at h
  simp only [List.mem_cons, List.not_mem_nil, or_false] at h
  rcases h with rfl | rfl | rfl
  · exact ⟨_, _, rfl⟩
  · exact ⟨_, _, rfl⟩
  · exact ⟨_, _, rfl⟩

/-- The polarity of a series' metric is that of the series' base. -/
theorem metric_polarity {run s : Json F} {ms : List (Metric F)} (h : metricsOf run s = .ok ms)
    {m : Metric F} (hm : m ∈ ms) :
    m.polarity = polarityOf (seriesBase s) ((s.getStr "unit").getD "") := by
  obtain ⟨field, hfield, value, rfl⟩ := seriesMetrics_mem h hm
  rw [SeriesHead.metric_polarity, seriesHead_unit, seriesHead_base,
    polarityOf_field (mem_seriesFields hfield)]

/-- A series with a name, unit and kind in a run, with the metrics that `reduce` makes of
it. -/
structure Graded (F : Type) [F64 F] [FloatText F] [Build] (name unit kind : String) where
  run : Json F
  series : Json F
  metrics : List (Metric F)
  titled : Titled name unit kind series
  reduced : metricsOf run series = .ok metrics

namespace Graded

variable {name unit kind : String}

def Alike (a b : Graded F name unit kind) : Prop :=
  ∀ m ∈ a.metrics, ∀ m' ∈ b.metrics, m.polarity = m'.polarity

theorem polarity (a : Graded F name unit kind) {m : Metric F} (hm : m ∈ a.metrics) :
    m.polarity = polarityOf (seriesBase a.series) unit := by
  rw [metric_polarity a.reduced hm, a.titled.unit]

theorem exists_metric {a : Graded F name unit kind} (h : yields a.series = true) :
    ∃ m, m ∈ a.metrics := by
  refine List.exists_mem_of_ne_nil _ fun hnil => ?_
  rw [(seriesMetrics_eq_nil a.reduced).1 hnil] at h
  cases h

theorem no_metric {a : Graded F name unit kind} (h : yields a.series = false) (m : Metric F) :
    m ∉ a.metrics := by
  rw [(seriesMetrics_eq_nil a.reduced).2 h]
  exact List.not_mem_nil

/-- The tokens of the two bases, that is of the names, the keys and the labels, decide. -/
theorem alike_iff (a b : Graded F name unit kind) :
    a.Alike b ↔ yields a.series = false ∨ yields b.series = false ∨
      tokensAgree unit (seriesBase a.series) (seriesBase b.series) := by
  rw [← polarityOf_agree]
  apply Iff.intro
  · intro h
    by_contra hnone
    simp only [not_or, Bool.not_eq_false] at hnone
    obtain ⟨ha, hb, hdiffer⟩ := hnone
    obtain ⟨m, hm⟩ := exists_metric ha
    obtain ⟨m', hm'⟩ := exists_metric hb
    have hsame := h m hm m' hm'
    rw [a.polarity hm, b.polarity hm'] at hsame
    exact hdiffer hsame
  · rintro (ha | hb | hagree) m hm m' hm'
    · exact absurd hm (no_metric ha m)
    · exact absurd hm' (no_metric hb m')
    · rw [a.polarity hm, b.polarity hm', hagree]

theorem exists_plain (name unit : String) (hkind : kind ∈ gradedKinds) (key : Option String) :
    ∃ a : Graded F name unit kind, a.series = plainSeries name unit kind key ∧
      yields a.series = true := by
  obtain ⟨m, ms, hms⟩ := plainSeries_metrics (F := F) name unit hkind key
  refine ⟨⟨.null, _, _, plainSeries_titled name unit kind key, hms⟩, rfl, ?_⟩
  by_contra hno
  exact absurd ((seriesMetrics_eq_nil hms).2 (Bool.eq_false_of_not_eq_true hno)) (by simp)

/-- The key `bytes` turns a series around, unless it was higher-better already. -/
theorem exists_not_alike (hname : names throughputTokens name = false) (hunit : unit ≠ "By")
    (hkind : kind ∈ gradedKinds) :
    ∃ a b : Graded F name unit kind, a.series = plainSeries name unit kind none ∧
      b.series = plainSeries name unit kind (some "bytes") ∧ ¬ a.Alike b := by
  obtain ⟨a, ha, hya⟩ := exists_plain (F := F) name unit hkind none
  obtain ⟨b, hb, hyb⟩ := exists_plain (F := F) name unit hkind (some "bytes")
  refine ⟨a, b, ha, hb, fun h => ?_⟩
  rw [alike_iff, hya, hyb, ha, hb, plainSeries_bare, plainSeries_keyed, tokensAgree, hname,
    bytes_named] at h
  simp [hunit] at h

/-- All series with a name, unit and kind are graded alike exactly where they are higher-better
by the name or the unit already. -/
theorem alike_all_iff :
    (∀ a b : Graded F name unit kind, a.Alike b) ↔
      unit = "By" ∨ names throughputTokens name = true ∨ kind ∉ gradedKinds := by
  apply Iff.intro
  · intro h
    by_contra hnone
    push Not at hnone
    obtain ⟨hunit, hname, hkind⟩ := hnone
    obtain ⟨a, b, -, -, hnot⟩ := exists_not_alike (F := F) (by simpa using hname) hunit hkind
    exact hnot (h a b)
  · intro h a b
    rw [alike_iff]
    rcases h with hunit | hname | hkind
    · exact .inr (.inr (.inl hunit))
    · have hbase (c : Graded F name unit kind) :
          names throughputTokens (seriesBase c.series) = true := by
        obtain ⟨rest, hrest⟩ := seriesBase_eq c.series
        rw [hrest, c.titled.name]
        exact names_append hname rest
      exact .inr (.inr (.inr ⟨(hbase a).trans (hbase b).symm, .inl (hbase a)⟩))
    · left
      unfold yields
      rw [a.titled.kind]
      simp [gradedKinds] at hkind
      simp [hkind]

/-- Two series with one name, unit and kind are graded alike exactly when the tokens of their
names, keys and labels agree, or one has no metrics; all of them are, only where they are
higher-better by the name or the unit already. A time is lower-better under every key and
label that brings no throughput token and, unless with one of memory, none of CPU time. -/
theorem alike_exactly (name unit kind : String) :
    (∀ a b : Graded F name unit kind, a.Alike b ↔
      yields a.series = false ∨ yields b.series = false ∨
        tokensAgree unit (seriesBase a.series) (seriesBase b.series)) ∧
    ((∀ a b : Graded F name unit kind, a.Alike b) ↔
      unit = "By" ∨ names throughputTokens name = true ∨ kind ∉ gradedKinds) ∧
    (timeUnits.contains unit = true → ∀ a : Graded F name unit kind,
      (∀ m ∈ a.metrics, m.polarity = .lowerBetter) ↔ yields a.series = false ∨
        (names throughputTokens (seriesBase a.series) = false ∧
          (names memoryTokens (seriesBase a.series) = true ∨
            names cpuTokens (seriesBase a.series) = false))) := by
  refine ⟨alike_iff, alike_all_iff, fun htime a => ?_⟩
  have hunit : (unit == "By") = false := by
    refine beq_false_of_ne ?_
    rintro rfl
    exact absurd htime (by decide)
  have hlower : polarityOf (seriesBase a.series) unit = .lowerBetter ↔
      names throughputTokens (seriesBase a.series) = false ∧
        (names memoryTokens (seriesBase a.series) = true ∨
          names cpuTokens (seriesBase a.series) = false) := by
    rw [polarityOf_lowered, hunit, lowered, htime]
    cases names throughputTokens (seriesBase a.series) <;>
      cases names memoryTokens (seriesBase a.series) <;>
      cases names cpuTokens (seriesBase a.series) <;> simp
  rw [← hlower]
  apply Iff.intro
  · intro h
    cases hy : yields a.series with
    | false => exact .inl rfl
    | true =>
      obtain ⟨m, hm⟩ := exists_metric hy
      exact .inr ((a.polarity hm).symm.trans (h m hm))
  · rintro (hnone | hbase) m hm
    · exact absurd hm (no_metric hnone m)
    · rw [a.polarity hm, hbase]

end Graded

end Alike

section Turned

attribute [local instance] releaseBuild

/-- A latency of the run queue, bare and under the key `bytes`. -/
theorem latency_not_alike : ∃ a b : Graded ℚ "runq_latency" "ns" "histogram",
    a.series = plainSeries "runq_latency" "ns" "histogram" none ∧
      b.series = plainSeries "runq_latency" "ns" "histogram" (some "bytes") ∧ ¬ a.Alike b :=
  Graded.exists_not_alike (by decide) (by decide) (by decide)

end Turned

end Assayist
