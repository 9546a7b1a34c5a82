import Assayist.Proofs.RoundTrip
import Assayist.Proofs.Scalars

/-! A run exported to OTLP and imported again, span by span: a parent goes out as the id of
the first span of its name and comes back as the name of the last span of that id. -/

namespace Assayist

section Names

variable {F : Type}

def spanName (s : Json F) : String := (s.getStr "name").getD ""

def spanIds (spanId : String → ℕ → String) (ss : List (Json F)) : List String :=
  ss.mapIdx fun i s => spanId (spanName s) i

def idAndName (s : Json F) : Option (String × String) :=
  match s.getStr "spanId", s.getStr "name" with
  | some i, some n => some (i, n)
  | _, _ => none

theorem nameById_eq (raw : List (Json F)) (id : String) :
    nameById raw id = (raw.filterMap idAndName).reverse.lookup id := by
  rw [← List.filterMap_reverse]
  rfl

theorem idByName_lookup (spanId : String → ℕ → String) (i : ℕ) {ss : List (Json F)} {p : String}
    (h : p ∈ ss.map spanName) :
    ∃ j s, ss[j]? = some s ∧ spanName s = p ∧
      (idByName spanId i ss).lookup p = some (spanId p (i + j)) := by
  induction ss generalizing i with
  | nil => cases h
  | cons s ss ih =>
    rw [idByName]
    by_cases hs : spanName s = p
    · refine ⟨0, s, rfl, hs, ?_⟩
      rw [← hs]
      exact List.lookup_cons_self
    · have hmem : p ∈ ss.map spanName := by
        rcases List.mem_cons.1 h with heq | hmem
        · exact absurd heq.symm hs
        · exact hmem
      obtain ⟨j, t, hj, ht, hlookup⟩ := ih (i + 1) hmem
      have hne : (p == (s.getStr "name").getD "") = false :=
        beq_false_of_ne fun heq => hs heq.symm
      refine ⟨j + 1, t, hj, ht, ?_⟩
      rw [List.lookup_cons, hne]
      simp only
      rw [hlookup, Nat.add_right_comm, Nat.add_assoc]

theorem lookup_of_distinct {es : List (String × String)} {k v : String}
    (hnodup : (es.map Prod.fst).Nodup) (h : (k, v) ∈ es) : es.lookup k = some v := by
  induction es with
  | nil => cases h
  | cons e es ih =>
    rw [List.map_cons, List.nodup_cons] at hnodup
    rcases List.mem_cons.1 h with rfl | h
    · exact List.lookup_cons_self
    · have hne : k ≠ e.1 := by
        intro heq
        exact hnodup.1 (heq ▸ List.mem_map_of_mem h)
      rw [List.lookup_cons, beq_false_of_ne hne]
      exact ih hnodup.2 h

end Names

section Exported

variable {F : Type} [FloatText F] {runId : String} {spanId : String → ℕ → String}
  {ids : List (String × String)} {i : ℕ} {s : Json F}

theorem exportSpan_spanId :
    (exportSpan runId spanId ids i s).getStr "spanId" = some (spanId (spanName s) i) := rfl

theorem exportSpan_parent : (exportSpan runId spanId ids i s).getStr "parentSpanId" =
    (s.getStr "parent").bind fun parent => ids.lookup parent := by
  unfold exportSpan
  cases (s.getStr "parent").bind fun parent => ids.lookup parent <;> rfl

theorem exportSpan_name : (exportSpan runId spanId ids i s).get "name" =
    some (.string (spanName s)) := by
  unfold exportSpan
  cases (s.getStr "parent").bind fun parent => ids.lookup parent <;> rfl

theorem exportSpan_start : (exportSpan runId spanId ids i s).get "startTimeUnixNano" =
    some (u64Str (s.get "start_unix_nano")) := by
  unfold exportSpan
  cases (s.getStr "parent").bind fun parent => ids.lookup parent <;> rfl

theorem exportSpan_stop : (exportSpan runId spanId ids i s).get "endTimeUnixNano" =
    some (u64Str (s.get "end_unix_nano")) := by
  unfold exportSpan
  cases (s.getStr "parent").bind fun parent => ids.lookup parent <;> rfl

theorem exportSpan_attributes : (exportSpan runId spanId ids i s).get "attributes" =
    some (.array (attributesFrom (s.get "attributes"))) := by
  unfold exportSpan
  cases (s.getStr "parent").bind fun parent => ids.lookup parent <;> rfl

end Exported

section Spans

variable {F : Type} [F64 F] [FloatText F] {hash : String → String → ℕ → String} {run : AssayRun F}

omit [F64 F] in
/-- Under distinct span ids, the id of a span leads back to its name. -/
theorem nameById_exported (hids : (spanIds (hash run.runId) run.spans).Nodup) {j : ℕ} {s : Json F}
    (hs : run.spans[j]? = some s) :
    nameById (exportSpans hash run) (hash run.runId (spanName s) j) = some (spanName s) := by
  have hpairs : (exportSpans hash run).filterMap idAndName =
      run.spans.mapIdx fun i s => (hash run.runId (spanName s) i, spanName s) := by
    refine filterMap_mapIdx (fun i s => ?_) run.spans
    rw [idAndName, exportSpan_spanId, Json.getStr, exportSpan_name]
    rfl
  have hkeys : (run.spans.mapIdx fun i s => (hash run.runId (spanName s) i, spanName s)).map
      Prod.fst = spanIds (hash run.runId) run.spans := by
    refine List.ext_getElem? fun k => ?_
    rw [List.getElem?_map, List.getElem?_mapIdx, spanIds, List.getElem?_mapIdx, Option.map_map]
    rfl
  rw [nameById_eq, hpairs]
  refine lookup_of_distinct ?_ (List.mem_reverse.2 ?_)
  · rw [List.map_reverse, List.nodup_reverse, hkeys]
    exact hids
  · have hget : (run.spans.mapIdx fun i s => (hash run.runId (spanName s) i, spanName s))[j]? =
        some (hash run.runId (spanName s) j, spanName s) := by
      rw [List.getElem?_mapIdx, hs]
      rfl
    exact List.mem_of_getElem? hget

variable (hash run) in
def trippedSpan (i : ℕ) (s : Json F) : Json F :=
  importSpan (exportSpans hash run)
    (exportSpan run.runId (hash run.runId) (idByName (hash run.runId) 0 run.spans) i s)

theorem trippedSpan_parent (i : ℕ) (s : Json F) :
    (trippedSpan hash run i s).get "parent" =
      (((s.getStr "parent").bind fun p => (idByName (hash run.runId) 0 run.spans).lookup p).bind
        (nameById (exportSpans hash run))).map .string := by
  have hparent (t : Json F) : (importSpan (exportSpans hash run) t).get "parent" =
      ((t.getStr "parentSpanId").bind (nameById (exportSpans hash run))).map .string := by
    unfold importSpan
    generalize kvListToObject (t.get "attributes") = attrs
    cases (t.getStr "parentSpanId").bind (nameById (exportSpans hash run)) <;>
      cases attrs <;> rfl
  rw [trippedSpan, hparent, exportSpan_parent]

theorem trippedSpan_attributes (i : ℕ) (s : Json F) :
    (trippedSpan hash run i s).get "attributes" =
      if (kvListToObject (some (.array (attributesFrom (s.get "attributes"))) :
        Option (Json F))).isEmpty then none
      else some (.object (kvListToObject (some (.array (attributesFrom (s.get "attributes")))))) := by
  have hattrs (t : Json F) : (importSpan (exportSpans hash run) t).get "attributes" =
      if (kvListToObject (t.get "attributes")).isEmpty then none
      else some (.object (kvListToObject (t.get "attributes"))) := by
    unfold importSpan
    generalize kvListToObject (t.get "attributes") = attrs
    cases (t.getStr "parentSpanId").bind (nameById (exportSpans hash run)) <;>
      cases attrs <;> rfl
  rw [trippedSpan, hattrs, exportSpan_attributes]

/-- A span the bridge keeps: a parent among the names of the run, and attributes that are
absent or a map of scalars that is not empty. -/
structure IntactSpan (names : List String) (s : Json F) : Prop where
  name : ∃ name, s.get "name" = some (.string name)
  start : ∃ t, s.get "start_unix_nano" = some (.nat t)
  stop : ∃ t, s.get "end_unix_nano" = some (.nat t)
  parent : s.get "parent" = none ∨ ∃ p ∈ names, s.get "parent" = some (.string p)
  attributes : s.get "attributes" = none ∨ ∃ m, s.get "attributes" = some (.object m) ∧
    m ≠ [] ∧ Ascending m ∧ ∀ e ∈ m, Scalar e.2

structure SameSpan (s t : Json F) : Prop where
  name : t.get "name" = s.get "name"
  start : t.get "start_unix_nano" = s.get "start_unix_nano"
  stop : t.get "end_unix_nano" = s.get "end_unix_nano"
  parent : t.get "parent" = s.get "parent"
  attributes : t.get "attributes" = s.get "attributes"

theorem trippedSpan_same (hids : (spanIds (hash run.runId) run.spans).Nodup) {s : Json F}
    (h : IntactSpan (run.spans.map spanName) s) (i : ℕ) :
    SameSpan s (trippedSpan hash run i s) where
  name := by
    obtain ⟨name, hname⟩ := h.name
    have hget : (trippedSpan hash run i s).get "name" = some ((exportSpan run.runId
      (hash run.runId) (idByName (hash run.runId) 0 run.spans) i s).get "name" |>.getD .null) := rfl
    rw [hget, exportSpan_name, spanName, Json.getStr, hname]
    rfl
  start := by
    obtain ⟨t, ht⟩ := h.start
    have hget : (trippedSpan hash run i s).get "start_unix_nano" = some (.nat (strU64
      ((exportSpan run.runId (hash run.runId) (idByName (hash run.runId) 0 run.spans) i s).get
        "startTimeUnixNano"))) := rfl
    rw [hget, exportSpan_start, strU64_u64Str, ht]
    rfl
  stop := by
    obtain ⟨t, ht⟩ := h.stop
    have hget : (trippedSpan hash run i s).get "end_unix_nano" = some (.nat (strU64
      ((exportSpan run.runId (hash run.runId) (idByName (hash run.runId) 0 run.spans) i s).get
        "endTimeUnixNano"))) := rfl
    rw [hget, exportSpan_stop, strU64_u64Str, ht]
    rfl
  parent := by
    rw [trippedSpan_parent, Json.getStr]
    rcases h.parent with hnone | ⟨p, hp, hsome⟩
    · rw [hnone]
      rfl
    · obtain ⟨j, t, hj, ht, hlookup⟩ := idByName_lookup (hash run.runId) 0 hp
      have hback := nameById_exported hids hj
      rw [ht] at hback
      rw [Nat.zero_add] at hlookup
      rw [hsome, Option.bind_some, Json.asStr, Option.bind_some, hlookup, Option.bind_some, hback]
      rfl
  attributes := by
    rw [trippedSpan_attributes]
    rcases h.attributes with hnone | ⟨m, hsome, hne, hasc, hscalar⟩
    · rw [hnone]
      rfl
    · rw [hsome, kvListToObject_attributes hscalar hasc, if_neg (by simpa using hne)]

end Spans

section Resource

variable {F : Type}

/-- What the resource carries of a fingerprint: its core fields without the tuning maps. -/
def carriedFingerprint (f : Fingerprint F) : Fingerprint F :=
  { f with tuningRequested := .object [], tuningReadback := .object [], numaTopology := none
           pinningLayout := none, mitigations := none, microcodeVersion := none
           nestedVirt := none }

/-- What the resource carries of an identity: its strings. -/
def carriedIdentity (i : Identity F) : Identity F :=
  { i with params := .object [], source := "imported" }

variable [F64 F] [FloatText F] (hash : String → String → ℕ → String) (run : AssayRun F)
  (ts : UInt64)

theorem importRun_identity :
    (importRun (exportAt hash run ts)).identity = carriedIdentity run.identity := rfl

theorem importRun_fingerprint :
    (importRun (exportAt hash run ts)).fingerprint = carriedFingerprint run.fingerprint := by
  have hcount (n : UInt32) : readI64 (toString (n.toNat : ℤ)) = some (n.toNat : ℤ) :=
    readI64_nat (n.toNat_lt.trans (by norm_num))
  have hmemory : readI64 (toString (asI64Cast run.fingerprint.totalMemoryBytes)) =
      some (asI64Cast run.fingerprint.totalMemoryBytes) :=
    readI64_toString (asI64Cast_bounds _).1 (asI64Cast_bounds _).2
  have hread : (importRun (exportAt hash run ts)).fingerprint =
      { carriedFingerprint run.fingerprint with
        cpuCountLogical := castU32 (((readI64
          (toString (run.fingerprint.cpuCountLogical.toNat : ℤ))).or none).getD 0)
        cpuCountPhysical := castU32 (((readI64
          (toString (run.fingerprint.cpuCountPhysical.toNat : ℤ))).or none).getD 0)
        totalMemoryBytes := castU64 (((readI64
          (toString (asI64Cast run.fingerprint.totalMemoryBytes))).or none).getD 0) } := rfl
  rw [hread, hcount, hcount, hmemory]
  simp only [Option.some_or, Option.getD_some, castU32_nat, castU64_asI64Cast]
  rfl

theorem importRun_grade : (importRun (exportAt hash run ts)).grade = .valid := rfl

variable {run} in
theorem importRun_runId (h : run.spans ≠ []) :
    (importRun (exportAt hash run ts)).runId = run.runId := by
  have hid : (importRun (exportAt hash run ts)).runId =
      ((exportSpans hash run).head?.bind (·.getStr "traceId")).getD "" := by
    rw [← nested_spans hash run ts]
    rfl
  rw [hid, exportSpans]
  cases hspans : run.spans with
  | nil => exact absurd hspans h
  | cons s ss =>
    rw [List.mapIdx_cons]
    rfl

end Resource

section Trip

variable {F : Type} [F64 F] [FloatText F] {hash : String → String → ℕ → String} {run : AssayRun F}

structure Tripped (run run' : AssayRun F) : Prop where
  runId : run'.runId = run.runId
  spans : List.Forall₂ SameSpan run.spans run'.spans
  fingerprint : run'.fingerprint = carriedFingerprint run.fingerprint
  identity : run'.identity = carriedIdentity run.identity
  source : run'.identity.source = "imported"
  grade : run'.grade = .valid

/-- A run whose spans the bridge keeps, their ids distinct, comes back with its run id, its
spans, the core of its fingerprint and its identity. -/
theorem run_tripped (hspans : run.spans ≠ [])
    (hintact : ∀ s ∈ run.spans, IntactSpan (run.spans.map spanName) s)
    (hids : (spanIds (hash run.runId) run.spans).Nodup) (ts : UInt64) :
    Tripped run (importRun (exportAt hash run ts)) where
  runId := importRun_runId hash ts hspans
  spans := by
    have himport : (importRun (exportAt hash run ts)).spans =
        run.spans.mapIdx (trippedSpan hash run) := by
      have hspans : (importRun (exportAt hash run ts)).spans =
          (exportSpans hash run).map (importSpan (exportSpans hash run)) := by
        rw [← nested_spans hash run ts]
        rfl
      refine hspans.trans (List.ext_getElem? fun i => ?_)
      rw [List.getElem?_map, exportSpans, List.getElem?_mapIdx, List.getElem?_mapIdx,
        Option.map_map]
      rfl
    rw [himport, List.forall₂_iff_get]
    refine ⟨List.length_mapIdx.symm, fun i hi hi' => ?_⟩
    simp only [List.get_eq_getElem, List.getElem_mapIdx]
    exact trippedSpan_same hids (hintact _ (List.getElem_mem hi)) i
  fingerprint := importRun_fingerprint hash run ts
  identity := importRun_identity hash run ts
  source := rfl
  grade := importRun_grade hash run ts

end Trip

section Example

/-- Two spans of one name under a third, with an attribute of every type. -/
def treeRun : AssayRun ℚ :=
  .assemble "0123456789abcdef0123456789abcdef" sampleIdentity sampleFingerprint (.object []) []
    [.object [("name", .string "cell"), ("start_unix_nano", .nat 10),
        ("end_unix_nano", .nat 90)],
      .object [("name", .string "boot"), ("start_unix_nano", .nat 20), ("end_unix_nano", .nat 30),
        ("parent", .string "cell"), ("attributes", .object [("cold", .bool true),
          ("offset", .number (.negInt (-5))), ("ratio", .number (.float (1 / 2))),
          ("vcpus", .nat 2)])],
      .object [("name", .string "boot"), ("start_unix_nano", .nat 40), ("end_unix_nano", .nat 50),
        ("parent", .string "boot"), ("attributes", .object [("kernel", .string "6.11")])]]

theorem treeRun_intact :
    ∀ s ∈ treeRun.spans, IntactSpan (treeRun.spans.map spanName) s := by
  intro s hs
  have hcell : "cell" ∈ treeRun.spans.map spanName := by decide
  have hboot : "boot" ∈ treeRun.spans.map spanName := by decide
  rcases List.mem_cons.1 hs with rfl | hs
  · exact ⟨⟨_, rfl⟩, ⟨_, rfl⟩, ⟨_, rfl⟩, .inl rfl, .inl rfl⟩
  rcases List.mem_cons.1 hs with rfl | hs
  · refine ⟨⟨_, rfl⟩, ⟨_, rfl⟩, ⟨_, rfl⟩, .inr ⟨_, hcell, rfl⟩, .inr ⟨_, rfl, by simp, ?_, ?_⟩⟩
    · unfold Ascending
      decide
    · simp only [List.mem_cons, List.not_mem_nil, or_false, forall_eq_or_imp, forall_eq]
      exact ⟨.bool true, .negInt _ (by norm_num) (by norm_num), .float _ rfl,
        .posInt 2 (by decide)⟩
  · rw [List.mem_singleton.1 hs]
    refine ⟨⟨_, rfl⟩, ⟨_, rfl⟩, ⟨_, rfl⟩, .inr ⟨_, hboot, rfl⟩, .inr ⟨_, rfl, by simp, ?_, ?_⟩⟩
    · unfold Ascending
      decide
    · simp only [List.mem_singleton, forall_eq]
      exact .string "6.11"

theorem treeRun_tripped : Tripped treeRun (importRun (exportAt plainHash treeRun 7)) :=
  run_tripped (List.cons_ne_nil _ _) treeRun_intact (by decide) 7

end Example

end Assayist
