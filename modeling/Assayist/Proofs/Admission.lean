import Assayist.Proofs.Ab
import Assayist.Proofs.Drift
import Assayist.Spec.GateMain
import Mathlib.Data.List.Destutter

/-! Which groups of runs a mode of the gate gives a verdict over. `ab` and `triad` admit
the runs first; `drift` does not. -/

namespace Assayist

section Tenancy

theorem length_destutter' (x : String) (l : List String) :
    (l.destutter' (· ≠ ·) x).length ≤ 1 ↔ ∀ y ∈ l, y = x := by
  induction l with
  | nil => simp
  | cons y l ih =>
    rw [List.destutter'_cons]
    by_cases h : x = y
    · subst h
      simp [ih]
    · have hpos : 0 < (l.destutter' (· ≠ ·) y).length :=
        List.length_pos_of_mem (List.mem_destutter' _ _ _)
      rw [if_pos h]
      refine iff_of_false ?_ fun hall => h (hall y List.mem_cons_self).symm
      rw [List.length_cons]
      omega

/-- Deduplication leaves at most one class exactly when all entries agree. -/
theorem dedup_length {xs : List String} :
    (dedup xs).length ≤ 1 ↔ ∀ s ∈ xs, ∀ t ∈ xs, s = t := by
  cases xs with
  | nil => simp [dedup]
  | cons x l =>
    rw [dedup, List.destutter_cons', length_destutter']
    apply Iff.intro
    · intro h s hs t ht
      have heq : ∀ u ∈ x :: l, u = x := by
        intro u hu
        rcases List.mem_cons.1 hu with rfl | hu
        · rfl
        · exact h u hu
      rw [heq s hs, heq t ht]
    · exact fun h y hy => h y (List.mem_cons_of_mem _ hy) x List.mem_cons_self

end Tenancy

section Admit

variable {F : Type}

def fit (cfg : Config F) (run : Json F) : Prop :=
  gradeOf run = "reproducible" ∨ cfg.allowUngraded = true

def oneTenancy (runs : List (Json F)) : Prop :=
  ∀ r ∈ runs, ∀ r' ∈ runs, ∀ t t', tenancyOf r = some t → tenancyOf r' = some t' → t = t'

def Admissible (a b : List (Json F)) (cfg : Config F) : Prop :=
  (∀ run ∈ a ++ b, fit cfg run) ∧ oneTenancy (a ++ b)

theorem admissible_of_uniform {a b : List (Json F)} {cfg : Config F} {t : String}
    (h : ∀ run ∈ a ++ b, gradeOf run = "reproducible" ∧ tenancyOf run = some t) :
    Admissible a b cfg := by
  refine ⟨fun run hrun => .inl (h run hrun).1, fun r hr r' hr' s s' hs hs' => ?_⟩
  rw [(h r hr).2] at hs
  rw [(h r' hr').2] at hs'
  exact Option.some.inj (hs.symm.trans hs')

def admissionNotes (label : String) (runs : List (Json F)) : List String :=
  runs.flatMap fun run =>
    if gradeOf run ≠ "reproducible" then [ungradedNote label (gradeOf run)] else []

def tenanciesOf (runs : List (Json F)) : List String := runs.flatMap fun run => (tenancyOf run).toList

theorem admitRun_eq_ok {cfg : Config F} {label : String} {acc acc' : List String × List String}
    {run : Json F} :
    admitRun cfg label acc run = .ok acc' ↔
      fit cfg run ∧ acc' = (acc.1 ++ admissionNotes label [run], acc.2 ++ tenanciesOf [run]) := by
  unfold admitRun fit
  simp only [admissionNotes, tenanciesOf, List.flatMap_cons, List.flatMap_nil, List.append_nil]
  by_cases hg : gradeOf run = "reproducible"
  · simp only [hg, ne_eq, not_true_eq_false, false_and, if_false, true_or, true_and,
      List.append_nil, Except.ok.injEq]
    exact eq_comm
  · by_cases ha : cfg.allowUngraded = true
    · simp only [hg, ha, ne_eq, not_false_eq_true, reduceCtorEq, and_false, if_false, if_true,
        or_true, true_and, Except.ok.injEq]
      exact eq_comm
    · simp [hg, ha]

theorem foldlM_admitRun {cfg : Config F} {label : String} {runs : List (Json F)}
    {acc acc' : List String × List String} :
    runs.foldlM (admitRun cfg label) acc = .ok acc' ↔
      (∀ run ∈ runs, fit cfg run) ∧
        acc' = (acc.1 ++ admissionNotes label runs, acc.2 ++ tenanciesOf runs) := by
  induction runs generalizing acc with
  | nil =>
    rw [List.foldlM_nil, Results.pure_eq_ok]
    simp [admissionNotes, tenanciesOf, eq_comm]
  | cons run runs ih =>
    rw [List.foldlM_cons, Results.bind_eq_ok]
    simp only [admitRun_eq_ok, ih, List.forall_mem_cons]
    apply Iff.intro
    · intro h
      obtain ⟨_, ⟨hfit, rfl⟩, hall, rfl⟩ := h
      exact ⟨⟨hfit, hall⟩, by simp [admissionNotes, tenanciesOf]⟩
    · intro h
      obtain ⟨⟨hfit, hall⟩, rfl⟩ := h
      exact ⟨_, ⟨hfit, rfl⟩, hall, by simp [admissionNotes, tenanciesOf]⟩

theorem mem_tenanciesOf {runs : List (Json F)} {t : String} :
    t ∈ tenanciesOf runs ↔ ∃ r ∈ runs, tenancyOf r = some t := by
  simp [tenanciesOf]

theorem tenanciesOf_agree {runs : List (Json F)} :
    (∀ s ∈ tenanciesOf runs, ∀ t ∈ tenanciesOf runs, s = t) ↔ oneTenancy runs := by
  apply Iff.intro
  · intro h r hr r' hr' t t' ht ht'
    exact h t (mem_tenanciesOf.2 ⟨r, hr, ht⟩) t' (mem_tenanciesOf.2 ⟨r', hr', ht'⟩)
  · intro h s hs t ht
    obtain ⟨r, hr, hs⟩ := mem_tenanciesOf.1 hs
    obtain ⟨r', hr', ht⟩ := mem_tenanciesOf.1 ht
    exact h r hr r' hr' s t hs ht

/-- The admission check accepts exactly the admissible sets of runs. -/
theorem validate_eq_ok {a b : List (Json F)} {cfg : Config F} {notes : List String} :
    validate a b cfg = .ok notes ↔
      Admissible a b cfg ∧ notes = admissionNotes "A" a ++ admissionNotes "B" b := by
  have htenancy : (dedup ((tenanciesOf (a ++ b)).mergeSort fun s t => decide (s ≤ t))).length ≤ 1 ↔
      oneTenancy (a ++ b) := by
    rw [dedup_length, ← tenanciesOf_agree]
    simp only [List.mem_mergeSort]
  have happend : tenanciesOf (a ++ b) = tenanciesOf a ++ tenanciesOf b := by
    simp [tenanciesOf]
  rw [happend] at htenancy
  unfold validate Admissible
  simp only [Results.bind_eq_ok, foldlM_admitRun]
  rw [List.forall_mem_append, ← htenancy]
  apply Iff.intro
  · intro h
    obtain ⟨_, ⟨ha, rfl⟩, _, ⟨hb, rfl⟩, h⟩ := h
    simp only [List.nil_append] at h
    split_ifs at h with hlen
    exact ⟨⟨⟨ha, hb⟩, by omega⟩, (Except.ok.inj h).symm⟩
  · intro h
    obtain ⟨⟨⟨ha, hb⟩, hlen⟩, rfl⟩ := h
    refine ⟨_, ⟨ha, rfl⟩, _, ⟨hb, rfl⟩, ?_⟩
    simp only [List.nil_append]
    rw [if_neg (by omega)]

end Admit

section Modes

variable {F : Type} [F64 F] [FloatText F] [Build]

/-- A mode gives no verdict over an inadmissible set of runs. -/
def AdmissionKept (mode : String) (a b : List (Json F)) (cfg : Config F) : Prop :=
  ¬ Admissible a b cfg → ∃ e, judge mode a b cfg = .error e

/-- The two sides reduce and share an id that is not ignored, with two samples each. -/
def DriftComparable (baseline candidate : List (Json F)) (cfg : Config F) : Prop :=
  ∃ pb pc, Reduces baseline pb ∧ Reduces candidate pc ∧
    ∃ id, 2 ≤ (own id (tagged baseline pb)).length ∧ 2 ≤ (own id (tagged candidate pc)).length ∧
      ignored cfg id = false

theorem drift_ok_iff {baseline candidate : List (Json F)} {cfg : Config F} :
    (∃ rep, drift baseline candidate cfg = .ok rep) ↔ DriftComparable baseline candidate cfg := by
  simp only [drift_eq_ok, driftDetails_ne_nil, DriftComparable]
  apply Iff.intro
  · intro h
    obtain ⟨rep, pb, pc, hb, hc, hid, -⟩ := h
    exact ⟨pb, pc, hb, hc, hid⟩
  · intro h
    obtain ⟨pb, pc, hb, hc, hid⟩ := h
    exact ⟨_, pb, pc, hb, hc, hid, rfl⟩

theorem ab_admissible {a b : List (Json F)} {cfg : Config F} {rep : AbReport F}
    (h : ab a b cfg = .ok rep) : Admissible a b cfg := by
  obtain ⟨notes, pa, pb, hv, -⟩ := ab_eq_ok.1 h
  exact (validate_eq_ok.1 hv).1

theorem triad_ab {a b : List (Json F)} {cfg : Config F} {rep : TriadReport F}
    (h : triad a b cfg = .ok rep) : ∃ base, ab a b cfg = .ok base := by
  obtain ⟨base, hbase, -⟩ := Results.bind_eq_ok.1 h
  exact ⟨base, hbase⟩

/-- The admission rule holds of a mode unless it is drift, the runs are inadmissible, and
there is something to compare. -/
theorem admissionKept_iff (mode : String) (a b : List (Json F)) (cfg : Config F) :
    AdmissionKept mode a b cfg ↔
      mode ≠ "longitudinal_drift" ∨ Admissible a b cfg ∨ ¬ DriftComparable a b cfg := by
  apply Iff.intro
  · intro hkept
    by_cases hmode : mode = "longitudinal_drift"
    · right
      by_cases hadm : Admissible a b cfg
      · exact .inl hadm
      · right
        intro hcomp
        obtain ⟨rep, hrep⟩ := drift_ok_iff.2 hcomp
        obtain ⟨e, he⟩ := hkept hadm
        simp [judge, hmode, hrep] at he
    · exact .inl hmode
  · intro hcond hadm
    apply Results.exists_error
    intro rep hrep
    by_cases hab : mode = "ab_permutation"
    · rw [judge, if_pos hab] at hrep
      obtain ⟨r, hr, -⟩ := Results.map_eq_ok.1 hrep
      exact hadm (ab_admissible hr)
    · by_cases hmode : mode = "longitudinal_drift"
      · rw [judge, if_neg hab, if_pos hmode] at hrep
        obtain ⟨r, hr, -⟩ := Results.map_eq_ok.1 hrep
        rcases hcond with hne | hadm' | hcomp
        · exact hne hmode
        · exact hadm hadm'
        · exact hcomp (drift_ok_iff.1 ⟨r, hr⟩)
      · rw [judge, if_neg hab, if_neg hmode] at hrep
        obtain ⟨r, hr, -⟩ := Results.map_eq_ok.1 hrep
        obtain ⟨base, hbase⟩ := triad_ab hr
        exact hadm (ab_admissible hbase)

end Modes

section Runs

attribute [local instance] releaseBuild

def tenantRun (tenancy : String) : Json ℚ :=
  .object [("fingerprint", .object [("tenancy", .string tenancy)]),
    ("series", .array [.object [("name", .string "restore"), ("unit", .string "ns"),
      ("kind", .string "gauge"), ("data", .object [("value", .nat 1)])]]),
    ("grade", .string "valid")]

/-- Two ungraded runs a side, of different tenancies, and drift passes them. -/
theorem drift_unadmitted :
    ¬ AdmissionKept "longitudinal_drift" [tenantRun "single_tenant", tenantRun "single_tenant"]
      [tenantRun "density", tenantRun "density"] Config.default := by
  intro hkept
  have hadm : ¬ Admissible [tenantRun "single_tenant", tenantRun "single_tenant"]
      [tenantRun "density", tenantRun "density"] Config.default := by
    intro h
    have hfit := h.1 (tenantRun "density") (by simp)
    exact absurd hfit (by simp [fit, Config.default, gradeOf, tenantRun, Json.getStr, Json.get,
      Json.asStr, List.lookup_cons])
  obtain ⟨e, he⟩ := hkept hadm
  have hok : (judge "longitudinal_drift" [tenantRun "single_tenant", tenantRun "single_tenant"]
      [tenantRun "density", tenantRun "density"] Config.default).isOk = true := by decide +kernel
  rw [he] at hok
  exact Bool.noConfusion hok

end Runs

end Assayist
