import Assayist.Lib.Shell
import Assayist.Proofs.Text
import Assayist.Spec.Native

/-! The command lines of the native drivers and of the firecracker API, which put each value
between single quotes without looking at it. -/

namespace Assayist

open Shell

/-- A value that can stand between single quotes. -/
def QuoteFree (s : String) : Prop := '\'' ∉ s.toList

instance (s : String) : Decidable (QuoteFree s) := inferInstanceAs (Decidable (¬ _))

section Texts

variable {F : Type} [FloatText F] {s t : String}

theorem quoteFree_append : QuoteFree (s ++ t) ↔ QuoteFree s ∧ QuoteFree t := by
  unfold QuoteFree
  rw [String.toList_append, List.mem_append, not_or]

theorem quoteFree_of_append (h : QuoteFree s) : QuoteFree (s ++ t) ↔ QuoteFree t := by
  rw [quoteFree_append, and_iff_right h]

theorem mem_escapeChar (c : Char) : '\'' ∈ Json.escapeChar c ↔ c = '\'' := by
  have hdigit : ∀ n < 16, Nat.digitChar n ≠ '\'' := by decide
  unfold Json.escapeChar
  split_ifs with h1 h2 h3 h4 h5 h6 h7 h8
  iterate 7
    · apply iff_of_false
      · decide
      · rintro rfl
        contradiction
  · have hhigh := hdigit (c.toNat / 16) (by omega)
    have hlow := hdigit (c.toNat % 16) (by omega)
    apply iff_of_false
    · simp [hhigh.symm, hlow.symm]
    · rintro rfl
      exact absurd h8 (by decide)
  · rw [List.mem_singleton, eq_comm]

theorem quoteFree_quote : QuoteFree (Json.quote s) ↔ QuoteFree s := by
  unfold QuoteFree Json.quote
  rw [String.toList_ofList, List.cons_append, List.mem_cons, List.mem_append, List.mem_singleton,
    List.mem_flatMap]
  have h1 : ¬ '\'' = '"' := by decide
  simp only [mem_escapeChar, h1, false_or, or_false]
  apply not_congr
  apply Iff.intro
  · rintro ⟨c, hc, rfl⟩
    exact hc
  · exact fun h => ⟨_, h, rfl⟩

theorem quoteFree_intercalate {sep : String} {ts : List String} (hsep : QuoteFree sep) :
    QuoteFree (sep.intercalate ts) ↔ ∀ t ∈ ts, QuoteFree t := by
  induction ts with
  | nil =>
    rw [String.intercalate_nil]
    exact iff_of_true List.not_mem_nil (fun _ h => absurd h List.not_mem_nil)
  | cons t ts ih =>
    cases hts : ts with
    | nil =>
      rw [String.intercalate_singleton]
      simp only [List.mem_singleton, forall_eq]
    | cons u us =>
      rw [← hts, String.intercalate_cons_of_ne_nil (hts ▸ List.cons_ne_nil u us), quoteFree_append,
        quoteFree_append, ih, List.forall_mem_cons]
      exact ⟨fun h => ⟨h.1.1, h.2⟩, fun h => ⟨⟨h.1, hsep⟩, h.2⟩⟩

theorem textFields_eq (m : List (String × Json F)) :
    Json.textFields m = m.map fun e => Json.quote e.1 ++ ":" ++ e.2.text := by
  induction m with
  | nil => rfl
  | cons e m ih => exact congrArg (List.cons _) ih

theorem quoteFree_jsonObject (m : List (String × Json F)) :
    QuoteFree (jsonObject m).text ↔ ∀ e ∈ m, QuoteFree e.1 ∧ QuoteFree e.2.text := by
  have hopen : QuoteFree "\x7b" := by decide
  have hclose : QuoteFree "\x7d" := by decide
  have hcolon : QuoteFree ":" := by decide
  have hcomma : QuoteFree "," := by decide
  unfold jsonObject
  rw [Json.text, quoteFree_append, quoteFree_append, quoteFree_intercalate hcomma, textFields_eq,
    List.forall_mem_map]
  simp only [List.mem_mergeSort, quoteFree_append, quoteFree_quote, hopen, hclose, hcolon,
    true_and, and_true]

end Texts

section Workloads

variable {F : Type} [FloatText F] {config : List (String × Json F)} {vars : Vars}

/-- The words that a workload means to run. -/
def intended (bin : String) (args : List String) : List (List Char) :=
  (bin :: args).map String.toList

theorem split_quotedCmd {bin : String} {args : List String} (hargs : args ≠ []) :
    Shell.split (quotedCmd bin args).toList = some (intended bin args) ↔
      QuoteFree bin ∧ ∀ a ∈ args, QuoteFree a := by
  have hline : (quotedCmd bin args).toList =
      line ((bin :: args).map fun w => Written.quoted w.toList) := by
    have hne : (args.map fun w => Written.quoted w.toList).map Written.text ≠ [] := by
      rw [List.map_map]
      exact fun h => hargs (List.map_eq_nil_iff.1 h)
    unfold quotedCmd line
    rw [List.map_cons, List.map_cons, List.intercalate_cons_of_ne_nil hne, String.toList_append,
      String.toList_append, String.toList_append, String.toList_intercalate, List.map_map,
      List.map_map]
    simp only [Written.text, Function.comp_def, String.toList_append, List.append_assoc]
    rfl
  have hwords : intended bin args =
      ((bin :: args).map fun w => Written.quoted w.toList).map Written.word := by
    rw [List.map_map]
    rfl
  have hproper : ∀ x ∈ (bin :: args).map fun w => Written.quoted w.toList, x.Proper := by
    rw [List.forall_mem_map]
    exact fun _ _ => trivial
  rw [hline, hwords, split_line_iff hproper, List.forall_mem_map, List.forall_mem_cons]
  rfl

/-- The settings that fio's command line is made of, with their defaults. -/
def fioSettings : List (String × String) :=
  [("bin", "fio"), ("name", "assayist"), ("filename", "/tmp/assayist-fio.dat"),
    ("rw", "randread"), ("bs", "4k"), ("iodepth", "32"), ("numjobs", "1"),
    ("ioengine", "libaio"), ("direct", "1"), ("size", "1G"), ("runtime", "30")]

/-- The settings that wrk's command line is made of, with their defaults. -/
def wrkSettings : List (String × String) :=
  [("bin", "wrk"), ("threads", "2"), ("connections", "10"), ("duration", "30"), ("rate", ""),
    ("script", ""), ("url", "http://127.0.0.1:8080/")]

theorem fio_split_iff :
    Shell.split (fioWorkload config vars).startCmd.toList =
        some (intended (fioWorkload config vars).bin (fioWorkload config vars).args) ↔
      ∀ e ∈ fioSettings, QuoteFree (cfg config vars e.1 e.2) := by
  have hargs : (fioWorkload config vars).args ≠ [] := List.cons_ne_nil _ _
  unfold FioWorkload.startCmd
  rw [split_quotedCmd hargs]
  unfold fioWorkload fioSettings
  simp only [List.forall_mem_cons]
  -- one option each, after the binary
  iterate 10 rw [quoteFree_of_append (by decide)]
  have h1 : QuoteFree "--time_based" := by decide
  have h2 : QuoteFree "--output-format=json" := by decide
  simp only [h1, h2, true_and, List.not_mem_nil, false_imp_iff, implies_true]

theorem wrk_split_iff :
    Shell.split (wrkWorkload config vars).startCmd.toList =
        some (intended (wrkWorkload config vars).bin (wrkWorkload config vars).args) ↔
      ∀ e ∈ wrkSettings, QuoteFree (cfg config vars e.1 e.2) := by
  have hargs : (wrkWorkload config vars).args ≠ [] := by
    unfold wrkWorkload
    exact List.concat_ne_nil _ _
  -- an optional argument is there only if its setting is, and else the default has no quote
  have hoption {t key : String} (h : QuoteFree t) :
      (∀ a ∈ (if (config.lookup key).isSome then [t ++ cfg config vars key ""] else []),
        QuoteFree a) ↔ QuoteFree (cfg config vars key "") := by
    split_ifs with hkey
    · rw [List.forall_mem_singleton, quoteFree_of_append h]
    · have hnone : config.lookup key = none := by
        rw [Bool.not_eq_true, Option.isSome_eq_false_iff, Option.isNone_iff_eq_none] at hkey
        exact hkey
      apply iff_of_true (fun _ ha => absurd ha List.not_mem_nil)
      unfold cfg
      rw [hnone]
      exact (by decide : QuoteFree "")
  unfold WrkWorkload.startCmd
  rw [split_quotedCmd hargs]
  unfold wrkWorkload wrkSettings
  simp only [List.forall_mem_append, List.forall_mem_cons]
  rw [hoption (by decide), hoption (by decide), quoteFree_of_append (by decide),
    quoteFree_of_append (by decide), quoteFree_append, quoteFree_of_append (by decide)]
  have h1 : QuoteFree "--latency" := by decide
  have h2 : QuoteFree "s" := by decide
  simp only [h1, h2, and_true, and_assoc, List.not_mem_nil, false_imp_iff, implies_true]

end Workloads

section Api

variable {F : Type} [FloatText F] {t : FirecrackerTarget} {r : ApiRequest}

/-- The words that a request means to run, with the body as one of them. -/
def apiWords (t : FirecrackerTarget) (r : ApiRequest) : List (List Char) :=
  ["curl", "-fsS", "--unix-socket", t.sock, "-X", r.method, "http://localhost" ++ r.path, "-H",
    "Content-Type: application/json", "-d", r.body].map String.toList

def apiWritten (t : FirecrackerTarget) (r : ApiRequest) : List Written :=
  [.bare "curl".toList, .bare "-fsS".toList, .bare "--unix-socket".toList, .quoted t.sock.toList,
    .bare "-X".toList, .bare r.method.toList, .quoted ("http://localhost" ++ r.path).toList,
    .bare "-H".toList, .quoted "Content-Type: application/json".toList, .bare "-d".toList,
    .quoted r.body.toList]

theorem toList_apiCmd : (t.apiCmd r).toList = line (apiWritten t r) := by
  unfold FirecrackerTarget.apiCmd line apiWritten
  simp [Written.text, List.intercalate_cons_cons]

theorem split_apiCmd (hmethod : (Written.bare r.method.toList).Proper)
    (hplain : QuoteFree r.method ∧ QuoteFree r.path) :
    Shell.split (t.apiCmd r).toList = some (apiWords t r) ↔
      QuoteFree t.sock ∧ QuoteFree r.body := by
  have hproper : ∀ x ∈ apiWritten t r, x.Proper := by
    unfold apiWritten
    simp only [List.forall_mem_cons]
    refine ⟨?_, ?_, ?_, trivial, ?_, hmethod, trivial, ?_, trivial, ?_, trivial,
      fun _ h => absurd h List.not_mem_nil⟩ <;>
      exact ⟨by decide, List.all_eq_true.1 (by decide)⟩
  have hlit : QuoteFree "curl" ∧ QuoteFree "-fsS" ∧ QuoteFree "--unix-socket" ∧
      QuoteFree "-X" ∧ QuoteFree "http://localhost" ∧ QuoteFree "-H" ∧
      QuoteFree "Content-Type: application/json" ∧ QuoteFree "-d" := by
    decide
  obtain ⟨h1, h2, h3, h4, h5, h6, h7, h8⟩ := hlit
  have hpath : QuoteFree ("http://localhost" ++ r.path) := quoteFree_append.2 ⟨h5, hplain.2⟩
  rw [toList_apiCmd, show apiWords t r = (apiWritten t r).map Written.word from rfl,
    split_line_iff hproper]
  unfold apiWritten
  simp only [List.forall_mem_cons]
  apply Iff.intro
  · rintro ⟨-, -, -, hsock, -, -, -, -, -, -, hbody, -⟩
    exact ⟨hsock, hbody⟩
  · rintro ⟨hsock, hbody⟩
    exact ⟨h1, h2, h3, hsock, h4, hplain.1, hpath, h6, h7, h8, hbody,
      fun _ h => absurd h List.not_mem_nil⟩

theorem quoteFree_nat (n : UInt64) : QuoteFree (Json.nat n : Json F).text := by
  intro h
  change '\'' ∈ (toString n.toNat).toList at h
  obtain ⟨c, cs, hlist, -, hdigits, -⟩ := toList_nat n.toNat
  rw [hlist] at h
  exact absurd (hdigits _ h) (by decide)

theorem quoteFree_bool (b : Bool) : QuoteFree (Json.bool b : Json F).text := by
  cases b
  · exact (by decide : QuoteFree "false")
  · exact (by decide : QuoteFree "true")

theorem quoteFree_string (s : String) : QuoteFree (Json.string s : Json F).text ↔ QuoteFree s :=
  quoteFree_quote

/-- What `provision` puts into its requests: what is restored, or what is booted. -/
def provisionValues (t : FirecrackerTarget) : Option (List String) :=
  match t.fromSnapshot with
  | some (snap, mem) => (t.memBackendOf mem).toOption.map fun backend => [snap, backend.2]
  | none =>
    some (match t.tap with
      | some tap => [t.kernel, t.bootArgs, t.rootfs, tap, t.guestMac]
      | none => [t.kernel, t.bootArgs, t.rootfs])

def steadyValues (t : FirecrackerTarget) : List String :=
  match t.snapshotOut with
  | some (snap, mem) => [snap, mem]
  | none => []

/-- The values that the requests of a target carry, with the socket that they are sent to. -/
def apiValues (t : FirecrackerTarget) : List String :=
  match provisionValues t with
  | some vs => t.sock :: (vs ++ steadyValues t)
  | none => []

theorem quoteFree_of_memBackendOf {mem type path : String}
    (h : t.memBackendOf mem = .ok (type, path)) : QuoteFree type := by
  unfold FirecrackerTarget.memBackendOf at h
  split_ifs at h
  · split at h
    · obtain ⟨rfl, -⟩ := Prod.mk.injEq .. ▸ Except.ok.inj h
      decide
    · cases h
  · split at h <;>
    · obtain ⟨rfl, -⟩ := Prod.mk.injEq .. ▸ Except.ok.inj h
      decide

theorem quoteFree_steady :
    (∀ r ∈ t.steadyRequests F, QuoteFree r.body) ↔ ∀ s ∈ steadyValues t, QuoteFree s := by
  have hlit : QuoteFree "\x7b\"state\":\"Paused\"\x7d" ∧
      QuoteFree "\x7b\"state\":\"Resumed\"\x7d" ∧ QuoteFree "snapshot_type" ∧
      QuoteFree "Full" ∧ QuoteFree "snapshot_path" ∧ QuoteFree "mem_file_path" := by decide
  obtain ⟨h1, h2, h3, h4, h5, h6⟩ := hlit
  unfold FirecrackerTarget.steadyRequests steadyValues
  cases t.snapshotOut with
  | none =>
    dsimp only
    simp only [List.not_mem_nil, false_imp_iff, implies_true]
  | some sm =>
    simp only [List.forall_mem_cons, quoteFree_jsonObject, quoteFree_string, h1, h2, h3, h4, h5, h6,
      true_and, and_true, List.not_mem_nil, false_imp_iff, implies_true]

theorem quoteFree_start : ∀ r ∈ t.startRequests, QuoteFree r.body := by
  have hlit : QuoteFree "\x7b\"action_type\":\"InstanceStart\"\x7d" := by decide
  unfold FirecrackerTarget.startRequests
  split_ifs
  · exact fun _ h => absurd h List.not_mem_nil
  · exact List.forall_mem_singleton.2 hlit

theorem quoteFree_provision {vs : List String} (hvs : provisionValues t = some vs) :
    ∃ rs, t.provisionRequests F = .ok rs ∧ rs ≠ [] ∧
      ((∀ r ∈ rs, QuoteFree r.body) ↔ ∀ s ∈ vs, QuoteFree s) := by
  have hlit : QuoteFree "snapshot_path" ∧ QuoteFree "mem_backend" ∧ QuoteFree "resume_vm" ∧
      QuoteFree "backend_type" ∧ QuoteFree "backend_path" ∧ QuoteFree "vcpu_count" ∧
      QuoteFree "mem_size_mib" ∧ QuoteFree "smt" ∧ QuoteFree "kernel_image_path" ∧
      QuoteFree "boot_args" ∧ QuoteFree "drive_id" ∧ QuoteFree "path_on_host" ∧
      QuoteFree "is_root_device" ∧ QuoteFree "is_read_only" ∧ QuoteFree "rootfs" ∧
      QuoteFree "iface_id" ∧ QuoteFree "host_dev_name" ∧ QuoteFree "guest_mac" ∧
      QuoteFree "eth0" := by decide
  obtain ⟨h1, h2, h3, h4, h5, h6, h7, h8, h9, h10, h11, h12, h13, h14, h15, h16, h17, h18, h19⟩ :=
    hlit
  unfold provisionValues at hvs
  unfold FirecrackerTarget.provisionRequests
  cases hfrom : t.fromSnapshot with
  | some sm =>
    obtain ⟨snap, mem⟩ := sm
    rw [hfrom] at hvs
    obtain ⟨⟨type, path⟩, hbackend, rfl⟩ := Option.map_eq_some_iff.1 hvs
    have hok : t.memBackendOf mem = .ok (type, path) := by
      cases hb : t.memBackendOf mem with
      | error e =>
        rw [hb] at hbackend
        cases hbackend
      | ok b =>
        rw [hb] at hbackend
        rw [Option.some.inj hbackend]
    have htype := quoteFree_of_memBackendOf hok
    dsimp only
    rw [hok]
    refine ⟨_, rfl, List.cons_ne_nil _ _, ?_⟩
    simp only [List.forall_mem_cons, quoteFree_jsonObject, quoteFree_string, quoteFree_bool, h1, h2,
      h3, h4, h5, htype, true_and, and_true, List.not_mem_nil, false_imp_iff, implies_true]
  | none =>
    rw [hfrom] at hvs
    obtain rfl := Option.some.inj hvs
    cases htap : t.tap with
    | none =>
      refine ⟨_, rfl, List.cons_ne_nil _ _, ?_⟩
      simp only [Option.map_none, Option.toList_none, List.append_nil, List.forall_mem_cons,
        quoteFree_jsonObject, quoteFree_string, quoteFree_bool, quoteFree_nat, h6, h7, h8, h9, h10,
        h11, h12, h13, h14, h15, true_and, and_true, and_assoc, List.not_mem_nil, false_imp_iff,
        implies_true]
    | some tap =>
      refine ⟨_, rfl, List.cons_ne_nil _ _, ?_⟩
      simp only [Option.map_some, Option.toList_some, List.forall_mem_append, List.forall_mem_cons,
        quoteFree_jsonObject, quoteFree_string, quoteFree_bool, quoteFree_nat, h6, h7, h8, h9, h10,
        h11, h12, h13, h14, h15, h16, h17, h18, h19, true_and, and_true, and_assoc,
        List.not_mem_nil, false_imp_iff, implies_true]

def endpoints : List (String × String) :=
  [("PUT", "/snapshot/load"), ("PUT", "/machine-config"), ("PUT", "/boot-source"),
    ("PUT", "/drives/rootfs"), ("PUT", "/network-interfaces/eth0"), ("PUT", "/actions"),
    ("PATCH", "/vm"), ("PUT", "/snapshot/create")]

theorem mem_endpoints : ∀ r ∈ t.requests F, (r.method, r.path) ∈ endpoints := by
  have hprovision (rs : List ApiRequest) (hrs : t.provisionRequests F = .ok rs) :
      ∀ r ∈ rs, (r.method, r.path) ∈ endpoints := by
    unfold FirecrackerTarget.provisionRequests at hrs
    cases hfrom : t.fromSnapshot with
    | some sm =>
      rw [hfrom] at hrs
      cases hb : t.memBackendOf sm.2 with
      | error e =>
        dsimp only at hrs
        rw [hb] at hrs
        cases hrs
      | ok b =>
        dsimp only at hrs
        rw [hb] at hrs
        obtain rfl := Except.ok.inj hrs
        exact List.forall_mem_singleton.2 List.mem_cons_self
    | none =>
      rw [hfrom] at hrs
      obtain rfl := Except.ok.inj hrs
      cases t.tap <;>
      · simp only [Option.map_none, Option.map_some, Option.toList_none, Option.toList_some,
          List.append_nil, List.forall_mem_append, List.forall_mem_cons]
        simp [endpoints]
  have hstart : ∀ r ∈ t.startRequests, (r.method, r.path) ∈ endpoints := by
    unfold FirecrackerTarget.startRequests
    split_ifs
    · exact fun _ h => absurd h List.not_mem_nil
    · rw [List.forall_mem_singleton]
      decide
  have hsteady : ∀ r ∈ t.steadyRequests F, (r.method, r.path) ∈ endpoints := by
    unfold FirecrackerTarget.steadyRequests
    cases t.snapshotOut with
    | none => exact fun _ h => absurd h List.not_mem_nil
    | some sm =>
      dsimp only
      simp [endpoints]
  intro r hr
  unfold FirecrackerTarget.requests at hr
  cases hrs : t.provisionRequests F with
  | error e =>
    rw [hrs] at hr
    cases hr
  | ok rs =>
    rw [hrs, List.mem_append, List.mem_append] at hr
    rcases hr with (hr | hr) | hr
    · exact hprovision rs hrs r hr
    · exact hstart r hr
    · exact hsteady r hr

/-- Each method and each path is a literal without a quote. -/
theorem proper_requests (hr : r ∈ t.requests F) :
    (Written.bare r.method.toList).Proper ∧ QuoteFree r.method ∧ QuoteFree r.path := by
  have hall : ∀ e ∈ endpoints, (e.1.toList ≠ [] ∧ e.1.toList.all plain = true) ∧
      QuoteFree e.1 ∧ QuoteFree e.2 := by decide
  obtain ⟨⟨hne, hplain⟩, hfree⟩ := hall _ (mem_endpoints r hr)
  exact ⟨⟨hne, List.all_eq_true.1 hplain⟩, hfree⟩

theorem requests_of_provisionValues_none (h : provisionValues t = none) : t.requests F = [] := by
  unfold provisionValues at h
  unfold FirecrackerTarget.requests FirecrackerTarget.provisionRequests
  cases hfrom : t.fromSnapshot with
  | none =>
    rw [hfrom] at h
    cases h
  | some sm =>
    rw [hfrom] at h
    cases hb : t.memBackendOf sm.2 with
    | ok b =>
      dsimp only at h
      rw [hb] at h
      cases h
    | error e =>
      dsimp only
      rw [hb]
      rfl

/-- The requests of a target are sent as they are meant just where none of the values they carry
holds a quote. -/
theorem api_split_iff :
    (∀ r ∈ t.requests F, Shell.split (t.apiCmd r).toList = some (apiWords t r)) ↔
      ∀ s ∈ apiValues t, QuoteFree s := by
  have hsplit : (∀ r ∈ t.requests F, Shell.split (t.apiCmd r).toList = some (apiWords t r)) ↔
      ∀ r ∈ t.requests F, QuoteFree t.sock ∧ QuoteFree r.body := by
    apply forall₂_congr
    intro r hr
    obtain ⟨hmethod, hplain⟩ := proper_requests hr
    exact split_apiCmd hmethod hplain
  rw [hsplit]
  unfold apiValues
  cases hvs : provisionValues t with
  | none =>
    rw [requests_of_provisionValues_none hvs]
    simp only [List.not_mem_nil, false_imp_iff, implies_true]
  | some vs =>
    unfold FirecrackerTarget.requests
    obtain ⟨rs, hrs, hne, hbodies⟩ := quoteFree_provision hvs (F := F)
    obtain ⟨r, hr⟩ := List.exists_mem_of_ne_nil rs hne
    rw [hrs]
    dsimp only
    simp only [List.forall_mem_cons, List.forall_mem_append]
    rw [← hbodies, ← quoteFree_steady (F := F)]
    apply Iff.intro
    · rintro ⟨⟨hprovision, -⟩, hsteady⟩
      exact ⟨(hprovision r hr).1, fun r hr => (hprovision r hr).2, fun r hr => (hsteady r hr).2⟩
    · rintro ⟨hsock, hprovision, hsteady⟩
      exact ⟨⟨fun r hr => ⟨hsock, hprovision r hr⟩, fun r hr => ⟨hsock, quoteFree_start r hr⟩⟩,
        fun r hr => ⟨hsock, hsteady r hr⟩⟩

end Api

section Commands

variable {F : Type} [FloatText F]

/-- Whatever the settings, a command line is split into the words that are meant (the binary, each
argument, the body of a request) just where no value it is made of holds a single quote. -/
theorem commands_split_iff (config : List (String × Json F)) (vars : Vars)
    (t : FirecrackerTarget) :
    (Shell.split (fioWorkload config vars).startCmd.toList =
        some (intended (fioWorkload config vars).bin (fioWorkload config vars).args) ↔
      ∀ e ∈ fioSettings, QuoteFree (cfg config vars e.1 e.2)) ∧
    (Shell.split (wrkWorkload config vars).startCmd.toList =
        some (intended (wrkWorkload config vars).bin (wrkWorkload config vars).args) ↔
      ∀ e ∈ wrkSettings, QuoteFree (cfg config vars e.1 e.2)) ∧
    ((∀ r ∈ t.requests F, Shell.split (t.apiCmd r).toList = some (apiWords t r)) ↔
      ∀ s ∈ apiValues t, QuoteFree s) :=
  ⟨fio_split_iff, wrk_split_iff, api_split_iff⟩

/-- A job name that ends its quotation is read by the shell. -/
theorem quotation_ended :
    ¬ ∀ (config : List (String × Json ℚ)) (vars : Vars),
      Shell.split (fioWorkload config vars).startCmd.toList =
        some (intended (fioWorkload config vars).bin (fioWorkload config vars).args) := by
  intro h
  have hjob := fio_split_iff.1 (h [("name", .string "a' $(id) 'b")] [])
  have hname : QuoteFree "a' $(id) 'b" := hjob ("name", "assayist") (by decide)
  exact absurd hname (by decide)

end Commands

end Assayist
