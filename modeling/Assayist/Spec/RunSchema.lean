import Assayist.Spec.JsonSchema

/-! `contract/assay-run.schema.json`, the published schema of a run. -/

namespace Assayist

namespace RunSchema

open JsonSchema

/-- `^0\.[0-9]+\.[0-9]+$`. -/
def versionPattern (s : String) : Prop :=
  ∃ minor patch : List Char, s.toList = ['0', '.'] ++ minor ++ ['.'] ++ patch ∧
    minor ≠ [] ∧ patch ≠ [] ∧ ∀ c ∈ minor ++ patch, c.isDigit = true

/-- `[0-9A-HJKMNP-TV-Z]`. -/
def crockford (c : Char) : Bool := "0123456789ABCDEFGHJKMNPQRSTVWXYZ".toList.contains c

/-- `^[0-9A-HJKMNP-TV-Z]\x7b26\x7d$`. -/
def runIdPattern : String → Prop := exactly crockford 26

section Defs

variable {F : Type} [F64 F]

def scalars : JsonSchema F := objectOf scalar

def runIdentity : JsonSchema F := closedObject
  [required "target_adapter" string, required "target_adapter_version" string,
    required "workload_driver" string, required "workload_driver_version" string,
    required "sut_git_sha" (minLength 7), required "params" scalars,
    required "params_hash" string, required "benchmark_def_sha" string,
    optional "source" (enum ["captured", "imported"])]

def hostFingerprint : JsonSchema F := closedObject
  [required "hostname" string, required "kernel_version" string, required "os_release" string,
    required "cpu_model" string, required "cpu_count_logical" (integer 1),
    required "cpu_count_physical" (integer 1), required "smt_enabled" boolean,
    required "cpu_governor" string,
    required "thp_setting" (enum ["always", "madvise", "never"]),
    required "total_memory_bytes" (integer 0), required "kvm_present" boolean,
    required "tenancy" (enum ["single_tenant", "density"]),
    required "tuning_requested" scalars, required "tuning_readback" scalars,
    optional "numa_topology" anyObject, optional "pinning_layout" anyObject,
    optional "mitigations" (objectOf string), optional "microcode_version" string,
    optional "nested_virt" boolean]

def lifecycleSpan : JsonSchema F := closedObject
  [required "name" string, required "start_unix_nano" (integer 0),
    required "end_unix_nano" (integer 0), optional "parent" string,
    optional "attributes" scalars]

def cardinalityDecl : JsonSchema F := fun v =>
  closedObject
    [required "class" (enum ["singleton", "bounded"]),
      optional "key_source"
        (enum ["vcpu_pid_map", "cgroup_id", "guest_index", "device", "netdev", "vm_id"]),
      optional "max_keys" (integer 1)] v ∧
  whenConst "class" "bounded" (requires ["key_source", "max_keys"]) v

def histogramData : JsonSchema F := fun v =>
  closedObject
    [required "layout" (enum ["log2", "explicit"]), required "buckets" (arrayOf (integer 0)),
      optional "explicit_bounds" (arrayOf number), optional "sum" number,
      required "count" (integer 0)] v ∧
  whenConst "layout" "explicit" (requires ["explicit_bounds"]) v

def counterData : JsonSchema F := closedObject
  [required "value" (integer 0), required "start_unix_nano" (integer 0)]

def gaugeData : JsonSchema F := closedObject
  [required "value" number, required "time_unix_nano" (integer 0)]

def metricSeries : JsonSchema F := fun v =>
  closedObject
    [required "name" string, required "unit" string,
      required "kind" (enum ["histogram", "counter", "gauge"]), required "source" string,
      optional "key" string, optional "labels" scalars,
      optional "cardinality_overflow" boolean, required "cardinality" cardinalityDecl,
      required "data" (oneOf [histogramData, counterData, gaugeData])] v ∧
  whenConst "kind" "histogram" (property "data" histogramData) v ∧
  whenConst "kind" "counter" (property "data" counterData) v ∧
  whenConst "kind" "gauge" (property "data" gaugeData) v

def probeCost : JsonSchema F := closedObject
  [required "probe_id" string,
    required "attach_kind" (enum ["tp_btf", "tracepoint", "fentry", "fexit", "kprobe",
      "kretprobe", "uprobe", "xdp", "tc"]),
    required "run_time_ns" (integer 0), required "run_cnt" (integer 0),
    required "mean_ns" (numberWhere fun x => 0 ≤ x),
    required "steady_cpu_fraction" (numberWhere fun x => 0 ≤ x),
    required "over_budget" boolean, optional "hot_path" boolean]

def gateContext : JsonSchema F := closedObject
  [required "mode" (enum ["ab_permutation", "longitudinal_drift", "subsystem_triad"]),
    required "baseline_ref" string,
    required "p_threshold" (numberWhere fun x => 0 < x ∧ x ≤ 1),
    required "noise_threshold" (numberWhere fun x => 0 ≤ x ∧ x ≤ 1),
    required "resamples" (integer 1), optional "ignore" (arrayOf string),
    required "tenancy" (enum ["single_tenant", "density"])]

def metricOutcome : JsonSchema F := closedObject
  [required "delta" number, required "p" (numberWhere fun x => 0 ≤ x ∧ x ≤ 1),
    required "significant" boolean, required "noisy" boolean]

def outcome : JsonSchema F := closedObject
  [required "verdict" (enum ["pass", "fail", "contaminated"]),
    optional "per_metric" (objectOf metricOutcome), optional "notes" (arrayOf string)]

/-- The schema, with the pattern asked of `run_id`. -/
def assayRun (runId : String → Prop) : JsonSchema F := closedObject
  [required "schema_version" (stringWhere versionPattern),
    required "run_id" (stringWhere runId),
    required "grade" (enum ["reproducible", "valid", "invalid"]),
    required "identity" runIdentity, required "fingerprint" hostFingerprint,
    optional "spans" (arrayOf lifecycleSpan), optional "series" (arrayOf metricSeries),
    optional "self_metrics" (arrayOf probeCost), required "gate" gateContext,
    optional "outcome" outcome, optional "workload_report" fun _ => True]

end Defs

end RunSchema

end Assayist
