import Assayist.Spec.Adapter
import Assayist.Spec.Gadgets
import Assayist.Spec.Otlp
import Assayist.Proofs.Exit
import Assayist.Proofs.Truncation
import Assayist.Proofs.Budget
import Assayist.Proofs.VmIds
import Assayist.Proofs.Teardown
import Assayist.Proofs.Argv
import Assayist.Proofs.Admission
import Assayist.Proofs.RoundTrip
import Assayist.Lib.Resampling
import Assayist.Proofs.Exact
import Assayist.Proofs.Floor
import Assayist.Proofs.Power
import Assayist.Proofs.Cells
import Assayist.Proofs.Owner
import Assayist.Proofs.Release
import Assayist.Spec.Capture
import Assayist.Proofs.Tending
import Assayist.Proofs.Ceiling
import Assayist.Proofs.Comparable
import Assayist.Proofs.Contamination
import Assayist.Proofs.Hosts
import Assayist.Proofs.Hollow
import Assayist.Proofs.Samples
import Assayist.Proofs.Costs
import Assayist.Proofs.Prepared
import Assayist.Lib.Histograms
import Assayist.Proofs.Log2
import Assayist.Proofs.Points
import Assayist.Proofs.Pointwise
import Assayist.Proofs.Offsets
import Assayist.Proofs.Pointwise
import Assayist.Proofs.Scalars
import Assayist.Proofs.SpanTrip
import Assayist.Proofs.RunIds
import Assayist.Proofs.Channel
import Assayist.Lib.Tagged
import Assayist.Proofs.VmTable
import Assayist.Lib.Combos
import Assayist.Proofs.Split
import Assayist.Proofs.Panics
import Assayist.Proofs.Signs
import Assayist.Lib.BoundedMap
import Assayist.Lib.Pairing
import Assayist.Spec.Kvm
import Assayist.Proofs.Kvm
import Assayist.Spec.JsonSchema
import Assayist.Spec.Run
import Assayist.Spec.RunSchema
import Assayist.Proofs.Conform
import Assayist.Proofs.Fingerprint
import Assayist.Proofs.Invariance
import Assayist.Proofs.ZeroBaseline
import Assayist.Proofs.Tokens
import Assayist.Proofs.Memory
import Assayist.Proofs.Fio
import Assayist.Lib.Framing
import Assayist.Proofs.Addressing
import Assayist.Spec.Serve
import Assayist.Proofs.Serve
import Assayist.Proofs.PointValues
import Assayist.Lib.Keyed
import Assayist.Proofs.MetricIds
import Assayist.Proofs.Noise
import Assayist.Proofs.Percentiles
import Assayist.Proofs.Explicit
import Assayist.Proofs.ExactMean
import Assayist.Proofs.Positions
import Assayist.Proofs.LogLinear
import Assayist.Lib.Rules
import Assayist.Proofs.LoadRules
import Assayist.Proofs.Fragments
import Assayist.Lib.Strides
import Assayist.Proofs.Pinning
import Assayist.Lib.Provenance
import Assayist.Proofs.Substitution
import Assayist.Lib.Shell
import Assayist.Proofs.Quoting
import Assayist.Proofs.Instances
import Assayist.Proofs.Tuning
import Assayist.Proofs.Matrix
import Assayist.Lib.Reading
import Assayist.Proofs.Canonical
import Assayist.Proofs.Relabel
import Assayist.Proofs.Sessions
import Assayist.Proofs.Occupancy
import Assayist.Proofs.Grammar
import Assayist.Proofs.Shuffles
import Assayist.Lib.Numerals
import Assayist.Proofs.IdOrder
import Assayist.Proofs.TapNames
import Assayist.Lib.LeastSquares
import Assayist.Proofs.Trend
import Assayist.Lib.Tally
import Assayist.Spec.CtrlPlane
import Assayist.Proofs.OnCpu
import Assayist.Lib.Accrual
import Assayist.Spec.Net
import Assayist.Proofs.Packets
import Assayist.Lib.Stash
import Assayist.Spec.KvmCpus
import Assayist.Proofs.KvmCpus
import Assayist.Proofs.RunQueue
import Assayist.Spec.BlockCpus
import Assayist.Proofs.BlockCpus
import Assayist.Lib.Quantiles
import Assayist.Proofs.Accuracy
import Assayist.Proofs.RunCmd
import Assayist.Proofs.InForce
import Assayist.Proofs.Tolerance
import Assayist.Spec.Vsock
import Assayist.Proofs.Vsock
import Assayist.Spec.Wrk
import Assayist.Proofs.Wrk
