import Assayist.Spec.Basic

/-! The gate's statistics: the seeded permutation test, the within-group noise
estimate, histogram percentiles and the drift regression. -/

namespace Assayist

/-- The shuffle's generator. -/
structure SplitMix64 where
  state : UInt64
  deriving DecidableEq, Repr

namespace SplitMix64

def new (seed : UInt64) : SplitMix64 := ⟨seed⟩

def nextU64 (rng : SplitMix64) : UInt64 × SplitMix64 :=
  let state := rng.state + 0x9E3779B97F4A7C15
  let z := state
  let z := (z ^^^ (z >>> 30)) * 0xBF58476D1CE4E5B9
  let z := (z ^^^ (z >>> 27)) * 0x94D049BB133111EB
  (z ^^^ (z >>> 31), ⟨state⟩)

/-- Uniform in `[0, n)`. -/
def below (rng : SplitMix64) (n : ℕ) : ℕ × SplitMix64 :=
  let (x, rng) := rng.nextU64
  (x.toNat % n, rng)

end SplitMix64

/-- `pool.swap(i, j)`. -/
def swap {α : Type} (pool : List α) (i j : ℕ) : List α :=
  match pool[i]?, pool[j]? with
  | some x, some y => (pool.set i y).set j x
  | _, _ => pool

/-- The Fisher-Yates loop from index `i` down to 1. -/
def shuffleFrom {α : Type} : ℕ → SplitMix64 → List α → SplitMix64 × List α
  | 0, rng, pool => (rng, pool)
  | i + 1, rng, pool =>
    let (j, rng) := rng.below (i + 2)
    shuffleFrom i rng (swap pool (i + 1) j)

/-- `for i in (1..n).rev()`. -/
def shuffle {α : Type} (rng : SplitMix64) (pool : List α) : SplitMix64 × List α :=
  shuffleFrom (pool.length - 1) rng pool

section Moments

variable {F : Type} [F64 F]

def sum (xs : List F) : F := xs.foldl (· + ·) 0

def mean (xs : List F) : F :=
  if xs.isEmpty then 0 else sum xs / (xs.length : F)

/-- Sample variance, 0 for fewer than two points. -/
def variance (xs : List F) : F :=
  if xs.length < 2 then 0
  else
    let m := mean xs
    sum (xs.map fun x => (x - m) * (x - m)) / ((xs.length : F) - 1)

def stddev (xs : List F) : F := F64.sqrt (variance xs)

/-- Coefficient of variation of a single group, 0 if the mean is 0. -/
def cov (xs : List F) : F :=
  let m := mean xs
  if m == 0 then 0 else stddev xs / F64.abs m

/-- The larger of the two within-group coefficients of variation. -/
def withinCov (a b : List F) : F := max (cov a) (cov b)

/-- `1e-12`, the guard on floating equality. -/
def eps : F := 1 / ((10 ^ 12 : ℕ) : F)

/-- The resampling loop. The pool is shuffled cumulatively, never reset. -/
def resampleCount (observed : F) (na : ℕ) : ℕ → SplitMix64 → List F → ℕ → ℕ
  | 0, _, _, count => count
  | k + 1, rng, pool, count =>
    let (rng, pool) := shuffle rng pool
    let ma := mean (pool.take na)
    let mb := mean (pool.drop na)
    resampleCount observed na k rng pool
      (if observed ≤ F64.abs (mb - ma) + eps then count + 1 else count)

/-- Two-sided permutation test on the difference of means, with add-one
smoothing. -/
def permutationP (a b : List F) (resamples : ℕ) (seed : UInt64) : F :=
  if a.isEmpty || b.isEmpty then 1
  else
    let observed := F64.abs (mean b - mean a)
    let count := resampleCount observed a.length resamples (.new seed) (a ++ b) 0
    ((count : F) + 1) / ((resamples : F) + 1)

end Moments

section Histogram

variable {F : Type} [F64 F] [Build]

/-- `1.5 * (1u64 << i) as f64`. -/
def log2Midpoint (i : ℕ) : Except Abort F := do
  let edge ← oneShl i
  pure ((3 : F) / 2 * (edge.toNat : F))

/-- The cumulative scan over the buckets from index `i`, `none` when it runs off
the end. -/
def log2Scan (target : F) : ℕ → UInt64 → List UInt64 → Except Abort (Option F)
  | _, _, [] => pure none
  | i, cum, b :: bs => do
    let cum ← addU64 cum b
    if target ≤ (cum.toNat : F) then some <$> log2Midpoint i
    else log2Scan target (i + 1) cum bs

/-- Percentile estimate from a log2 histogram: a bucket midpoint. -/
def log2Percentile (buckets : List UInt64) (q : F) : Except Abort F := do
  let total ← sumU64 buckets
  if total = 0 then pure 0
  else
    match ← log2Scan (q * (total.toNat : F)) 0 0 buckets with
    | some v => pure v
    | none => log2Midpoint (buckets.length - 1)

/-- `acc += b as f64 * 1.5 * (1u64 << i) as f64` over the buckets from index `i`. -/
def log2Weighted : ℕ → F → List UInt64 → Except Abort F
  | _, acc, [] => pure acc
  | i, acc, b :: bs => do
    let edge ← oneShl i
    log2Weighted (i + 1) (acc + (b.toNat : F) * (3 / 2) * (edge.toNat : F)) bs

/-- Mean estimate from a log2 histogram (bucket midpoints). -/
def log2Mean (buckets : List UInt64) : Except Abort F := do
  let total ← sumU64 buckets
  if total = 0 then pure 0
  else
    let acc ← log2Weighted 0 0 buckets
    pure (acc / (total.toNat : F))

/-- `bounds[i]`, which panics out of range. -/
def boundAt (bounds : List F) (i : ℕ) : Except Abort F :=
  match bounds[i]? with
  | some x => .ok x
  | none => .error (.panic .indexOutOfBounds)

/-- The edges `lo` and `hi` of bucket `i`. The overflow bucket ends at `2 * lo`. -/
def explicitEdges (bounds : List F) (i : ℕ) : Except Abort (F × F) := do
  let lo ← if i = 0 then pure 0 else boundAt bounds (i - 1)
  let hi := match bounds[i]? with
    | some x => x
    | none => lo * 2
  pure (lo, hi)

def explicitScan (bounds : List F) (target : F) : ℕ → UInt64 → List UInt64 →
    Except Abort (Option F)
  | _, _, [] => pure none
  | i, cum, b :: bs => do
    let cum ← addU64 cum b
    if target ≤ (cum.toNat : F) then
      let (lo, hi) ← explicitEdges bounds i
      pure (some ((lo + hi) / 2))
    else explicitScan bounds target (i + 1) cum bs

/-- Percentile from an explicit-bounds histogram, midpoint estimate. -/
def explicitPercentile (buckets : List UInt64) (bounds : List F) (q : F) : Except Abort F := do
  let total ← sumU64 buckets
  if total = 0 then pure 0
  else
    match ← explicitScan bounds (q * (total.toNat : F)) 0 0 buckets with
    | some v => pure v
    | none => pure (bounds.getLast?.getD 0)

end Histogram

section Regression

variable {F : Type} [F64 F]

/-- Ordinary least squares slope of a series indexed by `0..n`, and its standard
error. -/
def linregSlopeStderr (ys : List F) : F × F :=
  let n := ys.length
  if n < 3 then (0, 0)
  else
    let xs : List F := (List.range n).map fun i => (i : F)
    let mx := mean xs
    let my := mean ys
    let sxx := sum (xs.map fun x => (x - mx) * (x - mx))
    let sxy := sum ((xs.zip ys).map fun (x, y) => (x - mx) * (y - my))
    if sxx == 0 then (0, 0)
    else
      let slope := sxy / sxx
      let intercept := my - slope * mx
      let sse := sum ((xs.zip ys).map fun (x, y) =>
        (y - (intercept + slope * x)) * (y - (intercept + slope * x)))
      let residVar := sse / ((n : F) - 2)
      (slope, F64.sqrt (residVar / sxx))

end Regression

end Assayist
