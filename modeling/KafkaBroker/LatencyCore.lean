import KafkaBroker.Lib.Rounding
import KafkaBroker.MetricsCore

/-!
The latency figures of `METRICS`. A `double` is its value, and every operation on one
rounds; a read behind the end of the samples has no result.
-/

namespace KafkaBroker

open Rounding

def double (x : ℚ) : ℚ := binary64.round x

/-- `lower_value + (upper_value - lower_value) * weight`, cast to an integer. -/
def interpolate (lowerValue upperValue : Nat) (weight : ℚ) : Nat :=
  ⌊double (double lowerValue + double (double (upperValue - lowerValue : Nat) * weight))⌋₊

def valueAtRank (sorted : List Nat) (rank : ℚ) : Option Nat :=
  let lowerIndex := ⌊rank⌋₊
  let upperIndex := ⌈rank⌉₊
  let weight := double (rank - double lowerIndex)
  let last := if upperIndex < sorted.length then upperIndex else sorted.length - 1
  sorted[lowerIndex]?.bind fun lowerValue =>
    sorted[last]?.map fun upperValue => interpolate lowerValue upperValue weight

def percentileValue (values : List Nat) (percentile : ℚ) : Option Nat :=
  if values = [] then some 0
  else
    let sorted := values.mergeSort (· ≤ ·)
    if sorted.length = 1 then sorted.head?
    else valueAtRank sorted (double (percentile * double (double sorted.length - 1)))

structure LatencyFigures where
  average : Nat := 0
  p50 : Nat := 0
  p95 : Nat := 0
  p99 : Nat := 0
  max : Nat := 0
  deriving DecidableEq, Repr

/-- The second half of `snapshot`; the sum is an `unsigned long long`. -/
def latencyFigures (latencies : List Nat) : Option LatencyFigures :=
  if latencies = [] then some {}
  else
    (percentileValue latencies (double (50 / 100))).bind fun p50 =>
    (percentileValue latencies (double (95 / 100))).bind fun p95 =>
    (percentileValue latencies (double (99 / 100))).map fun p99 =>
      { max := latencies.max?.getD 0
        average := ⌊double (double (latencies.sum % 2 ^ 64 : Nat) / double latencies.length)⌋₊
        p50, p95, p99 }

def LatencyFigures.columns (figures : LatencyFigures) : List Nat :=
  [figures.average, figures.p50, figures.p95, figures.p99, figures.max]

def latencyColumns (latencies : List Nat) : List Nat :=
  ((latencyFigures latencies).map LatencyFigures.columns).getD []

end KafkaBroker
