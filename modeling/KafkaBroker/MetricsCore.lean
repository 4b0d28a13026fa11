import KafkaBroker.ProtocolCore

/-!
Request counters. The latency figures of the report are computed in floating
point from wall-clock samples; they are an argument here.
-/

namespace KafkaBroker

open ByteText

structure Metrics where
  totalRequests : Nat := 0
  successfulRequests : Nat := 0
  failedRequests : Nat := 0
  produceRequests : Nat := 0
  fetchRequests : Nat := 0
  joinRequests : Nat := 0
  commitRequests : Nat := 0
  totalBytesProcessed : Nat := 0
  latencySamplesUs : List Nat := []
  deriving DecidableEq, Repr

def fetchAdd (counter amount : Nat) : Nat := (counter + amount) % 2 ^ 64

def Metrics.recordRequest (metrics : Metrics) (type : RequestType) (success : Bool)
    (bytesProcessed elapsedUs : Nat) : Metrics :=
  let bump (counter : Nat) (counted : Bool) : Nat := if counted then fetchAdd counter 1 else counter
  { totalRequests := fetchAdd metrics.totalRequests 1
    successfulRequests := bump metrics.successfulRequests success
    failedRequests := bump metrics.failedRequests !success
    produceRequests := bump metrics.produceRequests (type = .produce)
    fetchRequests := bump metrics.fetchRequests (type = .fetch)
    joinRequests := bump metrics.joinRequests (type = .join)
    commitRequests := bump metrics.commitRequests (type = .commit)
    totalBytesProcessed := fetchAdd metrics.totalBytesProcessed bytesProcessed
    latencySamplesUs := metrics.latencySamplesUs ++ [elapsedUs] }

/-- The counters in column order, then average, percentiles and maximum. -/
def Metrics.toCsvRow (metrics : Metrics) (latencyFigures : List Nat → List Nat) : Bytes :=
  List.intercalate (ascii ",") (([metrics.totalRequests, metrics.successfulRequests,
    metrics.failedRequests, metrics.produceRequests, metrics.fetchRequests, metrics.joinRequests,
    metrics.commitRequests, metrics.totalBytesProcessed] ++
      latencyFigures metrics.latencySamplesUs).map decimal)

end KafkaBroker
