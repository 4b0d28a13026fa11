import KafkaBroker.Connections
import KafkaBroker.Latency

/-!
The `METRICS` report of `EpollServer`, whose one thread handles a request at a time: after
any run it counts every request answered, as a success or a failure and under its type.
-/

namespace KafkaBroker

open ByteText Transition

variable {σ : Type}

/-! Only `record_request` changes the counters. -/

theorem appendLocal_metrics (broker : Broker) (disk : Posix.FileSystem) (calls : AppendCalls)
    (req : Request) : (appendLocal broker disk calls req).2.1.metrics = broker.metrics := by
  simp only [appendLocal]
  split
  · rfl
  · split
    · rfl
    · split <;> rfl

theorem replicate_metrics (calls : AppendCalls) (broker : Broker) (disk : Posix.FileSystem)
    (req : Request) : (replicate calls broker disk req).2.1.metrics = broker.metrics := by
  simp only [replicate]
  split
  · rfl
  · split
    · rfl
    · split
      · rfl
      · split <;> rfl

theorem produce_metrics (env : Environment σ) (world : World σ) (req : Request) :
    (produce env world req).2.broker.metrics = world.broker.metrics := by
  have appended := appendLocal_metrics world.broker world.disk env.calls req
  simp only [produce]
  split
  · exact appended
  · exact appended
  · exact appended
  · split
    · split <;> exact appended
    · exact appended

theorem dispatch_metrics (env : Environment σ) (world : World σ) (req : Request) :
    (dispatch env world req).2.broker.metrics = world.broker.metrics := by
  simp only [dispatch]
  cases req.type with
  | produce => exact produce_metrics env world req
  | replicate => exact replicate_metrics env.calls world.broker world.disk req
  | _ => rfl

/-! The requests answered. -/

structure AnsweredRequest where
  type : RequestType
  success : Bool
  bytes : Nat
  elapsedUs : Nat
  deriving DecidableEq

/-- What `handle_request` answers; nothing where an exception leaves it. -/
def answerTo (env : Environment σ) (world : World σ) (req : Request) : List AnsweredRequest :=
  match (dispatch env world req).1 with
  | .returned reply => [⟨req.type, reply.2, requestBytes req, env.elapsedUs⟩]
  | .threw | .crashed => []

def stepAnswers (state : ServerState σ) : ServerEvent σ → List AnsweredRequest
  | .request _ raw env => answerTo env state.world (parseRequest raw)
  | _ => []

def runAnswers (start : ServerState σ) (events : List (ServerEvent σ)) : List AnsweredRequest :=
  observe stepAnswers serverStep start events

/-- The counters hold what the answered requests add up to, modulo `2 ^ 64`. -/
structure Metrics.Count (metrics : Metrics) (answered : List AnsweredRequest) : Prop where
  total : metrics.totalRequests = answered.length % 2 ^ 64
  successful : metrics.successfulRequests = answered.countP (·.success) % 2 ^ 64
  failed : metrics.failedRequests = answered.countP (!·.success) % 2 ^ 64
  produce : metrics.produceRequests = answered.countP (·.type = .produce) % 2 ^ 64
  fetch : metrics.fetchRequests = answered.countP (·.type = .fetch) % 2 ^ 64
  join : metrics.joinRequests = answered.countP (·.type = .join) % 2 ^ 64
  commit : metrics.commitRequests = answered.countP (·.type = .commit) % 2 ^ 64
  bytes : metrics.totalBytesProcessed = (answered.map AnsweredRequest.bytes).sum % 2 ^ 64
  latencies : metrics.latencySamplesUs = answered.map AnsweredRequest.elapsedUs

theorem fetchAdd_countP {counter : Nat} {answered : List AnsweredRequest}
    {counted : AnsweredRequest → Bool} (counts : counter = answered.countP counted % 2 ^ 64)
    (answer : AnsweredRequest) :
    (if counted answer then fetchAdd counter 1 else counter) =
      (answered ++ [answer]).countP counted % 2 ^ 64 := by
  subst counts
  rw [List.countP_append]
  cases isCounted : counted answer <;> simp [isCounted, fetchAdd]

theorem Metrics.Count.recordRequest {metrics : Metrics} {answered : List AnsweredRequest}
    (count : metrics.Count answered) (answer : AnsweredRequest) :
    (metrics.recordRequest answer.type answer.success answer.bytes answer.elapsedUs).Count
      (answered ++ [answer]) where
  total := by simp [Metrics.recordRequest, count.total, fetchAdd]
  successful := fetchAdd_countP count.successful answer
  failed := fetchAdd_countP count.failed answer
  produce := fetchAdd_countP count.produce answer
  fetch := fetchAdd_countP count.fetch answer
  join := fetchAdd_countP count.join answer
  commit := fetchAdd_countP count.commit answer
  bytes := by simp [Metrics.recordRequest, count.bytes, fetchAdd]
  latencies := by simp [Metrics.recordRequest, count.latencies]

theorem handleRequest_count {world : World σ} {answered : List AnsweredRequest}
    (count : world.broker.metrics.Count answered) (env : Environment σ) (req : Request) :
    (handleRequest env world req).2.broker.metrics.Count
      (answered ++ answerTo env world req) := by
  rw [← dispatch_metrics env world req] at count
  simp only [handleRequest, answerTo]
  split <;> rename_i outcome
  · simpa only [outcome, List.append_nil] using count
  · simpa only [outcome, List.append_nil] using count
  · simp only [outcome]
    exact count.recordRequest ⟨req.type, _, requestBytes req, env.elapsedUs⟩

theorem serverStep_count {state next : ServerState σ} {event : ServerEvent σ}
    {answered : List AnsweredRequest} (count : state.world.broker.metrics.Count answered)
    (stepped : serverStep state event = some next) :
    next.world.broker.metrics.Count (answered ++ stepAnswers state event) := by
  cases event with
  | request id raw env =>
      have same : next.world = (handleRequest env state.world (parseRequest raw)).2 := by
        simp only [serverStep] at stepped
        split at stepped
        · split at stepped
          · simp at stepped
          · rw [Option.some.injEq] at stepped
            exact stepped ▸ rfl
          · rw [Option.some.injEq] at stepped
            exact stepped ▸ rfl
        · simp at stepped
      rw [same]
      exact handleRequest_count count env (parseRequest raw)
  | _ =>
      have same : next.world.broker.metrics = state.world.broker.metrics := by
        simp only [serverStep] at stepped
        repeat' split at stepped
        all_goals cases stepped <;> rfl
      rw [same, stepAnswers, List.append_nil]
      · exact count
      · simp

theorem run_count {world : World σ} (fresh : world.broker.metrics = {})
    {events : List (ServerEvent σ)} {final : ServerState σ}
    (reached : run serverStep ⟨world, ∅⟩ events = some final) :
    final.world.broker.metrics.Count (runAnswers ⟨world, ∅⟩ events) := by
  have start : world.broker.metrics.Count [] := by
    rw [fresh]
    constructor <;> rfl
  exact run_observed (fun answered state => state.world.broker.metrics.Count answered)
    (fun _ _ _ _ => serverStep_count) start reached

theorem countP_types (answered : List AnsweredRequest) :
    answered.countP (·.type = .produce) + answered.countP (·.type = .fetch) +
      answered.countP (·.type = .join) + answered.countP (·.type = .commit) ≤ answered.length := by
  induction answered with
  | nil => exact le_rfl
  | cons answer rest ih =>
      simp only [List.countP_cons, List.length_cons]
      cases answer.type <;> simp <;> omega

/-- The counts of the report, in column order. -/
def answerColumns (answered : List AnsweredRequest) : List Nat :=
  [answered.length, answered.countP (·.success), answered.countP (!·.success),
    answered.countP (·.type = .produce), answered.countP (·.type = .fetch),
    answered.countP (·.type = .join), answered.countP (·.type = .commit),
    (answered.map AnsweredRequest.bytes).sum % 2 ^ 64]

/-- As long as fewer than `2 ^ 53` requests have taken fewer than `2 ^ 53` microseconds, the
report of `METRICS` counts the requests answered so far in every state the server reaches and
adds up: successes and failures to the total, the types to no more than that, and its latency
figures are those of the requests answered, in order. -/
theorem metrics_report_consistent {world : World σ} (fresh : world.broker.metrics = {})
    {events : List (ServerEvent σ)} {final : ServerState σ}
    (reached : run serverStep ⟨world, ∅⟩ events = some final) (env : Environment σ)
    (reports : env.latencyFigures = latencyColumns)
    (few : Exact (runAnswers ⟨world, ∅⟩ events).length)
    (quick : Exact ((runAnswers ⟨world, ∅⟩ events).map AnsweredRequest.elapsedUs).sum) :
    let answered := runAnswers ⟨world, ∅⟩ events
    let metrics := final.world.broker.metrics
    ∃ figures : LatencyFigures,
      latencyFigures (answered.map AnsweredRequest.elapsedUs) = some figures ∧
      (handleRequest env final.world { type := .metrics }).1 = .returned
        (List.intercalate (ascii ",")
          ((answerColumns answered ++ figures.columns).map decimal)) ∧
      metrics.totalRequests = answered.length ∧
      metrics.totalRequests = metrics.successfulRequests + metrics.failedRequests ∧
      metrics.produceRequests + metrics.fetchRequests + metrics.joinRequests +
        metrics.commitRequests ≤ metrics.totalRequests ∧
      figures.p50 ≤ figures.p95 ∧ figures.p95 ≤ figures.p99 ∧ figures.p99 ≤ figures.max ∧
      figures.average ≤ figures.max := by
  intro answered metrics
  have count : metrics.Count answered := run_count fresh reached
  have small {counted : Nat} (le : counted ≤ answered.length) : counted % 2 ^ 64 = counted :=
    Nat.mod_eq_of_lt (le.trans_lt (lt_trans few (by decide)))
  have total : metrics.totalRequests = answered.length := count.total.trans (small le_rfl)
  have successful := count.successful.trans (small List.countP_le_length)
  have failed := count.failed.trans (small List.countP_le_length)
  have produced := count.produce.trans (small List.countP_le_length)
  have fetched := count.fetch.trans (small List.countP_le_length)
  have joined := count.join.trans (small List.countP_le_length)
  have committed := count.commit.trans (small List.countP_le_length)
  obtain ⟨figures, found, ordered⟩ : ∃ figures : LatencyFigures,
      latencyFigures (answered.map AnsweredRequest.elapsedUs) = some figures ∧
        figures.p50 ≤ figures.p95 ∧ figures.p95 ≤ figures.p99 ∧ figures.p99 ≤ figures.max ∧
        figures.average ≤ figures.max := by
    by_cases filled : answered.map AnsweredRequest.elapsedUs = []
    · exact ⟨{}, by simp [latencyFigures, filled], by simp⟩
    · have many : Exact (answered.map AnsweredRequest.elapsedUs).length := by
        rw [List.length_map]
        exact few
      obtain ⟨figures, found, ordered⟩ := figures_ordered filled many quick
      exact ⟨figures, found, ordered.p50_le, ordered.p95_le, ordered.p99_le, ordered.average_le⟩
  refine ⟨figures, found, ?_, total, ?_, ?_, ordered⟩
  · have row : metrics.toCsvRow latencyColumns = List.intercalate (ascii ",")
        ((answerColumns answered ++ figures.columns).map decimal) := by
      simp only [Metrics.toCsvRow, total, successful, failed, produced, fetched, joined, committed,
        count.bytes, count.latencies, latencyColumns, found, answerColumns]
      rfl
    rw [← row, ← reports]
    rfl
  · rw [total, successful, failed, List.length_eq_countP_add_countP (·.success)]
    simp
  · rw [total, produced, fetched, joined, committed]
    exact countP_types answered

def countedEvents : List (ServerEvent Unit) :=
  [.accept 1, groupRequest 1 "JOIN g a t", .record 1, .respond 1 true,
    groupRequest 1 "FETCH t 0 0", .record 1, .respond 1 true, groupRequest 1 "PING", .record 1]

def reportingEnv : Environment Unit :=
  { groupEnv with latencyFigures := latencyColumns }

theorem metrics_report_consistent_failed : ∃ final,
    run serverStep ⟨freshWorld, ∅⟩ countedEvents = some final ∧
      (handleRequest reportingEnv final.world { type := .metrics }).1 =
        .returned (ascii "3,2,1,0,1,1,0,100,0,0,0,0,0") := by
  have answered : runAnswers ⟨freshWorld, ∅⟩ countedEvents =
      [⟨.join, true, 35, 0⟩, ⟨.fetch, false, 33, 0⟩, ⟨.ping, true, 32, 0⟩] := by
    decide +kernel
  have evaluated : (run serverStep ⟨freshWorld, ∅⟩ countedEvents).isSome := by
    decide +kernel
  obtain ⟨final, reached⟩ := Option.isSome_iff_exists.mp evaluated
  obtain ⟨figures, found, report, -, -, -, p95, p99, greatest, average⟩ :=
    metrics_report_consistent rfl reached reportingEnv rfl
      (by rw [answered]; norm_num [Exact]) (by rw [answered]; norm_num [Exact])
  rw [answered] at found report
  have least : figures.max = 0 := by
    rw [latencyFigures, if_neg (by simp)] at found
    obtain ⟨_, -, tail⟩ := Option.bind_eq_some_iff.mp found
    obtain ⟨_, -, rest⟩ := Option.bind_eq_some_iff.mp tail
    obtain ⟨_, -, rfl⟩ := Option.map_eq_some_iff.mp rest
    rfl
  have zeros : figures.columns = [0, 0, 0, 0, 0] := by
    simp only [LatencyFigures.columns, List.cons.injEq, and_true]
    omega
  refine ⟨final, reached, report.trans ?_⟩
  rw [zeros]
  decide +kernel

end KafkaBroker
