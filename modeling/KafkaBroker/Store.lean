import KafkaBroker.Recovery
import KafkaBroker.StoreCore

/-!
The store over whole runs. Without I/O errors a broker is its history: every fetch
answers from the acknowledged records, through any number of crashes. With I/O
errors the acknowledged records are recovered as long as no append starts behind a
torn record.
-/

namespace KafkaBroker

open ByteText Posix

/-! One log. -/

/-- A log without a torn tail. -/
def Whole (bytes : Bytes) : Prop := repaired bytes = bytes

instance (bytes : Bytes) : Decidable (Whole bytes) := inferInstanceAs (Decidable (_ = _))

theorem decodeLog_whole_append {bytes torn : Bytes} (whole : Whole bytes)
    (stops : deserializeRecord torn 0 = none) :
    decodeLog (bytes ++ torn) = ((decodeLog bytes).1, bytes.length) := by
  obtain ⟨_, _, _, _, fits⟩ := decodeLog_spec bytes
  have split : bytes = serializeAll (decodeLog bytes).1 := whole.symm
  have decoded := decodeLog_serializeAll fits stops
  rw [← split] at decoded
  exact decoded

theorem decodeLog_whole_record {bytes : Bytes} (whole : Whole bytes) {record : Record}
    (fits : record.Fits) : decodeLog (bytes ++ serializeRecord record) =
      ((decodeLog bytes).1 ++ [record], (bytes ++ serializeRecord record).length) := by
  obtain ⟨_, _, _, _, allFit⟩ := decodeLog_spec bytes
  have split : serializeAll ((decodeLog bytes).1 ++ [record]) = bytes ++ serializeRecord record := by
    rw [serializeAll_append, serializeAll_cons, serializeAll_nil, List.append_nil]
    exact congrArg (· ++ serializeRecord record) whole
  have each : ∀ other ∈ (decodeLog bytes).1 ++ [record], other.Fits := by
    intro other member
    rcases List.mem_append.mp member with earlier | last
    · exact allFit other earlier
    · exact List.mem_singleton.mp last ▸ fits
  have decoded := decodeLog_serializeAll each deserializeRecord_nil
  rw [List.append_nil, split] at decoded
  exact decoded

theorem append_to_whole {bytes written : Bytes} (whole : Whole bytes) {record : Record}
    (fits : record.Fits) (cut : written <+: serializeRecord record) :
    written = serializeRecord record ∧
        payloads (bytes ++ written) = payloads bytes ++ [record.payload] ∧
        Whole (bytes ++ written) ∨
      written ≠ serializeRecord record ∧ payloads (bytes ++ written) = payloads bytes ∧
        repaired (bytes ++ written) = bytes := by
  by_cases complete : written = serializeRecord record
  · have decoded := decodeLog_whole_record whole fits
    subst complete
    refine Or.inl ⟨rfl, ?_, ?_⟩
    · simp [payloads, decoded]
    · rw [Whole, repaired, decoded, serializeAll_append, serializeAll_cons, serializeAll_nil,
        List.append_nil]
      exact congrArg (· ++ serializeRecord record) whole
  · have decoded := decodeLog_whole_append whole (deserializeRecord_torn fits cut complete)
    refine Or.inr ⟨complete, ?_, ?_⟩
    · simp [payloads, decoded]
    · rw [repaired, decoded]
      exact whole

/-! One request. -/

structure Serving {σ : Type} (config : StoreConfig) (world : World σ) : Prop where
  role : world.broker.role = config.role
  port : world.broker.followerPort = config.followerPort
  dir : world.broker.dataDir = config.dataDir
  regular : world.broker.Regular
  layout : StoreLayout (resolve config.dataDir) world.disk

def World.logBytes {σ : Type} (config : StoreConfig) (world : World σ) (topic : Bytes)
    (partition : Int) : Bytes :=
  KafkaBroker.logBytes (resolve config.dataDir) world.disk topic partition

theorem Logged.logBytes {dataDir : Bytes} {req : Request} {before after : FileSystem}
    {written : Bytes} (logged : Logged dataDir req before after written)
    (range : InRange req.partition) (topic : Bytes) {partition : Int}
    (queried : InRange partition) :
    KafkaBroker.logBytes (resolve dataDir) after topic partition =
      KafkaBroker.logBytes (resolve dataDir) before topic partition ++
        if topic = req.topic ∧ partition = req.partition then written else [] := by
  split
  · rename_i here
    rw [here.1, here.2]
    exact logged.extended.target
  · rename_i elsewhere
    have different : logFile (resolve dataDir) topic partition ≠
        logFile (resolve dataDir) req.topic req.partition := by
      exact fun same => elsewhere (logFile_injective queried range same)
    rw [KafkaBroker.logBytes, logged.extended.others _ different, List.append_nil]
    rfl

theorem Logged.decoded {dataDir : Bytes} {req : Request} {before after : FileSystem}
    {written : Bytes} (logged : Logged dataDir req before after written)
    (range : InRange req.partition) (fits : Record.Fits ⟨req.payload⟩)
    (whole : ∀ topic partition, InRange partition →
      Whole (KafkaBroker.logBytes (resolve dataDir) before topic partition)) :
    written = serializeRecord ⟨req.payload⟩ ∧ (∀ topic partition, InRange partition →
        payloads (KafkaBroker.logBytes (resolve dataDir) after topic partition) =
          payloads (KafkaBroker.logBytes (resolve dataDir) before topic partition) ++
            (if topic = req.topic ∧ partition = req.partition then [req.payload] else []) ∧
        Whole (KafkaBroker.logBytes (resolve dataDir) after topic partition)) ∨
      written ≠ serializeRecord ⟨req.payload⟩ ∧ ∀ topic partition, InRange partition →
        payloads (KafkaBroker.logBytes (resolve dataDir) after topic partition) =
          payloads (KafkaBroker.logBytes (resolve dataDir) before topic partition) := by
  have bytes (topic : Bytes) (partition : Int) (queried : InRange partition) :=
    logged.logBytes range topic queried
  rcases append_to_whole (whole req.topic req.partition range) fits logged.cut with
    ⟨complete, added, stillWhole⟩ | ⟨torn, unchanged, _⟩
  · refine Or.inl ⟨complete, fun topic partition queried => ?_⟩
    rw [bytes topic partition queried]
    by_cases here : topic = req.topic ∧ partition = req.partition
    · obtain ⟨rfl, rfl⟩ := here
      simp only [and_self, if_true]
      exact ⟨added, stillWhole⟩
    · simp only [here, if_false, List.append_nil, true_and]
      exact whole topic partition queried
  · refine Or.inr ⟨torn, fun topic partition queried => ?_⟩
    rw [bytes topic partition queried]
    by_cases here : topic = req.topic ∧ partition = req.partition
    · obtain ⟨rfl, rfl⟩ := here
      simp only [and_self, if_true]
      exact unchanged
    · simp only [here, if_false, List.append_nil]

section Requests

variable {σ : Type} {config : StoreConfig} (noNul : 0 ∉ config.dataDir) {world : World σ}
  (serving : Serving config world) (env : Environment σ) {req : Request}

include serving

theorem Serving.appendable (noNul : 0 ∉ config.dataDir) (valid : ValidName req.topic)
    (range : InRange req.partition) : Appendable world.broker world.disk req :=
  ⟨serving.dir ▸ noNul, serving.dir ▸ serving.layout, serving.regular, valid, range⟩

theorem handle_quiet (quiet : req.appends = false) :
    (∃ response, (handleRequest env world req).1 = .returned response) ∧
      Serving config (handleRequest env world req).2 ∧
      (handleRequest env world req).2.broker.topics = world.broker.topics ∧
      (handleRequest env world req).2.disk = world.disk := by
  simp only [Request.appends, decide_eq_false_iff_not, not_or] at quiet
  obtain ⟨reply, groups, dispatched⟩ := dispatch_quiet env world quiet.1 quiet.2
  obtain ⟨metrics, after, returned, _⟩ := handleRequest_eq env world req
  rw [dispatched] at after
  refine ⟨⟨reply.1, (returned _).mpr ⟨reply.2, by rw [dispatched]⟩⟩, ?_, ?_, ?_⟩
  · rw [after]
    exact ⟨serving.role, serving.port, serving.dir, serving.regular, serving.layout⟩
  · rw [after]
    rfl
  · rw [after]
    rfl

include noNul

theorem handle_produce (produces : req.type = .produce) (valid : ValidName req.topic)
    (range : InRange req.partition) :
    ∃ written, Logged config.dataDir req world.disk (handleRequest env world req).2.disk written ∧
      Serving config (handleRequest env world req).2 ∧
      (∀ name, (world.broker.topics.find name).isSome →
        ((handleRequest env world req).2.broker.topics.find name).isSome) ∧
      ((handleRequest env world req).2.broker.topics.find req.topic).isSome ∧
      (∀ name partition, (handleRequest env world req).2.broker.messages name partition =
        world.broker.messages name partition ++
          if name = req.topic ∧ partition = req.partition then [req.payload] else []) ∧
      ((∃ response, (handleRequest env world req).1 = .returned response ∧
          written = serializeRecord ⟨req.payload⟩ ∧
          (world.broker.replicates = false → response = ascii "OK")) ∨
        (handleRequest env world req).1 = .threw ∧ ¬env.calls.Unfailing ∨
        (handleRequest env world req).1 = .crashed) := by
  obtain ⟨written, logged, pushed, outcome⟩ :=
    produce_spec env (serving.appendable noNul valid range)
  have dispatched : dispatch env world req = produce env world req := by
    simp only [dispatch, produces]
  obtain ⟨metrics, after, returned, threw, crashed⟩ := handleRequest_eq env world req
  rw [dispatched] at after returned threw crashed
  rw [serving.dir] at logged
  refine ⟨written, ?_, ?_, ?_, ?_, ?_, ?_⟩
  · rw [after]
    exact logged
  · rw [after]
    exact ⟨pushed.role.trans serving.role, pushed.port.trans serving.port,
      pushed.dir.trans serving.dir, pushed.regular, logged.layout⟩
  · rw [after]
    exact pushed.kept
  · rw [after]
    exact pushed.stored
  · rw [after]
    exact pushed.messages
  · rcases outcome with ⟨reply, ended, whole, alone⟩ | failed | died
    · refine Or.inl ⟨reply.1, (returned _).mpr ⟨reply.2, ended⟩, whole, ?_⟩
      intro standalone
      rw [alone standalone]
    · exact Or.inr (Or.inl ⟨threw.mpr failed.1, failed.2⟩)
    · exact Or.inr (Or.inr (crashed.mpr died))

theorem handle_replicate (replicates : req.type = .replicate) (valid : ValidName req.topic) :
    Serving config (handleRequest env world req).2 ∧
      ((handleRequest env world req).2.disk = world.disk ∧
          (handleRequest env world req).1 = .returned (ascii "ERROR") ∨
        InRange req.partition ∧ ∃ written,
          Logged config.dataDir req world.disk (handleRequest env world req).2.disk written ∧
          ((handleRequest env world req).1 = .returned (ascii "OK") →
            written = serializeRecord ⟨req.payload⟩)) := by
  obtain ⟨metrics, after, returned, _⟩ := handleRequest_eq env world req
  have dispatched : dispatch env world req =
      ((replicate env.calls world.broker world.disk req).1,
        { world with
          broker := (replicate env.calls world.broker world.disk req).2.1
          disk := (replicate env.calls world.broker world.disk req).2.2 }) := by
    simp only [dispatch, replicates]
  rw [dispatched] at after returned
  have created : Serving config { world with
      broker := { world.broker with
        topics := world.broker.topics.emplace req.topic (Topic.create req.topic) } } :=
    ⟨serving.role, serving.port, serving.dir, emplace_regular serving.regular _, serving.layout⟩
  by_cases accepted : world.broker.role = .follower ∧ InRange req.partition
  · obtain ⟨written, logged, outcome⟩ :=
      replicate_spec (serving.appendable noNul valid accepted.2) accepted.1 env.calls
    rw [serving.dir] at logged
    refine ⟨?_, Or.inr ⟨accepted.2, written, by rw [after]; exact logged, ?_⟩⟩
    · rw [after]
      rcases outcome with ⟨_, _, pushed, _⟩ | ⟨_, unchanged⟩
      · exact ⟨pushed.role.trans serving.role, pushed.port.trans serving.port,
          pushed.dir.trans serving.dir, pushed.regular, logged.layout⟩
      · rw [unchanged]
        exact ⟨created.role, created.port, created.dir, created.regular, logged.layout⟩
    · intro answered
      obtain ⟨success, ended⟩ := (returned _).mp answered
      rcases outcome with ⟨_, whole, _⟩ | ⟨rejected | died, _⟩
      · exact whole
      · rw [rejected.1] at ended
        simp at ended
        exact absurd ended.1 (by decide)
      · rw [died] at ended
        simp at ended
  · obtain ⟨ended, sameDisk, sameBroker⟩ :=
      replicate_rejected serving.regular accepted env.calls
    refine ⟨?_, Or.inl ⟨?_, (returned _).mpr ⟨false, ended⟩⟩⟩
    · rw [after]
      rcases sameBroker with same | same
      · rw [same, sameDisk]
        exact ⟨serving.role, serving.port, serving.dir, serving.regular, serving.layout⟩
      · rw [same, sameDisk]
        exact ⟨created.role, created.port, created.dir, created.regular, created.layout⟩
    · rw [after]
      exact sameDisk

end Requests

/-! One restart. -/

theorem repaired_logBytes {config : StoreConfig} {before after : FileSystem} {topic : Bytes}
    {partition : Int} (cut : contents? after (logFile (resolve config.dataDir) topic partition) =
      (contents? before (logFile (resolve config.dataDir) topic partition)).map repaired) :
    logBytes (resolve config.dataDir) after topic partition =
      repaired (logBytes (resolve config.dataDir) before topic partition) := by
  rw [logBytes, logBytes, cut]
  cases contents? before (logFile (resolve config.dataDir) topic partition) <;> rfl

theorem restart_cases {σ : Type} {config : StoreConfig} {world next : World σ}
    (restarted : restart config world = some next) :
    next.broker.topics = ∅ ∧ next.broker.replicationProgress = ∅ ∨
      ∃ scanned, scanTopics config.role config.dataDir ⟨∅, ∅, world.disk⟩
          (children world.disk (resolve config.dataDir)) = .ok scanned ∧
        next.broker.topics = scanned.topics ∧
        next.broker.replicationProgress = scanned.progress := by
  simp only [restart, startBroker, Broker.recoverFromDisk] at restarted
  split at restarted
  · cases restarted
  · rename_i broker disk started
    obtain rfl := Option.some.inj restarted
    split at started
    · obtain ⟨rfl, _⟩ := Prod.mk.inj (Except.ok.inj started)
      exact Or.inl ⟨rfl, rfl⟩
    · split at started
      · cases started
      · rename_i scanned finished
        obtain ⟨rfl, _⟩ := Prod.mk.inj (Except.ok.inj started)
        exact Or.inr ⟨scanned, finished, rfl, rfl⟩

theorem restart_spec {σ : Type} {config : StoreConfig} (noNul : 0 ∉ config.dataDir)
    {world : World σ} (layout : StoreLayout (resolve config.dataDir) world.disk) :
    ∃ next, restart config world = some next ∧ Serving config next ∧
      (∀ name, (next.broker.topics.find name).isSome ↔
        HasLog (resolve config.dataDir) world.disk name) ∧
      ∀ topic partition, InRange partition →
        next.broker.messages topic partition =
          payloads (world.logBytes config topic partition) ∧
        next.logBytes config topic partition =
          repaired (world.logBytes config topic partition) := by
  obtain ⟨broker, disk, started, recovered⟩ :=
    startBroker_spec config.role config.followerPort noNul config.named layout
  refine ⟨⟨broker, disk, world.peer⟩, by simp only [restart, started], ?_, recovered.stored, ?_⟩
  · exact ⟨recovered.role_eq, recovered.port_eq, recovered.dir_eq, recovered.regular,
      recovered.layout⟩
  · intro topic partition range
    exact ⟨recovered.messages topic partition range,
      repaired_logBytes (recovered.cut topic partition range)⟩

theorem hasLog_of_logBytes {base : Path} {disk : FileSystem} {topic : Bytes} {partition : Int}
    (range : InRange partition) (written : logBytes base disk topic partition ≠ []) :
    HasLog base disk topic := by
  refine ⟨partition, range, ?_⟩
  rw [Option.isSome_iff_ne_none]
  intro absent
  simp [logBytes, absent] at written

/-! Runs without I/O errors. -/

/-- What a run of the store may consist of: any requests but `REPLICATE`, topics that
are single path components, and no failing call. -/
def StoreEvent.Admissible {σ : Type} : StoreEvent σ → Prop
  | .crash => True
  | .request raw env => (parseRequest raw).type ≠ .replicate ∧
      ((parseRequest raw).type = .produce → ValidName (parseRequest raw).topic) ∧
      env.calls.Unfailing

/-- The store is its history, in memory and on disk. -/
structure Faithful {σ : Type} (config : StoreConfig) (state : StoreState σ) : Prop where
  serving : Serving config state.world
  memory : ∀ topic partition, InRange partition →
    state.world.broker.messages topic partition = recorded state.history topic partition
  log : ∀ topic partition, InRange partition →
    payloads (state.world.logBytes config topic partition) = recorded state.history topic partition
  whole : ∀ topic partition, InRange partition →
    Whole (state.world.logBytes config topic partition)
  known : ∀ entry ∈ state.history, InRange entry.partition ∧
    (state.world.broker.topics.find entry.topic).isSome

theorem recorded_append (history : List HistoryEntry) (entry : HistoryEntry) (topic : Bytes)
    (partition : Int) : recorded (history ++ [entry]) topic partition =
      recorded history topic partition ++
        if topic = entry.topic ∧ partition = entry.partition then [entry.payload] else [] := by
  have swap : (entry.topic = topic ∧ entry.partition = partition) ↔
      topic = entry.topic ∧ partition = entry.partition :=
    and_congr eq_comm eq_comm
  simp only [recorded, List.filter_append, List.map_append, List.filter_singleton, swap]
  by_cases here : topic = entry.topic ∧ partition = entry.partition
  · simp [here]
  · simp [here, Bool.cond_eq_ite]

theorem recorded_ne_nil {history : List HistoryEntry} {entry : HistoryEntry}
    (member : entry ∈ history) : recorded history entry.topic entry.partition ≠ [] := by
  have kept : entry ∈ history.filter fun other =>
      other.topic = entry.topic ∧ other.partition = entry.partition :=
    List.mem_filter.mpr ⟨member, by simp⟩
  exact List.ne_nil_of_mem (List.mem_map_of_mem kept)

theorem faithful_restart {σ : Type} {config : StoreConfig} (noNul : 0 ∉ config.dataDir)
    (world : World σ) {history : List HistoryEntry}
    (layout : StoreLayout (resolve config.dataDir) world.disk)
    (log : ∀ topic partition, InRange partition →
      payloads (world.logBytes config topic partition) =
        recorded history topic partition)
    (ranges : ∀ entry ∈ history, InRange entry.partition) :
    ∃ next, restart config world = some next ∧ Faithful config ⟨next, history⟩ := by
  obtain ⟨next, restarted, serving, stored, logs⟩ := restart_spec noNul layout
  refine ⟨next, restarted, serving, ?_, ?_, ?_, ?_⟩
  · intro topic partition range
    rw [(logs topic partition range).1, log topic partition range]
  · intro topic partition range
    rw [(logs topic partition range).2, payloads_repaired, log topic partition range]
  · intro topic partition range
    rw [(logs topic partition range).2]
    exact repaired_repaired _
  · intro entry member
    refine ⟨ranges entry member, (stored entry.topic).mpr ?_⟩
    apply hasLog_of_logBytes (ranges entry member)
    intro empty
    have decoded := log entry.topic entry.partition (ranges entry member)
    rw [World.logBytes, empty, payloads_nil] at decoded
    exact recorded_ne_nil member decoded.symm

theorem fullyWritten_iff {dataDir : Bytes} (noNul : 0 ∉ dataDir) {req : Request}
    (valid : ValidName req.topic) (range : InRange req.partition) {before after : FileSystem}
    {written : Bytes} (logged : Logged dataDir req before after written) :
    fullyWritten dataDir req before after = true ↔ written = serializeRecord ⟨req.payload⟩ := by
  let log : TopicLog := ⟨req.topic, req.partition, dataDir, valid.1, range.1⟩
  have path : requestLog dataDir req = logFile (resolve dataDir) req.topic req.partition :=
    resolve_logPath log noNul valid
  rw [fullyWritten, path, logged.extended.target, decide_eq_true_eq, List.append_cancel_left_eq]

theorem payload_fits {raw : Bytes} {req : Request} (framed : ¬raw.length > kMaxPayloadSize)
    (shorter : req.payload.length ≤ raw.length) : Record.Fits ⟨req.payload⟩ := by
  simp only [kMaxPayloadSize, Record.Fits] at framed ⊢
  omega

theorem Faithful.append {σ : Type} {config : StoreConfig} {state : StoreState σ}
    (faithful : Faithful config state) {req : Request} (range : InRange req.partition)
    (fits : Record.Fits ⟨req.payload⟩) {after : FileSystem} {written : Bytes}
    (logged : Logged config.dataDir req state.world.disk after written) (acknowledged : Bool) :
    written = serializeRecord ⟨req.payload⟩ ∧ (∀ topic partition, InRange partition →
        payloads (logBytes (resolve config.dataDir) after topic partition) =
          recorded (state.history ++ [⟨req.topic, req.partition, req.payload, acknowledged⟩])
            topic partition ∧
        Whole (logBytes (resolve config.dataDir) after topic partition)) ∨
      written ≠ serializeRecord ⟨req.payload⟩ ∧ ∀ topic partition, InRange partition →
        payloads (logBytes (resolve config.dataDir) after topic partition) =
          recorded state.history topic partition := by
  refine (logged.decoded range fits faithful.whole).imp (And.imp_right fun logs => ?_)
    (And.imp_right fun logs => ?_)
  · intro topic partition queried
    rw [(logs topic partition queried).1, recorded_append, ← faithful.log topic partition queried]
    exact ⟨rfl, (logs topic partition queried).2⟩
  · intro topic partition queried
    rw [logs topic partition queried, ← faithful.log topic partition queried]
    rfl

theorem replicates_eq_false {broker : Broker} (standalone : broker.followerPort ≤ 0) :
    broker.replicates = false := by
  simp only [Broker.replicates, decide_eq_false_iff_not, not_and, not_lt]
  exact fun _ => standalone

section Steps

variable {σ : Type} {config : StoreConfig} {state : StoreState σ} {raw : Bytes}
  {env : Environment σ} (framed : ¬raw.length > kMaxPayloadSize)

include framed

theorem storeStep_returned {response : Bytes}
    (ended : (handleRequest env state.world (parseRequest raw)).1 = .returned response) :
    storeStep config state (.request raw env) = some {
      world := (handleRequest env state.world (parseRequest raw)).2
      history := if (parseRequest raw).appends ∧ response = ascii "OK" then
          state.history ++ [⟨(parseRequest raw).topic, (parseRequest raw).partition,
            (parseRequest raw).payload, true⟩]
        else state.history } := by
  simp only [storeStep, framed, if_false, ended]

theorem storeStep_threw (ended : (handleRequest env state.world (parseRequest raw)).1 = .threw) :
    storeStep config state (.request raw env) = some {
      world := (handleRequest env state.world (parseRequest raw)).2
      history := state.history } := by
  simp only [storeStep, framed, if_false, ended]

theorem storeStep_crashed {world : World σ}
    (ended : (handleRequest env state.world (parseRequest raw)).1 = .crashed)
    (restarted : restart config (handleRequest env state.world (parseRequest raw)).2 =
      some world) :
    storeStep config state (.request raw env) = some {
      world
      history := if fullyWritten config.dataDir (parseRequest raw) state.world.disk
          (handleRequest env state.world (parseRequest raw)).2.disk then
          state.history ++ [⟨(parseRequest raw).topic, (parseRequest raw).partition,
            (parseRequest raw).payload, false⟩]
        else state.history } := by
  simp only [storeStep, framed, if_false, ended, restarted, Option.map_some]

end Steps

theorem mem_append_entry {history : List HistoryEntry} {entry : HistoryEntry}
    {property : HistoryEntry → Prop} (earlier : ∀ old ∈ history, property old)
    (last : property entry) : ∀ other ∈ history ++ [entry], property other := by
  intro other member
  rcases List.mem_append.mp member with old | new
  · exact earlier other old
  · exact List.mem_singleton.mp new ▸ last

section FaithfulSteps

variable {σ : Type} {config : StoreConfig} (noNul : 0 ∉ config.dataDir)
  (standalone : config.followerPort ≤ 0) {state : StoreState σ} (faithful : Faithful config state)
  {raw : Bytes} {env : Environment σ} (framed : ¬raw.length > kMaxPayloadSize)

include noNul standalone faithful framed

theorem faithful_produce (produces : (parseRequest raw).type = .produce)
    (valid : ValidName (parseRequest raw).topic) (fine : env.calls.Unfailing) :
    ∃ next, storeStep config state (.request raw env) = some next ∧ Faithful config next := by
  obtain ⟨_, range, _, _, shorter⟩ := parseRequest_produce produces
  obtain ⟨written, logged, serving, kept, stored, messages, outcome⟩ :=
    handle_produce noNul faithful.serving env produces valid range
  have fits := payload_fits framed shorter
  have ranges := fun entry member => (faithful.known entry member).1
  rcases outcome with ⟨response, returned, complete, answer⟩ | ⟨_, failing⟩ | crashed
  · have answered := answer (replicates_eq_false (faithful.serving.port ▸ standalone))
    subst answered
    refine ⟨_, storeStep_returned framed returned, ?_⟩
    rw [if_pos ⟨by simp [Request.appends, produces], rfl⟩]
    rcases faithful.append range fits logged true with ⟨_, logs⟩ | ⟨torn, _⟩
    · refine ⟨serving, ?_, fun topic partition queried => (logs topic partition queried).1,
        fun topic partition queried => (logs topic partition queried).2, ?_⟩
      · intro topic partition queried
        rw [messages, faithful.memory topic partition queried, recorded_append]
      · exact mem_append_entry (fun entry member => ⟨ranges entry member,
          kept entry.topic (faithful.known entry member).2⟩) ⟨range, stored⟩
    · exact absurd complete torn
  · exact absurd fine failing
  · have iff := fullyWritten_iff noNul valid range logged
    rcases faithful.append range fits logged false with ⟨whole, logs⟩ | ⟨torn, logs⟩
    · obtain ⟨world, restarted, again⟩ := faithful_restart noNul _ logged.layout
        (fun topic partition queried => (logs topic partition queried).1)
        (mem_append_entry ranges range)
      refine ⟨_, storeStep_crashed framed crashed restarted, ?_⟩
      rw [if_pos (iff.mpr whole)]
      exact again
    · obtain ⟨world, restarted, again⟩ := faithful_restart noNul _ logged.layout logs ranges
      refine ⟨_, storeStep_crashed framed crashed restarted, ?_⟩
      rw [if_neg fun complete => torn (iff.mp complete)]
      exact again

omit noNul standalone in
theorem faithful_quiet (quiet : (parseRequest raw).appends = false) :
    ∃ next, storeStep config state (.request raw env) = some next ∧ Faithful config next := by
  obtain ⟨⟨response, returned⟩, serving, sameTopics, sameDisk⟩ :=
    handle_quiet faithful.serving env quiet
  refine ⟨_, storeStep_returned framed returned, ?_⟩
  simp only [quiet, Bool.false_eq_true, false_and, if_false]
  refine ⟨serving, ?_, ?_, ?_, ?_⟩
  · intro topic partition range
    rw [← faithful.memory topic partition range, Broker.messages, Broker.messages, sameTopics]
  · simpa only [World.logBytes, sameDisk] using faithful.log
  · simpa only [World.logBytes, sameDisk] using faithful.whole
  · simpa only [sameTopics] using faithful.known

end FaithfulSteps

theorem faithful_step {σ : Type} {config : StoreConfig} (noNul : 0 ∉ config.dataDir)
    (standalone : config.followerPort ≤ 0) (state : StoreState σ) (event : StoreEvent σ)
    (faithful : Faithful config state) (admissible : event.Admissible) :
    ∃ next, storeStep config state event = some next ∧ Faithful config next := by
  cases event with
  | crash =>
      obtain ⟨world, restarted, kept⟩ := faithful_restart noNul state.world faithful.serving.layout
        faithful.log fun entry member => (faithful.known entry member).1
      exact ⟨⟨world, state.history⟩, by simp only [storeStep, restarted, Option.map_some], kept⟩
  | request raw env =>
      obtain ⟨notReplicate, valid, fine⟩ := admissible
      by_cases framed : raw.length > kMaxPayloadSize
      · exact ⟨state, by simp only [storeStep, framed, if_true], faithful⟩
      · by_cases produces : (parseRequest raw).type = .produce
        · exact faithful_produce noNul standalone faithful framed produces (valid produces) fine
        · exact faithful_quiet faithful framed (by simp [Request.appends, produces, notReplicate])

structure FreshStore (base : Path) (disk : FileSystem) : Prop where
  free : ∀ path, OnTheWay [] base path → disk.find path = none ∨ disk.find path = some .directory
  empty : ∀ name rest, disk.find (base ++ name :: rest) = none

theorem FreshStore.layout {base : Path} {disk : FileSystem} (fresh : FreshStore base disk) :
    StoreLayout base disk :=
  ⟨fresh.free, by simp [fresh.empty], by simp [fresh.empty], by simp [fresh.empty],
    by simp [fresh.empty]⟩

theorem FreshStore.logBytes {base : Path} {disk : FileSystem} (fresh : FreshStore base disk)
    (topic : Bytes) (partition : Int) : logBytes base disk topic partition = [] := by
  simp [KafkaBroker.logBytes, contents?, logFile, fresh.empty]

theorem freshStore_empty (base : Path) : FreshStore base ∅ :=
  ⟨fun _ _ => Or.inl rfl, fun _ _ => rfl⟩

theorem faithful_start {σ : Type} {config : StoreConfig} (noNul : 0 ∉ config.dataDir)
    {disk : FileSystem} (fresh : FreshStore (resolve config.dataDir) disk) (peer : σ) :
    ∃ initial, storeStart config disk peer = some initial ∧ Faithful config initial := by
  have empty : ∀ topic partition, InRange partition →
      payloads (World.logBytes config ⟨{}, disk, peer⟩ topic partition) =
        recorded [] topic partition := by
    simp [World.logBytes, fresh.logBytes, recorded]
  obtain ⟨world, restarted, faithful⟩ :=
    faithful_restart noNul ⟨{}, disk, peer⟩ fresh.layout empty (by simp)
  exact ⟨⟨world, []⟩, by simp only [storeStart, restarted, Option.map_some], faithful⟩

theorem handle_fetch {σ : Type} (env : Environment σ) {world : World σ} {req : Request}
    (fetches : req.type = .fetch) (regular : world.broker.Regular)
    (stored : (world.broker.topics.find req.topic).isSome) (range : InRange req.partition) :
    (handleRequest env world req).1 =
      .returned (joinLines ((world.broker.messages req.topic req.partition).drop req.offset)) := by
  obtain ⟨topic, found⟩ := Option.isSome_iff_exists.mp stored
  have present := ((regular req.topic topic found).hasPartition req.partition).mpr range
  have answered : (fetch world.broker req).1 =
      joinLines ((world.broker.messages req.topic req.partition).drop req.offset) := by
    simp only [fetch, found, present, Bool.not_true, Bool.false_eq_true, if_false,
      Broker.messages]
    split
    · rename_i past
      rw [List.drop_eq_nil_of_le past]
      rfl
    · rfl
  obtain ⟨_, _, returned, _⟩ := handleRequest_eq env world req
  refine (returned _).mpr ⟨(fetch world.broker req).2, ?_⟩
  simp only [dispatch, fetches, ← answered]

/-- Crash-restart refinement: a standalone broker answers every fetch from the list of
acknowledged records, through any run of requests and crashes. -/
theorem fetch_answers_history {σ : Type} (config : StoreConfig)
    (standalone : config.followerPort ≤ 0) (noNul : 0 ∉ config.dataDir) {disk : FileSystem}
    (fresh : FreshStore (resolve config.dataDir) disk) (peer : σ) {events : List (StoreEvent σ)}
    (admissible : ∀ event ∈ events, event.Admissible) :
    ∃ initial final, storeStart config disk peer = some initial ∧
      Transition.run (storeStep config) initial events = some final ∧
      ∀ (env : Environment σ) (topic : Bytes) (partition : Int) (offset : Nat), InRange partition →
        (∃ entry ∈ final.history, entry.topic = topic ∧ entry.acknowledged = true) →
        (handleRequest env final.world { type := .fetch, topic, partition, offset }).1 =
          .returned (joinLines ((recorded final.history topic partition).drop offset)) := by
  obtain ⟨initial, started, faithful⟩ := faithful_start noNul fresh peer
  obtain ⟨final, finished, kept⟩ := Transition.run_progress (Faithful config)
    (faithful_step noNul standalone) faithful (Transition.stepsMeet_of_forall admissible initial)
  refine ⟨initial, final, started, finished, ?_⟩
  rintro env topic partition offset range ⟨entry, member, rfl, _⟩
  rw [handle_fetch env rfl kept.serving.regular (kept.known entry member).2 range,
    kept.memory _ _ range]

def smoothCalls (size : Nat) : AppendCalls :=
  ⟨some .succeeded, [.succeeded], [.wrote size], [.succeeded], some .succeeded⟩

def cutCalls (size : Nat) : AppendCalls := ⟨some .succeeded, [.succeeded], [.wrote size], [], none⟩

def failedCalls (size : Nat) : AppendCalls :=
  ⟨some .succeeded, [.succeeded], [.wrote size, .failed], [], none⟩

def produceAlone (text : String) (calls : AppendCalls) : StoreEvent Unit :=
  .request (ascii text) { link := fun peer _ => (peer, none), calls }

def standaloneConfig : StoreConfig := ⟨.leader, -1, ascii "data", by decide⟩

def tornRun : List (StoreEvent Unit) :=
  [produceAlone "PRODUCE t 0 a" (smoothCalls 9), produceAlone "PRODUCE t 0 b" (cutCalls 5),
    produceAlone "PRODUCE t 0 c" (smoothCalls 9)]

theorem smoothCalls_unfailing : (smoothCalls 9).Unfailing := by
  refine ⟨?_, ?_, ?_, ?_, ?_⟩ <;> simp [smoothCalls]

theorem tornRun_admissible : ∀ event ∈ tornRun, event.Admissible := by
  have cut : (cutCalls 5).Unfailing := by
    refine ⟨?_, ?_, ?_, ?_, ?_⟩ <;> simp [cutCalls]
  simp only [tornRun, List.mem_cons, List.not_mem_nil, or_false]
  rintro event (rfl | rfl | rfl)
  · exact ⟨by decide +kernel, by decide +kernel, smoothCalls_unfailing⟩
  · exact ⟨by decide +kernel, by decide +kernel, cut⟩
  · exact ⟨by decide +kernel, by decide +kernel, smoothCalls_unfailing⟩

theorem fetch_answers_history_torn :
    ∃ initial final, storeStart standaloneConfig ∅ () = some initial ∧
      Transition.run (storeStep standaloneConfig) initial tornRun = some final ∧
      ∀ env, (handleRequest env final.world { type := .fetch, topic := ascii "t" }).1 =
        .returned (ascii "a\nc") := by
  obtain ⟨initial, final, started, finished, answers⟩ :=
    fetch_answers_history standaloneConfig (by decide) (by decide) (freshStore_empty _) ()
      tornRun_admissible
  refine ⟨initial, final, started, finished, fun env => ?_⟩
  have evaluated : ((storeStart standaloneConfig ∅ ()).bind fun start =>
      Transition.run (storeStep standaloneConfig) start tornRun).map StoreState.history =
      some [⟨ascii "t", 0, ascii "a", true⟩, ⟨ascii "t", 0, ascii "c", true⟩] := by
    decide +kernel
  rw [started, Option.bind_some, finished, Option.map_some, Option.some.injEq] at evaluated
  have acked : ∃ entry ∈ final.history, entry.topic = ascii "t" ∧ entry.acknowledged = true := by
    rw [evaluated]
    exact ⟨⟨ascii "t", 0, ascii "a", true⟩, by simp, rfl, rfl⟩
  rw [answers env (ascii "t") 0 0 (by decide) acked, evaluated]
  decide +kernel

/-! Runs with I/O errors. -/

/-- No append is made behind a torn record, and topics are single path components. -/
def StoreEvent.Safe {σ : Type} (config : StoreConfig) (state : StoreState σ) :
    StoreEvent σ → Prop
  | .crash => True
  | .request raw _ => (parseRequest raw).appends = true → ValidName (parseRequest raw).topic ∧
      Whole (state.world.logBytes config (parseRequest raw).topic (parseRequest raw).partition)

instance {σ : Type} (config : StoreConfig) (state : StoreState σ) :
    ∀ event : StoreEvent σ, Decidable (event.Safe config state)
  | .crash => isTrue trivial
  | .request _ _ => inferInstanceAs (Decidable (_ → _ ∧ _))

/-- The logs hold every acknowledged record, in order. -/
structure Durable {σ : Type} (config : StoreConfig) (state : StoreState σ) : Prop where
  serving : Serving config state.world
  log : ∀ topic partition, InRange partition →
    (acknowledged state.history topic partition).Sublist
      (payloads (state.world.logBytes config topic partition))
  ranges : ∀ entry ∈ state.history, entry.acknowledged = true → InRange entry.partition

theorem acknowledged_append (history : List HistoryEntry) (entry : HistoryEntry) (topic : Bytes)
    (partition : Int) : acknowledged (history ++ [entry]) topic partition =
      acknowledged history topic partition ++
        if entry.acknowledged = true ∧ topic = entry.topic ∧ partition = entry.partition
        then [entry.payload] else [] := by
  unfold acknowledged
  rw [List.filter_append]
  cases acked : entry.acknowledged with
  | true => simp [acked, recorded_append]
  | false => simp [acked]

theorem Durable.append {σ : Type} {config : StoreConfig} {state : StoreState σ}
    (durable : Durable config state) {req : Request} (range : InRange req.partition)
    (fits : Record.Fits ⟨req.payload⟩) {after : FileSystem} {written : Bytes}
    (logged : Logged config.dataDir req state.world.disk after written)
    (whole : Whole (state.world.logBytes config req.topic req.partition)) (acked : Bool)
    (complete : acked = true → written = serializeRecord ⟨req.payload⟩) (topic : Bytes)
    {partition : Int} (queried : InRange partition) :
    (acknowledged (state.history ++ [⟨req.topic, req.partition, req.payload, acked⟩])
      topic partition).Sublist
      (payloads (logBytes (resolve config.dataDir) after topic partition)) := by
  rw [acknowledged_append, logged.logBytes range topic queried]
  have before := durable.log topic partition queried
  by_cases here : topic = req.topic ∧ partition = req.partition
  · obtain ⟨rfl, rfl⟩ := here
    simp only [and_self, if_true, and_true]
    rcases append_to_whole whole fits logged.cut with ⟨_, added, _⟩ | ⟨torn, unchanged, _⟩
    · rw [World.logBytes] at added before
      rw [added]
      apply List.Sublist.append before
      split
      · exact List.Sublist.refl _
      · exact List.nil_sublist _
    · rw [World.logBytes] at unchanged before
      rw [unchanged, if_neg fun isAcked => torn (complete isAcked), List.append_nil]
      exact before
  · simp only [here, and_false, if_false, List.append_nil]
    exact before

theorem acknowledged_append_false (history : List HistoryEntry) {entry : HistoryEntry}
    (silent : entry.acknowledged = false) (topic : Bytes) (partition : Int) :
    acknowledged (history ++ [entry]) topic partition = acknowledged history topic partition := by
  simp [acknowledged_append, silent]

theorem durable_restart {σ : Type} {config : StoreConfig} (noNul : 0 ∉ config.dataDir)
    (world : World σ) {history : List HistoryEntry}
    (layout : StoreLayout (resolve config.dataDir) world.disk)
    (log : ∀ topic partition, InRange partition →
      (acknowledged history topic partition).Sublist
        (payloads (world.logBytes config topic partition)))
    (ranges : ∀ entry ∈ history, entry.acknowledged = true → InRange entry.partition) :
    ∃ next, restart config world = some next ∧ Durable config ⟨next, history⟩ ∧
      ∀ topic partition, InRange partition → (acknowledged history topic partition).Sublist
        (next.broker.messages topic partition) := by
  obtain ⟨next, restarted, serving, _, logs⟩ := restart_spec noNul layout
  refine ⟨next, restarted, ⟨serving, ?_, ranges⟩, ?_⟩
  · intro topic partition range
    rw [(logs topic partition range).2, payloads_repaired]
    exact log topic partition range
  · intro topic partition range
    rw [(logs topic partition range).1]
    exact log topic partition range

theorem handle_append {σ : Type} {config : StoreConfig} (noNul : 0 ∉ config.dataDir)
    {world : World σ} (serving : Serving config world) (env : Environment σ) {raw : Bytes}
    (appends : (parseRequest raw).appends = true) (valid : ValidName (parseRequest raw).topic) :
    Serving config (handleRequest env world (parseRequest raw)).2 ∧
      ((handleRequest env world (parseRequest raw)).2.disk = world.disk ∧
          (handleRequest env world (parseRequest raw)).1 = .returned (ascii "ERROR") ∨
        InRange (parseRequest raw).partition ∧
          (parseRequest raw).payload.length ≤ raw.length ∧ ∃ written,
          Logged config.dataDir (parseRequest raw) world.disk
            (handleRequest env world (parseRequest raw)).2.disk written ∧
          ((handleRequest env world (parseRequest raw)).1 = .returned (ascii "OK") →
            written = serializeRecord ⟨(parseRequest raw).payload⟩)) := by
  simp only [Request.appends, decide_eq_true_eq] at appends
  rcases appends with produces | replicates
  · obtain ⟨_, range, _, _, shorter⟩ := parseRequest_produce produces
    obtain ⟨written, logged, after, _, _, _, outcome⟩ :=
      handle_produce noNul serving env produces valid range
    refine ⟨after, Or.inr ⟨range, shorter, written, logged, fun answered => ?_⟩⟩
    rcases outcome with ⟨_, _, whole, _⟩ | ⟨threw, _⟩ | crashed
    · exact whole
    · simp [threw] at answered
    · simp [crashed] at answered
  · obtain ⟨_, _, _, shorter⟩ := parseRequest_replicate replicates
    obtain ⟨after, outcome⟩ := handle_replicate noNul serving env replicates valid
    refine ⟨after, outcome.imp id ?_⟩
    rintro ⟨range, written, logged, whole⟩
    exact ⟨range, shorter, written, logged, whole⟩

theorem durable_step {σ : Type} {config : StoreConfig} (noNul : 0 ∉ config.dataDir)
    (state : StoreState σ) (event : StoreEvent σ) (durable : Durable config state)
    (safe : event.Safe config state) :
    ∃ next, storeStep config state event = some next ∧ Durable config next := by
  cases event with
  | crash =>
      obtain ⟨world, restarted, kept, _⟩ := durable_restart noNul state.world
        durable.serving.layout durable.log durable.ranges
      exact ⟨⟨world, state.history⟩, by simp only [storeStep, restarted, Option.map_some], kept⟩
  | request raw env =>
  by_cases framed : raw.length > kMaxPayloadSize
  · exact ⟨state, by simp only [storeStep, framed, if_true], durable⟩
  cases appends : (parseRequest raw).appends with
  | false =>
      obtain ⟨⟨response, returned⟩, serving, _, sameDisk⟩ :=
        handle_quiet durable.serving env appends
      refine ⟨_, storeStep_returned framed returned, ?_⟩
      simp only [appends, Bool.false_eq_true, false_and, if_false]
      exact ⟨serving, by simpa only [World.logBytes, sameDisk] using durable.log, durable.ranges⟩
  | true =>
  obtain ⟨valid, whole⟩ := safe appends
  obtain ⟨serving, outcome⟩ := handle_append noNul durable.serving env appends valid
  rcases outcome with ⟨sameDisk, rejected⟩ | ⟨range, shorter, written, logged, complete⟩
  · refine ⟨_, storeStep_returned framed rejected, ?_⟩
    rw [if_neg fun both => absurd both.2 (by decide)]
    exact ⟨serving, by simpa only [World.logBytes, sameDisk] using durable.log, durable.ranges⟩
  · have fits := payload_fits framed shorter
    have unheard (topic : Bytes) (partition : Int) (queried : InRange partition) :
        (acknowledged state.history topic partition).Sublist
          (payloads (logBytes (resolve config.dataDir)
            (handleRequest env state.world (parseRequest raw)).2.disk topic partition)) := by
      have appended := durable.append range fits logged whole false (by simp) topic queried
      rwa [acknowledged_append_false _ rfl] at appended
    cases ended : (handleRequest env state.world (parseRequest raw)).1 with
    | threw => exact ⟨_, storeStep_threw framed ended, serving, unheard, durable.ranges⟩
    | returned response =>
        refine ⟨_, storeStep_returned framed ended, ?_⟩
        by_cases answered : response = ascii "OK"
        · subst answered
          rw [if_pos ⟨appends, rfl⟩]
          refine ⟨serving, fun topic partition queried => ?_, ?_⟩
          · exact durable.append range fits logged whole true (fun _ => complete ended) topic queried
          · exact mem_append_entry durable.ranges fun _ => range
        · rw [if_neg fun both => answered both.2]
          exact ⟨serving, unheard, durable.ranges⟩
    | crashed =>
        by_cases written : fullyWritten config.dataDir (parseRequest raw) state.world.disk
            (handleRequest env state.world (parseRequest raw)).2.disk = true
        · obtain ⟨world, restarted, kept, _⟩ := durable_restart noNul
            (handleRequest env state.world (parseRequest raw)).2 logged.layout
            (fun topic partition queried =>
              durable.append range fits logged whole false (by simp) topic queried)
            (mem_append_entry durable.ranges fun _ => range)
          refine ⟨_, storeStep_crashed framed ended restarted, ?_⟩
          rw [if_pos written]
          exact kept
        · obtain ⟨world, restarted, kept, _⟩ := durable_restart noNul
            (handleRequest env state.world (parseRequest raw)).2 logged.layout unheard
            durable.ranges
          refine ⟨_, storeStep_crashed framed ended restarted, ?_⟩
          rw [if_neg written]
          exact kept

theorem safe_run_durable {σ : Type} (config : StoreConfig) (noNul : 0 ∉ config.dataDir)
    {disk : FileSystem} (fresh : FreshStore (resolve config.dataDir) disk) (peer : σ) :
    ∃ initial, storeStart config disk peer = some initial ∧
      ∀ events : List (StoreEvent σ),
        Transition.StepsMeet (fun state event => event.Safe config state) (storeStep config)
          initial events →
        ∃ final, Transition.run (storeStep config) initial events = some final ∧
          Durable config final := by
  have empty : ∀ topic partition, InRange partition →
      (acknowledged [] topic partition).Sublist
        (payloads (World.logBytes config ⟨{}, disk, peer⟩ topic partition)) :=
    fun _ _ _ => List.nil_sublist _
  obtain ⟨world, restarted, durable, _⟩ :=
    durable_restart noNul ⟨{}, disk, peer⟩ fresh.layout empty (by simp)
  refine ⟨⟨world, []⟩, by simp only [storeStart, restarted, Option.map_some], ?_⟩
  intro events safe
  exact Transition.run_progress (Durable config) (durable_step noNul) durable safe

theorem Durable.recovers {σ : Type} {config : StoreConfig} (noNul : 0 ∉ config.dataDir)
    {state : StoreState σ} (durable : Durable config state) :
    ∃ recovered, restart config state.world = some recovered ∧
      ∀ topic partition, (acknowledged state.history topic partition).Sublist
        (recovered.broker.messages topic partition) := by
  obtain ⟨recovered, recovers, _, messages⟩ :=
    durable_restart noNul state.world durable.serving.layout durable.log durable.ranges
  refine ⟨recovered, recovers, fun topic partition => ?_⟩
  by_cases range : InRange partition
  · exact messages topic partition range
  · have none : acknowledged state.history topic partition = [] := by
      by_contra some
      obtain ⟨payload, member⟩ := List.exists_mem_of_ne_nil _ some
      simp only [acknowledged, recorded, List.mem_map, List.mem_filter, decide_eq_true_eq] at member
      obtain ⟨entry, ⟨⟨inside, acked⟩, _, rfl⟩, _⟩ := member
      exact range (durable.ranges entry inside acked)
    rw [none]
    exact List.nil_sublist _

/-- Every acknowledged record is recovered in the order of the acknowledgements, in
every run whose appends start at a record boundary. -/
theorem acknowledged_survive_restart {σ : Type} (config : StoreConfig) (noNul : 0 ∉ config.dataDir)
    {disk : FileSystem} (fresh : FreshStore (resolve config.dataDir) disk) (peer : σ) :
    ∃ initial, storeStart config disk peer = some initial ∧
      ∀ events : List (StoreEvent σ),
        Transition.StepsMeet (fun state event => event.Safe config state) (storeStep config)
          initial events →
        ∃ final recovered, Transition.run (storeStep config) initial events = some final ∧
          restart config final.world = some recovered ∧
          ∀ topic partition, (acknowledged final.history topic partition).Sublist
            (recovered.broker.messages topic partition) := by
  obtain ⟨initial, started, runs⟩ := safe_run_durable config noNul fresh peer
  refine ⟨initial, started, fun events safe => ?_⟩
  obtain ⟨final, finished, durable⟩ := runs events safe
  obtain ⟨recovered, recovers, messages⟩ := durable.recovers noNul
  exact ⟨final, recovered, finished, recovers, messages⟩

def repairedRun : List (StoreEvent Unit) :=
  [produceAlone "PRODUCE t 0 a" (failedCalls 3), .crash,
    produceAlone "PRODUCE t 0 b" (smoothCalls 9)]

theorem acknowledged_survive_repair :
    ∃ initial final recovered, storeStart standaloneConfig ∅ () = some initial ∧
      Transition.run (storeStep standaloneConfig) initial repairedRun = some final ∧
      restart standaloneConfig final.world = some recovered ∧
      ∀ topic partition, (acknowledged final.history topic partition).Sublist
        (recovered.broker.messages topic partition) := by
  obtain ⟨initial, started, survive⟩ := acknowledged_survive_restart standaloneConfig (by decide)
    (freshStore_empty _) ()
  have safe : ∀ start ∈ storeStart standaloneConfig ∅ (),
      Transition.StepsMeet (fun state event => StoreEvent.Safe standaloneConfig state event)
        (storeStep standaloneConfig) start repairedRun := by
    decide +kernel
  obtain ⟨final, recovered, finished, recovers, kept⟩ := survive repairedRun (safe initial started)
  exact ⟨initial, final, recovered, started, finished, recovers, kept⟩

/-- The same failed append without the restart: the record acknowledged behind it is
not recovered. -/
theorem acknowledged_lost_behind_torn :
    ∃ initial final recovered, storeStart standaloneConfig ∅ () = some initial ∧
      Transition.run (storeStep standaloneConfig) initial
        [produceAlone "PRODUCE t 0 a" (failedCalls 3),
          produceAlone "PRODUCE t 0 b" (smoothCalls 9)] = some final ∧
      restart standaloneConfig final.world = some recovered ∧
      ¬(acknowledged final.history (ascii "t") 0).Sublist
        (recovered.broker.messages (ascii "t") 0) := by
  have evaluated : ((storeStart standaloneConfig ∅ ()).bind fun initial =>
      (Transition.run (storeStep standaloneConfig) initial
        [produceAlone "PRODUCE t 0 a" (failedCalls 3),
          produceAlone "PRODUCE t 0 b" (smoothCalls 9)]).bind fun final =>
      (restart standaloneConfig final.world).map fun recovered =>
        (acknowledged final.history (ascii "t") 0, recovered.broker.messages (ascii "t") 0)) =
      some ([ascii "b"], []) := by
    decide +kernel
  simp only [Option.bind_eq_some_iff, Option.map_eq_some_iff, Prod.mk.injEq] at evaluated
  obtain ⟨initial, started, final, finished, recovered, recovers, acked, lost⟩ := evaluated
  refine ⟨initial, final, recovered, started, finished, recovers, ?_⟩
  rw [acked, lost]
  decide

end KafkaBroker
