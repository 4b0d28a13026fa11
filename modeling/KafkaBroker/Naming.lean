import KafkaBroker.Store

/-!
Topic names as path components. A log lies where the recovery looks for it exactly if the
topic is one valid name, and then every topic comes back under its own name.
-/

namespace KafkaBroker

open ByteText Posix

/-! Where a log lies. -/

theorem resolve_logPath_iff (log : TopicLog) (noNul : 0 ∉ log.dataDir) :
    resolve log.logPath = logFile (resolve log.dataDir) log.topic log.partitionId ↔
      ValidName log.topic := by
  constructor
  · intro placed
    have inside : log.topic ∈ resolve log.logPath := by
      rw [placed, logFile]
      simp
    exact resolve_valid inside
  · exact fun valid => resolve_logPath log noNul valid

/-! The names of recovered topics. -/

def NamedByKey (topics : Table Bytes Topic) : Prop :=
  ∀ name topic, topics.find name = some topic → topic.name = name

theorem scanFile_name {role : BrokerRole} {dataDir : Bytes} {scan next : TopicScan}
    {file : Bytes × Node} (scanned : scanFile role dataDir scan file = .ok next) :
    next.topic.name = scan.topic.name := by
  rcases scanFile_cases scanned with ⟨_, rfl⟩ | ⟨_, _, _, _, _, _, _, rfl⟩
  · rfl
  · rfl

theorem scanFiles_name {role : BrokerRole} {dataDir : Bytes} (files : List (Bytes × Node)) :
    ∀ {scan final : TopicScan}, scanFiles role dataDir scan files = .ok final →
      final.topic.name = scan.topic.name := by
  induction files with
  | nil =>
      intro scan final scanned
      rw [← Except.ok.inj scanned]
  | cons file rest ih =>
      intro scan final scanned
      simp only [scanFiles] at scanned
      split at scanned
      · simp at scanned
      · rename_i next stepped
        rw [ih scanned, scanFile_name stepped]

theorem scanTopic_named {role : BrokerRole} {dataDir : Bytes} {scan next : StoreScan}
    {entry : Bytes × Node} (named : NamedByKey scan.topics)
    (scanned : scanTopic role dataDir scan entry = .ok next) : NamedByKey next.topics := by
  rcases scanTopic_cases scanned with rfl | ⟨final, files, rfl⟩
  · exact named
  · intro name topic found
    simp only at found
    split at found
    · rw [Table.find_set] at found
      split at found
      · rename_i here
        rw [← Option.some.inj found, scanFiles_name _ files, here]
        rfl
      · exact named name topic found
    · exact named name topic found

theorem scanTopics_named {role : BrokerRole} {dataDir : Bytes} (entries : List (Bytes × Node)) :
    ∀ {scan final : StoreScan}, NamedByKey scan.topics →
      scanTopics role dataDir scan entries = .ok final → NamedByKey final.topics := by
  induction entries with
  | nil =>
      intro scan final named scanned
      rw [← Except.ok.inj scanned]
      exact named
  | cons entry rest ih =>
      intro scan final named scanned
      simp only [scanTopics] at scanned
      split at scanned
      · simp at scanned
      · rename_i next stepped
        exact ih (scanTopic_named named stepped) scanned

theorem restart_named {σ : Type} {config : StoreConfig} {world next : World σ}
    (restarted : restart config world = some next) : NamedByKey next.broker.topics := by
  have empty : NamedByKey ∅ := by
    intro name topic found
    simp at found
  rcases restart_cases restarted with ⟨nothing, _⟩ | ⟨scanned, finished, topics, _⟩
  · rw [nothing]
    exact empty
  · rw [topics]
    exact scanTopics_named _ empty finished

/-! Runs. -/

/-- A topic and partition that some `PRODUCE` request names. -/
def Accepted (topic : Bytes) (partition : Int) : Prop :=
  ∃ raw, (parseRequest raw).type = .produce ∧ (parseRequest raw).topic = topic ∧
    (parseRequest raw).partition = partition

theorem Accepted.range {topic : Bytes} {partition : Int} (accepted : Accepted topic partition) :
    InRange partition := by
  obtain ⟨raw, produces, _, rfl⟩ := accepted
  exact (parseRequest_produce produces).2.1

theorem logPath_separate {first second : TopicLog} (sameDir : first.dataDir = second.dataDir)
    (noNul : 0 ∉ first.dataDir) (firstValid : ValidName first.topic)
    (secondValid : ValidName second.topic) (firstRange : InRange first.partitionId)
    (secondRange : InRange second.partitionId)
    (different : (first.topic, first.partitionId) ≠ (second.topic, second.partitionId)) :
    resolve first.logPath ≠ resolve second.logPath := by
  rw [resolve_logPath first noNul firstValid,
    resolve_logPath second (sameDir ▸ noNul) secondValid, sameDir]
  intro same
  obtain ⟨sameTopic, samePartition⟩ := logFile_injective firstRange secondRange same
  exact different (Prod.ext sameTopic samePartition)

theorem find_of_messages {broker : Broker} {topic : Bytes} {partition : Int}
    (stored : broker.messages topic partition ≠ []) : ∃ found, broker.topics.find topic = some found := by
  cases found : broker.topics.find topic with
  | none => simp [Broker.messages, found] at stored
  | some topic => exact ⟨topic, rfl⟩

theorem mem_acknowledged {history : List HistoryEntry} {entry : HistoryEntry}
    (member : entry ∈ history) (acked : entry.acknowledged = true) :
    entry.payload ∈ acknowledged history entry.topic entry.partition := by
  simp only [acknowledged, recorded, List.mem_map, List.mem_filter, decide_eq_true_eq]
  exact ⟨entry, ⟨⟨member, acked⟩, rfl, rfl⟩, rfl⟩

theorem Durable.topic {σ : Type} {config : StoreConfig} (noNul : 0 ∉ config.dataDir)
    {state : StoreState σ} (durable : Durable config state) :
    ∃ recovered, restart config state.world = some recovered ∧
      ∀ entry ∈ state.history, entry.acknowledged = true →
        ∃ topic, recovered.broker.topics.find entry.topic = some topic ∧
          topic.name = entry.topic ∧ ∀ partition,
            (acknowledged state.history entry.topic partition).Sublist (topic.messages partition) := by
  obtain ⟨recovered, recovers, messages⟩ := durable.recovers noNul
  refine ⟨recovered, recovers, fun entry member acked => ?_⟩
  have held : recovered.broker.messages entry.topic entry.partition ≠ [] :=
    List.ne_nil_of_mem ((messages _ _).subset (mem_acknowledged member acked))
  obtain ⟨topic, found⟩ := find_of_messages held
  refine ⟨topic, found, restart_named recovers _ _ found, fun partition => ?_⟩
  simpa [Broker.messages, found] using messages entry.topic partition

/-- Topics that are single path components have their own logs below the data directory,
and no others lie where a restart looks for them; every topic with an acknowledged record
comes back under its own name. -/
theorem topics_keep_their_logs {σ : Type} (config : StoreConfig) (noNul : 0 ∉ config.dataDir)
    {disk : FileSystem} (fresh : FreshStore (resolve config.dataDir) disk) (peer : σ) :
    (∀ log : TopicLog, log.dataDir = config.dataDir → Accepted log.topic log.partitionId →
        (resolve log.logPath = resolve config.dataDir ++ [log.topic, partitionFile log.partitionId] ↔
          ValidName log.topic)) ∧
      (∀ first second : TopicLog, first.dataDir = config.dataDir →
        second.dataDir = config.dataDir → Accepted first.topic first.partitionId →
        Accepted second.topic second.partitionId → ValidName first.topic →
        ValidName second.topic →
        (first.topic, first.partitionId) ≠ (second.topic, second.partitionId) →
        resolve first.logPath ≠ resolve second.logPath) ∧
      ∃ initial, storeStart config disk peer = some initial ∧
        ∀ events : List (StoreEvent σ),
          Transition.StepsMeet (fun state event => event.Safe config state) (storeStep config)
            initial events →
          ∃ final recovered, Transition.run (storeStep config) initial events = some final ∧
            restart config final.world = some recovered ∧
            ∀ entry ∈ final.history, entry.acknowledged = true →
              ∃ topic, recovered.broker.topics.find entry.topic = some topic ∧
                topic.name = entry.topic ∧ ∀ partition,
                  (acknowledged final.history entry.topic partition).Sublist
                    (topic.messages partition) := by
  refine ⟨?_, ?_, ?_⟩
  · intro log sameDir accepted
    rw [← sameDir]
    exact resolve_logPath_iff log (sameDir ▸ noNul)
  · intro first second firstDir secondDir firstAccepted secondAccepted firstValid secondValid
      different
    exact logPath_separate (firstDir.trans secondDir.symm) (firstDir ▸ noNul) firstValid
      secondValid firstAccepted.range secondAccepted.range different
  · obtain ⟨initial, started, runs⟩ := safe_run_durable config noNul fresh peer
    refine ⟨initial, started, fun events safe => ?_⟩
    obtain ⟨final, finished, durable⟩ := runs events safe
    obtain ⟨recovered, recovers, topics⟩ := durable.topic noNul
    exact ⟨final, recovered, finished, recovers, topics⟩

def namedRun : List (StoreEvent Unit) :=
  [produceAlone "PRODUCE t 0 a" (failedCalls 3), .crash,
    produceAlone "PRODUCE t 0 b" (smoothCalls 9), produceAlone "PRODUCE u.v 2 c" (smoothCalls 9)]

theorem topics_keep_their_logs_repaired :
    ∃ initial final recovered, storeStart standaloneConfig ∅ () = some initial ∧
      Transition.run (storeStep standaloneConfig) initial namedRun = some final ∧
      restart standaloneConfig final.world = some recovered ∧
      ∀ entry ∈ final.history, entry.acknowledged = true →
        ∃ topic, recovered.broker.topics.find entry.topic = some topic ∧
          topic.name = entry.topic ∧ ∀ partition,
            (acknowledged final.history entry.topic partition).Sublist
              (topic.messages partition) := by
  obtain ⟨_, _, initial, started, runs⟩ := topics_keep_their_logs standaloneConfig (by decide)
    (freshStore_empty _) ()
  have safe : ∀ start ∈ storeStart standaloneConfig ∅ (),
      Transition.StepsMeet (fun state event => StoreEvent.Safe standaloneConfig state event)
        (storeStep standaloneConfig) start namedRun := by
    decide +kernel
  obtain ⟨final, recovered, finished, recovers, topics⟩ := runs namedRun (safe initial started)
  exact ⟨initial, final, recovered, started, finished, recovers, topics⟩

/-- The log of `a/b` lies a level too deep for the recovery. -/
theorem nested_topic_lost :
    ∃ initial final recovered, storeStart standaloneConfig ∅ () = some initial ∧
      Transition.run (storeStep standaloneConfig) initial
        [produceAlone "PRODUCE a/b 0 x" (smoothCalls 9)] = some final ∧
      restart standaloneConfig final.world = some recovered ∧
      (∃ entry ∈ final.history, entry.acknowledged = true ∧ entry.topic = ascii "a/b") ∧
      recovered.broker.topics.find (ascii "a/b") = none := by
  have evaluated : ((storeStart standaloneConfig ∅ ()).bind fun initial =>
      (Transition.run (storeStep standaloneConfig) initial
        [produceAlone "PRODUCE a/b 0 x" (smoothCalls 9)]).bind fun final =>
      (restart standaloneConfig final.world).map fun recovered =>
        (final.history, (recovered.broker.topics.find (ascii "a/b")).isSome)) =
      some ([⟨ascii "a/b", 0, ascii "x", true⟩], false) := by
    decide +kernel
  simp only [Option.bind_eq_some_iff, Option.map_eq_some_iff, Prod.mk.injEq] at evaluated
  obtain ⟨initial, started, final, finished, recovered, recovers, acked, lost⟩ := evaluated
  refine ⟨initial, final, recovered, started, finished, recovers, ?_, ?_⟩
  · rw [acked]
    exact ⟨_, List.mem_singleton_self _, rfl, rfl⟩
  · simpa using lost

end KafkaBroker
