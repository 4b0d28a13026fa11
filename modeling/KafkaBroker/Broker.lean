import KafkaBroker.BrokerCore
import KafkaBroker.StoreLayout

/-!
Specification of the broker's in-memory operations: what a push does to every
partition, and what each request handler of `BrokerCore` answers and changes.
-/

namespace KafkaBroker

open ByteText Posix

/-! Topics. -/

theorem hasPartition_iff (topic : Topic) (partition : Int) :
    topic.hasPartition partition = true ↔
      0 ≤ partition ∧ partition < topic.partitions.length := by
  simp [Topic.hasPartition]

def Topic.Regular (topic : Topic) : Prop :=
  topic.partitions.map Partition.id = (List.range kDefaultPartitionCount).map Int.ofNat

theorem Topic.Regular.length {topic : Topic} (regular : topic.Regular) :
    topic.partitions.length = kDefaultPartitionCount := by
  have sizes := congrArg List.length regular
  simpa using sizes

theorem Topic.Regular.hasPartition {topic : Topic} (regular : topic.Regular) (partition : Int) :
    topic.hasPartition partition = true ↔ InRange partition := by
  rw [hasPartition_iff, regular.length, InRange]

theorem create_regular (name : Bytes) : (Topic.create name).Regular := by
  rfl

@[simp] theorem create_messages (name : Bytes) (partition : Int) :
    (Topic.create name).messages partition = [] := by
  unfold Topic.messages
  split
  · rename_i present
    rw [(create_regular name).hasPartition] at present
    obtain ⟨lower, upper⟩ := present
    have cases : partition = 0 ∨ partition = 1 ∨ partition = 2 := by
      simp only [kDefaultPartitionCount] at upper
      omega
    rcases cases with rfl | rfl | rfl <;> rfl
  · rfl

theorem messages_modify (topic : Topic) {partition : Int}
    (present : topic.hasPartition partition = true) (change : Partition → Partition)
    (added : List Bytes)
    (adds : ∀ stored, (change stored).messages = stored.messages ++ added) (query : Int) :
    ({ topic with partitions := topic.partitions.modify partition.toNat change } : Topic).messages
        query =
      if query = partition then topic.messages partition ++ added else topic.messages query := by
  rw [hasPartition_iff] at present
  have bound : partition.toNat < topic.partitions.length := by omega
  unfold Topic.messages Topic.hasPartition
  simp only [List.length_modify, decide_eq_true_eq, List.getElem?_modify]
  by_cases same : query = partition
  · subst same
    simp [present, adds]
  · simp only [same, if_false]
    split
    · rename_i range
      have different : partition.toNat ≠ query.toNat := by omega
      simp [different]
    · rfl

theorem messages_push (topic : Topic) {partition : Int}
    (present : topic.hasPartition partition = true) (payload : Bytes) (query : Int) :
    (topic.push partition payload).messages query =
      if query = partition then topic.messages partition ++ [payload]
      else topic.messages query :=
  messages_modify topic present _ [payload] (fun _ => rfl) query

theorem map_id_modify (partitions : List Partition) (index : Nat)
    {change : Partition → Partition}
    (keeps : ∀ stored, partitions[index]? = some stored → (change stored).id = stored.id) :
    (partitions.modify index change).map Partition.id = partitions.map Partition.id := by
  apply List.ext_getElem?
  intro position
  simp only [List.getElem?_map, List.getElem?_modify]
  by_cases here : index = position
  · subst here
    cases found : partitions[index]? with
    | none => simp
    | some stored => simp [keeps stored found]
  · simp [here]

theorem push_regular {topic : Topic} (regular : topic.Regular) (partition : Int)
    (payload : Bytes) : (topic.push partition payload).Regular := by
  have kept : (topic.push partition payload).partitions.map Partition.id =
      topic.partitions.map Partition.id := by
    apply map_id_modify
    intro stored _
    rfl
  exact kept.trans regular

/-! The topic table. -/

def Broker.Regular (broker : Broker) : Prop :=
  ∀ name topic, broker.topics.find name = some topic → topic.Regular

def Broker.topicOf (broker : Broker) (name : Bytes) : Topic :=
  (broker.topics.find name).getD (Topic.create name)

theorem topicOf_regular {broker : Broker} (regular : broker.Regular) (name : Bytes) :
    (broker.topicOf name).Regular := by
  unfold Broker.topicOf
  cases found : broker.topics.find name with
  | none => exact create_regular name
  | some topic => exact regular name topic found

theorem topicOf_messages (broker : Broker) (name : Bytes) (partition : Int) :
    (broker.topicOf name).messages partition = broker.messages name partition := by
  unfold Broker.topicOf Broker.messages
  cases broker.topics.find name with
  | none => simp
  | some topic => rfl

theorem messages_outside {broker : Broker} (regular : broker.Regular) (topic : Bytes)
    {partition : Int} (outside : ¬InRange partition) : broker.messages topic partition = [] := by
  unfold Broker.messages
  split
  · rfl
  · rename_i stored found
    rw [Topic.messages, if_neg]
    rwa [(regular topic stored found).hasPartition]

theorem topics_emplace_find (broker : Broker) (name : Bytes) :
    ((broker.topics.emplace name (Topic.create name)).find name).getD (Topic.create name) =
      broker.topicOf name := by
  simp [Broker.topicOf]

theorem messages_emplace (broker : Broker) (name query : Bytes) (partition : Int) :
    ({ broker with topics := broker.topics.emplace name (Topic.create name) } : Broker).messages
      query partition = broker.messages query partition := by
  unfold Broker.messages
  simp only [Table.find_emplace]
  by_cases same : query = name
  · subst same
    cases broker.topics.find query <;> simp
  · simp [same]

theorem find_pushed (broker : Broker) (name query : Bytes) (topic : Topic) :
    ((broker.topics.emplace name (Topic.create name)).set name topic).find query =
      if query = name then some topic else broker.topics.find query := by
  rw [Table.find_set, Table.find_emplace]
  split <;> rfl

theorem messages_pushed (broker : Broker) {name : Bytes} {partition : Int}
    (present : (broker.topicOf name).hasPartition partition = true) (payload : Bytes)
    (progress : Table TopicPartition Nat) (query : Bytes) (queryPartition : Int) :
    ({ broker with
      replicationProgress := progress
      topics := (broker.topics.emplace name (Topic.create name)).set name
        ((broker.topicOf name).push partition payload) } : Broker).messages query queryPartition =
      broker.messages query queryPartition ++
        if query = name ∧ queryPartition = partition then [payload] else [] := by
  by_cases same : query = name
  · subst same
    simp only [Broker.messages, find_pushed, if_true, true_and,
      messages_push _ present payload queryPartition]
    split
    · rename_i here
      rw [here, topicOf_messages]
      rfl
    · rw [topicOf_messages, List.append_nil]
      rfl
  · simp [Broker.messages, same]

theorem emplace_regular {broker : Broker} (regular : broker.Regular) (name : Bytes) :
    ({ broker with topics := broker.topics.emplace name (Topic.create name) } : Broker).Regular := by
  intro query topic found
  simp only [Table.find_emplace] at found
  split at found
  · simp only [Option.some.injEq] at found
    exact found ▸ topicOf_regular regular name
  · exact regular query topic found

/-- One record is at the end of one partition of `after`; the rest is as in `before`. -/
structure Pushed (req : Request) (before after : Broker) : Prop where
  regular : after.Regular
  stored : (after.topics.find req.topic).isSome
  kept : ∀ name, (before.topics.find name).isSome → (after.topics.find name).isSome
  messages : ∀ name partition, after.messages name partition =
    before.messages name partition ++
      if name = req.topic ∧ partition = req.partition then [req.payload] else []
  groups : after.consumerGroups = before.consumerGroups
  role : after.role = before.role
  port : after.followerPort = before.followerPort
  dir : after.dataDir = before.dataDir

theorem push_pushed {broker : Broker} (regular : broker.Regular) {req : Request}
    (range : InRange req.partition) (progress : Table TopicPartition Nat) :
    Pushed req broker { broker with
      replicationProgress := progress
      topics := (broker.topics.emplace req.topic (Topic.create req.topic)).set req.topic
        ((broker.topicOf req.topic).push req.partition req.payload) } := by
  refine ⟨?_, by simp, ?_, ?_, rfl, rfl, rfl, rfl⟩
  · intro name topic stored
    simp only [find_pushed] at stored
    split at stored
    · rw [Option.some.injEq] at stored
      exact stored ▸ push_regular (topicOf_regular regular req.topic) req.partition req.payload
    · exact regular name topic stored
  · intro name present
    simp only [find_pushed]
    split
    · rfl
    · exact present
  · intro name partition
    have present := ((topicOf_regular regular req.topic).hasPartition req.partition).mpr range
    exact messages_pushed broker present req.payload progress name partition

/-! Appending to the log. -/

/-- What one append request leaves of its record on disk. -/
structure Logged (dataDir : Bytes) (req : Request) (before after : FileSystem)
    (written : Bytes) : Prop where
  cut : written <+: serializeRecord ⟨req.payload⟩
  layout : StoreLayout (resolve dataDir) after
  extended : Extends (logFile (resolve dataDir) req.topic req.partition) written before after

structure Appendable (broker : Broker) (disk : FileSystem) (req : Request) : Prop where
  noNul : 0 ∉ broker.dataDir
  layout : StoreLayout (resolve broker.dataDir) disk
  regular : broker.Regular
  valid : ValidName req.topic
  range : InRange req.partition

theorem Appendable.append {broker : Broker} {disk : FileSystem} {req : Request}
    (ready : Appendable broker disk req) (calls : AppendCalls) :
    ∃ log written, TopicLog.create req.topic req.partition broker.dataDir = some log ∧
      Logged broker.dataDir req disk (log.append ⟨req.payload⟩ calls disk).2 written ∧
      ((log.append ⟨req.payload⟩ calls disk).1 = .returned () →
        written = serializeRecord ⟨req.payload⟩) ∧
      (calls.Unfailing → (log.append ⟨req.payload⟩ calls disk).1 ≠ .threw) := by
  obtain ⟨noNul, layout, _, valid, range⟩ := ready
  let log : TopicLog := ⟨req.topic, req.partition, broker.dataDir, valid.1, range.1⟩
  obtain ⟨written, result⟩ := append_result log noNul valid range layout ⟨req.payload⟩ calls
  refine ⟨log, written, ?_, ⟨result.cut, result.layout, result.extended⟩, result.complete,
    append_ne_threw log noNul valid range layout ⟨req.payload⟩⟩
  simp [TopicLog.create, valid.1, range.1, log]

/-! The handlers that append. -/

theorem appendLocal_spec {broker : Broker} {disk : FileSystem} {req : Request}
    (ready : Appendable broker disk req) (calls : AppendCalls) :
    ∃ written, Logged broker.dataDir req disk (appendLocal broker disk calls req).2.2 written ∧
      Pushed req broker (appendLocal broker disk calls req).2.1 ∧
      ((appendLocal broker disk calls req).1 =
          .returned (some (broker.messages req.topic req.partition).length) ∧
            written = serializeRecord ⟨req.payload⟩ ∨
        (appendLocal broker disk calls req).1 = .threw ∧ ¬calls.Unfailing ∨
        (appendLocal broker disk calls req).1 = .crashed) := by
  obtain ⟨log, written, created, logged, whole, fine⟩ := ready.append calls
  have present := ((topicOf_regular ready.regular req.topic).hasPartition req.partition).mpr
    ready.range
  have pushed := push_pushed ready.regular ready.range broker.replicationProgress
  simp only [appendLocal, topics_emplace_find, present, Bool.not_true, Bool.false_eq_true,
    if_false, created, topicOf_messages]
  cases ended : (log.append ⟨req.payload⟩ calls disk).1 with
  | returned _ => exact ⟨written, logged, pushed, Or.inl ⟨rfl, whole ended⟩⟩
  | threw => exact ⟨written, logged, pushed, Or.inr (Or.inl ⟨rfl, fun unfailing =>
      fine unfailing ended⟩)⟩
  | crashed => exact ⟨written, logged, pushed, Or.inr (Or.inr rfl)⟩

theorem produce_spec {σ : Type} (env : Environment σ) {world : World σ} {req : Request}
    (ready : Appendable world.broker world.disk req) :
    ∃ written, Logged world.broker.dataDir req world.disk (produce env world req).2.disk written ∧
      Pushed req world.broker (produce env world req).2.broker ∧
      ((∃ reply, (produce env world req).1 = .returned reply ∧
          written = serializeRecord ⟨req.payload⟩ ∧
          (world.broker.replicates = false → reply = (ascii "OK", true))) ∨
        (produce env world req).1 = .threw ∧ ¬env.calls.Unfailing ∨
        (produce env world req).1 = .crashed) := by
  obtain ⟨written, logged, pushed, outcome⟩ := appendLocal_spec ready env.calls
  refine ⟨written, ?_⟩
  simp only [produce]
  rcases outcome with ⟨ended, whole⟩ | ⟨ended, failing⟩ | ended
  · simp only [ended]
    cases replicates : world.broker.replicates with
    | false =>
        simp only [Bool.false_eq_true, if_false]
        exact ⟨logged, pushed, Or.inl ⟨_, rfl, whole, fun _ => rfl⟩⟩
    | true =>
        simp only [if_true]
        split
        · exact ⟨logged, pushed, Or.inl ⟨_, rfl, whole, by simp⟩⟩
        · exact ⟨logged, pushed, Or.inl ⟨_, rfl, whole, by simp⟩⟩
  · simp only [ended]
    exact ⟨logged, pushed, Or.inr (Or.inl ⟨trivial, failing⟩)⟩
  · simp only [ended]
    exact ⟨logged, pushed, Or.inr (Or.inr trivial)⟩

theorem replicate_spec {broker : Broker} {disk : FileSystem} {req : Request}
    (ready : Appendable broker disk req) (follower : broker.role = .follower)
    (calls : AppendCalls) :
    ∃ written, Logged broker.dataDir req disk (replicate calls broker disk req).2.2 written ∧
      ((replicate calls broker disk req).1 = .returned (ascii "OK", true) ∧
          written = serializeRecord ⟨req.payload⟩ ∧
          Pushed req broker (replicate calls broker disk req).2.1 ∧
          (replicate calls broker disk req).2.1.replicationProgress =
            broker.replicationProgress.set ⟨req.topic, req.partition⟩ req.offset ∨
        ((replicate calls broker disk req).1 = .returned (ascii "ERROR", false) ∧
            ¬calls.Unfailing ∨ (replicate calls broker disk req).1 = .crashed) ∧
          (replicate calls broker disk req).2.1 =
            { broker with
              topics := broker.topics.emplace req.topic (Topic.create req.topic) }) := by
  obtain ⟨log, written, created, logged, whole, fine⟩ := ready.append calls
  have present := ((topicOf_regular ready.regular req.topic).hasPartition req.partition).mpr
    ready.range
  have pushed := push_pushed ready.regular ready.range
    (broker.replicationProgress.set ⟨req.topic, req.partition⟩ req.offset)
  have follows : ¬broker.role ≠ .follower := not_not_intro follower
  simp only [replicate, follows, topics_emplace_find, present, Bool.not_true, Bool.false_eq_true,
    if_false, created]
  cases ended : (log.append ⟨req.payload⟩ calls disk).1 with
  | returned _ => exact ⟨written, logged, Or.inl ⟨rfl, whole ended, pushed, rfl⟩⟩
  | threw => exact ⟨written, logged, Or.inr ⟨Or.inl ⟨rfl, fun unfailing =>
      fine unfailing ended⟩, rfl⟩⟩
  | crashed => exact ⟨written, logged, Or.inr ⟨Or.inr rfl, rfl⟩⟩

def AppendSucceeds (dataDir : Bytes) (disk : FileSystem) (calls : AppendCalls) (req : Request) :
    Prop :=
  ∃ log, TopicLog.create req.topic req.partition dataDir = some log ∧
    (log.append ⟨req.payload⟩ calls disk).1 = .returned ()

instance (dataDir : Bytes) (disk : FileSystem) (calls : AppendCalls) (req : Request) :
    Decidable (AppendSucceeds dataDir disk calls req) :=
  decidable_of_iff (∃ log ∈ TopicLog.create req.topic req.partition dataDir,
    (log.append ⟨req.payload⟩ calls disk).1 = .returned ()) Iff.rfl

theorem appendLocal_returned {broker : Broker} {disk : FileSystem} {calls : AppendCalls}
    {req : Request} {offset : Nat}
    (ended : (appendLocal broker disk calls req).1 = .returned (some offset)) :
    AppendSucceeds broker.dataDir disk calls req ∧
      offset = (broker.messages req.topic req.partition).length ∧
      ∀ topic partition, (appendLocal broker disk calls req).2.1.messages topic partition =
        broker.messages topic partition ++
          if topic = req.topic ∧ partition = req.partition then [req.payload] else [] := by
  by_cases present : (broker.topicOf req.topic).hasPartition req.partition = true
  · have pushed := messages_pushed broker present req.payload broker.replicationProgress
    simp only [appendLocal, topics_emplace_find, present, Bool.not_true, Bool.false_eq_true,
      if_false, topicOf_messages] at ended ⊢
    cases created : TopicLog.create req.topic req.partition broker.dataDir with
    | none => simp [created] at ended
    | some log =>
        simp only [created] at ended ⊢
        cases appended : (log.append ⟨req.payload⟩ calls disk).1 with
        | threw => simp [appended] at ended
        | crashed => simp [appended] at ended
        | returned done =>
            simp only [appended, Outcome.returned.injEq, Option.some.injEq] at ended ⊢
            exact ⟨⟨log, created, appended⟩, ended.symm, pushed⟩
  · have absent : (broker.topicOf req.topic).hasPartition req.partition = false := by
      simpa using present
    simp only [appendLocal, topics_emplace_find, absent, Bool.not_false, if_true] at ended
    simp at ended

theorem replicate_rejected {broker : Broker} {disk : FileSystem} {req : Request}
    (regular : broker.Regular)
    (rejected : ¬(broker.role = .follower ∧ InRange req.partition)) (calls : AppendCalls) :
    (replicate calls broker disk req).1 = .returned (ascii "ERROR", false) ∧
      (replicate calls broker disk req).2.2 = disk ∧
      ((replicate calls broker disk req).2.1 = broker ∨
        (replicate calls broker disk req).2.1 =
          { broker with topics := broker.topics.emplace req.topic (Topic.create req.topic) }) := by
  by_cases follower : broker.role = .follower
  · have absent : (broker.topicOf req.topic).hasPartition req.partition = false := by
      rw [Bool.eq_false_iff, ne_eq, (topicOf_regular regular req.topic).hasPartition]
      exact fun range => rejected ⟨follower, range⟩
    have follows : ¬broker.role ≠ .follower := not_not_intro follower
    simp only [replicate, follows, if_false, topics_emplace_find, absent, Bool.not_false, if_true,
      true_and]
    exact Or.inr trivial
  · simp [replicate, follower]

/-! The switch. -/

theorem dispatch_quiet {σ : Type} (env : Environment σ) (world : World σ) {req : Request}
    (notProduce : req.type ≠ .produce) (notReplicate : req.type ≠ .replicate) :
    ∃ reply groups, dispatch env world req = (.returned reply, withGroups world groups) := by
  unfold dispatch
  split
  · exact ⟨_, world.broker.consumerGroups, rfl⟩
  · exact ⟨_, world.broker.consumerGroups, rfl⟩
  · exact ⟨_, world.broker.consumerGroups, rfl⟩
  · rename_i produced
    exact absurd produced notProduce
  · rename_i replicated
    exact absurd replicated notReplicate
  · exact ⟨_, world.broker.consumerGroups, rfl⟩
  · exact ⟨_, _, rfl⟩
  · exact ⟨_, _, rfl⟩
  · exact ⟨_, world.broker.consumerGroups, rfl⟩
  · exact ⟨_, _, rfl⟩
  · exact ⟨_, world.broker.consumerGroups, rfl⟩

theorem handleRequest_eq {σ : Type} (env : Environment σ) (world : World σ) (req : Request) :
    ∃ metrics, (handleRequest env world req).2 = { (dispatch env world req).2 with
        broker := { (dispatch env world req).2.broker with metrics } } ∧
      (∀ response, (handleRequest env world req).1 = .returned response ↔
        ∃ success, (dispatch env world req).1 = .returned (response, success)) ∧
      ((handleRequest env world req).1 = .threw ↔ (dispatch env world req).1 = .threw) ∧
      ((handleRequest env world req).1 = .crashed ↔ (dispatch env world req).1 = .crashed) := by
  simp only [handleRequest]
  cases ended : (dispatch env world req).1 with
  | threw => exact ⟨(dispatch env world req).2.broker.metrics, by simp⟩
  | crashed => exact ⟨(dispatch env world req).2.broker.metrics, by simp⟩
  | returned reply =>
      obtain ⟨response, success⟩ := reply
      exact ⟨_, rfl, by simp, by simp, by simp⟩

/-! Messages after any request. -/

def Appended (req : Request) (before after : Broker) : Prop :=
  (∀ topic partition, after.messages topic partition = before.messages topic partition) ∨
    ∀ topic partition, after.messages topic partition = before.messages topic partition ++
      if topic = req.topic ∧ partition = req.partition then [req.payload] else []

theorem Appended.list {req : Request} {before after : Broker} (appended : Appended req before after)
    (topic : Bytes) (partition : Int) :
    after.messages topic partition = before.messages topic partition ∨
      after.messages topic partition = before.messages topic partition ++ [req.payload] := by
  rcases appended with same | pushed
  · exact Or.inl (same topic partition)
  · rw [pushed]
    split
    · exact Or.inr rfl
    · exact Or.inl (List.append_nil _)

theorem appendLocal_appended (broker : Broker) (disk : FileSystem) (calls : AppendCalls)
    (req : Request) : Appended req broker (appendLocal broker disk calls req).2.1 := by
  simp only [appendLocal, topics_emplace_find]
  split
  · exact Or.inl (messages_emplace broker req.topic)
  · rename_i present
    have pushed := messages_pushed broker (by simpa using present) req.payload
      broker.replicationProgress
    split
    · exact Or.inr pushed
    · split <;> exact Or.inr pushed

theorem replicate_appended (calls : AppendCalls) (broker : Broker) (disk : FileSystem)
    (req : Request) : Appended req broker (replicate calls broker disk req).2.1 := by
  have created := messages_emplace broker req.topic
  simp only [replicate, topics_emplace_find]
  split
  · exact Or.inl fun _ _ => rfl
  · split
    · exact Or.inl created
    · rename_i present
      split
      · exact Or.inl created
      · split
        · exact Or.inl created
        · exact Or.inl created
        · exact Or.inr (messages_pushed broker (by simpa using present) req.payload _)

theorem replicate_unchanged {calls : AppendCalls} {broker : Broker} {disk : FileSystem}
    {req : Request}
    (fails : ¬(broker.role = .follower ∧ AppendSucceeds broker.dataDir disk calls req))
    (topic : Bytes) (partition : Int) :
    (replicate calls broker disk req).2.1.messages topic partition =
      broker.messages topic partition := by
  have created := messages_emplace broker req.topic topic partition
  simp only [replicate]
  split
  · rfl
  · rename_i follower
    rw [not_not] at follower
    split
    · exact created
    · split
      · exact created
      · rename_i log found
        split
        · exact created
        · exact created
        · rename_i done ended
          exact absurd ⟨follower, log, found, ended⟩ fails

theorem produce_appended {σ : Type} (env : Environment σ) (world : World σ) (req : Request) :
    Appended req world.broker (produce env world req).2.broker := by
  have appended := appendLocal_appended world.broker world.disk env.calls req
  simp only [produce]
  split
  · exact appended
  · exact appended
  · exact appended
  · split
    · split <;> exact appended
    · exact appended

theorem handleRequest_messages {σ : Type} (env : Environment σ) (world : World σ) (req : Request)
    (topic : Bytes) (partition : Int) :
    (handleRequest env world req).2.broker.messages topic partition =
        world.broker.messages topic partition ∨
      (req.type = .produce ∨ req.type = .replicate) ∧
        (handleRequest env world req).2.broker.messages topic partition =
          world.broker.messages topic partition ++ [req.payload] := by
  obtain ⟨metrics, after, _⟩ := handleRequest_eq env world req
  rw [after]
  by_cases produces : req.type = .produce
  · simp only [dispatch, produces]
    exact ((produce_appended env world req).list topic partition).imp_right fun appended =>
      ⟨Or.inl trivial, appended⟩
  by_cases replicates : req.type = .replicate
  · simp only [dispatch, replicates]
    exact ((replicate_appended env.calls world.broker world.disk req).list topic partition).imp_right
      fun appended => ⟨Or.inr trivial, appended⟩
  obtain ⟨reply, groups, quiet⟩ := dispatch_quiet env world produces replicates
  rw [quiet]
  exact Or.inl rfl

theorem fetch_reply (broker : Broker) (req : Request) :
    (fetch broker req).1 = ascii "ERROR" ∨
      (fetch broker req).1 =
        joinLines ((broker.messages req.topic req.partition).drop req.offset) := by
  simp only [fetch, Broker.messages]
  split
  · exact Or.inl rfl
  · split
    · exact Or.inl rfl
    · split
      · rename_i past
        rw [List.drop_eq_nil_of_le past]
        exact Or.inr rfl
      · exact Or.inr rfl

end KafkaBroker
