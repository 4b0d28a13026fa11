import KafkaBroker.Store

/-!
Requests that fail. An `ERROR` answer leaves the broker as it was, but for a `REPLICATE`
that names a new topic; a `PRODUCE` whose append throws leaves its record in memory.
-/

namespace KafkaBroker

open ByteText Posix

/-! Answers of `ERROR`. -/

/-- What later requests can see of a broker; its metrics apart. -/
structure SameView (before after : Broker) : Prop where
  topics : after.topics = before.topics
  groups : after.consumerGroups = before.consumerGroups
  progress : after.replicationProgress = before.replicationProgress
  role : after.role = before.role

theorem ok_ne_error : ascii "OK" ≠ ascii "ERROR" := by decide

theorem joinGroup_error {groups : ConsumerGroups} {req : Request}
    (answered : (joinGroup groups req).1 = ascii "ERROR") : (joinGroup groups req).2 = groups := by
  unfold joinGroup at answered ⊢
  cases found : groups.find req.groupId with
  | none =>
      simp only [Table.find_emplace, if_true, found, Option.getD_none, Option.getD_some,
        Table.find_empty, Option.isSome_none, Bool.false_eq_true, if_false] at answered
      exact absurd answered ok_ne_error
  | some group =>
      simp only [Table.emplace_of_find found, found, Option.getD_some] at answered ⊢
      split at answered
      · rename_i member
        rw [if_pos member]
      · exact absurd answered ok_ne_error

theorem leaveGroup_error {groups : ConsumerGroups} {req : Request}
    (answered : (leaveGroup groups req).1 = ascii "ERROR") :
    (leaveGroup groups req).2 = groups := by
  unfold leaveGroup at answered ⊢
  split
  · rfl
  · rename_i group found
    simp only [found] at answered
    split
    · rfl
    · rename_i member
      rw [if_neg member] at answered
      exact absurd answered ok_ne_error

theorem commitOffset_error {groups : ConsumerGroups} {count : Option Nat} {req : Request}
    (answered : (commitOffset groups count req).1 = ascii "ERROR") :
    (commitOffset groups count req).2 = groups := by
  unfold commitOffset at answered ⊢
  split
  · rfl
  · rename_i group found
    simp only [found] at answered
    split
    · rfl
    · rename_i member
      rw [if_neg member] at answered
      split
      · rfl
      · rename_i size
        split
        · rfl
        · rename_i inside
          simp only [if_neg inside] at answered
          exact absurd answered ok_ne_error

theorem produce_error {σ : Type} {env : Environment σ} {world : World σ} {req : Request}
    (range : InRange req.partition) (alone : world.broker.replicates = false) {success : Bool}
    (answered : (produce env world req).1 = .returned (ascii "ERROR", success)) :
    (produce env world req).2.broker = world.broker := by
  have outcome : (appendLocal world.broker world.disk env.calls req).1 = .returned none := by
    simp only [produce, alone] at answered
    split at answered
    · simp at answered
    · simp at answered
    · assumption
    · simp at answered
      exact absurd answered.1 ok_ne_error
  simp only [produce, outcome]
  by_cases present : (world.broker.topicOf req.topic).hasPartition req.partition = true
  · simp only [appendLocal, topics_emplace_find, present, Bool.not_true, Bool.false_eq_true,
      if_false] at outcome
    split at outcome
    · simp at outcome
    · split at outcome <;> simp at outcome
  · cases found : world.broker.topics.find req.topic with
    | none =>
        rw [Broker.topicOf, found] at present
        exact absurd (((create_regular req.topic).hasPartition req.partition).mpr range) present
    | some topic =>
        have absent : (world.broker.topicOf req.topic).hasPartition req.partition = false := by
          simpa using present
        simp only [appendLocal, topics_emplace_find, absent, Bool.not_false, if_true]
        rw [Table.emplace_of_find found]

theorem replicate_error {calls : AppendCalls} {broker : Broker} {disk : FileSystem} {req : Request}
    {success : Bool}
    (answered : (replicate calls broker disk req).1 = .returned (ascii "ERROR", success)) :
    (replicate calls broker disk req).2.1 = if broker.role = .follower then
        { broker with topics := broker.topics.emplace req.topic (Topic.create req.topic) }
      else broker := by
  by_cases follower : broker.role = .follower
  · have follows : ¬broker.role ≠ .follower := not_not_intro follower
    simp only [replicate, follows, if_false] at answered ⊢
    rw [if_pos follower]
    split
    · rfl
    · rename_i present
      rw [if_neg present] at answered
      split
      · rfl
      · rename_i log created
        simp only [created] at answered
        split
        · rfl
        · rfl
        · rename_i done ended
          simp only [ended, Outcome.returned.injEq, Prod.mk.injEq] at answered
          exact absurd answered.1 ok_ne_error
  · simp [replicate, follower]

section View

variable {σ : Type} {env : Environment σ} {world : World σ} {req : Request}

theorem dispatch_error (range : req.type = .produce → InRange req.partition)
    (alone : ¬(req.type = .produce ∧ world.broker.replicates = true)) {success : Bool}
    (answered : (dispatch env world req).1 = .returned (ascii "ERROR", success)) :
    (dispatch env world req).2.broker =
      if req.type = .replicate ∧ world.broker.role = .follower then
        { world.broker with
          topics := world.broker.topics.emplace req.topic (Topic.create req.topic) }
      else world.broker := by
  unfold dispatch at answered ⊢
  cases type : req.type with
  | produce =>
      simp only [type] at answered
      have single : world.broker.replicates = false := by
        simpa [type] using alone
      simpa using produce_error (range type) single answered
  | replicate =>
      simp only [type] at answered
      simpa using replicate_error answered
  | join =>
      simp only [type, Outcome.returned.injEq, Prod.mk.injEq] at answered
      simp [withGroups, joinGroup_error answered.1]
  | leave =>
      simp only [type, Outcome.returned.injEq, Prod.mk.injEq] at answered
      simp [withGroups, leaveGroup_error answered.1]
  | commit =>
      simp only [type, Outcome.returned.injEq, Prod.mk.injEq] at answered
      simp [withGroups, commitOffset_error answered.1]
  | ping => simp
  | metrics => simp
  | replicationProgress => simp
  | fetch => simp
  | groupPoll => simp
  | invalid => simp

/-- A request that neither appends nor reports the metrics. -/
def Request.Plain (req : Request) : Prop :=
  req.type ≠ .produce ∧ req.type ≠ .replicate ∧ req.type ≠ .metrics

theorem handleRequest_view {other : World σ} (same : SameView world.broker other.broker)
    (plain : req.Plain) (env : Environment σ) :
    (handleRequest env other req).1 = (handleRequest env world req).1 ∧
      SameView (handleRequest env world req).2.broker (handleRequest env other req).2.broker := by
  obtain ⟨topics, groups, progress, role⟩ := same
  obtain ⟨notProduce, notReplicate, notMetrics⟩ := plain
  unfold handleRequest dispatch
  cases type : req.type with
  | produce => exact absurd type notProduce
  | replicate => exact absurd type notReplicate
  | metrics => exact absurd type notMetrics
  | join => simp [withGroups, groups, topics, progress, role, SameView.mk]
  | leave => simp [withGroups, groups, topics, progress, role, SameView.mk]
  | commit => simp [withGroups, groups, topics, progress, role, SameView.mk]
  | ping => simp [groups, topics, progress, role, SameView.mk]
  | replicationProgress =>
      simp [replicationProgressReply, getReplicationProgress, groups, topics, progress, role,
        SameView.mk]
  | fetch => simp [fetch, groups, topics, progress, role, SameView.mk]
  | groupPoll => simp [groups, topics, progress, role, SameView.mk]
  | invalid => simp [groups, topics, progress, role, SameView.mk]

def answers (world : World σ) : List (Environment σ × Request) → List (Outcome Bytes)
  | [] => []
  | (env, req) :: rest =>
      let handled := handleRequest env world req
      handled.1 :: answers handled.2 rest

theorem answers_view {other : World σ} (same : SameView world.broker other.broker)
    {later : List (Environment σ × Request)} (plain : ∀ entry ∈ later, entry.2.Plain) :
    answers other later = answers world later := by
  induction later generalizing world other with
  | nil => rfl
  | cons entry rest ih =>
      obtain ⟨answer, next⟩ := handleRequest_view same (plain entry (by simp)) entry.1
      simp only [answers, answer]
      rw [ih next fun following member => plain following (by simp [member])]

/-- A request answered with `ERROR` goes unnoticed, unless it is a `REPLICATE` to a follower
that does not know the topic yet. -/
theorem error_unnoticed_iff (env : Environment σ) (world : World σ) (raw : Bytes)
    (alone : ¬((parseRequest raw).type = .produce ∧ world.broker.replicates = true))
    (answered : (handleRequest env world (parseRequest raw)).1 = .returned (ascii "ERROR")) :
    SameView world.broker (handleRequest env world (parseRequest raw)).2.broker ∧
        (∀ later : List (Environment σ × Request), (∀ entry ∈ later, entry.2.Plain) →
          answers (handleRequest env world (parseRequest raw)).2 later = answers world later) ↔
      ¬((parseRequest raw).type = .replicate ∧ world.broker.role = .follower ∧
        world.broker.topics.find (parseRequest raw).topic = none) := by
  obtain ⟨metrics, after, returned, _⟩ := handleRequest_eq env world (parseRequest raw)
  obtain ⟨success, dispatched⟩ := (returned _).mp answered
  have left := dispatch_error (fun produces => (parseRequest_produce produces).2.1) alone dispatched
  constructor
  · rintro ⟨same, _⟩ ⟨replicates, follower, absent⟩
    have topics := same.topics
    rw [after] at topics
    simp only [left, replicates, follower, true_and, if_true] at topics
    have found := congrArg (fun table => table.find (parseRequest raw).topic) topics
    simp [absent] at found
  · intro known
    have same : SameView world.broker (handleRequest env world (parseRequest raw)).2.broker := by
      rw [after]
      simp only [left]
      split
      · rename_i creates
        cases found : world.broker.topics.find (parseRequest raw).topic with
        | none => exact absurd ⟨creates.1, creates.2, found⟩ known
        | some topic =>
            rw [Table.emplace_of_find found]
            exact ⟨rfl, rfl, rfl, rfl⟩
      · exact ⟨rfl, rfl, rfl, rfl⟩
    exact ⟨same, fun later plain => answers_view same plain⟩

end View

def silentEnv : Environment Unit := { link := fun peer _ => (peer, none), calls := smoothCalls 9 }

def followerConfig : StoreConfig := { standaloneConfig with role := .follower }

def joinedWorld : World Unit :=
  (handleRequest silentEnv ⟨{}, ∅, ()⟩ (parseRequest (ascii "JOIN g c t"))).2

theorem error_unnoticed_second_join :
    (handleRequest silentEnv joinedWorld (parseRequest (ascii "JOIN g c u"))).1 =
        .returned (ascii "ERROR") ∧
      SameView joinedWorld.broker
        (handleRequest silentEnv joinedWorld (parseRequest (ascii "JOIN g c u"))).2.broker := by
  have answered : (handleRequest silentEnv joinedWorld (parseRequest (ascii "JOIN g c u"))).1 =
      .returned (ascii "ERROR") := by
    decide +kernel
  exact ⟨answered, ((error_unnoticed_iff silentEnv joinedWorld (ascii "JOIN g c u")
    (by decide +kernel) answered).mpr (by decide +kernel)).1⟩

theorem error_creates_topic : ∃ initial, storeStart followerConfig ∅ () = some initial ∧
    (handleRequest silentEnv initial.world (parseRequest (ascii "REPLICATE t 7 0 x"))).1 =
      .returned (ascii "ERROR") ∧
    answers initial.world [(silentEnv, parseRequest (ascii "FETCH t 0 0"))] =
      [.returned (ascii "ERROR")] ∧
    answers (handleRequest silentEnv initial.world (parseRequest (ascii "REPLICATE t 7 0 x"))).2
      [(silentEnv, parseRequest (ascii "FETCH t 0 0"))] = [.returned []] := by
  have evaluated : (storeStart followerConfig ∅ ()).map (fun initial =>
      ((handleRequest silentEnv initial.world (parseRequest (ascii "REPLICATE t 7 0 x"))).1,
        answers initial.world [(silentEnv, parseRequest (ascii "FETCH t 0 0"))],
        answers (handleRequest silentEnv initial.world
          (parseRequest (ascii "REPLICATE t 7 0 x"))).2
          [(silentEnv, parseRequest (ascii "FETCH t 0 0"))])) =
      some (.returned (ascii "ERROR"), [.returned (ascii "ERROR")], [.returned []]) := by
    decide +kernel
  simp only [Option.map_eq_some_iff, Prod.mk.injEq] at evaluated
  exact evaluated

/-! Appends that throw. -/

theorem appendLocal_threw {broker : Broker} {disk : FileSystem} {calls : AppendCalls}
    {req : Request} (threw : (appendLocal broker disk calls req).1 = .threw) :
    (∀ log, TopicLog.create req.topic req.partition broker.dataDir = some log →
        (log.append ⟨req.payload⟩ calls disk).1 = .threw) ∧
      ∀ topic partition, (appendLocal broker disk calls req).2.1.messages topic partition =
        broker.messages topic partition ++
          if topic = req.topic ∧ partition = req.partition then [req.payload] else [] := by
  by_cases present : (broker.topicOf req.topic).hasPartition req.partition = true
  · have pushed := messages_pushed broker present req.payload broker.replicationProgress
    simp only [appendLocal, topics_emplace_find, present, Bool.not_true, Bool.false_eq_true,
      if_false] at threw ⊢
    cases created : TopicLog.create req.topic req.partition broker.dataDir with
    | none => exact ⟨by simp, pushed⟩
    | some log =>
        simp only [created] at threw ⊢
        cases ended : (log.append ⟨req.payload⟩ calls disk).1 with
        | returned _ => simp [ended] at threw
        | crashed => simp [ended] at threw
        | threw => exact ⟨by simpa using ended, pushed⟩
  · have absent : (broker.topicOf req.topic).hasPartition req.partition = false := by
      simpa using present
    simp only [appendLocal, topics_emplace_find, absent, Bool.not_false, if_true] at threw
    simp at threw

theorem produce_threw {σ : Type} {env : Environment σ} {world : World σ} {req : Request}
    (threw : (produce env world req).1 = .threw) :
    (appendLocal world.broker world.disk env.calls req).1 = .threw ∧
      (produce env world req).2.broker =
        (appendLocal world.broker world.disk env.calls req).2.1 := by
  simp only [produce] at threw ⊢
  split at threw
  · rename_i ended
    exact ⟨ended, by simp⟩
  · simp at threw
  · simp at threw
  · split at threw
    · split at threw <;> simp at threw
    · simp at threw

theorem handle_produce_threw {σ : Type} {env : Environment σ} {world : World σ} {req : Request}
    (produces : req.type = .produce) (threw : (handleRequest env world req).1 = .threw) :
    (∀ log, TopicLog.create req.topic req.partition world.broker.dataDir = some log →
        (log.append ⟨req.payload⟩ env.calls world.disk).1 = .threw) ∧
      ∀ topic partition, (handleRequest env world req).2.broker.messages topic partition =
        world.broker.messages topic partition ++
          if topic = req.topic ∧ partition = req.partition then [req.payload] else [] := by
  obtain ⟨metrics, after, _, threwIff, _⟩ := handleRequest_eq env world req
  have dispatched : dispatch env world req = produce env world req := by
    simp only [dispatch, produces]
  have left := threwIff.mp threw
  rw [dispatched] at left after
  obtain ⟨ended, broker⟩ := produce_threw left
  obtain ⟨thrown, pushed⟩ := appendLocal_threw ended
  rw [after]
  refine ⟨thrown, ?_⟩
  intro topic partition
  rw [← pushed topic partition, ← broker]
  rfl

theorem replicate_failed {calls : AppendCalls} {broker : Broker} {disk : FileSystem} {req : Request}
    {log : TopicLog} (created : TopicLog.create req.topic req.partition broker.dataDir = some log)
    (follower : broker.role = .follower)
    (present : (broker.topicOf req.topic).hasPartition req.partition = true) {success : Bool}
    (answered : (replicate calls broker disk req).1 = .returned (ascii "ERROR", success)) :
    (log.append ⟨req.payload⟩ calls disk).1 = .threw ∧
      (replicate calls broker disk req).2.2 = (log.append ⟨req.payload⟩ calls disk).2 := by
  have follows : ¬broker.role ≠ .follower := not_not_intro follower
  simp only [replicate, follows, if_false, topics_emplace_find, present, Bool.not_true,
    Bool.false_eq_true, created] at answered ⊢
  cases ended : (log.append ⟨req.payload⟩ calls disk).1 with
  | crashed => simp [ended] at answered
  | threw => exact ⟨rfl, rfl⟩
  | returned _ =>
      simp only [ended, Outcome.returned.injEq, Prod.mk.injEq] at answered
      exact absurd answered.1 ok_ne_error

/-! Runs in which no append throws. -/

/-- The append of a `PRODUCE` throws, or that of a `REPLICATE` does after some bytes of the
record have reached the log. -/
def AppendBreaks (config : StoreConfig) (disk : FileSystem) (calls : AppendCalls)
    (req : Request) : Prop :=
  ∃ log, TopicLog.create req.topic req.partition config.dataDir = some log ∧
    (log.append ⟨req.payload⟩ calls disk).1 = .threw ∧
    (req.type = .produce ∨ config.role = .follower ∧ InRange req.partition ∧
      logBytes (resolve config.dataDir) (log.append ⟨req.payload⟩ calls disk).2 req.topic
        req.partition ≠ logBytes (resolve config.dataDir) disk req.topic req.partition)

instance (config : StoreConfig) (disk : FileSystem) (calls : AppendCalls) (req : Request) :
    Decidable (AppendBreaks config disk calls req) :=
  decidable_of_iff (∃ log ∈ TopicLog.create req.topic req.partition config.dataDir,
    (log.append ⟨req.payload⟩ calls disk).1 = .threw ∧
    (req.type = .produce ∨ config.role = .follower ∧ InRange req.partition ∧
      logBytes (resolve config.dataDir) (log.append ⟨req.payload⟩ calls disk).2 req.topic
        req.partition ≠ logBytes (resolve config.dataDir) disk req.topic req.partition)) Iff.rfl

def StoreEvent.Unbroken {σ : Type} (config : StoreConfig) (state : StoreState σ) :
    StoreEvent σ → Prop
  | .crash => True
  | .request raw env => (parseRequest raw).appends = true → ValidName (parseRequest raw).topic ∧
      ¬AppendBreaks config state.world.disk env.calls (parseRequest raw)

instance {σ : Type} (config : StoreConfig) (state : StoreState σ) :
    ∀ event : StoreEvent σ, Decidable (event.Unbroken config state)
  | .crash => isTrue trivial
  | .request _ _ => inferInstanceAs (Decidable (_ → _ ∧ _))

/-- The messages in memory are those in the logs. -/
structure Mirrored {σ : Type} (config : StoreConfig) (world : World σ) : Prop where
  serving : Serving config world
  memory : ∀ topic partition, InRange partition →
    world.broker.messages topic partition = payloads (world.logBytes config topic partition)
  whole : ∀ topic partition, InRange partition → Whole (world.logBytes config topic partition)

theorem mirrored_restart {σ : Type} {config : StoreConfig} (noNul : 0 ∉ config.dataDir)
    {world : World σ} (layout : StoreLayout (resolve config.dataDir) world.disk) :
    ∃ next, restart config world = some next ∧ Mirrored config next ∧
      ∀ topic partition, InRange partition → next.broker.messages topic partition =
        payloads (world.logBytes config topic partition) := by
  obtain ⟨next, restarted, serving, _, logs⟩ := restart_spec noNul layout
  refine ⟨next, restarted, ⟨serving, ?_, ?_⟩, fun topic partition range =>
    (logs topic partition range).1⟩
  · intro topic partition range
    rw [(logs topic partition range).1, (logs topic partition range).2, payloads_repaired]
  · intro topic partition range
    rw [(logs topic partition range).2]
    exact repaired_repaired _

section Mirror

variable {σ : Type} {config : StoreConfig} (noNul : 0 ∉ config.dataDir) {world : World σ}
  (mirrored : Mirrored config world) (env : Environment σ) {raw : Bytes}
  (framed : ¬raw.length > kMaxPayloadSize)

structure Grown (config : StoreConfig) (before after : World σ) : Prop where
  mirrored : Mirrored config after
  messages : ∀ topic partition, before.broker.messages topic partition <+:
    after.broker.messages topic partition

include mirrored

theorem Mirrored.same {after : World σ} (serving : Serving config after)
    (messages : ∀ topic partition, after.broker.messages topic partition =
      world.broker.messages topic partition)
    (logs : ∀ topic partition, InRange partition → after.logBytes config topic partition =
      world.logBytes config topic partition) : Grown config world after := by
  refine ⟨⟨serving, ?_, ?_⟩, fun topic partition => by rw [messages]⟩
  · intro topic partition range
    rw [messages, logs topic partition range]
    exact mirrored.memory topic partition range
  · intro topic partition range
    rw [logs topic partition range]
    exact mirrored.whole topic partition range

theorem Mirrored.quiet (quiet : (parseRequest raw).appends = false) :
    (∃ response, (handleRequest env world (parseRequest raw)).1 = .returned response) ∧
      Grown config world (handleRequest env world (parseRequest raw)).2 := by
  obtain ⟨returned, serving, sameTopics, sameDisk⟩ := handle_quiet mirrored.serving env quiet
  refine ⟨returned, mirrored.same serving ?_ ?_⟩
  · intro topic partition
    rw [Broker.messages, Broker.messages, sameTopics]
  · intro topic partition _
    rw [World.logBytes, World.logBytes, sameDisk]

theorem Mirrored.logged {req : Request} (range : InRange req.partition)
    (fits : Record.Fits ⟨req.payload⟩) {after : FileSystem} {written : Bytes}
    (logged : Logged config.dataDir req world.disk after written) :
    written = serializeRecord ⟨req.payload⟩ ∧ (∀ topic partition, InRange partition →
        payloads (logBytes (resolve config.dataDir) after topic partition) =
          world.broker.messages topic partition ++
            (if topic = req.topic ∧ partition = req.partition then [req.payload] else []) ∧
        Whole (logBytes (resolve config.dataDir) after topic partition)) ∨
      written ≠ serializeRecord ⟨req.payload⟩ ∧ ∀ topic partition, InRange partition →
        payloads (logBytes (resolve config.dataDir) after topic partition) =
          world.broker.messages topic partition := by
  refine (logged.decoded range fits mirrored.whole).imp (And.imp_right fun logs => ?_)
    (And.imp_right fun logs => ?_)
  · intro topic partition queried
    rw [mirrored.memory topic partition queried]
    exact logs topic partition queried
  · intro topic partition queried
    rw [mirrored.memory topic partition queried]
    exact logs topic partition queried

theorem Mirrored.grows_of_range {after : World σ}
    (grows : ∀ topic partition, InRange partition → world.broker.messages topic partition <+:
      after.broker.messages topic partition) (topic : Bytes) (partition : Int) :
    world.broker.messages topic partition <+: after.broker.messages topic partition := by
  by_cases range : InRange partition
  · exact grows topic partition range
  · rw [messages_outside mirrored.serving.regular topic range]
    exact List.nil_prefix

include noNul

theorem Mirrored.crashed {req : Request} (range : InRange req.partition)
    (fits : Record.Fits ⟨req.payload⟩) {after : World σ} {written : Bytes}
    (logged : Logged config.dataDir req world.disk after.disk written) :
    ∃ next, restart config after = some next ∧ Grown config world next := by
  obtain ⟨next, restarted, again, messages⟩ := mirrored_restart noNul logged.layout
  refine ⟨next, restarted, again, mirrored.grows_of_range fun topic partition queried => ?_⟩
  rw [messages topic partition queried, World.logBytes]
  rcases mirrored.logged range fits logged with ⟨_, logs⟩ | ⟨_, logs⟩
  · rw [(logs topic partition queried).1]
    exact List.prefix_append _ _
  · rw [logs topic partition queried]

include framed

theorem Mirrored.produce (produces : (parseRequest raw).type = .produce)
    (valid : ValidName (parseRequest raw).topic)
    (unbroken : ¬AppendBreaks config world.disk env.calls (parseRequest raw)) :
    (∃ response, (handleRequest env world (parseRequest raw)).1 = .returned response) ∧
        Grown config world (handleRequest env world (parseRequest raw)).2 ∨
      (handleRequest env world (parseRequest raw)).1 = .crashed ∧ ∃ next,
        restart config (handleRequest env world (parseRequest raw)).2 = some next ∧
        Grown config world next := by
  obtain ⟨_, range, _, _, shorter⟩ := parseRequest_produce produces
  obtain ⟨written, logged, serving, _, _, messages, outcome⟩ :=
    handle_produce noNul mirrored.serving env produces valid range
  have fits := payload_fits framed shorter
  rcases outcome with ⟨response, returned, complete, _⟩ | ⟨threw, _⟩ | crashed
  · refine Or.inl ⟨⟨response, returned⟩, ?_⟩
    rcases mirrored.logged range fits logged with ⟨_, logs⟩ | ⟨torn, _⟩
    · refine ⟨⟨serving, ?_, fun topic partition queried => (logs topic partition queried).2⟩, ?_⟩
      · intro topic partition queried
        rw [messages, World.logBytes, (logs topic partition queried).1]
      · intro topic partition
        rw [messages]
        exact List.prefix_append _ _
    · exact absurd complete torn
  · obtain ⟨log, created⟩ : ∃ log, TopicLog.create (parseRequest raw).topic
        (parseRequest raw).partition config.dataDir = some log := by
      simp [TopicLog.create, valid.1, range.1]
    have thrown := (handle_produce_threw produces threw).1
    rw [mirrored.serving.dir] at thrown
    exact absurd ⟨log, created, thrown log created, Or.inl produces⟩ unbroken
  · exact Or.inr ⟨crashed, mirrored.crashed noNul range fits logged⟩

omit noNul framed in
theorem Mirrored.untouched {req : Request} (valid : ValidName req.topic)
    (follower : world.broker.role = .follower) (range : InRange req.partition)
    (unbroken : ¬AppendBreaks config world.disk env.calls req) {written : Bytes}
    (logged : Logged config.dataDir req world.disk
      (KafkaBroker.replicate env.calls world.broker world.disk req).2.2 written)
    {success : Bool} (answered : (KafkaBroker.replicate env.calls world.broker world.disk req).1 =
      .returned (ascii "ERROR", success)) (topic : Bytes) {partition : Int}
    (queried : InRange partition) :
    logBytes (resolve config.dataDir)
        (KafkaBroker.replicate env.calls world.broker world.disk req).2.2 topic partition =
      world.logBytes config topic partition := by
  have present := ((topicOf_regular mirrored.serving.regular req.topic).hasPartition
    req.partition).mpr range
  obtain ⟨log, created⟩ : ∃ log, TopicLog.create req.topic req.partition config.dataDir =
      some log := by
    simp [TopicLog.create, valid.1, range.1]
  obtain ⟨threw, disk⟩ := replicate_failed (mirrored.serving.dir.symm ▸ created) follower present
    answered
  by_cases here : topic = req.topic ∧ partition = req.partition
  · obtain ⟨rfl, rfl⟩ := here
    by_contra changed
    rw [disk] at changed
    exact unbroken ⟨log, created, threw,
      Or.inr ⟨mirrored.serving.role ▸ follower, range, changed⟩⟩
  · rw [logged.logBytes range topic queried, if_neg here, List.append_nil]
    rfl

theorem Mirrored.replicate (replicates : (parseRequest raw).type = .replicate)
    (valid : ValidName (parseRequest raw).topic)
    (unbroken : ¬AppendBreaks config world.disk env.calls (parseRequest raw)) :
    (∃ response, (handleRequest env world (parseRequest raw)).1 = .returned response) ∧
        Grown config world (handleRequest env world (parseRequest raw)).2 ∨
      (handleRequest env world (parseRequest raw)).1 = .crashed ∧ ∃ next,
        restart config (handleRequest env world (parseRequest raw)).2 = some next ∧
        Grown config world next := by
  obtain ⟨_, _, _, shorter⟩ := parseRequest_replicate replicates
  have fits := payload_fits framed shorter
  obtain ⟨serving, _⟩ := handle_replicate noNul mirrored.serving env replicates valid
  obtain ⟨metrics, after, returned, _, crashed⟩ := handleRequest_eq env world (parseRequest raw)
  have dispatched : dispatch env world (parseRequest raw) =
      ((KafkaBroker.replicate env.calls world.broker world.disk (parseRequest raw)).1,
        { world with
          broker := (KafkaBroker.replicate env.calls world.broker world.disk (parseRequest raw)).2.1
          disk := (KafkaBroker.replicate env.calls world.broker world.disk
            (parseRequest raw)).2.2 }) := by
    simp only [dispatch, replicates]
  rw [dispatched] at after returned crashed
  rw [after] at serving ⊢
  have created := messages_emplace world.broker (parseRequest raw).topic
  by_cases accepted : world.broker.role = .follower ∧ InRange (parseRequest raw).partition
  · obtain ⟨written, logged, outcome⟩ := replicate_spec
      (mirrored.serving.appendable noNul valid accepted.2) accepted.1 env.calls
    rw [mirrored.serving.dir] at logged
    rcases outcome with ⟨answered, complete, pushed, _⟩ | ⟨⟨answered, _⟩ | died, unchanged⟩
    · refine Or.inl ⟨⟨_, (returned _).mpr ⟨true, answered⟩⟩, ?_⟩
      rcases mirrored.logged accepted.2 fits logged with ⟨_, logs⟩ | ⟨torn, _⟩
      · refine ⟨⟨serving, ?_, fun topic partition queried => (logs topic partition queried).2⟩, ?_⟩
        · intro topic partition queried
          rw [World.logBytes, (logs topic partition queried).1]
          exact pushed.messages topic partition
        · intro topic partition
          exact (pushed.messages topic partition) ▸ List.prefix_append _ _
      · exact absurd complete torn
    · refine Or.inl ⟨⟨_, (returned _).mpr ⟨false, answered⟩⟩, mirrored.same serving ?_ ?_⟩
      · intro topic partition
        exact (congrArg (fun broker => broker.messages topic partition) unchanged).trans
          (created topic partition)
      · intro topic partition queried
        exact mirrored.untouched env valid accepted.1 accepted.2 unbroken logged answered
          topic queried
    · exact Or.inr ⟨crashed.mpr died, mirrored.crashed noNul accepted.2 fits logged⟩
  · obtain ⟨ended, sameDisk, sameBroker⟩ :=
      replicate_rejected mirrored.serving.regular accepted env.calls
    refine Or.inl ⟨⟨_, (returned _).mpr ⟨false, ended⟩⟩, mirrored.same serving ?_ ?_⟩
    · intro topic partition
      rcases sameBroker with same | same
      · exact congrArg (fun broker => broker.messages topic partition) same
      · exact (congrArg (fun broker => broker.messages topic partition) same).trans
          (created topic partition)
    · intro topic partition _
      rw [World.logBytes, World.logBytes, sameDisk]

end Mirror

theorem mirrored_step {σ : Type} {config : StoreConfig} (noNul : 0 ∉ config.dataDir)
    {state : StoreState σ} (mirrored : Mirrored config state.world)
    (event : StoreEvent σ) (unbroken : event.Unbroken config state) :
    ∃ next, storeStep config state event = some next ∧ Grown config state.world next.world := by
  cases event with
  | crash =>
      obtain ⟨next, restarted, again, messages⟩ := mirrored_restart noNul mirrored.serving.layout
      refine ⟨⟨next, state.history⟩, by simp only [storeStep, restarted, Option.map_some], again,
        mirrored.grows_of_range fun topic partition range => ?_⟩
      rw [messages topic partition range, mirrored.memory topic partition range]
  | request raw env =>
  by_cases framed : raw.length > kMaxPayloadSize
  · exact ⟨state, by simp only [storeStep, framed, if_true], mirrored, fun _ _ => List.prefix_rfl⟩
  have outcome : (∃ response,
          (handleRequest env state.world (parseRequest raw)).1 = .returned response) ∧
        Grown config state.world (handleRequest env state.world (parseRequest raw)).2 ∨
      (handleRequest env state.world (parseRequest raw)).1 = .crashed ∧ ∃ next,
        restart config (handleRequest env state.world (parseRequest raw)).2 = some next ∧
        Grown config state.world next := by
    cases appends : (parseRequest raw).appends with
    | false => exact Or.inl (mirrored.quiet env appends)
    | true =>
        obtain ⟨valid, whole⟩ := unbroken appends
        simp only [Request.appends, decide_eq_true_eq] at appends
        rcases appends with produces | replicates
        · exact mirrored.produce noNul env framed produces valid whole
        · exact mirrored.replicate noNul env framed replicates valid whole
  rcases outcome with ⟨⟨response, returned⟩, grown⟩ | ⟨crashed, next, restarted, grown⟩
  · exact ⟨_, storeStep_returned framed returned, grown⟩
  · exact ⟨_, storeStep_crashed framed crashed restarted, grown⟩

theorem mirrored_run {σ : Type} {config : StoreConfig} (noNul : 0 ∉ config.dataDir)
    {state : StoreState σ} (mirrored : Mirrored config state.world) {events : List (StoreEvent σ)}
    (unbroken : Transition.StepsMeet (fun state event => event.Unbroken config state)
      (storeStep config) state events) :
    ∃ final, Transition.run (storeStep config) state events = some final ∧
      Grown config state.world final.world := by
  apply Transition.run_progress (fun reached => Grown config state.world reached.world) ?_
    ⟨mirrored, fun _ _ => List.prefix_rfl⟩ unbroken
  intro reached event grown whole
  obtain ⟨next, stepped, further⟩ := mirrored_step noNul grown.mirrored event whole
  exact ⟨next, stepped, further.mirrored, fun topic partition =>
    (grown.messages topic partition).trans (further.messages topic partition)⟩

/-- A `PRODUCE` whose append throws leaves its record in memory. In every run without such
an append a restart brings every record back at its offset. -/
theorem offsets_survive_restart {σ : Type} (config : StoreConfig) (noNul : 0 ∉ config.dataDir)
    {disk : FileSystem} (layout : StoreLayout (resolve config.dataDir) disk) (peer : σ) :
    (∀ (env : Environment σ) (world : World σ) (raw : Bytes),
      (parseRequest raw).type = .produce →
      (handleRequest env world (parseRequest raw)).1 = .threw →
      (handleRequest env world (parseRequest raw)).2.broker.topics ≠ world.broker.topics) ∧
    ∃ initial, storeStart config disk peer = some initial ∧
      ∀ first : List (StoreEvent σ),
        Transition.StepsMeet (fun state event => event.Unbroken config state) (storeStep config)
          initial first →
        ∃ middle, Transition.run (storeStep config) initial first = some middle ∧
          ∀ second : List (StoreEvent σ),
            Transition.StepsMeet (fun state event => event.Unbroken config state)
              (storeStep config) middle second →
            ∃ final recovered, Transition.run (storeStep config) middle second = some final ∧
              restart config final.world = some recovered ∧
              ∀ topic partition,
                middle.world.broker.messages topic partition <+:
                  final.world.broker.messages topic partition ∧
                recovered.broker.messages topic partition =
                  final.world.broker.messages topic partition := by
  constructor
  · intro env world raw produces threw same
    have pushed := (handle_produce_threw produces threw).2 (parseRequest raw).topic
      (parseRequest raw).partition
    rw [Broker.messages, same] at pushed
    simp [Broker.messages] at pushed
  · have start : StoreLayout (resolve config.dataDir) (World.mk {} disk peer).disk := layout
    obtain ⟨world, started, mirrored, _⟩ := mirrored_restart noNul start
    refine ⟨⟨world, []⟩, by simp only [storeStart, started, Option.map_some], ?_⟩
    intro first early
    obtain ⟨middle, reached, grown⟩ := mirrored_run noNul (by exact mirrored) early
    refine ⟨middle, reached, fun second late => ?_⟩
    obtain ⟨final, finished, further⟩ := mirrored_run noNul grown.mirrored late
    obtain ⟨recovered, recovers, again, messages⟩ :=
      mirrored_restart noNul further.mirrored.serving.layout
    refine ⟨final, recovered, finished, recovers, fun topic partition =>
      ⟨further.messages topic partition, ?_⟩⟩
    by_cases range : InRange partition
    · rw [messages topic partition range, further.mirrored.memory topic partition range]
    · rw [messages_outside again.serving.regular topic range,
        messages_outside further.mirrored.serving.regular topic range]

def refusedCalls : AppendCalls := ⟨some .succeeded, [.failed], [], [], none⟩

theorem offsets_survive_interruption : ∃ initial final recovered,
    storeStart standaloneConfig ∅ () = some initial ∧
      Transition.run (storeStep standaloneConfig) initial tornRun = some final ∧
      restart standaloneConfig final.world = some recovered ∧
      recovered.broker.messages (ascii "t") 0 = final.world.broker.messages (ascii "t") 0 := by
  obtain ⟨_, initial, started, survive⟩ := offsets_survive_restart standaloneConfig (by decide)
    (freshStore_empty _).layout ()
  have unbroken : ∀ start ∈ storeStart standaloneConfig ∅ (),
      Transition.StepsMeet (fun state event => StoreEvent.Unbroken standaloneConfig state event)
        (storeStep standaloneConfig) start tornRun := by
    decide +kernel
  obtain ⟨final, finished, later⟩ := survive tornRun (unbroken initial started)
  obtain ⟨same, recovered, stays, recovers, kept⟩ := later [] trivial
  simp only [Transition.run_nil, Option.some.injEq] at stays
  subst stays
  exact ⟨initial, final, recovered, started, finished, recovers, (kept (ascii "t") 0).2⟩

/-- The record of the failed append is fetched, and the one acknowledged behind it has
another offset after a restart. -/
theorem failed_append_shifts_offset : ∃ initial failed final recovered,
    storeStart standaloneConfig ∅ () = some initial ∧
      storeStep standaloneConfig initial (produceAlone "PRODUCE t 0 a" refusedCalls) =
        some failed ∧
      failed.world.broker.messages (ascii "t") 0 ≠ initial.world.broker.messages (ascii "t") 0 ∧
      storeStep standaloneConfig failed (produceAlone "PRODUCE t 0 b" (smoothCalls 9)) =
        some final ∧
      acknowledged final.history (ascii "t") 0 = [ascii "b"] ∧
      restart standaloneConfig final.world = some recovered ∧
      final.world.broker.messages (ascii "t") 0 = [ascii "a", ascii "b"] ∧
      recovered.broker.messages (ascii "t") 0 = [ascii "b"] := by
  have evaluated : ((storeStart standaloneConfig ∅ ()).bind fun initial =>
      (storeStep standaloneConfig initial (produceAlone "PRODUCE t 0 a" refusedCalls)).bind
        fun failed =>
      (storeStep standaloneConfig failed (produceAlone "PRODUCE t 0 b" (smoothCalls 9))).bind
        fun final =>
      (restart standaloneConfig final.world).map fun recovered =>
        [initial.world.broker.messages (ascii "t") 0, failed.world.broker.messages (ascii "t") 0,
          acknowledged final.history (ascii "t") 0, final.world.broker.messages (ascii "t") 0,
          recovered.broker.messages (ascii "t") 0]) =
      some [[], [ascii "a"], [ascii "b"], [ascii "a", ascii "b"], [ascii "b"]] := by
    decide +kernel
  simp only [Option.bind_eq_some_iff, Option.map_eq_some_iff, List.cons.injEq, and_true]
    at evaluated
  obtain ⟨initial, started, failed, failing, final, finished, recovered, recovers, empty, pushed,
    acked, memory, disk⟩ := evaluated
  refine ⟨initial, failed, final, recovered, started, failing, ?_, finished, acked, recovers,
    memory, disk⟩
  rw [empty, pushed]
  decide

end KafkaBroker
