import KafkaBroker.Clients
import KafkaBroker.Fetching

/-!
Consumption comes to an end. A consumer whose place in its group and whose partitions stand
still makes a fixed number of round trips, whatever the other clients do in between; after
them it has read each of its partitions to the end, exactly once and in order, has committed
that, and has left the group.
-/

namespace KafkaBroker

open ByteText

def Broker.stored? (broker : Broker) (key : TopicPartition) : Option (List Bytes) :=
  (broker.topics.find key.topic).bind fun topic =>
    if topic.hasPartition key.partition then some (topic.messages key.partition) else none

/-- The messages of a partition that a group has received, in the order of their arrival. -/
def groupRead (receipts : List Receipt) (groupId : Bytes) (key : TopicPartition) : List Bytes :=
  (receipts.filter fun receipt =>
    receipt.groupId = groupId ∧ receipt.topic = key.topic ∧ receipt.partition = key.partition).flatMap
      fun receipt => getLines receipt.response

def ConsumerEvent.own {σ : Type} (id : Nat) : ConsumerEvent σ → Bool
  | .send other _ => other = id
  | .receive other => other = id
  | _ => false

/-- The step leaves a client as it is, with its group and the partitions that it reads. -/
structure Undisturbing {σ : Type} (id : Nat) (groupId : Bytes) (keys : List TopicPartition)
    (before after : ConsumerState σ) : Prop where
  client : after.clients.find id = before.clients.find id
  group : after.groups.find groupId = before.groups.find groupId
  stored : ∀ key ∈ keys, after.world.broker.stored? key = before.world.broker.stored? key
  received : ∀ key ∈ keys, groupRead after.receipts groupId key =
    groupRead before.receipts groupId key

/-- What a consumer has before it: its partitions with their messages, and the offsets from
which its group has yet to read them. -/
structure Workload where
  id : Nat
  topic : Bytes
  groupId : Bytes
  consumerId : Bytes
  subject : Bytes
  keys : List TopicPartition
  stored : TopicPartition → List Bytes
  start : TopicPartition → Nat
  earlier : TopicPartition → List Bytes

namespace Workload

variable (work : Workload)

def offset (done : List TopicPartition) (key : TopicPartition) : Nat :=
  if key ∈ done then (work.stored key).length else work.start key

def Unread (done : List TopicPartition) (key : TopicPartition) : Prop :=
  work.offset done key < (work.stored key).length

instance (done : List TopicPartition) (key : TopicPartition) : Decidable (work.Unread done key) :=
  inferInstanceAs (Decidable (_ < _))

def row (done : List TopicPartition) (key : TopicPartition) : Assignment :=
  ⟨key.topic, key.partition, work.offset done key⟩

/-- The round trips before the last one: a `FETCH` for each partition of the round, a `COMMIT`
for each that is unread, and another round if anything was consumed. -/
def ahead (done rest : List TopicPartition) (consumedAny : Bool) : Nat :=
  rest.length + rest.countP (fun key => work.Unread done key) +
    if consumedAny ∨ 0 < rest.countP (fun key => work.Unread done key) then work.keys.length + 1
    else 0

def client (phase : ClientPhase) (pending : Option Bytes) : Client :=
  { topic := work.topic, groupId := work.groupId, consumerId := work.consumerId, phase, pending }

def pollReply (done : List TopicPartition) : Bytes :=
  joinLines ((work.keys.map (work.row done)).map Assignment.text)

def fetchReply (done : List TopicPartition) (key : TopicPartition) : Bytes :=
  joinLines ((work.stored key).drop (work.offset done key))

/-- The consumer's texts are words, and all requests and responses fit their frames. -/
structure Sound : Prop where
  group : Word work.groupId
  consumer : Word work.consumerId
  named : (work.client .poll none).group = work.groupId
  subject : Word work.subject
  keys : ∀ key ∈ work.keys, key.topic = work.subject ∧ InRange key.partition
  distinct : work.keys.Nodup
  text : ∀ key ∈ work.keys, ∀ message ∈ work.stored key, PayloadText message
  within : ∀ key ∈ work.keys, work.start key ≤ (work.stored key).length
  countable : ∀ key ∈ work.keys, (work.stored key).length < 2 ^ 63
  fits : ∀ key ∈ work.keys, joinedSize ((work.stored key).drop (work.start key)) ≤ kMaxPayloadSize
  unmistaken : ∀ key ∈ work.keys, (work.stored key).drop (work.start key) ≠ [ascii "ERROR"]
  room : work.groupId.length + work.consumerId.length + 3 * work.subject.length + 128 ≤
    kMaxPayloadSize

/-- Where the client stands: its phase, the response it awaits, the partitions that are
committed and those that are read, whether it is still a member, and the steps it has left. -/
inductive Stage : ClientPhase → Option Bytes → List TopicPartition → List TopicPartition → Bool →
    Nat → Prop
  | poll (done : List TopicPartition) :
      Stage .poll none done done true (2 * (work.ahead done work.keys false + 2))
  | polled (done : List TopicPartition) :
      Stage .poll (some (work.pollReply done)) done done true
        (2 * (work.ahead done work.keys false + 1) + 1)
  | fetch (before rest done : List TopicPartition) (key : TopicPartition) (consumedAny : Bool)
      (keys : work.keys = before ++ key :: rest)
      (drained : ∀ other ∈ before, ¬work.Unread done other) :
      Stage (.fetch (work.row done key) (rest.map (work.row done)) consumedAny) none done done true
        (2 * (work.ahead done (key :: rest) consumedAny + 1))
  | fetched (before rest done : List TopicPartition) (key : TopicPartition) (consumedAny : Bool)
      (keys : work.keys = before ++ key :: rest)
      (drained : ∀ other ∈ before, ¬work.Unread done other) :
      Stage (.fetch (work.row done key) (rest.map (work.row done)) consumedAny)
        (some (work.fetchReply done key)) done done true
        (2 * work.ahead done (key :: rest) consumedAny + 1)
  | commit (before rest done : List TopicPartition) (key : TopicPartition)
      (keys : work.keys = before ++ key :: rest)
      (drained : ∀ other ∈ before, ¬work.Unread done other) (unread : work.Unread done key) :
      Stage (.commit (work.row (key :: done) key) (rest.map (work.row done))) none done (key :: done)
        true (2 * (work.ahead done rest true + 2))
  | committed (before rest done : List TopicPartition) (key : TopicPartition)
      (keys : work.keys = before ++ key :: rest)
      (drained : ∀ other ∈ before, ¬work.Unread done other) (unread : work.Unread done key) :
      Stage (.commit (work.row (key :: done) key) (rest.map (work.row done)))
        (some (ascii "OK")) (key :: done) (key :: done) true (2 * (work.ahead done rest true + 1) + 1)
  | leave (done : List TopicPartition) (drained : ∀ key ∈ work.keys, ¬work.Unread done key) :
      Stage .leave none done done true 2
  | left (done : List TopicPartition) (drained : ∀ key ∈ work.keys, ¬work.Unread done key) :
      Stage .leave (some (ascii "OK")) done done false 1
  | finished (done : List TopicPartition) (drained : ∀ key ∈ work.keys, ¬work.Unread done key) :
      Stage .finished none done done false 0

/-- The group has committed these partitions, and the consumer is a member or is not. -/
structure Committed (groups : ConsumerGroups) (done : List TopicPartition) (isMember : Bool) :
    Prop where
  present : isMember = true → ∃ group member, groups.find work.groupId = some group ∧
    group.members.find work.consumerId = some member ∧ member.assignments = work.keys
  absent : isMember = false → ∀ group, groups.find work.groupId = some group →
    group.members.find work.consumerId = none
  offsets : ∀ group, groups.find work.groupId = some group → ∀ key ∈ work.keys,
    (group.committedOffsets.find key).getD 0 = work.offset done key

def HasRead (receipts : List Receipt) (read : List TopicPartition) : Prop :=
  ∀ key ∈ work.keys, groupRead receipts work.groupId key =
    work.earlier key ++ if key ∈ read then (work.stored key).drop (work.start key) else []

structure Left {σ : Type} (state : ConsumerState σ) (count : Nat) : Prop where
  stored : ∀ key ∈ work.keys, state.world.broker.stored? key = some (work.stored key)
  stage : ∃ phase pending committed read isMember,
    state.clients.find work.id = some (work.client phase pending) ∧
      work.Committed state.groups committed isMember ∧ work.HasRead state.receipts read ∧
      work.Stage phase pending committed read isMember count

/-! Texts. -/

variable {work}

theorem offset_le (sound : work.Sound) (done : List TopicPartition) {key : TopicPartition}
    (listed : key ∈ work.keys) : work.offset done key ≤ (work.stored key).length := by
  unfold offset
  split
  · exact Nat.le_refl _
  · exact sound.within key listed

theorem offset_small (sound : work.Sound) (done : List TopicPartition) {key : TopicPartition}
    (listed : key ∈ work.keys) : work.offset done key < 2 ^ 63 :=
  (offset_le sound done listed).trans_lt (sound.countable key listed)

theorem row_readable (sound : work.Sound) (done : List TopicPartition) {key : TopicPartition}
    (listed : key ∈ work.keys) :
    Word (work.row done key).topic ∧ InRange (work.row done key).partition := by
  obtain ⟨named, range⟩ := sound.keys key listed
  exact ⟨by simpa only [row, named] using sound.subject, range⟩

theorem decimal_length_le {number : Nat} (small : number < 2 ^ 63) :
    (decimal number).length ≤ 19 := by
  rw [decimal, List.length_map, Nat.length_toDigits_le_iff (by omega) (by omega)]
  omega

theorem text_length_le (sound : work.Sound) (done : List TopicPartition) {key : TopicPartition}
    (listed : key ∈ work.keys) :
    (work.row done key).text.length ≤ work.subject.length + 22 := by
  obtain ⟨named, range⟩ := sound.keys key listed
  have digit := decimalInt_length range
  have digits := decimal_length_le (offset_small sound done listed)
  simp only [row, Assignment.text, List.length_append, List.length_cons, named, digit]
  omega

theorem keys_length_le (sound : work.Sound) : work.keys.length ≤ kDefaultPartitionCount := by
  have distinct : (work.keys.map TopicPartition.partition).Nodup := by
    refine sound.distinct.map_on fun left isLeft right isRight same => ?_
    obtain ⟨topic, partition⟩ := left
    have leftNamed := (sound.keys _ isLeft).1
    have rightNamed := (sound.keys right isRight).1
    simp only at leftNamed same
    rw [leftNamed, same, ← rightNamed]
  have part : work.keys.map TopicPartition.partition ⊆
      (List.range kDefaultPartitionCount).map Int.ofNat := by
    intro partition listed
    obtain ⟨key, isKey, rfl⟩ := List.mem_map.mp listed
    obtain ⟨lower, upper⟩ := (sound.keys key isKey).2
    refine List.mem_map.mpr ⟨key.partition.toNat, List.mem_range.mpr ?_, ?_⟩
    · omega
    · exact Int.toNat_of_nonneg lower
  have sizes := (distinct.subperm part).length_le
  simpa only [List.length_map, List.length_range] using sizes

theorem sum_map_le {α : Type} {size : α → Nat} {bound : Nat} {items : List α}
    (small : ∀ item ∈ items, size item ≤ bound) :
    (items.map size).sum ≤ items.length * bound := by
  simpa using List.sum_le_card_nsmul (items.map size) bound (by simpa using small)

theorem pollReply_length_le (sound : work.Sound) (done : List TopicPartition) :
    (work.pollReply done).length ≤ kMaxPayloadSize := by
  have count := keys_length_le sound
  have room := sound.room
  have rows : ((work.keys.map fun key => (work.row done key).text.length)).sum ≤
      work.keys.length * (work.subject.length + 22) :=
    sum_map_le fun key listed => text_length_le sound done listed
  have most : work.keys.length * (work.subject.length + 22) ≤ 3 * (work.subject.length + 22) :=
    Nat.mul_le_mul_right _ count
  simp only [kDefaultPartitionCount] at count
  simp only [pollReply, joinLines_length, List.map_map, Function.comp_def, List.length_map]
  omega

theorem fetchReply_length_le (sound : work.Sound) (done : List TopicPartition)
    {key : TopicPartition} (listed : key ∈ work.keys) :
    (work.fetchReply done key).length ≤ kMaxPayloadSize := by
  rw [fetchReply, joinLines_length]
  unfold offset
  split
  · simp
  · exact sound.fits key listed

theorem pollText_short (sound : work.Sound) (phase : ClientPhase) (pending : Option Bytes) :
    (work.client phase pending).pollText.length ≤ kMaxPayloadSize := by
  have room := sound.room
  have command : (ascii "GROUP_POLL").length = 10 := by decide
  simp only [Client.pollText, client, List.length_append, List.length_cons, command]
  omega

theorem leaveText_short (sound : work.Sound) (phase : ClientPhase) (pending : Option Bytes) :
    (work.client phase pending).leaveText.length ≤ kMaxPayloadSize := by
  have room := sound.room
  have command : (ascii "LEAVE").length = 5 := by decide
  simp only [Client.leaveText, client, List.length_append, List.length_cons, command]
  omega

theorem fetchText_short (sound : work.Sound) (done : List TopicPartition) {key : TopicPartition}
    (listed : key ∈ work.keys) : (work.row done key).fetchText.length ≤ kMaxPayloadSize := by
  have room := sound.room
  have size := text_length_le sound done listed
  have command : (ascii "FETCH").length = 5 := by decide
  simp only [Assignment.fetchText, List.length_append, List.length_cons, command]
  omega

theorem commitText_short (sound : work.Sound) (phase : ClientPhase) (pending : Option Bytes)
    (done : List TopicPartition) {key : TopicPartition} (listed : key ∈ work.keys) :
    ((work.client phase pending).commitText (work.row done key)).length ≤ kMaxPayloadSize := by
  have room := sound.room
  have size := text_length_le sound done listed
  have command : (ascii "COMMIT").length = 6 := by decide
  simp only [Client.commitText, client, List.length_append, List.length_cons, command]
  omega

theorem pollText_parsed (sound : work.Sound) (phase : ClientPhase) (pending : Option Bytes) :
    parseRequest (work.client phase pending).pollText =
      { type := .groupPoll, groupId := work.groupId, consumerId := work.consumerId } := by
  have rendered : (work.client phase pending).pollText = render
      { type := .groupPoll, groupId := work.groupId, consumerId := work.consumerId } := by
    simp [Client.pollText, client, render, Request.arguments, commandText]
  rw [rendered]
  exact parse_render ⟨by simp, sound.group, sound.consumer, rfl, rfl, rfl, rfl⟩ (by simp)

theorem leaveText_parsed (sound : work.Sound) (phase : ClientPhase) (pending : Option Bytes) :
    parseRequest (work.client phase pending).leaveText =
      { type := .leave, groupId := work.groupId, consumerId := work.consumerId } := by
  have rendered : (work.client phase pending).leaveText = render
      { type := .leave, groupId := work.groupId, consumerId := work.consumerId } := by
    simp [Client.leaveText, client, render, Request.arguments, commandText]
  rw [rendered]
  exact parse_render ⟨by simp, sound.group, sound.consumer, rfl, rfl, rfl, rfl⟩ (by simp)

/-! What the broker answers. -/

theorem pollReply_eq {groups : ConsumerGroups} {done : List TopicPartition}
    (committed : work.Committed groups done true) :
    groupPoll groups
        { type := .groupPoll, groupId := work.groupId, consumerId := work.consumerId } =
      work.pollReply done := by
  obtain ⟨group, member, stored, joined, assigned⟩ := committed.present rfl
  simp only [groupPoll, stored, joined, assigned, pollReply, List.map_map]
  refine congrArg joinLines (List.map_congr_left fun key listed => ?_)
  simp only [pollRow, Function.comp_apply, row, Assignment.text,
    committed.offsets group stored key listed]

theorem fetchReply_eq {broker : Broker} {key : TopicPartition}
    (stored : broker.stored? key = some (work.stored key)) (done : List TopicPartition) :
    (fetch broker
      { type := .fetch, topic := key.topic, partition := key.partition,
        offset := work.offset done key }).1 = work.fetchReply done key := by
  simp only [Broker.stored?, Option.bind_eq_some_iff, Option.ite_none_right_eq_some,
    Option.some.injEq] at stored
  obtain ⟨topic, found, present, messages⟩ := stored
  rw [fetch_found found present, messages]
  rfl

theorem commit_stored {groups : ConsumerGroups} {done : List TopicPartition}
    (committed : work.Committed groups done true) {broker : Broker} {key : TopicPartition}
    (stored : broker.stored? key = some (work.stored key)) (req : Request)
    (groupEq : req.groupId = work.groupId) (consumerEq : req.consumerId = work.consumerId)
    (keyEq : TopicPartition.mk req.topic req.partition = key)
    (offsetEq : req.offset = (work.stored key).length) :
    (commitOffset groups ((broker.topics.find req.topic).map fun topic => topic.partitions.length)
        req).1 = ascii "OK" ∧
      work.Committed (commitOffset groups
        ((broker.topics.find req.topic).map fun topic => topic.partitions.length) req).2
          (key :: done) true := by
  obtain ⟨group, member, known, joined, assigned⟩ := committed.present rfl
  simp only [Broker.stored?, Option.bind_eq_some_iff, Option.ite_none_right_eq_some,
    Option.some.injEq] at stored
  obtain ⟨topic, found, present, _⟩ := stored
  subst keyEq
  have range : ¬(req.partition < 0 ∨ req.partition ≥ topic.partitions.length) := by
    simp only [Topic.hasPartition, decide_eq_true_eq] at present
    omega
  have result : commitOffset groups
      ((broker.topics.find req.topic).map fun topic => topic.partitions.length) req =
      (ascii "OK", groups.set work.groupId { group with
        committedOffsets :=
          group.committedOffsets.set ⟨req.topic, req.partition⟩ req.offset }) := by
    simp only [commitOffset, groupEq, consumerEq, known, joined, found, Option.map_some,
      Option.isNone_some, Bool.false_eq_true, if_false, if_neg range]
  rw [result]
  refine ⟨rfl, fun _ => ⟨{ group with
    committedOffsets := group.committedOffsets.set ⟨req.topic, req.partition⟩ req.offset },
    member, by simp, joined, assigned⟩, by simp, ?_⟩
  intro other isOther query listed
  simp only [Table.find_set, if_true, Option.some.injEq] at isOther
  subst isOther
  simp only [Table.find_set, offset, List.mem_cons]
  by_cases same : query = ⟨req.topic, req.partition⟩
  · simp [same, offsetEq]
  · simpa [same, offset] using committed.offsets group known query listed

theorem leave_stored {groups : ConsumerGroups} {done : List TopicPartition}
    (committed : work.Committed groups done true) (req : Request)
    (groupEq : req.groupId = work.groupId) (consumerEq : req.consumerId = work.consumerId) :
    (leaveGroup groups req).1 = ascii "OK" ∧
      work.Committed (leaveGroup groups req).2 done false := by
  obtain ⟨group, member, known, joined, _⟩ := committed.present rfl
  have result : leaveGroup groups req = (ascii "OK",
      storeAfterRemoval groups work.groupId (eraseMember group work.consumerId)) := by
    simp [leaveGroup, groupEq, consumerEq, known, joined]
  rw [result]
  refine ⟨rfl, ?_⟩
  rcases storeAfterRemoval_cases groups work.groupId (eraseMember group work.consumerId) with
    ⟨_, after⟩ | after
  · rw [after]
    refine ⟨by simp, fun _ => ?_, ?_⟩
    · intro other isOther
      simp only [Table.find_set, if_true, Option.some.injEq] at isOther
      subst isOther
      simp [rebalanceGroup_find, eraseMember]
    · intro other isOther key listed
      simp only [Table.find_set, if_true, Option.some.injEq] at isOther
      subst isOther
      exact committed.offsets group known key listed
  · rw [after]
    exact ⟨by simp, by simp, by simp⟩

/-! The client's steps. -/

section Steps

variable {σ : Type} {state : ConsumerState σ}

theorem stored?_of_topics {before after : Broker} (topics : after.topics = before.topics)
    (key : TopicPartition) : after.stored? key = before.stored? key := by
  rw [Broker.stored?, topics]
  rfl

theorem sent (env : Environment σ) {phase : ClientPhase} {text response : Bytes} {req : Request}
    (stored : ∀ key ∈ work.keys, state.world.broker.stored? key = some (work.stored key))
    (found : state.clients.find work.id = some (work.client phase none))
    (sends : (work.client phase none).requestText = some text)
    (textFits : text.length ≤ kMaxPayloadSize) (parsed : parseRequest text = req)
    (returned : (handleRequest env state.world req).1 = .returned response)
    (responseFits : response.length ≤ kMaxPayloadSize)
    (topics : (handleRequest env state.world req).2.broker.topics = state.world.broker.topics)
    {done read : List TopicPartition} {isMember : Bool} {count : Nat}
    (committed : work.Committed (handleRequest env state.world req).2.broker.consumerGroups done
      isMember)
    (hasRead : work.HasRead state.receipts read)
    (stage : work.Stage phase (some response) done read isMember count) :
    ∃ next, consumerStep state (.send work.id env) = some next ∧ work.Left next count := by
  subst parsed
  have stepped : consumerStep state (.send work.id env) = some (ConsumerState.update
      { state with world := (handleRequest env state.world (parseRequest text)).2 } work.id
      (work.client phase (some response))) := by
    have idle : (work.client phase none).pending = none := rfl
    simp only [consumerStep, found, idle, sends, returned, gt_iff_lt, Nat.not_lt.mpr textFits,
      Nat.not_lt.mpr responseFits, if_false]
    rfl
  refine ⟨_, stepped, ?_, phase, some response, done, read, isMember, ?_, committed, hasRead, stage⟩
  · intro key listed
    exact (stored?_of_topics topics key).trans (stored key listed)
  · simp [ConsumerState.update]

theorem accepted {phase after : ClientPhase} {response : Bytes}
    (stored : ∀ key ∈ work.keys, state.world.broker.stored? key = some (work.stored key))
    (found : state.clients.find work.id = some (work.client phase (some response)))
    (receives : phase.receive response = after) {done read : List TopicPartition} {isMember : Bool}
    {count : Nat} (committed : work.Committed state.groups done isMember)
    (hasRead : work.HasRead
      (state.receipts ++ ((work.client phase (some response)).receive response).2) read)
    (stage : work.Stage after none done read isMember count) :
    ∃ next, consumerStep state (.receive work.id) = some next ∧ work.Left next count := by
  subst receives
  have stepped : consumerStep state (.receive work.id) = some
      { state.update work.id (work.client (phase.receive response) none) with
        receipts :=
          state.receipts ++ ((work.client phase (some response)).receive response).2 } := by
    have pending : (work.client phase (some response)).pending = some response := rfl
    simp only [consumerStep, found, pending]
    rfl
  refine ⟨_, stepped, stored, _, none, done, read, isMember, ?_, committed, hasRead, stage⟩
  simp [ConsumerState.update]

theorem send_poll (sound : work.Sound) {done : List TopicPartition}
    (stored : ∀ key ∈ work.keys, state.world.broker.stored? key = some (work.stored key))
    (found : state.clients.find work.id = some (work.client .poll none))
    (committed : work.Committed state.groups done true) (hasRead : work.HasRead state.receipts done)
    (env : Environment σ) :
    ∃ next, consumerStep state (.send work.id env) = some next ∧
      work.Left next (2 * (work.ahead done work.keys false + 1) + 1) := by
  refine sent env stored found rfl (pollText_short sound _ _) (pollText_parsed sound _ _) ?_
    (pollReply_length_le sound done) rfl committed hasRead (.polled done)
  exact congrArg Outcome.returned (pollReply_eq committed)

theorem send_fetch (sound : work.Sound) {before rest done : List TopicPartition}
    {key : TopicPartition} {consumedAny : Bool} (keys : work.keys = before ++ key :: rest)
    (drained : ∀ other ∈ before, ¬work.Unread done other)
    (stored : ∀ key ∈ work.keys, state.world.broker.stored? key = some (work.stored key))
    (found : state.clients.find work.id = some (work.client
      (.fetch (work.row done key) (rest.map (work.row done)) consumedAny) none))
    (committed : work.Committed state.groups done true) (hasRead : work.HasRead state.receipts done)
    (env : Environment σ) :
    ∃ next, consumerStep state (.send work.id env) = some next ∧
      work.Left next (2 * work.ahead done (key :: rest) consumedAny + 1) := by
  have listed : key ∈ work.keys := by simp [keys]
  obtain ⟨topic, range⟩ := row_readable sound done listed
  refine sent env stored found rfl (fetchText_short sound done listed)
    (fetchText_parsed topic range (offset_small sound done listed)) ?_
    (fetchReply_length_le sound done listed) rfl committed hasRead
    (.fetched before rest done key consumedAny keys drained)
  exact congrArg Outcome.returned (fetchReply_eq (stored key listed) done)

theorem send_commit (sound : work.Sound) {before rest done : List TopicPartition}
    {key : TopicPartition} (keys : work.keys = before ++ key :: rest)
    (drained : ∀ other ∈ before, ¬work.Unread done other) (unread : work.Unread done key)
    (stored : ∀ key ∈ work.keys, state.world.broker.stored? key = some (work.stored key))
    (found : state.clients.find work.id = some (work.client
      (.commit (work.row (key :: done) key) (rest.map (work.row done))) none))
    (committed : work.Committed state.groups done true)
    (hasRead : work.HasRead state.receipts (key :: done)) (env : Environment σ) :
    ∃ next, consumerStep state (.send work.id env) = some next ∧
      work.Left next (2 * (work.ahead done rest true + 1) + 1) := by
  have listed : key ∈ work.keys := by simp [keys]
  obtain ⟨topic, range⟩ := row_readable sound (key :: done) listed
  have ends : work.offset (key :: done) key = (work.stored key).length := by simp [offset]
  obtain ⟨answered, after⟩ := commit_stored committed (stored key listed)
    { type := .commit, groupId := work.groupId, consumerId := work.consumerId, topic := key.topic,
      partition := key.partition, offset := work.offset (key :: done) key } rfl rfl rfl ends
  refine sent env stored found rfl (commitText_short sound _ _ _ listed)
    (commitText_parsed sound.group sound.consumer topic range
      (offset_small sound (key :: done) listed)) ?_ (by decide) rfl after hasRead
    (.committed before rest done key keys drained unread)
  exact congrArg Outcome.returned answered

theorem send_leave (sound : work.Sound) {done : List TopicPartition}
    (drained : ∀ key ∈ work.keys, ¬work.Unread done key)
    (stored : ∀ key ∈ work.keys, state.world.broker.stored? key = some (work.stored key))
    (found : state.clients.find work.id = some (work.client .leave none))
    (committed : work.Committed state.groups done true) (hasRead : work.HasRead state.receipts done)
    (env : Environment σ) :
    ∃ next, consumerStep state (.send work.id env) = some next ∧ work.Left next 1 := by
  obtain ⟨answered, after⟩ := leave_stored committed
    { type := .leave, groupId := work.groupId, consumerId := work.consumerId } rfl rfl
  refine sent env stored found rfl (leaveText_short sound _ _) (leaveText_parsed sound _ _) ?_
    (by decide) rfl after hasRead (.left done drained)
  exact congrArg Outcome.returned answered

theorem unread_offset {done : List TopicPartition} {key : TopicPartition}
    (unread : work.Unread done key) : key ∉ done ∧ work.offset done key = work.start key := by
  have fresh : key ∉ done := by
    intro member
    simp [Unread, offset, member] at unread
  exact ⟨fresh, if_neg fresh⟩

theorem drained_offset (sound : work.Sound) {done : List TopicPartition} {key : TopicPartition}
    (listed : key ∈ work.keys) (drained : ¬work.Unread done key) :
    work.offset done key = (work.stored key).length :=
  Nat.le_antisymm (offset_le sound done listed) (Nat.le_of_not_lt drained)

theorem offset_cons {done : List TopicPartition} {key other : TopicPartition}
    (different : other ≠ key) : work.offset (key :: done) other = work.offset done other := by
  simp [offset, different]

theorem ahead_drained {done rest : List TopicPartition} {key : TopicPartition}
    (drained : ¬work.Unread done key) (consumedAny : Bool) :
    work.ahead done (key :: rest) consumedAny = work.ahead done rest consumedAny + 1 := by
  have same : (key :: rest).countP (fun key => work.Unread done key) =
      rest.countP (fun key => work.Unread done key) :=
    List.countP_cons_of_neg (by simpa using drained)
  simp only [ahead, same, List.length_cons]
  omega

theorem ahead_unread {done rest : List TopicPartition} {key : TopicPartition}
    (unread : work.Unread done key) (consumedAny : Bool) :
    work.ahead done (key :: rest) consumedAny = work.ahead done rest true + 2 := by
  have more : (key :: rest).countP (fun key => work.Unread done key) =
      rest.countP (fun key => work.Unread done key) + 1 :=
    List.countP_cons_of_pos (by simpa using unread)
  simp only [ahead, more, List.length_cons, Nat.succ_pos, or_true, true_or, if_true]
  omega

theorem unread_cons {done rest : List TopicPartition} {key other : TopicPartition}
    (apart : key ∉ rest) (member : other ∈ rest) :
    work.Unread (key :: done) other ↔ work.Unread done other := by
  rw [Unread, offset_cons (ne_of_mem_of_not_mem member apart), Unread]

theorem ahead_cons {done rest : List TopicPartition} {key : TopicPartition} (apart : key ∉ rest)
    (consumedAny : Bool) : work.ahead (key :: done) rest consumedAny =
      work.ahead done rest consumedAny := by
  have same : rest.countP (fun other => work.Unread (key :: done) other) =
      rest.countP (fun other => work.Unread done other) :=
    List.countP_congr fun other member => by simpa using unread_cons apart member
  simp only [ahead, same]

theorem rows_cons {done rest : List TopicPartition} {key : TopicPartition} (apart : key ∉ rest) :
    rest.map (work.row (key :: done)) = rest.map (work.row done) := by
  refine List.map_congr_left fun other member => ?_
  rw [row, offset_cons (ne_of_mem_of_not_mem member apart), row]

theorem stage_next {before rest done : List TopicPartition} (keys : work.keys = before ++ rest)
    (drained : ∀ other ∈ before, ¬work.Unread done other) (consumedAny : Bool) :
    work.Stage (nextAssignment (rest.map (work.row done)) consumedAny) none done done true
      (2 * (work.ahead done rest consumedAny + 1)) := by
  cases rest with
  | cons key rest => exact .fetch before rest done key consumedAny keys drained
  | nil =>
      rw [List.append_nil] at keys
      rw [← keys] at drained
      cases consumedAny with
      | false => exact .leave done drained
      | true =>
          have none : work.keys.countP (fun key => work.Unread done key) = 0 := by
            rw [List.countP_eq_zero]
            simpa using drained
          have round : work.ahead done [] true + 1 = work.ahead done work.keys false + 2 := by
            simp [ahead, none]
          rw [round]
          exact .poll done

theorem pollReply_ne_error (done : List TopicPartition) : work.pollReply done ≠ ascii "ERROR" := by
  intro same
  cases keys : work.keys with
  | nil =>
      have filled : ascii "ERROR" ≠ [] := by decide
      rw [pollReply, keys] at same
      exact filled same.symm
  | cons key rest =>
      have line : (work.row done key).text ∈ (work.keys.map (work.row done)).map
          Assignment.text := by
        simp [keys]
      have inside : space ∈ work.pollReply done :=
        mem_joinLines line (by simp [Assignment.text])
      rw [same] at inside
      revert inside
      decide

theorem parse_pollReply (sound : work.Sound) (done : List TopicPartition) :
    parseAssignments (work.pollReply done) = some (work.keys.map (work.row done)) := by
  rw [pollReply, parseAssignments_rows (List.forall_mem_map.mpr fun key listed =>
    row_readable sound done listed)]
  apply mapM_some_of_inverse
  rw [List.forall_mem_map]
  intro key listed
  obtain ⟨topic, range⟩ := row_readable sound done listed
  have small : (work.row done key).offset < 2 ^ 63 := offset_small sound done listed
  rw [parseAssignment_text topic range, if_pos (by omega)]

theorem receive_poll (sound : work.Sound) {done : List TopicPartition}
    (stored : ∀ key ∈ work.keys, state.world.broker.stored? key = some (work.stored key))
    (found : state.clients.find work.id =
      some (work.client .poll (some (work.pollReply done))))
    (committed : work.Committed state.groups done true)
    (hasRead : work.HasRead state.receipts done) :
    ∃ next, consumerStep state (.receive work.id) = some next ∧
      work.Left next (2 * (work.ahead done work.keys false + 1)) := by
  have receives : ClientPhase.poll.receive (work.pollReply done) =
      nextAssignment (work.keys.map (work.row done)) false := by
    simp only [ClientPhase.receive, if_neg (pollReply_ne_error done), parse_pollReply sound done]
  refine accepted stored found receives committed ?_
    (stage_next (List.nil_append _).symm (by simp) false)
  simpa [Client.receive, client] using hasRead

/-! Fetched messages. -/

theorem fetched_text (sound : work.Sound) (done : List TopicPartition) {key : TopicPartition}
    (listed : key ∈ work.keys) :
    ∀ message ∈ (work.stored key).drop (work.offset done key), PayloadText message :=
  fun message member => sound.text key listed message (List.mem_of_mem_drop member)

theorem fetchReply_ne_error (sound : work.Sound) (done : List TopicPartition)
    {key : TopicPartition} (listed : key ∈ work.keys) :
    work.fetchReply done key ≠ ascii "ERROR" := by
  rw [fetchReply, ne_eq, joinLines_eq_error_iff (fetched_text sound done listed)]
  unfold offset
  split
  · simp
  · exact sound.unmistaken key listed

theorem groupRead_append (receipts added : List Receipt) (groupId : Bytes) (key : TopicPartition) :
    groupRead (receipts ++ added) groupId key =
      groupRead receipts groupId key ++ groupRead added groupId key := by
  simp only [groupRead, List.filter_append, List.flatMap_append]

theorem fetched_receipt (sound : work.Sound) {done : List TopicPartition} {key : TopicPartition}
    (listed : key ∈ work.keys) {rest : List Assignment} {consumedAny : Bool}
    (response? : Option Bytes) (query : TopicPartition) :
    groupRead ((work.client (.fetch (work.row done key) rest consumedAny) response?).receive
        (work.fetchReply done key)).2 work.groupId query =
      if query = key then (work.stored key).drop (work.offset done key) else [] := by
  have named : (work.client (.fetch (work.row done key) rest consumedAny) response?).group =
      work.groupId := sound.named
  have lines := getLines_joinLines (fetched_text sound done listed)
  simp only [Client.receive]
  rw [named]
  simp only [client, if_neg (fetchReply_ne_error sound done listed), groupRead]
  obtain ⟨topic, partition⟩ := key
  obtain ⟨queryTopic, queryPartition⟩ := query
  by_cases same : queryTopic = topic ∧ queryPartition = partition
  · obtain ⟨rfl, rfl⟩ := same
    simpa [row, fetchReply] using lines
  · have other : ¬(topic = queryTopic ∧ partition = queryPartition) := fun both =>
      same ⟨both.1.symm, both.2.symm⟩
    simp [row, same, other]

theorem hasRead_fetched (sound : work.Sound) {done : List TopicPartition} {key : TopicPartition}
    (listed : key ∈ work.keys) (rest : List Assignment) (consumedAny : Bool)
    (hasRead : work.HasRead state.receipts done) :
    work.HasRead (state.receipts ++
        ((work.client (.fetch (work.row done key) rest consumedAny)
          (some (work.fetchReply done key))).receive (work.fetchReply done key)).2)
      (if work.Unread done key then key :: done else done) := by
  intro query isKey
  rw [groupRead_append, fetched_receipt sound listed, hasRead query isKey, List.append_assoc]
  by_cases same : query = key
  · subst same
    by_cases unread : work.Unread done query
    · obtain ⟨fresh, start⟩ := unread_offset unread
      simp [unread, fresh, start]
    · simp [unread, drained_offset sound listed unread]
  · by_cases unread : work.Unread done key <;> simp [unread, same]

theorem receive_fetch (sound : work.Sound) {before rest done : List TopicPartition}
    {key : TopicPartition} {consumedAny : Bool} (keys : work.keys = before ++ key :: rest)
    (drained : ∀ other ∈ before, ¬work.Unread done other)
    (stored : ∀ key ∈ work.keys, state.world.broker.stored? key = some (work.stored key))
    (found : state.clients.find work.id = some (work.client
      (.fetch (work.row done key) (rest.map (work.row done)) consumedAny)
      (some (work.fetchReply done key))))
    (committed : work.Committed state.groups done true)
    (hasRead : work.HasRead state.receipts done) :
    ∃ next, consumerStep state (.receive work.id) = some next ∧
      work.Left next (2 * work.ahead done (key :: rest) consumedAny) := by
  have listed : key ∈ work.keys := by simp [keys]
  have count : countMessages (work.fetchReply done key) =
      (work.stored key).length - work.offset done key := by
    rw [fetchReply, countMessages_joinLines (fetched_text sound done listed), List.length_drop]
  have reads := hasRead_fetched sound listed (rest.map (work.row done)) consumedAny hasRead
  by_cases unread : work.Unread done key
  · have some : ¬(work.stored key).length - work.offset done key = 0 := Nat.sub_ne_zero_of_lt unread
    have behind : (work.row done key).advance ((work.stored key).length - work.offset done key) =
        work.row (key :: done) key := by
      have small := sound.countable key listed
      have within := offset_le sound done listed
      have total : work.offset done key + ((work.stored key).length - work.offset done key) =
          (work.stored key).length := by omega
      have ends : work.offset (key :: done) key = (work.stored key).length := by simp [offset]
      simp only [Assignment.advance, row, total, ends]
      rw [Nat.mod_eq_of_lt (by omega)]
    have receives : (ClientPhase.fetch (work.row done key) (rest.map (work.row done))
        consumedAny).receive (work.fetchReply done key) =
        .commit (work.row (key :: done) key) (rest.map (work.row done)) := by
      simp only [ClientPhase.receive, if_neg (fetchReply_ne_error sound done listed), count,
        if_neg some, behind]
    rw [if_pos unread] at reads
    rw [ahead_unread unread]
    exact accepted stored found receives committed reads
      (.commit before rest done key keys drained unread)
  · have none : (work.stored key).length - work.offset done key = 0 := by
      rw [drained_offset sound listed unread, Nat.sub_self]
    have receives : (ClientPhase.fetch (work.row done key) (rest.map (work.row done))
        consumedAny).receive (work.fetchReply done key) =
        nextAssignment (rest.map (work.row done)) consumedAny := by
      simp only [ClientPhase.receive, if_neg (fetchReply_ne_error sound done listed), count, none,
        if_true]
    rw [if_neg unread] at reads
    rw [ahead_drained unread]
    have split : work.keys = (before ++ [key]) ++ rest := by simp [keys]
    refine accepted stored found receives committed reads (stage_next split ?_ consumedAny)
    intro other member
    rcases List.mem_append.mp member with earlier | last
    · exact drained other earlier
    · rw [List.mem_singleton] at last
      exact last ▸ unread

theorem receive_commit (sound : work.Sound) {before rest done : List TopicPartition}
    {key : TopicPartition} (keys : work.keys = before ++ key :: rest)
    (drained : ∀ other ∈ before, ¬work.Unread done other)
    (stored : ∀ key ∈ work.keys, state.world.broker.stored? key = some (work.stored key))
    (found : state.clients.find work.id = some (work.client
      (.commit (work.row (key :: done) key) (rest.map (work.row done))) (some (ascii "OK"))))
    (committed : work.Committed state.groups (key :: done) true)
    (hasRead : work.HasRead state.receipts (key :: done)) :
    ∃ next, consumerStep state (.receive work.id) = some next ∧
      work.Left next (2 * (work.ahead done rest true + 1)) := by
  have distinct := sound.distinct
  rw [keys, List.nodup_append] at distinct
  obtain ⟨_, ordered, apart⟩ := distinct
  have later := (List.nodup_cons.mp ordered).1
  have receives : (ClientPhase.commit (work.row (key :: done) key)
      (rest.map (work.row done))).receive (ascii "OK") =
      nextAssignment (rest.map (work.row (key :: done))) true := by
    rw [rows_cons later]
    rfl
  have split : work.keys = (before ++ [key]) ++ rest := by simp [keys]
  rw [← ahead_cons later true]
  refine accepted stored found receives committed ?_ (stage_next split ?_ true)
  · simpa [Client.receive, client] using hasRead
  · intro other member
    rcases List.mem_append.mp member with earlier | last
    · have different : other ≠ key := apart other earlier key (by simp)
      rw [Unread, offset_cons different]
      exact drained other earlier
    · rw [List.mem_singleton] at last
      simp [Unread, offset, last]

theorem receive_leave {done : List TopicPartition}
    (drained : ∀ key ∈ work.keys, ¬work.Unread done key)
    (stored : ∀ key ∈ work.keys, state.world.broker.stored? key = some (work.stored key))
    (found : state.clients.find work.id = some (work.client .leave (some (ascii "OK"))))
    (committed : work.Committed state.groups done false)
    (hasRead : work.HasRead state.receipts done) :
    ∃ next, consumerStep state (.receive work.id) = some next ∧ work.Left next 0 := by
  refine accepted stored found rfl committed ?_ (.finished done drained)
  simpa [Client.receive, client] using hasRead

theorem send_pending {id : Nat} {client : Client} {response : Bytes}
    (found : state.clients.find id = some client) (pending : client.pending = some response)
    (env : Environment σ) : consumerStep state (.send id env) = none := by
  simp only [consumerStep, found, pending]

theorem receive_idle {id : Nat} {client : Client} (found : state.clients.find id = some client)
    (idle : client.pending = none) : consumerStep state (.receive id) = none := by
  simp only [consumerStep, found, idle]

/-- A client with steps left can make its next one, and no other; a finished one makes none. -/
theorem Left.turn (sound : work.Sound) {count : Nat} (left : work.Left state count) :
    (count = 0 ∧ (∀ env, consumerStep state (.send work.id env) = none) ∧
        consumerStep state (.receive work.id) = none) ∨
      ∃ rest, count = rest + 1 ∧
        ((∀ env, ∃ next, consumerStep state (.send work.id env) = some next ∧
            work.Left next rest) ∧ consumerStep state (.receive work.id) = none ∨
          (∃ next, consumerStep state (.receive work.id) = some next ∧ work.Left next rest) ∧
            ∀ env, consumerStep state (.send work.id env) = none) := by
  obtain ⟨stored, phase, pending, committed, read, isMember, found, isCommitted, hasRead, stage⟩ :=
    left
  cases stage with
  | poll done =>
      exact Or.inr ⟨_, rfl, Or.inl ⟨send_poll sound stored found isCommitted hasRead,
        receive_idle found rfl⟩⟩
  | polled done =>
      exact Or.inr ⟨_, rfl, Or.inr ⟨receive_poll sound stored found isCommitted hasRead,
        send_pending found rfl⟩⟩
  | fetch before rest done key consumedAny keys drained =>
      exact Or.inr ⟨_, rfl, Or.inl ⟨send_fetch sound keys drained stored found isCommitted hasRead,
        receive_idle found rfl⟩⟩
  | fetched before rest done key consumedAny keys drained =>
      exact Or.inr ⟨_, rfl, Or.inr ⟨receive_fetch sound keys drained stored found isCommitted
        hasRead, send_pending found rfl⟩⟩
  | commit before rest done key keys drained unread =>
      exact Or.inr ⟨_, rfl, Or.inl ⟨send_commit sound keys drained unread stored found isCommitted
        hasRead, receive_idle found rfl⟩⟩
  | committed before rest done key keys drained unread =>
      exact Or.inr ⟨_, rfl, Or.inr ⟨receive_commit sound keys drained stored found isCommitted
        hasRead, send_pending found rfl⟩⟩
  | leave done drained =>
      exact Or.inr ⟨_, rfl, Or.inl ⟨send_leave sound drained stored found isCommitted hasRead,
        receive_idle found rfl⟩⟩
  | left done drained =>
      exact Or.inr ⟨_, rfl, Or.inr ⟨receive_leave drained stored found isCommitted hasRead,
        send_pending found rfl⟩⟩
  | finished done drained =>
      refine Or.inl ⟨rfl, fun env => ?_, receive_idle found rfl⟩
      simp only [consumerStep, found, client, Client.requestText]

theorem Left.counted (sound : work.Sound) {count : Nat} (left : work.Left state count)
    {event : ConsumerEvent σ} {next : ConsumerState σ} (own : event.own work.id = true)
    (stepped : consumerStep state event = some next) :
    ∃ rest, count = rest + 1 ∧ work.Left next rest := by
  rcases left.turn sound with ⟨_, noSend, noReceive⟩ |
    ⟨rest, total, ⟨sends, noReceive⟩ | ⟨⟨after, received, later⟩, noSend⟩⟩
  · cases event with
    | send id env =>
        obtain rfl : id = work.id := by simpa [ConsumerEvent.own] using own
        simp [noSend] at stepped
    | receive id =>
        obtain rfl : id = work.id := by simpa [ConsumerEvent.own] using own
        simp [noReceive] at stepped
    | _ => simp [ConsumerEvent.own] at own
  · cases event with
    | send id env =>
        obtain rfl : id = work.id := by simpa [ConsumerEvent.own] using own
        obtain ⟨after, sent, later⟩ := sends env
        rw [sent, Option.some.injEq] at stepped
        exact ⟨rest, total, stepped ▸ later⟩
    | receive id =>
        obtain rfl : id = work.id := by simpa [ConsumerEvent.own] using own
        simp [noReceive] at stepped
    | _ => simp [ConsumerEvent.own] at own
  · cases event with
    | send id env =>
        obtain rfl : id = work.id := by simpa [ConsumerEvent.own] using own
        simp [noSend] at stepped
    | receive id =>
        obtain rfl : id = work.id := by simpa [ConsumerEvent.own] using own
        rw [received, Option.some.injEq] at stepped
        exact ⟨rest, total, stepped ▸ later⟩
    | _ => simp [ConsumerEvent.own] at own

theorem Left.enabled (sound : work.Sound) {count : Nat} (left : work.Left state count)
    (unfinished : count ≠ 0) (env : Environment σ) :
    (consumerStep state (.send work.id env)).isSome ∨
      (consumerStep state (.receive work.id)).isSome := by
  rcases left.turn sound with ⟨finished, _⟩ |
    ⟨rest, _, ⟨sends, _⟩ | ⟨⟨after, received, _⟩, _⟩⟩
  · exact absurd finished unfinished
  · obtain ⟨after, sent, _⟩ := sends env
    exact Or.inl (by simp [sent])
  · exact Or.inr (by simp [received])

theorem Left.undisturbed {count : Nat} (left : work.Left state count) {next : ConsumerState σ}
    (undisturbing : Undisturbing work.id work.groupId work.keys state next) :
    work.Left next count := by
  obtain ⟨stored, phase, pending, committed, read, isMember, found, isCommitted, hasRead, stage⟩ :=
    left
  refine ⟨?_, phase, pending, committed, read, isMember, ?_, ?_, ?_, stage⟩
  · exact fun key listed => (undisturbing.stored key listed).trans (stored key listed)
  · exact undisturbing.client.trans found
  · obtain ⟨present, absent, offsets⟩ := isCommitted
    rw [← undisturbing.group] at present absent offsets
    exact ⟨present, absent, offsets⟩
  · exact fun key listed => (undisturbing.received key listed).trans (hasRead key listed)

end Steps

end Workload

/-! Runs. -/

section Runs

variable {σ : Type}

theorem consumerStep_balanced {state next : ConsumerState σ} {event : ConsumerEvent σ}
    (balanced : AllBalanced state.groups) (stepped : consumerStep state event = some next) :
    AllBalanced next.groups := by
  cases consumerStep_change stepped with
  | started id topic groupId consumerId free => exact balanced
  | refused id env client found => exact balanced
  | failed id env client text found idle sends =>
      exact handleRequest_balanced balanced env (parseRequest text)
  | answered id env client text response found idle sends returned short =>
      exact handleRequest_balanced balanced env (parseRequest text)
  | received id client response found pending => exact balanced
  | dropped id client found => exact balanced
  | removed groupId consumerId =>
      exact groupStep_balanced balanced (.disconnect groupId consumerId)
  | requested raw env noCommit => exact handleRequest_balanced balanced env (parseRequest raw)

theorem stored?_messages {broker : Broker} {key : TopicPartition} {messages : List Bytes}
    (stored : broker.stored? key = some messages) :
    broker.messages key.topic key.partition = messages := by
  simp only [Broker.stored?, Option.bind_eq_some_iff, Option.ite_none_right_eq_some,
    Option.some.injEq] at stored
  obtain ⟨topic, found, _, same⟩ := stored
  simpa only [Broker.messages, found] using same

def Broker.unread (broker : Broker) (groupId : Bytes) (key : TopicPartition) : List Bytes :=
  (broker.messages key.topic key.partition).drop (reportedOffset broker.consumerGroups groupId key)

/-- The partition can be read: it exists, its length is a number the protocol knows, and what
is unread fits a frame and is not taken for an error. -/
structure Broker.Readable (broker : Broker) (groupId : Bytes) (key : TopicPartition) : Prop where
  present : (broker.stored? key).isSome
  countable : (broker.messages key.topic key.partition).length < 2 ^ 63
  fits : joinedSize (broker.unread groupId key) ≤ kMaxPayloadSize
  unmistaken : broker.unread groupId key ≠ [ascii "ERROR"]

instance (broker : Broker) (groupId : Bytes) (key : TopicPartition) :
    Decidable (broker.Readable groupId key) :=
  decidable_of_iff ((broker.stored? key).isSome ∧
      (broker.messages key.topic key.partition).length < 2 ^ 63 ∧
      joinedSize (broker.unread groupId key) ≤ kMaxPayloadSize ∧
      broker.unread groupId key ≠ [ascii "ERROR"])
    ⟨fun ⟨present, countable, fits, unmistaken⟩ => ⟨present, countable, fits, unmistaken⟩,
      fun ⟨present, countable, fits, unmistaken⟩ => ⟨present, countable, fits, unmistaken⟩⟩

/-- A poll and a `FETCH` for each partition, a `COMMIT` for each that has unread messages and
then another round, and the `LEAVE`. -/
def roundTrips (broker : Broker) (groupId : Bytes) (keys : List TopicPartition) : Nat :=
  let unread := keys.countP fun key => broker.unread groupId key ≠ []
  keys.length + unread + (if unread = 0 then 0 else keys.length + 1) + 2

/-- The consumer has ended: it is no member, and its group has read and committed these
partitions to the end. -/
structure ReadThrough (start final : ConsumerState σ) (id : Nat) (client : Client)
    (keys : List TopicPartition) : Prop where
  finished : final.clients.find id = some { client with phase := .finished, pending := none }
  gone : ∀ group, final.groups.find client.groupId = some group →
    group.members.find client.consumerId = none
  committed : ∀ group, final.groups.find client.groupId = some group → ∀ key ∈ keys,
    reportedOffset final.groups client.groupId key =
      (start.world.broker.messages key.topic key.partition).length
  read : ∀ key ∈ keys, groupRead final.receipts client.groupId key =
    groupRead start.receipts client.groupId key ++ start.world.broker.unread client.groupId key

def workload (state : ConsumerState σ) (id : Nat) (client : Client) (member : GroupMember) :
    Workload where
  id := id
  topic := client.topic
  groupId := client.groupId
  consumerId := client.consumerId
  subject := member.topic
  keys := member.assignments
  stored key := state.world.broker.messages key.topic key.partition
  start key := reportedOffset state.groups client.groupId key
  earlier key := groupRead state.receipts client.groupId key

section Start

variable {state : ConsumerState σ} {id : Nat} {client : Client} {group : ConsumerGroup}
  {member : GroupMember}

theorem workload_sound (sound : Sound state) (balanced : AllBalanced state.groups)
    (found : state.clients.find id = some client) (polls : client.phase = .poll)
    (groupWord : Word client.groupId) (consumerWord : Word client.consumerId)
    (known : state.groups.find client.groupId = some group)
    (joined : group.members.find client.consumerId = some member)
    (readable : ∀ key ∈ member.assignments, state.world.broker.Readable client.groupId key)
    (room : client.groupId.length + client.consumerId.length + 3 * member.topic.length + 128 ≤
      kMaxPayloadSize) : (workload state id client member).Sound := by
  obtain ⟨subject, assigned⟩ := sound.members _ group known _ member joined
  have accepted : client.Accepted := by simpa [polls] using (sound.clients id client found).joined
  have words : client.words = [client.groupId, client.consumerId] := by
    rw [Client.words, fields_singleton groupWord.1 groupWord.2,
      fields_singleton consumerWord.1 consumerWord.2]
    rfl
  refine ⟨groupWord, consumerWord, ?_, subject, assigned, (balanced _ group known).nodup _ _ joined,
    ?_, ?_, ?_, ?_, ?_, room⟩
  · exact (accepted.group_eq words).symm
  · exact fun key _ message inside => sound.text key.topic key.partition message inside
  · intro key _
    simp only [workload, reportedOffset]
    cases committed : (offsetsOf state.groups client.groupId).find key with
    | none => exact Nat.zero_le _
    | some offset => exact (sound.offsets _ key offset committed).within
  · exact fun key listed => (readable key listed).countable
  · exact fun key listed => (readable key listed).fits
  · exact fun key listed => (readable key listed).unmistaken

theorem workload_left (found : state.clients.find id = some client) (polls : client.phase = .poll)
    (idle : client.pending = none) (known : state.groups.find client.groupId = some group)
    (joined : group.members.find client.consumerId = some member)
    (readable : ∀ key ∈ member.assignments, state.world.broker.Readable client.groupId key) :
    (workload state id client member).Left state
      (2 * roundTrips state.world.broker client.groupId member.assignments) := by
  have unread (key : TopicPartition) : (workload state id client member).Unread [] key ↔
      state.world.broker.unread client.groupId key ≠ [] := by
    rw [Broker.unread, ne_eq, List.drop_eq_nil_iff, Nat.not_le]
    rfl
  have same : member.assignments.countP
      (fun key => (workload state id client member).Unread [] key) =
      member.assignments.countP fun key => state.world.broker.unread client.groupId key ≠ [] :=
    List.countP_congr fun key _ => by simpa using unread key
  have trips : roundTrips state.world.broker client.groupId member.assignments =
      (workload state id client member).ahead [] member.assignments false + 2 := by
    have keys : (workload state id client member).keys = member.assignments := rfl
    simp only [roundTrips, Workload.ahead, keys, same, Bool.false_eq_true, false_or]
    split <;> split <;> omega
  rw [trips]
  refine ⟨?_, .poll, none, [], [], true, ?_, ⟨?_, by simp, ?_⟩, ?_, .poll []⟩
  · intro key listed
    obtain ⟨messages, stored⟩ := Option.isSome_iff_exists.mp (readable key listed).present
    rw [stored]
    exact congrArg some (stored?_messages stored).symm
  · rw [workload, found, Workload.client, ← polls, ← idle]
  · exact fun _ => ⟨group, member, known, joined, rfl⟩
  · intro other isOther key _
    simp only [workload, Workload.offset, List.not_mem_nil, if_false, reportedOffset, offsetsOf]
    simp only [workload] at isOther
    rw [isOther]
    rfl
  · intro key _
    simp [workload]

theorem workload_finished {final : ConsumerState σ} (sound : (workload state id client member).Sound)
    (left : (workload state id client member).Left final 0) :
    ReadThrough state final id client member.assignments := by
  obtain ⟨_, phase, pending, committed, read, isMember, found, isCommitted, hasRead, stage⟩ := left
  cases stage with
  | finished done drained =>
      refine ⟨found, isCommitted.absent rfl, ?_, ?_⟩
      · intro group known key listed
        have offset := isCommitted.offsets group known key listed
        rw [Workload.drained_offset sound listed (drained key listed)] at offset
        simp only [reportedOffset, offsetsOf, known, Option.map_some, Option.getD_some]
        exact offset
      · intro key listed
        refine (hasRead key listed).trans ?_
        simp only [workload, Broker.unread, List.append_cancel_left_eq]
        have offset := Workload.drained_offset sound listed (drained key listed)
        simp only [workload, Workload.offset] at offset
        split
        · rfl
        · rename_i fresh
          rw [if_neg fresh] at offset
          exact (List.drop_eq_nil_of_le offset.ge).symm

end Start

theorem sound_start {world : World σ} (noGroups : world.broker.consumerGroups = ∅)
    (text : ∀ topic partition, ∀ message ∈ world.broker.messages topic partition,
      PayloadText message) : Sound (⟨world, ∅, []⟩ : ConsumerState σ) := by
  refine ⟨text, ?_, ?_, by simp⟩
  · intro query group found
    simp [ConsumerState.groups, noGroups] at found
  · intro query key committed found
    simp [offsetsOf, ConsumerState.groups, noGroups] at found

/-- However the steps of the other clients fall between its own, as long as they leave its
group and its partitions alone, a consumer goes on until it has read through its partitions. -/
theorem consumer_finishes {world : World σ} (noGroups : world.broker.consumerGroups = ∅)
    (text : ∀ topic partition, ∀ message ∈ world.broker.messages topic partition,
      PayloadText message)
    {earlier : List (ConsumerEvent σ)} {start : ConsumerState σ}
    (reached : Transition.run consumerStep ⟨world, ∅, []⟩ earlier = some start) {id : Nat}
    {client : Client} (found : start.clients.find id = some client) (polls : client.phase = .poll)
    (idle : client.pending = none) (groupWord : Word client.groupId)
    (consumerWord : Word client.consumerId) {group : ConsumerGroup} {member : GroupMember}
    (known : start.groups.find client.groupId = some group)
    (joined : group.members.find client.consumerId = some member)
    (readable : ∀ key ∈ member.assignments, start.world.broker.Readable client.groupId key)
    (room : client.groupId.length + client.consumerId.length + 3 * member.topic.length + 128 ≤
      kMaxPayloadSize)
    {events : List (ConsumerEvent σ)} {final : ConsumerState σ}
    (undisturbed : Transition.StepsMeet (fun state event => event.own id = true ∨
      ∀ next ∈ consumerStep state event,
        Undisturbing id client.groupId member.assignments state next) consumerStep start events)
    (finished : Transition.run consumerStep start events = some final) :
    let steps := 2 * roundTrips start.world.broker client.groupId member.assignments
    events.countP (ConsumerEvent.own id) ≤ steps ∧
      (events.countP (ConsumerEvent.own id) < steps → ∀ env,
        (consumerStep final (.send id env)).isSome ∨ (consumerStep final (.receive id)).isSome) ∧
      (events.countP (ConsumerEvent.own id) = steps →
        ReadThrough start final id client member.assignments) := by
  obtain ⟨sound, balanced⟩ := Transition.run_invariant
    (fun state : ConsumerState σ => Sound state ∧ AllBalanced state.groups)
    (fun _ _ _ invariant stepped => ⟨consumerStep_sound invariant.1 stepped,
      consumerStep_balanced invariant.2 stepped⟩)
    ⟨sound_start noGroups text, (orderly_start noGroups).balanced⟩ reached
  have workSound := workload_sound sound balanced found polls groupWord consumerWord known joined
    readable room
  obtain ⟨rest, total, left⟩ := Transition.run_countdown (ConsumerEvent.own id)
    (workload start id client member).Left
    (fun _ _ _ _ left own stepped => left.counted workSound own stepped)
    (fun _ _ _ _ left undisturbing _ stepped => left.undisturbed (undisturbing _ stepped))
    (workload_left found polls idle known joined readable) undisturbed finished
  refine ⟨by omega, fun fewer env => left.enabled workSound (by omega) env, fun all => ?_⟩
  obtain rfl : rest = 0 := by omega
  exact workload_finished workSound left

end Runs

def joinAlone : List (ConsumerEvent Unit) :=
  [.request (ascii "PRODUCE t 0 a") smoothEnvironment,
    .request (ascii "PRODUCE t 0 b") smoothEnvironment,
    .start 1 (ascii "t") (ascii "g") (ascii "c"), .send 1 smoothEnvironment, .receive 1]

/-- Three partitions, one of them committed, and then once more, with a `PRODUCE` elsewhere. -/
def consumeAlone : List (ConsumerEvent Unit) :=
  .request (ascii "PRODUCE u 0 x") smoothEnvironment ::
    (List.replicate 10 [.send 1 smoothEnvironment, .receive 1]).flatten

theorem request_groups {σ : Type} {state next : ConsumerState σ} {raw : Bytes}
    {env : Environment σ} (stepped : consumerStep state (.request raw env) = some next)
    (noGroup : ∀ partitionCount?, groupEvent? partitionCount? (parseRequest raw) = none) :
    next.groups = state.groups := by
  obtain ⟨partitionCount?, effect⟩ := handleRequest_groups env state.world (parseRequest raw)
  rw [noGroup partitionCount?] at effect
  cases consumerStep_change stepped with
  | requested raw env noCommit => exact effect

theorem consumer_finishes_two : ∃ start final client,
    Transition.run consumerStep ⟨freshWorld, ∅, []⟩ joinAlone = some start ∧
      Transition.run consumerStep start consumeAlone = some final ∧
      ReadThrough start final 1 client [⟨ascii "t", 0⟩, ⟨ascii "t", 1⟩, ⟨ascii "t", 2⟩] ∧
      start.world.broker.unread client.groupId ⟨ascii "t", 0⟩ = [ascii "a", ascii "b"] := by
  let client : Client := { topic := ascii "t", groupId := ascii "g", consumerId := ascii "c",
                           phase := .poll }
  let member : GroupMember := ⟨ascii "c", ascii "t",
    [⟨ascii "t", 0⟩, ⟨ascii "t", 1⟩, ⟨ascii "t", 2⟩]⟩
  have evaluated : ∃ start ∈ Transition.run consumerStep ⟨freshWorld, ∅, []⟩ joinAlone,
      start.clients.find 1 = some client ∧
      (∃ group ∈ start.groups.find client.groupId,
        group.members.find client.consumerId = some member) ∧
      (∀ key ∈ member.assignments, start.world.broker.Readable client.groupId key) ∧
      (∀ next ∈ consumerStep start (.request (ascii "PRODUCE u 0 x") smoothEnvironment),
        next.clients.find 1 = start.clients.find 1 ∧ ∀ key ∈ member.assignments,
          next.world.broker.stored? key = start.world.broker.stored? key ∧
          groupRead next.receipts client.groupId key =
            groupRead start.receipts client.groupId key) ∧
      (Transition.run consumerStep start consumeAlone).isSome ∧
      consumeAlone.countP (ConsumerEvent.own 1) =
        2 * roundTrips start.world.broker client.groupId member.assignments ∧
      start.world.broker.unread client.groupId ⟨ascii "t", 0⟩ = [ascii "a", ascii "b"] := by
    decide +kernel
  obtain ⟨start, reached, found, ⟨group, known, joined⟩, readable, elsewhere, completes, all,
    unread⟩ := evaluated
  obtain ⟨final, finished⟩ := Option.isSome_iff_exists.mp completes
  have noMessages : ∀ topic partition, ∀ message ∈
      (freshWorld : World Unit).broker.messages topic partition, PayloadText message := by
    intro topic partition message inside
    simp [freshWorld, Broker.messages] at inside
  have produces : (parseRequest (ascii "PRODUCE u 0 x")).type = .produce := by decide +kernel
  have undisturbed : Transition.StepsMeet (fun state event => event.own 1 = true ∨
      ∀ next ∈ consumerStep state event,
        Undisturbing 1 client.groupId member.assignments state next) consumerStep start
          consumeAlone := by
    refine ⟨Or.inr fun next stepped => ?_, fun next _ => ?_⟩
    · obtain ⟨sameClient, same⟩ := elsewhere next stepped
      have groups := request_groups stepped fun _ => by simp [groupEvent?, produces]
      exact ⟨sameClient, by rw [groups], fun key listed => (same key listed).1,
        fun key listed => (same key listed).2⟩
    · have own : ∀ event ∈ (List.replicate 10
          [(.send 1 smoothEnvironment : ConsumerEvent Unit), .receive 1]).flatten,
          event.own 1 = true := by
        intro event inside
        obtain ⟨turn, isTurn, member⟩ := List.mem_flatten.mp inside
        rw [List.eq_of_mem_replicate isTurn] at member
        simp only [List.mem_cons, List.not_mem_nil, or_false] at member
        rcases member with rfl | rfl <;> rfl
      exact (Transition.stepsMeet_of_forall own next).imp fun _ _ isOwn => Or.inl isOwn
  obtain ⟨_, _, through⟩ := consumer_finishes rfl noMessages reached found rfl rfl (by decide +kernel)
    (by decide +kernel) known joined readable (by decide +kernel) undisturbed finished
  exact ⟨start, final, client, reached, finished, through all, unread⟩

end KafkaBroker
