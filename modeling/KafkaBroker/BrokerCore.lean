import KafkaBroker.FramingCore
import KafkaBroker.GroupCore
import KafkaBroker.MetricsCore
import KafkaBroker.TopicLogCore

/-!
The broker: topics and partitions in memory, their logs on disk, the leader's side
of replication and the request switch. The exchange with the follower goes through
a link, a state-passing stand-in for `BrokerClient`.
-/

namespace KafkaBroker

open ByteText Posix

structure Partition where
  id : Int
  messages : List Bytes := []
  deriving DecidableEq, Repr

structure Topic where
  name : Bytes
  partitions : List Partition
  deriving DecidableEq, Repr

def Topic.create (name : Bytes) : Topic :=
  ⟨name, (List.range kDefaultPartitionCount).map fun index => { id := index }⟩

def Topic.hasPartition (topic : Topic) (partition : Int) : Bool :=
  0 ≤ partition ∧ partition < topic.partitions.length

def Topic.messages (topic : Topic) (partition : Int) : List Bytes :=
  if topic.hasPartition partition then
    (topic.partitions[partition.toNat]?.map Partition.messages).getD []
  else []

def Topic.push (topic : Topic) (partition : Int) (payload : Bytes) : Topic :=
  { topic with
    partitions := topic.partitions.modify partition.toNat fun stored =>
      { stored with messages := stored.messages ++ [payload] } }

inductive BrokerRole
  | leader
  | follower
  deriving DecidableEq, Repr

structure Broker where
  topics : Table Bytes Topic := ∅
  consumerGroups : ConsumerGroups := ∅
  replicationProgress : Table TopicPartition Nat := ∅
  metrics : Metrics := {}
  role : BrokerRole := .leader
  followerPort : Int := -1
  dataDir : Bytes := ascii "data"
  deriving DecidableEq

def Broker.configure (broker : Broker) (role : BrokerRole) (followerPort : Int) : Broker :=
  { broker with role, followerPort }

/-- The messages of a partition; none where there is no such partition. -/
def Broker.messages (broker : Broker) (topic : Bytes) (partition : Int) : List Bytes :=
  match broker.topics.find topic with
  | none => []
  | some stored => stored.messages partition

def Broker.replicates (broker : Broker) : Bool :=
  broker.role = .leader ∧ 0 < broker.followerPort

/-! The leader's side of replication. -/

/-- One exchange over a `BrokerClient`; no answer where the client throws. -/
abbrev Link (σ : Type) := σ → Bytes → σ × Option Bytes

/-- `write_frame` refuses a payload above the limit before it sends anything. -/
def clientRequest {σ : Type} (link : Link σ) (peer : σ) (message : Bytes) : σ × Option Bytes :=
  if message.length > kMaxPayloadSize then (peer, none) else link peer message

def replicateMessage (topic : Bytes) (partition : Int) (offset : Nat) (payload : Bytes) : Bytes :=
  ascii "REPLICATE " ++ topic ++ space :: decimalInt partition ++ space :: decimal offset ++
    space :: payload

def progressMessage (topic : Bytes) (partition : Int) : Bytes :=
  ascii "REPLICATION_PROGRESS " ++ topic ++ space :: decimalInt partition

/-- The follower's answer to a progress query; `none` where the leader throws. -/
def readProgress (response : Bytes) : Option (Option Nat) :=
  if response = ascii "NONE" then some none
  else match stoull response with
    | none => none
    | some (progress, parsedLength) =>
        if parsedLength ≠ response.length then none else some (some progress)

def queryFollowerProgress {σ : Type} (link : Link σ) (peer : σ) (topic : Bytes) (partition : Int) :
    σ × Option (Option Nat) :=
  let answer := clientRequest link peer (progressMessage topic partition)
  (answer.1, answer.2.bind readProgress)

def Broker.getMissingRecords (broker : Broker) (topic : Bytes) (partition : Int)
    (followerProgress : Option Nat) : List Bytes :=
  let messages := broker.messages topic partition
  if messages = [] then []
  else match followerProgress with
    | none => messages
    | some progress =>
        if progress ≥ messages.length - 1 then [] else messages.drop (progress + 1)

def firstMissingOffset (followerProgress : Option Nat) : Nat :=
  match followerProgress with
  | none => 0
  | some progress => (progress + 1) % 2 ^ 64

def sendMissing {σ : Type} (link : Link σ) (topic : Bytes) (partition : Int) :
    σ → Nat → List Bytes → Bool × σ
  | peer, _, [] => (true, peer)
  | peer, offset, payload :: rest =>
      let answer := clientRequest link peer (replicateMessage topic partition offset payload)
      if answer.2 = some (ascii "OK") then
        sendMissing link topic partition answer.1 ((offset + 1) % 2 ^ 64) rest
      else (false, answer.1)

def Broker.catchUpFollower {σ : Type} (broker : Broker) (link : Link σ) (peer : σ) (topic : Bytes)
    (partition : Int) (followerProgress : Option Nat) : Bool × σ :=
  if broker.role ≠ .leader then (false, peer)
  else
    let missing := broker.getMissingRecords topic partition followerProgress
    if missing = [] then (true, peer)
    else if broker.followerPort ≤ 0 then (false, peer)
    else sendMissing link topic partition peer (firstMissingOffset followerProgress) missing

def Broker.nonEmptyPartitions (broker : Broker) : List TopicPartition :=
  broker.topics.entries.flatMap fun entry =>
    (entry.2.partitions.filter fun partition => partition.messages ≠ []).map fun partition =>
      ⟨entry.1, partition.id⟩

def Broker.synchronizePartitions {σ : Type} (broker : Broker) (link : Link σ) :
    σ → List TopicPartition → Bool × σ
  | peer, [] => (true, peer)
  | peer, target :: rest =>
      let queried := queryFollowerProgress link peer target.topic target.partition
      match queried.2 with
      | none => (false, queried.1)
      | some progress =>
          let caughtUp :=
            broker.catchUpFollower link queried.1 target.topic target.partition progress
          if caughtUp.1 then broker.synchronizePartitions link caughtUp.2 rest
          else (false, caughtUp.2)

def Broker.synchronizeFollower {σ : Type} (broker : Broker) (link : Link σ) (peer : σ) : Bool × σ :=
  if broker.replicates then broker.synchronizePartitions link peer broker.nonEmptyPartitions
  else (false, peer)

/-! The request switch. -/

structure World (σ : Type) where
  broker : Broker
  disk : FileSystem
  peer : σ

structure Environment (σ : Type) where
  link : Link σ
  calls : AppendCalls
  elapsedUs : Nat := 0
  latencyFigures : List Nat → List Nat := fun _ => [0, 0, 0, 0, 0]

/-- The local half of `PRODUCE`, under `topics_mutex_`: the new record's offset, or
nothing where the partition does not exist. -/
def appendLocal (broker : Broker) (disk : FileSystem) (calls : AppendCalls) (req : Request) :
    Outcome (Option Nat) × Broker × FileSystem :=
  let topics := broker.topics.emplace req.topic (Topic.create req.topic)
  let topic := (topics.find req.topic).getD (Topic.create req.topic)
  if !topic.hasPartition req.partition then (.returned none, { broker with topics }, disk)
  else
    let offset := (topic.messages req.partition).length
    let pushed := { broker with
      topics := topics.set req.topic (topic.push req.partition req.payload) }
    match TopicLog.create req.topic req.partition broker.dataDir with
    | none => (.threw, pushed, disk)
    | some log =>
        let appended := log.append ⟨req.payload⟩ calls disk
        match appended.1 with
        | .returned _ => (.returned (some offset), pushed, appended.2)
        | .threw => (.threw, pushed, appended.2)
        | .crashed => (.crashed, pushed, appended.2)

abbrev Reply := Bytes × Bool

def produce {σ : Type} (env : Environment σ) (world : World σ) (req : Request) :
    Outcome Reply × World σ :=
  let peer := if world.broker.replicates
    then (world.broker.synchronizeFollower env.link world.peer).2 else world.peer
  let appended := appendLocal world.broker world.disk env.calls req
  let next : World σ := ⟨appended.2.1, appended.2.2, peer⟩
  match appended.1 with
  | .threw => (.threw, next)
  | .crashed => (.crashed, next)
  | .returned none => (.returned (ascii "ERROR", false), next)
  | .returned (some offset) =>
      if world.broker.replicates then
        let answer := clientRequest env.link peer
          (replicateMessage req.topic req.partition offset req.payload)
        if answer.2 = some (ascii "OK") then
          (.returned (ascii "OK", true), { next with peer := answer.1 })
        else (.returned (ascii "ERROR", false), { next with peer := answer.1 })
      else (.returned (ascii "OK", true), next)

def replicate (calls : AppendCalls) (broker : Broker) (disk : FileSystem) (req : Request) :
    Outcome Reply × Broker × FileSystem :=
  if broker.role ≠ .follower then (.returned (ascii "ERROR", false), broker, disk)
  else
    let topics := broker.topics.emplace req.topic (Topic.create req.topic)
    let topic := (topics.find req.topic).getD (Topic.create req.topic)
    let created := { broker with topics }
    if !topic.hasPartition req.partition then (.returned (ascii "ERROR", false), created, disk)
    else match TopicLog.create req.topic req.partition broker.dataDir with
      | none => (.returned (ascii "ERROR", false), created, disk)
      | some log =>
          let appended := log.append ⟨req.payload⟩ calls disk
          match appended.1 with
          | .crashed => (.crashed, created, appended.2)
          | .threw => (.returned (ascii "ERROR", false), created, appended.2)
          | .returned _ =>
              (.returned (ascii "OK", true),
                { broker with
                  replicationProgress :=
                    broker.replicationProgress.set ⟨req.topic, req.partition⟩ req.offset
                  topics := topics.set req.topic (topic.push req.partition req.payload) },
                appended.2)

def fetch (broker : Broker) (req : Request) : Reply :=
  match broker.topics.find req.topic with
  | none => (ascii "ERROR", false)
  | some topic =>
      if !topic.hasPartition req.partition then (ascii "ERROR", false)
      else
        let messages := topic.messages req.partition
        if req.offset ≥ messages.length then ([], true)
        else (joinLines (messages.drop req.offset), true)

def getReplicationProgress (broker : Broker) (topic : Bytes) (partition : Int) : Option Nat :=
  broker.replicationProgress.find ⟨topic, partition⟩

def replicationProgressReply (broker : Broker) (req : Request) : Reply :=
  if broker.role ≠ .follower then (ascii "ERROR", false)
  else match getReplicationProgress broker req.topic req.partition with
    | none => (ascii "NONE", true)
    | some progress => (decimal progress, true)

/-- A reply computed from the groups, with the groups it leaves behind. -/
def withGroups {σ : Type} (world : World σ) (groups : ConsumerGroups) : World σ :=
  { world with broker := { world.broker with consumerGroups := groups } }

def dispatch {σ : Type} (env : Environment σ) (world : World σ) (req : Request) :
    Outcome Reply × World σ :=
  match req.type with
  | .ping => (.returned (ascii "PONG", true), world)
  | .metrics =>
      (.returned (world.broker.metrics.toCsvRow env.latencyFigures, true), world)
  | .replicationProgress => (.returned (replicationProgressReply world.broker req), world)
  | .produce => produce env world req
  | .replicate =>
      let replicated := replicate env.calls world.broker world.disk req
      (replicated.1, { world with broker := replicated.2.1, disk := replicated.2.2 })
  | .fetch => (.returned (fetch world.broker req), world)
  | .join =>
      let joined := joinGroup world.broker.consumerGroups req
      (.returned (joined.1, joined.1 = ascii "OK"), withGroups world joined.2)
  | .leave =>
      let left := leaveGroup world.broker.consumerGroups req
      (.returned (left.1, left.1 = ascii "OK"), withGroups world left.2)
  | .groupPoll =>
      let response := groupPoll world.broker.consumerGroups req
      (.returned (response, response ≠ ascii "ERROR"), world)
  | .commit =>
      let partitionCount := (world.broker.topics.find req.topic).map fun topic =>
        topic.partitions.length
      let committed := commitOffset world.broker.consumerGroups partitionCount req
      (.returned (committed.1, committed.1 = ascii "OK"), withGroups world committed.2)
  | .invalid => (.returned (ascii "ERROR", false), world)

def requestBytes (req : Request) : Nat :=
  req.topic.length + req.groupId.length + req.consumerId.length + req.payload.length + 32

/-- An exception leaves the switch before the metrics are recorded. -/
def handleRequest {σ : Type} (env : Environment σ) (world : World σ) (req : Request) :
    Outcome Bytes × World σ :=
  let handled := dispatch env world req
  match handled.1 with
  | .threw => (.threw, handled.2)
  | .crashed => (.crashed, handled.2)
  | .returned reply =>
      let metrics := handled.2.broker.metrics.recordRequest req.type reply.2 (requestBytes req)
        env.elapsedUs
      (.returned reply.1, { handled.2 with broker := { handled.2.broker with metrics } })

end KafkaBroker
