import KafkaBroker.ClusterCore
import KafkaBroker.Lib.TwoPhase

/-!
What the threads of `TcpServer` do with the broker they share: the requests as programs
that take and give back `topics_mutex_` and `consumer_groups_mutex_` where the code does.
Exchanges with the follower are outside the mutexes' protection, also where one is held.
-/

namespace KafkaBroker

open ByteText Posix TwoPhase

inductive Mutex
  | consumerGroups
  | topics
  deriving DecidableEq, Repr

structure Stored where
  topics : Table Bytes Topic
  replicationProgress : Table TopicPartition Nat
  disk : FileSystem

abbrev Guarded : Mutex → Type
  | .consumerGroups => ConsumerGroups
  | .topics => Stored

/-- The members of the broker that no request changes keep their values. -/
def Stored.broker (stored : Stored) (broker : Broker) : Broker :=
  { broker with topics := stored.topics, replicationProgress := stored.replicationProgress }

def Broker.stored (broker : Broker) (disk : FileSystem) : Stored :=
  ⟨broker.topics, broker.replicationProgress, disk⟩

inductive Answer
  | replied (outcome : Outcome Reply)
  | removed
  deriving DecidableEq

abbrev Locking (σ : Type) := Program Mutex Guarded σ Answer

section Programs

variable {σ : Type}

def reply (response : Bytes) (success : Bool) : Locking σ :=
  .finish (.replied (.returned (response, success)))

def underLock (lock : Mutex) (change : Guarded lock → Guarded lock)
    (next : Guarded lock → Locking σ) : Locking σ :=
  .acquire lock (.access lock change fun value => .release lock (next value))

/-! `synchronize_follower`; `next` is what its caller does then, whatever it returned. -/

def sendMissingLocked (link : Link σ) (target : TopicPartition) (failed done : Locking σ) :
    Nat → List Bytes → Locking σ
  | _, [] => done
  | offset, payload :: rest =>
      let answer (peer : σ) := clientRequest link peer
        (replicateMessage target.topic target.partition offset payload)
      .exchange (fun peer => (answer peer).1) fun peer =>
        if (answer peer).2 = some (ascii "OK") then
          sendMissingLocked link target failed done ((offset + 1) % 2 ^ 64) rest
        else failed

def catchUpFollowerLocked (broker : Broker) (link : Link σ) (target : TopicPartition)
    (followerProgress : Option Nat) (failed done : Locking σ) : Locking σ :=
  if broker.role ≠ .leader then failed
  else underLock .topics id fun stored =>
    let missing := (stored.broker broker).getMissingRecords target.topic target.partition
      followerProgress
    if missing = [] then done
    else if broker.followerPort ≤ 0 then failed
    else sendMissingLocked link target failed done (firstMissingOffset followerProgress) missing

def synchronizePartitionsLocked (broker : Broker) (link : Link σ) (next : Locking σ) :
    List TopicPartition → Locking σ
  | [] => next
  | target :: rest =>
      let queried (peer : σ) := queryFollowerProgress link peer target.topic target.partition
      .exchange (fun peer => (queried peer).1) fun peer =>
        match (queried peer).2 with
        | none => next
        | some progress => catchUpFollowerLocked broker link target progress next
            (synchronizePartitionsLocked broker link next rest)

def synchronizeFollowerLocked (broker : Broker) (link : Link σ) (next : Locking σ) : Locking σ :=
  if broker.replicates then
    underLock .topics id fun stored =>
      synchronizePartitionsLocked broker link next (stored.broker broker).nonEmptyPartitions
  else next

/-! The requests. -/

/-- The follower is told under `topics_mutex_`. -/
def appendLocked (broker : Broker) (env : Environment σ) (req : Request) : Locking σ :=
  let appended (stored : Stored) := appendLocal (stored.broker broker) stored.disk env.calls req
  .acquire .topics <|
  .access .topics (fun stored => (appended stored).2.1.stored (appended stored).2.2) fun stored =>
  match (appended stored).1 with
  | .threw => .release .topics (.finish (.replied .threw))
  | .crashed => .release .topics (.finish (.replied .crashed))
  | .returned none => .release .topics (reply (ascii "ERROR") false)
  | .returned (some offset) =>
      if broker.replicates then
        let answer (peer : σ) := clientRequest env.link peer
          (replicateMessage req.topic req.partition offset req.payload)
        .exchange (fun peer => (answer peer).1) fun peer =>
          .release .topics <|
          if (answer peer).2 = some (ascii "OK") then reply (ascii "OK") true
          else reply (ascii "ERROR") false
      else .release .topics (reply (ascii "OK") true)

def produceLocked (broker : Broker) (env : Environment σ) (req : Request) : Locking σ :=
  synchronizeFollowerLocked broker env.link (appendLocked broker env req)

def replicateLocked (broker : Broker) (calls : AppendCalls) (req : Request) : Locking σ :=
  if broker.role ≠ .follower then reply (ascii "ERROR") false
  else
    let replicated (stored : Stored) := replicate calls (stored.broker broker) stored.disk req
    underLock .topics (fun stored => (replicated stored).2.1.stored (replicated stored).2.2)
      fun stored => .finish (.replied (replicated stored).1)

def replicationProgressLocked (broker : Broker) (req : Request) : Locking σ :=
  if broker.role ≠ .follower then reply (ascii "ERROR") false
  else underLock .topics id fun stored =>
    match getReplicationProgress (stored.broker broker) req.topic req.partition with
    | none => reply (ascii "NONE") true
    | some progress => reply (decimal progress) true

def fetchLocked (broker : Broker) (req : Request) : Locking σ :=
  underLock .topics id fun stored =>
    .finish (.replied (.returned (fetch (stored.broker broker) req)))

/-- `commit_offset` asks for the topic while it holds the groups. -/
def commitLocked (req : Request) : Locking σ :=
  .acquire .consumerGroups <|
  .access .consumerGroups id fun groups =>
  match groups.find req.groupId with
  | none => .release .consumerGroups (reply (ascii "ERROR") false)
  | some group =>
  if (group.members.find req.consumerId).isNone then
    .release .consumerGroups (reply (ascii "ERROR") false)
  else underLock .topics id fun stored =>
  match stored.topics.find req.topic with
  | none => .release .consumerGroups (reply (ascii "ERROR") false)
  | some topic =>
  if req.partition < 0 ∨ req.partition ≥ topic.partitions.length then
    .release .consumerGroups (reply (ascii "ERROR") false)
  else
    .access .consumerGroups
      (fun groups => groups.set req.groupId { group with
        committedOffsets :=
          group.committedOffsets.set ⟨req.topic, req.partition⟩ req.offset }) fun _ =>
    .release .consumerGroups (reply (ascii "OK") true)

def groupsLocked (change : ConsumerGroups → Bytes × ConsumerGroups) (success : Bytes → Bool) :
    Locking σ :=
  underLock .consumerGroups (fun groups => (change groups).2) fun groups =>
    reply (change groups).1 (success (change groups).1)

/-- `METRICS` takes neither mutex and reads nothing they protect. -/
inductive BrokerCall (σ : Type)
  | request (req : Request) (env : Environment σ) (alive : env.calls.Survived)
      (counters : req.type ≠ .metrics)
  | remove (groupId consumerId : Bytes)

def brokerPrograms (broker : Broker) : BrokerCall σ → Locking σ
  | .remove groupId consumerId =>
      underLock .consumerGroups
        (fun groups => removeConsumerFromGroup groups groupId consumerId)
        fun _ => .finish .removed
  | .request req env _ _ =>
      match req.type with
      | .ping => reply (ascii "PONG") true
      | .replicationProgress => replicationProgressLocked broker req
      | .produce => produceLocked broker env req
      | .replicate => replicateLocked broker env.calls req
      | .fetch => fetchLocked broker req
      | .join => groupsLocked (joinGroup · req) fun response => response = ascii "OK"
      | .leave => groupsLocked (leaveGroup · req) fun response => response = ascii "OK"
      | .groupPoll => groupsLocked (fun groups => (groupPoll groups req, groups))
          fun response => response ≠ ascii "ERROR"
      | .commit => commitLocked req
      | .metrics | .invalid => reply (ascii "ERROR") false

/-! The broker as one object. -/

def World.shared (world : World σ) : Shared Guarded σ :=
  ⟨fun
    | .consumerGroups => world.broker.consumerGroups
    | .topics => world.broker.stored world.disk, world.peer⟩

def Broker.facing (broker : Broker) (shared : Shared Guarded σ) : World σ :=
  ⟨{ (shared.guarded .topics).broker broker with
      consumerGroups := shared.guarded .consumerGroups },
    (shared.guarded .topics).disk, shared.outside⟩

def performCall (world : World σ) : BrokerCall σ → World σ × Answer
  | .request req env _ _ =>
      let handled := dispatch env world req
      (handled.2, .replied handled.1)
  | .remove groupId consumerId =>
      (withGroups world
        (removeConsumerFromGroup world.broker.consumerGroups groupId consumerId), .removed)

end Programs

end KafkaBroker
