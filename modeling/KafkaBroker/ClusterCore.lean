import KafkaBroker.ReplicationCore

/-!
Any number of `PRODUCE` threads on a leader whose follower is always there. A thread is
cut where it lets go of `topics_mutex_` and at each exchange of its catch-up.
-/

namespace KafkaBroker

open ByteText

inductive ThreadPhase
  | snapshot
  | query (target : TopicPartition) (rest : List TopicPartition)
  | missing (target : TopicPartition) (progress : Option Nat) (rest : List TopicPartition)
  | send (target : TopicPartition) (offset : Nat) (record : Bytes) (records : List Bytes)
      (rest : List TopicPartition)
  | produce
  | finished
  deriving DecidableEq

structure ProduceThread where
  req : Request
  phase : ThreadPhase := .snapshot
  deriving DecidableEq

def nextTarget : List TopicPartition → ThreadPhase
  | [] => .produce
  | target :: rest => .query target rest

def nextRecord (target : TopicPartition) (offset : Nat) (records : List Bytes)
    (rest : List TopicPartition) : ThreadPhase :=
  match records with
  | [] => nextTarget rest
  | record :: records => .send target offset record records rest

structure ClusterState where
  leader : World (World Unit)
  threads : Table Nat ProduceThread := ∅

def ClusterState.follower (state : ClusterState) : World Unit := state.leader.peer

/-- One step of a thread, with the leader it leaves behind. A failure of the catch-up
ends it, and the thread goes on to the append. -/
def threadStep {σ : Type} (env : Environment σ) (leader : World σ) (thread : ProduceThread) :
    Option (World σ × ThreadPhase) :=
  match thread.phase with
  | .snapshot => some (leader,
      if leader.broker.replicates then nextTarget leader.broker.nonEmptyPartitions else .produce)
  | .query target rest =>
      let queried := queryFollowerProgress env.link leader.peer target.topic target.partition
      some ({ leader with peer := queried.1 },
        match queried.2 with
        | none => .produce
        | some progress => .missing target progress rest)
  | .missing target progress rest =>
      some (leader, nextRecord target (firstMissingOffset progress)
        (leader.broker.getMissingRecords target.topic target.partition progress) rest)
  | .send target offset record records rest =>
      let answer := clientRequest env.link leader.peer
        (replicateMessage target.topic target.partition offset record)
      some ({ leader with peer := answer.1 },
        if answer.2 = some (ascii "OK") then
          nextRecord target ((offset + 1) % 2 ^ 64) records rest
        else .produce)
  | .produce =>
      let produced := appendAndReplicate env leader thread.req
      match produced.1 with
      | .crashed => none
      | _ => some (produced.2, .finished)
  | .finished => none

def AppendCalls.Survived (calls : AppendCalls) : Prop :=
  ∀ (log : TopicLog) (record : Record) (disk : Posix.FileSystem),
    (log.append record calls disk).1 ≠ .crashed

inductive ClusterEvent
  | arrive (id : Nat) (raw : Bytes)
  | step (id : Nat) (env : Environment (World Unit)) (followerEnv : Environment Unit)
      (alive : followerEnv.calls.Survived)

def steadyLink (config : StoreConfig) (followerEnv : Environment Unit) : Link (World Unit) :=
  fun follower message => deliver config followerEnv follower message

/-- A request arrives, or a thread goes one step on. The death of a broker is not a step. -/
def clusterStep (config : StoreConfig) (state : ClusterState) :
    ClusterEvent → Option ClusterState
  | .arrive id raw =>
      if (state.threads.find id).isSome ∨ raw.length > kMaxPayloadSize ∨
          (parseRequest raw).type ≠ .produce then none
      else some { state with threads := state.threads.set id { req := parseRequest raw } }
  | .step id env followerEnv _ =>
      match state.threads.find id with
      | none => none
      | some thread =>
          (threadStep { env with link := steadyLink config followerEnv } state.leader thread).map
            fun next => {
              leader := next.1
              threads := state.threads.set id { thread with phase := next.2 } }

def clusterStart (leaderConfig followerConfig : StoreConfig)
    (leaderDisk followerDisk : Posix.FileSystem) : Option ClusterState :=
  (restart followerConfig ⟨{}, followerDisk, ()⟩).bind fun follower =>
    (restart leaderConfig ⟨{}, leaderDisk, follower⟩).map fun leader => { leader }

/-! The same threads against a follower that may do anything. -/

/-- A peer with the messages put to it. -/
structure Recording (σ : Type) where
  peer : σ
  messages : List Bytes := []

def recordingLink {σ : Type} (link : Link σ) : Link (Recording σ) := fun recording message =>
  let answer := link recording.peer message
  (⟨answer.1, recording.messages ++ [message]⟩, answer.2)

def Environment.recording {σ : Type} (env : Environment σ) : Environment (Recording σ) :=
  { env with link := recordingLink env.link }

structure SentRecord where
  topic : Bytes
  partition : Int
  offset : Nat
  payload : Bytes
  deriving DecidableEq, Repr

def ProduceThread.sends {σ : Type} (leader : World σ) (calls : AppendCalls)
    (thread : ProduceThread) : List SentRecord :=
  match thread.phase with
  | .send target offset record _ _ => [⟨target.topic, target.partition, offset, record⟩]
  | .produce =>
      match (appendLocal leader.broker leader.disk calls thread.req).1 with
      | .returned (some offset) =>
          if leader.broker.replicates then
            [⟨thread.req.topic, thread.req.partition, offset, thread.req.payload⟩]
          else []
      | _ => []
  | _ => []

/-- The number of messages of a partition is a `std::size_t`. -/
def Broker.Sized (broker : Broker) : Prop :=
  ∀ entry ∈ broker.topics.entries, ∀ partition ∈ entry.2.partitions,
    partition.messages.length < 2 ^ 64

instance (broker : Broker) : Decidable broker.Sized :=
  inferInstanceAs (Decidable (∀ entry ∈ broker.topics.entries, _))

structure LeaderState (σ : Type) where
  leader : World (Recording σ)
  threads : Table Nat ProduceThread := ∅
  sent : List SentRecord := []

inductive LeaderEvent (σ : Type)
  | arrive (id : Nat) (raw : Bytes)
  | step (id : Nat) (env : Environment σ)

def leaderStart {σ : Type} (leader : World σ) : LeaderState σ :=
  { leader := ⟨leader.broker, leader.disk, { peer := leader.peer }⟩ }

/-- The follower answers each step as its link has it. -/
def leaderStep {σ : Type} (state : LeaderState σ) : LeaderEvent σ → Option (LeaderState σ)
  | .arrive id raw =>
      if (state.threads.find id).isSome ∨ raw.length > kMaxPayloadSize ∨
          (parseRequest raw).type ≠ .produce then none
      else some { state with threads := state.threads.set id { req := parseRequest raw } }
  | .step id env =>
      if ¬state.leader.broker.Sized then none
      else match state.threads.find id with
        | none => none
        | some thread =>
            (threadStep env.recording state.leader thread).map fun next => {
              leader := next.1
              threads := state.threads.set id { thread with phase := next.2 }
              sent := state.sent ++ thread.sends state.leader env.calls }

end KafkaBroker
