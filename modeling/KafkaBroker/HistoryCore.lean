import Mathlib.Data.Finset.Card
import KafkaBroker.BrokerCore
import KafkaBroker.Lib.Transition

/-!
A broker with the history of its observations, and what the history alone says about the
consumer groups: who is a member, how the partitions are shared and which offset was
committed last. Beside the requests and disconnects, a run chooses the order in which the
hash maps of members iterate.
-/

namespace KafkaBroker

open ByteText

/-- A request with its answer, if it got one, or the removal of a consumer whose
connection was closed. -/
inductive Observation
  | request (req : Request) (response? : Option Bytes)
  | disconnect (groupId consumerId : Bytes)
  deriving DecidableEq

def Observation.consumerId : Observation → Bytes
  | .request req _ => req.consumerId
  | .disconnect _ consumerId => consumerId

/-! Functions of a history, which has its latest observation first. -/

def subscription (groupId consumerId : Bytes) : List Observation → Option Bytes
  | [] => none
  | .request req response? :: earlier =>
      if req.groupId = groupId ∧ req.consumerId = consumerId ∧ response? = some (ascii "OK") then
        match req.type with
        | .join => some req.topic
        | .leave => none
        | _ => subscription groupId consumerId earlier
      else subscription groupId consumerId earlier
  | .disconnect group consumer :: earlier =>
      if group = groupId ∧ consumer = consumerId then none
      else subscription groupId consumerId earlier

def currentMembers (groupId : Bytes) (history : List Observation) : Finset Bytes :=
  (history.map Observation.consumerId).toFinset.filter fun consumerId =>
    (subscription groupId consumerId history).isSome

def subscribedTo (groupId topic : Bytes) (history : List Observation) : Finset Bytes :=
  (history.map Observation.consumerId).toFinset.filter fun consumerId =>
    subscription groupId consumerId history = some topic

def Observation.committed? (groupId : Bytes) (key : TopicPartition) : Observation → Option Nat
  | .request req response? =>
      if req.type = .commit ∧ req.groupId = groupId ∧ ⟨req.topic, req.partition⟩ = key ∧
          response? = some (ascii "OK") then some req.offset
      else none
  | .disconnect _ _ => none

/-- The last offset committed since the group last had no members. -/
def lastCommitted (groupId : Bytes) (key : TopicPartition) : List Observation → Option Nat
  | [] => none
  | observation :: earlier =>
      if currentMembers groupId (observation :: earlier) = ∅ then none
      else match observation.committed? groupId key with
        | some offset => some offset
        | none => lastCommitted groupId key earlier

def rank (consumers : Finset Bytes) (consumerId : Bytes) : Nat :=
  (consumers.filter (· < consumerId)).card

def expectedRow (groupId topic : Bytes) (history : List Observation) (partition : Nat) : Bytes :=
  topic ++ space :: decimal partition ++
    space :: decimal ((lastCommitted groupId ⟨topic, partition⟩ history).getD 0)

/-- The answer to `GROUP_POLL` that the history determines. -/
def expectedPoll (groupId consumerId : Bytes) (history : List Observation) : Bytes :=
  match subscription groupId consumerId history with
  | none => ascii "ERROR"
  | some topic =>
      let consumers := subscribedTo groupId topic history
      joinLines (((List.range kDefaultPartitionCount).filter fun partition =>
        partition % consumers.card = rank consumers consumerId).map
          (expectedRow groupId topic history))

/-! Runs. -/

structure HashOrder where
  apply : Members → Members
  same : ∀ members consumerId, (apply members).find consumerId = members.find consumerId

def HashOrder.reorder (order : HashOrder) (groups : ConsumerGroups) : ConsumerGroups :=
  Table.mapValues (fun group => { group with members := order.apply group.members }) groups

structure HistoryState (σ : Type) where
  world : World σ
  history : List Observation := []

inductive HistoryEvent (σ : Type)
  | request (raw : Bytes) (env : Environment σ)
  | disconnect (groupId consumerId : Bytes)

def serveEvent {σ : Type} (state : HistoryState σ) : HistoryEvent σ → Option (HistoryState σ)
  | .request raw env =>
      let req := parseRequest raw
      let handled := handleRequest env state.world req
      match handled.1 with
      | .crashed => none
      | .threw => some ⟨handled.2, .request req none :: state.history⟩
      | .returned response => some ⟨handled.2, .request req (some response) :: state.history⟩
  | .disconnect groupId consumerId =>
      let groups := removeConsumerFromGroup state.world.broker.consumerGroups groupId consumerId
      some ⟨withGroups state.world groups, .disconnect groupId consumerId :: state.history⟩

/-- An event after which the members iterate in some order. A rebalance in that order
gives every consumer the same partitions, see `rebalanceGroup_reordered`. -/
def historyStep {σ : Type} (state : HistoryState σ) (event : HistoryEvent σ × HashOrder) :
    Option (HistoryState σ) :=
  (serveEvent state event.1).map fun next =>
    { next with
      world := withGroups next.world (event.2.reorder next.world.broker.consumerGroups) }

end KafkaBroker
