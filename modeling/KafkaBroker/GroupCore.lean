import Mathlib.Data.List.Sort
import KafkaBroker.Lib.Table
import KafkaBroker.ProtocolCore

/-!
Consumer groups: membership, round-robin assignment and committed offsets. The
entries of a table stand in some order for the entries of a hash map.
-/

namespace KafkaBroker

open ByteText

structure TopicPartition where
  topic : Bytes
  partition : Int
  deriving DecidableEq, Repr

structure GroupMember where
  consumerId : Bytes := []
  topic : Bytes := []
  assignments : List TopicPartition := []
  deriving DecidableEq, Repr

abbrev Members := Table Bytes GroupMember

structure ConsumerGroup where
  groupId : Bytes
  members : Members
  committedOffsets : Table TopicPartition Nat
  deriving DecidableEq

abbrev ConsumerGroups := Table Bytes ConsumerGroup

def kDefaultPartitionCount : Nat := 3

/-- The sorted vectors of `topic_to_consumers`, in the key order of `std::map`. -/
def topicToConsumers (members : Members) : List (Bytes × List Bytes) :=
  let table := members.entries.foldl
    (fun (table : Table Bytes (List Bytes)) entry =>
      table.set entry.2.topic ((table.find entry.2.topic).getD [] ++ [entry.1])) ∅
  (table.keys.insertionSort (· ≤ ·)).map fun topic =>
    (topic, ((table.find topic).getD []).insertionSort (· ≤ ·))

def assignPartition (topic : Bytes) (consumerIds : List Bytes) (members : Members)
    (partition : Nat) : Members :=
  let consumerId := consumerIds.getD (partition % consumerIds.length) []
  let member := (members.find consumerId).getD {}
  members.set consumerId
    { member with assignments := member.assignments ++ [⟨topic, partition⟩] }

def assignTopic (members : Members) (topicEntry : Bytes × List Bytes) : Members :=
  (List.range kDefaultPartitionCount).foldl (assignPartition topicEntry.1 topicEntry.2) members

def rebalanceGroup (group : ConsumerGroup) : ConsumerGroup :=
  let cleared := Table.mapValues (fun member => { member with assignments := [] }) group.members
  { group with members := (topicToConsumers cleared).foldl assignTopic cleared }

def joinGroup (groups : ConsumerGroups) (req : Request) : Bytes × ConsumerGroups :=
  let emptyGroup : ConsumerGroup := ⟨req.groupId, ∅, ∅⟩
  let stored := Table.emplace groups req.groupId emptyGroup
  let group := (stored.find req.groupId).getD emptyGroup
  if (group.members.find req.consumerId).isSome then (ascii "ERROR", stored)
  else
    let joined := { group with
      members := group.members.set req.consumerId
        { consumerId := req.consumerId, topic := req.topic } }
    (ascii "OK", stored.set req.groupId (rebalanceGroup joined))

/-- Store a group after a member left it: an empty group is removed. -/
def storeAfterRemoval (groups : ConsumerGroups) (groupId : Bytes) (group : ConsumerGroup) :
    ConsumerGroups :=
  if group.members.entries = [] then groups.remove groupId
  else groups.set groupId (rebalanceGroup group)

def eraseMember (group : ConsumerGroup) (consumerId : Bytes) : ConsumerGroup :=
  { group with members := group.members.remove consumerId }

def leaveGroup (groups : ConsumerGroups) (req : Request) : Bytes × ConsumerGroups :=
  match groups.find req.groupId with
  | none => (ascii "ERROR", groups)
  | some group =>
      if (group.members.find req.consumerId).isNone then (ascii "ERROR", groups)
      else (ascii "OK",
        storeAfterRemoval groups req.groupId (eraseMember group req.consumerId))

def removeConsumerFromGroup (groups : ConsumerGroups) (groupId consumerId : Bytes) :
    ConsumerGroups :=
  match groups.find groupId with
  | none => groups
  | some group => storeAfterRemoval groups groupId (eraseMember group consumerId)

def pollRow (group : ConsumerGroup) (assignment : TopicPartition) : Bytes :=
  assignment.topic ++ space :: decimalInt assignment.partition ++
    space :: decimal ((group.committedOffsets.find assignment).getD 0)

def groupPoll (groups : ConsumerGroups) (req : Request) : Bytes :=
  match groups.find req.groupId with
  | none => ascii "ERROR"
  | some group =>
      match group.members.find req.consumerId with
      | none => ascii "ERROR"
      | some member => joinLines (member.assignments.map (pollRow group))

/-- `partitionCount?` is the number of partitions of the request's topic, if the
topic exists. -/
def commitOffset (groups : ConsumerGroups) (partitionCount? : Option Nat) (req : Request) :
    Bytes × ConsumerGroups :=
  match groups.find req.groupId with
  | none => (ascii "ERROR", groups)
  | some group =>
      if (group.members.find req.consumerId).isNone then (ascii "ERROR", groups)
      else match partitionCount? with
        | none => (ascii "ERROR", groups)
        | some count =>
            if req.partition < 0 ∨ req.partition ≥ count then (ascii "ERROR", groups)
            else
              let committed := { group with
                committedOffsets :=
                  group.committedOffsets.set ⟨req.topic, req.partition⟩ req.offset }
              (ascii "OK", groups.set req.groupId committed)

def getCommittedOffset (groups : ConsumerGroups) (groupId topic : Bytes) (partition : Int) :
    Option Nat :=
  match groups.find groupId with
  | none => none
  | some group => group.committedOffsets.find ⟨topic, partition⟩

end KafkaBroker
