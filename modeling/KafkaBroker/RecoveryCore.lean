import KafkaBroker.BrokerCore

/-! `recover_from_disk`: the scan of the data directory at startup. -/

namespace KafkaBroker

open ByteText Posix

/-- Where the scan leaves defined behaviour or throws. -/
inductive RecoveryError
  | badPartitionId
  | negativePartitionId
  | partitionIdOverflow
  | unreadableLog
  deriving DecidableEq, Repr

def dot : Byte := 46

/-- `path::stem` and `path::extension` of a file name: the split is at the last dot,
unless the name starts with it. -/
def splitExtension (name : Bytes) : Bytes × Bytes :=
  let suffix := (name.reverse.takeWhile fun byte => byte ≠ dot).length
  if suffix + 1 < name.length then
    (name.take (name.length - suffix - 1), name.drop (name.length - suffix - 1))
  else (name, [])

def partitionStem : Bytes := ascii "partition-"

/-- A file the scan looks at: a regular file `partition-*.log`. The result is the
text between the two. -/
def partitionText (name : Bytes) (node : Node) : Option Bytes :=
  match node with
  | .directory => none
  | .file _ =>
      let parts := splitExtension name
      if parts.2 = ascii ".log" ∧ partitionStem.isPrefixOf parts.1 then
        some (parts.1.drop partitionStem.length)
      else none

/-- `vector::resize` with the placeholder partition, where the id is out of range. -/
def growPartitions (partitions : List Partition) (partitionId : Nat) : List Partition :=
  if partitions.length ≤ partitionId then
    partitions ++ List.replicate (partitionId + 1 - partitions.length) { id := -1 }
  else partitions

structure TopicScan where
  topic : Topic
  foundAnyPartition : Bool
  progress : Table TopicPartition Nat
  disk : FileSystem

def loadPartition (role : BrokerRole) (dataDir : Bytes) (scan : TopicScan) (partitionId : Nat) :
    TopicScan :=
  let read := match TopicLog.create scan.topic.name partitionId dataDir with
    | none => ([], scan.disk)
    | some log => log.readAll scan.disk
  let payloads := read.1.map Record.payload
  { topic := { scan.topic with
      partitions := (growPartitions scan.topic.partitions partitionId).modify partitionId
        fun stored => { id := partitionId, messages := stored.messages ++ payloads } }
    foundAnyPartition := true
    progress :=
      if role = .follower ∧ payloads ≠ [] then
        scan.progress.set ⟨scan.topic.name, partitionId⟩ (payloads.length - 1)
      else scan.progress
    disk := read.2 }

/-- `read_all` throws where a directory has the log's name. -/
def unreadableLog (dataDir : Bytes) (scan : TopicScan) (partitionId : Nat) : Bool :=
  match TopicLog.create scan.topic.name partitionId dataDir with
  | none => false
  | some log => scan.disk.find (resolve log.logPath) = some .directory

def scanFile (role : BrokerRole) (dataDir : Bytes) (scan : TopicScan) (file : Bytes × Node) :
    Except RecoveryError TopicScan :=
  match partitionText file.1 file.2 with
  | none => .ok scan
  | some text =>
      match stoi text with
      | none => .error .badPartitionId
      | some (partitionId, _) =>
          if partitionId < 0 then .error .negativePartitionId
          else if partitionId + 1 ≥ 2 ^ 31 then .error .partitionIdOverflow
          else if unreadableLog dataDir scan partitionId.toNat then .error .unreadableLog
          else .ok (loadPartition role dataDir scan partitionId.toNat)

def scanFiles (role : BrokerRole) (dataDir : Bytes) :
    TopicScan → List (Bytes × Node) → Except RecoveryError TopicScan
  | scan, [] => .ok scan
  | scan, file :: rest =>
      match scanFile role dataDir scan file with
      | .error error => .error error
      | .ok next => scanFiles role dataDir next rest

structure StoreScan where
  topics : Table Bytes Topic
  progress : Table TopicPartition Nat
  disk : FileSystem

def scanTopic (role : BrokerRole) (dataDir : Bytes) (scan : StoreScan) (entry : Bytes × Node) :
    Except RecoveryError StoreScan :=
  if entry.2 ≠ .directory ∨ entry.1 = [] then .ok scan
  else
    let files := children scan.disk (resolve dataDir ++ [entry.1])
    match scanFiles role dataDir ⟨Topic.create entry.1, false, scan.progress, scan.disk⟩ files with
    | .error error => .error error
    | .ok scanned => .ok {
        topics := if scanned.foundAnyPartition then scan.topics.set entry.1 scanned.topic
          else scan.topics
        progress := scanned.progress
        disk := scanned.disk }

def scanTopics (role : BrokerRole) (dataDir : Bytes) :
    StoreScan → List (Bytes × Node) → Except RecoveryError StoreScan
  | scan, [] => .ok scan
  | scan, entry :: rest =>
      match scanTopic role dataDir scan entry with
      | .error error => .error error
      | .ok next => scanTopics role dataDir next rest

def Broker.recoverFromDisk (broker : Broker) (dataDir : Bytes) (disk : FileSystem) :
    Except RecoveryError (Broker × FileSystem) :=
  if !namesDirectory disk dataDir then .ok ({ broker with dataDir }, disk)
  else
    match scanTopics broker.role dataDir ⟨broker.topics, broker.replicationProgress, disk⟩
        (children disk (resolve dataDir)) with
    | .error error => .error error
    | .ok scanned => .ok ({ broker with
        dataDir
        topics := scanned.topics
        replicationProgress := scanned.progress }, scanned.disk)

def startBroker (role : BrokerRole) (followerPort : Int) (dataDir : Bytes) (disk : FileSystem) :
    Except RecoveryError (Broker × FileSystem) :=
  (Broker.configure {} role followerPort).recoverFromDisk dataDir disk

end KafkaBroker
