import KafkaBroker.RecordCore
import KafkaBroker.Lib.Posix

/-!
`TopicLog`: appending a record through the POSIX calls and reading the log back
at startup. The results of the calls are an argument; running out of results is
the process dying at that call.
-/

namespace KafkaBroker

open ByteText Posix

/-- How a C++ call ends: it returns, an exception leaves it, or the process dies. -/
inductive Outcome (α : Type)
  | returned (value : α)
  | threw
  | crashed
  deriving DecidableEq, Repr

inductive Call
  | succeeded
  | interrupted
  | failed
  deriving DecidableEq, Repr

inductive WriteCall
  | wrote (count : Nat)
  | interrupted
  | failed
  deriving DecidableEq, Repr

/-- The results of the system calls of one append, in program order. -/
structure AppendCalls where
  createDirectories : Option Call
  opens : List Call
  writes : List WriteCall
  syncs : List Call
  close : Option Call
  deriving DecidableEq, Repr

def onceCall : Option Call → Outcome Unit
  | none => .crashed
  | some .succeeded => .returned ()
  | some _ => .threw

def retryCall : List Call → Outcome Unit
  | [] => .crashed
  | .succeeded :: _ => .returned ()
  | .interrupted :: rest => retryCall rest
  | .failed :: _ => .threw

/-- The write loop: the bytes that reached the file, and how the loop ended. -/
def writeAll (pending : Bytes) : List WriteCall → Bytes × Outcome Unit
  | [] => ([], if pending = [] then .returned () else .crashed)
  | call :: rest =>
      if pending = [] then ([], .returned ())
      else match call with
        | .interrupted => writeAll pending rest
        | .failed => ([], .threw)
        | .wrote count =>
            if count = 0 then ([], .threw)
            else
              let later := writeAll (pending.drop count) rest
              (pending.take count ++ later.1, later.2)

def syncAndClose (calls : AppendCalls) (wrote : Outcome Unit) : Outcome Unit :=
  match wrote with
  | .threw => .threw
  | .crashed => .crashed
  | .returned _ =>
      match retryCall calls.syncs with
      | .threw => .threw
      | .crashed => .crashed
      | .returned _ => onceCall calls.close

structure TopicLog where
  topic : Bytes
  partitionId : Int
  dataDir : Bytes
  topicNonempty : topic ≠ []
  partitionNonneg : 0 ≤ partitionId

def TopicLog.create (topic : Bytes) (partitionId : Int) (dataDir : Bytes) : Option TopicLog :=
  if nonempty : topic ≠ [] then
    if nonneg : 0 ≤ partitionId then some ⟨topic, partitionId, dataDir, nonempty, nonneg⟩
    else none
  else none

def partitionFile (partitionId : Int) : Bytes :=
  ascii "partition-" ++ decimalInt partitionId ++ ascii ".log"

def TopicLog.folder (log : TopicLog) : Bytes := log.dataDir ++ slash :: log.topic

def TopicLog.logPath (log : TopicLog) : Bytes :=
  log.dataDir ++ slash :: log.topic ++ slash :: partitionFile log.partitionId

def TopicLog.append (log : TopicLog) (record : Record) (calls : AppendCalls)
    (disk : FileSystem) : Outcome Unit × FileSystem :=
  match onceCall calls.createDirectories with
  | .threw => (.threw, disk)
  | .crashed => (.crashed, disk)
  | .returned _ =>
  match createDirectories disk [] (resolve log.folder) with
  | none => (.threw, disk)
  | some prepared =>
  match retryCall calls.opens with
  | .threw => (.threw, prepared)
  | .crashed => (.crashed, prepared)
  | .returned _ =>
  match openAppend prepared (resolve log.logPath) with
  | none => (.threw, prepared)
  | some opened =>
  let wrote := writeAll (serializeRecord record) calls.writes
  (syncAndClose calls wrote.2, appendBytes opened (resolve log.logPath) wrote.1)

/-- The decoded records; an undecodable tail is cut off the file. -/
def TopicLog.readAll (log : TopicLog) (disk : FileSystem) : List Record × FileSystem :=
  match contents? disk (resolve log.logPath) with
  | none => ([], disk)
  | some buffer =>
      let decoded := readRecords buffer buffer.length 0
      (decoded.1,
        if decoded.2 < buffer.length then resizeFile disk (resolve log.logPath) decoded.2
        else disk)

end KafkaBroker
