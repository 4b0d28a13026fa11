import KafkaBroker.Lib.Text

/-! The request record and `parse_request`, over the bytes of one frame. -/

namespace KafkaBroker

open ByteText

inductive RequestType
  | produce
  | fetch
  | join
  | leave
  | groupPoll
  | commit
  | replicate
  | replicationProgress
  | ping
  | metrics
  | invalid
  deriving DecidableEq, Repr

structure Request where
  type : RequestType := .invalid
  groupId : Bytes := []
  consumerId : Bytes := []
  topic : Bytes := []
  partition : Int := 0
  offset : Nat := 0
  payload : Bytes := []
  deriving DecidableEq, Repr

def hasExtraTokens (stream : Bytes) : Bool := (extract stream).isSome

def parsePartition (text : Bytes) : Option Int :=
  match stoi text with
  | none => none
  | some (parsed, position) =>
      if position ≠ text.length ∨ parsed < 0 ∨ parsed ≥ 3 then none else some parsed

def parseNonNegativeInt (text : Bytes) : Option Int :=
  match stoi text with
  | none => none
  | some (parsed, position) =>
      if position ≠ text.length ∨ parsed < 0 then none else some parsed

def parseOffset (text : Bytes) : Option Nat :=
  match stoll text with
  | none => none
  | some (parsed, position) =>
      if position ≠ text.length ∨ parsed < 0 then none else some parsed.toNat

/-- Blanks in front of the payload are dropped, unless there is nothing else. -/
def stripPayload (line : Bytes) : Bytes :=
  if line.all fun byte => byte = space then line
  else line.dropWhile fun byte => byte = space

def extractTwo (stream : Bytes) : Option (Bytes × Bytes × Bytes) :=
  match extract stream with
  | none => none
  | some (first, rest) =>
      match extract rest with
      | none => none
      | some (second, rest) => some (first, second, rest)

def extractThree (stream : Bytes) : Option (Bytes × Bytes × Bytes × Bytes) :=
  match extractTwo stream with
  | none => none
  | some (first, second, rest) =>
      match extract rest with
      | none => none
      | some (third, rest) => some (first, second, third, rest)

def parseProduce (stream : Bytes) : Request :=
  match extractTwo stream with
  | none => {}
  | some (topic, partitionText, rest) =>
      let payload := stripPayload (getline rest)
      if topic = [] ∨ payload = [] then {}
      else match parsePartition partitionText with
        | none => {}
        | some partition => { type := .produce, topic, partition, payload }

def parseFetch (stream : Bytes) : Request :=
  match extractThree stream with
  | none => {}
  | some (topic, partitionText, offsetText, rest) =>
      if hasExtraTokens rest then {}
      else match parsePartition partitionText with
        | none => {}
        | some partition =>
            match parseOffset offsetText with
            | none => { partition }
            | some offset => { type := .fetch, topic, partition, offset }

def parseReplicate (stream : Bytes) : Request :=
  match extractThree stream with
  | none => {}
  | some (topic, partitionText, offsetText, rest) =>
      let payload := stripPayload (getline rest)
      if topic = [] ∨ payload = [] then {}
      else match parseNonNegativeInt partitionText with
        | none => {}
        | some partition =>
            match parseOffset offsetText with
            | none => { partition }
            | some offset => { type := .replicate, topic, partition, offset, payload }

def parseReplicationProgress (stream : Bytes) : Request :=
  match extractTwo stream with
  | none => {}
  | some (topic, partitionText, rest) =>
      if hasExtraTokens rest then {}
      else match parseNonNegativeInt partitionText with
        | none => {}
        | some partition => { type := .replicationProgress, topic, partition }

def parseJoin (stream : Bytes) : Request :=
  match extractThree stream with
  | none => {}
  | some (groupId, consumerId, topic, rest) =>
      if hasExtraTokens rest then {} else { type := .join, groupId, consumerId, topic }

/-- `LEAVE` and `GROUP_POLL` take the same arguments. -/
def parseMember (type : RequestType) (stream : Bytes) : Request :=
  match extractTwo stream with
  | none => {}
  | some (groupId, consumerId, rest) =>
      if hasExtraTokens rest then {} else { type, groupId, consumerId }

def parseCommit (stream : Bytes) : Request :=
  match extractThree stream with
  | none => {}
  | some (groupId, consumerId, topic, rest) =>
      match extractTwo rest with
      | none => {}
      | some (partitionText, offsetText, rest) =>
          if hasExtraTokens rest then {}
          else match parsePartition partitionText with
            | none => {}
            | some partition =>
                match parseOffset offsetText with
                | none => { partition }
                | some offset => { type := .commit, groupId, consumerId, topic, partition, offset }

def parseBare (type : RequestType) (stream : Bytes) : Request :=
  if hasExtraTokens stream then {} else { type }

def parseRequest (rawRequest : Bytes) : Request :=
  match extract rawRequest with
  | none => {}
  | some (command, stream) =>
      if command = ascii "PING" then parseBare .ping stream
      else if command = ascii "METRICS" then parseBare .metrics stream
      else if command = ascii "PRODUCE" then parseProduce stream
      else if command = ascii "FETCH" then parseFetch stream
      else if command = ascii "REPLICATE" then parseReplicate stream
      else if command = ascii "REPLICATION_PROGRESS" then parseReplicationProgress stream
      else if command = ascii "JOIN" then parseJoin stream
      else if command = ascii "LEAVE" then parseMember .leave stream
      else if command = ascii "GROUP_POLL" then parseMember .groupPoll stream
      else if command = ascii "COMMIT" then parseCommit stream
      else {}

end KafkaBroker
