import KafkaBroker.BrokerCore

/-!
The consumer client and many of them against one broker. A client is the loop of
`consumer.cpp` cut at its requests: what it sends next, and how it goes on with the
response. Every send, every receive, every lost connection and every removal from a
group by a server is a step of its own.
-/

namespace KafkaBroker

open ByteText

structure Assignment where
  topic : Bytes
  partition : Int
  offset : Nat
  deriving DecidableEq, Repr

def extractInt (stream : Bytes) : Option (Int × Bytes) :=
  (scanSigned 32 stream).map fun scanned => (scanned.1, stream.drop scanned.2)

def extractUint64 (stream : Bytes) : Option (Nat × Bytes) :=
  (stoull stream).map fun scanned => (scanned.1, stream.drop scanned.2)

def parseAssignment (line : Bytes) : Option Assignment :=
  match extract line with
  | none => none
  | some (topic, rest) =>
      match extractInt rest with
      | none => none
      | some (partition, rest) =>
          match extractUint64 rest with
          | none => none
          | some (offset, rest) =>
              if hasExtraTokens rest then none else some ⟨topic, partition, offset⟩

/-- `none` where `parse_assignments` throws. -/
def parseAssignments (response : Bytes) : Option (List Assignment) :=
  ((splitLines response).filter fun line => line ≠ []).mapM parseAssignment

def countMessages (response : Bytes) : Nat :=
  if response = [] then 0 else response.count newline + 1

/-- Where the client stands: the request it sends next, or whose response it awaits. -/
inductive ClientPhase
  | join
  | poll
  | fetch (assignment : Assignment) (rest : List Assignment) (consumedAny : Bool)
  | commit (assignment : Assignment) (rest : List Assignment)
  | leave
  | finished
  deriving DecidableEq, Repr

/-- The loop over the assignments; after the last one the client polls again if it has
committed anything. -/
def nextAssignment (assignments : List Assignment) (consumedAny : Bool) : ClientPhase :=
  match assignments with
  | assignment :: rest => .fetch assignment rest consumedAny
  | [] => if consumedAny then .poll else .leave

def Assignment.advance (assignment : Assignment) (messageCount : Nat) : Assignment :=
  { assignment with offset := (assignment.offset + messageCount) % 2 ^ 64 }

def ClientPhase.receive (phase : ClientPhase) (response : Bytes) : ClientPhase :=
  match phase with
  | .join => if response = ascii "OK" then .poll else .finished
  | .poll =>
      if response = ascii "ERROR" then .leave
      else match parseAssignments response with
        | none => .finished
        | some assignments => nextAssignment assignments false
  | .fetch assignment rest consumedAny =>
      if response = ascii "ERROR" then .leave
      else if countMessages response = 0 then nextAssignment rest consumedAny
      else .commit (assignment.advance (countMessages response)) rest
  | .commit _ rest => if response = ascii "OK" then nextAssignment rest true else .leave
  | .leave => .finished
  | .finished => .finished

structure Client where
  topic : Bytes
  groupId : Bytes
  consumerId : Bytes
  phase : ClientPhase := .join
  pending : Option Bytes := none
  deriving DecidableEq, Repr

def Client.joinText (client : Client) : Bytes :=
  ascii "JOIN" ++ space :: client.groupId ++ space :: client.consumerId ++ space :: client.topic

def Client.pollText (client : Client) : Bytes :=
  ascii "GROUP_POLL" ++ space :: client.groupId ++ space :: client.consumerId

def Client.leaveText (client : Client) : Bytes :=
  ascii "LEAVE" ++ space :: client.groupId ++ space :: client.consumerId

def Assignment.text (assignment : Assignment) : Bytes :=
  assignment.topic ++ space :: decimalInt assignment.partition ++ space :: decimal assignment.offset

def Assignment.fetchText (assignment : Assignment) : Bytes :=
  ascii "FETCH" ++ space :: assignment.text

def Client.commitText (client : Client) (assignment : Assignment) : Bytes :=
  ascii "COMMIT" ++ space :: client.groupId ++ space :: client.consumerId ++
    space :: assignment.text

def Client.requestText (client : Client) : Option Bytes :=
  match client.phase with
  | .join => some client.joinText
  | .poll => some client.pollText
  | .fetch assignment _ _ => some assignment.fetchText
  | .commit assignment _ => some (client.commitText assignment)
  | .leave => some client.leaveText
  | .finished => none

def Client.group (client : Client) : Bytes := (parseRequest client.joinText).groupId

structure Receipt where
  groupId : Bytes
  topic : Bytes
  partition : Int
  offset : Nat
  response : Bytes
  deriving DecidableEq, Repr

/-- The client's next state, and its response if it was a `FETCH` response. -/
def Client.receive (client : Client) (response : Bytes) : Client × List Receipt :=
  ({ client with phase := client.phase.receive response, pending := none },
    match client.phase with
    | .fetch assignment _ _ =>
        if response = ascii "ERROR" then []
        else [⟨client.group, assignment.topic, assignment.partition, assignment.offset, response⟩]
    | _ => [])

structure ConsumerState (σ : Type) where
  world : World σ
  clients : Table Nat Client := ∅
  receipts : List Receipt := []

def ConsumerState.groups {σ : Type} (state : ConsumerState σ) : ConsumerGroups :=
  state.world.broker.consumerGroups

def ConsumerState.update {σ : Type} (state : ConsumerState σ) (id : Nat) (client : Client) :
    ConsumerState σ :=
  { state with clients := state.clients.set id client }

inductive ConsumerEvent (σ : Type)
  | start (id : Nat) (topic groupId consumerId : Bytes)
  | send (id : Nat) (env : Environment σ)
  | receive (id : Nat)
  | drop (id : Nat)
  | remove (groupId consumerId : Bytes)
  | request (raw : Bytes) (env : Environment σ)

def Client.abort (client : Client) : Client := { client with phase := .finished, pending := none }

/-- One step. The other clients send any request but a `COMMIT`; the death of the broker
is not a step. -/
def consumerStep {σ : Type} (state : ConsumerState σ) :
    ConsumerEvent σ → Option (ConsumerState σ)
  | .start id topic groupId consumerId =>
      if (state.clients.find id).isSome ∨ topic = [] ∨ groupId = [] ∨ consumerId = [] then none
      else some (state.update id { topic, groupId, consumerId })
  | .send id env =>
      match state.clients.find id with
      | none => none
      | some client =>
          match client.pending, client.requestText with
          | none, some text =>
              -- `write_frame` refuses a longer request on the client's side
              if text.length > kMaxPayloadSize then some (state.update id client.abort)
              else
                let handled := handleRequest env state.world (parseRequest text)
                match handled.1 with
                | .crashed => none
                | .threw =>
                    some (ConsumerState.update { state with world := handled.2 } id client.abort)
                | .returned response =>
                    some (ConsumerState.update { state with world := handled.2 } id
                      -- and a longer response on the server's, which closes the connection
                      (if response.length > kMaxPayloadSize then client.abort
                      else { client with pending := some response }))
          | _, _ => none
  | .receive id =>
      match state.clients.find id with
      | none => none
      | some client =>
          match client.pending with
          | none => none
          | some response =>
              let received := client.receive response
              some { state.update id received.1 with receipts := state.receipts ++ received.2 }
  | .drop id =>
      match state.clients.find id with
      | none => none
      | some client => some (state.update id client.abort)
  | .remove groupId consumerId =>
      some { state with
        world := withGroups state.world (removeConsumerFromGroup state.groups groupId consumerId) }
  | .request raw env =>
      if raw.length > kMaxPayloadSize ∨ (parseRequest raw).type = .commit then none
      else
        let handled := handleRequest env state.world (parseRequest raw)
        match handled.1 with
        | .crashed => none
        | _ => some { state with world := handled.2 }

end KafkaBroker
