import KafkaBroker.BrokerCore
import KafkaBroker.ServersCore
import KafkaBroker.Lib.Transition

/-!
A client of `EpollServer` from its acceptance to `close_client`, one readiness event at a
time: what the kernel answers to each `recv` and `send` is part of the event.
-/

namespace KafkaBroker

open ByteText

/-- An entry of `clients_` with the two directions of its socket: `incoming` is what the
client has sent and no `recv` has taken, `sent` is what `send` has taken. -/
structure EpollConnection (β : Type) where
  client : ClientState β
  incoming : Bytes
  writeBuffer : Bytes := []
  writeOffset : Nat := 0
  sent : Bytes := []
  closed : Bool := false

inductive RecvCall
  | received (more : Nat)
  | interrupted
  | wouldBlock
  | failed
  deriving DecidableEq, Repr

inductive SendCall
  | accepted (count : Nat)
  | interrupted
  | wouldBlock
  | failed
  deriving DecidableEq, Repr

/-- An entry of `events` for the client, with what the calls made for it return; calls
beyond the listed ones would block. -/
structure EpollEvent where
  hangup : Bool := false
  readable : Option (List RecvCall) := none
  writable : Option (List SendCall) := none
  deriving DecidableEq, Repr

def kReadBufferSize : Nat := 4096

namespace EpollConnection

variable {β : Type} (calls : BrokerCalls β)

def accepted (session : Session β) (stream : Bytes) : EpollConnection β where
  client := ⟨session, []⟩
  incoming := stream

def unsent (connection : EpollConnection β) : Bytes :=
  connection.writeBuffer.drop connection.writeOffset

def closeClient (connection : EpollConnection β) : EpollConnection β :=
  { connection with
    client := { connection.client with session := connection.client.session.cleanup calls }
    closed := true }

/-- `extract_complete_frames` on the next `count` bytes; every frame it makes is appended
to `write_buffer` by `queue_response`. -/
def receive (connection : EpollConnection β) (count : Nat) : Bool × EpollConnection β :=
  let extracted := EpollServer.extractCompleteFrames calls
    { connection.client with
      readBuffer := connection.client.readBuffer ++ connection.incoming.take count }
  let queued := extracted.2.session.frames.drop connection.client.session.frames.length
  (extracted.1, { connection with
    client := extracted.2
    incoming := connection.incoming.drop count
    writeBuffer := connection.writeBuffer ++ queued.flatten })

def readFromClient (ending : Ending) : EpollConnection β → List RecvCall → EpollConnection β
  | connection, [] => connection
  | connection, .wouldBlock :: _ => connection
  | connection, .interrupted :: rest => readFromClient ending connection rest
  | connection, .failed :: _ => connection.closeClient calls
  | connection, .received more :: rest =>
      if connection.incoming = [] then
        match ending with
        | .shutdown => connection.closeClient calls
        | .silent => connection
      else
        let read := connection.receive calls (min (more + 1) kReadBufferSize)
        if read.1 then readFromClient ending read.2 rest
        else read.2.closeClient calls

def writeToClient : EpollConnection β → List SendCall → EpollConnection β
  | connection, sends =>
      if connection.writeOffset < connection.writeBuffer.length then
        match sends with
        | [] => connection
        | .wouldBlock :: _ => connection
        | .interrupted :: rest => writeToClient connection rest
        | .failed :: _ => connection.closeClient calls
        | .accepted count :: rest =>
            let bytesSent := min count connection.unsent.length
            if bytesSent = 0 then connection.closeClient calls
            else writeToClient { connection with
              sent := connection.sent ++ connection.unsent.take bytesSent
              writeOffset := connection.writeOffset + bytesSent } rest
      else { connection with
        writeBuffer := []
        writeOffset := 0 }

def handleEvent (ending : Ending) (connection : EpollConnection β) (event : EpollEvent) :
    EpollConnection β :=
  if connection.closed then connection
  else if event.hangup then connection.closeClient calls
  else
    let read := event.readable.elim connection (connection.readFromClient calls ending)
    match event.writable with
    | none => read
    | some sends => if read.closed then read else read.writeToClient calls sends

def run (ending : Ending) (connection : EpollConnection β) (events : List EpollEvent) :
    Option (EpollConnection β) :=
  Transition.run (fun connection event => some (connection.handleEvent calls ending event))
    connection events

end EpollConnection

def EpollEvent.SendsProgress (event : EpollEvent) : Prop :=
  ∀ sends ∈ event.writable, SendCall.failed ∉ sends ∧ SendCall.accepted 0 ∉ sends

instance (event : EpollEvent) : Decidable event.SendsProgress :=
  inferInstanceAs (Decidable (∀ sends ∈ event.writable, _))

def brokerCalls {σ : Type} (env : Environment σ) : BrokerCalls (World σ) where
  handleRequest world req :=
    let handled := KafkaBroker.handleRequest env world req
    match handled.1 with
    | .returned response => (handled.2, some response)
    | _ => (handled.2, none)
  removeConsumerFromGroup world groupId consumerId :=
    withGroups world
      (KafkaBroker.removeConsumerFromGroup world.broker.consumerGroups groupId consumerId)

/-! What a client may send: request frames, and an end that makes a server close. -/

def frameBytes (payloads : List Bytes) : Bytes :=
  payloads.flatMap fun payload => bigEndian payload.length ++ payload

theorem frameBytes_cons (payload : Bytes) (rest : List Bytes) :
    frameBytes (payload :: rest) = bigEndian payload.length ++ payload ++ frameBytes rest := by
  rfl

/-- The client shuts its sending side down, or goes on with a frame that is too long. -/
def Finishes (ending : Ending) (tail : Bytes) : Prop :=
  tail = [] ∧ ending = .shutdown ∨
    kFrameHeaderSize ≤ tail.length ∧ kMaxPayloadSize < fromBigEndian (tail.take kFrameHeaderSize)

instance (ending : Ending) (tail : Bytes) : Decidable (Finishes ending tail) :=
  inferInstanceAs (Decidable (_ ∨ _))

def answeredRequests {β : Type} (calls : BrokerCalls β) : Session β → List Bytes → List Bytes
  | _, [] => []
  | session, payload :: rest =>
      if (TcpServer.serve calls session payload).1 then
        payload :: answeredRequests calls (TcpServer.serve calls session payload).2 rest
      else []

def answeredSession {β : Type} (calls : BrokerCalls β) (session : Session β)
    (payloads : List Bytes) : Session β :=
  (answeredRequests calls session payloads).foldl
    (fun session payload => (TcpServer.serve calls session payload).2) session

end KafkaBroker
