import Mathlib.Data.Finset.Basic
import KafkaBroker.SendingCore

/-!
`EpollServer` with all its clients: `clients_` beside the descriptors the process has open
and those its epoll instance watches, one entry of `events` after another. What the system
calls made for an entry return is part of the step.
-/

namespace KafkaBroker

open ByteText

/-- An entry of `clients_`, with the bytes `recv` has taken so far and the number of its
connection; descriptors are used again, numbers are not. -/
structure EpollClient where
  connection : Nat
  received : Bytes := []
  readBuffer : Bytes := []
  outgoing : Outgoing := {}
  joinedGroups : List Membership := []
  deriving DecidableEq, Repr

/-- A `recv`; one that takes nothing is the end of the stream. With every frame the bytes
complete comes the result of its `epoll_ctl`. -/
inductive RecvResult
  | received (chunk : Bytes) (registered : List Bool)
  | interrupted
  | wouldBlock
  | failed
  deriving DecidableEq, Repr

inductive AcceptResult
  | accepted (fd : Nat) (configured registered : Bool)
  | interrupted
  | wouldBlock
  | failed
  deriving DecidableEq, Repr

structure ReadyEvent where
  fd : Nat
  hangup : Bool := false
  readable : Bool := false
  writable : Bool := false
  deriving DecidableEq, Repr

/-- What the calls made for one entry return; a list that runs out would block. -/
structure KernelAnswers where
  accepts : List AcceptResult := []
  recvs : List RecvResult := []
  sends : List SendCall := []
  registered : Bool := true
  deriving DecidableEq, Repr

inductive Operation
  | request (connection : Nat) (payload : Bytes) (response : Option Bytes)
  | remove (connection : Nat) (membership : Membership)
  deriving DecidableEq, Repr

def BrokerCalls.perform {β : Type} (calls : BrokerCalls β) (broker : β) : Operation → Option β
  | .request _ payload response =>
      let handled := calls.handleRequest broker (parseRequest payload)
      if handled.2 = response then some handled.1 else none
  | .remove _ membership =>
      some (calls.removeConsumerFromGroup broker membership.1 membership.2)

def exchanges (history : List Operation) (connection : Nat) : List (Bytes × Bytes) :=
  history.filterMap fun operation =>
    match operation with
    | .request other payload (some response) =>
        if other = connection then some (payload, response) else none
    | _ => none

/-- `ready` is what is left of `events`, each entry with the connection it was reported
for. -/
structure EventLoop (β : Type) where
  broker : β
  serverFd : Nat
  epollFd : Nat
  running : Bool := true
  clients : Table Nat EpollClient := ∅
  openFds : Finset Nat
  watched : Finset Nat
  ready : List (ReadyEvent × Option Nat) := []
  accepted : Nat := 0
  history : List Operation := []

def kMaxEvents : Nat := 8

namespace EventLoop

variable {β : Type} (calls : BrokerCalls β)

def listening (broker : β) (serverFd epollFd : Nat) : EventLoop β where
  broker
  serverFd
  epollFd
  openFds := {serverFd, epollFd}
  watched := {serverFd}

def setClient (loop : EventLoop β) (fd : Nat) (client : EpollClient) : EventLoop β :=
  { loop with clients := loop.clients.set fd client }

/-- A failing `epoll_ctl` is only logged, and `close` drops the descriptor from the epoll
instance as well. -/
def closeClient (loop : EventLoop β) (fd : Nat) : EventLoop β :=
  let left := (loop.clients.find fd).elim [] fun client =>
    client.joinedGroups.map (Operation.remove client.connection)
  { loop with
    broker := left.foldl (fun broker operation => (calls.perform broker operation).getD broker)
      loop.broker
    history := loop.history ++ left
    clients := loop.clients.remove fd
    openFds := loop.openFds.erase fd
    watched := loop.watched.erase fd }

def enroll (loop : EventLoop β) (fd : Nat) : EventLoop β :=
  { loop with
    clients := loop.clients.set fd { connection := loop.accepted }
    openFds := insert fd loop.openFds
    watched := insert fd loop.watched
    accepted := loop.accepted + 1 }

/-- A descriptor that cannot be configured or watched is closed again. The kernel hands
out no descriptor that is open. -/
def acceptClients : EventLoop β → List AcceptResult → Option (EventLoop β)
  | loop, [] => some loop
  | loop, .interrupted :: rest => acceptClients loop rest
  | loop, .wouldBlock :: _ => some loop
  | loop, .failed :: _ => some loop
  | loop, .accepted fd configured registered :: rest =>
      if fd ∈ loop.openFds then none
      else if configured ∧ registered then acceptClients (loop.enroll fd) rest
      else acceptClients loop rest

def queueResponse (loop : EventLoop β) (fd : Nat) (response : Bytes) (registered : Bool) :
    Bool × EventLoop β :=
  match loop.clients.find fd with
  | none => (false, loop)
  | some client =>
      let queued := client.outgoing.queueResponse response registered
      (queued.1, loop.setClient fd { client with outgoing := queued.2 })

def serveFrame (loop : EventLoop β) (fd : Nat) (payload : Bytes) (registered : Bool) :
    Bool × EventLoop β :=
  match loop.clients.find fd with
  | none => (false, loop)
  | some client =>
      let req := parseRequest payload
      let handled := calls.handleRequest loop.broker req
      let served := { loop with
        broker := handled.1
        history := loop.history ++ [.request client.connection payload handled.2] }
      match handled.2 with
      | none => (false, served)
      | some response =>
          let tracked := served.setClient fd { client with
            joinedGroups := trackMembership client.joinedGroups req response }
          if response.length > kMaxPayloadSize then (false, tracked)
          else tracked.queueResponse fd response registered

def extractCompleteFrames (fd : Nat) (loop : EventLoop β) (buffer : Bytes)
    (registered : List Bool) : Bool × EventLoop β × Bytes :=
  if buffer.length < kFrameHeaderSize then (true, loop, buffer)
  else
    let payloadLength := fromBigEndian (buffer.take kFrameHeaderSize)
    if payloadLength > kMaxPayloadSize then (false, loop, buffer)
    else
      let frameSize := kFrameHeaderSize + payloadLength
      if buffer.length < frameSize then (true, loop, buffer)
      else
        let payload := (buffer.drop kFrameHeaderSize).take payloadLength
        let served := loop.serveFrame calls fd payload (registered.headD true)
        if served.1 then
          extractCompleteFrames fd served.2 (buffer.drop frameSize) registered.tail
        else (false, served.2, buffer)
termination_by buffer.length
decreasing_by
  simp only [List.length_drop, kFrameHeaderSize] at *
  omega

def receive (loop : EventLoop β) (fd : Nat) (bytes : Bytes) (registered : List Bool) :
    Bool × EventLoop β :=
  match loop.clients.find fd with
  | none => (false, loop)
  | some client =>
      let extracted := extractCompleteFrames calls fd
        (loop.setClient fd { client with received := client.received ++ bytes })
        (client.readBuffer ++ bytes) registered
      (extracted.1, match extracted.2.1.clients.find fd with
        | none => extracted.2.1
        | some after => extracted.2.1.setClient fd { after with readBuffer := extracted.2.2 })

def readFromClient (fd : Nat) : EventLoop β → List RecvResult → EventLoop β
  | loop, [] => loop
  | loop, .wouldBlock :: _ => loop
  | loop, .interrupted :: rest => readFromClient fd loop rest
  | loop, .failed :: _ => loop.closeClient calls fd
  | loop, .received chunk registered :: rest =>
      if chunk.take kReadBufferSize = [] then loop.closeClient calls fd
      else
        let read := loop.receive calls fd (chunk.take kReadBufferSize) registered
        if read.1 then readFromClient fd read.2 rest else read.2.closeClient calls fd

def writeToClient (loop : EventLoop β) (fd : Nat) (sends : List SendCall) (registered : Bool) :
    EventLoop β :=
  match loop.clients.find fd with
  | none => loop
  | some client =>
      let outgoing := client.outgoing.writeToClient sends registered
      let written := loop.setClient fd { client with outgoing }
      if outgoing.closed then written.closeClient calls fd else written

def handleReady (loop : EventLoop β) (event : ReadyEvent) (answers : KernelAnswers) :
    Option (EventLoop β) :=
  if event.fd = loop.serverFd then
    if event.readable then loop.acceptClients answers.accepts else some loop
  else if (loop.clients.find event.fd).isNone then some loop
  else if event.hangup then some (loop.closeClient calls event.fd)
  else
    let read := if event.readable then loop.readFromClient calls event.fd answers.recvs else loop
    if event.writable ∧ (read.clients.find event.fd).isSome then
      some (read.writeToClient calls event.fd answers.sends answers.registered)
    else some read

def stop (loop : EventLoop β) : EventLoop β :=
  { loop with
    running := false
    openFds := ((loop.openFds.erase loop.epollFd).erase loop.serverFd) \ loop.clients.keys.toFinset
    watched := ∅
    clients := ∅
    ready := [] }

/-- What `epoll_wait` may report: no descriptor twice, and only watched ones. -/
def Reports (loop : EventLoop β) (events : List ReadyEvent) : Prop :=
  events.length ≤ kMaxEvents ∧ (events.map ReadyEvent.fd).Nodup ∧
    ∀ event ∈ events, event.fd ∈ loop.watched

instance (loop : EventLoop β) (events : List ReadyEvent) : Decidable (loop.Reports events) :=
  inferInstanceAs (Decidable (_ ∧ _))

end EventLoop

inductive LoopEvent
  | wait (events : List ReadyEvent)
  | handle (answers : KernelAnswers)
  | waitFailed
  deriving DecidableEq, Repr

def loopStep {β : Type} (calls : BrokerCalls β) (loop : EventLoop β) :
    LoopEvent → Option (EventLoop β)
  | .wait events =>
      if loop.running ∧ loop.ready = [] ∧ loop.Reports events then
        some { loop with
          ready := events.map fun event =>
            (event, (loop.clients.find event.fd).map EpollClient.connection) }
      else none
  | .handle answers =>
      match loop.ready with
      | [] => none
      | (event, _) :: rest =>
          EventLoop.handleReady calls { loop with ready := rest } event answers
  | .waitFailed =>
      if loop.running ∧ loop.ready = [] then some loop.stop else none

end KafkaBroker
