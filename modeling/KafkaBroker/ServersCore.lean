import KafkaBroker.FramingCore
import KafkaBroker.ProtocolCore

/-!
One connection of each server, `TcpServer::handle_client` and the read side of
`EpollServer`, over any broker. A session keeps what the two can be compared by:
the requests handed to the broker with the memberships after each of them, and the
response frames.
-/

namespace KafkaBroker

open ByteText

/-- The broker as the servers use it; no response where `handle_request` throws. -/
structure BrokerCalls (β : Type) where
  handleRequest : β → Request → β × Option Bytes
  removeConsumerFromGroup : β → Bytes → Bytes → β

abbrev Membership := Bytes × Bytes

def trackMembership (joinedGroups : List Membership) (req : Request) (response : Bytes) :
    List Membership :=
  if response = ascii "OK" ∧ req.type = .join then
    joinedGroups ++ [(req.groupId, req.consumerId)]
  else if response = ascii "OK" ∧ req.type = .leave then
    joinedGroups.erase (req.groupId, req.consumerId)
  else joinedGroups

structure Session (β : Type) where
  broker : β
  joinedGroups : List Membership := []
  requests : List (Request × List Membership) := []
  frames : List Bytes := []

def Session.cleanup {β : Type} (calls : BrokerCalls β) (session : Session β) : Session β :=
  { session with
    broker := session.joinedGroups.foldl
      (fun broker membership => calls.removeConsumerFromGroup broker membership.1 membership.2)
      session.broker }

/-! `TcpServer`. -/

/-- One turn of the loop after a frame was read; `false` where an exception leaves it. -/
def TcpServer.serve {β : Type} (calls : BrokerCalls β) (session : Session β) (payload : Bytes) :
    Bool × Session β :=
  let req := parseRequest payload
  let handled := calls.handleRequest session.broker req
  match handled.2 with
  | none => (false, { session with
      broker := handled.1
      requests := session.requests ++ [(req, session.joinedGroups)] })
  | some response =>
      let joinedGroups := trackMembership session.joinedGroups req response
      let served : Session β := { session with
        broker := handled.1
        joinedGroups
        requests := session.requests ++ [(req, joinedGroups)] }
      match writeFrame response with
      | none => (false, served)
      | some frame => (true, { served with frames := served.frames ++ [frame] })

/-- The loop of `handle_client`, with a bound on the number of frames; the flag says
whether the connection was closed. -/
def TcpServer.loop {β : Type} (calls : BrokerCalls β) (ending : Ending) :
    Nat → Session β → List Bytes → Bool × Session β
  | 0, session, _ => (false, session)
  | bound + 1, session, segments =>
      match readFrame ending segments with
      | .waiting => (false, session)
      | .closed => (true, session.cleanup calls)
      | .threw => (true, session.cleanup calls)
      | .frame payload rest =>
          let served := TcpServer.serve calls session payload
          if served.1 then TcpServer.loop calls ending bound served.2 rest
          else (true, served.2.cleanup calls)

/-- Every frame takes four bytes of the stream, so the bound is not reached. -/
def TcpServer.handleClient {β : Type} (calls : BrokerCalls β) (ending : Ending)
    (session : Session β) (segments : List Bytes) : Bool × Session β :=
  TcpServer.loop calls ending (segments.flatten.length + 1) session segments

/-! `EpollServer`. -/

structure ClientState (β : Type) where
  session : Session β
  readBuffer : Bytes := []

def kFrameHeaderSize : Nat := 4

/-- `queue_response`, the `epoll_ctl` of which succeeds. -/
def EpollServer.queueResponse {β : Type} (session : Session β) (response : Bytes) : Session β :=
  { session with frames := session.frames ++ [bigEndian response.length ++ response] }

def EpollServer.serve {β : Type} (calls : BrokerCalls β) (session : Session β) (payload : Bytes) :
    Bool × Session β :=
  let req := parseRequest payload
  let handled := calls.handleRequest session.broker req
  match handled.2 with
  | none => (false, { session with
      broker := handled.1
      requests := session.requests ++ [(req, session.joinedGroups)] })
  | some response =>
      let joinedGroups := trackMembership session.joinedGroups req response
      let served : Session β := { session with
        broker := handled.1
        joinedGroups
        requests := session.requests ++ [(req, joinedGroups)] }
      if response.length > kMaxPayloadSize then (false, served)
      else (true, EpollServer.queueResponse served response)

def EpollServer.extractCompleteFrames {β : Type} (calls : BrokerCalls β)
    (client : ClientState β) : Bool × ClientState β :=
  if client.readBuffer.length < kFrameHeaderSize then (true, client)
  else
    let payloadLength := fromBigEndian (client.readBuffer.take kFrameHeaderSize)
    if payloadLength > kMaxPayloadSize then (false, client)
    else
      let frameSize := kFrameHeaderSize + payloadLength
      if client.readBuffer.length < frameSize then (true, client)
      else
        let payload := (client.readBuffer.drop kFrameHeaderSize).take payloadLength
        let served := EpollServer.serve calls client.session payload
        if served.1 then
          EpollServer.extractCompleteFrames calls
            ⟨served.2, client.readBuffer.drop frameSize⟩
        else (false, { client with session := served.2 })
termination_by client.readBuffer.length
decreasing_by
  simp only [List.length_drop, kFrameHeaderSize] at *
  omega

/-- `read_from_client` over everything the client sends, one `recv` for each chunk; the
flag says whether `close_client` was called. -/
def EpollServer.readFromClient {β : Type} (calls : BrokerCalls β) (ending : Ending) :
    ClientState β → List Bytes → Bool × Session β
  | client, [] =>
      match ending with
      | .shutdown => (true, client.session.cleanup calls)
      | .silent => (false, client.session)
  | client, chunk :: rest =>
      if chunk = [] then (true, client.session.cleanup calls)
      else
        let extracted := EpollServer.extractCompleteFrames calls
          { client with readBuffer := client.readBuffer ++ chunk }
        if extracted.1 then EpollServer.readFromClient calls ending extracted.2 rest
        else (true, extracted.2.session.cleanup calls)

end KafkaBroker
