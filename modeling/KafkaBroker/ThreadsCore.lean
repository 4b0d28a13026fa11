import KafkaBroker.ConnectionsCore
import KafkaBroker.LockingCore

/-!
`TcpServer`: a thread for each connection. While a thread is inside the broker, the others
go on with theirs; they meet at the mutexes only. `METRICS` is not among the requests.
-/

namespace KafkaBroker

open ByteText TwoPhase

inductive TcpPhase
  | reading
  | handling (req : Request)
  | executed (req : Request) (response : Bytes)
  | recorded (response : Bytes)
  | closing (remaining : List Membership)
  | removing (remaining : List Membership)
  deriving DecidableEq

structure TcpConnection where
  joinedGroups : List Membership := []
  phase : TcpPhase := .reading
  deriving DecidableEq

structure TcpServer (σ : Type) where
  machine : Machine Nat (BrokerCall σ) Answer Guarded σ
  connections : Table Nat TcpConnection := ∅

inductive TcpEvent (σ : Type)
  | accept (id : Nat)
  | request (id : Nat) (raw : Bytes) (env : Environment σ) (alive : env.calls.Survived)
      (counters : (parseRequest raw).type ≠ .metrics)
  | work (id : Nat)
  | record (id : Nat)
  | respond (id : Nat) (sent : Bool)
  | hangup (id : Nat)
  | remove (id : Nat)
  | close (id : Nat)

section Steps

variable {σ : Type}

def TcpServer.update (server : TcpServer σ) (id : Nat) (connection : TcpConnection) : TcpServer σ :=
  { server with connections := server.connections.set id connection }

/-- An exception ends the loop of `handle_client`. -/
def TcpConnection.returned (connection : TcpConnection) (answer : Answer) : TcpConnection :=
  match connection.phase, answer with
  | .handling req, .replied (.returned reply) => { connection with phase := .executed req reply.1 }
  | .handling _, .replied _ => { connection with phase := .closing connection.joinedGroups }
  | .removing remaining, .removed => { connection with phase := .closing remaining }
  | _, _ => connection

def tcpStep (broker : Broker) (server : TcpServer σ) : TcpEvent σ → Option (TcpServer σ)
  | .accept id =>
      if (server.connections.find id).isSome then none else some (server.update id {})
  | .request id raw env alive counters =>
      match server.connections.find id with
      | some ⟨joinedGroups, .reading⟩ =>
          let req := parseRequest raw
          (machineStep (brokerPrograms broker) server.machine
            (.call id (.request req env alive counters))).map fun machine =>
              TcpServer.update { server with machine } id ⟨joinedGroups, .handling req⟩
      | _ => none
  | .work id =>
      match server.connections.find id, server.machine.running id with
      | some connection, some (.finish answer) =>
          (machineStep (brokerPrograms broker) server.machine (.step id)).map fun machine =>
            TcpServer.update { server with machine } id (connection.returned answer)
      | _, _ =>
          (machineStep (brokerPrograms broker) server.machine (.step id)).map fun machine =>
            { server with machine }
  | .record id =>
      match server.connections.find id with
      | some ⟨joinedGroups, .executed req response⟩ =>
          some (server.update id ⟨trackMembership joinedGroups req response, .recorded response⟩)
      | _ => none
  | .respond id sent =>
      match server.connections.find id with
      | some ⟨joinedGroups, .recorded response⟩ =>
          if sent ∧ response.length ≤ kMaxPayloadSize then
            some (server.update id ⟨joinedGroups, .reading⟩)
          else some (server.update id ⟨joinedGroups, .closing joinedGroups⟩)
      | _ => none
  | .hangup id =>
      match server.connections.find id with
      | some ⟨joinedGroups, .reading⟩ =>
          some (server.update id ⟨joinedGroups, .closing joinedGroups⟩)
      | _ => none
  | .remove id =>
      match server.connections.find id with
      | some ⟨joinedGroups, .closing (membership :: remaining)⟩ =>
          (machineStep (brokerPrograms broker) server.machine
            (.call id (.remove membership.1 membership.2))).map fun machine =>
              TcpServer.update { server with machine } id ⟨joinedGroups, .removing remaining⟩
      | _ => none
  | .close id =>
      match server.connections.find id with
      | some ⟨_, .closing []⟩ => some { server with connections := server.connections.remove id }
      | _ => none

def tcpStart (world : World σ) : TcpServer σ := { machine := machineStart world.shared }

end Steps

end KafkaBroker
