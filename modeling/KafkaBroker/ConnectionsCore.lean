import KafkaBroker.BrokerCore
import KafkaBroker.ServersCore

/-!
Many connections to one broker. The request, the update of the connection's own list,
the response and every removal of the cleanup are separate steps, so that the threads
of `TcpServer` may interleave between any two of them; the single thread of
`EpollServer` runs some of these interleavings.
-/

namespace KafkaBroker

open ByteText

inductive Phase
  | idle
  | executed (req : Request) (response : Bytes)
  | recorded (response : Bytes)
  | closing (remaining : List Membership)
  deriving DecidableEq

structure Connection where
  joinedGroups : List Membership := []
  phase : Phase := .idle
  deriving DecidableEq

structure ServerState (σ : Type) where
  world : World σ
  connections : Table Nat Connection := ∅

def ServerState.groups {σ : Type} (state : ServerState σ) : ConsumerGroups :=
  state.world.broker.consumerGroups

inductive ServerEvent (σ : Type)
  | accept (id : Nat)
  | request (id : Nat) (raw : Bytes) (env : Environment σ)
  | record (id : Nat)
  | respond (id : Nat) (sent : Bool)
  | hangup (id : Nat)
  | remove (id : Nat)
  | close (id : Nat)

def ServerState.update {σ : Type} (state : ServerState σ) (id : Nat) (connection : Connection) :
    ServerState σ :=
  { state with connections := state.connections.set id connection }

/-- One step of one connection; the death of the process is not a step. -/
def serverStep {σ : Type} (state : ServerState σ) : ServerEvent σ → Option (ServerState σ)
  | .accept id =>
      if (state.connections.find id).isSome then none else some (state.update id {})
  | .request id raw env =>
      match state.connections.find id with
      | some ⟨joinedGroups, .idle⟩ =>
          let req := parseRequest raw
          let handled := handleRequest env state.world req
          match handled.1 with
          | .crashed => none
          | .threw => some (ServerState.update { state with world := handled.2 } id
              ⟨joinedGroups, .closing joinedGroups⟩)
          | .returned response => some (ServerState.update { state with world := handled.2 } id
              ⟨joinedGroups, .executed req response⟩)
      | _ => none
  | .record id =>
      match state.connections.find id with
      | some ⟨joinedGroups, .executed req response⟩ =>
          some (state.update id ⟨trackMembership joinedGroups req response, .recorded response⟩)
      | _ => none
  | .respond id sent =>
      match state.connections.find id with
      | some ⟨joinedGroups, .recorded response⟩ =>
          if sent ∧ response.length ≤ kMaxPayloadSize then
            some (state.update id ⟨joinedGroups, .idle⟩)
          else some (state.update id ⟨joinedGroups, .closing joinedGroups⟩)
      | _ => none
  | .hangup id =>
      match state.connections.find id with
      | some ⟨joinedGroups, .idle⟩ =>
          some (state.update id ⟨joinedGroups, .closing joinedGroups⟩)
      | _ => none
  | .remove id =>
      match state.connections.find id with
      | some ⟨joinedGroups, .closing (membership :: remaining)⟩ =>
          let groups := removeConsumerFromGroup state.groups membership.1 membership.2
          some (ServerState.update { state with world := withGroups state.world groups } id
            ⟨joinedGroups, .closing remaining⟩)
      | _ => none
  | .close id =>
      match state.connections.find id with
      | some ⟨_, .closing []⟩ => some { state with connections := state.connections.remove id }
      | _ => none

end KafkaBroker
