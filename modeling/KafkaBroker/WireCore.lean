import KafkaBroker.BlockingCore
import KafkaBroker.ReplicationCore
import KafkaBroker.ServersCore

/-!
`BrokerClient` on the leader and `TcpServer` on the follower, the two ends of a connection,
one `send` or `recv` at a time. The connection may break behind any byte, in either
direction; who reads further finds it closed.
-/

namespace KafkaBroker

open ByteText BlockingSocket Posix

/-- What one `BrokerClient` meets: whether the follower has started over before it, whether
`connect` succeeds, what the calls of both ends answer, and how many of the bytes sent in
each direction arrive. -/
structure Wire where
  restarts : Bool
  connects : Bool
  clientSends : List SendCall
  arriving : Nat
  serverRecvs : List RecvCall
  env : Environment Unit
  serverSends : List SendCall
  returning : Nat
  clientRecvs : List RecvCall

structure ClientSocket where
  incoming : Bytes
  recvs : List RecvCall
  sent : Bytes := []
  sends : List SendCall

def removeConsumers (world : World Unit) (joinedGroups : List Membership) : World Unit :=
  joinedGroups.foldl (fun world membership =>
    withGroups world
      (removeConsumerFromGroup world.broker.consumerGroups membership.1 membership.2)) world

/-- The loop of `handle_client`, with a bound on the number of frames, and what it has sent.
If the broker dies, its next process starts on what is on the disk. -/
def TcpServer.handleSocket (config : StoreConfig) (env : Environment Unit) :
    Nat → World Unit → List Membership → ClientSocket → World Unit × Bytes
  | 0, world, joinedGroups, socket => (removeConsumers world joinedGroups, socket.sent)
  | bound + 1, world, joinedGroups, socket =>
      match BlockingSocket.readFrame .shutdown socket.incoming socket.recvs with
      | .frame payload incoming recvs =>
          let req := parseRequest payload
          let handled := handleRequest env world req
          match handled.1 with
          | .crashed => ((restart config handled.2).getD handled.2, socket.sent)
          | .threw => (removeConsumers handled.2 joinedGroups, socket.sent)
          | .returned response =>
              let joinedGroups := trackMembership joinedGroups req response
              match BlockingSocket.writeFrame response socket.sent socket.sends with
              | .threw sent => (removeConsumers handled.2 joinedGroups, sent)
              | .returned sent sends =>
                  TcpServer.handleSocket config env bound handled.2 joinedGroups
                    { incoming, recvs, sent, sends }
      | _ => (removeConsumers world joinedGroups, socket.sent)

/-- The follower's side, of which a frame takes four bytes at least. -/
def Wire.serve (config : StoreConfig) (wire : Wire) (world : World Unit) (sent : Bytes) :
    World Unit × Bytes :=
  TcpServer.handleSocket config wire.env (sent.length + 1) world []
    { incoming := sent.take wire.arriving, recvs := wire.serverRecvs, sends := wire.serverSends }

/-- `connect` and one `request`; no answer where either throws. -/
def Wire.exchange (config : StoreConfig) (wire : Wire) (world : World Unit) (message : Bytes) :
    World Unit × Option Bytes :=
  if !wire.connects then (world, none)
  else match BlockingSocket.writeFrame message [] wire.clientSends with
    | .threw sent => ((wire.serve config world sent).1, none)
    | .returned sent _ =>
        let served := wire.serve config world sent
        match BlockingSocket.readFrame .shutdown (served.2.take wire.returning)
            wire.clientRecvs with
        | .frame payload _ _ => (served.1, some payload)
        | _ => (served.1, none)

abbrev WiredFollower := Scripted Wire

abbrev WiredState := ReplicationState Wire

/-- The same leader and follower between two exchanges. -/
def World.exchanging (world : World WiredFollower) (script : List Exchange) : World Follower :=
  ⟨world.broker, world.disk, ⟨world.peer.world, script⟩⟩

def WiredState.between (state : WiredState) : ReplicaState :=
  ⟨state.leader.exchanging [], state.acknowledged⟩

end KafkaBroker
