import KafkaBroker.StoreCore

/-!
A leader and its follower, each a broker over its own disk. The leader handles one
request at a time; the follower may be away, lose an answer or start over between any
two exchanges.
-/

namespace KafkaBroker

open ByteText Posix

/-- The follower handles one message. It sends no answer if an exception closes the
connection, and if it dies its next process starts on what is on the disk. -/
def deliver (config : StoreConfig) (env : Environment Unit) (follower : World Unit)
    (message : Bytes) : World Unit × Option Bytes :=
  let handled := handleRequest env follower (parseRequest message)
  match handled.1 with
  | .threw => (handled.2, none)
  | .crashed => ((restart config handled.2).getD handled.2, none)
  | .returned response =>
      (handled.2, if response.length > kMaxPayloadSize then none else some response)

/-- The second half of `PRODUCE`, under `topics_mutex_`. -/
def appendAndReplicate {σ : Type} (env : Environment σ) (world : World σ) (req : Request) :
    Outcome Reply × World σ :=
  let appended := appendLocal world.broker world.disk env.calls req
  let next : World σ := ⟨appended.2.1, appended.2.2, world.peer⟩
  match appended.1 with
  | .threw => (.threw, next)
  | .crashed => (.crashed, next)
  | .returned none => (.returned (ascii "ERROR", false), next)
  | .returned (some offset) =>
      if world.broker.replicates then
        let answer := clientRequest env.link world.peer
          (replicateMessage req.topic req.partition offset req.payload)
        if answer.2 = some (ascii "OK") then
          (.returned (ascii "OK", true), { next with peer := answer.1 })
        else (.returned (ascii "ERROR", false), { next with peer := answer.1 })
      else (.returned (ascii "OK", true), next)

inductive Delivery
  | unreachable
  | lost
  | answered
  deriving DecidableEq, Repr

/-- What becomes of one exchange: whether the follower has started over before it, how
far the message and its answer get, and what the follower meets while it works. -/
structure Exchange where
  restarts : Bool
  delivery : Delivery
  env : Environment Unit

/-- A follower, with what the coming exchanges with it meet. -/
structure Scripted (χ : Type) where
  world : World Unit
  script : List χ := []

def Scripted.reopen {χ : Type} (config : StoreConfig) (follower : Scripted χ) (restarts : Bool) :
    World Unit :=
  if restarts then (restart config follower.world).getD follower.world else follower.world

abbrev Follower := Scripted Exchange

def followerLink (config : StoreConfig) : Link Follower := fun follower message =>
  match follower.script with
  | [] => (follower, none)
  | exchange :: script =>
      let world := follower.reopen config exchange.restarts
      match exchange.delivery with
      | .unreachable => ({ world, script }, none)
      | .lost => ({ world := (deliver config exchange.env world message).1, script }, none)
      | .answered =>
          let delivered := deliver config exchange.env world message
          ({ world := delivered.1, script }, delivered.2)

structure Acknowledgement where
  topic : Bytes
  partition : Int
  offset : Nat
  payload : Bytes
  deriving DecidableEq, Repr

structure ReplicationState (χ : Type) where
  leader : World (Scripted χ)
  acknowledged : List Acknowledgement := []

section Replication

variable {χ : Type}

def ReplicationState.follower (state : ReplicationState χ) : World Unit := state.leader.peer.world

def ReplicationState.facing (state : ReplicationState χ) (script : List χ) : World (Scripted χ) :=
  { state.leader with peer := { state.leader.peer with script } }

def ReplicationState.handle (link : Link (Scripted χ)) (state : ReplicationState χ) (raw : Bytes)
    (env : Environment (Scripted χ)) (script : List χ) : Outcome Bytes × World (Scripted χ) :=
  handleRequest { env with link } (state.facing script) (parseRequest raw)

end Replication

/-! Over whole exchanges. -/

abbrev ReplicaState := ReplicationState Exchange

end KafkaBroker
