import KafkaBroker.RecoveryCore
import KafkaBroker.Lib.Transition

/-!
One broker over a data directory as a transition system: requests from any client,
and process deaths followed by a restart on the same directory. A history beside
the state remembers which records were acknowledged, and which one had reached its
log in full when a process died before answering.
-/

namespace KafkaBroker

open ByteText Posix

/-- `main` refuses an empty data directory. -/
structure StoreConfig where
  role : BrokerRole
  followerPort : Int
  dataDir : Bytes
  named : dataDir ≠ []

/-- A record that the history of a run holds against the store. -/
structure HistoryEntry where
  topic : Bytes
  partition : Int
  payload : Bytes
  acknowledged : Bool
  deriving DecidableEq, Repr

structure StoreState (σ : Type) where
  world : World σ
  history : List HistoryEntry

def recorded (history : List HistoryEntry) (topic : Bytes) (partition : Int) : List Bytes :=
  (history.filter fun entry => entry.topic = topic ∧ entry.partition = partition).map
    HistoryEntry.payload

def acknowledged (history : List HistoryEntry) (topic : Bytes) (partition : Int) : List Bytes :=
  recorded (history.filter HistoryEntry.acknowledged) topic partition

inductive StoreEvent (σ : Type)
  | request (raw : Bytes) (env : Environment σ)
  | crash

def Request.appends (req : Request) : Bool := req.type = .produce ∨ req.type = .replicate

def requestLog (dataDir : Bytes) (req : Request) : Path :=
  resolve (dataDir ++ slash :: req.topic ++ slash :: partitionFile req.partition)

def fullyWritten (dataDir : Bytes) (req : Request) (before after : FileSystem) : Bool :=
  (contents? after (requestLog dataDir req)).getD [] =
    (contents? before (requestLog dataDir req)).getD [] ++ serializeRecord ⟨req.payload⟩

def restart {σ : Type} (config : StoreConfig) (world : World σ) : Option (World σ) :=
  match startBroker config.role config.followerPort config.dataDir world.disk with
  | .error _ => none
  | .ok (broker, disk) => some ⟨broker, disk, world.peer⟩

def storeStart {σ : Type} (config : StoreConfig) (disk : FileSystem) (peer : σ) :
    Option (StoreState σ) :=
  (restart config ⟨{}, disk, peer⟩).map fun world => ⟨world, []⟩

/-- One event. There is no next state only where a restart fails. -/
def storeStep {σ : Type} (config : StoreConfig) (state : StoreState σ) :
    StoreEvent σ → Option (StoreState σ)
  | .crash => (restart config state.world).map fun world => { state with world }
  | .request raw env =>
      -- a longer frame is refused by the server
      if raw.length > kMaxPayloadSize then some state
      else
        let req := parseRequest raw
        let entry (acknowledged : Bool) : HistoryEntry :=
          ⟨req.topic, req.partition, req.payload, acknowledged⟩
        let handled := handleRequest env state.world req
        match handled.1 with
        | .threw => some { state with world := handled.2 }
        | .returned response => some {
            world := handled.2
            history := if req.appends ∧ response = ascii "OK" then state.history ++ [entry true]
              else state.history }
        | .crashed => (restart config handled.2).map fun world => {
            world
            history :=
              if fullyWritten config.dataDir req state.world.disk handled.2.disk then
                state.history ++ [entry false]
              else state.history }

/-- One request to a broker process; its death is not a step. -/
def requestStep {σ : Type} (world : World σ) (event : Bytes × Environment σ) : Option (World σ) :=
  if event.1.length > kMaxPayloadSize then none
  else
    let handled := handleRequest event.2 world (parseRequest event.1)
    match handled.1 with
    | .crashed => none
    | _ => some handled.2

end KafkaBroker
