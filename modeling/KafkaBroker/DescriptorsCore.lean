import KafkaBroker.Lib.Ownership
import KafkaBroker.Lib.Text

/-!
The descriptors of `BrokerClient`. A client opens a socket, closes it, and can be moved, and the
system gives the number of a closed socket to the next one that is opened, be it by a client or
by anything else in the process.
-/

namespace KafkaBroker

open ByteText Ownership

/-- `fd_` is `none` for −1. -/
structure BrokerClient where
  host : Bytes
  port : Int
  fd : Option Nat := none
  deriving DecidableEq, Repr

structure ConnectCalls where
  socket : Option Nat
  validAddress : Bool
  connects : Bool
  reason : Bytes

structure ClientOutcome where
  client : BrokerClient
  uses : List (Use Nat) := []
  thrown : Option Bytes := none

namespace BrokerClient

def connect (client : BrokerClient) (calls : ConnectCalls) : ClientOutcome :=
  match client.fd with
  | some _ => { client }
  | none =>
      match calls.socket with
      | none => { client, thrown := some (ascii "Failed to create socket: " ++ calls.reason) }
      | some fd =>
          if !calls.validAddress then {
            client
            uses := [.acquire fd, .release fd]
            thrown := some (ascii "Invalid IP address specified: " ++ client.host) }
          else if !calls.connects then {
            client
            uses := [.acquire fd, .use fd, .release fd]
            thrown := some (ascii "Failed to connect to broker " ++ client.host ++ ascii ":" ++
              decimalInt client.port ++ ascii ": " ++ calls.reason) }
          else { client := { client with fd := some fd }, uses := [.acquire fd, .use fd] }

/-- `write_frame` and `read_frame` may throw, and leave the socket open. -/
def request (client : BrokerClient) (failure : Option Bytes) : ClientOutcome :=
  match client.fd with
  | none => { client, thrown := some (ascii "Client is not connected to broker") }
  | some fd => { client, uses := [.use fd], thrown := failure }

def close (client : BrokerClient) : ClientOutcome :=
  match client.fd with
  | none => { client }
  | some fd => { client := { client with fd := none }, uses := [.release fd] }

/-- What is left of an object after a move. The text of a moved string is unspecified. -/
def movedFrom (client : BrokerClient) (host : Bytes) : BrokerClient :=
  { client with host, fd := none }

end BrokerClient

inductive DescriptorOwner
  | client (id : Nat)
  | other
  deriving DecidableEq, Repr

structure Process where
  ledger : Ledger DescriptorOwner Nat := {}
  clients : Table Nat BrokerClient := ∅
  others : Finset Nat := ∅

inductive ProcessEvent
  | construct (id : Nat) (host : Bytes) (port : Int)
  | moveConstruct (id source : Nat) (host : Bytes)
  | moveAssign (id source : Nat) (host : Bytes)
  | connect (id : Nat) (calls : ConnectCalls)
  | request (id : Nat) (failure : Option Bytes)
  | close (id : Nat)
  | destroy (id : Nat)
  | openOther (fd : Nat)
  | closeOther (fd : Nat)

namespace Process

def called (process : Process) (id : Nat) (outcome : ClientOutcome) : Process :=
  { process with
    ledger := process.ledger.make (.client id) outcome.uses
    clients := process.clients.set id outcome.client }

def moved (process : Process) (id source : Nat) (other : BrokerClient) (host : Bytes) : Process :=
  { process with
    ledger := match other.fd with
      | none => process.ledger
      | some fd => process.ledger.enter (.handed (.client source) fd (.client id))
    clients := (process.clients.set id other).set source (other.movedFrom host) }

end Process

/-- One step. The system opens a socket under a number that is not in use. -/
def processStep (process : Process) : ProcessEvent → Option Process
  | .construct id host port =>
      if (process.clients.find id).isSome then none
      else some (process.called id { client := { host, port } })
  | .moveConstruct id source host =>
      if (process.clients.find id).isSome then none
      else (process.clients.find source).map fun other => process.moved id source other host
  | .moveAssign id source host =>
      (process.clients.find id).bind fun client =>
        (process.clients.find source).map fun other =>
          if id = source then process
          else (process.called id client.close).moved id source other host
  | .connect id calls =>
      (process.clients.find id).bind fun client =>
        if calls.socket.any fun fd => (process.ledger.held.find fd).isSome then none
        else some (process.called id (client.connect calls))
  | .request id failure =>
      (process.clients.find id).map fun client => process.called id (client.request failure)
  | .close id => (process.clients.find id).map fun client => process.called id client.close
  -- the destructor, also while an exception unwinds the stack
  | .destroy id =>
      (process.clients.find id).map fun client =>
        let closed := process.called id client.close
        { closed with clients := closed.clients.remove id }
  | .openOther fd =>
      if (process.ledger.held.find fd).isSome then none
      else some { process with
        ledger := process.ledger.enter (.made .other (.acquire fd))
        others := insert fd process.others }
  | .closeOther fd =>
      if fd ∈ process.others then some { process with
        ledger := process.ledger.enter (.made .other (.release fd))
        others := process.others.erase fd }
      else none

end KafkaBroker
