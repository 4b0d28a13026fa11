import KafkaBroker.DeliveryCore

/-!
The write side of one client of `EpollServer`, call by call: `queue_response` and
`write_to_client` with the write interest that they register. What `send` and `epoll_ctl`
return is part of the call.
-/

namespace KafkaBroker

open ByteText

/-- The write fields of an entry of `clients_`, what `send` has taken, and whether `EPOLLOUT`
is registered; a closed client has no entry. -/
structure Outgoing where
  writeBuffer : Bytes := []
  writeOffset : Nat := 0
  sent : Bytes := []
  writeInterest : Bool := false
  closed : Bool := false
  deriving DecidableEq, Repr

namespace Outgoing

def unsent (client : Outgoing) : Bytes := client.writeBuffer.drop client.writeOffset

def queueResponse (client : Outgoing) (response : Bytes) (registered : Bool) : Bool × Outgoing :=
  if client.closed then (false, client)
  else
    let queued := { client with
      writeBuffer := client.writeBuffer ++ (bigEndian response.length ++ response) }
    if registered then (true, { queued with writeInterest := true }) else (false, queued)

/-- The loop of `write_to_client` and what follows it; sends beyond the listed ones would
block. -/
def writePending (registered : Bool) : Outgoing → List SendCall → Outgoing
  | client, sends =>
      if client.writeOffset < client.writeBuffer.length then
        match sends with
        | [] => client
        | .wouldBlock :: _ => client
        | .interrupted :: rest => writePending registered client rest
        | .failed :: _ => { client with closed := true }
        | .accepted count :: rest =>
            let bytesSent := min count client.unsent.length
            if bytesSent = 0 then { client with closed := true }
            else writePending registered { client with
              sent := client.sent ++ client.unsent.take bytesSent
              writeOffset := client.writeOffset + bytesSent } rest
      else
        let cleared := { client with
          writeBuffer := []
          writeOffset := 0 }
        if registered then { cleared with writeInterest := false }
        else { cleared with closed := true }

def writeToClient (client : Outgoing) (sends : List SendCall) (registered : Bool) : Outgoing :=
  if client.closed then client else client.writePending registered sends

end Outgoing

inductive OutgoingCall
  | queueResponse (response : Bytes) (registered : Bool)
  | writeToClient (sends : List SendCall) (registered : Bool)
  deriving DecidableEq, Repr

/-- One call. `extract_complete_frames` fails with `queue_response`, and its caller closes
the client. -/
def outgoingStep (client : Outgoing) : OutgoingCall → Option Outgoing
  | .queueResponse response registered =>
      let queued := client.queueResponse response registered
      if queued.1 then some queued.2 else some { queued.2 with closed := true }
  | .writeToClient sends registered => some (client.writeToClient sends registered)

def queuedFrames (calls : List OutgoingCall) : List Bytes :=
  calls.filterMap fun call =>
    match call with
    | .queueResponse response _ => some (bigEndian response.length ++ response)
    | .writeToClient _ _ => none

end KafkaBroker
