import KafkaBroker.DeliveryCore

/-!
The two loops under `write_frame` and `read_frame`, one system call at a time: what a
blocking socket answers to each `send` and `recv` is an argument. A `send` beyond the
listed ones takes all it is given, a `recv` beyond them waits for all it has asked for.
-/

namespace KafkaBroker

open ByteText

namespace BlockingSocket

inductive Written
  | returned (sent : Bytes) (sends : List SendCall)
  | threw (sent : Bytes)
  deriving DecidableEq, Repr

def Written.andThen (next : Bytes → List SendCall → Written) : Written → Written
  | .returned sent sends => next sent sends
  | .threw sent => .threw sent

inductive Received
  | value (buffer incoming : Bytes) (recvs : List RecvCall)
  | ended
  | waiting
  | threw
  deriving DecidableEq, Repr

inductive FrameReceived
  | frame (payload incoming : Bytes) (recvs : List RecvCall)
  | closed
  | waiting
  | threw
  deriving DecidableEq, Repr

def writeExactly (buffer : Bytes) (totalSent : Nat) (sent : Bytes) (sends : List SendCall) :
    Written :=
  if totalSent < buffer.length then
    match sends with
    | [] => .returned (sent ++ buffer.drop totalSent) []
    | .interrupted :: rest => writeExactly buffer totalSent sent rest
    | .wouldBlock :: _ => .threw sent
    | .failed :: _ => .threw sent
    | .accepted count :: rest =>
        let bytesSent := min count (buffer.length - totalSent)
        if bytesSent = 0 then .threw sent
        else writeExactly buffer (totalSent + bytesSent)
          (sent ++ (buffer.drop totalSent).take bytesSent) rest
  else .returned sent sends

def writeFrame (payload sent : Bytes) (sends : List SendCall) : Written :=
  if payload.length > kMaxPayloadSize then .threw sent
  else (writeExactly (bigEndian payload.length) 0 sent sends).andThen fun sent sends =>
    if payload = [] then .returned sent sends
    else writeExactly payload 0 sent sends

def starved : Ending → Received
  | .shutdown => .ended
  | .silent => .waiting

/-- `buffer` holds the `total_read` bytes read so far. -/
def readExactly (ending : Ending) (bytes : Nat) (buffer incoming : Bytes)
    (recvs : List RecvCall) : Received :=
  if buffer.length < bytes then
    match recvs with
    | [] =>
        if incoming.length < bytes - buffer.length then starved ending
        else .value (buffer ++ incoming.take (bytes - buffer.length))
          (incoming.drop (bytes - buffer.length)) []
    | .interrupted :: rest => readExactly ending bytes buffer incoming rest
    | .wouldBlock :: _ => .threw
    | .failed :: _ => .threw
    | .received more :: rest =>
        if incoming = [] then starved ending
        else
          let bytesRead := min (more + 1) (bytes - buffer.length)
          readExactly ending bytes (buffer ++ incoming.take bytesRead) (incoming.drop bytesRead) rest
  else .value buffer incoming recvs

def readFrame (ending : Ending) (incoming : Bytes) (recvs : List RecvCall) : FrameReceived :=
  match readExactly ending 4 [] incoming recvs with
  | .ended => .closed
  | .waiting => .waiting
  | .threw => .threw
  | .value header incoming recvs =>
      let payloadSize := fromBigEndian header
      if payloadSize > kMaxPayloadSize then .threw
      else if payloadSize = 0 then .frame [] incoming recvs
      else match readExactly ending payloadSize [] incoming recvs with
        | .ended => .threw
        | .waiting => .waiting
        | .threw => .threw
        | .value payload incoming recvs => .frame payload incoming recvs

/-! Frames one after another. -/

def writeFrames : List Bytes → Bytes → List SendCall → Written
  | [], sent, sends => .returned sent sends
  | payload :: rest, sent, sends =>
      (writeFrame payload sent sends).andThen (writeFrames rest)

/-- The payloads of `count` calls of `read_frame`, the bytes and the calls left; `none` if
one of them does not return true. -/
def readFrames (ending : Ending) : Nat → Bytes → List RecvCall →
    Option (List Bytes × Bytes × List RecvCall)
  | 0, incoming, recvs => some ([], incoming, recvs)
  | count + 1, incoming, recvs =>
      match readFrame ending incoming recvs with
      | .frame payload incoming recvs =>
          (readFrames ending count incoming recvs).map fun (payloads, left) =>
            (payload :: payloads, left)
      | _ => none

end BlockingSocket

def SendCall.Progresses : SendCall → Prop
  | .accepted count => 0 < count
  | .interrupted => True
  | .wouldBlock => False
  | .failed => False

def RecvCall.Progresses : RecvCall → Prop
  | .received _ => True
  | .interrupted => True
  | .wouldBlock => False
  | .failed => False

end KafkaBroker
