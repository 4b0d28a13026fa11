import KafkaBroker.Lib.BigEndian

/-!
Length-prefixed frames on a blocking socket. The bytes a peer sends arrive in
segments; a `recv` takes at most what it asked for from the first one.
-/

namespace KafkaBroker

open ByteText

def kMaxPayloadSize : Nat := 64 * 1024

/-- What the peer does after its last byte. -/
inductive Ending
  | shutdown
  | silent
  deriving DecidableEq, Repr

/-- What a blocking read comes to: the bytes and the segments left, the end of the
stream, or no return as long as the peer is silent. -/
inductive ReadResult
  | value (bytes : Bytes) (rest : List Bytes)
  | ended
  | waiting
  deriving DecidableEq, Repr

/-- The loop of `read_exactly`: `need` bytes are missing, `got` is the buffer. -/
def readExactly (ending : Ending) : List Bytes → Nat → Bytes → ReadResult
  | segments, 0, got => .value got segments
  | [], _ + 1, _ =>
      match ending with
      | .shutdown => .ended
      | .silent => .waiting
  | segment :: rest, need + 1, got =>
      if segment = [] then .ended
      else if segment.length ≤ need + 1 then
        readExactly ending rest (need + 1 - segment.length) (got ++ segment)
      else .value (got ++ segment.take (need + 1)) (segment.drop (need + 1) :: rest)

inductive FrameRead
  | frame (payload : Bytes) (rest : List Bytes)
  | closed
  | threw
  | waiting
  deriving DecidableEq, Repr

def readFrame (ending : Ending) (segments : List Bytes) : FrameRead :=
  match readExactly ending segments 4 [] with
  | .ended => .closed
  | .waiting => .waiting
  | .value header rest =>
      let payloadSize := fromBigEndian header
      if payloadSize > kMaxPayloadSize then .threw
      else match readExactly ending rest payloadSize [] with
        | .ended => .threw
        | .waiting => .waiting
        | .value payload rest => .frame payload rest

/-- The bytes `write_frame` sends; `none` where it throws. -/
def writeFrame (payload : Bytes) : Option Bytes :=
  if payload.length > kMaxPayloadSize then none
  else some (bigEndian payload.length ++ payload)

end KafkaBroker
