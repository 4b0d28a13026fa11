import KafkaBroker.RecordCore

/-!
`deserialize_record` with the machine's arithmetic: a `std::size_t` operation that wraps
around and a read beyond the buffer are faults.
-/

namespace KafkaBroker

open ByteText

inductive Fault
  | wrapped
  | outOfBounds
  deriving DecidableEq, Repr

def sizeAdd (first second : Nat) : Except Fault Nat :=
  if 2 ^ 64 ≤ first + second then .error .wrapped else .ok (first + second)

def sizeSub (first second : Nat) : Except Fault Nat :=
  if first < second then .error .wrapped else .ok (first - second)

def readBytes (buffer : Bytes) (start count : Nat) : Except Fault Bytes :=
  if buffer.length < start + count then .error .outOfBounds
  else .ok ((buffer.drop start).take count)

/-- The result with the offset and the record that the two reference arguments hold
afterwards. -/
def deserializeRecordChecked (buffer : Bytes) (bufferOffset : Nat) (outRecord : Record) :
    Except Fault (Bool × Nat × Record) := do
  if bufferOffset > buffer.length then return (false, bufferOffset, outRecord)
  if (← sizeSub buffer.length bufferOffset) < 4 then return (false, bufferOffset, outRecord)
  let payloadLength := fromBigEndian (← readBytes buffer bufferOffset 4)
  if (← sizeSub (← sizeSub buffer.length bufferOffset) 4) < payloadLength then
    return (false, bufferOffset, outRecord)
  let payloadStart ← sizeAdd bufferOffset 4
  let checksumStart ← sizeAdd payloadStart payloadLength
  if (← sizeSub buffer.length checksumStart) < 4 then return (false, bufferOffset, outRecord)
  let storedChecksum := fromBigEndian (← readBytes buffer checksumStart 4)
  let calculatedChecksum := crc32 (← readBytes buffer bufferOffset (← sizeAdd 4 payloadLength))
  if calculatedChecksum.toNat ≠ storedChecksum then return (false, bufferOffset, outRecord)
  return (true, ← sizeAdd checksumStart 4, ⟨← readBytes buffer payloadStart payloadLength⟩)

end KafkaBroker
