import KafkaBroker.Lib.BigEndian

/-!
The record format of the topic logs: four length bytes in network order, the
payload, and the CRC-32 of length and payload, again in network order.
-/

namespace KafkaBroker

open ByteText

structure Record where
  payload : Bytes
  deriving DecidableEq, Repr

def crcBit (crc : BitVec 32) : BitVec 32 :=
  if crc &&& 1#32 ≠ 0#32 then (crc >>> 1) ^^^ 0xEDB88320#32 else crc >>> 1

def crcByte (crc : BitVec 32) (byte : Byte) : BitVec 32 :=
  crcBit^[8] (crc ^^^ byte.toBitVec.setWidth 32)

def crc32 (data : Bytes) : BitVec 32 :=
  data.foldl crcByte 0xFFFFFFFF#32 ^^^ 0xFFFFFFFF#32

def recordBody (record : Record) : Bytes :=
  bigEndian record.payload.length ++ record.payload

def serializeRecord (record : Record) : Bytes :=
  recordBody record ++ bigEndian (crc32 (recordBody record)).toNat

/-- The record at `offset` and the offset after it; `none` where the source
returns false and leaves both arguments alone. -/
def deserializeRecord (buffer : Bytes) (offset : Nat) : Option (Record × Nat) :=
  if offset > buffer.length ∨ buffer.length - offset < 4 then none
  else
    let payloadLength := fromBigEndian ((buffer.drop offset).take 4)
    if buffer.length - offset - 4 < payloadLength then none
    else
      let payloadStart := offset + 4
      let checksumStart := payloadStart + payloadLength
      if buffer.length - checksumStart < 4 then none
      else
        let storedChecksum := fromBigEndian ((buffer.drop checksumStart).take 4)
        let calculatedChecksum := crc32 ((buffer.drop offset).take (4 + payloadLength))
        if calculatedChecksum.toNat ≠ storedChecksum then none
        else some (⟨(buffer.drop payloadStart).take payloadLength⟩, checksumStart + 4)

/-- The decoding loop of `read_all`. A decoded record is at least eight bytes
long, so a fuel of the buffer's length is never used up. -/
def readRecords (buffer : Bytes) : Nat → Nat → List Record × Nat
  | 0, offset => ([], offset)
  | fuel + 1, offset =>
      match deserializeRecord buffer offset with
      | none => ([], offset)
      | some (record, next) =>
          let rest := readRecords buffer fuel next
          (record :: rest.1, rest.2)

def serializeAll (records : List Record) : Bytes :=
  (records.map serializeRecord).flatten

end KafkaBroker
