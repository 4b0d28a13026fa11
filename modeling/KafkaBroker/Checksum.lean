import KafkaBroker.Decoding
import KafkaBroker.Lib.CrcPolynomial

/-!
The checksum of the records is CRC-32/ISO-HDLC as its definition by polynomial division
gives it, on every byte string.
-/

namespace KafkaBroker

open ByteText Polynomial

noncomputable def crc32Generator : (ZMod 2)[X] :=
  X ^ 32 + X ^ 26 + X ^ 23 + X ^ 22 + X ^ 16 + X ^ 12 + X ^ 11 + X ^ 10 + X ^ 8 + X ^ 7 + X ^ 5 +
    X ^ 4 + X ^ 2 + X + 1

/-- The message with 32 zero bits behind it and the first 32 bits complemented, divided by
the generator; the remainder reflected and complemented. -/
noncomputable def crc32IsoHdlc (data : Bytes) : BitVec 32 :=
  ~~~Crc.reflect 32 (Crc.ofBits (Crc.complementFirst 32
    (Crc.messageBits data ++ List.replicate 32 false)) %ₘ crc32Generator)

theorem crc32Generator_eq : crc32Generator = Crc.generator 0xEDB88320#32 := by
  have bits : (List.range 32).map (fun index => (0xEDB88320#32).getLsbD index) =
      [false, false, false, false, false, true, false, false, true, true, false, false, false,
        false, false, true, false, false, false, true, true, true, false, true, true, false,
        true, true, false, true, true, true] := by
    decide
  rw [Crc.generator, ← Crc.ofBits_bits, bits]
  simp [Crc.ofBits, crc32Generator, add_assoc]

/-- `crc32` computes CRC-32/ISO-HDLC. -/
theorem crc32_isoHdlc (data : Bytes) : crc32 data = crc32IsoHdlc data := by
  rw [crc32IsoHdlc, crc32Generator_eq, Crc.modByMonic_message _ (by decide : 8 ≤ 32),
    Crc.reflect_toPolynomial, crc32, crcByte_eq, ← BitVec.xor_allOnes]
  rfl

example : crc32 (ascii "123456789") = 0xCBF43926#32 := by decide +kernel

end KafkaBroker
