import KafkaBroker.Lib.Text

/-! The four bytes of a 32-bit word in network order. -/

namespace ByteText

/-- `htonl` followed by a copy of the four bytes; the value is taken modulo `2 ^ 32`. -/
def bigEndian (value : Nat) : Bytes :=
  [UInt8.ofNat (value / 2 ^ 24), UInt8.ofNat (value / 2 ^ 16), UInt8.ofNat (value / 2 ^ 8),
    UInt8.ofNat value]

def fromBigEndian (bytes : Bytes) : Nat :=
  bytes.foldl (fun total byte => 256 * total + byte.toNat) 0

@[simp] theorem bigEndian_length (value : Nat) : (bigEndian value).length = 4 := by
  rfl

theorem fromBigEndian_bigEndian (value : Nat) :
    fromBigEndian (bigEndian value) = value % 2 ^ 32 := by
  simp only [bigEndian, fromBigEndian, List.foldl_cons, List.foldl_nil, UInt8.toNat_ofNat']
  omega

theorem fromBigEndian_bigEndian_of_lt {value : Nat} (bound : value < 2 ^ 32) :
    fromBigEndian (bigEndian value) = value := by
  rw [fromBigEndian_bigEndian, Nat.mod_eq_of_lt bound]

theorem fromBigEndian_lt {bytes : Bytes} (four : bytes.length = 4) :
    fromBigEndian bytes < 2 ^ 32 := by
  obtain ⟨first, second, third, fourth, rfl⟩ : ∃ first second third fourth,
      bytes = [first, second, third, fourth] := by
    match bytes, four with
    | [first, second, third, fourth], _ => exact ⟨first, second, third, fourth, rfl⟩
  have firstBound := first.toNat_lt
  have secondBound := second.toNat_lt
  have thirdBound := third.toNat_lt
  have fourthBound := fourth.toNat_lt
  simp only [fromBigEndian, List.foldl_cons, List.foldl_nil]
  omega

theorem bigEndian_fromBigEndian {bytes : Bytes} (four : bytes.length = 4) :
    bigEndian (fromBigEndian bytes) = bytes := by
  obtain ⟨first, second, third, fourth, rfl⟩ : ∃ first second third fourth,
      bytes = [first, second, third, fourth] := by
    match bytes, four with
    | [first, second, third, fourth], _ => exact ⟨first, second, third, fourth, rfl⟩
  have firstBound := first.toNat_lt
  have secondBound := second.toNat_lt
  have thirdBound := third.toNat_lt
  have fourthBound := fourth.toNat_lt
  simp only [fromBigEndian, List.foldl_cons, List.foldl_nil, bigEndian, List.cons.injEq,
    and_true, ← UInt8.toNat_inj, UInt8.toNat_ofNat']
  omega

end ByteText
