import KafkaBroker.RecordCore

/-!
Correctness of the record codec in `RecordCore`: decoding at an offset reads only
what follows it, accepts exactly the serialized records, and never accepts a torn
one; the recovery loop therefore returns the records before the first byte that
does not decode.
-/

namespace KafkaBroker

open ByteText

def Record.Fits (record : Record) : Prop := record.payload.length < 2 ^ 32

instance (record : Record) : Decidable record.Fits := inferInstanceAs (Decidable (_ < _))

theorem recordBody_length (record : Record) :
    (recordBody record).length = 4 + record.payload.length := by
  simp [recordBody]

theorem serializeRecord_length (record : Record) :
    (serializeRecord record).length = 8 + record.payload.length := by
  simp only [serializeRecord, List.length_append, recordBody_length, bigEndian_length]
  omega

theorem deserializeRecord_append (before tail : Bytes) :
    deserializeRecord (before ++ tail) before.length =
      (deserializeRecord tail 0).map fun found => (found.1, before.length + found.2) := by
  have start : (before ++ tail).drop before.length = tail := List.drop_left' rfl
  have dropped (extra : Nat) : (before ++ tail).drop (before.length + extra) = tail.drop extra :=
    List.drop_length_add_append extra
  simp only [deserializeRecord, start, List.drop_zero, List.length_append, Nat.add_assoc, dropped]
  have outside : (before.length > before.length + tail.length ∨
      before.length + tail.length - before.length < 4) = (0 > tail.length ∨ tail.length - 0 < 4) := by
    simp
  have payload : before.length + tail.length - before.length - 4 = tail.length - 0 - 4 := by
    omega
  have checksum (length : Nat) : before.length + tail.length - (before.length + (4 + length)) =
      tail.length - (0 + (4 + length)) := by
    omega
  simp only [outside, payload, checksum, Nat.zero_add]
  split
  · rfl
  · split
    · rfl
    · split
      · rfl
      · split
        · rfl
        · simp

theorem deserializeRecord_serialize {record : Record} (fits : record.Fits) (rest : Bytes) :
    deserializeRecord (serializeRecord record ++ rest) 0 =
      some (record, (serializeRecord record).length) := by
  have size := serializeRecord_length record
  have bodySize := recordBody_length record
  have split : serializeRecord record ++ rest = bigEndian record.payload.length ++
      (record.payload ++ (bigEndian (crc32 (recordBody record)).toNat ++ rest)) := by
    simp [serializeRecord, recordBody]
  have header : (serializeRecord record ++ rest).take 4 = bigEndian record.payload.length := by
    rw [split]
    exact List.take_left' rfl
  have body : (serializeRecord record ++ rest).take (4 + record.payload.length) =
      recordBody record := by
    rw [serializeRecord, List.append_assoc]
    exact List.take_left' bodySize
  have payload : (serializeRecord record ++ rest).drop 4 =
      record.payload ++ (bigEndian (crc32 (recordBody record)).toNat ++ rest) := by
    rw [split]
    exact List.drop_left' rfl
  have checksum : ((serializeRecord record ++ rest).drop (4 + record.payload.length)).take 4 =
      bigEndian (crc32 (recordBody record)).toNat := by
    rw [serializeRecord, List.append_assoc, List.drop_left' bodySize]
    exact List.take_left' rfl
  have word : (crc32 (recordBody record)).toNat < 2 ^ 32 := (crc32 (recordBody record)).isLt
  simp only [deserializeRecord, List.drop_zero, Nat.zero_add, header,
    fromBigEndian_bigEndian_of_lt fits, body, checksum, fromBigEndian_bigEndian_of_lt word,
    List.length_append, size, payload]
  rw [if_neg (by omega), if_neg (by omega), if_neg (by omega), if_neg (by simp)]
  simp only [Option.some.injEq, Prod.mk.injEq]
  exact ⟨by rw [List.take_left' rfl], by omega⟩

theorem deserializeRecord_sound {tail : Bytes} {record : Record} {next : Nat}
    (found : deserializeRecord tail 0 = some (record, next)) :
    record.Fits ∧ next = (serializeRecord record).length ∧
      ∃ rest, tail = serializeRecord record ++ rest := by
  simp only [deserializeRecord, List.drop_zero, Nat.zero_add] at found
  split at found
  · simp at found
  · rename_i longHeader
    split at found
    · simp at found
    · rename_i longPayload
      split at found
      · simp at found
      · rename_i longChecksum
        split at found
        · simp at found
        · rename_i checked
          simp only [Option.some.injEq, Prod.mk.injEq, not_not] at found checked
          obtain ⟨rfl, rfl⟩ := found
          have four : (tail.take 4).length = 4 := by
            rw [List.length_take]
            omega
          have length := fromBigEndian_lt four
          generalize lengthEq : fromBigEndian (tail.take 4) = payloadLength at *
          have payloadSize : ((tail.drop 4).take payloadLength).length = payloadLength := by
            rw [List.length_take, List.length_drop]
            omega
          have checksumSize : ((tail.drop (4 + payloadLength)).take 4).length = 4 := by
            rw [List.length_take, List.length_drop]
            omega
          have body : recordBody ⟨(tail.drop 4).take payloadLength⟩ =
              tail.take (4 + payloadLength) := by
            rw [recordBody, payloadSize, ← lengthEq, bigEndian_fromBigEndian four, lengthEq,
              List.take_add]
          have serialized : serializeRecord ⟨(tail.drop 4).take payloadLength⟩ =
              tail.take (4 + payloadLength + 4) := by
            rw [serializeRecord, body, checked, bigEndian_fromBigEndian checksumSize,
              List.take_add (i := 4 + payloadLength)]
          refine ⟨by simpa only [Record.Fits, payloadSize] using length, ?_, ?_⟩
          · rw [serializeRecord_length, payloadSize]
            omega
          · exact ⟨tail.drop (4 + payloadLength + 4), by rw [serialized, List.take_append_drop]⟩

theorem deserializeRecord_torn {record : Record} (fits : record.Fits) {torn : Bytes}
    (cut : torn <+: serializeRecord record) (short : torn ≠ serializeRecord record) :
    deserializeRecord torn 0 = none := by
  cases found : deserializeRecord torn 0 with
  | none => rfl
  | some pair =>
      obtain ⟨other, next⟩ := pair
      obtain ⟨_, _, rest, tornEq⟩ := deserializeRecord_sound found
      obtain ⟨missing, whole⟩ := cut
      have first := deserializeRecord_serialize fits []
      rw [List.append_nil, ← whole, tornEq, List.append_assoc,
        deserializeRecord_serialize (deserializeRecord_sound found).1] at first
      simp only [Option.some.injEq, Prod.mk.injEq] at first
      obtain ⟨same, _⟩ := first
      subst same
      have sizes := congrArg List.length whole
      rw [tornEq] at sizes
      simp only [List.length_append] at sizes
      have restNil : rest = [] := List.length_eq_zero_iff.mp (by omega)
      exact absurd (by rw [tornEq, restNil, List.append_nil]) short

@[simp] theorem serializeAll_nil : serializeAll [] = [] := by
  rfl

@[simp] theorem serializeAll_cons (record : Record) (rest : List Record) :
    serializeAll (record :: rest) = serializeRecord record ++ serializeAll rest := by
  rfl

theorem serializeAll_append (first second : List Record) :
    serializeAll (first ++ second) = serializeAll first ++ serializeAll second := by
  simp [serializeAll]

/-- Everything `read_all` decodes from a buffer, with the offset where it stops. -/
def decodeLog (bytes : Bytes) : List Record × Nat := readRecords bytes bytes.length 0

theorem readRecords_serializeAll {records : List Record} (fits : ∀ record ∈ records, record.Fits)
    {torn : Bytes} (stops : deserializeRecord torn 0 = none) :
    ∀ (fuel : Nat) (before : Bytes), records.length ≤ fuel →
      readRecords (before ++ (serializeAll records ++ torn)) fuel before.length =
        (records, before.length + (serializeAll records).length) := by
  induction records with
  | nil =>
      intro fuel before _
      cases fuel with
      | zero => simp [readRecords]
      | succ fuel => simp [readRecords, deserializeRecord_append, stops]
  | cons record rest ih =>
      intro fuel before enough
      cases fuel with
      | zero => simp at enough
      | succ fuel =>
          have head := deserializeRecord_append before (serializeAll (record :: rest) ++ torn)
          rw [serializeAll_cons, List.append_assoc,
            deserializeRecord_serialize (fits record (by simp)), Option.map_some] at head
          have tail := ih (fun other member => fits other (by simp [member])) fuel
            (before ++ serializeRecord record) (by simpa using enough)
          rw [List.append_assoc, List.length_append] at tail
          simp only [readRecords, serializeAll_cons, List.append_assoc, head, tail,
            List.length_append, Nat.add_assoc]

theorem serializeAll_length_ge (records : List Record) :
    records.length ≤ (serializeAll records).length := by
  induction records with
  | nil => simp
  | cons record rest ih =>
      simp only [List.length_cons, serializeAll_cons, List.length_append, serializeRecord_length]
      omega

theorem decodeLog_serializeAll {records : List Record} (fits : ∀ record ∈ records, record.Fits)
    {torn : Bytes} (stops : deserializeRecord torn 0 = none) :
    decodeLog (serializeAll records ++ torn) = (records, (serializeAll records).length) := by
  have enough : records.length ≤ (serializeAll records ++ torn).length := by
    have size := serializeAll_length_ge records
    rw [List.length_append]
    omega
  simpa [decodeLog] using readRecords_serializeAll fits stops _ [] enough

@[simp] theorem deserializeRecord_nil : deserializeRecord [] 0 = none := by
  simp [deserializeRecord]

theorem readRecords_spec (fuel : Nat) : ∀ (before tail : Bytes), tail.length ≤ fuel →
    ∃ records torn, readRecords (before ++ tail) fuel before.length =
        (records, before.length + (serializeAll records).length) ∧
      tail = serializeAll records ++ torn ∧ deserializeRecord torn 0 = none ∧
      ∀ record ∈ records, record.Fits := by
  induction fuel with
  | zero =>
      intro before tail short
      have empty : tail = [] := List.length_eq_zero_iff.mp (by omega)
      subst empty
      exact ⟨[], [], by simp [readRecords]⟩
  | succ fuel ih =>
      intro before tail short
      have head := deserializeRecord_append before tail
      cases found : deserializeRecord tail 0 with
      | none =>
          rw [found] at head
          exact ⟨[], tail, by simp [readRecords, head], by simp, found, by simp⟩
      | some pair =>
          obtain ⟨record, next⟩ := pair
          obtain ⟨fits, nextEq, rest, tailEq⟩ := deserializeRecord_sound found
          rw [found, Option.map_some, nextEq] at head
          have size := serializeRecord_length record
          have restShort : rest.length ≤ fuel := by
            rw [tailEq, List.length_append] at short
            omega
          obtain ⟨records, torn, loop, restEq, stops, allFit⟩ :=
            ih (before ++ serializeRecord record) rest restShort
          rw [List.append_assoc, List.length_append, ← tailEq] at loop
          refine ⟨record :: records, torn, ?_, ?_, stops, ?_⟩
          · simp only [readRecords, head, loop, serializeAll_cons, List.length_append,
              Nat.add_assoc]
          · rw [serializeAll_cons, List.append_assoc, ← restEq, tailEq]
          · intro other member
            rcases List.mem_cons.mp member with same | later
            · exact same ▸ fits
            · exact allFit other later

theorem decodeLog_spec (bytes : Bytes) :
    ∃ torn, bytes = serializeAll (decodeLog bytes).1 ++ torn ∧
      (decodeLog bytes).2 = (serializeAll (decodeLog bytes).1).length ∧
      deserializeRecord torn 0 = none ∧ ∀ record ∈ (decodeLog bytes).1, record.Fits := by
  obtain ⟨records, torn, loop, split, stops, fits⟩ :=
    readRecords_spec bytes.length [] bytes (Nat.le_refl _)
  simp only [List.nil_append, List.length_nil, Nat.zero_add] at loop
  rw [decodeLog, loop]
  exact ⟨torn, split, rfl, stops, fits⟩

end KafkaBroker
