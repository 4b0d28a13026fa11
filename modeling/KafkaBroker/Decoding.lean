import KafkaBroker.DecodingCore
import KafkaBroker.Recovery
import KafkaBroker.Lib.Crc

/-!
Reading a topic log back: `deserialize_record` accepts exactly what `serialize_record`
writes and stays inside its buffer, `read_all` leaves the longest prefix of records in the
file, and a burst of changed bytes ends the list right before the record it is in.
-/

namespace KafkaBroker

open ByteText Posix

/-! One record. -/

theorem sizeSub_of_le {first second : Nat} (le : second ≤ first) :
    sizeSub first second = .ok (first - second) := by
  rw [sizeSub, if_neg (by omega)]

theorem sizeAdd_of_lt {first second : Nat} (fits : first + second < 2 ^ 64) :
    sizeAdd first second = .ok (first + second) := by
  rw [sizeAdd, if_neg (by omega)]

theorem readBytes_inside {buffer : Bytes} {start count : Nat}
    (inside : start + count ≤ buffer.length) :
    readBytes buffer start count = .ok ((buffer.drop start).take count) := by
  rw [readBytes, if_neg (by omega)]

theorem ok_bind {α β : Type} (value : α) (next : α → Except Fault β) :
    (Except.ok value >>= next) = next value := by
  rfl

theorem deserializeRecordChecked_eq {buffer : Bytes} (sized : buffer.length < 2 ^ 64)
    (offset : Nat) (outRecord : Record) :
    deserializeRecordChecked buffer offset outRecord =
      .ok (match deserializeRecord buffer offset with
        | none => (false, offset, outRecord)
        | some found => (true, found.2, found.1)) := by
  unfold deserializeRecordChecked deserializeRecord
  by_cases outside : offset > buffer.length
  · simp only [outside, true_or, if_true]
    rfl
  by_cases header : buffer.length - offset < 4
  · simp only [outside, if_false, sizeSub_of_le (not_lt.mp outside), ok_bind, header, or_true,
      if_true]
    rfl
  rw [if_neg outside, if_neg (not_or.mpr ⟨outside, header⟩), sizeSub_of_le (not_lt.mp outside),
    readBytes_inside (by omega)]
  simp only [ok_bind, header, if_false, sizeSub_of_le (not_lt.mp header)]
  generalize fromBigEndian ((buffer.drop offset).take 4) = payloadLength
  by_cases payload : buffer.length - offset - 4 < payloadLength
  · simp only [payload, if_true]
    rfl
  -- the checks so far keep the start of the checksum inside the buffer
  have checksumInside : offset + 4 + payloadLength ≤ buffer.length := by omega
  have startFits : offset + 4 < 2 ^ 64 := by omega
  have checksumFits : offset + 4 + payloadLength < 2 ^ 64 := by omega
  simp only [payload, if_false, sizeAdd_of_lt startFits, ok_bind, sizeAdd_of_lt checksumFits,
    sizeSub_of_le checksumInside]
  by_cases checksum : buffer.length - (offset + 4 + payloadLength) < 4
  · simp only [checksum, if_true]
    rfl
  have coveredFits : 4 + payloadLength < 2 ^ 64 := by omega
  have nextFits : offset + 4 + payloadLength + 4 < 2 ^ 64 := by omega
  have covered : offset + (4 + payloadLength) ≤ buffer.length := by omega
  have stored : offset + 4 + payloadLength + 4 ≤ buffer.length := by omega
  simp only [checksum, if_false, readBytes_inside stored, ok_bind, sizeAdd_of_lt coveredFits,
    readBytes_inside covered, sizeAdd_of_lt nextFits, readBytes_inside checksumInside]
  split
  · rfl
  · rfl

theorem deserializeRecord_eq_some_iff {buffer : Bytes} {offset : Nat} {record : Record}
    {next : Nat} : deserializeRecord buffer offset = some (record, next) ↔
      record.Fits ∧ serializeRecord record <+: buffer.drop offset ∧
        next = offset + (8 + record.payload.length) := by
  by_cases outside : buffer.length < offset
  · have rejected : deserializeRecord buffer offset = none := by
      rw [deserializeRecord, if_pos (Or.inl outside)]
    rw [rejected, List.drop_of_length_le (by omega), List.prefix_nil]
    refine ⟨by simp, ?_⟩
    rintro ⟨_, empty, _⟩
    have size := serializeRecord_length record
    rw [empty, List.length_nil] at size
    omega
  · have split := deserializeRecord_append (buffer.take offset) (buffer.drop offset)
    rw [List.take_append_drop, List.length_take, Nat.min_eq_left (not_lt.mp outside)] at split
    rw [split, Option.map_eq_some_iff]
    constructor
    · rintro ⟨⟨found, length⟩, decoded, same⟩
      obtain ⟨rfl, rfl⟩ := Prod.mk.inj same
      obtain ⟨fits, lengthEq, rest, tail⟩ := deserializeRecord_sound decoded
      rw [lengthEq, serializeRecord_length]
      exact ⟨fits, ⟨rest, tail.symm⟩, rfl⟩
    · rintro ⟨fits, ⟨rest, tail⟩, rfl⟩
      refine ⟨(record, (serializeRecord record).length), ?_, ?_⟩
      · rw [← tail, deserializeRecord_serialize fits]
      · rw [serializeRecord_length]

/-- `deserialize_record` accepts exactly the image of `serialize_record`, changes its
arguments only then, and neither wraps around nor reads outside the buffer. -/
theorem deserializeRecord_exact {buffer : Bytes} (sized : buffer.length < 2 ^ 64) (offset : Nat)
    (outRecord : Record) : ∃ accepted next record,
      deserializeRecordChecked buffer offset outRecord = .ok (accepted, next, record) ∧
      (accepted = true ↔
        ∃ stored : Record, stored.Fits ∧ serializeRecord stored <+: buffer.drop offset) ∧
      (∀ stored : Record, stored.Fits → serializeRecord stored <+: buffer.drop offset →
        record = stored ∧ next = offset + (8 + stored.payload.length)) ∧
      (accepted = false → next = offset ∧ record = outRecord) := by
  rw [deserializeRecordChecked_eq sized]
  cases decoded : deserializeRecord buffer offset with
  | none =>
      have rejected (stored : Record) (fits : stored.Fits) :
          ¬serializeRecord stored <+: buffer.drop offset := by
        intro starts
        rw [deserializeRecord_eq_some_iff.mpr ⟨fits, starts, rfl⟩] at decoded
        simp at decoded
      refine ⟨false, offset, outRecord, rfl, ?_, ?_, fun _ => ⟨rfl, rfl⟩⟩
      · simpa using rejected
      · exact fun stored fits starts => absurd starts (rejected stored fits)
  | some found =>
      obtain ⟨record, next⟩ := found
      obtain ⟨fits, starts, _⟩ := deserializeRecord_eq_some_iff.mp decoded
      refine ⟨true, next, record, rfl, ⟨fun _ => ⟨record, fits, starts⟩, fun _ => rfl⟩, ?_, by simp⟩
      intro stored storedFits storedStarts
      rw [deserializeRecord_eq_some_iff.mpr ⟨storedFits, storedStarts, rfl⟩] at decoded
      simp only [Option.some.injEq, Prod.mk.injEq] at decoded
      exact ⟨decoded.1.symm, decoded.2.symm⟩

theorem deserializeRecord_exact_inside :
    deserializeRecordChecked (7 :: serializeRecord ⟨ascii "m"⟩) 1 ⟨[]⟩ =
      .ok (true, 10, ⟨ascii "m"⟩) := by
  obtain ⟨accepted, next, record, ran, accepts, exactly, _⟩ := deserializeRecord_exact
    (by decide +kernel : (7 :: serializeRecord ⟨ascii "m"⟩).length < 2 ^ 64) 1 ⟨[]⟩
  have fits : Record.Fits ⟨ascii "m"⟩ := by decide
  obtain ⟨rfl, rfl⟩ := exactly ⟨ascii "m"⟩ fits (List.prefix_refl _)
  rw [ran, accepts.mpr ⟨_, fits, List.prefix_refl _⟩]
  rfl

/-! A whole log. -/

section Log

variable {log : TopicLog} {disk : FileSystem} {contents : Bytes}

theorem readAll_eq (present : contents? disk (resolve log.logPath) = some contents)
    (clean : repaired contents = contents) :
    log.readAll disk = ((decodeLog contents).1, disk) := by
  have stop : (decodeLog contents).2 = contents.length := by
    obtain ⟨torn, _, stop, _, _⟩ := decodeLog_spec contents
    rw [stop]
    exact congrArg List.length clean
  unfold TopicLog.readAll
  simp only [present]
  change ((decodeLog contents).1, if (decodeLog contents).2 < contents.length then _ else disk) = _
  rw [if_neg (by omega)]

theorem append_contents (present : contents? disk (resolve log.logPath) = some contents)
    {record : Record} {calls : AppendCalls} {after : FileSystem}
    (appended : log.append record calls disk = (.returned (), after)) :
    contents? after (resolve log.logPath) = some (contents ++ serializeRecord record) := by
  unfold TopicLog.append at appended
  cases made : onceCall calls.createDirectories with
  | threw => simp [made] at appended
  | crashed => simp [made] at appended
  | returned _ =>
  cases created : createDirectories disk [] (resolve log.folder) with
  | none => simp [made, created] at appended
  | some prepared =>
  cases tried : retryCall calls.opens with
  | threw => simp [made, created, tried] at appended
  | crashed => simp [made, created, tried] at appended
  | returned _ =>
  cases openedEq : openAppend prepared (resolve log.logPath) with
  | none => simp [made, created, tried, openedEq] at appended
  | some opened =>
  simp only [made, created, tried, openedEq, Prod.mk.injEq] at appended
  obtain ⟨ended, rfl⟩ := appended
  obtain ⟨openedExtends, before, there⟩ := openAppend_extends openedEq
  have extended := ((createDirectories_extends created).trans openedExtends).trans
    (appendBytes_extends there (writeAll (serializeRecord record) calls.writes).1)
  rw [writeAll_returned _ _ (syncAndClose_returned ended)] at extended ⊢
  obtain ⟨final, found⟩ := Option.isSome_iff_exists.mp (extended.kept (by simp [present]))
  have target := extended.target
  rw [found, present] at target
  rw [found]
  simpa using target

/-- `read_all` returns the longest prefix of whole records and leaves a clean log, to
which later appends add. -/
theorem readAll_longest (present : contents? disk (resolve log.logPath) = some contents) :
    ∃ records cleaned, log.readAll disk = (records, cleaned) ∧
      serializeAll records <+: contents ∧
      deserializeRecord contents (serializeAll records).length = none ∧
      contents? cleaned (resolve log.logPath) = some (serializeAll records) ∧
      log.readAll cleaned = (records, cleaned) ∧
      (∀ record calls after, record.Fits →
        log.append record calls cleaned = (.returned (), after) →
        (log.readAll after).1 = records ++ [record]) ∧
      ∀ (stored : List Record) (record : Record) (torn : Bytes),
        (∀ other ∈ stored, other.Fits) → record.Fits → torn <+: serializeRecord record →
        torn ≠ serializeRecord record → contents = serializeAll stored ++ torn →
        records = stored := by
  obtain ⟨torn, split, stop, stops, fits⟩ := decodeLog_spec contents
  obtain ⟨read, _, cleaned⟩ := readAll_spec present
  refine ⟨(decodeLog contents).1, (log.readAll disk).2, Prod.ext read rfl, ⟨torn, split.symm⟩,
    ?_, cleaned, ?_, ?_, ?_⟩
  · have shifted := deserializeRecord_append (serializeAll (decodeLog contents).1) torn
    rw [← split, stops] at shifted
    exact shifted
  · rw [readAll_eq cleaned (repaired_repaired contents), decodeLog_repaired]
  · intro record calls after fitting appended
    have allFit : ∀ other ∈ (decodeLog contents).1 ++ [record], other.Fits := by
      intro other member
      rcases List.mem_append.mp member with old | last
      · exact fits other old
      · exact List.mem_singleton.mp last ▸ fitting
    have decoded := decodeLog_serializeAll allFit deserializeRecord_nil
    rw [(readAll_spec (append_contents cleaned appended)).1, repaired]
    simpa [serializeAll_append] using congrArg Prod.fst decoded
  · intro stored record torn storedFits recordFits cut short whole
    rw [whole, decodeLog_serializeAll storedFits (deserializeRecord_torn recordFits cut short)]

def firstLog : TopicLog := ⟨ascii "t", 0, ascii "data", by decide, by decide⟩

def storedLog (contents : Bytes) : FileSystem :=
  (∅ : FileSystem).set (resolve firstLog.logPath) (.file contents)

theorem storedLog_contents (contents : Bytes) :
    contents? (storedLog contents) (resolve firstLog.logPath) = some contents := by
  rw [storedLog, contents?_set, if_pos rfl]

theorem readAll_longest_torn :
    (firstLog.readAll (storedLog (serializeRecord ⟨ascii "a"⟩ ++
      (serializeRecord ⟨ascii "b"⟩).take 5))).1 = [⟨ascii "a"⟩] := by
  obtain ⟨records, cleaned, read, _, _, _, _, _, exactly⟩ := readAll_longest
    (storedLog_contents (serializeRecord ⟨ascii "a"⟩ ++ (serializeRecord ⟨ascii "b"⟩).take 5))
  rw [read]
  exact exactly [⟨ascii "a"⟩] ⟨ascii "b"⟩ ((serializeRecord ⟨ascii "b"⟩).take 5) (by decide)
    (by decide) (List.take_prefix _ _) (by decide +kernel) (by simp)

/-! Corrupted bytes. -/

theorem crcBit_eq : crcBit = Crc.bit 0xEDB88320#32 := by
  funext crc
  unfold crcBit Crc.bit
  have low : crc &&& 1#32 ≠ 0#32 ↔ crc.getLsbD 0 = true := by
    rw [BitVec.and_one_eq_setWidth_ofBool_getLsbD]
    cases crc.getLsbD 0 <;> decide
  simp only [low]

theorem crcByte_eq : crcByte = Crc.byte 0xEDB88320#32 := by
  funext crc byte
  rw [crcByte, crcBit_eq, Crc.byte]

theorem crc32_burst (before after : Bytes) {first second : Bytes}
    (sameLength : first.length = second.length) (short : first.length ≤ 4)
    (same : crc32 (before ++ (first ++ after)) = crc32 (before ++ (second ++ after))) :
    first = second := by
  have folds := (BitVec.xor_left_inj _).mp same
  rw [crcByte_eq] at folds
  exact Crc.foldl_burst _ (by decide) _ before after sameLength (by omega) folds

theorem deserializeRecord_checksum {payload checksum rest : Bytes} {length : Nat}
    (sized : payload.length = length) (fits : length < 2 ^ 32) (four : checksum.length = 4)
    (wrong : checksum ≠ bigEndian (crc32 (bigEndian length ++ payload)).toNat) :
    deserializeRecord (bigEndian length ++ (payload ++ (checksum ++ rest))) 0 = none := by
  cases decoded : deserializeRecord (bigEndian length ++ (payload ++ (checksum ++ rest))) 0 with
  | none => rfl
  | some found =>
      obtain ⟨record, next⟩ := found
      obtain ⟨recordFits, _, others, same⟩ := deserializeRecord_sound decoded
      simp only [serializeRecord, recordBody, List.append_assoc] at same
      obtain ⟨lengths, same⟩ := List.append_inj same rfl
      have lengthEq : length = record.payload.length := by
        rw [← fromBigEndian_bigEndian_of_lt fits, lengths, fromBigEndian_bigEndian_of_lt recordFits]
      obtain ⟨payloadEq, same⟩ := List.append_inj same (by omega)
      obtain ⟨checksumEq, _⟩ := List.append_inj same four
      rw [checksumEq, lengthEq, payloadEq] at wrong
      exact absurd rfl wrong

theorem exists_window {bytes : Bytes} {start size : Nat} (inside : start + size ≤ bytes.length) :
    ∃ first old last, bytes = first ++ (old ++ last) ∧ first.length = start ∧ old.length = size := by
  refine ⟨bytes.take start, (bytes.drop start).take size, (bytes.drop start).drop size, ?_, ?_, ?_⟩
  · rw [List.take_append_drop, List.take_append_drop]
  · rw [List.length_take]
    omega
  · rw [List.length_take, List.length_drop]
    omega

theorem payload_burst {before rest : Bytes} {record : Record} (fits : record.Fits)
    {start size : Nat} (short : size ≤ 4) (inside : start + size ≤ record.payload.length)
    (burst : Crc.Burst (before.length + (4 + start)) size
      (before ++ (serializeRecord record ++ rest)) contents) :
    ∃ torn, contents = before ++ torn ∧ deserializeRecord torn 0 = none := by
  obtain ⟨first, old, last, parts, starts, sized⟩ := exists_window inside
  let checksum := bigEndian (crc32 (recordBody record)).toNat
  have whole : before ++ (serializeRecord record ++ rest) =
      (before ++ (bigEndian record.payload.length ++ first)) ++
        (old ++ (last ++ (checksum ++ rest))) := by
    simp only [serializeRecord, recordBody, checksum, List.append_assoc]
    rw [parts]
    simp only [List.append_assoc]
  rw [whole] at burst
  obtain ⟨new, newLength, newNe, changed⟩ := burst.split
    (by simp only [List.length_append, bigEndian_length, starts]) sized
  refine ⟨bigEndian record.payload.length ++ ((first ++ (new ++ last)) ++ (checksum ++ rest)),
    ?_, ?_⟩
  · rw [changed]
    simp only [List.append_assoc]
  · have sameLength : (first ++ (new ++ last)).length = record.payload.length := by
      rw [parts]
      simp only [List.length_append, newLength]
    apply deserializeRecord_checksum sameLength fits rfl
    intro same
    -- equal checksums of two payloads that differ in a short window only
    have sums := congrArg fromBigEndian same
    rw [fromBigEndian_bigEndian_of_lt (BitVec.isLt _),
      fromBigEndian_bigEndian_of_lt (BitVec.isLt _)] at sums
    have equal := BitVec.eq_of_toNat_eq sums
    rw [recordBody, parts, ← List.append_assoc _ first, ← List.append_assoc _ first] at equal
    exact newNe (crc32_burst _ last newLength.symm (by omega) equal).symm

theorem checksum_burst {before rest : Bytes} {record : Record} (fits : record.Fits)
    (burst : Crc.Burst (before.length + (4 + record.payload.length)) 4
      (before ++ (serializeRecord record ++ rest)) contents) :
    ∃ torn, contents = before ++ torn ∧ deserializeRecord torn 0 = none := by
  have whole : before ++ (serializeRecord record ++ rest) =
      (before ++ recordBody record) ++ (bigEndian (crc32 (recordBody record)).toNat ++ rest) := by
    simp only [serializeRecord, List.append_assoc]
  rw [whole] at burst
  obtain ⟨new, newLength, newNe, changed⟩ := burst.split
    (by rw [List.length_append, recordBody_length]) rfl
  refine ⟨bigEndian record.payload.length ++ (record.payload ++ (new ++ rest)), ?_, ?_⟩
  · rw [changed, recordBody]
    simp only [List.append_assoc]
  · exact deserializeRecord_checksum rfl fits newLength newNe

/-- A burst in the payload or the checksum of a record ends the list before that record. -/
theorem readAll_burst {before after : List Record} {record : Record}
    (fits : ∀ stored ∈ record :: before, stored.Fits) {start size : Nat}
    (burst : Crc.Burst ((serializeAll before).length + (4 + start)) size
      (serializeAll (before ++ record :: after)) contents)
    (place : size ≤ 4 ∧ start + size ≤ record.payload.length ∨
      start = record.payload.length ∧ size = 4)
    (present : contents? disk (resolve log.logPath) = some contents) :
    (log.readAll disk).1 = before ∧
      contents? (log.readAll disk).2 (resolve log.logPath) = some (serializeAll before) := by
  have recordFits := fits record (by simp)
  rw [serializeAll_append, serializeAll_cons] at burst
  obtain ⟨torn, changed, stops⟩ : ∃ torn, contents = serializeAll before ++ torn ∧
      deserializeRecord torn 0 = none := by
    rcases place with ⟨short, inside⟩ | ⟨rfl, rfl⟩
    · exact payload_burst recordFits short inside burst
    · exact checksum_burst recordFits burst
  have decoded := decodeLog_serializeAll
    (fun other member => fits other (List.mem_cons_of_mem _ member)) stops
  obtain ⟨read, _, cleaned⟩ := readAll_spec present
  rw [read, cleaned, repaired, changed, decoded]
  exact ⟨rfl, rfl⟩

theorem readAll_burst_flipped :
    (firstLog.readAll (storedLog ((serializeAll
      [⟨ascii "a"⟩, ⟨ascii "b"⟩, ⟨ascii "c"⟩]).set 13 0))).1 = [⟨ascii "a"⟩] := by
  have fits : ∀ record ∈ [(⟨ascii "b"⟩ : Record), ⟨ascii "a"⟩], record.Fits := by decide
  have burst : Crc.Burst ((serializeAll [⟨ascii "a"⟩]).length + (4 + 0)) 1
      (serializeAll ([⟨ascii "a"⟩] ++ ⟨ascii "b"⟩ :: [⟨ascii "c"⟩]))
      ((serializeAll [⟨ascii "a"⟩, ⟨ascii "b"⟩, ⟨ascii "c"⟩]).set 13 0) := by
    refine ⟨List.length_set, ?_, by decide +kernel⟩
    intro index side
    apply List.getElem?_set_ne
    have size : (serializeAll [⟨ascii "a"⟩]).length = 9 := rfl
    omega
  exact (readAll_burst fits burst (Or.inl (by decide)) (storedLog_contents _)).1

end Log

end KafkaBroker
