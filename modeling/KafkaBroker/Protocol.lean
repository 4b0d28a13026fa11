import KafkaBroker.GroupCore

/-!
What `parse_request` accepts: the words, partition ids and payloads of an accepted
request are well formed, and the messages the leader sends its follower are read
back field by field.
-/

namespace KafkaBroker

open ByteText

def InRange (partition : Int) : Prop := 0 ≤ partition ∧ partition < kDefaultPartitionCount

instance (partition : Int) : Decidable (InRange partition) := inferInstanceAs (Decidable (_ ∧ _))

structure PayloadText (payload : Bytes) : Prop where
  nonempty : payload ≠ []
  oneLine : newline ∉ payload

def isBlank (payload : Bytes) : Bool := payload.all fun byte => byte = space

/-! Payloads. -/

theorem getline_oneLine (stream : Bytes) : newline ∉ getline stream := by
  intro member
  simpa [getline] using List.mem_takeWhile_imp member

theorem stripPayload_sublist (line : Bytes) : (stripPayload line).Sublist line := by
  unfold stripPayload
  split
  · exact List.Sublist.refl line
  · exact List.dropWhile_sublist _

theorem stripPayload_getline_length (stream : Bytes) :
    (stripPayload (getline stream)).length ≤ stream.length := by
  calc (stripPayload (getline stream)).length
      ≤ (getline stream).length := (stripPayload_sublist _).length_le
    _ ≤ stream.length := (List.takeWhile_sublist _).length_le

theorem stripPayload_payloadText {stream : Bytes} (nonempty : stripPayload (getline stream) ≠ []) :
    PayloadText (stripPayload (getline stream)) :=
  ⟨nonempty, fun member =>
    getline_oneLine stream ((stripPayload_sublist _).subset member)⟩

theorem stripPayload_head (line : Bytes) (solid : isBlank (stripPayload line) = false) :
    (stripPayload line).head? ≠ some space := by
  intro head
  unfold stripPayload at solid head
  split at solid
  · rename_i blank
    simp [isBlank, blank] at solid
  · rename_i notBlank
    rw [if_neg notBlank] at head
    have first := List.head?_dropWhile_not (fun byte => decide (byte = space)) line
    simp [head] at first

theorem stripPayload_sent {payload : Bytes} (text : PayloadText payload)
    (head : payload.head? ≠ some space) :
    stripPayload (getline (space :: payload)) = payload := by
  have line : getline (space :: payload) = space :: payload := by
    apply List.takeWhile_eq_self_iff.mpr
    intro byte member
    rcases List.mem_cons.mp member with rfl | member
    · decide
    · simpa using fun same : byte = newline => text.oneLine (same ▸ member)
  cases payload with
  | nil => exact absurd rfl text.nonempty
  | cons byte rest =>
      have different : byte ≠ space := by
        rintro rfl
        exact head rfl
      rw [line]
      simp [stripPayload, different]

/-! Numbers. -/

theorem parsePartition_inRange {text : Bytes} {partition : Int}
    (parsed : parsePartition text = some partition) : InRange partition := by
  unfold parsePartition at parsed
  split at parsed
  · simp at parsed
  · split at parsed
    · simp at parsed
    · rename_i accepted
      simp only [Option.some.injEq] at parsed
      subst parsed
      simp only [not_or, not_lt] at accepted
      exact ⟨accepted.2.1, by simp only [kDefaultPartitionCount]; omega⟩

theorem parseNonNegativeInt_range {text : Bytes} {value : Int}
    (parsed : parseNonNegativeInt text = some value) : 0 ≤ value ∧ value < 2 ^ 31 := by
  unfold parseNonNegativeInt at parsed
  split at parsed
  · simp at parsed
  · rename_i scanned
    split at parsed
    · simp at parsed
    · rename_i accepted
      simp only [Option.some.injEq] at parsed
      subst parsed
      simp only [not_or, not_lt] at accepted
      exact ⟨accepted.2, scanSigned_lt scanned⟩

theorem parseOffset_lt {text : Bytes} {offset : Nat} (parsed : parseOffset text = some offset) :
    offset < 2 ^ 63 := by
  unfold parseOffset at parsed
  split at parsed
  · simp at parsed
  · rename_i value position scanned
    split at parsed
    · simp at parsed
    · rename_i accepted
      simp only [Option.some.injEq] at parsed
      have bound : value < 2 ^ 63 := scanSigned_lt scanned
      omega

theorem decimalInt_natCast (number : Nat) : decimalInt number = decimal number := by
  simp [decimalInt]

theorem decimalInt_word {partition : Int} (nonneg : 0 ≤ partition) : Word (decimalInt partition) := by
  obtain ⟨number, rfl⟩ := Int.eq_ofNat_of_zero_le nonneg
  rw [decimalInt_natCast]
  exact decimal_word number

theorem parsePartition_decimalInt {partition : Int} (range : InRange partition) :
    parsePartition (decimalInt partition) = some partition := by
  obtain ⟨number, rfl⟩ := Int.eq_ofNat_of_zero_le range.1
  have upper := range.2
  simp only [kDefaultPartitionCount] at upper
  rw [decimalInt_natCast, parsePartition, stoi_decimal (by omega)]
  simp only [ne_eq, not_true_eq_false, false_or]
  exact if_neg (by omega)

theorem parseNonNegativeInt_decimalInt {number : Nat} (bound : number < 2 ^ 31) :
    parseNonNegativeInt (decimalInt number) = some (number : Int) := by
  rw [decimalInt_natCast, parseNonNegativeInt, stoi_decimal bound]
  simp

theorem parseOffset_decimal {number : Nat} (bound : number < 2 ^ 63) :
    parseOffset (decimal number) = some number := by
  rw [parseOffset, stoll_decimal bound]
  simp

theorem parseOffset_decimal_large {number : Nat} (large : 2 ^ 63 ≤ number) :
    parseOffset (decimal number) = none := by
  rw [parseOffset, stoll_decimal_large large]

/-! Words. -/

theorem extractTwo_steps {stream first second rest : Bytes}
    (found : extractTwo stream = some (first, second, rest)) :
    ∃ middle, extract stream = some (first, middle) ∧ extract middle = some (second, rest) := by
  unfold extractTwo at found
  split at found
  · simp at found
  · rename_i head middle extracted
    split at found
    · simp at found
    · rename_i again
      simp only [Option.some.injEq, Prod.mk.injEq] at found
      obtain ⟨rfl, rfl, rfl⟩ := found
      exact ⟨middle, extracted, again⟩

theorem extractThree_steps {stream first second third rest : Bytes}
    (found : extractThree stream = some (first, second, third, rest)) :
    ∃ middle, extractTwo stream = some (first, second, middle) ∧
      extract middle = some (third, rest) := by
  unfold extractThree at found
  split at found
  · simp at found
  · rename_i head next middle extracted
    split at found
    · simp at found
    · rename_i again
      simp only [Option.some.injEq, Prod.mk.injEq] at found
      obtain ⟨rfl, rfl, rfl, rfl⟩ := found
      exact ⟨middle, extracted, again⟩

theorem extractTwo_spec {stream first second rest : Bytes}
    (found : extractTwo stream = some (first, second, rest)) :
    Word first ∧ Word second ∧ rest.length ≤ stream.length := by
  obtain ⟨middle, extracted, again⟩ := extractTwo_steps found
  obtain ⟨firstWord, _, _, _, firstSplit⟩ := extract_spec extracted
  obtain ⟨secondWord, _, _, _, secondSplit⟩ := extract_spec again
  refine ⟨firstWord, secondWord, ?_⟩
  rw [firstSplit, secondSplit]
  simp only [List.length_append]
  omega

theorem extractThree_spec {stream first second third rest : Bytes}
    (found : extractThree stream = some (first, second, third, rest)) :
    Word first ∧ Word second ∧ Word third ∧ rest.length ≤ stream.length := by
  obtain ⟨middle, extracted, again⟩ := extractThree_steps found
  obtain ⟨firstWord, secondWord, shorter⟩ := extractTwo_spec extracted
  obtain ⟨thirdWord, _, _, _, thirdSplit⟩ := extract_spec again
  refine ⟨firstWord, secondWord, thirdWord, le_trans ?_ shorter⟩
  rw [thirdSplit]
  simp only [List.length_append]
  omega

/-! What each parser accepts. -/

theorem parseProduce_accepted {stream : Bytes} (accepted : (parseProduce stream).type ≠ .invalid) :
    ∃ topic partitionText rest partition,
      extractTwo stream = some (topic, partitionText, rest) ∧ stripPayload (getline rest) ≠ [] ∧
      parsePartition partitionText = some partition ∧
      parseProduce stream =
        { type := .produce, topic, partition, payload := stripPayload (getline rest) } := by
  unfold parseProduce at accepted ⊢
  split at accepted
  · exact absurd rfl accepted
  · rename_i topic partitionText rest extracted
    dsimp only at accepted ⊢
    split at accepted
    · exact absurd rfl accepted
    · rename_i filled
      rw [if_neg filled]
      split at accepted
      · exact absurd rfl accepted
      · rename_i partition read
        exact ⟨topic, partitionText, rest, partition, extracted, (not_or.mp filled).2, read, rfl⟩

theorem parseReplicate_accepted {stream : Bytes}
    (accepted : (parseReplicate stream).type ≠ .invalid) :
    ∃ topic partitionText offsetText rest partition offset,
      extractThree stream = some (topic, partitionText, offsetText, rest) ∧
      stripPayload (getline rest) ≠ [] ∧ parseNonNegativeInt partitionText = some partition ∧
      parseOffset offsetText = some offset ∧
      parseReplicate stream =
        { type := .replicate, topic, partition, offset, payload := stripPayload (getline rest) } := by
  unfold parseReplicate at accepted ⊢
  split at accepted
  · exact absurd rfl accepted
  · rename_i topic partitionText offsetText rest extracted
    dsimp only at accepted ⊢
    split at accepted
    · exact absurd rfl accepted
    · rename_i filled
      rw [if_neg filled]
      split at accepted
      · exact absurd rfl accepted
      · rename_i partition read
        split at accepted
        · exact absurd rfl accepted
        · rename_i offset readOffset
          exact ⟨topic, partitionText, offsetText, rest, partition, offset, extracted,
            (not_or.mp filled).2, read, readOffset, rfl⟩

theorem parseFetch_accepted {stream : Bytes} (accepted : (parseFetch stream).type ≠ .invalid) :
    ∃ topic partitionText offsetText rest partition offset,
      extractThree stream = some (topic, partitionText, offsetText, rest) ∧
      ¬hasExtraTokens rest = true ∧ parsePartition partitionText = some partition ∧
      parseOffset offsetText = some offset ∧
      parseFetch stream = { type := .fetch, topic, partition, offset } := by
  unfold parseFetch at accepted ⊢
  split at accepted
  · exact absurd rfl accepted
  · rename_i topic partitionText offsetText rest extracted
    split at accepted
    · exact absurd rfl accepted
    · rename_i complete
      rw [if_neg complete]
      split at accepted
      · exact absurd rfl accepted
      · rename_i partition read
        split at accepted
        · exact absurd rfl accepted
        · rename_i offset readOffset
          exact ⟨topic, partitionText, offsetText, rest, partition, offset, extracted, complete,
            read, readOffset, rfl⟩

theorem parseJoin_accepted {stream : Bytes} (accepted : (parseJoin stream).type ≠ .invalid) :
    ∃ groupId consumerId topic rest,
      extractThree stream = some (groupId, consumerId, topic, rest) ∧
      ¬hasExtraTokens rest = true ∧
      parseJoin stream = { type := .join, groupId, consumerId, topic } := by
  unfold parseJoin at accepted ⊢
  split at accepted
  · exact absurd rfl accepted
  · rename_i groupId consumerId topic rest extracted
    split at accepted
    · exact absurd rfl accepted
    · rename_i complete
      rw [if_neg complete]
      exact ⟨groupId, consumerId, topic, rest, extracted, complete, rfl⟩

theorem parseMember_accepted {type : RequestType} {stream : Bytes}
    (accepted : (parseMember type stream).type ≠ .invalid) :
    ∃ groupId consumerId rest, extractTwo stream = some (groupId, consumerId, rest) ∧
      ¬hasExtraTokens rest = true ∧
      parseMember type stream = { type, groupId, consumerId } := by
  unfold parseMember at accepted ⊢
  split at accepted
  · exact absurd rfl accepted
  · rename_i groupId consumerId rest extracted
    split at accepted
    · exact absurd rfl accepted
    · rename_i complete
      rw [if_neg complete]
      exact ⟨groupId, consumerId, rest, extracted, complete, rfl⟩

theorem parseCommit_accepted {stream : Bytes} (accepted : (parseCommit stream).type ≠ .invalid) :
    ∃ groupId consumerId topic middle partitionText offsetText rest partition offset,
      extractThree stream = some (groupId, consumerId, topic, middle) ∧
      extractTwo middle = some (partitionText, offsetText, rest) ∧ ¬hasExtraTokens rest = true ∧
      parsePartition partitionText = some partition ∧ parseOffset offsetText = some offset ∧
      parseCommit stream =
        { type := .commit, groupId, consumerId, topic, partition, offset } := by
  unfold parseCommit at accepted ⊢
  split at accepted
  · exact absurd rfl accepted
  · rename_i groupId consumerId topic middle extracted
    split at accepted
    · exact absurd rfl accepted
    · rename_i partitionText offsetText rest again
      split at accepted
      · exact absurd rfl accepted
      · rename_i complete
        simp only [complete, Bool.false_eq_true, if_false] at accepted ⊢
        split at accepted
        · exact absurd rfl accepted
        · rename_i partition read
          split at accepted
          · exact absurd rfl accepted
          · rename_i offset readOffset
            exact ⟨groupId, consumerId, topic, middle, partitionText, offsetText, rest, partition,
              offset, extracted, again, by simp [complete], read, readOffset, rfl⟩

/-! Accepted requests. -/

def parserOf : RequestType → Bytes → Request
  | .produce => parseProduce
  | .fetch => parseFetch
  | .join => parseJoin
  | .leave => parseMember .leave
  | .groupPoll => parseMember .groupPoll
  | .commit => parseCommit
  | .replicate => parseReplicate
  | .replicationProgress => parseReplicationProgress
  | .ping => parseBare .ping
  | .metrics => parseBare .metrics
  | .invalid => fun _ => {}

theorem parserOf_type (type : RequestType) (stream : Bytes) :
    (parserOf type stream).type = type ∨ (parserOf type stream).type = .invalid := by
  cases type
  case invalid => simp [parserOf]
  all_goals
    simp only [parserOf, parseProduce, parseFetch, parseJoin, parseMember, parseCommit,
      parseReplicate, parseReplicationProgress, parseBare]
    repeat' split
    all_goals simp

theorem parseRequest_accepted {raw : Bytes} (accepted : (parseRequest raw).type ≠ .invalid) :
    ∃ stream, stream.length ≤ raw.length ∧
      parseRequest raw = parserOf (parseRequest raw).type stream := by
  have read (type : RequestType) {stream : Bytes} (shorter : stream.length ≤ raw.length)
      (parsed : parseRequest raw = parserOf type stream) : ∃ stream, stream.length ≤ raw.length ∧
      parseRequest raw = parserOf (parseRequest raw).type stream := by
    have typed : (parseRequest raw).type = type := by
      rw [parsed] at accepted ⊢
      exact (parserOf_type type stream).resolve_right accepted
    exact ⟨stream, shorter, by rw [typed, parsed]⟩
  cases extracted : extract raw with
  | none => exact absurd (by simp [parseRequest, extracted]) accepted
  | some pair =>
      obtain ⟨command, stream⟩ := pair
      obtain ⟨_, _, _, _, split⟩ := extract_spec extracted
      have shorter : stream.length ≤ raw.length := by
        rw [split]
        simp only [List.length_append]
        omega
      have unfolded : parseRequest raw = parseRequest raw := rfl
      conv at unfolded => rhs; simp only [parseRequest, extracted]
      by_cases ping : command = ascii "PING"
      · rw [if_pos ping] at unfolded
        exact read .ping shorter unfolded
      rw [if_neg ping] at unfolded
      by_cases metrics : command = ascii "METRICS"
      · rw [if_pos metrics] at unfolded
        exact read .metrics shorter unfolded
      rw [if_neg metrics] at unfolded
      by_cases produce : command = ascii "PRODUCE"
      · rw [if_pos produce] at unfolded
        exact read .produce shorter unfolded
      rw [if_neg produce] at unfolded
      by_cases fetch : command = ascii "FETCH"
      · rw [if_pos fetch] at unfolded
        exact read .fetch shorter unfolded
      rw [if_neg fetch] at unfolded
      by_cases replicate : command = ascii "REPLICATE"
      · rw [if_pos replicate] at unfolded
        exact read .replicate shorter unfolded
      rw [if_neg replicate] at unfolded
      by_cases replicationProgress : command = ascii "REPLICATION_PROGRESS"
      · rw [if_pos replicationProgress] at unfolded
        exact read .replicationProgress shorter unfolded
      rw [if_neg replicationProgress] at unfolded
      by_cases join : command = ascii "JOIN"
      · rw [if_pos join] at unfolded
        exact read .join shorter unfolded
      rw [if_neg join] at unfolded
      by_cases leave : command = ascii "LEAVE"
      · rw [if_pos leave] at unfolded
        exact read .leave shorter unfolded
      rw [if_neg leave] at unfolded
      by_cases groupPoll : command = ascii "GROUP_POLL"
      · rw [if_pos groupPoll] at unfolded
        exact read .groupPoll shorter unfolded
      rw [if_neg groupPoll] at unfolded
      by_cases commit : command = ascii "COMMIT"
      · rw [if_pos commit] at unfolded
        exact read .commit shorter unfolded
      rw [if_neg commit] at unfolded
      rw [unfolded] at accepted
      exact absurd rfl accepted

theorem parseRequest_parsed {raw : Bytes} {type : RequestType}
    (typed : (parseRequest raw).type = type) (valid : type ≠ .invalid) :
    ∃ stream, stream.length ≤ raw.length ∧ parseRequest raw = parserOf type stream ∧
      (parserOf type stream).type ≠ .invalid := by
  subst typed
  obtain ⟨stream, shorter, parsed⟩ := parseRequest_accepted valid
  exact ⟨stream, shorter, parsed, parsed ▸ valid⟩

theorem parseRequest_produce {raw : Bytes} (typed : (parseRequest raw).type = .produce) :
    Word (parseRequest raw).topic ∧ InRange (parseRequest raw).partition ∧
      PayloadText (parseRequest raw).payload ∧
      (isBlank (parseRequest raw).payload = false →
        (parseRequest raw).payload.head? ≠ some space) ∧
      (parseRequest raw).payload.length ≤ raw.length := by
  obtain ⟨stream, shorter, isParsed, accepted⟩ := parseRequest_parsed typed (by simp)
  obtain ⟨topic, partitionText, rest, partition, extracted, filled, read, parsed⟩ :=
    parseProduce_accepted accepted
  obtain ⟨topicWord, _, restShorter⟩ := extractTwo_spec extracted
  rw [isParsed, parserOf, parsed]
  refine ⟨topicWord, parsePartition_inRange read, stripPayload_payloadText filled,
    stripPayload_head _, ?_⟩
  exact (stripPayload_getline_length rest).trans (restShorter.trans shorter)

theorem parseRequest_replicate {raw : Bytes} (typed : (parseRequest raw).type = .replicate) :
    Word (parseRequest raw).topic ∧ 0 ≤ (parseRequest raw).partition ∧
      PayloadText (parseRequest raw).payload ∧
      (parseRequest raw).payload.length ≤ raw.length := by
  obtain ⟨stream, shorter, isParsed, accepted⟩ := parseRequest_parsed typed (by simp)
  obtain ⟨topic, partitionText, offsetText, rest, partition, offset, extracted, filled, read, _,
    parsed⟩ := parseReplicate_accepted accepted
  obtain ⟨topicWord, _, _, restShorter⟩ := extractThree_spec extracted
  rw [isParsed, parserOf, parsed]
  refine ⟨topicWord, (parseNonNegativeInt_range read).1, stripPayload_payloadText filled, ?_⟩
  exact (stripPayload_getline_length rest).trans (restShorter.trans shorter)

theorem parseRequest_join {raw : Bytes} (typed : (parseRequest raw).type = .join) :
    Word (parseRequest raw).topic := by
  obtain ⟨stream, _, isParsed, accepted⟩ := parseRequest_parsed typed (by simp)
  obtain ⟨groupId, consumerId, topic, rest, extracted, _, parsed⟩ := parseJoin_accepted accepted
  rw [isParsed, parserOf, parsed]
  exact (extractThree_spec extracted).2.2.1

/-! Requests by their words. -/

def commandText : RequestType → Bytes
  | .produce => ascii "PRODUCE"
  | .fetch => ascii "FETCH"
  | .join => ascii "JOIN"
  | .leave => ascii "LEAVE"
  | .groupPoll => ascii "GROUP_POLL"
  | .commit => ascii "COMMIT"
  | .replicate => ascii "REPLICATE"
  | .replicationProgress => ascii "REPLICATION_PROGRESS"
  | .ping => ascii "PING"
  | .metrics => ascii "METRICS"
  | .invalid => ascii "INVALID"

theorem parseRequest_commandText (type : RequestType) {stream : Bytes} (gap : AtGap stream) :
    parseRequest (commandText type ++ stream) = parserOf type stream := by
  have word : Word (commandText type) := by
    cases type <;> decide +kernel
  rw [parseRequest, extract_word word gap]
  cases type <;> rfl

theorem parseRequest_command (type : RequestType) (rest : Bytes) :
    parseRequest (commandText type ++ space :: rest) = parserOf type (space :: rest) :=
  parseRequest_commandText type (by simp)

theorem hasExtraTokens_false {stream : Bytes} (none : ¬hasExtraTokens stream = true) :
    fields isSpace stream = [] := by
  rw [fields_eq_extract]
  cases found : extract stream with
  | none => rfl
  | some pair => simp [hasExtraTokens, found] at none

theorem extractTwo_fields {stream first second rest : Bytes}
    (found : extractTwo stream = some (first, second, rest)) :
    fields isSpace stream = first :: second :: fields isSpace rest := by
  obtain ⟨middle, extracted, again⟩ := extractTwo_steps found
  rw [fields_eq_extract, extracted]
  simp only [List.cons.injEq, true_and]
  rw [fields_eq_extract, again]

theorem extractThree_fields {stream first second third rest : Bytes}
    (found : extractThree stream = some (first, second, third, rest)) :
    fields isSpace stream = first :: second :: third :: fields isSpace rest := by
  obtain ⟨middle, extracted, again⟩ := extractThree_steps found
  rw [extractTwo_fields extracted, fields_eq_extract middle, again]

theorem parseJoin_fields {stream : Bytes} (accepted : (parseJoin stream).type ≠ .invalid) :
    fields isSpace stream =
      [(parseJoin stream).groupId, (parseJoin stream).consumerId, (parseJoin stream).topic] := by
  obtain ⟨groupId, consumerId, topic, rest, extracted, complete, parsed⟩ :=
    parseJoin_accepted accepted
  rw [parsed, extractThree_fields extracted, hasExtraTokens_false complete]

theorem parseMember_fields {type : RequestType} {stream : Bytes}
    (accepted : (parseMember type stream).type ≠ .invalid) :
    fields isSpace stream =
      [(parseMember type stream).groupId, (parseMember type stream).consumerId] := by
  obtain ⟨groupId, consumerId, rest, extracted, complete, parsed⟩ := parseMember_accepted accepted
  rw [parsed, extractTwo_fields extracted, hasExtraTokens_false complete]

theorem parseFetch_fields {stream : Bytes} (accepted : (parseFetch stream).type ≠ .invalid) :
    ∃ partitionText offsetText,
      fields isSpace stream = [(parseFetch stream).topic, partitionText, offsetText] ∧
      parsePartition partitionText = some (parseFetch stream).partition ∧
      parseOffset offsetText = some (parseFetch stream).offset := by
  obtain ⟨topic, partitionText, offsetText, rest, partition, offset, extracted, complete,
    readPartition, readOffset, parsed⟩ := parseFetch_accepted accepted
  rw [parsed]
  refine ⟨partitionText, offsetText, ?_, readPartition, readOffset⟩
  rw [extractThree_fields extracted, hasExtraTokens_false complete]

theorem parseCommit_fields {stream : Bytes} (accepted : (parseCommit stream).type ≠ .invalid) :
    ∃ partitionText offsetText,
      fields isSpace stream = [(parseCommit stream).groupId, (parseCommit stream).consumerId,
        (parseCommit stream).topic, partitionText, offsetText] ∧
      parsePartition partitionText = some (parseCommit stream).partition ∧
      parseOffset offsetText = some (parseCommit stream).offset := by
  obtain ⟨groupId, consumerId, topic, middle, partitionText, offsetText, rest, partition, offset,
    extracted, again, complete, readPartition, readOffset, parsed⟩ := parseCommit_accepted accepted
  rw [parsed]
  refine ⟨partitionText, offsetText, ?_, readPartition, readOffset⟩
  rw [extractThree_fields extracted, extractTwo_fields again, hasExtraTokens_false complete]

theorem parsed_numbers {partition parsedPartition : Int} {offset parsedOffset : Nat}
    (range : InRange partition)
    (partitionRead : parsePartition (decimalInt partition) = some parsedPartition)
    (offsetRead : parseOffset (decimal offset) = some parsedOffset) :
    parsedPartition = partition ∧ parsedOffset = offset := by
  rw [parsePartition_decimalInt range, Option.some.injEq] at partitionRead
  refine ⟨partitionRead.symm, ?_⟩
  by_cases small : offset < 2 ^ 63
  · rw [parseOffset_decimal small, Option.some.injEq] at offsetRead
    exact offsetRead.symm
  · rw [parseOffset_decimal_large (by omega)] at offsetRead
    simp at offsetRead

end KafkaBroker
