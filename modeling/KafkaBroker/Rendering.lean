import KafkaBroker.BrokerCore
import KafkaBroker.Protocol

/-!
The text of a request. `parse_request` and the canonical rendering are inverse to each
other, up to payloads of blanks; the leader's messages to its follower are renderings.
-/

namespace KafkaBroker

open ByteText

/-! The fields of each command. -/

def RequestType.usesGroup : RequestType → Bool
  | .join | .leave | .groupPoll | .commit => true
  | _ => false

def RequestType.usesTopic : RequestType → Bool
  | .produce | .fetch | .join | .commit | .replicate | .replicationProgress => true
  | _ => false

def RequestType.usesPartition : RequestType → Bool
  | .produce | .fetch | .commit | .replicate | .replicationProgress => true
  | _ => false

def RequestType.usesOffset : RequestType → Bool
  | .fetch | .commit | .replicate => true
  | _ => false

def RequestType.usesPayload : RequestType → Bool
  | .produce | .replicate => true
  | _ => false

def PartitionOf : RequestType → Int → Prop
  | .replicate, partition => 0 ≤ partition ∧ partition < 2 ^ 31
  | .replicationProgress, partition => 0 ≤ partition ∧ partition < 2 ^ 31
  | _, partition => InRange partition

/-- A request with the fields its command uses, and defaults in the others. -/
structure WellFormed (req : Request) : Prop where
  accepted : req.type ≠ .invalid
  groupId : if req.type.usesGroup then Word req.groupId else req.groupId = []
  consumerId : if req.type.usesGroup then Word req.consumerId else req.consumerId = []
  topic : if req.type.usesTopic then Word req.topic else req.topic = []
  partition : if req.type.usesPartition then PartitionOf req.type req.partition
    else req.partition = 0
  offset : if req.type.usesOffset then req.offset < 2 ^ 63 else req.offset = 0
  payload : if req.type.usesPayload then PayloadText req.payload else req.payload = []

/-- The arguments of a request, in the order of the protocol syntax. -/
def Request.arguments (req : Request) : List Bytes :=
  match req.type with
  | .produce => [req.topic, decimalInt req.partition, req.payload]
  | .fetch => [req.topic, decimalInt req.partition, decimal req.offset]
  | .join => [req.groupId, req.consumerId, req.topic]
  | .leave => [req.groupId, req.consumerId]
  | .groupPoll => [req.groupId, req.consumerId]
  | .commit => [req.groupId, req.consumerId, req.topic, decimalInt req.partition,
      decimal req.offset]
  | .replicate => [req.topic, decimalInt req.partition, decimal req.offset, req.payload]
  | .replicationProgress => [req.topic, decimalInt req.partition]
  | .ping => []
  | .metrics => []
  | .invalid => []

def render (req : Request) : Bytes :=
  List.intercalate [space] (commandText req.type :: req.arguments)

theorem parse_render_arguments (req : Request) :
    parseRequest (render req) = parserOf req.type (spaced req.arguments) := by
  rw [render, intercalate_space]
  exact parseRequest_commandText req.type (atGap_spaced _)

/-! Words with blanks in front are read one by one. -/

theorem extractTwo_spaced {first second : Bytes} (firstWord : Word first)
    (secondWord : Word second) (rest : List Bytes) :
    extractTwo (spaced (first :: second :: rest)) = some (first, second, spaced rest) := by
  simp only [extractTwo, extract_spaced firstWord, extract_spaced secondWord]

theorem extractThree_spaced {first second third : Bytes} (firstWord : Word first)
    (secondWord : Word second) (thirdWord : Word third) (rest : List Bytes) :
    extractThree (spaced (first :: second :: third :: rest)) =
      some (first, second, third, spaced rest) := by
  simp only [extractThree, extractTwo_spaced firstWord secondWord, extract_spaced thirdWord]

@[simp] theorem hasExtraTokens_spaced_nil : hasExtraTokens (spaced []) = false := by
  rfl

theorem parseNonNegativeInt_rendered {partition : Int} (nonneg : 0 ≤ partition)
    (bound : partition < 2 ^ 31) : parseNonNegativeInt (decimalInt partition) = some partition := by
  obtain ⟨number, rfl⟩ := Int.eq_ofNat_of_zero_le nonneg
  exact parseNonNegativeInt_decimalInt (by omega)

theorem stripPayload_spaced {payload : Bytes} (text : PayloadText payload)
    (head : payload.head? ≠ some space) : stripPayload (getline (spaced [payload])) = payload := by
  rw [spaced_cons]
  simpa [spaced] using stripPayload_sent text head

/-! Parsing what was rendered. -/

theorem parse_render {req : Request} (formed : WellFormed req)
    (head : req.payload.head? ≠ some space) : parseRequest (render req) = req := by
  rw [parse_render_arguments]
  obtain ⟨type, groupId, consumerId, topic, partition, offset, payload⟩ := req
  obtain ⟨accepted, group, consumer, topicField, partitionField, offsetField, payloadField⟩ := formed
  cases type <;>
    simp only [RequestType.usesGroup, RequestType.usesTopic, RequestType.usesPartition,
      RequestType.usesOffset, RequestType.usesPayload, PartitionOf, Bool.false_eq_true, if_true,
      if_false] at group consumer topicField partitionField offsetField payloadField
  case invalid => exact absurd rfl accepted
  case produce =>
      subst group consumer offsetField
      have filled : ¬(topic = [] ∨ payload = []) := not_or.mpr ⟨topicField.1, payloadField.nonempty⟩
      simp only [parserOf, Request.arguments, parseProduce,
        extractTwo_spaced topicField (decimalInt_word partitionField.1),
        stripPayload_spaced payloadField head, filled, if_false,
        parsePartition_decimalInt partitionField]
  case fetch =>
      subst group consumer payloadField
      simp only [parserOf, Request.arguments, parseFetch,
        extractThree_spaced topicField (decimalInt_word partitionField.1) (decimal_word offset),
        hasExtraTokens_spaced_nil, Bool.false_eq_true, if_false,
        parsePartition_decimalInt partitionField, parseOffset_decimal offsetField]
  case join =>
      subst partitionField offsetField payloadField
      simp only [parserOf, Request.arguments, parseJoin,
        extractThree_spaced group consumer topicField, hasExtraTokens_spaced_nil,
        Bool.false_eq_true, if_false]
  case leave =>
      subst topicField partitionField offsetField payloadField
      simp only [parserOf, Request.arguments, parseMember, extractTwo_spaced group consumer,
        hasExtraTokens_spaced_nil, Bool.false_eq_true, if_false]
  case groupPoll =>
      subst topicField partitionField offsetField payloadField
      simp only [parserOf, Request.arguments, parseMember, extractTwo_spaced group consumer,
        hasExtraTokens_spaced_nil, Bool.false_eq_true, if_false]
  case commit =>
      subst payloadField
      simp only [parserOf, Request.arguments, parseCommit,
        extractThree_spaced group consumer topicField,
        extractTwo_spaced (decimalInt_word partitionField.1) (decimal_word offset),
        hasExtraTokens_spaced_nil, Bool.false_eq_true, if_false,
        parsePartition_decimalInt partitionField, parseOffset_decimal offsetField]
  case replicate =>
      subst group consumer
      have filled : ¬(topic = [] ∨ payload = []) := not_or.mpr ⟨topicField.1, payloadField.nonempty⟩
      simp only [parserOf, Request.arguments, parseReplicate,
        extractThree_spaced topicField (decimalInt_word partitionField.1) (decimal_word offset),
        stripPayload_spaced payloadField head, filled, if_false,
        parseNonNegativeInt_rendered partitionField.1 partitionField.2,
        parseOffset_decimal offsetField]
  case replicationProgress =>
      subst group consumer offsetField payloadField
      simp only [parserOf, Request.arguments, parseReplicationProgress,
        extractTwo_spaced topicField (decimalInt_word partitionField.1),
        hasExtraTokens_spaced_nil, Bool.false_eq_true, if_false,
        parseNonNegativeInt_rendered partitionField.1 partitionField.2]
  case ping =>
      subst group consumer topicField partitionField offsetField payloadField
      rfl
  case metrics =>
      subst group consumer topicField partitionField offsetField payloadField
      rfl

/-! What is parsed is well formed. -/

theorem parseProduce_wellFormed {stream : Bytes} (accepted : (parseProduce stream).type ≠ .invalid) :
    WellFormed (parseProduce stream) := by
  obtain ⟨topic, partitionText, rest, partition, extracted, filled, read, parsed⟩ :=
    parseProduce_accepted accepted
  rw [parsed]
  exact ⟨by simp, rfl, rfl, (extractTwo_spec extracted).1, parsePartition_inRange read, rfl,
    stripPayload_payloadText filled⟩

theorem parseFetch_wellFormed {stream : Bytes} (accepted : (parseFetch stream).type ≠ .invalid) :
    WellFormed (parseFetch stream) := by
  obtain ⟨topic, partitionText, offsetText, rest, partition, offset, extracted, _, read, readOffset,
    parsed⟩ := parseFetch_accepted accepted
  rw [parsed]
  exact ⟨by simp, rfl, rfl, (extractThree_spec extracted).1, parsePartition_inRange read,
    parseOffset_lt readOffset, rfl⟩

theorem parseReplicate_wellFormed {stream : Bytes}
    (accepted : (parseReplicate stream).type ≠ .invalid) : WellFormed (parseReplicate stream) := by
  obtain ⟨topic, partitionText, offsetText, rest, partition, offset, extracted, filled, read,
    readOffset, parsed⟩ := parseReplicate_accepted accepted
  rw [parsed]
  exact ⟨by simp, rfl, rfl, (extractThree_spec extracted).1, parseNonNegativeInt_range read,
    parseOffset_lt readOffset, stripPayload_payloadText filled⟩

theorem parseReplicationProgress_wellFormed {stream : Bytes}
    (accepted : (parseReplicationProgress stream).type ≠ .invalid) :
    WellFormed (parseReplicationProgress stream) := by
  unfold parseReplicationProgress at accepted ⊢
  split at accepted
  · exact absurd rfl accepted
  · rename_i extracted
    split at accepted
    · exact absurd rfl accepted
    · rename_i complete
      rw [if_neg complete]
      split at accepted
      · exact absurd rfl accepted
      · rename_i read
        exact ⟨by simp, rfl, rfl, (extractTwo_spec extracted).1, parseNonNegativeInt_range read,
          rfl, rfl⟩

theorem parseJoin_wellFormed {stream : Bytes} (accepted : (parseJoin stream).type ≠ .invalid) :
    WellFormed (parseJoin stream) := by
  obtain ⟨groupId, consumerId, topic, rest, extracted, _, parsed⟩ := parseJoin_accepted accepted
  obtain ⟨groupWord, consumerWord, topicWord, _⟩ := extractThree_spec extracted
  rw [parsed]
  exact ⟨by simp, groupWord, consumerWord, topicWord, rfl, rfl, rfl⟩

theorem parseCommit_wellFormed {stream : Bytes} (accepted : (parseCommit stream).type ≠ .invalid) :
    WellFormed (parseCommit stream) := by
  obtain ⟨groupId, consumerId, topic, middle, partitionText, offsetText, rest, partition, offset,
    extracted, _, _, read, readOffset, parsed⟩ := parseCommit_accepted accepted
  obtain ⟨groupWord, consumerWord, topicWord, _⟩ := extractThree_spec extracted
  rw [parsed]
  exact ⟨by simp, groupWord, consumerWord, topicWord, parsePartition_inRange read,
    parseOffset_lt readOffset, rfl⟩

theorem parseBare_eq {type : RequestType} {stream : Bytes}
    (accepted : (parseBare type stream).type ≠ .invalid) : parseBare type stream = { type } := by
  unfold parseBare at accepted ⊢
  split at accepted
  · exact absurd rfl accepted
  · rename_i complete
    rw [if_neg complete]

theorem parserOf_wellFormed {type : RequestType} {stream : Bytes}
    (accepted : (parserOf type stream).type ≠ .invalid) : WellFormed (parserOf type stream) := by
  cases type with
  | produce => exact parseProduce_wellFormed accepted
  | fetch => exact parseFetch_wellFormed accepted
  | join => exact parseJoin_wellFormed accepted
  | leave =>
      obtain ⟨groupId, consumerId, rest, extracted, _, parsed⟩ := parseMember_accepted accepted
      obtain ⟨groupWord, consumerWord, _⟩ := extractTwo_spec extracted
      rw [parserOf, parsed]
      exact ⟨by simp, groupWord, consumerWord, rfl, rfl, rfl, rfl⟩
  | groupPoll =>
      obtain ⟨groupId, consumerId, rest, extracted, _, parsed⟩ := parseMember_accepted accepted
      obtain ⟨groupWord, consumerWord, _⟩ := extractTwo_spec extracted
      rw [parserOf, parsed]
      exact ⟨by simp, groupWord, consumerWord, rfl, rfl, rfl, rfl⟩
  | commit => exact parseCommit_wellFormed accepted
  | replicate => exact parseReplicate_wellFormed accepted
  | replicationProgress => exact parseReplicationProgress_wellFormed accepted
  | ping =>
      rw [parserOf, parseBare_eq accepted]
      exact ⟨by simp, rfl, rfl, rfl, rfl, rfl, rfl⟩
  | metrics =>
      rw [parserOf, parseBare_eq accepted]
      exact ⟨by simp, rfl, rfl, rfl, rfl, rfl, rfl⟩
  | invalid => exact absurd rfl accepted

theorem parseRequest_wellFormed {raw : Bytes} (accepted : (parseRequest raw).type ≠ .invalid) :
    WellFormed (parseRequest raw) := by
  obtain ⟨stream, _, parsed⟩ := parseRequest_accepted accepted
  rw [parsed] at accepted ⊢
  exact parserOf_wellFormed accepted

theorem parserOf_payload (type : RequestType) (stream : Bytes) :
    (parserOf type stream).payload = [] ∨
      ∃ line, (parserOf type stream).payload = stripPayload line := by
  cases type
  case invalid => exact Or.inl rfl
  all_goals
    simp only [parserOf, parseProduce, parseFetch, parseJoin, parseMember, parseCommit,
      parseReplicate, parseReplicationProgress, parseBare]
    repeat' split
    all_goals first
      | exact Or.inl rfl
      | exact Or.inr ⟨_, rfl⟩

theorem parseRequest_head {raw : Bytes} (accepted : (parseRequest raw).type ≠ .invalid)
    (solid : isBlank (parseRequest raw).payload = false) :
    (parseRequest raw).payload.head? ≠ some space := by
  obtain ⟨stream, _, parsed⟩ := parseRequest_accepted accepted
  rw [parsed] at solid ⊢
  rcases parserOf_payload (parseRequest raw).type stream with none | ⟨line, stripped⟩
  · simp [none, isBlank] at solid
  · rw [stripped] at solid ⊢
    exact stripPayload_head line solid

/-- `parse_request` and `render` are inverse to each other. -/
theorem parse_render_inverse :
    (∀ req, WellFormed req → req.payload.head? ≠ some space → parseRequest (render req) = req) ∧
      ∀ raw, (parseRequest raw).type = .invalid ∨
        WellFormed (parseRequest raw) ∧
          (¬((parseRequest raw).type.usesPayload ∧ isBlank (parseRequest raw).payload) →
            parseRequest (render (parseRequest raw)) = parseRequest raw) := by
  refine ⟨fun req formed head => parse_render formed head, fun raw => ?_⟩
  by_cases accepted : (parseRequest raw).type = .invalid
  · exact Or.inl accepted
  · have formed := parseRequest_wellFormed accepted
    refine Or.inr ⟨formed, fun notBlank => parse_render formed ?_⟩
    by_cases carries : (parseRequest raw).type.usesPayload = true
    · apply parseRequest_head accepted
      simpa [carries] using notBlank
    · have none := formed.payload
      rw [if_neg carries] at none
      simp [none]

theorem parse_render_inverse_commit :
    parseRequest (render (parseRequest (ascii "COMMIT\tg  c t +1 007 "))) =
      { type := .commit, groupId := ascii "g", consumerId := ascii "c", topic := ascii "t",
        partition := 1, offset := 7 } := by
  rcases parse_render_inverse.2 (ascii "COMMIT\tg  c t +1 007 ") with invalid | ⟨_, inverse⟩
  · revert invalid
    decide +kernel
  · rw [inverse (by decide +kernel)]
    decide +kernel

/-! The leader's messages. -/

theorem replicateMessage_eq_render (topic : Bytes) (partition : Int) (offset : Nat)
    (payload : Bytes) : replicateMessage topic partition offset payload =
      render { type := .replicate, topic, partition, offset, payload } := by
  simp [replicateMessage, render, Request.arguments, commandText, ascii, space]

theorem progressMessage_eq_render (topic : Bytes) (partition : Int) :
    progressMessage topic partition = render { type := .replicationProgress, topic, partition } := by
  simp [progressMessage, render, Request.arguments, commandText, ascii, space]

theorem InRange.int {partition : Int} (range : InRange partition) :
    0 ≤ partition ∧ partition < 2 ^ 31 := by
  have upper := range.2
  simp only [kDefaultPartitionCount] at upper
  exact ⟨range.1, by omega⟩

theorem stripPayload_blank {payload : Bytes} (blank : isBlank payload = true) :
    stripPayload (getline (spaced [payload])) = space :: payload := by
  have all : ∀ byte ∈ payload, byte = space := by simpa [isBlank] using blank
  have line : getline (space :: payload) = space :: payload := by
    apply List.takeWhile_eq_self_iff.mpr
    intro byte member
    rcases List.mem_cons.mp member with rfl | member
    · decide
    · rw [all byte member]
      decide
  have whole : spaced [payload] = space :: payload := by simp [spaced]
  rw [whole, line, stripPayload, if_pos]
  simpa [isBlank] using blank

/-- A record arrives at the follower as the leader has it exactly if its payload is not all
blanks. -/
theorem replicateMessage_preserves_iff {raw : Bytes}
    (produces : (parseRequest raw).type = .produce) {offset : Nat} (small : offset < 2 ^ 63) :
    parseRequest (replicateMessage (parseRequest raw).topic (parseRequest raw).partition offset
        (parseRequest raw).payload) =
      { type := .replicate, topic := (parseRequest raw).topic,
        partition := (parseRequest raw).partition, offset, payload := (parseRequest raw).payload } ↔
      isBlank (parseRequest raw).payload = false := by
  have accepted : (parseRequest raw).type ≠ .invalid := by simp [produces]
  obtain ⟨word, range, text, head, _⟩ := parseRequest_produce produces
  rw [replicateMessage_eq_render]
  constructor
  · intro same
    by_contra solid
    rw [Bool.not_eq_false] at solid
    have payload := congrArg Request.payload same
    have filled : ¬((parseRequest raw).topic = [] ∨ space :: (parseRequest raw).payload = []) :=
      not_or.mpr ⟨word.1, by simp⟩
    rw [parse_render_arguments] at payload
    simp only [parserOf, Request.arguments, parseReplicate,
      extractThree_spaced word (decimalInt_word range.1) (decimal_word offset),
      stripPayload_blank solid, filled, if_false,
      parseNonNegativeInt_rendered range.int.1 range.int.2, parseOffset_decimal small] at payload
    simpa using congrArg List.length payload
  · intro solid
    exact parse_render ⟨by simp, rfl, rfl, word, range.int, small, text⟩ (head solid)

theorem replicateMessage_preserves_tab :
    parseRequest (replicateMessage (ascii "t") 0 5 (ascii "\ta b ")) =
      { type := .replicate, topic := ascii "t", partition := 0, offset := 5,
        payload := ascii "\ta b " } := by
  have produced : parseRequest (ascii "PRODUCE t 0 \ta b ") =
      { type := .produce, topic := ascii "t", payload := ascii "\ta b " } := by
    decide +kernel
  have typed : (parseRequest (ascii "PRODUCE t 0 \ta b ")).type = .produce := by rw [produced]
  have small : 5 < 2 ^ 63 := by decide
  have preserved := replicateMessage_preserves_iff typed small
  rw [produced] at preserved
  exact preserved.mpr (by decide)

theorem replicateMessage_blank :
    (parseRequest (ascii "PRODUCE t 0  ")).type = .produce ∧
      parseRequest (replicateMessage (parseRequest (ascii "PRODUCE t 0  ")).topic
          (parseRequest (ascii "PRODUCE t 0  ")).partition 0
          (parseRequest (ascii "PRODUCE t 0  ")).payload) ≠
        { type := .replicate, topic := (parseRequest (ascii "PRODUCE t 0  ")).topic,
          partition := (parseRequest (ascii "PRODUCE t 0  ")).partition, offset := 0,
          payload := (parseRequest (ascii "PRODUCE t 0  ")).payload } := by
  decide +kernel

/-! The size of a message. -/

theorem replicateMessage_length (topic : Bytes) (partition : Int) (offset : Nat) (payload : Bytes) :
    (replicateMessage topic partition offset payload).length =
      13 + topic.length + (decimalInt partition).length + (decimal offset).length +
        payload.length := by
  have command : (ascii "REPLICATE ").length = 10 := by decide
  simp only [replicateMessage, List.length_append, List.length_cons, command]
  omega

theorem decimalInt_length {partition : Int} (range : InRange partition) :
    (decimalInt partition).length = 1 := by
  obtain ⟨lower, upper⟩ := range
  have cases : partition = 0 ∨ partition = 1 ∨ partition = 2 := by
    simp only [kDefaultPartitionCount] at upper
    omega
  rcases cases with rfl | rfl | rfl <;> rfl

/-- The message for a record fits a frame exactly if its topic, its payload and the digits
of its offset leave room for the other fourteen bytes. -/
theorem replicateMessage_fits_iff {raw : Bytes} (produces : (parseRequest raw).type = .produce)
    (offset : Nat) :
    (replicateMessage (parseRequest raw).topic (parseRequest raw).partition offset
        (parseRequest raw).payload).length ≤ kMaxPayloadSize ↔
      (parseRequest raw).topic.length + (decimal offset).length +
        (parseRequest raw).payload.length + 14 ≤ kMaxPayloadSize := by
  obtain ⟨_, range, _⟩ := parseRequest_produce produces
  rw [replicateMessage_length, decimalInt_length range]
  omega

theorem replicateMessage_fits_short :
    (replicateMessage (ascii "t") 2 1234 (ascii "x")).length ≤ kMaxPayloadSize := by
  have produced : parseRequest (ascii "PRODUCE t 2 x") =
      { type := .produce, topic := ascii "t", partition := 2, payload := ascii "x" } := by
    decide +kernel
  have typed : (parseRequest (ascii "PRODUCE t 2 x")).type = .produce := by rw [produced]
  have fits := replicateMessage_fits_iff typed 1234
  rw [produced] at fits
  exact fits.mpr (by decide)

def sizedRequest (size : Nat) : Request :=
  { type := .produce, topic := ascii "t", payload := List.replicate size 120 }

theorem parse_sizedRequest {size : Nat} (positive : 0 < size) :
    parseRequest (render (sizedRequest size)) = sizedRequest size := by
  have text : PayloadText (sizedRequest size).payload := by
    constructor
    · rw [sizedRequest, ne_eq, List.replicate_eq_nil_iff]
      omega
    · intro member
      have same := List.eq_of_mem_replicate member
      revert same
      decide
  have word : Word (ascii "t") := by decide +kernel
  have range : InRange 0 := by simp [InRange, kDefaultPartitionCount]
  apply parse_render
  · exact ⟨by simp [sizedRequest], rfl, rfl, word, range, rfl, text⟩
  · intro first
    have member := List.mem_of_mem_head? first
    have same := List.eq_of_mem_replicate member
    revert same
    decide

theorem render_sizedRequest_length (size : Nat) :
    (render (sizedRequest size)).length = size + 12 := by
  have command : (commandText .produce).length = 7 := by decide
  have zero : (decimalInt 0).length = 1 := by decide
  simp only [render, intercalate_space, List.length_append, sizedRequest, Request.arguments, command,
    spaced, List.flatMap_cons, List.flatMap_nil, List.length_cons, List.length_nil, zero,
    List.length_replicate]
  have topic : (ascii "t").length = 1 := by decide
  omega

theorem replicateMessage_overflows :
    ∃ raw : Bytes, raw.length ≤ kMaxPayloadSize ∧ (parseRequest raw).type = .produce ∧
      ¬(replicateMessage (parseRequest raw).topic (parseRequest raw).partition 0
        (parseRequest raw).payload).length ≤ kMaxPayloadSize := by
  have positive : 0 < kMaxPayloadSize - 12 := by decide
  have zero : (decimalInt 0).length = 1 := by decide
  have digit : (decimal 0).length = 1 := by decide
  refine ⟨render (sizedRequest (kMaxPayloadSize - 12)), ?_, ?_, ?_⟩
  · rw [render_sizedRequest_length]
    omega
  · rw [parse_sizedRequest positive]
    rfl
  · rw [parse_sizedRequest positive, replicateMessage_length]
    simp only [sizedRequest, List.length_replicate, zero, digit]
    omega

end KafkaBroker
