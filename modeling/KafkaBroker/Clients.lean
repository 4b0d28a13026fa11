import KafkaBroker.ClientsCore
import KafkaBroker.Progress

/-!
The texts between the clients and the broker: what a consumer reads from the answers to its
`FETCH` and `GROUP_POLL`, and what the broker reads from the requests that a producer and a
consumer build.
-/

namespace KafkaBroker

open ByteText

/-! `FETCH` responses. -/

/-- The consumer takes the response for a list of messages, and for this one. -/
structure Decodes (response : Bytes) (messages : List Bytes) : Prop where
  noError : response ≠ ascii "ERROR"
  count : countMessages response = messages.length
  lines : getLines response = messages

theorem getLines_joinLines {lines : List Bytes} (text : ∀ line ∈ lines, PayloadText line) :
    getLines (joinLines lines) = lines := by
  by_cases empty : lines = []
  · subst empty
    rfl
  · unfold getLines
    rw [splitLines_joinLines empty fun line member => (text line member).oneLine]
    apply if_neg
    intro last
    exact (text [] (List.mem_of_getLast? last)).nonempty rfl

theorem joinLines_eq_error_iff {lines : List Bytes} (text : ∀ line ∈ lines, PayloadText line) :
    joinLines lines = ascii "ERROR" ↔ lines = [ascii "ERROR"] := by
  constructor
  · intro same
    have back := getLines_joinLines text
    rw [same] at back
    rw [← back]
    decide +kernel
  · rintro rfl
    rfl

theorem fetch_found {broker : Broker} {req : Request} {topic : Topic}
    (found : broker.topics.find req.topic = some topic)
    (present : topic.hasPartition req.partition = true) :
    (fetch broker req).1 = joinLines ((topic.messages req.partition).drop req.offset) := by
  simp only [fetch, found, present, Bool.not_true, Bool.false_eq_true, if_false]
  split
  · rename_i past
    rw [List.drop_eq_nil_of_le past]
    rfl
  · rfl

/-- A list of produced messages reaches the consumer as it is, unless it is the one message
`ERROR`. -/
theorem fetch_decodes_iff {σ : Type} (env : Environment σ) {world : World σ} {req : Request}
    (fetches : req.type = .fetch) {topic : Topic}
    (found : world.broker.topics.find req.topic = some topic)
    (present : topic.hasPartition req.partition = true)
    (produced : ∀ message ∈ topic.messages req.partition, ∃ raw,
      (parseRequest raw).type = .produce ∧ (parseRequest raw).payload = message) :
    ∃ response, (handleRequest env world req).1 = .returned response ∧
      (Decodes response ((topic.messages req.partition).drop req.offset) ↔
        (topic.messages req.partition).drop req.offset ≠ [ascii "ERROR"]) := by
  have text : ∀ message ∈ (topic.messages req.partition).drop req.offset, PayloadText message := by
    intro message member
    obtain ⟨raw, produces, rfl⟩ := produced message (List.mem_of_mem_drop member)
    exact (parseRequest_produce produces).2.2.1
  obtain ⟨_, _, returned, _⟩ := handleRequest_eq env world req
  refine ⟨joinLines ((topic.messages req.partition).drop req.offset),
    (returned _).mpr ⟨(fetch world.broker req).2, ?_⟩, ?_⟩
  · simp only [dispatch, fetches, ← fetch_found found present]
  · rw [ne_eq, ← joinLines_eq_error_iff text]
    refine ⟨Decodes.noError, fun noError => ⟨noError, countMessages_joinLines text,
      getLines_joinLines text⟩⟩

def storedTopic (messages : List Bytes) : Topic :=
  messages.foldl (fun topic message => topic.push 0 message) (Topic.create (ascii "t"))

def storedWorld (messages : List Bytes) : World Unit :=
  ⟨{ topics := (∅ : Table Bytes Topic).set (ascii "t") (storedTopic messages) }, ∅, ()⟩

def idleEnv : Environment Unit :=
  { link := fun peer _ => (peer, none), calls := ⟨none, [], [], [], none⟩ }

theorem fetch_decodes_two :
    ∃ response, (handleRequest idleEnv (storedWorld [ascii "a", ascii "ERROR", ascii "b"])
        (parseRequest (ascii "FETCH t 0 1"))).1 = .returned response ∧
      Decodes response [ascii "ERROR", ascii "b"] := by
  have produced : ∀ message ∈ [ascii "a", ascii "ERROR", ascii "b"], ∃ raw,
      (parseRequest raw).type = .produce ∧ (parseRequest raw).payload = message := by
    intro message member
    refine ⟨ascii "PRODUCE t 0 " ++ message, ?_⟩
    revert message
    decide +kernel
  obtain ⟨response, returned, decodes⟩ := fetch_decodes_iff idleEnv
    (by decide +kernel : (parseRequest (ascii "FETCH t 0 1")).type = .fetch)
    (by decide +kernel : (storedWorld [ascii "a", ascii "ERROR", ascii "b"]).broker.topics.find
      (parseRequest (ascii "FETCH t 0 1")).topic =
        some (storedTopic [ascii "a", ascii "ERROR", ascii "b"]))
    (by decide +kernel) produced
  exact ⟨response, returned, decodes.mpr (by decide +kernel)⟩

theorem fetch_error_message :
    (parseRequest (ascii "PRODUCE t 0 ERROR")).payload = ascii "ERROR" ∧
      (handleRequest idleEnv (storedWorld [ascii "ERROR"])
        (parseRequest (ascii "FETCH t 0 0"))).1 = .returned (ascii "ERROR") ∧
      ¬Decodes (ascii "ERROR") [ascii "ERROR"] := by
  refine ⟨by decide +kernel, by decide +kernel, fun decodes => decodes.noError rfl⟩

/-! The producer's request. -/

theorem producerRequest_some {topic partitionText message : Bytes} {partition : Int}
    {request : Bytes}
    (built : producerRequest topic partitionText message = some (partition, request)) :
    topic ≠ [] ∧ InRange partition ∧ message ≠ [] ∧
      request = commandText .produce ++
        space :: (topic ++ space :: (decimalInt partition ++ space :: message)) := by
  unfold producerRequest at built
  split at built
  · simp at built
  rename_i named
  split at built
  · simp at built
  rename_i checked
  split at built
  · simp at built
  rename_i filled
  simp only [Option.some.injEq, Prod.mk.injEq] at built
  obtain ⟨rfl, rfl⟩ := built
  refine ⟨named, ?_, filled, ?_⟩
  · unfold producerPartition at checked
    split at checked
    · simp at checked
    · simp only [Option.ite_none_left_eq_some, Option.some.injEq, not_or, not_lt] at checked
      obtain ⟨⟨_, lower, upper⟩, rfl⟩ := checked
      exact ⟨lower, by simp only [kDefaultPartitionCount]; omega⟩
  · simp [commandText, ascii, space]

/-- The broker refuses the request, or stores the producer's message. -/
def Intact (topic : Bytes) (partition : Int) (message request : Bytes) : Prop :=
  (parseRequest request).type = .invalid ∨
    parseRequest request = { type := .produce, topic, partition, payload := message }

theorem stripPayload_eq_nil_iff (line : Bytes) : stripPayload line = [] ↔ line = [] := by
  unfold stripPayload
  split
  · rfl
  · rename_i solid
    rw [List.dropWhile_eq_nil_iff]
    constructor
    · intro blank
      exact absurd (List.all_eq_true.mpr blank) solid
    · rintro rfl
      simp

theorem stripPayload_eq_message_iff {message : Bytes} (filled : message ≠ []) :
    stripPayload (getline (spaced [message])) = message ↔
      newline ∉ message ∧ message.head? ≠ some space := by
  constructor
  · intro kept
    have text : PayloadText (stripPayload (getline (spaced [message]))) :=
      stripPayload_payloadText (by rwa [kept])
    rw [kept] at text
    refine ⟨text.oneLine, ?_⟩
    cases blank : isBlank message with
    | true =>
        rw [stripPayload_blank blank] at kept
        have sizes := congrArg List.length kept
        simp at sizes
    | false =>
        rw [← kept] at blank ⊢
        exact stripPayload_head _ blank
  · rintro ⟨oneLine, head⟩
    exact stripPayload_spaced ⟨filled, oneLine⟩ head

theorem stripPayload_solid {message : Bytes} (solid : isBlank (getline message) = false) :
    stripPayload (getline (spaced [message])) =
      (getline message).dropWhile fun byte => byte = space := by
  have line : getline (spaced [message]) = space :: getline message := by
    simp [spaced, getline, newline, space]
  have notBlank : ((space :: getline message).all fun byte => byte = space) = false := by
    simpa [isBlank] using solid
  rw [line, stripPayload, notBlank]
  simp

/-- The record that a producer stores under a topic of one word: the first line of its
message, without the blanks in front. -/
theorem producer_request_parsed {topic partitionText message request : Bytes} {partition : Int}
    (built : producerRequest topic partitionText message = some (partition, request))
    (word : Word topic) : ∃ payload,
      parseRequest request = { type := .produce, topic, partition, payload } ∧
      (isBlank (getline message) = false →
        payload = (getline message).dropWhile fun byte => byte = space) ∧
      (Intact topic partition message request ↔
        newline ∉ message ∧ message.head? ≠ some space) := by
  obtain ⟨_, range, filled, rfl⟩ := producerRequest_some built
  have kept : stripPayload (getline (spaced [message])) ≠ [] := by
    rw [ne_eq, stripPayload_eq_nil_iff, spaced_cons]
    simp [getline, newline, space]
  have parsed : parseRequest (commandText .produce ++ space :: (topic ++
      space :: (decimalInt partition ++ space :: message))) =
      { type := .produce, topic, partition,
        payload := stripPayload (getline (spaced [message])) } := by
    have stream : space :: (topic ++ space :: (decimalInt partition ++ space :: message)) =
        spaced [topic, decimalInt partition, message] := by
      simp [spaced]
    rw [parseRequest_command, stream]
    simp [parserOf, parseProduce, extractTwo_spaced word (decimalInt_word range.1), word.1, kept,
      parsePartition_decimalInt range]
  refine ⟨_, parsed, stripPayload_solid, ?_⟩
  rw [Intact, parsed, ← stripPayload_eq_message_iff filled]
  simp

theorem producer_request_parsed_plain :
    ∃ partition request, producerRequest (ascii "t") (ascii "+1") (ascii "hello world") =
        some (partition, request) ∧ Intact (ascii "t") partition (ascii "hello world") request := by
  have built : producerRequest (ascii "t") (ascii "+1") (ascii "hello world") =
      some (1, ascii "PRODUCE t 1 hello world") := by
    decide +kernel
  obtain ⟨_, _, _, intact⟩ := producer_request_parsed built (by decide +kernel)
  exact ⟨1, _, built, intact.mpr (by decide +kernel)⟩

theorem producer_message_stripped :
    ∃ request, producerRequest (ascii "t") (ascii "1") (ascii " m\nn") = some (1, request) ∧
      ¬Intact (ascii "t") 1 (ascii " m\nn") request ∧
      parseRequest request =
        { type := .produce, topic := ascii "t", partition := 1, payload := ascii "m" } := by
  refine ⟨ascii "PRODUCE t 1  m\nn", by decide +kernel, ?_, by decide +kernel⟩
  rintro (invalid | same)
  · revert invalid
    decide +kernel
  · revert same
    decide +kernel

/-! The consumer's requests. -/

theorem fetchText_parsed {assignment : Assignment} (topic : Word assignment.topic)
    (range : InRange assignment.partition) (small : assignment.offset < 2 ^ 63) :
    parseRequest assignment.fetchText =
      { type := .fetch, topic := assignment.topic, partition := assignment.partition,
        offset := assignment.offset } := by
  have rendered : assignment.fetchText = render
      { type := .fetch, topic := assignment.topic, partition := assignment.partition,
        offset := assignment.offset } := by
    simp [Assignment.fetchText, Assignment.text, render, Request.arguments, commandText]
  rw [rendered]
  exact parse_render ⟨by simp, rfl, rfl, topic, range, small, rfl⟩ (by simp)

theorem commitText_parsed {client : Client} {assignment : Assignment} (group : Word client.groupId)
    (consumer : Word client.consumerId) (topic : Word assignment.topic)
    (range : InRange assignment.partition) (small : assignment.offset < 2 ^ 63) :
    parseRequest (client.commitText assignment) =
      { type := .commit, groupId := client.groupId, consumerId := client.consumerId,
        topic := assignment.topic, partition := assignment.partition,
        offset := assignment.offset } := by
  have rendered : client.commitText assignment = render
      { type := .commit, groupId := client.groupId, consumerId := client.consumerId,
        topic := assignment.topic, partition := assignment.partition,
        offset := assignment.offset } := by
    simp [Client.commitText, Assignment.text, render, Request.arguments, commandText]
  rw [rendered]
  exact parse_render ⟨by simp, group, consumer, topic, range, small, rfl⟩ (by simp)

theorem mapM_some_of_inverse {α β : Type} {write : β → α} {read : α → Option β} {rows : List β}
    (inverse : ∀ row ∈ rows, read (write row) = some row) :
    (rows.map write).mapM read = some rows := by
  induction rows with
  | nil => rfl
  | cons row rest ih =>
      have tail := ih fun other member => inverse other (by simp [member])
      simp [inverse row (by simp), tail]

/-- What a consumer needs of the groups to be able to read them back. -/
structure Readable (groups : ConsumerGroups) : Prop where
  members : MembersSound groups
  words : ∀ membership, IsMember groups membership → Word membership.1 ∧ Word membership.2
  bounded : ∀ groupId key, reportedOffset groups groupId key < 2 ^ 63

section Readable

variable {σ : Type}

theorem groupStep_words {groups : ConsumerGroups}
    (words : ∀ membership, IsMember groups membership → Word membership.1 ∧ Word membership.2)
    (event : GroupEvent) (joins : ∀ req, event = .join req → Word req.groupId ∧ Word req.consumerId)
    (membership : Membership) (member : IsMember (groupStep groups event).2 membership) :
    Word membership.1 ∧ Word membership.2 := by
  cases event with
  | join req =>
      rcases ((joinGroup_spec groups req).2 membership).mp member with old | rfl
      · exact words membership old
      · exact joins req rfl
  | leave req => exact words membership (((leaveGroup_spec groups req).2 membership).mp member).1
  | disconnect groupId consumerId =>
      exact words membership ((isMember_remove groups groupId consumerId membership).mp member).1
  | commit partitionCount? req =>
      exact words membership ((commitOffset_isMember groups partitionCount? req membership).mp member)
  | poll req => exact words membership member

theorem handleRequest_readable {world : World σ} (readable : Readable world.broker.consumerGroups)
    (env : Environment σ) (raw : Bytes) :
    Readable (handleRequest env world (parseRequest raw)).2.broker.consumerGroups := by
  refine ⟨handleRequest_membersSound readable.members env raw, ?_,
    handleRequest_bounded readable.bounded env raw⟩
  obtain ⟨partitionCount?, effect⟩ := handleRequest_groups env world (parseRequest raw)
  split at effect
  · rw [effect]
    exact readable.words
  · rename_i event isEvent
    rw [effect.1]
    apply groupStep_words readable.words
    rintro req rfl
    cases typed : (parseRequest raw).type with
    | join =>
        simp only [groupEvent?, typed, Option.some.injEq, GroupEvent.join.injEq] at isEvent
        have accepted : (parseRequest raw).type ≠ .invalid := by simp [typed]
        have formed := parseRequest_wellFormed accepted
        have group := formed.groupId
        have consumer := formed.consumerId
        rw [typed] at group consumer
        rw [← isEvent]
        exact ⟨group, consumer⟩
    | _ => simp [groupEvent?, typed] at isEvent

theorem readable_disconnect {groups : ConsumerGroups} (readable : Readable groups)
    (groupId consumerId : Bytes) :
    Readable (removeConsumerFromGroup groups groupId consumerId) := by
  refine ⟨groupStep_members readable.members (.disconnect groupId consumerId) (by simp),
    groupStep_words readable.words (.disconnect groupId consumerId) (by simp), ?_⟩
  intro query key
  rcases groupStep_reported groups (.disconnect groupId consumerId) query key with
    lower | ⟨_, _, isCommit, _⟩
  · exact lower.trans_lt (readable.bounded query key)
  · simp at isCommit

theorem readable_step (state : ServerState σ) (event : ServerEvent σ) (next : ServerState σ)
    (readable : Readable state.groups) (stepped : serverStep state event = some next) :
    Readable next.groups := by
  obtain ⟨id, change, _⟩ := serverStep_change stepped
  cases change with
  | accepted _ _ groups => exact groups ▸ readable
  | executed _ raw env _ _ _ _ _ world =>
      rw [ServerState.groups, world]
      exact handleRequest_readable readable env raw
  | moved _ _ _ _ _ _ groups => exact groups ▸ readable
  | removed _ membership _ _ _ groups =>
      rw [groups]
      exact readable_disconnect readable membership.1 membership.2
  | closed _ _ _ groups => exact groups ▸ readable

def ConsumerGroup.polled (group : ConsumerGroup) (key : TopicPartition) : Assignment :=
  ⟨key.topic, key.partition, (group.committedOffsets.find key).getD 0⟩

theorem Readable.polled {groups : ConsumerGroups} (readable : Readable groups) {groupId : Bytes}
    {group : ConsumerGroup} (stored : groups.find groupId = some group) {consumerId : Bytes}
    {member : GroupMember} (joined : group.members.find consumerId = some member) :
    ∀ key ∈ member.assignments, Word (group.polled key).topic ∧
      InRange (group.polled key).partition ∧ (group.polled key).offset < 2 ^ 63 := by
  intro key assigned
  obtain ⟨topic, fits⟩ := readable.members groupId group stored consumerId member joined
  have named : (group.polled key).topic = member.topic := (fits key assigned).1
  have bounded := readable.bounded groupId key
  simp only [reportedOffset, offsetsOf, stored, Option.map_some, Option.getD_some] at bounded
  exact ⟨by rwa [named], (fits key assigned).2, bounded⟩

/-- A member reads back its assignments and the committed offsets, and the broker reads back
the requests that it builds from them. -/
theorem client_reads_back {world : World σ} (fresh : world.broker.consumerGroups = ∅)
    {events : List (ServerEvent σ)} {final : ServerState σ}
    (reached : Transition.run serverStep ⟨world, ∅⟩ events = some final) {groupId consumerId : Bytes}
    {group : ConsumerGroup} {member : GroupMember}
    (stored : final.groups.find groupId = some group)
    (joined : group.members.find consumerId = some member) (env : Environment σ) :
    (∃ response, (handleRequest env final.world
          { type := .groupPoll, groupId, consumerId }).1 = .returned response ∧
        parseAssignments response = some (member.assignments.map group.polled)) ∧
      ∀ key ∈ member.assignments,
        parseRequest (group.polled key).fetchText =
            { type := .fetch, topic := key.topic, partition := key.partition,
              offset := (group.polled key).offset } ∧
          ∀ client : Client, client.groupId = groupId → client.consumerId = consumerId →
            ∀ count, (group.polled key).offset + count < 2 ^ 63 →
              parseRequest (client.commitText ((group.polled key).advance count)) =
                { type := .commit, groupId, consumerId, topic := key.topic,
                  partition := key.partition, offset := (group.polled key).offset + count } := by
  have start : Readable (ServerState.groups (⟨world, ∅⟩ : ServerState σ)) := by
    simp only [ServerState.groups, fresh]
    exact ⟨by simp [MembersSound], by simp [IsMember], by simp [reportedOffset, offsetsOf]⟩
  have readable := Transition.run_invariant (fun state => Readable state.groups) readable_step start
    reached
  have rows := readable.polled stored joined
  have words := readable.words (groupId, consumerId) ⟨group, stored, by simp [joined]⟩
  constructor
  · refine ⟨joinLines ((member.assignments.map group.polled).map Assignment.text), ?_, ?_⟩
    · have rendered : groupPoll final.groups { type := .groupPoll, groupId, consumerId } =
          joinLines ((member.assignments.map group.polled).map Assignment.text) := by
        simp only [groupPoll, stored, joined, List.map_map]
        rfl
      rw [← rendered]
      rfl
    · rw [parseAssignments_rows (List.forall_mem_map.mpr fun key assigned =>
        ⟨(rows key assigned).1, (rows key assigned).2.1⟩)]
      apply mapM_some_of_inverse
      rw [List.forall_mem_map]
      intro key assigned
      obtain ⟨topic, range, small⟩ := rows key assigned
      rw [parseAssignment_text topic range, if_pos (by omega)]
  · intro key assigned
    obtain ⟨topic, range, small⟩ := rows key assigned
    refine ⟨fetchText_parsed topic range small, ?_⟩
    rintro client rfl rfl count below
    have advanced : ((group.polled key).advance count).offset =
        (group.polled key).offset + count := by
      simp only [Assignment.advance]
      exact Nat.mod_eq_of_lt (by omega)
    have parsed := commitText_parsed words.1 words.2 (by exact topic) (by exact range)
      (advanced ▸ below)
    rw [parsed, advanced]
    rfl

end Readable

def committingRun : List (ServerEvent Unit) :=
  [.accept 1, groupRequest 1 "JOIN g a t", .record 1, .respond 1 true,
    groupRequest 1 "COMMIT g a t 0 1", .record 1, .respond 1 true]

theorem client_reads_back_commit : ∃ final response,
    Transition.run serverStep ⟨storedWorld [ascii "x"], ∅⟩ committingRun = some final ∧
      (handleRequest idleEnv final.world
        { type := .groupPoll, groupId := ascii "g", consumerId := ascii "a" }).1 =
          .returned response ∧
      parseAssignments response =
        some [⟨ascii "t", 0, 1⟩, ⟨ascii "t", 1, 0⟩, ⟨ascii "t", 2, 0⟩] := by
  have evaluated : ((Transition.run serverStep ⟨storedWorld [ascii "x"], ∅⟩ committingRun).bind
      fun final => (final.groups.find (ascii "g")).bind fun group =>
        (group.members.find (ascii "a")).map fun member =>
          member.assignments.map group.polled) =
      some [⟨ascii "t", 0, 1⟩, ⟨ascii "t", 1, 0⟩, ⟨ascii "t", 2, 0⟩] := by
    decide +kernel
  simp only [Option.bind_eq_some_iff, Option.map_eq_some_iff] at evaluated
  obtain ⟨final, reached, group, stored, member, joined, rows⟩ := evaluated
  obtain ⟨⟨response, returned, read⟩, _⟩ := client_reads_back rfl reached stored joined idleEnv
  exact ⟨final, response, reached, returned, rows ▸ read⟩

end KafkaBroker
