import KafkaBroker.Connections
import KafkaBroker.ConsumerCore

/-!
At-least-once delivery. A committed offset was polled, advanced by the number of lines
of a response and sent back as text; whatever happens to the group in between, all
messages below it were in responses that consumers of the group have received.
-/

namespace KafkaBroker

open ByteText

/-! Poll responses. -/

theorem word_no_newline {word : Bytes} (isWord : Word word) : newline ∉ word := by
  intro member
  have noSpace := isWord.2 newline member
  revert noSpace
  decide

theorem text_no_newline {assignment : Assignment} (topic : Word assignment.topic)
    (range : InRange assignment.partition) : newline ∉ assignment.text := by
  have blank : newline ≠ space := by decide
  simp only [Assignment.text, List.mem_append, List.mem_cons, not_or]
  exact ⟨⟨word_no_newline topic, blank, word_no_newline (decimalInt_word range.1)⟩, blank,
    word_no_newline (decimal_word _)⟩

theorem parseAssignment_text {assignment : Assignment} (topic : Word assignment.topic)
    (range : InRange assignment.partition) : parseAssignment assignment.text =
      if assignment.offset < 2 ^ 64 then some assignment else none := by
  obtain ⟨name, partition, offset⟩ := assignment
  obtain ⟨number, rfl⟩ := Int.eq_ofNat_of_zero_le range.1
  have upper := range.2
  simp only [kDefaultPartitionCount] at upper
  have first : extract (name ++ space :: (decimal number ++ space :: decimal offset)) =
      some (name, space :: (decimal number ++ space :: decimal offset)) :=
    extract_word topic (by simp)
  have second : extractInt (space :: (decimal number ++ space :: decimal offset)) =
      some ((number : Int), space :: decimal offset) := by
    have scanned := scanInteger_blank_decimal number (space :: decimal offset)
      (by simp only [List.head?_cons, Option.mem_some_iff]; rintro _ rfl; decide)
    rw [List.cons_append] at scanned
    have bounds : (-2 ^ 31 : Int) ≤ number ∧ (number : Int) < 2 ^ 31 := by omega
    simp only [extractInt, scanSigned, scanned, Bool.false_eq_true, if_false]
    rw [if_pos bounds, Option.map_some, List.drop_succ_cons, List.drop_left]
  have third : extractUint64 (space :: decimal offset) =
      if offset < 2 ^ 64 then some (offset, []) else none := by
    have scanned := scanInteger_blank_decimal offset [] (by simp)
    rw [List.append_nil] at scanned
    simp only [extractUint64, stoull, scanned, Bool.false_eq_true, if_false]
    split
    · simp
    · rfl
  simp only [Assignment.text, decimalInt_natCast, List.append_assoc, List.cons_append,
    parseAssignment, first, second, third]
  by_cases small : offset < 2 ^ 64
  · simp only [small, if_true]
    rfl
  · simp only [small, if_false]

theorem mapM_read_back {α β : Type} {write : β → α} {read : α → Option β} {rows parsed : List β}
    (inverse : ∀ row ∈ rows, ∀ back, read (write row) = some back → back = row)
    (mapped : (rows.map write).mapM read = some parsed) : parsed = rows := by
  induction rows generalizing parsed with
  | nil =>
      simp only [List.map_nil, List.mapM_nil, Option.pure_def, Option.some.injEq] at mapped
      exact mapped.symm
  | cons row rest ih =>
      simp only [List.map_cons, List.mapM_cons, Option.pure_def, Option.bind_eq_bind,
        Option.bind_eq_some_iff, Option.some.injEq] at mapped
      obtain ⟨first, readFirst, others, readRest, rfl⟩ := mapped
      rw [inverse row (by simp) first readFirst,
        ih (fun other member => inverse other (by simp [member])) readRest]

theorem parseAssignments_rows {rows : List Assignment}
    (sound : ∀ row ∈ rows, Word row.topic ∧ InRange row.partition) :
    parseAssignments (joinLines (rows.map Assignment.text)) =
      (rows.map Assignment.text).mapM parseAssignment := by
  have filled : ∀ line ∈ rows.map Assignment.text, line ≠ [] := by
    intro line listed
    obtain ⟨row, _, rfl⟩ := List.mem_map.mp listed
    simp [Assignment.text]
  have lines : (splitLines (joinLines (rows.map Assignment.text))).filter (fun line => line ≠ []) =
      rows.map Assignment.text := by
    by_cases empty : rows.map Assignment.text = []
    · rw [empty]
      rfl
    · rw [splitLines_joinLines empty, List.filter_eq_self]
      · simpa using filled
      · intro text listed
        obtain ⟨row, known, rfl⟩ := List.mem_map.mp listed
        exact text_no_newline (sound row known).1 (sound row known).2
  rw [parseAssignments, lines]

theorem parseAssignments_joinLines {rows parsed : List Assignment}
    (sound : ∀ row ∈ rows, Word row.topic ∧ InRange row.partition)
    (read : parseAssignments (joinLines (rows.map Assignment.text)) = some parsed) :
    parsed = rows := by
  rw [parseAssignments_rows sound] at read
  refine mapM_read_back (fun row known back => ?_) read
  rw [parseAssignment_text (sound row known).1 (sound row known).2]
  simp only [Option.ite_none_right_eq_some, Option.some.injEq]
  rintro ⟨_, rfl⟩
  rfl

/-! The client's requests. -/

/-- The broker has read the client's `JOIN` as one. -/
def Client.Accepted (client : Client) : Prop := (parseRequest client.joinText).type = .join

def Client.words (client : Client) : List Bytes :=
  fields isSpace client.groupId ++ fields isSpace client.consumerId

theorem fields_blank (first rest : Bytes) :
    fields isSpace (first ++ space :: rest) = fields isSpace first ++ fields isSpace rest :=
  fields_append_cons isSpace_space first rest

theorem parse_joinText (client : Client) :
    parseRequest client.joinText =
      parseJoin (space :: (client.groupId ++ space :: (client.consumerId ++
        space :: client.topic))) := by
  rw [Client.joinText]
  simp only [List.append_assoc, List.cons_append]
  exact parseRequest_command .join _

theorem parse_pollText (client : Client) :
    parseRequest client.pollText =
      parseMember .groupPoll (space :: (client.groupId ++ space :: client.consumerId)) := by
  rw [Client.pollText]
  simp only [List.append_assoc, List.cons_append]
  exact parseRequest_command .groupPoll _

theorem parse_commitText (client : Client) (assignment : Assignment) :
    parseRequest (client.commitText assignment) =
      parseCommit (space :: (client.groupId ++ space :: (client.consumerId ++
        space :: assignment.text))) := by
  rw [Client.commitText]
  simp only [List.append_assoc, List.cons_append]
  exact parseRequest_command .commit _

theorem Client.Accepted.words {client : Client} (accepted : client.Accepted) :
    ∃ consumerId topic, client.words ++ fields isSpace client.topic =
      [client.group, consumerId, topic] := by
  unfold Client.Accepted at accepted
  rw [parse_joinText] at accepted
  have valid : (parseJoin (space :: (client.groupId ++ space :: (client.consumerId ++
      space :: client.topic)))).type ≠ .invalid := by
    simp [accepted]
  have read := parseJoin_fields valid
  rw [← parse_joinText] at read
  refine ⟨_, _, Eq.trans ?_ read⟩
  simp only [Client.words, List.append_assoc, fields_cons isSpace_space, fields_blank]

theorem Client.Accepted.group_eq {client : Client} (accepted : client.Accepted)
    {groupId consumerId : Bytes} (words : client.words = [groupId, consumerId]) :
    groupId = client.group := by
  obtain ⟨_, _, joined⟩ := accepted.words
  rw [words] at joined
  simp only [List.cons_append, List.cons.injEq] at joined
  exact joined.1

theorem poll_group {client : Client} (accepted : client.Accepted)
    (polled : (parseRequest client.pollText).type ≠ .invalid) :
    (parseRequest client.pollText).groupId = client.group := by
  rw [parse_pollText] at polled ⊢
  apply accepted.group_eq
  rw [← parseMember_fields polled]
  simp only [Client.words, fields_cons isSpace_space, fields_blank]

theorem text_fields {assignment : Assignment} (topic : Word assignment.topic)
    (range : InRange assignment.partition) :
    fields isSpace assignment.text =
      [assignment.topic, decimalInt assignment.partition, decimal assignment.offset] := by
  have single {word : Bytes} (isWord : Word word) : fields isSpace word = [word] :=
    fields_singleton isWord.1 isWord.2
  simp only [Assignment.text, List.append_assoc, List.cons_append, fields_blank, single topic,
    single (decimalInt_word range.1), single (decimal_word _), List.nil_append]

theorem commit_request {client : Client} {assignment : Assignment} (accepted : client.Accepted)
    (topic : Word assignment.topic) (range : InRange assignment.partition)
    (commits : (parseRequest (client.commitText assignment)).type ≠ .invalid) :
    (parseRequest (client.commitText assignment)).groupId = client.group ∧
      (parseRequest (client.commitText assignment)).topic = assignment.topic ∧
      (parseRequest (client.commitText assignment)).partition = assignment.partition ∧
      (parseRequest (client.commitText assignment)).offset = assignment.offset := by
  rw [parse_commitText] at commits ⊢
  obtain ⟨partitionText, offsetText, words, readPartition, readOffset⟩ := parseCommit_fields commits
  rw [fields_cons isSpace_space, fields_blank, fields_blank, text_fields topic range,
    ← List.append_assoc] at words
  change client.words ++ _ = [_, _] ++ [_, _, _] at words
  obtain ⟨front, back⟩ := List.append_inj' words rfl
  simp only [List.cons.injEq, and_true] at back
  obtain ⟨topicEq, rfl, rfl⟩ := back
  obtain ⟨partitionEq, offsetEq⟩ := parsed_numbers range readPartition readOffset
  exact ⟨accepted.group_eq front, topicEq.symm, partitionEq, offsetEq⟩

theorem fetch_request {assignment : Assignment} (topic : Word assignment.topic)
    (range : InRange assignment.partition)
    (fetches : (parseRequest assignment.fetchText).type ≠ .invalid) :
    (parseRequest assignment.fetchText).topic = assignment.topic ∧
      (parseRequest assignment.fetchText).partition = assignment.partition ∧
      (parseRequest assignment.fetchText).offset = assignment.offset := by
  have command : parseRequest assignment.fetchText = parseFetch (space :: assignment.text) :=
    parseRequest_command .fetch _
  rw [command] at fetches ⊢
  obtain ⟨partitionText, offsetText, words, readPartition, readOffset⟩ := parseFetch_fields fetches
  rw [fields_cons isSpace_space, text_fields topic range] at words
  simp only [List.cons.injEq, and_true] at words
  obtain ⟨topicEq, rfl, rfl⟩ := words
  exact ⟨topicEq.symm, parsed_numbers range readPartition readOffset⟩

/-! The invariant. -/

/-- A consumer of the group has received the message at this place of the partition. -/
def Delivered (receipts : List Receipt) (groupId topic : Bytes) (partition : Int) (index : Nat)
    (message : Bytes) : Prop :=
  ∃ receipt ∈ receipts, receipt.groupId = groupId ∧ receipt.topic = topic ∧
    receipt.partition = partition ∧ receipt.offset ≤ index ∧
    (splitLines receipt.response)[index - receipt.offset]? = some message

section Invariant

variable {σ : Type}

/-- The group has received everything below the offset. -/
structure Consumed (state : ConsumerState σ) (groupId topic : Bytes) (partition : Int)
    (offset : Nat) : Prop where
  within : offset ≤ (state.world.broker.messages topic partition).length
  delivered : ∀ index message, index < offset →
    (state.world.broker.messages topic partition)[index]? = some message →
    Delivered state.receipts groupId topic partition index message

structure Ready (state : ConsumerState σ) (groupId : Bytes) (assignment : Assignment) : Prop where
  topic : Word assignment.topic
  range : InRange assignment.partition
  consumed : Consumed state groupId assignment.topic assignment.partition assignment.offset

def ClientPhase.assignments : ClientPhase → List Assignment
  | .fetch assignment rest _ => assignment :: rest
  | .commit assignment rest => assignment :: rest
  | _ => []

/-- What the client will make of a response is sound. -/
def PendingSound (state : ConsumerState σ) (client : Client) (response : Bytes) : Prop :=
  match client.phase with
  | .join => response = ascii "OK" → client.Accepted
  | .poll => ∀ assignments, response ≠ ascii "ERROR" →
      parseAssignments response = some assignments →
      ∀ assignment ∈ assignments, Ready state client.group assignment
  | .fetch assignment _ _ => response ≠ ascii "ERROR" →
      ∃ lines, response = joinLines lines ∧ lines <+:
        (state.world.broker.messages assignment.topic assignment.partition).drop assignment.offset
  | _ => True

structure ClientSound (state : ConsumerState σ) (client : Client) : Prop where
  joined : client.phase = .join ∨ client.phase = .finished ∨ client.Accepted
  ready : ∀ assignment ∈ client.phase.assignments, Ready state client.group assignment
  pending : ∀ response, client.pending = some response → PendingSound state client response

def MembersSound (groups : ConsumerGroups) : Prop :=
  ∀ groupId group, groups.find groupId = some group →
    ∀ consumerId member, group.members.find consumerId = some member →
      Word member.topic ∧
        ∀ assigned ∈ member.assignments, assigned.topic = member.topic ∧ InRange assigned.partition

structure Sound (state : ConsumerState σ) : Prop where
  text : ∀ topic partition, ∀ message ∈ state.world.broker.messages topic partition,
    PayloadText message
  members : MembersSound state.groups
  offsets : ∀ groupId key offset, (offsetsOf state.groups groupId).find key = some offset →
    Consumed state groupId key.topic key.partition offset
  clients : ∀ id client, state.clients.find id = some client → ClientSound state client

structure Grows (before after : ConsumerState σ) : Prop where
  messages : ∀ topic partition,
    before.world.broker.messages topic partition <+: after.world.broker.messages topic partition
  receipts : before.receipts ⊆ after.receipts

variable {before after : ConsumerState σ}

theorem Consumed.grow {groupId topic : Bytes} {partition : Int} {offset : Nat}
    (consumed : Consumed before groupId topic partition offset) (growth : Grows before after) :
    Consumed after groupId topic partition offset := by
  obtain ⟨added, longer⟩ := growth.messages topic partition
  refine ⟨consumed.within.trans (growth.messages topic partition).length_le, ?_⟩
  intro index message below found
  have inside : index < (before.world.broker.messages topic partition).length :=
    lt_of_lt_of_le below consumed.within
  rw [← longer, List.getElem?_append_left inside] at found
  obtain ⟨receipt, member, shape⟩ := consumed.delivered index message below found
  exact ⟨receipt, growth.receipts member, shape⟩

theorem Ready.grow {groupId : Bytes} {assignment : Assignment}
    (ready : Ready before groupId assignment) (growth : Grows before after) :
    Ready after groupId assignment :=
  ⟨ready.topic, ready.range, ready.consumed.grow growth⟩

theorem ClientSound.grow {client : Client} (sound : ClientSound before client)
    (growth : Grows before after) : ClientSound after client := by
  refine ⟨sound.joined, fun assignment member => (sound.ready assignment member).grow growth, ?_⟩
  intro response pending
  have settled := sound.pending response pending
  unfold PendingSound at settled ⊢
  cases phase : client.phase with
  | poll =>
      simp only [phase] at settled ⊢
      intro assignments noError parsed assignment member
      exact (settled assignments noError parsed assignment member).grow growth
  | fetch assignment rest consumedAny =>
      simp only [phase] at settled ⊢
      intro noError
      obtain ⟨lines, shape, inside⟩ := settled noError
      refine ⟨lines, shape, ?_⟩
      have ready := sound.ready assignment (by simp [phase, ClientPhase.assignments])
      -- the response was cut at the end of the log, and the log has only grown behind it
      obtain ⟨added, longer⟩ := growth.messages assignment.topic assignment.partition
      rw [← longer, List.drop_append_of_le_length ready.consumed.within]
      exact inside.trans (List.prefix_append _ _)
  | join => simpa only [phase] using settled
  | commit assignment rest => simp only
  | leave => simp only
  | finished => simp only

end Invariant

/-! The broker's steps. -/

theorem rebalanced_member {group : ConsumerGroup} {consumerId : Bytes} {member : GroupMember}
    (found : (rebalanceGroup group).members.find consumerId = some member) :
    ∃ stored, group.members.find consumerId = some stored ∧ stored.topic = member.topic ∧
      ∀ assigned ∈ member.assignments,
        assigned.topic = member.topic ∧ InRange assigned.partition := by
  rw [rebalanceGroup_find, Option.map_eq_some_iff] at found
  obtain ⟨stored, present, rfl⟩ := found
  refine ⟨stored, present, rfl, ?_⟩
  intro assigned inside
  simp only [topicShare, List.mem_map, RoundRobin.mem_share_iff] at inside
  obtain ⟨index, ⟨bound, _⟩, rfl⟩ := inside
  exact ⟨rfl, Int.natCast_nonneg index, Int.ofNat_lt.mpr bound⟩

theorem groupStep_members {groups : ConsumerGroups} (sound : MembersSound groups)
    (event : GroupEvent) (joins : ∀ req, event = .join req → Word req.topic) :
    MembersSound (groupStep groups event).2 := by
  rcases groupStep_cases groups event with same | ⟨groupId, group, _, _, origin, after⟩ |
    ⟨groupId, after⟩ | ⟨_, req, group, _, found, after⟩
  · rw [same]
    exact sound
  · rw [after]
    intro query stored isStored consumerId member isMember
    rw [Table.find_set] at isStored
    split at isStored
    · rw [Option.some.injEq] at isStored
      subst isStored
      obtain ⟨unassigned, present, topic, assigned⟩ := rebalanced_member isMember
      refine ⟨?_, assigned⟩
      rw [← topic]
      rcases origin consumerId unassigned present with ⟨old, isOld, known⟩ | ⟨req, joined, named⟩
      · exact (sound groupId old isOld consumerId unassigned known).1
      · exact named ▸ joins req joined
    · exact sound query stored isStored consumerId member isMember
  · rw [after]
    intro query stored isStored
    rw [Table.find_remove] at isStored
    split at isStored
    · simp at isStored
    · exact sound query stored isStored
  · rw [after]
    intro query stored isStored
    rw [Table.find_set] at isStored
    split at isStored
    · rw [Option.some.injEq] at isStored
      subst isStored
      exact sound req.groupId group found
    · exact sound query stored isStored

section Steps

variable {σ : Type} {state : ConsumerState σ}

theorem grows_update (state : ConsumerState σ) (id : Nat) (client : Client) :
    Grows state (state.update id client) :=
  ⟨fun _ _ => List.prefix_rfl, List.Subset.refl _⟩

theorem Sound.update (sound : Sound state) (id : Nat) {client : Client}
    (isSound : ClientSound state client) : Sound (state.update id client) := by
  refine ⟨sound.text, sound.members, ?_, ?_⟩
  · intro groupId key offset found
    exact (sound.offsets groupId key offset found).grow (grows_update state id client)
  intro query found stored
  simp only [ConsumerState.update, Table.find_set] at stored
  split at stored
  · rw [Option.some.injEq] at stored
    exact stored ▸ isSound.grow (grows_update state id client)
  · exact (sound.clients query found stored).grow (grows_update state id client)

theorem abort_sound (client : Client) : ClientSound state client.abort := by
  refine ⟨Or.inr (Or.inl rfl), ?_, ?_⟩
  · simp [Client.abort, ClientPhase.assignments]
  · simp [Client.abort]

theorem Sound.advance (sound : Sound state) {world : World σ}
    (growth : Grows state { state with world })
    (text : ∀ topic partition, ∀ message ∈ world.broker.messages topic partition,
      PayloadText message)
    (members : MembersSound world.broker.consumerGroups)
    (offsets : ∀ groupId key offset,
      (offsetsOf world.broker.consumerGroups groupId).find key = some offset →
      Consumed state groupId key.topic key.partition offset) :
    Sound { state with world } :=
  ⟨text, members, fun groupId key offset found => (offsets groupId key offset found).grow growth,
    fun id client stored => (sound.clients id client stored).grow growth⟩

theorem grows_request (state : ConsumerState σ) (env : Environment σ) (req : Request) :
    Grows state { state with world := (handleRequest env state.world req).2 } := by
  refine ⟨fun topic partition => ?_, List.Subset.refl _⟩
  change _ <+: (handleRequest env state.world req).2.broker.messages topic partition
  rcases handleRequest_messages env state.world req topic partition with same | ⟨_, longer⟩
  · rw [same]
  · rw [longer]
    exact List.prefix_append _ _

theorem handleRequest_membersSound {world : World σ}
    (sound : MembersSound world.broker.consumerGroups) (env : Environment σ) (raw : Bytes) :
    MembersSound (handleRequest env world (parseRequest raw)).2.broker.consumerGroups := by
  obtain ⟨partitionCount?, effect⟩ := handleRequest_groups env world (parseRequest raw)
  split at effect
  · rw [effect]
    exact sound
  · rename_i event isEvent
    rw [effect.1]
    refine groupStep_members sound event ?_
    rintro req rfl
    cases typed : (parseRequest raw).type with
    | join =>
        simp only [groupEvent?, typed, Option.some.injEq, GroupEvent.join.injEq] at isEvent
        exact isEvent ▸ parseRequest_join typed
    | _ => simp [groupEvent?, typed] at isEvent

theorem Sound.request (sound : Sound state) (env : Environment σ) (raw : Bytes)
    (commits : (parseRequest raw).type = .commit →
      Consumed state (parseRequest raw).groupId (parseRequest raw).topic
        (parseRequest raw).partition (parseRequest raw).offset) :
    Sound { state with world := (handleRequest env state.world (parseRequest raw)).2 } := by
  obtain ⟨partitionCount?, effect⟩ := handleRequest_groups env state.world (parseRequest raw)
  refine sound.advance (grows_request state env _) ?_ ?_ ?_
  · intro topic partition message member
    rcases handleRequest_messages env state.world (parseRequest raw) topic partition with
      same | ⟨appends, longer⟩
    · exact sound.text topic partition message (same ▸ member)
    · rw [longer, List.mem_append, List.mem_singleton] at member
      rcases member with old | rfl
      · exact sound.text topic partition message old
      · rcases appends with produces | replicates
        · exact (parseRequest_produce produces).2.2.1
        · exact (parseRequest_replicate replicates).2.2.1
  · exact handleRequest_membersSound sound.members env raw
  · intro groupId key offset found
    split at effect
    · rw [effect] at found
      exact sound.offsets groupId key offset found
    · rename_i event isEvent
      rw [effect.1] at found
      rcases groupStep_offset event found with old | ⟨_, req, rfl, rfl, rfl, rfl⟩
      · exact sound.offsets groupId key offset old
      · cases typed : (parseRequest raw).type with
        | commit =>
            simp only [groupEvent?, typed, Option.some.injEq, GroupEvent.commit.injEq] at isEvent
            exact isEvent.2 ▸ commits typed
        | _ => simp [groupEvent?, typed] at isEvent

/-! The clients' steps. -/

theorem nextAssignment_mem {assignments : List Assignment} {consumedAny : Bool}
    {assignment : Assignment}
    (member : assignment ∈ (nextAssignment assignments consumedAny).assignments) :
    assignment ∈ assignments := by
  cases assignments with
  | nil => cases consumedAny <;> simp [nextAssignment, ClientPhase.assignments] at member
  | cons first rest => exact member

theorem moved_sound {client : Client} (accepted : client.Accepted) {phase : ClientPhase}
    (ready : ∀ assignment ∈ phase.assignments, Ready state client.group assignment) :
    ClientSound state { client with phase, pending := none } :=
  ⟨Or.inr (Or.inr accepted), ready, by simp⟩

theorem grows_receipts (state : ConsumerState σ) (receipts : List Receipt) :
    Grows state { state with receipts := state.receipts ++ receipts } :=
  ⟨fun _ _ => List.prefix_rfl, List.subset_append_left _ _⟩

theorem countMessages_joinLines {lines : List Bytes} (text : ∀ line ∈ lines, PayloadText line) :
    countMessages (joinLines lines) = lines.length := by
  have filled : ∀ line ∈ lines, line ≠ [] := fun line member => (text line member).nonempty
  unfold countMessages
  split
  · rename_i empty
    simp [(joinLines_eq_nil_iff filled).mp empty]
  · rename_i nonempty
    apply joinLines_count
    · rintro rfl
      exact nonempty rfl
    · exact fun line member => (text line member).oneLine

theorem Consumed.advance {groupId : Bytes} {assignment : Assignment} {lines : List Bytes}
    (text : ∀ line ∈ lines, PayloadText line) (nonempty : lines ≠ [])
    (inside : lines <+:
      (state.world.broker.messages assignment.topic assignment.partition).drop assignment.offset)
    (consumed : Consumed state groupId assignment.topic assignment.partition assignment.offset) :
    Consumed { state with receipts := state.receipts ++ [⟨groupId, assignment.topic,
        assignment.partition, assignment.offset, joinLines lines⟩] }
      groupId assignment.topic assignment.partition (assignment.advance lines.length).offset := by
  have sizes := inside.length_le
  rw [List.length_drop] at sizes
  have within := consumed.within
  have capped : (assignment.advance lines.length).offset ≤ assignment.offset + lines.length :=
    Nat.mod_le _ _
  refine ⟨?_, ?_⟩
  · change _ ≤ (state.world.broker.messages assignment.topic assignment.partition).length
    omega
  intro index message below found
  by_cases old : index < assignment.offset
  · exact (consumed.grow (grows_receipts state _)).delivered index message old found
  · refine ⟨_, List.mem_append_right _ (List.mem_singleton_self _), rfl, rfl, rfl,
      Nat.le_of_not_lt old, ?_⟩
    change (splitLines (joinLines lines))[index - assignment.offset]? = some message
    rw [splitLines_joinLines nonempty fun line member => (text line member).oneLine]
    have position : index - assignment.offset < lines.length := by omega
    have behind : assignment.offset + (index - assignment.offset) = index := by omega
    obtain ⟨later, split⟩ := inside
    have same := congrArg (fun list => list[index - assignment.offset]?) split
    simp only [List.getElem?_append_left position, List.getElem?_drop, behind] at same
    exact same.trans found

theorem receive_sound (sound : Sound state) {client : Client} (isSound : ClientSound state client)
    {response : Bytes} (pending : client.pending = some response) :
    ClientSound { state with receipts := state.receipts ++ (client.receive response).2 }
      (client.receive response).1 := by
  have settled := isSound.pending response pending
  have growth := grows_receipts state (client.receive response).2
  cases phase : client.phase with
  | join =>
      simp only [PendingSound, phase] at settled
      simp only [Client.receive, phase, ClientPhase.receive]
      split
      · rename_i answered
        exact moved_sound (settled answered) (by simp [ClientPhase.assignments])
      · exact abort_sound client
  | poll =>
      simp only [PendingSound, phase] at settled
      have accepted : client.Accepted := by simpa [phase] using isSound.joined
      simp only [Client.receive, phase, ClientPhase.receive] at growth ⊢
      split
      · exact moved_sound accepted (by simp [ClientPhase.assignments])
      · rename_i noError
        split
        · exact abort_sound client
        · rename_i assignments parsed
          refine moved_sound accepted fun assignment member => ?_
          exact (settled assignments noError parsed assignment (nextAssignment_mem member)).grow
            growth
  | fetch assignment rest consumedAny =>
      simp only [PendingSound, phase] at settled
      have accepted : client.Accepted := by simpa [phase] using isSound.joined
      have ready := isSound.ready
      simp only [phase, ClientPhase.assignments, List.forall_mem_cons] at ready
      simp only [Client.receive, phase, ClientPhase.receive] at growth ⊢
      split
      · exact moved_sound accepted (by simp [ClientPhase.assignments])
      · rename_i noError
        rw [if_neg noError] at growth
        obtain ⟨lines, rfl, inside⟩ := settled noError
        have text : ∀ line ∈ lines, PayloadText line := fun line member =>
          sound.text _ _ line (List.mem_of_mem_drop (inside.subset member))
        rw [countMessages_joinLines text]
        split
        · exact moved_sound accepted fun other member =>
            (ready.2 other (nextAssignment_mem member)).grow growth
        · rename_i some
          have nonempty : lines ≠ [] := by
            rintro rfl
            exact some rfl
          refine moved_sound accepted ?_
          simp only [ClientPhase.assignments, List.forall_mem_cons]
          exact ⟨⟨ready.1.topic, ready.1.range, ready.1.consumed.advance text nonempty inside⟩,
            fun other member => (ready.2 other member).grow growth⟩
  | commit assignment rest =>
      have accepted : client.Accepted := by simpa [phase] using isSound.joined
      have ready := isSound.ready
      simp only [phase, ClientPhase.assignments, List.forall_mem_cons] at ready
      simp only [Client.receive, phase, ClientPhase.receive] at growth ⊢
      split
      · exact moved_sound accepted fun other member =>
          (ready.2 other (nextAssignment_mem member)).grow growth
      · exact moved_sound accepted (by simp [ClientPhase.assignments])
  | leave =>
      simp only [Client.receive, phase, ClientPhase.receive]
      exact abort_sound client
  | finished =>
      simp only [Client.receive, phase, ClientPhase.receive]
      exact abort_sound client

def ClientPhase.command : ClientPhase → RequestType
  | .join => .join
  | .poll => .groupPoll
  | .fetch _ _ _ => .fetch
  | .commit _ _ => .commit
  | .leave => .leave
  | .finished => .invalid

theorem requestText_type {client : Client} {text : Bytes} (sends : client.requestText = some text) :
    (parseRequest text).type = client.phase.command ∨ (parseRequest text).type = .invalid := by
  have command (type : RequestType) (shape : ∃ rest, text = commandText type ++ space :: rest) :
      (parseRequest text).type = type ∨ (parseRequest text).type = .invalid := by
    obtain ⟨rest, rfl⟩ := shape
    rw [parseRequest_command]
    exact parserOf_type type _
  unfold Client.requestText at sends
  cases phase : client.phase with
  | finished => simp [phase] at sends
  | _ =>
      simp only [phase, Option.some.injEq] at sends
      apply command
      simp only [← sends, Client.joinText, Client.pollText, Assignment.fetchText, Client.commitText,
        Client.leaveText, List.append_assoc, List.cons_append]
      exact ⟨_, rfl⟩

section Answers

variable {env : Environment σ} {world : World σ} {req : Request} {response : Bytes}

theorem answer_invalid (typed : req.type = .invalid)
    (returned : (handleRequest env world req).1 = .returned response) :
    response = ascii "ERROR" := by
  simpa [handleRequest, dispatch, typed, eq_comm] using returned

theorem answer_poll (typed : req.type = .groupPoll)
    (returned : (handleRequest env world req).1 = .returned response) :
    response = groupPoll world.broker.consumerGroups req := by
  simpa [handleRequest, dispatch, typed, eq_comm] using returned

theorem answer_fetch (typed : req.type = .fetch)
    (returned : (handleRequest env world req).1 = .returned response) :
    response = (fetch world.broker req).1 := by
  simpa [handleRequest, dispatch, typed, eq_comm] using returned

end Answers

def pollAssignment (groups : ConsumerGroups) (groupId : Bytes) (key : TopicPartition) : Assignment :=
  ⟨key.topic, key.partition, reportedOffset groups groupId key⟩

theorem poll_assignments {groups : ConsumerGroups} (members : MembersSound groups) {req : Request}
    {assignments : List Assignment} (noError : groupPoll groups req ≠ ascii "ERROR")
    (parsed : parseAssignments (groupPoll groups req) = some assignments) :
    ∃ group member, groups.find req.groupId = some group ∧
      group.members.find req.consumerId = some member ∧
      (∀ key ∈ member.assignments, Word key.topic ∧ InRange key.partition) ∧
      assignments = member.assignments.map (pollAssignment groups req.groupId) := by
  cases stored : groups.find req.groupId with
  | none => simp [groupPoll, stored] at noError
  | some group =>
      cases found : group.members.find req.consumerId with
      | none => simp [groupPoll, stored, found] at noError
      | some member =>
          obtain ⟨topic, assigned⟩ := members req.groupId group stored req.consumerId member found
          have rows : groupPoll groups req = joinLines
              ((member.assignments.map (pollAssignment groups req.groupId)).map
                Assignment.text) := by
            rw [groupPoll_rows stored found, List.map_map]
            rfl
          have wellFormed : ∀ key ∈ member.assignments, Word key.topic ∧ InRange key.partition := by
            intro key inside
            exact ⟨(assigned key inside).1 ▸ topic, (assigned key inside).2⟩
          rw [rows] at parsed
          exact ⟨group, member, rfl, found, wellFormed,
            parseAssignments_joinLines (List.forall_mem_map.mpr wellFormed) parsed⟩

theorem Sound.poll (sound : Sound state) {req : Request} {assignments : List Assignment}
    (noError : groupPoll state.groups req ≠ ascii "ERROR")
    (parsed : parseAssignments (groupPoll state.groups req) = some assignments) :
    ∀ assignment ∈ assignments, Ready state req.groupId assignment := by
  obtain ⟨group, member, _, _, wellFormed, rfl⟩ := poll_assignments sound.members noError parsed
  intro assignment inside
  obtain ⟨key, known, rfl⟩ := List.mem_map.mp inside
  refine ⟨(wellFormed key known).1, (wellFormed key known).2, ?_⟩
  simp only [pollAssignment, reportedOffset]
  cases committed : (offsetsOf state.groups req.groupId).find key with
  | none => exact ⟨Nat.zero_le _, by simp⟩
  | some offset => exact sound.offsets req.groupId key offset committed

theorem send_sound (sound : Sound state) {client : Client} (isSound : ClientSound state client)
    {env : Environment σ} {text response : Bytes} (sends : client.requestText = some text)
    (returned : (handleRequest env state.world (parseRequest text)).1 = .returned response) :
    ClientSound state { client with pending := some response } := by
  refine ⟨isSound.joined, isSound.ready, ?_⟩
  rintro _ ⟨rfl⟩
  have typed := requestText_type sends
  have refused : ascii "ERROR" ≠ ascii "OK" := by decide
  unfold PendingSound
  cases phase : client.phase with
  | join =>
      simp only [phase, Client.requestText, Option.some.injEq, ClientPhase.command] at sends typed ⊢
      subst sends
      intro answered
      refine typed.resolve_right fun invalid => ?_
      exact refused ((answer_invalid invalid returned).symm.trans answered)
  | poll =>
      simp only [phase, Client.requestText, Option.some.injEq, ClientPhase.command] at sends typed ⊢
      subst sends
      intro assignments noError parsed
      have accepted : client.Accepted := by simpa [phase] using isSound.joined
      have valid : (parseRequest client.pollText).type ≠ .invalid := fun invalid =>
        noError (answer_invalid invalid returned)
      have answered := answer_poll (typed.resolve_right valid) returned
      rw [answered] at noError parsed
      have ready := sound.poll noError parsed
      rw [poll_group accepted valid] at ready
      exact ready
  | fetch assignment rest consumedAny =>
      have ready := isSound.ready assignment (by simp [phase, ClientPhase.assignments])
      simp only [phase, Client.requestText, Option.some.injEq, ClientPhase.command] at sends typed ⊢
      subst sends
      intro noError
      have valid : (parseRequest assignment.fetchText).type ≠ .invalid := fun invalid =>
        noError (answer_invalid invalid returned)
      obtain ⟨topicEq, partitionEq, offsetEq⟩ := fetch_request ready.topic ready.range valid
      have answered := answer_fetch (typed.resolve_right valid) returned
      have reply := (fetch_reply state.world.broker _).resolve_left (answered ▸ noError)
      rw [topicEq, partitionEq, offsetEq] at reply
      exact ⟨_, answered.trans reply, List.prefix_rfl⟩
  | commit assignment rest => simp only
  | leave => simp only
  | finished => simp only

/-- A client commits only what its group has received. -/
theorem commit_consumed {client : Client} (isSound : ClientSound state client) {text : Bytes}
    (sends : client.requestText = some text) (commits : (parseRequest text).type = .commit) :
    Consumed state (parseRequest text).groupId (parseRequest text).topic
      (parseRequest text).partition (parseRequest text).offset := by
  have typed := requestText_type sends
  rw [commits] at typed
  cases phase : client.phase with
  | commit assignment rest =>
      have ready := isSound.ready assignment (by simp [phase, ClientPhase.assignments])
      have accepted : client.Accepted := by simpa [phase] using isSound.joined
      simp only [phase, Client.requestText, Option.some.injEq] at sends
      subst sends
      obtain ⟨groupEq, topicEq, partitionEq, offsetEq⟩ :=
        commit_request accepted ready.topic ready.range (by simp [commits])
      rw [groupEq, topicEq, partitionEq, offsetEq]
      exact ready.consumed
  | _ => simp [phase, ClientPhase.command] at typed

theorem Sound.receive (sound : Sound state) {id : Nat} {client : Client} {response : Bytes}
    (isSound : ClientSound state client) (pending : client.pending = some response) :
    Sound { state.update id (client.receive response).1 with
      receipts := state.receipts ++ (client.receive response).2 } := by
  have growth := grows_receipts state (client.receive response).2
  have received : Sound { state with
      receipts := state.receipts ++ (client.receive response).2 } :=
    ⟨sound.text, sound.members,
      fun groupId key offset found => (sound.offsets groupId key offset found).grow growth,
      fun other found stored => (sound.clients other found stored).grow growth⟩
  exact received.update id (receive_sound sound isSound pending)

theorem Sound.remove (sound : Sound state) (groupId consumerId : Bytes) :
    Sound { state with
      world := withGroups state.world
        (removeConsumerFromGroup state.groups groupId consumerId) } := by
  refine sound.advance ⟨fun _ _ => List.prefix_rfl, List.Subset.refl _⟩ sound.text ?_ ?_
  · exact groupStep_members sound.members (.disconnect groupId consumerId) (by simp)
  · intro query key offset found
    rcases groupStep_offset (.disconnect groupId consumerId) found with
      old | ⟨_, _, isCommit, _⟩
    · exact sound.offsets query key offset old
    · simp at isCommit

/-- Everything one step can do. -/
inductive ConsumerChange (state : ConsumerState σ) : ConsumerEvent σ → ConsumerState σ → Prop
  | started (id : Nat) (topic groupId consumerId : Bytes) (free : state.clients.find id = none) :
      ConsumerChange state (.start id topic groupId consumerId)
        (state.update id { topic, groupId, consumerId })
  | refused (id : Nat) (env : Environment σ) (client : Client)
      (found : state.clients.find id = some client) :
      ConsumerChange state (.send id env) (state.update id client.abort)
  | failed (id : Nat) (env : Environment σ) (client : Client) (text : Bytes)
      (found : state.clients.find id = some client) (idle : client.pending = none)
      (sends : client.requestText = some text) :
      ConsumerChange state (.send id env) (ConsumerState.update
        { state with world := (handleRequest env state.world (parseRequest text)).2 } id client.abort)
  | answered (id : Nat) (env : Environment σ) (client : Client) (text response : Bytes)
      (found : state.clients.find id = some client) (idle : client.pending = none)
      (sends : client.requestText = some text)
      (returned : (handleRequest env state.world (parseRequest text)).1 = .returned response)
      (short : response.length ≤ kMaxPayloadSize) :
      ConsumerChange state (.send id env) (ConsumerState.update
        { state with world := (handleRequest env state.world (parseRequest text)).2 } id
        { client with pending := some response })
  | received (id : Nat) (client : Client) (response : Bytes)
      (found : state.clients.find id = some client) (pending : client.pending = some response) :
      ConsumerChange state (.receive id)
        { state.update id (client.receive response).1 with
          receipts := state.receipts ++ (client.receive response).2 }
  | dropped (id : Nat) (client : Client) (found : state.clients.find id = some client) :
      ConsumerChange state (.drop id) (state.update id client.abort)
  | removed (groupId consumerId : Bytes) :
      ConsumerChange state (.remove groupId consumerId) { state with
        world := withGroups state.world (removeConsumerFromGroup state.groups groupId consumerId) }
  | requested (raw : Bytes) (env : Environment σ) (noCommit : (parseRequest raw).type ≠ .commit) :
      ConsumerChange state (.request raw env)
        { state with world := (handleRequest env state.world (parseRequest raw)).2 }

theorem send_change {next : ConsumerState σ} {id : Nat} {env : Environment σ}
    (stepped : consumerStep state (.send id env) = some next) :
    ConsumerChange state (.send id env) next := by
  simp only [consumerStep] at stepped
  split at stepped
  · simp at stepped
  · rename_i client found
    split at stepped
    · rename_i text idle sends
      split at stepped
      · rw [← Option.some.inj stepped]
        exact .refused id env client found
      · split at stepped
        · simp at stepped
        · rw [← Option.some.inj stepped]
          exact .failed id env client text found idle sends
        · rename_i response returned
          rw [← Option.some.inj stepped]
          split
          · exact .failed id env client text found idle sends
          · rename_i short
            exact .answered id env client text response found idle sends returned
              (Nat.le_of_not_lt short)
    · simp at stepped

theorem consumerStep_change {next : ConsumerState σ} {event : ConsumerEvent σ}
    (stepped : consumerStep state event = some next) : ConsumerChange state event next := by
  cases event with
  | start id topic groupId consumerId =>
      simp only [consumerStep] at stepped
      split at stepped
      · simp at stepped
      · rename_i allowed
        rw [← Option.some.inj stepped]
        rw [not_or, Option.not_isSome_iff_eq_none] at allowed
        exact .started id topic groupId consumerId allowed.1
  | send id env => exact send_change stepped
  | receive id =>
      simp only [consumerStep] at stepped
      split at stepped
      · simp at stepped
      · rename_i client found
        split at stepped
        · simp at stepped
        · rename_i response pending
          rw [← Option.some.inj stepped]
          exact .received id client response found pending
  | drop id =>
      simp only [consumerStep] at stepped
      split at stepped
      · simp at stepped
      · rename_i client found
        rw [← Option.some.inj stepped]
        exact .dropped id client found
  | remove groupId consumerId =>
      rw [← Option.some.inj stepped]
      exact .removed groupId consumerId
  | request raw env =>
      simp only [consumerStep] at stepped
      split at stepped
      · simp at stepped
      · rename_i allowed
        rw [not_or] at allowed
        split at stepped
        · simp at stepped
        · rw [← Option.some.inj stepped]
          exact .requested raw env allowed.2

theorem consumerStep_sound {next : ConsumerState σ} {event : ConsumerEvent σ} (sound : Sound state)
    (stepped : consumerStep state event = some next) : Sound next := by
  cases consumerStep_change stepped with
  | started id topic groupId consumerId free =>
      exact sound.update id ⟨Or.inl rfl, by simp [ClientPhase.assignments], by simp⟩
  | refused id env client found => exact sound.update id (abort_sound client)
  | failed id env client text found idle sends =>
      have requested := sound.request env text
        (commit_consumed (sound.clients id client found) sends)
      exact requested.update id (abort_sound client)
  | answered id env client text response found idle sends returned short =>
      have isSound := sound.clients id client found
      have requested := sound.request env text (commit_consumed isSound sends)
      apply requested.update
      exact (send_sound sound isSound sends returned).grow (grows_request state env _)
  | received id client response found pending =>
      exact sound.receive (sound.clients id client found) pending
  | dropped id client found => exact sound.update id (abort_sound client)
  | removed groupId consumerId => exact sound.remove groupId consumerId
  | requested raw env noCommit =>
      exact sound.request env raw fun commits => absurd commits noCommit

end Steps

/-- At-least-once delivery: every message below a committed offset was in a response that
a consumer of the group has received. -/
theorem committed_offset_delivered {σ : Type} {world : World σ}
    (noGroups : world.broker.consumerGroups = ∅)
    (text : ∀ topic partition, ∀ message ∈ world.broker.messages topic partition,
      PayloadText message)
    {events : List (ConsumerEvent σ)} {state : ConsumerState σ}
    (reached : Transition.run consumerStep ⟨world, ∅, []⟩ events = some state)
    {groupId topic : Bytes} {partition : Int} {offset : Nat}
    (committed : getCommittedOffset state.groups groupId topic partition = some offset) :
    offset ≤ (state.world.broker.messages topic partition).length ∧
      ∀ index message, index < offset →
        (state.world.broker.messages topic partition)[index]? = some message →
        Delivered state.receipts groupId topic partition index message := by
  have start : Sound (⟨world, ∅, []⟩ : ConsumerState σ) := by
    refine ⟨text, ?_, ?_, by simp⟩
    · intro query group found
      simp [ConsumerState.groups, noGroups] at found
    · intro query key committed found
      simp [offsetsOf, ConsumerState.groups, noGroups] at found
  have sound := Transition.run_invariant Sound
    (fun _ _ _ sound stepped => consumerStep_sound sound stepped) start reached
  rw [getCommittedOffset_eq] at committed
  have consumed := sound.offsets groupId ⟨topic, partition⟩ offset committed
  exact ⟨consumed.within, consumed.delivered⟩

def smoothEnvironment : Environment Unit :=
  { link := fun peer _ => (peer, none)
    calls := ⟨some .succeeded, [.succeeded], [.wrote 9], [.succeeded], some .succeeded⟩ }

def consumeOne : List (ConsumerEvent Unit) :=
  [.request (ascii "PRODUCE t 0 a") smoothEnvironment,
    .start 1 (ascii "t") (ascii "g") (ascii "c"),
    .send 1 smoothEnvironment, .receive 1, .send 1 smoothEnvironment, .receive 1,
    .send 1 smoothEnvironment, .receive 1, .send 1 smoothEnvironment]

theorem committed_offset_delivered_one :
    ∃ state, Transition.run consumerStep ⟨freshWorld, ∅, []⟩ consumeOne = some state ∧
      getCommittedOffset state.groups (ascii "g") (ascii "t") 0 = some 1 ∧
      1 ≤ (state.world.broker.messages (ascii "t") 0).length ∧
      ∀ index message, index < 1 →
        (state.world.broker.messages (ascii "t") 0)[index]? = some message →
        Delivered state.receipts (ascii "g") (ascii "t") 0 index message := by
  have evaluated : ((Transition.run consumerStep ⟨freshWorld, ∅, []⟩ consumeOne).bind fun state =>
      getCommittedOffset state.groups (ascii "g") (ascii "t") 0) = some 1 := by
    decide +kernel
  obtain ⟨state, reached, committed⟩ := Option.bind_eq_some_iff.mp evaluated
  refine ⟨state, reached, committed, committed_offset_delivered rfl ?_ reached committed⟩
  intro topic partition message member
  simp [freshWorld, Broker.messages] at member

end KafkaBroker
