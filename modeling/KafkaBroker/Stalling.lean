import KafkaBroker.Completion

/-!
Consumption that never comes to an end. Once what a group has left of a partition outgrows a
frame, no response to its consumers can carry it, and the partition is lost to the group for
good: whoever joins, leaves or produces, nothing of it is received and nothing committed any
more.
-/

namespace KafkaBroker

open ByteText

/-- The client works on the partition at or below this offset, and awaits no messages of it. -/
structure Client.Behind (client : Client) (key : TopicPartition) (limit : Nat) : Prop where
  held : ∀ assignment ∈ client.held, assignment.key = key → assignment.offset ≤ limit
  fetched : ∀ assignment rest consumedAny response,
    client.phase = .fetch assignment rest consumedAny → client.pending = some response →
      assignment.key = key → response = ascii "ERROR"

/-- From the offset on, the partition does not fit a frame, and the group is not beyond it. -/
structure Stuck {σ : Type} (state : ConsumerState σ) (groupId : Bytes) (key : TopicPartition)
    (limit : Nat) : Prop where
  oversized : kMaxPayloadSize <
    joinedSize ((state.world.broker.messages key.topic key.partition).drop limit)
  reported : reportedOffset state.groups groupId key ≤ limit
  clients : ∀ id client, state.clients.find id = some client → client.group = groupId →
    client.Behind key limit

theorem joinedSize_append_le (messages added : List Bytes) (limit : Nat) :
    joinedSize (messages.drop limit) ≤ joinedSize ((messages ++ added).drop limit) := by
  simp only [joinedSize, List.drop_append, List.map_append, List.sum_append, List.length_append]
  omega

theorem joinedSize_drop_mono (messages : List Bytes) {offset limit : Nat} (below : offset ≤ limit) :
    joinedSize (messages.drop limit) ≤ joinedSize (messages.drop offset) := by
  obtain ⟨more, rfl⟩ := Nat.exists_eq_add_of_le below
  rw [← List.drop_drop]
  exact joinedSize_drop_le _ _

/-! One client. -/

section Client

variable {client : Client} {key : TopicPartition} {limit : Nat}

theorem behind_of_held {client : Client} (held : ∀ assignment ∈ client.held,
      assignment.key = key → assignment.offset ≤ limit) (idle : client.pending = none) :
    client.Behind key limit :=
  ⟨held, by simp [idle]⟩

theorem behind_idle {client : Client} (nothing : client.phase.assignments = [])
    (idle : client.pending = none) : client.Behind key limit := by
  refine behind_of_held ?_ idle
  simp [held_of_idle idle, nothing]

theorem behind_next {client : Client} {assignments : List Assignment} {consumedAny : Bool}
    (below : ∀ assignment ∈ assignments, assignment.key = key → assignment.offset ≤ limit) :
    Client.Behind { client with phase := nextAssignment assignments consumedAny, pending := none }
      key limit := by
  refine behind_of_held ?_ rfl
  rw [held_of_idle rfl, nextAssignment_assignments]
  exact below

theorem Client.Behind.receive (behind : client.Behind key limit) {response : Bytes}
    (pending : client.pending = some response) : (client.receive response).1.Behind key limit := by
  have held := behind.held
  cases phase : client.phase with
  | join =>
      refine behind_idle ?_ rfl
      simp only [Client.receive, phase, ClientPhase.receive]
      split <;> rfl
  | poll =>
      simp only [Client.held, phase, pending] at held
      simp only [Client.receive, phase, ClientPhase.receive]
      split
      · exact behind_idle rfl rfl
      · rename_i noError
        rw [if_neg noError] at held
        split
        · exact behind_idle rfl rfl
        · rename_i assignments parsed
          rw [parsed] at held
          exact behind_next held
  | fetch assignment rest consumedAny =>
      simp only [Client.held, phase, pending, ClientPhase.assignments, List.forall_mem_cons] at held
      simp only [Client.receive, phase, ClientPhase.receive]
      split
      · exact behind_idle rfl rfl
      · rename_i noError
        have elsewhere : assignment.key ≠ key := fun same =>
          noError (behind.fetched assignment rest consumedAny response phase pending same)
        split
        · exact behind_next held.2
        · refine behind_of_held ?_ rfl
          simp only [held_of_idle, ClientPhase.assignments, List.forall_mem_cons]
          exact ⟨fun same => absurd same elsewhere, held.2⟩
  | commit assignment rest =>
      simp only [Client.held, phase, pending] at held
      simp only [Client.receive, phase, ClientPhase.receive]
      split
      · exact behind_next held
      · exact behind_idle rfl rfl
  | leave =>
      refine behind_idle ?_ rfl
      simp only [Client.receive, phase, ClientPhase.receive, ClientPhase.assignments]
  | finished =>
      refine behind_idle ?_ rfl
      simp only [Client.receive, phase, ClientPhase.receive, ClientPhase.assignments]

theorem Client.Behind.reads (behind : client.Behind key limit) {response : Bytes}
    (pending : client.pending = some response) :
    groupRead (client.receive response).2 client.group key = [] := by
  cases phase : client.phase with
  | fetch assignment rest consumedAny =>
      simp only [Client.receive, phase]
      split
      · rfl
      · rename_i noError
        have elsewhere : ¬(assignment.topic = key.topic ∧ assignment.partition = key.partition) := by
          rintro ⟨topic, partition⟩
          have same : assignment.key = key := by rw [Assignment.key, topic, partition]
          exact noError (behind.fetched assignment rest consumedAny response phase pending same)
        simp [groupRead, elsewhere]
  | _ => simp [Client.receive, phase, groupRead]

end Client

/-! Steps of the system. -/

section Steps

variable {σ : Type} {state : ConsumerState σ} {groupId : Bytes} {key : TopicPartition} {limit : Nat}

theorem polled_current (members : MembersSound state.groups) (balanced : AllBalanced state.groups)
    {client : Client} (isSound : ClientSound state client) (polls : client.phase = .poll)
    {env : Environment σ} {response : Bytes}
    (returned : (handleRequest env state.world (parseRequest client.pollText)).1 =
      .returned response) :
    ∀ assignment ∈ (client.answer response).held,
      assignment.offset = reportedOffset state.groups client.group assignment.key := by
  have typed := requestText_type (show client.requestText = some client.pollText by
    simp only [Client.requestText, polls])
  rw [polls, ClientPhase.command] at typed
  rcases typed with typed | invalid
  · have answered := answer_poll typed returned
    have stillPolls : (client.answer response).phase = .poll := polls
    obtain ⟨_, _, rows⟩ := polled_held members balanced stillPolls (congrArg some answered)
    have accepted : client.Accepted := by simpa [polls] using isSound.joined
    have sameGroup := poll_group accepted (by simp [typed])
    intro assignment inside
    rw [(rows assignment inside).2.2, sameGroup]
  · have error := answer_invalid invalid returned
    simp [Client.held, polls, error]

theorem polled_behind (members : MembersSound state.groups) (balanced : AllBalanced state.groups)
    (reported : reportedOffset state.groups groupId key ≤ limit) {client : Client}
    (isSound : ClientSound state client) (named : client.group = groupId)
    (polls : client.phase = .poll) {env : Environment σ} {response : Bytes}
    (returned : (handleRequest env state.world (parseRequest client.pollText)).1 =
      .returned response) : (client.answer response).Behind key limit := by
  refine ⟨?_, by simp [polls]⟩
  intro assignment inside isKey
  rw [polled_current members balanced isSound polls returned assignment inside, named, isKey]
  exact reported

theorem fetched_behind (stuck : Stuck state groupId key limit) {client : Client}
    (isSound : ClientSound state client) (behind : client.Behind key limit)
    {assignment : Assignment} {rest : List Assignment} {consumedAny : Bool}
    (fetches : client.phase = .fetch assignment rest consumedAny) {env : Environment σ}
    {response : Bytes}
    (returned : (handleRequest env state.world (parseRequest assignment.fetchText)).1 =
      .returned response)
    (short : response.length ≤ kMaxPayloadSize) : (client.answer response).Behind key limit := by
  have ready := isSound.ready assignment (by simp [fetches, ClientPhase.assignments])
  have held := behind.held
  simp only [Client.held, fetches, ClientPhase.assignments, List.forall_mem_cons] at held
  refine ⟨?_, ?_⟩
  · simpa only [Client.held, Client.answer, fetches, ClientPhase.assignments,
      List.forall_mem_cons] using held
  · intro asked others any answered phase pending isKey
    simp only [Client.answer_phase, fetches, ClientPhase.fetch.injEq] at phase
    obtain ⟨rfl, _, _⟩ := phase
    obtain rfl : response = answered := by simpa using pending
    by_contra noError
    have valid : (parseRequest assignment.fetchText).type ≠ .invalid := fun invalid =>
      noError (answer_invalid invalid returned)
    have typed := (requestText_type (show client.requestText = some assignment.fetchText by
      simp only [Client.requestText, fetches])).resolve_right valid
    rw [fetches] at typed
    obtain ⟨topicEq, partitionEq, offsetEq⟩ := fetch_request ready.topic ready.range valid
    have fetched := answer_fetch typed returned
    have reply := (fetch_reply state.world.broker _).resolve_left (fetched ▸ noError)
    rw [topicEq, partitionEq, offsetEq] at reply
    -- from any offset at or below the limit the response is longer than a frame
    have size := joinedSize_drop_mono
      (state.world.broker.messages assignment.topic assignment.partition) (held.1 isKey)
    have oversized := stuck.oversized
    rw [fetched, reply, joinLines_length] at short
    rw [← isKey] at oversized
    exact absurd (oversized.trans_le (size.trans short)) (Nat.lt_irrefl _)

theorem answered_behind (members : MembersSound state.groups) (balanced : AllBalanced state.groups)
    (stuck : Stuck state groupId key limit) {client : Client} (isSound : ClientSound state client)
    (behind : client.Behind key limit) (named : client.group = groupId)
    (idle : client.pending = none) {env : Environment σ} {text response : Bytes}
    (sends : client.requestText = some text)
    (returned : (handleRequest env state.world (parseRequest text)).1 = .returned response)
    (short : response.length ≤ kMaxPayloadSize) : (client.answer response).Behind key limit := by
  have nothing (phase : client.phase.assignments = [])
      (noPoll : client.phase ≠ .poll) : (client.answer response).Behind key limit := by
    cases isPhase : client.phase with
    | poll => exact absurd isPhase noPoll
    | fetch assignment rest consumedAny => simp [isPhase, ClientPhase.assignments] at phase
    | commit assignment rest => simp [isPhase, ClientPhase.assignments] at phase
    | _ =>
        refine ⟨?_, by simp [isPhase]⟩
        simp [Client.held, Client.answer, isPhase, ClientPhase.assignments]
  cases phase : client.phase with
  | poll =>
      simp only [Client.requestText, phase, Option.some.injEq] at sends
      subst sends
      exact polled_behind members balanced stuck.reported isSound named phase returned
  | fetch assignment rest consumedAny =>
      simp only [Client.requestText, phase, Option.some.injEq] at sends
      subst sends
      exact fetched_behind stuck isSound behind phase returned short
  | commit assignment rest =>
      have held := behind.held
      simp only [held_of_idle idle, phase, ClientPhase.assignments, List.forall_mem_cons] at held
      refine ⟨?_, by simp [phase]⟩
      simpa only [Client.held, Client.answer, phase] using held.2
  | join => exact nothing (by simp [phase, ClientPhase.assignments]) (by simp [phase])
  | leave => exact nothing (by simp [phase, ClientPhase.assignments]) (by simp [phase])
  | finished => simp [Client.requestText, phase] at sends

theorem sent_reported (stuck : Stuck state groupId key limit) {id : Nat} {client : Client}
    (found : state.clients.find id = some client) (isSound : ClientSound state client)
    (idle : client.pending = none) {text : Bytes} (sends : client.requestText = some text)
    (env : Environment σ) :
    reportedOffset (handleRequest env state.world (parseRequest text)).2.broker.consumerGroups
      groupId key ≤ limit := by
  rcases handleRequest_reported env state.world (parseRequest text) groupId key with
    lower | ⟨commits, sameGroup, sameKey, after⟩
  · exact lower.trans stuck.reported
  · have typed := requestText_type sends
    rw [commits] at typed
    cases phase : client.phase with
    | commit assignment rest =>
        have ready := isSound.ready assignment (by simp [phase, ClientPhase.assignments])
        have accepted : client.Accepted := by simpa [phase] using isSound.joined
        simp only [phase, Client.requestText, Option.some.injEq] at sends
        subst sends
        obtain ⟨groupEq, topicEq, partitionEq, offsetEq⟩ :=
          commit_request accepted ready.topic ready.range (by simp [commits])
        have behind := stuck.clients id client found (groupEq.symm.trans sameGroup)
        have held := behind.held
        simp only [held_of_idle idle, phase, ClientPhase.assignments, List.forall_mem_cons] at held
        rw [after, offsetEq]
        exact held.1 (by rw [sameKey, topicEq, partitionEq]; rfl)
    | _ => simp [phase, ClientPhase.command] at typed

theorem Stuck.update (stuck : Stuck state groupId key limit) (id : Nat) {client : Client}
    (behind : client.group = groupId → client.Behind key limit) :
    Stuck (state.update id client) groupId key limit := by
  refine ⟨stuck.oversized, stuck.reported, ?_⟩
  intro other found stored named
  simp only [ConsumerState.update, Table.find_set] at stored
  split at stored
  · rw [Option.some.injEq] at stored
    subst stored
    exact behind named
  · exact stuck.clients other found stored named

theorem Stuck.advance (stuck : Stuck state groupId key limit) (env : Environment σ) (req : Request)
    (reported : reportedOffset (handleRequest env state.world req).2.broker.consumerGroups groupId
      key ≤ limit) :
    Stuck { state with world := (handleRequest env state.world req).2 } groupId key limit := by
  refine ⟨?_, reported, stuck.clients⟩
  obtain ⟨added, longer⟩ := (grows_request state env req).messages key.topic key.partition
  rw [← longer]
  exact stuck.oversized.trans_le (joinedSize_append_le _ added limit)

theorem behind_abort (client : Client) : client.abort.Behind key limit :=
  behind_idle rfl rfl

theorem Stuck.step (sound : Sound state) (balanced : AllBalanced state.groups)
    (stuck : Stuck state groupId key limit) {event : ConsumerEvent σ} {next : ConsumerState σ}
    (stepped : consumerStep state event = some next) :
    Stuck next groupId key limit ∧
      groupRead next.receipts groupId key = groupRead state.receipts groupId key := by
  cases consumerStep_change stepped with
  | started id topic group consumerId free =>
      exact ⟨stuck.update id fun _ => behind_idle rfl rfl, rfl⟩
  | refused id env client found => exact ⟨stuck.update id fun _ => behind_abort client, rfl⟩
  | failed id env client text found idle sends =>
      have reported := sent_reported stuck found (sound.clients id client found) idle sends env
      exact ⟨(stuck.advance env _ reported).update id fun _ => behind_abort client, rfl⟩
  | answered id env client text response found idle sends returned short =>
      have isSound := sound.clients id client found
      have reported := sent_reported stuck found isSound idle sends env
      refine ⟨(stuck.advance env _ reported).update id fun named => ?_, rfl⟩
      exact answered_behind sound.members balanced stuck isSound
        (stuck.clients id client found named) named idle sends returned short
  | received id client response found pending =>
      refine ⟨?_, ?_⟩
      · have behind (named : (client.receive response).1.group = groupId) :
            (client.receive response).1.Behind key limit :=
          (stuck.clients id client found named).receive pending
        have moved := stuck.update id behind
        exact ⟨moved.oversized, moved.reported, moved.clients⟩
      · rw [Workload.groupRead_append]
        by_cases named : client.group = groupId
        · have nothing := (stuck.clients id client found named).reads pending
          rw [← named, nothing, List.append_nil]
        · suffices nothing : groupRead (client.receive response).2 groupId key = [] by
            rw [nothing, List.append_nil]
          simp only [Client.receive]
          split
          · split <;> simp [groupRead, named]
          · rfl
  | dropped id client found => exact ⟨stuck.update id fun _ => behind_abort client, rfl⟩
  | removed group consumerId =>
      refine ⟨⟨stuck.oversized, ?_, stuck.clients⟩, rfl⟩
      refine ((groupStep_reported state.groups (.disconnect group consumerId) groupId
        key).resolve_right ?_).trans stuck.reported
      rintro ⟨_, _, wrong, _⟩
      simp at wrong
  | requested raw env noCommit =>
      refine ⟨stuck.advance env _ ?_, rfl⟩
      refine ((handleRequest_reported env state.world (parseRequest raw) groupId
        key).resolve_right ?_).trans stuck.reported
      exact fun commits => noCommit commits.1

end Steps

/-- Once what lies behind a group's reach in a partition outgrows a frame, no consumer of the
group receives anything of it any more, and the committed offset stays where it is or is lost. -/
theorem consumer_stalls {σ : Type} {world : World σ} (noGroups : world.broker.consumerGroups = ∅)
    (text : ∀ topic partition, ∀ message ∈ world.broker.messages topic partition,
      PayloadText message)
    {earlier : List (ConsumerEvent σ)} {state : ConsumerState σ}
    (reached : Transition.run consumerStep ⟨world, ∅, []⟩ earlier = some state) {groupId : Bytes}
    {key : TopicPartition} {limit : Nat} (stuck : Stuck state groupId key limit)
    {events : List (ConsumerEvent σ)} {final : ConsumerState σ}
    (finished : Transition.run consumerStep state events = some final) :
    groupRead final.receipts groupId key = groupRead state.receipts groupId key ∧
      Stuck final groupId key limit := by
  obtain ⟨sound, balanced⟩ := Transition.run_invariant
    (fun state : ConsumerState σ => Sound state ∧ AllBalanced state.groups)
    (fun _ _ _ invariant stepped => ⟨consumerStep_sound invariant.1 stepped,
      consumerStep_balanced invariant.2 stepped⟩)
    ⟨sound_start noGroups text, (orderly_start noGroups).balanced⟩ reached
  have invariant := Transition.run_invariant
    (fun next : ConsumerState σ => Sound next ∧ AllBalanced next.groups ∧
      Stuck next groupId key limit ∧
      groupRead next.receipts groupId key = groupRead state.receipts groupId key)
    ?_ ⟨sound, balanced, stuck, rfl⟩ finished
  · exact ⟨invariant.2.2.2, invariant.2.2.1⟩
  · rintro before event after ⟨sound, balanced, stuck, same⟩ stepped
    obtain ⟨still, unread⟩ := stuck.step sound balanced stepped
    exact ⟨consumerStep_sound sound stepped, consumerStep_balanced balanced stepped, still,
      unread.trans same⟩

def twoMessages (size : Nat) : List Bytes := [List.replicate size 97, List.replicate size 97]

theorem twoMessages_text {size : Nat} (filled : 0 < size) :
    ∀ message ∈ twoMessages size, PayloadText message := by
  intro message listed
  obtain rfl : message = List.replicate size 97 := by simpa [twoMessages] using listed
  refine ⟨fun empty => ?_, fun member => ?_⟩
  · rw [List.replicate_eq_nil_iff] at empty
    omega
  · exact absurd (List.eq_of_mem_replicate member) (by decide)

def filledWorld (messages : List Bytes) : World Unit :=
  ⟨{ topics := (∅ : Table Bytes Topic).set (ascii "t")
      ⟨ascii "t", [⟨0, messages⟩, ⟨1, []⟩, ⟨2, []⟩]⟩ }, ∅, ()⟩

theorem filledWorld_messages (messages : List Bytes) (topic : Bytes) (partition : Int) :
    (filledWorld messages).broker.messages topic partition ⊆ messages := by
  simp only [filledWorld, Broker.messages, Table.find_set, Table.find_empty]
  by_cases named : topic = ascii "t"
  · simp only [if_pos named, Topic.messages]
    split
    · rcases partition.toNat with _ | _ | _ | _ <;> simp
    · exact List.nil_subset messages
  · simp only [if_neg named]
    exact List.nil_subset messages

def joinStuck : List (ConsumerEvent Unit) :=
  [.start 1 (ascii "t") (ascii "g") (ascii "c"), .send 1 smoothEnvironment, .receive 1,
    .send 1 smoothEnvironment, .receive 1, .send 1 smoothEnvironment]

/-- Each of the messages fits a frame, but not both. -/
theorem consumer_stalls_two : ∃ final,
    Transition.run consumerStep ⟨filledWorld (twoMessages 40000), ∅, []⟩ joinStuck = some final ∧
      groupRead final.receipts (ascii "g") ⟨ascii "t", 0⟩ = [] ∧
      Stuck final (ascii "g") ⟨ascii "t", 0⟩ 0 := by
  have text : ∀ topic partition, ∀ message ∈
      (filledWorld (twoMessages 40000)).broker.messages topic partition, PayloadText message :=
    fun topic partition message inside => twoMessages_text (by decide) message
      (filledWorld_messages _ topic partition inside)
  have size (size : Nat) : joinedSize (twoMessages size) = 2 * size + 1 := by
    simp [joinedSize, twoMessages]
    omega
  have stuck : Stuck (⟨filledWorld (twoMessages 40000), ∅, []⟩ : ConsumerState Unit) (ascii "g")
      ⟨ascii "t", 0⟩ 0 := by
    refine ⟨?_, Nat.le_refl _, fun id client found => ?_⟩
    · change kMaxPayloadSize < joinedSize (twoMessages 40000)
      rw [size]
      decide
    · simp at found
  have runs : (Transition.run consumerStep ⟨filledWorld (twoMessages 40000), ∅, []⟩
      joinStuck).isSome := by
    decide +kernel
  obtain ⟨final, finished⟩ := Option.isSome_iff_exists.mp runs
  have started : Transition.run consumerStep ⟨filledWorld (twoMessages 40000), ∅, []⟩ [] =
      some ⟨filledWorld (twoMessages 40000), ∅, []⟩ := rfl
  exact ⟨final, finished, consumer_stalls rfl text started stuck finished⟩

end KafkaBroker
