import KafkaBroker.Consumer
import KafkaBroker.Rendering

/-!
Committed progress. A client commits what it has fetched from where its poll told it to
start, so a committed offset does not decrease as long as no partition is handed to a
client while another one still works on it.
-/

namespace KafkaBroker

open ByteText

/-! What a request does to the committed offsets. -/

section Requests

variable {σ : Type}

theorem reportedOffset_of_find_eq_none {groups : ConsumerGroups} {groupId : Bytes}
    {key : TopicPartition} (absent : (offsetsOf groups groupId).find key = none) :
    reportedOffset groups groupId key = 0 := by
  simp [reportedOffset, absent]

theorem groupStep_reported (groups : ConsumerGroups) (event : GroupEvent) (groupId : Bytes)
    (key : TopicPartition) :
    reportedOffset (groupStep groups event).2 groupId key ≤ reportedOffset groups groupId key ∨
      ∃ partitionCount? req, event = .commit partitionCount? req ∧ req.groupId = groupId ∧
        key = ⟨req.topic, req.partition⟩ ∧
        reportedOffset (groupStep groups event).2 groupId key = req.offset := by
  cases found : (offsetsOf (groupStep groups event).2 groupId).find key with
  | none =>
      left
      rw [reportedOffset_of_find_eq_none found]
      exact Nat.zero_le _
  | some offset =>
      have reported : reportedOffset (groupStep groups event).2 groupId key = offset := by
        simp [reportedOffset, found]
      rw [reported]
      rcases groupStep_offset event found with old | ⟨partitionCount?, req, isCommit, same, named, rfl⟩
      · left
        simp [reportedOffset, old]
      · exact Or.inr ⟨partitionCount?, req, isCommit, same, named, rfl⟩

theorem handleRequest_reported (env : Environment σ) (world : World σ) (req : Request)
    (groupId : Bytes) (key : TopicPartition) :
    reportedOffset (handleRequest env world req).2.broker.consumerGroups groupId key ≤
        reportedOffset world.broker.consumerGroups groupId key ∨
      req.type = .commit ∧ req.groupId = groupId ∧
        key = ⟨req.topic, req.partition⟩ ∧
        reportedOffset (handleRequest env world req).2.broker.consumerGroups groupId key =
          req.offset := by
  obtain ⟨partitionCount?, effect⟩ := handleRequest_groups env world req
  split at effect
  · rw [effect]
    exact Or.inl (Nat.le_refl _)
  · rename_i event isEvent
    rw [effect.1]
    refine (groupStep_reported world.broker.consumerGroups event groupId key).imp_right ?_
    rintro ⟨_, committed, rfl, same, named, reported⟩
    cases typed : req.type with
    | commit =>
        simp only [groupEvent?, typed, Option.some.injEq, GroupEvent.commit.injEq] at isEvent
        rw [isEvent.2]
        exact ⟨rfl, same, named, reported⟩
    | _ => simp [groupEvent?, typed] at isEvent

end Requests

/-! What a client works on. -/

def Assignment.key (assignment : Assignment) : TopicPartition :=
  ⟨assignment.topic, assignment.partition⟩

/-- The assignments of the last poll that the client may still commit. -/
def Client.held (client : Client) : List Assignment :=
  match client.phase, client.pending with
  | .poll, some response =>
      if response = ascii "ERROR" then [] else (parseAssignments response).getD []
  | .commit _ rest, some _ => rest
  | phase, _ => phase.assignments

def Client.unread (client : Client) : List Assignment :=
  match client.phase with
  | .commit _ rest => rest
  | _ => client.held

/-- The client works on each partition once, from its committed offset or behind it. -/
structure Holder (groups : ConsumerGroups) (client : Client) : Prop where
  joined : client.phase = .join ∨ client.phase = .finished ∨ client.Accepted
  joining : client.phase = .join → client.pending = some (ascii "OK") → client.Accepted
  short : ∀ response, client.pending = some response → response.length ≤ kMaxPayloadSize
  readable : ∀ assignment ∈ client.held, Word assignment.topic ∧ InRange assignment.partition
  current : ∀ assignment ∈ client.held,
    reportedOffset groups client.group assignment.key ≤ assignment.offset
  small : ∀ assignment ∈ client.unread, assignment.offset < 2 ^ 63
  distinct : (client.held.map Assignment.key).Nodup

theorem Holder.lower {before after : ConsumerGroups} {client : Client}
    (holder : Holder before client)
    (lower : ∀ assignment ∈ client.held, reportedOffset after client.group assignment.key ≤
      reportedOffset before client.group assignment.key) : Holder after client :=
  ⟨holder.joined, holder.joining, holder.short, holder.readable,
    fun assignment member => (lower assignment member).trans (holder.current assignment member),
    holder.small, holder.distinct⟩

theorem holder_idle {groups : ConsumerGroups} {client : Client}
    (joined : client.phase = .join ∨ client.phase = .finished ∨ client.Accepted)
    (idle : client.phase.assignments = []) (quiet : client.pending = none) :
    Holder groups client := by
  have held : client.held = [] := by
    unfold Client.held
    rw [quiet]
    cases phase : client.phase <;> simp_all [ClientPhase.assignments]
  have unread : client.unread = [] := by
    unfold Client.unread
    cases phase : client.phase <;> simp_all [ClientPhase.assignments]
  refine ⟨joined, ?_, ?_, ?_, ?_, ?_, ?_⟩
  · simp [quiet]
  · simp [quiet]
  · simp [held]
  · simp [held]
  · simp [unread]
  · simp [held]

theorem holder_abort (groups : ConsumerGroups) (client : Client) : Holder groups client.abort :=
  holder_idle (Or.inr (Or.inl rfl)) rfl rfl

/-! Receiving a response. -/

theorem held_of_idle {client : Client} (quiet : client.pending = none) :
    client.held = client.phase.assignments := by
  unfold Client.held
  rw [quiet]
  cases client.phase <;> rfl

theorem nextAssignment_assignments (assignments : List Assignment) (consumedAny : Bool) :
    (nextAssignment assignments consumedAny).assignments = assignments := by
  cases assignments with
  | nil => cases consumedAny <;> rfl
  | cons first rest => rfl

theorem nextAssignment_unread {client : Client} {assignments : List Assignment}
    {consumedAny : Bool} (moved : client.phase = nextAssignment assignments consumedAny)
    (quiet : client.pending = none) : client.unread = assignments := by
  have held : client.held = assignments := by
    rw [held_of_idle quiet, moved, nextAssignment_assignments]
  unfold Client.unread
  split
  · rename_i commits
    cases assignments with
    | nil => cases consumedAny <;> simp [moved, nextAssignment] at commits
    | cons first rest => simp [moved, nextAssignment] at commits
  · exact held

theorem countMessages_le (response : Bytes) : countMessages response ≤ response.length + 1 := by
  unfold countMessages
  split
  · omega
  · exact Nat.add_le_add_right List.count_le_length 1

theorem advance_offset {assignment : Assignment} {response : Bytes}
    (small : assignment.offset < 2 ^ 63) (short : response.length ≤ kMaxPayloadSize) :
    assignment.offset ≤ (assignment.advance (countMessages response)).offset := by
  have count := countMessages_le response
  have limit : kMaxPayloadSize = 65536 := rfl
  have bound : assignment.offset + countMessages response < 2 ^ 64 := by omega
  simp only [Assignment.advance, Nat.mod_eq_of_lt bound]
  exact Nat.le_add_right _ _

section Receive

variable {groups : ConsumerGroups} {client : Client} {response : Bytes}

theorem Holder.continue (holder : Holder groups client) (accepted : client.Accepted)
    (assignments : List Assignment) (part : assignments.Sublist client.held)
    (unread : assignments ⊆ client.unread) (consumedAny : Bool) :
    Holder groups { client with phase := nextAssignment assignments consumedAny, pending := none } ∧
      (Client.held { client with
        phase := nextAssignment assignments consumedAny, pending := none }).Sublist
          client.held := by
  have held : Client.held { client with
      phase := nextAssignment assignments consumedAny, pending := none } = assignments := by
    rw [held_of_idle rfl]
    exact nextAssignment_assignments assignments consumedAny
  refine ⟨⟨Or.inr (Or.inr accepted), by simp, by simp, ?_, ?_, ?_, ?_⟩, ?_⟩
  · rw [held]
    exact fun assignment member => holder.readable assignment (part.subset member)
  · rw [held]
    exact fun assignment member => holder.current assignment (part.subset member)
  · rw [nextAssignment_unread rfl rfl]
    exact fun assignment member => holder.small assignment (unread member)
  · rw [held]
    exact holder.distinct.sublist (part.map _)
  · rw [held]
    exact part

theorem Holder.fetched (holder : Holder groups client) (accepted : client.Accepted)
    {assignment : Assignment} {rest : List Assignment} (held : client.held = assignment :: rest)
    (unread : client.unread = assignment :: rest) (short : response.length ≤ kMaxPayloadSize) :
    Holder groups { client with
        phase := .commit (assignment.advance (countMessages response)) rest, pending := none } ∧
      (Client.held { client with
        phase := .commit (assignment.advance (countMessages response)) rest
        pending := none }).map Assignment.key = client.held.map Assignment.key := by
  have readable := holder.readable
  have current := holder.current
  have small := holder.small
  have distinct := holder.distinct
  rw [held] at readable current distinct
  rw [unread] at small
  rw [List.forall_mem_cons] at readable current small
  have further := advance_offset small.1 short
  rw [held]
  refine ⟨⟨Or.inr (Or.inr accepted), by simp, by simp, ?_, ?_, small.2, distinct⟩, rfl⟩
  · exact List.forall_mem_cons.mpr readable
  · exact List.forall_mem_cons.mpr ⟨current.1.trans further, current.2⟩

theorem Holder.receive (holder : Holder groups client) (pending : client.pending = some response) :
    Holder groups (client.receive response).1 ∧
      ((client.receive response).1.held.map Assignment.key).Sublist
        (client.held.map Assignment.key) := by
  have short := holder.short response pending
  cases phase : client.phase with
  | join =>
      simp only [Client.receive, phase, ClientPhase.receive]
      split
      · rename_i answered
        have accepted := holder.joining phase (answered ▸ pending)
        exact ⟨holder_idle (Or.inr (Or.inr accepted)) rfl rfl, List.nil_sublist _⟩
      · exact ⟨holder_abort groups client, List.nil_sublist _⟩
  | poll =>
      have accepted : client.Accepted := by simpa [phase] using holder.joined
      simp only [Client.receive, phase, ClientPhase.receive]
      split
      · exact ⟨holder_idle (Or.inr (Or.inr accepted)) rfl rfl, List.nil_sublist _⟩
      · rename_i noError
        split
        · exact ⟨holder_abort groups client, List.nil_sublist _⟩
        · rename_i assignments parsed
          have held : client.held = assignments := by
            simp [Client.held, phase, pending, noError, parsed]
          have unread : client.unread = assignments := by
            simp [Client.unread, phase, held]
          obtain ⟨continued, part⟩ := holder.continue accepted assignments (by rw [held])
            (by simp [unread]) false
          exact ⟨continued, part.map _⟩
  | fetch assignment rest consumedAny =>
      have accepted : client.Accepted := by simpa [phase] using holder.joined
      have held : client.held = assignment :: rest := by
        simp [Client.held, phase, ClientPhase.assignments]
      have unread : client.unread = assignment :: rest := by
        simp [Client.unread, phase, held]
      simp only [Client.receive, phase, ClientPhase.receive]
      split
      · exact ⟨holder_idle (Or.inr (Or.inr accepted)) rfl rfl, List.nil_sublist _⟩
      · split
        · obtain ⟨continued, part⟩ := holder.continue accepted rest (by simp [held])
            (by simp [unread]) consumedAny
          exact ⟨continued, part.map _⟩
        · obtain ⟨fetched, same⟩ := holder.fetched accepted held unread short
          exact ⟨fetched, same ▸ List.Sublist.refl _⟩
  | commit assignment rest =>
      have accepted : client.Accepted := by simpa [phase] using holder.joined
      have held : client.held = rest := by simp [Client.held, phase, pending]
      have unread : client.unread = rest := by simp [Client.unread, phase]
      simp only [Client.receive, phase, ClientPhase.receive]
      split
      · obtain ⟨continued, part⟩ := holder.continue accepted rest (by rw [held])
          (by simp [unread]) true
        exact ⟨continued, part.map _⟩
      · exact ⟨holder_idle (Or.inr (Or.inr accepted)) rfl rfl, List.nil_sublist _⟩
  | leave =>
      simp only [Client.receive, phase, ClientPhase.receive]
      exact ⟨holder_abort groups client, List.nil_sublist _⟩
  | finished =>
      simp only [Client.receive, phase, ClientPhase.receive]
      exact ⟨holder_abort groups client, List.nil_sublist _⟩

end Receive

/-! The invariant. -/

section Invariant

variable {σ : Type} {state next : ConsumerState σ}

/-- No two clients of a group work on the same partition. -/
structure Orderly (state : ConsumerState σ) : Prop where
  balanced : AllBalanced state.groups
  members : MembersSound state.groups
  bounded : ∀ groupId key, reportedOffset state.groups groupId key < 2 ^ 63
  holders : ∀ id client, state.clients.find id = some client → Holder state.groups client
  apart : ∀ first second left right, first ≠ second → state.clients.find first = some left →
    state.clients.find second = some right → left.group = right.group →
    (left.held.map Assignment.key).Disjoint (right.held.map Assignment.key)

theorem Orderly.change (orderly : Orderly state) {id : Nat} {client : Client}
    (clients : next.clients = state.clients.set id client) (balanced : AllBalanced next.groups)
    (members : MembersSound next.groups)
    (bounded : ∀ groupId key, reportedOffset next.groups groupId key < 2 ^ 63)
    (own : Holder next.groups client)
    (lower : ∀ other holder, other ≠ id → state.clients.find other = some holder →
      ∀ assignment ∈ holder.held, reportedOffset next.groups holder.group assignment.key ≤
        reportedOffset state.groups holder.group assignment.key)
    (separate : ∀ other holder, other ≠ id → state.clients.find other = some holder →
      holder.group = client.group →
      (client.held.map Assignment.key).Disjoint (holder.held.map Assignment.key)) :
    Orderly next := by
  refine ⟨balanced, members, bounded, ?_, ?_⟩
  · intro query found stored
    rw [clients, Table.find_set] at stored
    split at stored
    · exact Option.some.inj stored ▸ own
    · rename_i other
      exact (orderly.holders query found stored).lower (lower query found other stored)
  · intro first second left right different leftStored rightStored sameGroup
    rw [clients, Table.find_set] at leftStored rightStored
    split at leftStored
    · rename_i isFirst
      have other : second ≠ id := isFirst ▸ different.symm
      rw [if_neg other] at rightStored
      rw [← Option.some.inj leftStored] at sameGroup ⊢
      exact separate second right other rightStored sameGroup.symm
    · rename_i other
      split at rightStored
      · rw [← Option.some.inj rightStored] at sameGroup ⊢
        exact (separate first left other leftStored sameGroup).symm
      · exact orderly.apart first second left right different leftStored rightStored sameGroup

theorem Orderly.narrow (orderly : Orderly state) {id : Nat} {old : Client} (client : Client)
    (found : state.clients.find id = some old) (sameGroup : client.group = old.group)
    (part : (client.held.map Assignment.key) ⊆ (old.held.map Assignment.key)) :
    ∀ other holder, other ≠ id → state.clients.find other = some holder →
      holder.group = client.group →
      (client.held.map Assignment.key).Disjoint (holder.held.map Assignment.key) := by
  intro other holder different stored same key member
  exact orderly.apart id other old holder different.symm found stored
    (same.trans sameGroup).symm (part member)

theorem Orderly.groups (orderly : Orderly state) (clients : next.clients = state.clients)
    (balanced : AllBalanced next.groups) (members : MembersSound next.groups)
    (lower : ∀ groupId key, reportedOffset next.groups groupId key ≤
      reportedOffset state.groups groupId key) : Orderly next := by
  refine ⟨balanced, members, ?_, ?_, ?_⟩
  · exact fun groupId key => (lower groupId key).trans_lt (orderly.bounded groupId key)
  · intro id client stored
    rw [clients] at stored
    exact (orderly.holders id client stored).lower fun _ _ => lower _ _
  · rw [clients]
    exact orderly.apart

theorem Orderly.quiet (orderly : Orderly state) {id : Nat} {client : Client}
    (clients : next.clients = state.clients.set id client) (groups : next.groups = state.groups)
    (own : Holder state.groups client)
    (separate : ∀ other holder, other ≠ id → state.clients.find other = some holder →
      holder.group = client.group →
      (client.held.map Assignment.key).Disjoint (holder.held.map Assignment.key)) :
    Orderly next := by
  apply orderly.change clients
  · exact groups ▸ orderly.balanced
  · exact groups ▸ orderly.members
  · exact groups ▸ orderly.bounded
  · exact groups ▸ own
  · intro other holder _ _ assignment _
    rw [groups]
  · exact separate

/-! Sending a request. -/

theorem handleRequest_bounded {world : World σ}
    (bounded : ∀ groupId key, reportedOffset world.broker.consumerGroups groupId key < 2 ^ 63)
    (env : Environment σ) (raw : Bytes) (groupId : Bytes) (key : TopicPartition) :
    reportedOffset (handleRequest env world (parseRequest raw)).2.broker.consumerGroups groupId key <
      2 ^ 63 := by
  rcases handleRequest_reported env world (parseRequest raw) groupId key with
    lower | ⟨commits, _, _, same⟩
  · exact lower.trans_lt (bounded groupId key)
  · have accepted : (parseRequest raw).type ≠ .invalid := by simp [commits]
    have limit := (parseRequest_wellFormed accepted).offset
    rw [commits] at limit
    rw [same]
    exact limit

theorem client_commit {client : Client} {groups : ConsumerGroups} (holder : Holder groups client)
    (idle : client.pending = none) {text : Bytes} (sends : client.requestText = some text)
    (commits : (parseRequest text).type = .commit) :
    ∃ assignment rest, client.phase = .commit assignment rest ∧ assignment ∈ client.held ∧
      (parseRequest text).groupId = client.group ∧
      TopicPartition.mk (parseRequest text).topic (parseRequest text).partition = assignment.key ∧
      (parseRequest text).offset = assignment.offset := by
  have typed := requestText_type sends
  rw [commits] at typed
  cases phase : client.phase with
  | commit assignment rest =>
      have accepted : client.Accepted := by simpa [phase] using holder.joined
      have held : assignment ∈ client.held := by
        simp [held_of_idle idle, phase, ClientPhase.assignments]
      obtain ⟨topic, range⟩ := holder.readable assignment held
      simp only [phase, Client.requestText, Option.some.injEq] at sends
      subst sends
      obtain ⟨groupEq, topicEq, partitionEq, offsetEq⟩ :=
        commit_request accepted topic range (by simp [commits])
      rw [topicEq, partitionEq]
      exact ⟨assignment, rest, rfl, held, groupEq, rfl, offsetEq⟩
  | _ => simp [phase, ClientPhase.command] at typed

theorem client_reported {client : Client} {groups : ConsumerGroups} (holder : Holder groups client)
    (idle : client.pending = none) {text : Bytes} (sends : client.requestText = some text)
    (env : Environment σ) (world : World σ) (groupId : Bytes) (key : TopicPartition) :
    reportedOffset (handleRequest env world (parseRequest text)).2.broker.consumerGroups groupId
        key ≤ reportedOffset world.broker.consumerGroups groupId key ∨
      ∃ assignment rest, client.phase = .commit assignment rest ∧ assignment ∈ client.held ∧
        client.group = groupId ∧ key = assignment.key := by
  refine (handleRequest_reported env world (parseRequest text) groupId key).imp_right ?_
  rintro ⟨commits, rfl, rfl, _⟩
  obtain ⟨assignment, rest, phase, held, sameGroup, sameKey, _⟩ :=
    client_commit holder idle sends commits
  exact ⟨assignment, rest, phase, held, sameGroup.symm, sameKey⟩

def pollKeys (groups : ConsumerGroups) (req : Request) : List TopicPartition :=
  (((groups.find req.groupId).bind fun group => group.members.find req.consumerId).map
    GroupMember.assignments).getD []

theorem polled_held {groups : ConsumerGroups} (members : MembersSound groups)
    (balanced : AllBalanced groups) {client : Client} (polling : client.phase = .poll)
    {req : Request} (answered : client.pending = some (groupPoll groups req)) :
    client.held.map Assignment.key ⊆ pollKeys groups req ∧
      (client.held.map Assignment.key).Nodup ∧
      ∀ assignment ∈ client.held, Word assignment.topic ∧ InRange assignment.partition ∧
        assignment.offset = reportedOffset groups req.groupId assignment.key := by
  by_cases noError : groupPoll groups req = ascii "ERROR"
  · have held : client.held = [] := by simp [Client.held, polling, answered, noError]
    simp [held]
  cases parsed : parseAssignments (groupPoll groups req) with
  | none =>
      have held : client.held = [] := by simp [Client.held, polling, answered, noError, parsed]
      simp [held]
  | some assignments =>
      obtain ⟨group, member, stored, found, wellFormed, rfl⟩ :=
        poll_assignments members noError parsed
      have held : client.held = member.assignments.map (pollAssignment groups req.groupId) := by
        simp [Client.held, polling, answered, noError, parsed]
      have keys : client.held.map Assignment.key = member.assignments := by
        rw [held, List.map_map]
        exact List.map_id' member.assignments
      have listed : pollKeys groups req = member.assignments := by
        simp [pollKeys, stored, found]
      rw [keys, listed]
      refine ⟨List.Subset.refl _, (balanced _ _ stored).nodup _ _ found, ?_⟩
      rw [held]
      intro assignment inside
      obtain ⟨key, known, rfl⟩ := List.mem_map.mp inside
      exact ⟨(wellFormed key known).1, (wellFormed key known).2, rfl⟩

def Client.answer (client : Client) (response : Bytes) : Client :=
  { client with pending := some response }

@[simp] theorem Client.answer_phase (client : Client) (response : Bytes) :
    (client.answer response).phase = client.phase := by
  rfl

@[simp] theorem Client.answer_pending (client : Client) (response : Bytes) :
    (client.answer response).pending = some response := by
  rfl

section Answers

variable {client : Client} {text response : Bytes} {env : Environment σ}

theorem Holder.answer {groups : ConsumerGroups} (holder : Holder groups client)
    (sends : client.requestText = some text)
    (returned : (handleRequest env state.world (parseRequest text)).1 = .returned response)
    (short : response.length ≤ kMaxPayloadSize) {after : ConsumerGroups}
    (readable : ∀ assignment ∈ (client.answer response).held,
      Word assignment.topic ∧ InRange assignment.partition)
    (current : ∀ assignment ∈ (client.answer response).held,
      reportedOffset after client.group assignment.key ≤ assignment.offset)
    (small : ∀ assignment ∈ (client.answer response).unread, assignment.offset < 2 ^ 63)
    (distinct : ((client.answer response).held.map Assignment.key).Nodup) :
    Holder after (client.answer response) := by
  refine ⟨holder.joined, ?_, ?_, readable, current, small, distinct⟩
  · intro joining answered
    have phase : client.phase = .join := joining
    have refused : ascii "ERROR" ≠ ascii "OK" := by decide
    have typed := requestText_type sends
    simp only [phase, Client.requestText, Option.some.injEq, ClientPhase.command] at sends typed
    subst sends
    refine typed.resolve_right fun invalid => ?_
    exact refused ((answer_invalid invalid returned).symm.trans (Option.some.inj answered))
  · intro other pending
    exact Option.some.inj pending ▸ short

theorem Holder.answer_nothing {groups : ConsumerGroups} (holder : Holder groups client)
    (sends : client.requestText = some text)
    (returned : (handleRequest env state.world (parseRequest text)).1 = .returned response)
    (short : response.length ≤ kMaxPayloadSize) (after : ConsumerGroups)
    (held : (client.answer response).held = [])
    (noCommit : ∀ assignment rest, client.phase ≠ .commit assignment rest) :
    Holder after (client.answer response) := by
  have unread : (client.answer response).unread = [] := by
    unfold Client.unread
    split
    · rename_i commits
      exact absurd commits (noCommit _ _)
    · exact held
  refine holder.answer sends returned short ?_ ?_ ?_ ?_
  · simp [held]
  · simp [held]
  · simp [unread]
  · simp [held]

theorem polled_holder (orderly : Orderly state) (holder : Holder state.groups client)
    (idle : client.pending = none) (polling : client.phase = .poll)
    (sends : client.requestText = some text)
    (returned : (handleRequest env state.world (parseRequest text)).1 = .returned response)
    (short : response.length ≤ kMaxPayloadSize) :
    Holder (handleRequest env state.world (parseRequest text)).2.broker.consumerGroups
        (client.answer response) ∧
      (client.answer response).held.map Assignment.key ⊆
        pollKeys state.groups (parseRequest client.pollText) := by
  have typed := requestText_type sends
  have accepted : client.Accepted := by simpa [polling] using holder.joined
  have isText : text = client.pollText := by
    simpa [Client.requestText, polling, eq_comm] using sends
  have unread : (client.answer response).unread = (client.answer response).held := by
    simp [Client.unread, polling]
  have lower (key : TopicPartition) :
      reportedOffset (handleRequest env state.world (parseRequest text)).2.broker.consumerGroups
        client.group key ≤ reportedOffset state.groups client.group key := by
    refine (client_reported holder idle sends env state.world client.group key).resolve_right ?_
    rintro ⟨_, _, commits, _⟩
    simp [polling] at commits
  rw [polling, ClientPhase.command] at typed
  rcases typed with typed | invalid
  · have answered := answer_poll typed returned
    have stillPolling : (client.answer response).phase = .poll := polling
    have pending : (client.answer response).pending =
        some (groupPoll state.groups (parseRequest text)) := by
      rw [client.answer_pending, answered]
      rfl
    obtain ⟨listed, distinct, rows⟩ :=
      polled_held orderly.members orderly.balanced stillPolling pending
    have sameGroup : (parseRequest text).groupId = client.group := by
      rw [isText]
      exact poll_group accepted (by simp [← isText, typed])
    refine ⟨holder.answer sends returned short ?_ ?_ ?_ distinct, isText ▸ listed⟩
    · exact fun assignment member => ⟨(rows assignment member).1, (rows assignment member).2.1⟩
    · intro assignment member
      rw [(rows assignment member).2.2, sameGroup]
      exact lower assignment.key
    · rw [unread]
      intro assignment member
      rw [(rows assignment member).2.2]
      exact orderly.bounded _ _
  · have error := answer_invalid invalid returned
    have held : (client.answer response).held = [] := by
      simp [Client.held, polling, error]
    exact ⟨holder.answer_nothing sends returned short _ held (by simp [polling]), by simp [held]⟩

theorem answered_holder (orderly : Orderly state) (holder : Holder state.groups client)
    (idle : client.pending = none) (sends : client.requestText = some text)
    (returned : (handleRequest env state.world (parseRequest text)).1 = .returned response)
    (short : response.length ≤ kMaxPayloadSize) :
    Holder (handleRequest env state.world (parseRequest text)).2.broker.consumerGroups
        (client.answer response) ∧
      ((client.answer response).held.map Assignment.key ⊆ client.held.map Assignment.key ∨
        client.phase = .poll ∧ (client.answer response).held.map Assignment.key ⊆
          pollKeys state.groups (parseRequest client.pollText)) := by
  have reported := client_reported holder idle sends env state.world client.group
  have before := held_of_idle idle
  cases phase : client.phase with
  | poll =>
      obtain ⟨polled, listed⟩ := polled_holder orderly holder idle phase sends returned short
      exact ⟨polled, Or.inr ⟨rfl, listed⟩⟩
  | fetch assignment rest consumedAny =>
      have held : (client.answer response).held = client.held := by
        rw [before]
        simp [Client.held, phase]
      have unread : (client.answer response).unread = client.unread := by
        simp [Client.unread, phase, held]
      refine ⟨holder.answer sends returned short ?_ ?_ ?_ ?_, ?_⟩
      · exact held ▸ holder.readable
      · rw [held]
        intro other member
        refine le_trans ((reported other.key).resolve_right ?_) (holder.current other member)
        rintro ⟨_, _, commits, _⟩
        simp [phase] at commits
      · exact unread ▸ holder.small
      · exact held ▸ holder.distinct
      · exact Or.inl (held ▸ List.Subset.refl _)
  | commit assignment rest =>
      rw [phase, ClientPhase.assignments] at before
      have held : (client.answer response).held = rest := by
        simp [Client.held, phase]
      have unread : (client.answer response).unread = client.unread := by
        simp [Client.unread, phase]
      have distinct := holder.distinct
      rw [before, List.map_cons, List.nodup_cons] at distinct
      have part (other : Assignment) (member : other ∈ rest) : other ∈ client.held := by
        simp [before, member]
      refine ⟨holder.answer sends returned short ?_ ?_ ?_ ?_, ?_⟩
      · rw [held]
        exact fun other member => holder.readable other (part other member)
      · rw [held]
        intro other member
        refine le_trans ((reported other.key).resolve_right ?_)
          (holder.current other (part other member))
        -- the one partition that is committed is not among the rest
        rintro ⟨committed, _, commits, _, _, same⟩
        rw [phase, ClientPhase.commit.injEq] at commits
        rw [← commits.1] at same
        exact distinct.1 (same ▸ List.mem_map_of_mem member)
      · exact unread ▸ holder.small
      · exact held ▸ distinct.2
      · rw [held, before]
        exact Or.inl (List.subset_cons_self _ _)
  | join =>
      have held : (client.answer response).held = [] := by
        simp [Client.held, phase, ClientPhase.assignments]
      refine ⟨holder.answer_nothing sends returned short _ held (by simp [phase]), ?_⟩
      simp [held]
  | leave =>
      have held : (client.answer response).held = [] := by
        simp [Client.held, phase, ClientPhase.assignments]
      refine ⟨holder.answer_nothing sends returned short _ held (by simp [phase]), ?_⟩
      simp [held]
  | finished => simp [Client.requestText, phase] at sends

theorem others_lower (orderly : Orderly state) {id : Nat}
    (found : state.clients.find id = some client) (idle : client.pending = none)
    (sends : client.requestText = some text) {other : Nat} {holder : Client} (different : other ≠ id)
    (stored : state.clients.find other = some holder) {assignment : Assignment}
    (held : assignment ∈ holder.held) :
    reportedOffset (handleRequest env state.world (parseRequest text)).2.broker.consumerGroups
        holder.group assignment.key ≤ reportedOffset state.groups holder.group assignment.key := by
  refine (client_reported (orderly.holders id client found) idle sends env state.world
    holder.group assignment.key).resolve_right ?_
  rintro ⟨committed, rest, _, own, sameGroup, same⟩
  exact orderly.apart id other client holder different.symm found stored sameGroup
    (List.mem_map_of_mem own) (same ▸ List.mem_map_of_mem held)

theorem Orderly.served (orderly : Orderly state) {id : Nat}
    (found : state.clients.find id = some client) (idle : client.pending = none)
    (sends : client.requestText = some text) (env : Environment σ) {moved : Client}
    (own : Holder (handleRequest env state.world (parseRequest text)).2.broker.consumerGroups moved)
    (separate : ∀ other holder, other ≠ id → state.clients.find other = some holder →
      holder.group = moved.group →
      (moved.held.map Assignment.key).Disjoint (holder.held.map Assignment.key)) :
    Orderly (ConsumerState.update
      { state with world := (handleRequest env state.world (parseRequest text)).2 } id moved) := by
  apply orderly.change rfl
  · exact handleRequest_balanced orderly.balanced env _
  · exact handleRequest_membersSound orderly.members env text
  · exact handleRequest_bounded orderly.bounded env text
  · exact own
  · exact fun other holder different stored assignment held =>
      others_lower orderly found idle sends different stored held
  · exact separate

end Answers

end Invariant

/-! Runs. -/

section Runs

variable {σ : Type}

/-- A poll hands out no partition that another client of the group still works on. -/
def ConsumerEvent.Undisputed (state : ConsumerState σ) : ConsumerEvent σ → Prop
  | .send id _ => ∀ client ∈ state.clients.find id, client.phase = .poll →
      ∀ entry ∈ state.clients.entries, entry.1 ≠ id → entry.2.group = client.group →
        ∀ key ∈ pollKeys state.groups (parseRequest client.pollText),
          key ∉ entry.2.held.map Assignment.key
  | _ => True

instance (state : ConsumerState σ) : ∀ event : ConsumerEvent σ, Decidable (event.Undisputed state)
  | .send id _ => inferInstanceAs (Decidable (∀ client ∈ state.clients.find id, _ → ∀ entry ∈ _, _))
  | .start _ _ _ _ => isTrue trivial
  | .receive _ => isTrue trivial
  | .drop _ => isTrue trivial
  | .remove _ _ => isTrue trivial
  | .request _ _ => isTrue trivial

theorem consumerStep_orderly {state next : ConsumerState σ} (orderly : Orderly state)
    {event : ConsumerEvent σ} (undisputed : event.Undisputed state)
    (stepped : consumerStep state event = some next) : Orderly next := by
  cases consumerStep_change stepped with
  | started id topic groupId consumerId free =>
      refine orderly.quiet rfl rfl (holder_idle (Or.inl rfl) rfl rfl) ?_
      exact fun _ _ _ _ _ => List.disjoint_nil_left _
  | refused id env client found =>
      refine orderly.quiet rfl rfl (holder_abort _ client) ?_
      exact fun _ _ _ _ _ => List.disjoint_nil_left _
  | failed id env client text found idle sends =>
      refine orderly.served found idle sends env (holder_abort _ client) ?_
      exact fun _ _ _ _ _ => List.disjoint_nil_left _
  | answered id env client text response found idle sends returned short =>
      obtain ⟨own, kept⟩ := answered_holder orderly (orderly.holders id client found) idle sends
        returned short
      refine orderly.served found idle sends env own ?_
      intro other held different stored sameGroup
      rcases kept with part | ⟨polling, listed⟩
      · exact orderly.narrow (client.answer response) found rfl part other held different stored
          sameGroup
      · intro key member disputed
        exact undisputed client found polling ⟨other, held⟩
          ((Table.mem_entries_iff _ _ _).mpr stored) different sameGroup key
          (listed member) disputed
  | received id client response found pending =>
      obtain ⟨own, part⟩ := (orderly.holders id client found).receive pending
      refine orderly.quiet rfl rfl own ?_
      exact orderly.narrow (client.receive response).1 found rfl part.subset
  | dropped id client found =>
      refine orderly.quiet rfl rfl (holder_abort _ client) ?_
      exact fun _ _ _ _ _ => List.disjoint_nil_left _
  | removed groupId consumerId =>
      refine orderly.groups rfl ?_ ?_ ?_
      · exact groupStep_balanced orderly.balanced (.disconnect groupId consumerId)
      · exact groupStep_members orderly.members (.disconnect groupId consumerId) (by simp)
      · intro query key
        refine (groupStep_reported state.groups (.disconnect groupId consumerId) query
          key).resolve_right ?_
        rintro ⟨_, _, wrong, _⟩
        simp at wrong
  | requested raw env noCommit =>
      refine orderly.groups rfl ?_ ?_ ?_
      · exact handleRequest_balanced orderly.balanced env _
      · exact handleRequest_membersSound orderly.members env raw
      · intro query key
        refine (handleRequest_reported env state.world (parseRequest raw) query
          key).resolve_right ?_
        exact fun commits => noCommit commits.1

theorem handleRequest_offset {world : World σ} (env : Environment σ) (req : Request)
    {groupId : Bytes} {key : TopicPartition} {offset : Nat}
    (members : HasMembers (handleRequest env world req).2.broker.consumerGroups groupId)
    (before : (offsetsOf world.broker.consumerGroups groupId).find key = some offset) :
    (offsetsOf (handleRequest env world req).2.broker.consumerGroups groupId).find key =
        some offset ∨
      req.type = .commit ∧ req.groupId = groupId ∧
        TopicPartition.mk req.topic req.partition = key ∧
        (offsetsOf (handleRequest env world req).2.broker.consumerGroups groupId).find key =
          some req.offset := by
  obtain ⟨partitionCount?, effect⟩ := handleRequest_groups env world req
  split at effect
  · rw [effect]
    exact Or.inl before
  · rename_i event isEvent
    rw [effect.1] at members ⊢
    by_cases commits : CommitsTo world.broker.consumerGroups event groupId key
    · obtain ⟨_, committed, rfl, rfl, rfl, answered⟩ := commits
      cases typed : req.type with
      | commit =>
          simp only [groupEvent?, typed, Option.some.injEq, GroupEvent.commit.injEq] at isEvent
          rw [isEvent.2]
          exact Or.inr ⟨rfl, rfl, rfl, commit_offset answered⟩
      | _ => simp [groupEvent?, typed] at isEvent
    · rw [undisturbed_offset ⟨commits, members⟩]
      exact Or.inl before

theorem hasMembers_of_stored {groups : ConsumerGroups} (balanced : AllBalanced groups)
    {groupId : Bytes} (stored : (groups.find groupId).isSome) : HasMembers groups groupId := by
  obtain ⟨group, found⟩ := Option.isSome_iff_exists.mp stored
  exact ⟨group, found, (balanced groupId group found).nonempty⟩

theorem client_monotone {state : ConsumerState σ} (orderly : Orderly state) {id : Nat}
    {client : Client} (found : state.clients.find id = some client) (idle : client.pending = none)
    {text : Bytes} (sends : client.requestText = some text) (env : Environment σ) {groupId : Bytes}
    (members : HasMembers
      (handleRequest env state.world (parseRequest text)).2.broker.consumerGroups groupId)
    {key : TopicPartition} {offset : Nat}
    (before : (offsetsOf state.groups groupId).find key = some offset) :
    ∃ later, (offsetsOf (handleRequest env state.world (parseRequest text)).2.broker.consumerGroups
      groupId).find key = some later ∧ offset ≤ later := by
  have holder := orderly.holders id client found
  rcases handleRequest_offset env (parseRequest text) members before with
    same | ⟨commits, sameGroup, sameKey, after⟩
  · exact ⟨offset, same, Nat.le_refl _⟩
  · obtain ⟨assignment, rest, _, held, isGroup, isKey, isOffset⟩ :=
      client_commit holder idle sends commits
    refine ⟨_, after, ?_⟩
    have current := holder.current assignment held
    rw [← isGroup, ← isKey, sameGroup, sameKey, reportedOffset, before] at current
    rw [isOffset]
    exact current

theorem consumerStep_monotone {state next : ConsumerState σ} (orderly : Orderly state)
    {event : ConsumerEvent σ} (undisputed : event.Undisputed state)
    (stepped : consumerStep state event = some next) {groupId : Bytes}
    (stored : (next.groups.find groupId).isSome) {key : TopicPartition} {offset : Nat}
    (before : (offsetsOf state.groups groupId).find key = some offset) :
    ∃ later, (offsetsOf next.groups groupId).find key = some later ∧ offset ≤ later := by
  have members := hasMembers_of_stored
    (consumerStep_orderly orderly undisputed stepped).balanced stored
  cases consumerStep_change stepped with
  | started id topic group consumerId free => exact ⟨offset, before, Nat.le_refl _⟩
  | refused id env client found => exact ⟨offset, before, Nat.le_refl _⟩
  | failed id env client text found idle sends =>
      exact client_monotone orderly found idle sends env members before
  | answered id env client text response found idle sends returned short =>
      exact client_monotone orderly found idle sends env members before
  | received id client response found pending => exact ⟨offset, before, Nat.le_refl _⟩
  | dropped id client found => exact ⟨offset, before, Nat.le_refl _⟩
  | removed group consumerId =>
      have unchanged : Undisturbed groupId key state.groups (.disconnect group consumerId) := by
        refine ⟨?_, members⟩
        rintro ⟨_, _, wrong, _⟩
        simp at wrong
      exact ⟨offset, (undisturbed_offset unchanged).trans before, Nat.le_refl _⟩
  | requested raw env noCommit =>
      rcases handleRequest_offset env (parseRequest raw) members before with
        same | ⟨commits, _⟩
      · exact ⟨offset, same, Nat.le_refl _⟩
      · exact absurd commits noCommit

theorem orderly_start {world : World σ} (noGroups : world.broker.consumerGroups = ∅) :
    Orderly (⟨world, ∅, []⟩ : ConsumerState σ) := by
  have groups : ConsumerState.groups (⟨world, ∅, []⟩ : ConsumerState σ) = ∅ := noGroups
  refine ⟨?_, ?_, ?_, ?_, ?_⟩
  · intro groupId group found
    simp [groups] at found
  · intro groupId group found
    simp [groups] at found
  · intro groupId key
    simp [groups, reportedOffset, offsetsOf]
  · intro id client found
    simp at found
  · intro first second left right _ found
    simp at found

end Runs

def GroupRemains {σ : Type} (groupId : Bytes) (state : ConsumerState σ) (event : ConsumerEvent σ) :
    Prop :=
  ∀ next ∈ consumerStep state event, (next.groups.find groupId).isSome

/-- Committed offsets do not decrease while the group exists, in every run in which no
poll hands out a partition that another client still works on. -/
theorem committed_offset_monotone {σ : Type} {world : World σ}
    (noGroups : world.broker.consumerGroups = ∅) {before between : List (ConsumerEvent σ)}
    {state later : ConsumerState σ}
    (undisputed : Transition.StepsMeet (fun state event => event.Undisputed state) consumerStep
      ⟨world, ∅, []⟩ (before ++ between))
    (reached : Transition.run consumerStep ⟨world, ∅, []⟩ before = some state)
    (continued : Transition.run consumerStep state between = some later) {groupId : Bytes}
    (remains : Transition.StepsMeet (GroupRemains groupId) consumerStep state between)
    {topic : Bytes} {partition : Int} {offset : Nat}
    (committed : getCommittedOffset state.groups groupId topic partition = some offset) :
    ∃ progress, getCommittedOffset later.groups groupId topic partition = some progress ∧
      offset ≤ progress := by
  obtain ⟨first, second⟩ := Transition.stepsMeet_append reached undisputed
  have orderly := Transition.run_invariant_of_stepsMeet Orderly
    (fun _ _ _ orderly undisputed stepped => consumerStep_orderly orderly undisputed stepped)
    (orderly_start noGroups) first reached
  simp only [getCommittedOffset_eq] at committed ⊢
  have invariant := Transition.run_invariant_of_stepsMeet
    (fun state : ConsumerState σ => Orderly state ∧ ∃ progress,
      (offsetsOf state.groups groupId).find ⟨topic, partition⟩ = some progress ∧ offset ≤ progress)
    ?_ ⟨orderly, offset, committed, Nat.le_refl _⟩ (Transition.stepsMeet_and second remains)
    continued
  · exact invariant.2
  · rintro state event next ⟨orderly, progress, stored, further⟩ ⟨undisputed, remains⟩ stepped
    obtain ⟨newer, after, larger⟩ :=
      consumerStep_monotone orderly undisputed stepped (remains next stepped) stored
    exact ⟨consumerStep_orderly orderly undisputed stepped, newer, after, further.trans larger⟩

instance {σ : Type} (groupId : Bytes) (state : ConsumerState σ) (event : ConsumerEvent σ) :
    Decidable (GroupRemains groupId state event) :=
  inferInstanceAs (Decidable (∀ next ∈ consumerStep state event, _))

def exchangeOf (id : Nat) : List (ConsumerEvent Unit) := [.send id smoothEnvironment, .receive id]

/-- Both clients have joined before the first poll, so each has partitions of its own. -/
def shareTopic : List (ConsumerEvent Unit) :=
  .request (ascii "PRODUCE t 0 a") smoothEnvironment ::
    .request (ascii "PRODUCE t 1 b") smoothEnvironment ::
    .start 1 (ascii "t") (ascii "g") (ascii "a") :: .start 2 (ascii "t") (ascii "g") (ascii "b") ::
      exchangeOf 1 ++ exchangeOf 2 ++ exchangeOf 1 ++ exchangeOf 2 ++ exchangeOf 1 ++
        exchangeOf 2 ++ [.send 1 smoothEnvironment, .send 2 smoothEnvironment]

/-- Client 1 passes its empty partition and polls again while client 2 still has its own. -/
def shareAnother : List (ConsumerEvent Unit) :=
  .request (ascii "PRODUCE t 0 c") smoothEnvironment :: .receive 1 ::
    exchangeOf 1 ++ exchangeOf 1 ++ exchangeOf 1 ++ [.send 1 smoothEnvironment, .receive 2]

theorem committed_offset_monotone_two :
    ∃ state later, Transition.run consumerStep ⟨freshWorld, ∅, []⟩ shareTopic = some state ∧
      Transition.run consumerStep state shareAnother = some later ∧
      getCommittedOffset state.groups (ascii "g") (ascii "t") 0 = some 1 ∧
      getCommittedOffset state.groups (ascii "g") (ascii "t") 1 = some 1 ∧
      getCommittedOffset later.groups (ascii "g") (ascii "t") 0 = some 2 ∧
      (∃ progress, getCommittedOffset later.groups (ascii "g") (ascii "t") 0 = some progress ∧
        1 ≤ progress) ∧
      ∃ progress, getCommittedOffset later.groups (ascii "g") (ascii "t") 1 = some progress ∧
        1 ≤ progress := by
  have evaluated : ((Transition.run consumerStep ⟨freshWorld, ∅, []⟩ shareTopic).bind fun state =>
      (Transition.run consumerStep state shareAnother).map fun later =>
        (getCommittedOffset state.groups (ascii "g") (ascii "t") 0,
          getCommittedOffset state.groups (ascii "g") (ascii "t") 1,
          getCommittedOffset later.groups (ascii "g") (ascii "t") 0)) =
      some (some 1, some 1, some 2) := by
    decide +kernel
  have undisputed : Transition.StepsMeet (fun state event => ConsumerEvent.Undisputed state event)
      consumerStep ⟨freshWorld, ∅, []⟩ (shareTopic ++ shareAnother) := by
    decide +kernel
  have remains : ∀ state ∈ Transition.run consumerStep ⟨freshWorld, ∅, []⟩ shareTopic,
      Transition.StepsMeet (GroupRemains (ascii "g")) consumerStep state shareAnother := by
    decide +kernel
  simp only [Option.bind_eq_some_iff, Option.map_eq_some_iff, Prod.mk.injEq] at evaluated
  obtain ⟨state, reached, later, continued, first, other, second⟩ := evaluated
  refine ⟨state, later, reached, continued, first, other, second, ?_, ?_⟩
  · exact committed_offset_monotone rfl undisputed reached continued (remains state reached) first
  · exact committed_offset_monotone rfl undisputed reached continued (remains state reached) other

def takeover : List (ConsumerEvent Unit) :=
  .request (ascii "PRODUCE t 0 x") smoothEnvironment ::
    .start 1 (ascii "t") (ascii "g") (ascii "b") ::
      exchangeOf 1 ++ exchangeOf 1 ++ exchangeOf 1 ++
    .request (ascii "PRODUCE t 0 y") smoothEnvironment ::
    .start 2 (ascii "t") (ascii "g") (ascii "a") ::
      exchangeOf 2 ++ exchangeOf 2 ++ exchangeOf 2 ++ exchangeOf 2

/-- The late commit of the former owner takes the group back. -/
theorem committed_offset_decreases :
    ∃ state later, Transition.run consumerStep ⟨freshWorld, ∅, []⟩ takeover = some state ∧
      Transition.run consumerStep state [.send 1 smoothEnvironment] = some later ∧
      (later.groups.find (ascii "g")).isSome ∧
      getCommittedOffset state.groups (ascii "g") (ascii "t") 0 = some 2 ∧
      getCommittedOffset later.groups (ascii "g") (ascii "t") 0 = some 1 := by
  have evaluated : ((Transition.run consumerStep ⟨freshWorld, ∅, []⟩ takeover).bind fun state =>
      (Transition.run consumerStep state [.send 1 smoothEnvironment]).map fun later =>
        ((later.groups.find (ascii "g")).isSome,
          getCommittedOffset state.groups (ascii "g") (ascii "t") 0,
          getCommittedOffset later.groups (ascii "g") (ascii "t") 0)) =
      some (true, some 2, some 1) := by
    decide +kernel
  simp only [Option.bind_eq_some_iff, Option.map_eq_some_iff, Prod.mk.injEq] at evaluated
  obtain ⟨state, reached, later, continued, remains, before, after⟩ := evaluated
  exact ⟨state, later, reached, continued, remains, before, after⟩

end KafkaBroker
