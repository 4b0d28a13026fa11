import KafkaBroker.Stalling

/-!
Exactly-once delivery. As long as no two clients of a group work on a partition at the same
time and no read is lost before it is committed, what the group receives of the partition is
its messages in order, each of them once.
-/

namespace KafkaBroker

open ByteText

/-- The offset behind the messages that the client has received and not committed. -/
def Client.uncommitted (client : Client) (key : TopicPartition) : Option Nat :=
  match client.phase, client.pending with
  | .commit assignment _, none => if assignment.key = key then some assignment.offset else none
  | _, _ => none

section Order

variable {σ : Type}

/-- The step neither takes the group's committed offset back, nor loses what one of its
clients has read before that is committed. -/
structure Uninterrupted (groupId : Bytes) (key : TopicPartition)
    (before after : ConsumerState σ) : Prop where
  offset : reportedOffset before.groups groupId key ≤ reportedOffset after.groups groupId key
  reads : ∀ entry ∈ before.clients.entries, entry.2.group = groupId →
    ∀ offset ∈ entry.2.uncommitted key, reportedOffset after.groups groupId key = offset ∨
      ∃ later ∈ after.clients.find entry.1, later.group = groupId ∧
        later.uncommitted key = some offset

instance (groupId : Bytes) (key : TopicPartition) (before after : ConsumerState σ) :
    Decidable (Uninterrupted groupId key before after) :=
  decidable_of_iff (reportedOffset before.groups groupId key ≤
      reportedOffset after.groups groupId key ∧
      ∀ entry ∈ before.clients.entries, entry.2.group = groupId →
        ∀ offset ∈ entry.2.uncommitted key, reportedOffset after.groups groupId key = offset ∨
          ∃ later ∈ after.clients.find entry.1, later.group = groupId ∧
            later.uncommitted key = some offset)
    ⟨fun ⟨offset, reads⟩ => ⟨offset, reads⟩, fun ⟨offset, reads⟩ => ⟨offset, reads⟩⟩

/-- The group has received the partition up to the committed offset, or to where one of its
clients has read it. -/
structure InOrder (state : ConsumerState σ) (groupId : Bytes) (key : TopicPartition) : Prop where
  unread : ∀ id client, state.clients.find id = some client → client.group = groupId →
    ∀ assignment ∈ client.unread, assignment.key = key →
      assignment.offset = reportedOffset state.groups groupId key
  settled : (∀ id client, state.clients.find id = some client → client.group = groupId →
      client.uncommitted key = none) →
    groupRead state.receipts groupId key =
      (state.world.broker.messages key.topic key.partition).take
        (reportedOffset state.groups groupId key)
  opened : ∀ id client offset, state.clients.find id = some client → client.group = groupId →
    client.uncommitted key = some offset →
      offset ≤ (state.world.broker.messages key.topic key.partition).length ∧
      groupRead state.receipts groupId key =
        (state.world.broker.messages key.topic key.partition).take offset

/-! What a client holds. -/

theorem uncommitted_cases {client : Client} {key : TopicPartition} {offset : Nat}
    (uncommitted : client.uncommitted key = some offset) :
    ∃ assignment rest, client.phase = .commit assignment rest ∧ client.pending = none ∧
      assignment.key = key ∧ assignment.offset = offset := by
  unfold Client.uncommitted at uncommitted
  split at uncommitted
  · rename_i assignment rest phase idle
    simp only [Option.ite_none_right_eq_some, Option.some.injEq] at uncommitted
    exact ⟨assignment, rest, phase, idle, uncommitted⟩
  · simp at uncommitted

theorem uncommitted_held {client : Client} {key : TopicPartition} {offset : Nat}
    (uncommitted : client.uncommitted key = some offset) :
    key ∈ client.held.map Assignment.key := by
  obtain ⟨assignment, rest, phase, idle, same, _⟩ := uncommitted_cases uncommitted
  rw [held_of_idle idle, phase]
  simp [ClientPhase.assignments, same]

theorem unread_subset (client : Client) : client.unread ⊆ client.held := by
  unfold Client.unread
  split
  · rename_i assignment rest phase
    unfold Client.held
    rw [phase]
    cases client.pending with
    | none => exact List.subset_cons_self _ _
    | some response => exact List.Subset.refl _
  · exact List.Subset.refl _

theorem unread_key {client : Client} {assignment : Assignment}
    (unread : assignment ∈ client.unread) : assignment.key ∈ client.held.map Assignment.key :=
  List.mem_map_of_mem (unread_subset client unread)

theorem uncommitted_unread {groups : ConsumerGroups} {client : Client}
    (holder : Holder groups client) {key : TopicPartition} {offset : Nat}
    (uncommitted : client.uncommitted key = some offset) :
    ∀ assignment ∈ client.unread, assignment.key ≠ key := by
  obtain ⟨committed, rest, phase, idle, rfl, _⟩ := uncommitted_cases uncommitted
  have distinct := holder.distinct
  rw [held_of_idle idle, phase] at distinct
  simp only [ClientPhase.assignments, List.map_cons, List.nodup_cons] at distinct
  intro assignment unread same
  rw [Client.unread, phase] at unread
  exact distinct.1 (same ▸ List.mem_map_of_mem unread)

/-! One client's step. -/

theorem uncommitted_of_pending {client : Client} {response : Bytes}
    (pending : client.pending = some response) (key : TopicPartition) :
    client.uncommitted key = none := by
  unfold Client.uncommitted
  rw [pending]
  cases client.phase <;> rfl

theorem uncommitted_of_phase {client : Client} {key : TopicPartition}
    (elsewhere : ∀ assignment rest, client.phase = .commit assignment rest →
      assignment.key ≠ key) : client.uncommitted key = none := by
  cases open? : client.uncommitted key with
  | none => rfl
  | some offset =>
      obtain ⟨assignment, rest, phase, _, same, _⟩ := uncommitted_cases open?
      exact absurd same (elsewhere assignment rest phase)

theorem unread_idle {client : Client} (nothing : client.phase.assignments = [])
    (idle : client.pending = none) : client.unread = [] := by
  have part := unread_subset client
  rw [held_of_idle idle, nothing] at part
  exact List.subset_nil.mp part

theorem receive_unread {client : Client} {response : Bytes}
    (pending : client.pending = some response) :
    (client.receive response).1.unread ⊆ client.unread := by
  have finished (after : Client) (nothing : after.phase.assignments = [])
      (idle : after.pending = none) : after.unread ⊆ client.unread := by
    rw [unread_idle nothing idle]
    exact List.nil_subset _
  cases phase : client.phase with
  | join =>
      refine finished _ ?_ rfl
      simp only [Client.receive, phase, ClientPhase.receive]
      split <;> rfl
  | poll =>
      simp only [Client.receive, phase, ClientPhase.receive]
      split
      · exact finished _ rfl rfl
      · rename_i noError
        split
        · exact finished _ rfl rfl
        · rename_i assignments parsed
          rw [nextAssignment_unread rfl rfl]
          simp [Client.unread, Client.held, phase, pending, noError, parsed]
  | fetch assignment rest consumedAny =>
      have unread : client.unread = assignment :: rest := by
        simp [Client.unread, Client.held, phase, ClientPhase.assignments]
      rw [unread]
      simp only [Client.receive, phase, ClientPhase.receive]
      split
      · rw [unread_idle rfl rfl]
        exact List.nil_subset _
      · split
        · rw [nextAssignment_unread rfl rfl]
          exact List.subset_cons_self _ _
        · exact List.subset_cons_self _ _
  | commit assignment rest =>
      have unread : client.unread = rest := by
        simp [Client.unread, phase]
      simp only [Client.receive, phase, ClientPhase.receive]
      split
      · rw [nextAssignment_unread rfl rfl, unread]
        exact List.Subset.refl _
      · exact finished _ rfl rfl
  | leave =>
      refine finished _ ?_ rfl
      simp only [Client.receive, phase, ClientPhase.receive, ClientPhase.assignments]
  | finished =>
      refine finished _ ?_ rfl
      simp only [Client.receive, phase, ClientPhase.receive, ClientPhase.assignments]

def Client.Fetched (client : Client) (response groupId : Bytes) (key : TopicPartition) : Prop :=
  countMessages response ≠ 0 ∧ response ≠ ascii "ERROR" ∧ client.group = groupId ∧
    ∃ assignment rest consumedAny, client.phase = .fetch assignment rest consumedAny ∧
      assignment.key = key

theorem receive_reads {client : Client} {response groupId : Bytes} {key : TopicPartition}
    (elsewhere : ¬client.Fetched response groupId key) :
    groupRead (client.receive response).2 groupId key = [] := by
  cases phase : client.phase with
  | fetch assignment rest consumedAny =>
      simp only [Client.receive, phase]
      split
      · rfl
      · rename_i noError
        by_cases empty : response = []
        · subst empty
          refine List.flatMap_eq_nil_iff.mpr fun receipt inside => ?_
          obtain rfl := List.mem_singleton.mp (List.mem_of_mem_filter inside)
          rfl
        · have other : ¬(client.group = groupId ∧ assignment.topic = key.topic ∧
              assignment.partition = key.partition) := by
            rintro ⟨named, topic, partition⟩
            have same : assignment.key = key := by rw [Assignment.key, topic, partition]
            have some? : countMessages response ≠ 0 := by simp [countMessages, empty]
            exact elsewhere ⟨some?, noError, named, assignment, rest, consumedAny, phase, same⟩
          simp [groupRead, other]
  | _ => simp [Client.receive, phase, groupRead]

theorem receive_uncommitted {client : Client} {response : Bytes} {key : TopicPartition}
    {offset : Nat} (uncommitted : (client.receive response).1.uncommitted key = some offset) :
    client.Fetched response client.group key := by
  obtain ⟨committed, others, commits, _, same, _⟩ := uncommitted_cases uncommitted
  have next (assignments : List Assignment) (consumedAny : Bool) :
      nextAssignment assignments consumedAny ≠ .commit committed others := by
    cases assignments with
    | nil => cases consumedAny <;> simp [nextAssignment]
    | cons first rest => simp [nextAssignment]
  cases phase : client.phase with
  | fetch assignment rest consumedAny =>
      simp only [Client.receive, phase, ClientPhase.receive] at commits
      split at commits
      · simp at commits
      · rename_i noError
        split at commits
        · exact absurd commits (next _ _)
        · rename_i some?
          rw [ClientPhase.commit.injEq] at commits
          rw [← commits.1] at same
          exact ⟨some?, noError, rfl, assignment, rest, consumedAny, phase, same⟩
  | poll =>
      simp only [Client.receive, phase, ClientPhase.receive] at commits
      split at commits
      · simp at commits
      · split at commits
        · simp at commits
        · exact absurd commits (next _ _)
  | commit assignment rest =>
      simp only [Client.receive, phase, ClientPhase.receive] at commits
      split at commits
      · exact absurd commits (next _ _)
      · simp at commits
  | join =>
      simp only [Client.receive, phase, ClientPhase.receive] at commits
      split at commits <;> simp at commits
  | _ => simp [Client.receive, phase, ClientPhase.receive] at commits

/-! The invariant's step. -/

section Steps

variable {state next : ConsumerState σ} {groupId : Bytes} {key : TopicPartition}

theorem reported_within (sound : Sound state) (groupId : Bytes) (key : TopicPartition) :
    reportedOffset state.groups groupId key ≤
      (state.world.broker.messages key.topic key.partition).length := by
  unfold reportedOffset
  cases found : (offsetsOf state.groups groupId).find key with
  | none => exact Nat.zero_le _
  | some offset => exact (sound.offsets groupId key offset found).within

theorem take_of_prefix {before after : List Bytes} (longer : before <+: after) {count : Nat}
    (within : count ≤ before.length) : after.take count = before.take count := by
  obtain ⟨added, rfl⟩ := longer
  exact List.take_append_of_le_length within

theorem InOrder.kept (order : InOrder state groupId key) (sound : Sound state)
    (uninterrupted : Uninterrupted groupId key state next)
    (longer : state.world.broker.messages key.topic key.partition <+:
      next.world.broker.messages key.topic key.partition)
    (received : groupRead next.receipts groupId key = groupRead state.receipts groupId key)
    (unread : ∀ id client, next.clients.find id = some client → client.group = groupId →
      ∀ assignment ∈ client.unread, assignment.key = key →
        assignment.offset = reportedOffset next.groups groupId key)
    (opened : ∀ id client offset, next.clients.find id = some client → client.group = groupId →
      client.uncommitted key = some offset → ∃ earlier, state.clients.find id = some earlier ∧
        earlier.group = groupId ∧ earlier.uncommitted key = some offset)
    (reported : (∀ id client, state.clients.find id = some client → client.group = groupId →
        client.uncommitted key = none) →
      reportedOffset next.groups groupId key = reportedOffset state.groups groupId key) :
    InOrder next groupId key := by
  refine ⟨unread, ?_, ?_⟩
  · intro closed
    rw [received]
    by_cases before : ∀ id client, state.clients.find id = some client →
        client.group = groupId → client.uncommitted key = none
    · rw [reported before, take_of_prefix longer (reported_within sound groupId key)]
      exact order.settled before
    · simp only [not_forall] at before
      obtain ⟨id, client, found, named, isOpen⟩ := before
      obtain ⟨offset, isOffset⟩ := Option.ne_none_iff_exists'.mp isOpen
      obtain ⟨within, taken⟩ := order.opened id client offset found named isOffset
      have entry := (Table.mem_entries_iff _ _ _).mpr found
      rcases uninterrupted.reads ⟨id, client⟩ entry named offset isOffset with
        committed | ⟨later, stored, sameGroup, still⟩
      · rw [committed, take_of_prefix longer within]
        exact taken
      · rw [closed id later stored sameGroup] at still
        simp at still
  · intro id client offset found named isOffset
    obtain ⟨earlier, stored, sameGroup, before⟩ := opened id client offset found named isOffset
    obtain ⟨within, taken⟩ := order.opened id earlier offset stored sameGroup before
    rw [received, take_of_prefix longer within]
    exact ⟨within.trans longer.length_le, taken⟩

theorem InOrder.moved (order : InOrder state groupId key) (orderly : Orderly state)
    (sound : Sound state) (uninterrupted : Uninterrupted groupId key state next)
    (longer : state.world.broker.messages key.topic key.partition <+:
      next.world.broker.messages key.topic key.partition)
    (received : groupRead next.receipts groupId key = groupRead state.receipts groupId key)
    {id : Nat} {moved : Client} (clients : next.clients = state.clients.set id moved)
    (unread : moved.group = groupId → ∀ assignment ∈ moved.unread, assignment.key = key →
      assignment.offset = reportedOffset next.groups groupId key)
    (opened : moved.group = groupId → ∀ offset, moved.uncommitted key = some offset →
      ∃ earlier, state.clients.find id = some earlier ∧ earlier.group = groupId ∧
        earlier.uncommitted key = some offset)
    (reported : reportedOffset next.groups groupId key = reportedOffset state.groups groupId key ∨
      ∃ earlier offset, state.clients.find id = some earlier ∧ earlier.group = groupId ∧
        earlier.uncommitted key = some offset) : InOrder next groupId key := by
  refine order.kept sound uninterrupted longer received ?_ ?_ ?_
  · intro query client found named assignment inside isKey
    rw [clients, Table.find_set] at found
    split at found
    · obtain rfl := Option.some.inj found
      exact unread named assignment inside isKey
    · rename_i different
      rcases reported with same | ⟨earlier, offset, stored, sameGroup, isOpen⟩
      · rw [same]
        exact order.unread query client found named assignment inside isKey
      · -- the partition is the other client's own
        have apart := orderly.apart query id client earlier different found stored
          (named.trans sameGroup.symm)
        exact absurd (uncommitted_held isOpen) (apart (isKey ▸ unread_key inside))
  · intro query client offset found named isOpen
    rw [clients, Table.find_set] at found
    split at found
    · rename_i isId
      obtain rfl := Option.some.inj found
      exact isId ▸ opened named offset isOpen
    · exact ⟨client, found, named, isOpen⟩
  · intro closed
    refine reported.resolve_right ?_
    rintro ⟨earlier, offset, stored, sameGroup, isOpen⟩
    rw [closed id earlier stored sameGroup] at isOpen
    simp at isOpen

theorem InOrder.idled (order : InOrder state groupId key) (orderly : Orderly state)
    (sound : Sound state) (uninterrupted : Uninterrupted groupId key state next)
    (longer : state.world.broker.messages key.topic key.partition <+:
      next.world.broker.messages key.topic key.partition)
    (received : next.receipts = state.receipts) {id : Nat} {moved : Client}
    (clients : next.clients = state.clients.set id moved)
    (nothing : moved.phase.assignments = []) (idle : moved.pending = none)
    (reported : reportedOffset next.groups groupId key = reportedOffset state.groups groupId key ∨
      ∃ earlier offset, state.clients.find id = some earlier ∧ earlier.group = groupId ∧
        earlier.uncommitted key = some offset) : InOrder next groupId key := by
  refine order.moved orderly sound uninterrupted longer (by rw [received]) clients ?_ ?_ reported
  · simp [unread_idle nothing idle]
  · intro _ offset isOpen
    have held := uncommitted_held isOpen
    simp [held_of_idle idle, nothing] at held

theorem InOrder.still (order : InOrder state groupId key) (sound : Sound state)
    (uninterrupted : Uninterrupted groupId key state next)
    (longer : state.world.broker.messages key.topic key.partition <+:
      next.world.broker.messages key.topic key.partition)
    (received : next.receipts = state.receipts) (clients : next.clients = state.clients)
    (lower : reportedOffset next.groups groupId key ≤ reportedOffset state.groups groupId key) :
    InOrder next groupId key := by
  have reported := lower.antisymm uninterrupted.offset
  refine order.kept sound uninterrupted longer (by rw [received]) ?_ ?_ fun _ => reported
  · rw [clients, reported]
    exact order.unread
  · intro id client offset found named isOpen
    exact ⟨client, clients ▸ found, named, isOpen⟩

theorem sent_uncommitted (orderly : Orderly state) {id : Nat} {client : Client}
    (found : state.clients.find id = some client) (idle : client.pending = none) {text : Bytes}
    (sends : client.requestText = some text) (env : Environment σ)
    (uninterrupted : reportedOffset state.groups groupId key ≤ reportedOffset
      (handleRequest env state.world (parseRequest text)).2.broker.consumerGroups groupId key) :
    reportedOffset (handleRequest env state.world (parseRequest text)).2.broker.consumerGroups
        groupId key = reportedOffset state.groups groupId key ∨
      ∃ assignment rest, client.phase = .commit assignment rest ∧ client.group = groupId ∧
        assignment.key = key ∧ client.uncommitted key = some assignment.offset := by
  rcases client_reported (orderly.holders id client found) idle sends env state.world groupId key
    with lower | ⟨assignment, rest, phase, _, named, isKey⟩
  · exact Or.inl (lower.antisymm uninterrupted)
  · refine Or.inr ⟨assignment, rest, phase, named, isKey.symm, ?_⟩
    simp [Client.uncommitted, phase, idle, isKey]

theorem answered_unread (order : InOrder state groupId key) (orderly : Orderly state)
    (sound : Sound state) {id : Nat} {client : Client}
    (found : state.clients.find id = some client) (named : client.group = groupId)
    {env : Environment σ} {text response : Bytes} (sends : client.requestText = some text)
    (returned : (handleRequest env state.world (parseRequest text)).1 = .returned response)
    (reported : reportedOffset (handleRequest env state.world
        (parseRequest text)).2.broker.consumerGroups groupId key =
        reportedOffset state.groups groupId key ∨
      ∃ assignment rest, client.phase = .commit assignment rest ∧ client.group = groupId ∧
        assignment.key = key ∧ client.uncommitted key = some assignment.offset) :
    ∀ assignment ∈ (client.answer response).unread, assignment.key = key →
      assignment.offset = reportedOffset (handleRequest env state.world
        (parseRequest text)).2.broker.consumerGroups groupId key := by
  have holder := orderly.holders id client found
  intro assignment inside isKey
  have unchanged (same : (client.answer response).unread = client.unread) :
      assignment.offset = reportedOffset (handleRequest env state.world
        (parseRequest text)).2.broker.consumerGroups groupId key := by
    rw [same] at inside
    rcases reported with reported | ⟨_, _, _, _, _, isOpen⟩
    · rw [reported]
      exact order.unread id client found named assignment inside isKey
    · exact absurd isKey (uncommitted_unread holder isOpen assignment inside)
  cases phase : client.phase with
  | poll =>
      have quiet := reported.resolve_right (by simp [phase])
      simp only [Client.requestText, phase, Option.some.injEq] at sends
      subst sends
      have current := polled_current orderly.members orderly.balanced
        (sound.clients id client found) phase returned assignment (unread_subset _ inside)
      rw [current, named, isKey, quiet]
  | fetch asked rest consumedAny =>
      refine unchanged ?_
      simp [Client.unread, Client.held, phase, ClientPhase.assignments]
  | commit committed rest =>
      refine unchanged ?_
      simp [Client.unread, phase]
  | finished => simp [Client.requestText, phase] at sends
  | _ => simp [Client.unread, Client.held, phase, ClientPhase.assignments] at inside

theorem fetched_lines (sound : Sound state) {id : Nat} {client : Client} {response : Bytes}
    (found : state.clients.find id = some client) (pending : client.pending = some response)
    {assignment : Assignment} {rest : List Assignment} {consumedAny : Bool}
    (fetches : client.phase = .fetch assignment rest consumedAny)
    (noError : response ≠ ascii "ERROR") :
    countMessages response = (getLines response).length ∧ getLines response <+:
      (state.world.broker.messages assignment.topic assignment.partition).drop
        assignment.offset := by
  have reply := (sound.clients id client found).pending response pending
  simp only [PendingSound, fetches] at reply
  obtain ⟨lines, rfl, part⟩ := reply noError
  have text : ∀ line ∈ lines, PayloadText line := fun line inside =>
    sound.text _ _ line (List.mem_of_mem_drop (part.subset inside))
  rw [getLines_joinLines text, countMessages_joinLines text]
  exact ⟨rfl, part⟩

theorem advance_eq {assignment : Assignment} {response : Bytes}
    (small : assignment.offset < 2 ^ 63) (short : response.length ≤ kMaxPayloadSize) :
    (assignment.advance (countMessages response)).offset =
      assignment.offset + countMessages response := by
  have count := countMessages_le response
  simp only [kMaxPayloadSize] at short
  rw [Assignment.advance, Nat.mod_eq_of_lt (by omega)]

theorem fetching_closed (orderly : Orderly state) {id : Nat} {client : Client}
    (found : state.clients.find id = some client) (named : client.group = groupId)
    {assignment : Assignment} {rest : List Assignment} {consumedAny : Bool}
    (fetches : client.phase = .fetch assignment rest consumedAny) :
    ∀ query other, state.clients.find query = some other → other.group = groupId →
      other.uncommitted assignment.key = none := by
  intro query other stored sameGroup
  by_cases same : query = id
  · obtain rfl : other = client := by rwa [same, found, Option.some.injEq, eq_comm] at stored
    exact uncommitted_of_phase (by simp [fetches])
  · refine Option.eq_none_iff_forall_ne_some.mpr fun offset isOpen => ?_
    have apart := orderly.apart query id other client same stored found
      (sameGroup.trans named.symm)
    exact apart (uncommitted_held isOpen) (by simp [Client.held, fetches, ClientPhase.assignments])

theorem InOrder.fetched (order : InOrder state groupId key) (orderly : Orderly state)
    (sound : Sound state) {id : Nat} {client : Client} {response : Bytes}
    (found : state.clients.find id = some client) (pending : client.pending = some response)
    (fetched : client.Fetched response groupId key) :
    InOrder { state.update id (client.receive response).1 with
      receipts := state.receipts ++ (client.receive response).2 } groupId key := by
  obtain ⟨some?, noError, named, assignment, rest, consumedAny, phase, rfl⟩ := fetched
  have holder := orderly.holders id client found
  have unread : assignment ∈ client.unread := by
    simp [Client.unread, Client.held, phase, ClientPhase.assignments]
  have current := order.unread id client found named assignment unread rfl
  obtain ⟨count, part⟩ := fetched_lines sound found pending phase noError
  have advanced := advance_eq (holder.small assignment unread) (holder.short response pending)
  rw [count] at advanced
  have closed := fetching_closed orderly found named phase
  have reads : groupRead (client.receive response).2 groupId assignment.key =
      getLines response := by
    simp [Client.receive, phase, noError, groupRead, named, Assignment.key]
  have taken : groupRead (state.receipts ++ (client.receive response).2) groupId assignment.key =
      (state.world.broker.messages assignment.topic assignment.partition).take
        (assignment.offset + (getLines response).length) := by
    rw [Workload.groupRead_append, order.settled closed, reads, ← current, List.take_add,
      ← List.prefix_iff_eq_take.mp part]
    rfl
  have isOpen : (client.receive response).1.uncommitted assignment.key =
      some (assignment.offset + (getLines response).length) := by
    rw [← advanced, ← count]
    simp [Client.receive, Client.uncommitted, phase, ClientPhase.receive, noError, some?,
      Assignment.advance, Assignment.key]
  refine ⟨?_, ?_, ?_⟩
  · intro query other stored sameGroup row inside isKey
    simp only [ConsumerState.update, Table.find_set] at stored
    split at stored
    · obtain rfl := Option.some.inj stored
      exact order.unread id client found named row (receive_unread pending inside) isKey
    · exact order.unread query other stored sameGroup row inside isKey
  · intro nothing
    have none? := nothing id (client.receive response).1 (by simp [ConsumerState.update]) named
    simp [isOpen] at none?
  · intro query other offset stored sameGroup isOffset
    simp only [ConsumerState.update, Table.find_set] at stored
    split at stored
    · obtain rfl := Option.some.inj stored
      obtain rfl : assignment.offset + (getLines response).length = offset := by
        rwa [isOpen, Option.some.injEq] at isOffset
      refine ⟨?_, taken⟩
      change assignment.offset + (getLines response).length ≤
        (state.world.broker.messages assignment.topic assignment.partition).length
      have size := part.length_le
      have within := reported_within sound groupId assignment.key
      rw [← current] at within
      rw [List.length_drop] at size
      simp only [Assignment.key] at within
      omega
    · simp [closed query other stored sameGroup] at isOffset

theorem InOrder.receive (order : InOrder state groupId key) (orderly : Orderly state)
    (sound : Sound state) {id : Nat} {client : Client} {response : Bytes}
    (found : state.clients.find id = some client) (pending : client.pending = some response)
    (uninterrupted : Uninterrupted groupId key state
      { state.update id (client.receive response).1 with
        receipts := state.receipts ++ (client.receive response).2 }) :
    InOrder { state.update id (client.receive response).1 with
      receipts := state.receipts ++ (client.receive response).2 } groupId key := by
  by_cases fetched : client.Fetched response groupId key
  · exact order.fetched orderly sound found pending fetched
  · refine order.moved orderly sound uninterrupted List.prefix_rfl ?_ rfl ?_ ?_ (Or.inl rfl)
    · rw [Workload.groupRead_append, receive_reads fetched, List.append_nil]
    · intro named assignment inside isKey
      exact order.unread id client found named assignment (receive_unread pending inside) isKey
    · intro named offset isOpen
      have sameGroup : client.group = groupId := named
      exact absurd (sameGroup ▸ receive_uncommitted isOpen) fetched

theorem consumerStep_inOrder (order : InOrder state groupId key) (orderly : Orderly state)
    (sound : Sound state) {event : ConsumerEvent σ}
    (uninterrupted : Uninterrupted groupId key state next)
    (stepped : consumerStep state event = some next) : InOrder next groupId key := by
  cases consumerStep_change stepped with
  | started id topic group consumerId free =>
      exact order.idled orderly sound uninterrupted List.prefix_rfl rfl rfl rfl rfl (Or.inl rfl)
  | refused id env client found =>
      exact order.idled orderly sound uninterrupted List.prefix_rfl rfl rfl rfl rfl (Or.inl rfl)
  | failed id env client text found idle sends =>
      refine order.idled orderly sound uninterrupted
        ((grows_request state env (parseRequest text)).messages _ _) rfl rfl rfl rfl ?_
      refine (sent_uncommitted orderly found idle sends env uninterrupted.offset).imp_right ?_
      rintro ⟨assignment, rest, _, named, _, isOpen⟩
      exact ⟨client, assignment.offset, found, named, isOpen⟩
  | answered id env client text response found idle sends returned short =>
      have reported := sent_uncommitted orderly found idle sends env uninterrupted.offset
      refine order.moved orderly sound uninterrupted
        ((grows_request state env (parseRequest text)).messages _ _) rfl rfl ?_ ?_ ?_
      · exact fun named =>
          answered_unread order orderly sound found named sends returned reported
      · intro _ offset isOpen
        have closed : (client.answer response).uncommitted key = none :=
          uncommitted_of_pending rfl key
        exact absurd (closed.symm.trans isOpen) (by simp)
      · refine reported.imp_right ?_
        rintro ⟨assignment, rest, _, named, _, isOpen⟩
        exact ⟨client, assignment.offset, found, named, isOpen⟩
  | received id client response found pending =>
      exact order.receive orderly sound found pending uninterrupted
  | dropped id client found =>
      exact order.idled orderly sound uninterrupted List.prefix_rfl rfl rfl rfl rfl (Or.inl rfl)
  | removed group consumerId =>
      refine order.still sound uninterrupted List.prefix_rfl rfl rfl ?_
      refine (groupStep_reported state.groups (.disconnect group consumerId) groupId
        key).resolve_right ?_
      rintro ⟨_, _, wrong, _⟩
      simp at wrong
  | requested raw env noCommit =>
      refine order.still sound uninterrupted
        ((grows_request state env (parseRequest raw)).messages _ _) rfl rfl ?_
      refine (handleRequest_reported env state.world (parseRequest raw) groupId
        key).resolve_right ?_
      exact fun commits => noCommit commits.1

end Steps

theorem inOrder_start {world : World σ} (noGroups : world.broker.consumerGroups = ∅)
    (groupId : Bytes) (key : TopicPartition) :
    InOrder (⟨world, ∅, []⟩ : ConsumerState σ) groupId key := by
  refine ⟨by simp, ?_, by simp⟩
  simp [groupRead, reportedOffset, offsetsOf, ConsumerState.groups, noGroups]

/-- Exactly-once delivery: in every run in which no two clients of the group work on the
partition at the same time and nothing is lost before it is committed, the group has received
a prefix of the partition, up to the committed offset or to what a client is about to
commit. -/
theorem read_exactly_once {world : World σ} (noGroups : world.broker.consumerGroups = ∅)
    (text : ∀ topic partition, ∀ message ∈ world.broker.messages topic partition,
      PayloadText message)
    {events : List (ConsumerEvent σ)} {state : ConsumerState σ}
    (reached : Transition.run consumerStep ⟨world, ∅, []⟩ events = some state)
    (undisputed : Transition.StepsMeet (fun state event => event.Undisputed state) consumerStep
      ⟨world, ∅, []⟩ events) {groupId : Bytes} {key : TopicPartition}
    (uninterrupted : Transition.StepsMeet (fun state event => ∀ next ∈ consumerStep state event,
      Uninterrupted groupId key state next) consumerStep ⟨world, ∅, []⟩ events) :
    ∃ count, count ≤ (state.world.broker.messages key.topic key.partition).length ∧
      groupRead state.receipts groupId key =
        (state.world.broker.messages key.topic key.partition).take count ∧
      (count = reportedOffset state.groups groupId key ∨
        ∃ id client, state.clients.find id = some client ∧ client.group = groupId ∧
          client.uncommitted key = some count) := by
  have invariant := Transition.run_invariant_of_stepsMeet
    (fun state : ConsumerState σ => InOrder state groupId key ∧ Orderly state ∧ Sound state)
    ?_ ⟨inOrder_start noGroups groupId key, orderly_start noGroups, sound_start noGroups text⟩
    (Transition.stepsMeet_and undisputed uninterrupted) reached
  · obtain ⟨order, _, sound⟩ := invariant
    by_cases closed : ∀ id client, state.clients.find id = some client →
        client.group = groupId → client.uncommitted key = none
    · exact ⟨_, reported_within sound groupId key, order.settled closed, Or.inl rfl⟩
    · simp only [not_forall] at closed
      obtain ⟨id, client, found, named, isOpen⟩ := closed
      obtain ⟨offset, isOffset⟩ := Option.ne_none_iff_exists'.mp isOpen
      obtain ⟨within, taken⟩ := order.opened id client offset found named isOffset
      exact ⟨offset, within, taken, Or.inr ⟨id, client, found, named, isOffset⟩⟩
  · rintro state event next ⟨order, orderly, sound⟩ ⟨undisputed, uninterrupted⟩ stepped
    refine ⟨?_, ?_, ?_⟩
    · exact consumerStep_inOrder order orderly sound (uninterrupted next stepped) stepped
    · exact consumerStep_orderly orderly undisputed stepped
    · exact consumerStep_sound sound stepped

end Order

def readShared : List (ConsumerEvent Unit) := shareTopic ++ shareAnother

theorem read_exactly_once_two :
    ∃ state, Transition.run consumerStep ⟨freshWorld, ∅, []⟩ readShared = some state ∧
      groupRead state.receipts (ascii "g") ⟨ascii "t", 0⟩ = [ascii "a", ascii "c"] ∧
      groupRead state.receipts (ascii "g") ⟨ascii "t", 1⟩ = [ascii "b"] ∧
      ∀ key ∈ [⟨ascii "t", 0⟩, ⟨ascii "t", 1⟩],
        ∃ count, count ≤ (state.world.broker.messages key.topic key.partition).length ∧
          groupRead state.receipts (ascii "g") key =
            (state.world.broker.messages key.topic key.partition).take count ∧
          (count = reportedOffset state.groups (ascii "g") key ∨
            ∃ id client, state.clients.find id = some client ∧ client.group = ascii "g" ∧
              client.uncommitted key = some count) := by
  have evaluated : ((Transition.run consumerStep ⟨freshWorld, ∅, []⟩ readShared).map fun state =>
      (groupRead state.receipts (ascii "g") ⟨ascii "t", 0⟩,
        groupRead state.receipts (ascii "g") ⟨ascii "t", 1⟩)) =
      some ([ascii "a", ascii "c"], [ascii "b"]) := by
    decide +kernel
  have undisputed : Transition.StepsMeet (fun state event => ConsumerEvent.Undisputed state event)
      consumerStep ⟨freshWorld, ∅, []⟩ readShared := by
    decide +kernel
  have uninterrupted : ∀ key ∈ [⟨ascii "t", 0⟩, ⟨ascii "t", 1⟩],
      Transition.StepsMeet (fun state event => ∀ next ∈ consumerStep state event,
        Uninterrupted (ascii "g") key state next) consumerStep ⟨freshWorld, ∅, []⟩ readShared := by
    decide +kernel
  obtain ⟨state, reached, received⟩ := Option.map_eq_some_iff.mp evaluated
  obtain ⟨first, second⟩ := Prod.mk.inj received
  refine ⟨state, reached, first, second, fun key member => ?_⟩
  refine read_exactly_once rfl ?_ reached undisputed (uninterrupted key member)
  intro topic partition message stored
  simp [freshWorld, Broker.messages] at stored

end KafkaBroker
