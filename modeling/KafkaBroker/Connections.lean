import KafkaBroker.Broker
import KafkaBroker.ConnectionsCore
import KafkaBroker.Groups

/-!
Who owns a membership. Every member of a group is on the list of some connection, so
that nothing is left once all connections have closed; but a list may name a member
that joined again through another connection, and closing then removes it.
-/

namespace KafkaBroker

open ByteText

/-! Members. -/

def IsMember (groups : ConsumerGroups) (membership : Membership) : Prop :=
  ∃ group, groups.find membership.1 = some group ∧ (group.members.find membership.2).isSome

instance (groups : ConsumerGroups) (membership : Membership) :
    Decidable (IsMember groups membership) :=
  decidable_of_iff (∃ group ∈ groups.find membership.1, (group.members.find membership.2).isSome)
    Iff.rfl

theorem isMember_set (groups : ConsumerGroups) (groupId : Bytes) (group : ConsumerGroup)
    (membership : Membership) : IsMember (groups.set groupId group) membership ↔
      if membership.1 = groupId then (group.members.find membership.2).isSome = true
      else IsMember groups membership := by
  unfold IsMember
  rw [Table.find_set]
  split <;> simp

theorem rebalanceGroup_isSome (group : ConsumerGroup) (consumerId : Bytes) :
    ((rebalanceGroup group).members.find consumerId).isSome =
      (group.members.find consumerId).isSome := by
  rw [rebalanceGroup_find, Option.isSome_map]

theorem isMember_of_find {groups : ConsumerGroups} {group : ConsumerGroup} {membership : Membership}
    (found : groups.find membership.1 = some group) :
    IsMember groups membership ↔ (group.members.find membership.2).isSome = true := by
  simp [IsMember, found]

theorem isMember_storeAfterRemoval {groups : ConsumerGroups} {groupId : Bytes}
    {group : ConsumerGroup} (found : groups.find groupId = some group) (consumerId : Bytes)
    (membership : Membership) :
    IsMember (storeAfterRemoval groups groupId (eraseMember group consumerId)) membership ↔
      IsMember groups membership ∧ membership ≠ (groupId, consumerId) := by
  obtain ⟨queryGroup, queryConsumer⟩ := membership
  unfold storeAfterRemoval
  split
  · rename_i empty
    rw [Table.entries_eq_nil_iff] at empty
    simp only [eraseMember, Table.find_remove] at empty
    by_cases here : queryGroup = groupId
    · subst here
      have only := empty queryConsumer
      simp only [IsMember, Table.find_remove, if_true, found]
      by_cases same : queryConsumer = consumerId
      · simp [same]
      · simp only [same, if_false] at only
        simp [only]
    · simp [IsMember, here]
  · rw [isMember_set]
    by_cases here : queryGroup = groupId
    · subst here
      simp only [if_true, rebalanceGroup_isSome, eraseMember, Table.find_remove, IsMember, found]
      by_cases same : queryConsumer = consumerId
      · simp [same]
      · simp [same]
    · simp [here]

theorem isMember_remove (groups : ConsumerGroups) (groupId consumerId : Bytes)
    (membership : Membership) :
    IsMember (removeConsumerFromGroup groups groupId consumerId) membership ↔
      IsMember groups membership ∧ membership ≠ (groupId, consumerId) := by
  unfold removeConsumerFromGroup
  split
  · rename_i absent
    refine ⟨fun member => ⟨member, ?_⟩, And.left⟩
    rintro rfl
    obtain ⟨_, found, _⟩ := member
    simp [absent] at found
  · rename_i group found
    exact isMember_storeAfterRemoval found consumerId membership

theorem isMember_joined (groups : ConsumerGroups) (req : Request) (group : ConsumerGroup)
    (fresh : ∀ consumerId, (group.members.find consumerId).isSome = true ↔
      IsMember groups (req.groupId, consumerId)) (member : GroupMember) (membership : Membership) :
    IsMember (groups.set req.groupId (rebalanceGroup { group with
        members := group.members.set req.consumerId member })) membership ↔
      IsMember groups membership ∨ membership = (req.groupId, req.consumerId) := by
  obtain ⟨queryGroup, queryConsumer⟩ := membership
  rw [isMember_set]
  by_cases here : queryGroup = req.groupId
  · subst here
    rw [if_pos rfl, rebalanceGroup_isSome, Table.find_set]
    by_cases same : queryConsumer = req.consumerId
    · simp [same]
    · simp [same, fresh]
  · simp [here]

theorem joinGroup_spec (groups : ConsumerGroups) (req : Request) :
    ((joinGroup groups req).1 = ascii "OK" ↔ ¬IsMember groups (req.groupId, req.consumerId)) ∧
      ∀ membership, IsMember (joinGroup groups req).2 membership ↔
        IsMember groups membership ∨ membership = (req.groupId, req.consumerId) := by
  have refused : ascii "ERROR" ≠ ascii "OK" := by decide
  simp only [joinGroup, Table.find_emplace, if_true, Option.getD_some, Table.emplace_set]
  cases found : groups.find req.groupId with
  | none =>
      simp only [Option.getD_none, Table.find_empty, Option.isSome_none, Bool.false_eq_true, if_false]
      refine ⟨by simp [IsMember, found], ?_⟩
      exact isMember_joined groups req ⟨req.groupId, ∅, ∅⟩ (by simp [IsMember, found]) _
  | some group =>
      simp only [Option.getD_some]
      split
      · rename_i present
        rw [Table.emplace_of_find found]
        refine ⟨by simp [refused, IsMember, found, present], fun membership => ⟨Or.inl, ?_⟩⟩
        rintro (member | rfl)
        · exact member
        · exact ⟨group, found, present⟩
      · rename_i new
        refine ⟨by simpa [IsMember, found] using new, ?_⟩
        exact isMember_joined groups req group (by simp [IsMember, found]) _

theorem leaveGroup_spec (groups : ConsumerGroups) (req : Request) :
    ((leaveGroup groups req).1 = ascii "OK" ↔ IsMember groups (req.groupId, req.consumerId)) ∧
      ∀ membership, IsMember (leaveGroup groups req).2 membership ↔
        IsMember groups membership ∧ membership ≠ (req.groupId, req.consumerId) := by
  have refused : ascii "ERROR" ≠ ascii "OK" := by decide
  have absent (stranger : ¬IsMember groups (req.groupId, req.consumerId)) (membership : Membership) :
      IsMember groups membership ↔
        IsMember groups membership ∧ membership ≠ (req.groupId, req.consumerId) := by
    refine ⟨fun member => ⟨member, ?_⟩, And.left⟩
    rintro rfl
    exact stranger member
  unfold leaveGroup
  split
  · rename_i missing
    have stranger : ¬IsMember groups (req.groupId, req.consumerId) := by
      simp [IsMember, missing]
    exact ⟨by simp [refused, stranger], absent stranger⟩
  · rename_i group found
    split
    · rename_i missing
      have stranger : ¬IsMember groups (req.groupId, req.consumerId) := by
        rw [Option.isNone_iff_eq_none] at missing
        simp [IsMember, found, missing]
      exact ⟨by simp [refused, stranger], absent stranger⟩
    · rename_i present
      refine ⟨?_, isMember_storeAfterRemoval found req.consumerId⟩
      simp only [true_iff]
      exact ⟨group, found, by simpa [Option.isSome_iff_ne_none] using present⟩

theorem commitOffset_isMember (groups : ConsumerGroups) (partitionCount? : Option Nat)
    (req : Request) (membership : Membership) :
    IsMember (commitOffset groups partitionCount? req).2 membership ↔
      IsMember groups membership := by
  unfold commitOffset
  split
  · rfl
  · rename_i group found
    split
    · rfl
    · split
      · rfl
      · split
        · rfl
        · rw [isMember_set]
          split
          · rename_i here
            rw [isMember_of_find (here ▸ found)]
          · rfl

/-! The groups after a request. -/

def groupEvent? (partitionCount? : Option Nat) (req : Request) : Option GroupEvent :=
  match req.type with
  | .join => some (.join req)
  | .leave => some (.leave req)
  | .commit => some (.commit partitionCount? req)
  | _ => none

theorem appendLocal_groups (broker : Broker) (disk : Posix.FileSystem) (calls : AppendCalls)
    (req : Request) :
    (appendLocal broker disk calls req).2.1.consumerGroups = broker.consumerGroups := by
  simp only [appendLocal]
  split
  · rfl
  · split
    · rfl
    · split <;> rfl

theorem replicate_groups (calls : AppendCalls) (broker : Broker) (disk : Posix.FileSystem)
    (req : Request) :
    (replicate calls broker disk req).2.1.consumerGroups = broker.consumerGroups := by
  simp only [replicate]
  split
  · rfl
  · split
    · rfl
    · split
      · rfl
      · split <;> rfl

theorem produce_groups {σ : Type} (env : Environment σ) (world : World σ) (req : Request) :
    (produce env world req).2.broker.consumerGroups = world.broker.consumerGroups := by
  have appended := appendLocal_groups world.broker world.disk env.calls req
  simp only [produce]
  split
  · exact appended
  · exact appended
  · exact appended
  · split
    · split <;> exact appended
    · exact appended

theorem handleRequest_groups {σ : Type} (env : Environment σ) (world : World σ) (req : Request) :
    ∃ partitionCount?, match groupEvent? partitionCount? req with
      | none => (handleRequest env world req).2.broker.consumerGroups =
          world.broker.consumerGroups
      | some event => (handleRequest env world req).2.broker.consumerGroups =
          (groupStep world.broker.consumerGroups event).2 ∧
          (handleRequest env world req).1 =
            .returned (groupStep world.broker.consumerGroups event).1 := by
  obtain ⟨metrics, after, returned, _⟩ := handleRequest_eq env world req
  refine ⟨(world.broker.topics.find req.topic).map fun topic => topic.partitions.length, ?_⟩
  rw [after]
  cases typed : req.type with
  | join =>
      simp only [groupEvent?, typed, dispatch, groupStep]
      exact ⟨rfl, (returned _).mpr ⟨_, by simp only [dispatch, typed]; rfl⟩⟩
  | leave =>
      simp only [groupEvent?, typed, dispatch, groupStep]
      exact ⟨rfl, (returned _).mpr ⟨_, by simp only [dispatch, typed]; rfl⟩⟩
  | commit =>
      simp only [groupEvent?, typed, dispatch, groupStep]
      exact ⟨rfl, (returned _).mpr ⟨_, by simp only [dispatch, typed]; rfl⟩⟩
  | produce =>
      simp only [groupEvent?, typed, dispatch]
      exact produce_groups env world req
  | replicate =>
      simp only [groupEvent?, typed, dispatch]
      exact replicate_groups env.calls world.broker world.disk req
  | _ => simp only [groupEvent?, typed, dispatch]

section Requests

variable {σ : Type} {env : Environment σ} {world : World σ} {req : Request}

theorem handleRequest_threw_groups (ended : (handleRequest env world req).1 = .threw) :
    (handleRequest env world req).2.broker.consumerGroups = world.broker.consumerGroups := by
  obtain ⟨partitionCount?, effect⟩ := handleRequest_groups env world req
  split at effect
  · exact effect
  · rw [ended] at effect
    simp at effect

inductive MemberChange (world : World σ) (req : Request) (response : Bytes)
    (after : ConsumerGroups) : Prop
  | joined (type : req.type = .join) (answered : response = ascii "OK")
      (new : ¬IsMember world.broker.consumerGroups (req.groupId, req.consumerId))
      (members : ∀ membership, IsMember after membership ↔
        IsMember world.broker.consumerGroups membership ∨
          membership = (req.groupId, req.consumerId))
  | left (type : req.type = .leave) (answered : response = ascii "OK")
      (members : ∀ membership, IsMember after membership ↔
        IsMember world.broker.consumerGroups membership ∧
          membership ≠ (req.groupId, req.consumerId))
  | same (untracked : ∀ joinedGroups, trackMembership joinedGroups req response = joinedGroups)
      (members : ∀ membership, IsMember after membership ↔
        IsMember world.broker.consumerGroups membership)

theorem trackMembership_other (neither : req.type ≠ .join ∧ req.type ≠ .leave) (response : Bytes)
    (joinedGroups : List Membership) :
    trackMembership joinedGroups req response = joinedGroups := by
  simp [trackMembership, neither.1, neither.2]

theorem trackMembership_refused {response : Bytes} (refused : response ≠ ascii "OK")
    (joinedGroups : List Membership) :
    trackMembership joinedGroups req response = joinedGroups := by
  simp [trackMembership, refused]

theorem handleRequest_members {response : Bytes}
    (returned : (handleRequest env world req).1 = .returned response) :
    MemberChange world req response (handleRequest env world req).2.broker.consumerGroups := by
  obtain ⟨partitionCount?, effect⟩ := handleRequest_groups env world req
  cases typed : req.type with
  | join =>
      simp only [groupEvent?, typed, returned, Outcome.returned.injEq] at effect
      obtain ⟨after, rfl⟩ := effect
      obtain ⟨answer, members⟩ := joinGroup_spec world.broker.consumerGroups req
      by_cases new : IsMember world.broker.consumerGroups (req.groupId, req.consumerId)
      · refine .same (trackMembership_refused fun answered => answer.mp answered new) ?_
        intro membership
        rw [after]
        refine (members membership).trans ⟨?_, Or.inl⟩
        rintro (member | rfl)
        · exact member
        · exact new
      · refine .joined typed (answer.mpr new) new fun membership => ?_
        rw [after]
        exact members membership
  | leave =>
      simp only [groupEvent?, typed, returned, Outcome.returned.injEq] at effect
      obtain ⟨after, rfl⟩ := effect
      obtain ⟨answer, members⟩ := leaveGroup_spec world.broker.consumerGroups req
      by_cases member : IsMember world.broker.consumerGroups (req.groupId, req.consumerId)
      · refine .left typed (answer.mpr member) fun membership => ?_
        rw [after]
        exact members membership
      · refine .same (trackMembership_refused fun answered => member (answer.mp answered)) ?_
        intro membership
        rw [after]
        refine (members membership).trans ⟨And.left, fun inside => ⟨inside, ?_⟩⟩
        rintro rfl
        exact member inside
  | commit =>
      simp only [groupEvent?, typed] at effect
      refine .same (trackMembership_other (by simp [typed]) response) fun membership => ?_
      rw [effect.1]
      exact commitOffset_isMember _ _ _ _
  | _ =>
      simp only [groupEvent?, typed] at effect
      refine .same (trackMembership_other (by simp [typed]) response) fun membership => ?_
      rw [effect]

end Requests

/-! The steps. -/

/-- The memberships a connection answers for: its list with a pending update, and during
the cleanup what is left of it. -/
def Connection.owned (connection : Connection) : List Membership :=
  match connection.phase with
  | .executed req response => trackMembership connection.joinedGroups req response
  | .closing remaining => remaining
  | _ => connection.joinedGroups

def Connection.Sound (connection : Connection) : Prop :=
  ∀ remaining, connection.phase = .closing remaining →
    ∀ membership ∈ remaining, membership ∈ connection.joinedGroups

section Steps

variable {σ : Type} {state next : ServerState σ} {event : ServerEvent σ}

inductive StepChange (state : ServerState σ) (event : ServerEvent σ) (next : ServerState σ)
    (id : Nat) : Prop
  | accepted (free : state.connections.find id = none)
      (after : next.connections.find id = some {}) (groups : next.groups = state.groups)
  | executed (joinedGroups : List Membership) (raw : Bytes) (env : Environment σ)
      (response : Bytes) (isRequest : event = .request id raw env)
      (before : state.connections.find id = some ⟨joinedGroups, .idle⟩)
      (after : next.connections.find id =
        some ⟨joinedGroups, .executed (parseRequest raw) response⟩)
      (returned : (handleRequest env state.world (parseRequest raw)).1 = .returned response)
      (world : next.world = (handleRequest env state.world (parseRequest raw)).2)
  | moved (before after : Connection) (found : state.connections.find id = some before)
      (stored : next.connections.find id = some after) (owned : after.owned = before.owned)
      (sound : before.Sound → after.Sound) (groups : next.groups = state.groups)
  | removed (joinedGroups : List Membership) (membership : Membership)
      (remaining : List Membership)
      (before : state.connections.find id =
        some ⟨joinedGroups, .closing (membership :: remaining)⟩)
      (after : next.connections.find id = some ⟨joinedGroups, .closing remaining⟩)
      (groups : next.groups = removeConsumerFromGroup state.groups membership.1 membership.2)
  | closed (joinedGroups : List Membership)
      (before : state.connections.find id = some ⟨joinedGroups, .closing []⟩)
      (after : next.connections.find id = none) (groups : next.groups = state.groups)

@[simp] theorem update_find (state : ServerState σ) (id other : Nat) (connection : Connection) :
    (state.update id connection).connections.find other =
      if other = id then some connection else state.connections.find other := by
  simp [ServerState.update]

theorem update_find_self (state : ServerState σ) (id : Nat) (connection : Connection) :
    (state.update id connection).connections.find id = some connection := by
  simp

@[simp] theorem update_groups (state : ServerState σ) (id : Nat) (connection : Connection) :
    (state.update id connection).groups = state.groups := by
  rfl

theorem serverStep_change (stepped : serverStep state event = some next) :
    ∃ id, StepChange state event next id ∧
      ∀ other, other ≠ id → next.connections.find other = state.connections.find other := by
  have closes (joinedGroups : List Membership) :
      (Connection.mk joinedGroups (.closing joinedGroups)).Sound := by
    intro remaining phase membership member
    rw [Phase.closing.injEq] at phase
    exact phase ▸ member
  cases event with
  | accept id =>
      simp only [serverStep] at stepped
      split at stepped
      · simp at stepped
      · rename_i free
        simp only [Option.some.injEq] at stepped
        subst stepped
        refine ⟨id, .accepted (by simpa using free) (by simp) (by simp), ?_⟩
        simp +contextual
  | request id raw env =>
      simp only [serverStep] at stepped
      split at stepped
      · rename_i joinedGroups found
        split at stepped
        · simp at stepped
        · rename_i threw
          simp only [Option.some.injEq] at stepped
          subst stepped
          refine ⟨id, .moved _ ⟨joinedGroups, .closing joinedGroups⟩ found (by simp) rfl
            (fun _ => closes joinedGroups) ?_, by simp +contextual⟩
          exact handleRequest_threw_groups threw
        · rename_i response returned
          simp only [Option.some.injEq] at stepped
          subst stepped
          exact ⟨id, .executed joinedGroups raw env response rfl found (by simp) returned rfl,
            by simp +contextual⟩
      · simp at stepped
  | record id =>
      simp only [serverStep] at stepped
      split at stepped
      · rename_i joinedGroups req response found
        simp only [Option.some.injEq] at stepped
        subst stepped
        exact ⟨id, .moved _ ⟨trackMembership joinedGroups req response, .recorded response⟩ found
          (by simp) rfl (fun _ => by simp [Connection.Sound]) rfl, by simp +contextual⟩
      · simp at stepped
  | respond id sent =>
      simp only [serverStep] at stepped
      split at stepped
      · rename_i joinedGroups response found
        split at stepped
        · simp only [Option.some.injEq] at stepped
          subst stepped
          exact ⟨id, .moved _ ⟨joinedGroups, .idle⟩ found (by simp) rfl
            (fun _ => by simp [Connection.Sound]) rfl, by simp +contextual⟩
        · simp only [Option.some.injEq] at stepped
          subst stepped
          exact ⟨id, .moved _ ⟨joinedGroups, .closing joinedGroups⟩ found (by simp) rfl
            (fun _ => closes joinedGroups) rfl, by simp +contextual⟩
      · simp at stepped
  | hangup id =>
      simp only [serverStep] at stepped
      split at stepped
      · rename_i joinedGroups found
        simp only [Option.some.injEq] at stepped
        subst stepped
        exact ⟨id, .moved _ ⟨joinedGroups, .closing joinedGroups⟩ found (by simp) rfl
          (fun _ => closes joinedGroups) rfl, by simp +contextual⟩
      · simp at stepped
  | remove id =>
      simp only [serverStep] at stepped
      split at stepped
      · rename_i joinedGroups membership remaining found
        simp only [Option.some.injEq] at stepped
        subst stepped
        exact ⟨id, .removed joinedGroups membership remaining found (by simp) rfl,
          by simp +contextual⟩
      · simp at stepped
  | close id =>
      simp only [serverStep] at stepped
      split at stepped
      · rename_i joinedGroups found
        simp only [Option.some.injEq] at stepped
        subst stepped
        exact ⟨id, .closed joinedGroups found (by simp) rfl, by simp +contextual⟩
      · simp at stepped

end Steps

/-! Every member has an owner. -/

def Connection.AboutToRecord (connection : Connection) (membership : Membership) : Prop :=
  ∃ req, connection.phase = .executed req (ascii "OK") ∧ req.type = .join ∧
    (req.groupId, req.consumerId) = membership

theorem Connection.Sound.listed {connection : Connection} (sound : connection.Sound)
    {membership : Membership} (owned : membership ∈ connection.owned) :
    membership ∈ connection.joinedGroups ∨ connection.AboutToRecord membership := by
  unfold Connection.owned at owned
  split at owned
  · rename_i req response phase
    unfold trackMembership at owned
    split at owned
    · rename_i joins
      rcases List.mem_append.mp owned with listed | last
      · exact Or.inl listed
      · exact Or.inr ⟨req, by rw [phase, joins.1], joins.2, (List.mem_singleton.mp last).symm⟩
    · split at owned
      · exact Or.inl (List.mem_of_mem_erase owned)
      · exact Or.inl owned
  · rename_i remaining phase
    exact Or.inl (sound remaining phase membership owned)
  · exact Or.inl owned

structure Covered {σ : Type} (state : ServerState σ) : Prop where
  owned : ∀ membership, IsMember state.groups membership →
    ∃ id connection, state.connections.find id = some connection ∧ membership ∈ connection.owned
  sound : ∀ id connection, state.connections.find id = some connection → connection.Sound
  balanced : AllBalanced state.groups

section Covered

variable {σ : Type} {state next : ServerState σ}

theorem MemberChange.owned {world : World σ} {req : Request} {response : Bytes}
    {after : ConsumerGroups} (change : MemberChange world req response after)
    {membership : Membership} (member : IsMember after membership) (joinedGroups : List Membership) :
    membership ∈ trackMembership joinedGroups req response ∨
      IsMember world.broker.consumerGroups membership ∧
        (membership ∈ joinedGroups → membership ∈ trackMembership joinedGroups req response) := by
  cases change with
  | joined type answered _ members =>
      simp only [trackMembership, answered, type, and_self, if_true]
      rcases (members membership).mp member with earlier | new
      · exact Or.inr ⟨earlier, fun listed => by simp [listed]⟩
      · exact Or.inl (by simp [new])
  | left type answered members =>
      obtain ⟨earlier, other⟩ := (members membership).mp member
      refine Or.inr ⟨earlier, fun listed => ?_⟩
      simp only [trackMembership, answered, type, reduceCtorEq, and_false, if_false, and_self,
        if_true]
      exact (List.mem_erase_of_ne other).mpr listed
  | same untracked members =>
      rw [untracked]
      exact Or.inr ⟨(members membership).mp member, id⟩

theorem Covered.owned_step (covered : Covered state) {event : ServerEvent σ} {id : Nat}
    (change : StepChange state event next id)
    (frame : ∀ other, other ≠ id → next.connections.find other = state.connections.find other)
    (membership : Membership) (member : IsMember next.groups membership) :
    ∃ id connection, next.connections.find id = some connection ∧
      membership ∈ connection.owned := by
  -- the owner before the step still owns the membership, unless it is the moving connection
  have carry (earlier : IsMember state.groups membership)
      (here : ∀ connection, state.connections.find id = some connection →
        membership ∈ connection.owned →
        ∃ after, next.connections.find id = some after ∧ membership ∈ after.owned) :
      ∃ id connection, next.connections.find id = some connection ∧
        membership ∈ connection.owned := by
    obtain ⟨owner, connection, found, owns⟩ := covered.owned membership earlier
    by_cases same : owner = id
    · subst same
      obtain ⟨after, stored, still⟩ := here connection found owns
      exact ⟨owner, after, stored, still⟩
    · exact ⟨owner, connection, by rw [frame owner same, found], owns⟩
  cases change with
  | accepted free after groups =>
      refine carry (groups ▸ member) fun connection found _ => ?_
      simp [free] at found
  | executed joinedGroups raw env response _ before after returned world =>
      have changed := handleRequest_members returned
      rw [ServerState.groups, world] at member
      rcases changed.owned member joinedGroups with owned | ⟨earlier, kept⟩
      · exact ⟨id, _, after, owned⟩
      · refine carry earlier fun connection found owns => ⟨_, after, ?_⟩
        rw [before, Option.some.injEq] at found
        subst found
        exact kept owns
  | moved before after found stored owned _ groups =>
      refine carry (groups ▸ member) fun connection same owns => ⟨after, stored, ?_⟩
      rw [found, Option.some.injEq] at same
      rw [owned, same]
      exact owns
  | removed joinedGroups target remaining before after groups =>
      rw [groups, isMember_remove] at member
      refine carry member.1 fun connection found owns => ⟨_, after, ?_⟩
      rw [before, Option.some.injEq] at found
      subst found
      exact (List.mem_cons.mp owns).resolve_left member.2
  | closed joinedGroups before after groups =>
      refine carry (groups ▸ member) fun connection found owns => ?_
      rw [before, Option.some.injEq] at found
      subst found
      simp [Connection.owned] at owns

theorem Covered.sound_step (covered : Covered state) {event : ServerEvent σ} {id : Nat}
    (change : StepChange state event next id)
    (frame : ∀ other, other ≠ id → next.connections.find other = state.connections.find other)
    (other : Nat) (connection : Connection)
    (stored : next.connections.find other = some connection) : connection.Sound := by
  by_cases same : other = id
  · subst same
    cases change with
    | accepted free after _ =>
        rw [after, Option.some.injEq] at stored
        subst stored
        simp [Connection.Sound]
    | executed joinedGroups raw env response _ before after =>
        rw [after, Option.some.injEq] at stored
        subst stored
        simp [Connection.Sound]
    | moved before after found target _ sound =>
        rw [target, Option.some.injEq] at stored
        exact stored ▸ sound (covered.sound other before found)
    | removed joinedGroups target remaining before after =>
        rw [after, Option.some.injEq] at stored
        subst stored
        intro left phase membership member
        rw [Phase.closing.injEq] at phase
        subst phase
        exact covered.sound other _ before _ rfl membership (by simp [member])
    | closed joinedGroups before after =>
        simp [after] at stored
  · rw [frame other same] at stored
    exact covered.sound other connection stored

theorem handleRequest_balanced {world : World σ} (balanced : AllBalanced world.broker.consumerGroups)
    (env : Environment σ) (req : Request) :
    AllBalanced (handleRequest env world req).2.broker.consumerGroups := by
  obtain ⟨partitionCount?, effect⟩ := handleRequest_groups env world req
  split at effect
  · rw [effect]
    exact balanced
  · rw [effect.1]
    exact groupStep_balanced balanced _

theorem covered_step (state : ServerState σ) (event : ServerEvent σ) (next : ServerState σ)
    (covered : Covered state) (stepped : serverStep state event = some next) : Covered next := by
  obtain ⟨id, change, frame⟩ := serverStep_change stepped
  refine ⟨covered.owned_step change frame, covered.sound_step change frame, ?_⟩
  cases change with
  | accepted _ _ groups => exact groups ▸ covered.balanced
  | executed _ raw env _ _ _ _ _ world =>
      rw [ServerState.groups, world]
      exact handleRequest_balanced covered.balanced env _
  | moved _ _ _ _ _ _ groups => exact groups ▸ covered.balanced
  | removed _ membership _ _ _ groups =>
      rw [groups]
      exact groupStep_balanced covered.balanced (.disconnect membership.1 membership.2)
  | closed _ _ _ groups => exact groups ▸ covered.balanced

/-- No leaked membership: every member is on the list of a live connection, or about to be,
and once every connection has closed no group is left. -/
theorem members_have_owners {world : World σ} (fresh : world.broker.consumerGroups = ∅)
    {events : List (ServerEvent σ)} {final : ServerState σ}
    (reached : Transition.run serverStep ⟨world, ∅⟩ events = some final) :
    (∀ membership, IsMember final.groups membership → ∃ id connection,
        final.connections.find id = some connection ∧
          (membership ∈ connection.joinedGroups ∨ connection.AboutToRecord membership)) ∧
      ((∀ id, final.connections.find id = none) → final.groups = ∅) := by
  have start : Covered (⟨world, ∅⟩ : ServerState σ) := by
    refine ⟨?_, by simp, ?_⟩
    · rintro membership ⟨group, found, _⟩
      simp [ServerState.groups, fresh] at found
    · intro groupId group found
      simp [ServerState.groups, fresh] at found
  have covered := Transition.run_invariant Covered covered_step start reached
  constructor
  · intro membership member
    obtain ⟨id, connection, found, owns⟩ := covered.owned membership member
    exact ⟨id, connection, found, (covered.sound id connection found).listed owns⟩
  · intro closed
    apply AList.ext
    rw [Table.entries_eq_nil_iff final.groups |>.mpr]
    · rfl
    · intro groupId
      cases stored : final.groups.find groupId with
      | none => rfl
      | some group =>
          have nonempty := (covered.balanced groupId group stored).nonempty
          rw [ne_eq, Table.entries_eq_nil_iff] at nonempty
          push Not at nonempty
          obtain ⟨consumerId, present⟩ := nonempty
          have member : IsMember final.groups (groupId, consumerId) :=
            ⟨group, stored, Option.isSome_iff_ne_none.mpr present⟩
          obtain ⟨id, connection, found, _⟩ := covered.owned _ member
          simp [closed id] at found

end Covered

def groupEnv : Environment Unit :=
  { link := fun peer _ => (peer, none), calls := ⟨none, [], [], [], none⟩ }

def groupRequest (id : Nat) (text : String) : ServerEvent Unit :=
  .request id (ascii text) groupEnv

def freshWorld : World Unit := ⟨{}, ∅, ()⟩

def joinedRun : List (ServerEvent Unit) :=
  [.accept 1, groupRequest 1 "JOIN g a t", .record 1]

/-- The answer to the `JOIN` cannot be sent. -/
def brokenAnswer : List (ServerEvent Unit) :=
  [.respond 1 false, .remove 1, .close 1]

theorem members_have_owners_broken :
    ∃ joined final, Transition.run serverStep ⟨freshWorld, ∅⟩ joinedRun = some joined ∧
      IsMember joined.groups (ascii "g", ascii "a") ∧
      (∃ id connection, joined.connections.find id = some connection ∧
        ((ascii "g", ascii "a") ∈ connection.joinedGroups ∨
          connection.AboutToRecord (ascii "g", ascii "a"))) ∧
      Transition.run serverStep joined brokenAnswer = some final ∧
      (∀ id, final.connections.find id = none) ∧ final.groups = ∅ := by
  have evaluated : ((Transition.run serverStep ⟨freshWorld, ∅⟩ joinedRun).bind fun joined =>
      (Transition.run serverStep joined brokenAnswer).map fun final =>
        (decide (IsMember joined.groups (ascii "g", ascii "a")), final.connections.entries)) =
      some (true, []) := by
    decide +kernel
  obtain ⟨joined, reached, evaluated⟩ := Option.bind_eq_some_iff.mp evaluated
  obtain ⟨final, broken, facts⟩ := Option.map_eq_some_iff.mp evaluated
  rw [Prod.mk.injEq, decide_eq_true_eq, Table.entries_eq_nil_iff] at facts
  have whole : Transition.run serverStep ⟨freshWorld, ∅⟩ (joinedRun ++ brokenAnswer) =
      some final := by
    rw [Transition.run_append reached, broken]
  exact ⟨joined, final, reached, facts.1, (members_have_owners rfl reached).1 _ facts.1, broken,
    facts.2, (members_have_owners rfl whole).2 facts.2⟩

/-! How long a membership lasts. -/

def LeaveAnswered {σ : Type} (membership : Membership) (state : ServerState σ)
    (event : ServerEvent σ) : Prop :=
  ∃ id raw env, event = .request id raw env ∧ (parseRequest raw).type = .leave ∧
    ((parseRequest raw).groupId, (parseRequest raw).consumerId) = membership ∧
    (handleRequest env state.world (parseRequest raw)).1 = .returned (ascii "OK")

def ServerState.Open {σ : Type} (state : ServerState σ) (id : Nat) : Prop :=
  ∃ connection, state.connections.find id = some connection ∧
    ∀ remaining, connection.phase ≠ .closing remaining

/-- A step that neither ends the membership by a `LEAVE` nor closes the connection. -/
def LeftAlone {σ : Type} (membership : Membership) (id : Nat) (state : ServerState σ)
    (event : ServerEvent σ) : Prop :=
  ¬LeaveAnswered membership state event ∧
    ∀ next, serverStep state event = some next → next.Open id

def SoleOwner {σ : Type} (membership : Membership) (id : Nat) (state : ServerState σ) : Prop :=
  ∀ other connection, other ≠ id → state.connections.find other = some connection →
    membership ∉ connection.owned

section Lasting

variable {σ : Type} {state next : ServerState σ} {membership : Membership} {id : Nat}

structure Lasting (membership : Membership) (id : Nat) (state : ServerState σ) : Prop where
  member : IsMember state.groups membership
  isOpen : state.Open id
  sole : SoleOwner membership id state

theorem MemberChange.kept {world : World σ} {req : Request} {response : Bytes}
    {after : ConsumerGroups} (change : MemberChange world req response after)
    (member : IsMember world.broker.consumerGroups membership)
    (noLeave : ¬(req.type = .leave ∧ (req.groupId, req.consumerId) = membership ∧
      response = ascii "OK")) :
    IsMember after membership ∧ ∀ joinedGroups, membership ∉ joinedGroups →
      membership ∉ trackMembership joinedGroups req response := by
  cases change with
  | joined type answered new members =>
      refine ⟨(members membership).mpr (Or.inl member), fun joinedGroups absent => ?_⟩
      simp only [trackMembership, answered, type, and_self, if_true, List.mem_append,
        List.mem_singleton, not_or]
      refine ⟨absent, ?_⟩
      rintro rfl
      exact new member
  | left type answered members =>
      refine ⟨(members membership).mpr ⟨member, ?_⟩, fun joinedGroups absent => ?_⟩
      · exact fun same => noLeave ⟨type, same.symm, answered⟩
      · simp only [trackMembership, answered, type, reduceCtorEq, and_false, if_false, and_self,
          if_true]
        exact fun listed => absent (List.mem_of_mem_erase listed)
  | same untracked members =>
      refine ⟨(members membership).mpr member, fun joinedGroups absent => ?_⟩
      rw [untracked]
      exact absent

theorem lasting_step (lasting : Lasting membership id state) {event : ServerEvent σ}
    (alone : LeftAlone membership id state event) (stepped : serverStep state event = some next) :
    Lasting membership id next := by
  have stillOpen := alone.2 next stepped
  obtain ⟨mover, change, frame⟩ := serverStep_change stepped
  -- only the moving connection can come to own the membership
  have soleOf (here : mover ≠ id → ∀ connection, next.connections.find mover = some connection →
      membership ∉ connection.owned) : SoleOwner membership id next := by
    intro other connection different found
    by_cases same : other = mover
    · exact here (same ▸ different) connection (same ▸ found)
    · rw [frame other same] at found
      exact lasting.sole other connection different found
  cases change with
  | accepted free after groups =>
      refine ⟨groups ▸ lasting.member, stillOpen, soleOf fun _ connection found => ?_⟩
      rw [after, Option.some.injEq] at found
      subst found
      simp [Connection.owned]
  | executed joinedGroups raw env response isRequest before after returned world =>
      have kept := (handleRequest_members returned).kept lasting.member fun leave =>
        alone.1 ⟨mover, raw, env, isRequest, leave.1, leave.2.1, leave.2.2 ▸ returned⟩
      refine ⟨?_, stillOpen, soleOf fun different connection found => ?_⟩
      · rw [ServerState.groups, world]
        exact kept.1
      · rw [after, Option.some.injEq] at found
        subst found
        exact kept.2 joinedGroups (lasting.sole mover _ different before)
  | moved before after found stored owned _ groups =>
      refine ⟨groups ▸ lasting.member, stillOpen, soleOf fun different connection same => ?_⟩
      rw [stored, Option.some.injEq] at same
      rw [← same, owned]
      exact lasting.sole mover before different found
  | removed joinedGroups target remaining before after groups =>
      have different : mover ≠ id := by
        rintro rfl
        obtain ⟨connection, found, notClosing⟩ := lasting.isOpen
        rw [before, Option.some.injEq] at found
        subst found
        exact notClosing _ rfl
      have absent := lasting.sole mover _ different before
      simp only [Connection.owned, List.mem_cons, not_or] at absent
      refine ⟨?_, stillOpen, soleOf fun _ connection found => ?_⟩
      · rw [groups, isMember_remove]
        exact ⟨lasting.member, absent.1⟩
      · rw [after, Option.some.injEq] at found
        subst found
        exact absent.2
  | closed joinedGroups before after groups =>
      refine ⟨groups ▸ lasting.member, stillOpen, soleOf fun _ connection found => ?_⟩
      simp [after] at found

/-- Some continuation loses the membership although it leaves it alone. -/
def CanLose (membership : Membership) (id : Nat) (state : ServerState σ) : Prop :=
  ∃ later final, Transition.run serverStep state later = some final ∧
    Transition.StepsMeet (LeftAlone membership id) serverStep state later ∧
    ¬IsMember final.groups membership

theorem canLose_cons {other : Nat} {event : ServerEvent σ} (different : other ≠ id)
    (isOpen : state.Open id) (notRequest : ∀ conn raw env, event ≠ .request conn raw env)
    {world : World σ} {connection : Connection}
    (stepped : serverStep state event =
      some (ServerState.update { state with world } other connection))
    (rest : (ServerState.update { state with world } other connection).Open id →
      CanLose membership id (ServerState.update { state with world } other connection)) :
    CanLose membership id state := by
  have stillOpen : (ServerState.update { state with world } other connection).Open id := by
    obtain ⟨own, found, notClosing⟩ := isOpen
    exact ⟨own, by simp [different.symm, found], notClosing⟩
  obtain ⟨later, final, finished, alone, lost⟩ := rest stillOpen
  refine ⟨event :: later, final, ?_, ⟨⟨?_, ?_⟩, ?_⟩, lost⟩
  · rw [Transition.run_cons, stepped, Option.bind_some, finished]
  · rintro ⟨conn, raw, env, isRequest, _⟩
    exact notRequest conn raw env isRequest
  · intro next again
    rw [stepped, Option.some.injEq] at again
    exact again ▸ stillOpen
  · intro next again
    rw [stepped, Option.some.injEq] at again
    exact again ▸ alone

theorem closing_canLose {other : Nat} (different : other ≠ id) {joinedGroups : List Membership} :
    ∀ {remaining : List Membership} {state : ServerState σ}, state.Open id →
      state.connections.find other = some ⟨joinedGroups, .closing remaining⟩ →
      membership ∈ remaining → CanLose membership id state := by
  intro remaining
  induction remaining with
  | nil => simp
  | cons target remaining ih =>
      intro state isOpen found member
      let groups := removeConsumerFromGroup state.groups target.1 target.2
      have stepped : serverStep state (.remove other) = some (ServerState.update
          { state with world := withGroups state.world groups } other
          ⟨joinedGroups, .closing remaining⟩) := by
        simp only [serverStep, found, groups]
      refine canLose_cons different isOpen (by simp) stepped fun stillOpen => ?_
      by_cases here : membership = target
      · refine ⟨[], _, rfl, trivial, ?_⟩
        change ¬IsMember (removeConsumerFromGroup state.groups target.1 target.2) membership
        rw [isMember_remove]
        exact fun both => both.2 here
      · exact ih stillOpen (update_find_self _ _ _) ((List.mem_cons.mp member).resolve_left here)

theorem recorded_canLose {other : Nat} (different : other ≠ id) {joinedGroups : List Membership}
    {response : Bytes} {state : ServerState σ} (isOpen : state.Open id)
    (found : state.connections.find other = some ⟨joinedGroups, .recorded response⟩)
    (member : membership ∈ joinedGroups) : CanLose membership id state := by
  have stepped : serverStep state (.respond other false) =
      some (ServerState.update { state with world := state.world } other
        ⟨joinedGroups, .closing joinedGroups⟩) := by
    simp [serverStep, found]
  exact canLose_cons different isOpen (by simp) stepped fun stillOpen =>
    closing_canLose different stillOpen (update_find_self _ _ _) member

theorem owned_canLose {other : Nat} (different : other ≠ id) {connection : Connection}
    (isOpen : state.Open id) (found : state.connections.find other = some connection)
    (owned : membership ∈ connection.owned) : CanLose membership id state := by
  obtain ⟨joinedGroups, phase⟩ := connection
  cases phase with
  | idle =>
      have stepped : serverStep state (.hangup other) =
          some (ServerState.update { state with world := state.world } other
            ⟨joinedGroups, .closing joinedGroups⟩) := by
        simp only [serverStep, found]
      exact canLose_cons different isOpen (by simp) stepped fun stillOpen =>
        closing_canLose different stillOpen (update_find_self _ _ _) owned
  | executed req response =>
      have stepped : serverStep state (.record other) =
          some (ServerState.update { state with world := state.world } other
            ⟨trackMembership joinedGroups req response, .recorded response⟩) := by
        simp only [serverStep, found]
      exact canLose_cons different isOpen (by simp) stepped fun stillOpen =>
        recorded_canLose different stillOpen (update_find_self _ _ _) owned
  | recorded response => exact recorded_canLose different isOpen found owned
  | closing remaining => exact closing_canLose different isOpen found owned

theorem request_returned {raw : Bytes} {env : Environment σ} {response : Bytes}
    (stepped : serverStep state (.request id raw env) = some next)
    (answered : (handleRequest env state.world (parseRequest raw)).1 = .returned response) :
    ∃ joinedGroups, next = ServerState.update
      { state with world := (handleRequest env state.world (parseRequest raw)).2 } id
      ⟨joinedGroups, .executed (parseRequest raw) response⟩ := by
  simp only [serverStep] at stepped
  split at stepped
  · rename_i joinedGroups found
    simp only [answered, Option.some.injEq] at stepped
    exact ⟨joinedGroups, stepped.symm⟩
  · simp at stepped

/-- A membership created by a `JOIN` lasts, until a `LEAVE` for it is answered or its
connection closes, exactly when no other connection answers for the same pair at the
time of the `JOIN`. -/
theorem membership_lasts_iff {raw : Bytes} {env : Environment σ}
    (joins : (parseRequest raw).type = .join)
    (stepped : serverStep state (.request id raw env) = some next)
    (answered : (handleRequest env state.world (parseRequest raw)).1 = .returned (ascii "OK")) :
    (∀ later final, Transition.run serverStep next later = some final →
        Transition.StepsMeet
          (LeftAlone ((parseRequest raw).groupId, (parseRequest raw).consumerId) id)
          serverStep next later →
        IsMember final.groups ((parseRequest raw).groupId, (parseRequest raw).consumerId)) ↔
      SoleOwner ((parseRequest raw).groupId, (parseRequest raw).consumerId) id state := by
  obtain ⟨joinedGroups, nextEq⟩ := request_returned stepped answered
  have isOpen : next.Open id := by
    rw [nextEq]
    exact ⟨_, update_find_self _ _ _, by simp⟩
  have others (other : Nat) (different : other ≠ id) :
      next.connections.find other = state.connections.find other := by
    simp [nextEq, different]
  have groups : next.groups =
      (handleRequest env state.world (parseRequest raw)).2.broker.consumerGroups := by
    rw [nextEq]
    rfl
  constructor
  · intro lasts other connection different found owned
    have kept : next.connections.find other = some connection := by
      rw [others other different, found]
    obtain ⟨later, final, finished, alone, lost⟩ := owned_canLose different isOpen kept owned
    exact lost (lasts later final finished alone)
  · intro sole later final finished alone
    have member : IsMember next.groups
        ((parseRequest raw).groupId, (parseRequest raw).consumerId) := by
      rw [groups]
      cases handleRequest_members answered with
      | joined _ _ _ members => exact (members _).mpr (Or.inr rfl)
      | left type => simp [joins] at type
      | same untracked =>
          have unchanged := untracked []
          simp [trackMembership, joins] at unchanged
    have start : Lasting ((parseRequest raw).groupId, (parseRequest raw).consumerId) id next :=
      ⟨member, isOpen, fun other connection different found =>
        sole other connection different (by rw [← others other different, found])⟩
    have lasting := Transition.run_invariant_of_stepsMeet
      (Lasting ((parseRequest raw).groupId, (parseRequest raw).consumerId) id)
      (fun _ _ _ lasting alone stepped => lasting_step lasting alone stepped) start alone finished
    exact lasting.member

end Lasting

/-- Connection 1 joins, connection 2 sends the `LEAVE`; connection 1 keeps the pair on
its list. -/
def strayList : List (ServerEvent Unit) :=
  [.accept 1, .accept 2, .accept 3, groupRequest 1 "JOIN g a t", .record 1, .respond 1 true,
    groupRequest 2 "LEAVE g a", .record 2, .respond 2 true]

/-- The consumer joins again through connection 3 and is removed when connection 1 closes. -/
theorem membership_lost_to_other_connection :
    ∃ state next final, Transition.run serverStep ⟨freshWorld, ∅⟩ strayList = some state ∧
      serverStep state (groupRequest 3 "JOIN g a t") = some next ∧
      next.connections.find 3 =
        some ⟨[], .executed (parseRequest (ascii "JOIN g a t")) (ascii "OK")⟩ ∧
      IsMember next.groups (ascii "g", ascii "a") ∧
      Transition.run serverStep next [.record 3, .respond 3 true, .hangup 1, .remove 1] =
        some final ∧
      final.connections.find 3 = some ⟨[(ascii "g", ascii "a")], .idle⟩ ∧
      ¬IsMember final.groups (ascii "g", ascii "a") := by
  have evaluated : ((Transition.run serverStep ⟨freshWorld, ∅⟩ strayList).bind fun state =>
      (serverStep state (groupRequest 3 "JOIN g a t")).bind fun next =>
      (Transition.run serverStep next [.record 3, .respond 3 true, .hangup 1, .remove 1]).map
        fun final => (next.connections.find 3, decide (IsMember next.groups (ascii "g", ascii "a")),
          final.connections.find 3, decide (IsMember final.groups (ascii "g", ascii "a")))) =
      some (some ⟨[], .executed (parseRequest (ascii "JOIN g a t")) (ascii "OK")⟩, true,
        some ⟨[(ascii "g", ascii "a")], .idle⟩, false) := by
    decide +kernel
  simp only [Option.bind_eq_some_iff, Option.map_eq_some_iff, Prod.mk.injEq,
    decide_eq_true_eq, decide_eq_false_iff_not] at evaluated
  obtain ⟨state, reached, next, stepped, final, finished, executed, joined, idle, lost⟩ := evaluated
  exact ⟨state, next, final, reached, stepped, executed, joined, finished, idle, lost⟩

/-- Connection 2 has joined the same group as another consumer, connection 3 as the same
consumer of another group. -/
def otherMembers : List (ServerEvent Unit) :=
  [.accept 1, .accept 2, .accept 3, groupRequest 2 "JOIN g b t", .record 2, .respond 2 true,
    groupRequest 3 "JOIN h a t", .record 3, .respond 3 true]

theorem membership_lasts_alone :
    ∃ state next, Transition.run serverStep ⟨freshWorld, ∅⟩ otherMembers = some state ∧
      SoleOwner (ascii "g", ascii "a") 1 state ∧
      serverStep state (groupRequest 1 "JOIN g a t") = some next ∧
      ∀ later final, Transition.run serverStep next later = some final →
        Transition.StepsMeet (LeftAlone (ascii "g", ascii "a") 1) serverStep next later →
        IsMember final.groups (ascii "g", ascii "a") := by
  have evaluated : ((Transition.run serverStep ⟨freshWorld, ∅⟩ otherMembers).bind fun state =>
      (serverStep state (groupRequest 1 "JOIN g a t")).map fun _ =>
        (state.connections.entries, (handleRequest groupEnv state.world
          (parseRequest (ascii "JOIN g a t"))).1)) =
      some ([⟨3, ⟨[(ascii "h", ascii "a")], .idle⟩⟩, ⟨2, ⟨[(ascii "g", ascii "b")], .idle⟩⟩,
        ⟨1, ⟨[], .idle⟩⟩], .returned (ascii "OK")) := by
    decide +kernel
  obtain ⟨state, reached, evaluated⟩ := Option.bind_eq_some_iff.mp evaluated
  obtain ⟨next, stepped, facts⟩ := Option.map_eq_some_iff.mp evaluated
  obtain ⟨connections, answered⟩ := Prod.mk.inj facts
  have sole : SoleOwner (ascii "g", ascii "a") 1 state := by
    intro other connection _ found
    rw [← Table.mem_entries_iff, connections] at found
    simp only [List.mem_cons, List.not_mem_nil, or_false, Sigma.mk.injEq, heq_eq_eq] at found
    rcases found with ⟨_, rfl⟩ | ⟨_, rfl⟩ | ⟨_, rfl⟩ <;> decide
  exact ⟨state, next, reached, sole, stepped,
    (membership_lasts_iff (by decide +kernel) stepped answered).mpr sole⟩

end KafkaBroker
