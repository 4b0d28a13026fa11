import KafkaBroker.Connections
import KafkaBroker.HistoryCore
import KafkaBroker.Store

/-!
The consumer groups are a function of the history: after any run, in whatever order the
members iterate, `GROUP_POLL` is answered as the history of observations determines.
-/

namespace KafkaBroker

open ByteText

/-! The order of the assignment loop. -/

theorem order_pairwise (group : ConsumerGroup) (topic : Bytes) :
    (group.order topic).Pairwise (· < ·) := by
  have sorted := List.pairwise_insertionSort (· ≤ ·) (subscribers group.members topic)
  refine (sorted.and (order_nodup group topic)).imp ?_
  rintro first second ⟨le, different⟩
  rw [← List.not_le]
  exact fun ge => different (List.le_antisymm le ge)

theorem order_congr {left right : ConsumerGroup} {topic : Bytes}
    (same : ∀ consumerId, left.Subscribed topic consumerId ↔ right.Subscribed topic consumerId) :
    left.order topic = right.order topic := by
  have permuted : (left.order topic).Perm (right.order topic) := by
    rw [List.perm_ext_iff_of_nodup (order_nodup left topic) (order_nodup right topic)]
    intro consumerId
    rw [mem_order_iff, mem_order_iff, same]
  exact permuted.eq_of_pairwise (fun _ _ _ _ less greater => absurd greater (List.lt_asymm less))
    (order_pairwise left topic) (order_pairwise right topic)

theorem order_of_find_eq {left right : ConsumerGroup}
    (same : ∀ consumerId, left.members.find consumerId = right.members.find consumerId)
    (topic : Bytes) : left.order topic = right.order topic := by
  apply order_congr
  simp [ConsumerGroup.Subscribed, same]

/-- A rebalance gives the same partitions to every consumer in whatever order it goes
through the members. -/
theorem rebalanceGroup_reordered (order : HashOrder) (group : ConsumerGroup)
    (consumerId : Bytes) :
    (rebalanceGroup { group with members := order.apply group.members }).members.find consumerId =
      (rebalanceGroup group).members.find consumerId := by
  have sorted (topic : Bytes) :
      ConsumerGroup.order { group with members := order.apply group.members } topic =
        group.order topic :=
    order_of_find_eq (order.same group.members) topic
  simp only [ConsumerGroup.order] at sorted
  simp only [rebalanceGroup_find, order.same, sorted]

/-! Members and their topics. -/

def memberTopic (groups : ConsumerGroups) (groupId consumerId : Bytes) : Option Bytes :=
  (groups.find groupId).bind fun group =>
    (group.members.find consumerId).map GroupMember.topic

theorem memberTopic_set (groups : ConsumerGroups) (groupId query consumerId : Bytes)
    (group : ConsumerGroup) :
    memberTopic (groups.set groupId group) query consumerId =
      if query = groupId then (group.members.find consumerId).map GroupMember.topic
      else memberTopic groups query consumerId := by
  unfold memberTopic
  rw [Table.find_set]
  split <;> rfl

theorem rebalanced_topic (group : ConsumerGroup) (consumerId : Bytes) :
    ((rebalanceGroup group).members.find consumerId).map GroupMember.topic =
      (group.members.find consumerId).map GroupMember.topic := by
  rw [rebalanceGroup_find, Option.map_map]
  rfl

theorem joinGroup_memberTopic (groups : ConsumerGroups) (req : Request)
    (groupId consumerId : Bytes) :
    memberTopic (joinGroup groups req).2 groupId consumerId =
      if req.groupId = groupId ∧ req.consumerId = consumerId ∧
          (joinGroup groups req).1 = ascii "OK" then some req.topic
      else memberTopic groups groupId consumerId := by
  have refused : ascii "ERROR" ≠ ascii "OK" := by decide
  simp only [joinGroup, Table.find_emplace, if_true, Option.getD_some, Table.emplace_set]
  split
  · rename_i present
    cases found : groups.find req.groupId with
    | none => simp [found] at present
    | some group =>
        rw [Table.emplace_of_find found]
        simp [refused]
  · rw [memberTopic_set]
    by_cases here : groupId = req.groupId
    · subst here
      rw [if_pos rfl, rebalanced_topic, Table.find_set]
      by_cases same : consumerId = req.consumerId
      · simp [same]
      · have other : req.consumerId ≠ consumerId := Ne.symm same
        cases found : groups.find req.groupId with
        | none => simp [same, other, found, memberTopic]
        | some group => simp [same, other, found, memberTopic]
    · simp [here, Ne.symm here]

theorem storeAfterRemoval_memberTopic {groups : ConsumerGroups} {group : ConsumerGroup}
    {groupId : Bytes} (found : groups.find groupId = some group)
    (consumerId query other : Bytes) :
    memberTopic (storeAfterRemoval groups groupId (eraseMember group consumerId)) query other =
      if groupId = query ∧ consumerId = other then none else memberTopic groups query other := by
  have erased : ((eraseMember group consumerId).members.find other).map GroupMember.topic =
      if consumerId = other then none
      else (group.members.find other).map GroupMember.topic := by
    simp only [eraseMember, Table.find_remove, eq_comm]
    split <;> rfl
  by_cases here : groupId = query
  · subst here
    have stored : memberTopic groups groupId other =
        (group.members.find other).map GroupMember.topic := by
      simp [memberTopic, found]
    rw [stored]
    simp only [true_and]
    rw [← erased]
    unfold storeAfterRemoval
    split
    · rename_i empty
      rw [Table.entries_eq_nil_iff] at empty
      simp [memberTopic, empty]
    · rw [memberTopic_set, if_pos rfl, rebalanced_topic]
  · have elsewhere : query ≠ groupId := Ne.symm here
    simp only [here, false_and, if_false]
    unfold storeAfterRemoval
    split
    · simp [memberTopic, elsewhere]
    · rw [memberTopic_set, if_neg elsewhere]

theorem removeConsumer_memberTopic (groups : ConsumerGroups)
    (groupId consumerId query other : Bytes) :
    memberTopic (removeConsumerFromGroup groups groupId consumerId) query other =
      if groupId = query ∧ consumerId = other then none else memberTopic groups query other := by
  unfold removeConsumerFromGroup
  split
  · rename_i absent
    split
    · rename_i here
      simp [memberTopic, ← here.1, absent]
    · rfl
  · rename_i group found
    exact storeAfterRemoval_memberTopic found consumerId query other

theorem leaveGroup_memberTopic (groups : ConsumerGroups) (req : Request)
    (groupId consumerId : Bytes) :
    memberTopic (leaveGroup groups req).2 groupId consumerId =
      if req.groupId = groupId ∧ req.consumerId = consumerId ∧
          (leaveGroup groups req).1 = ascii "OK" then none
      else memberTopic groups groupId consumerId := by
  have refused : ascii "ERROR" ≠ ascii "OK" := by decide
  unfold leaveGroup
  split
  · simp [refused]
  · rename_i group found
    split
    · simp [refused]
    · simp only [storeAfterRemoval_memberTopic found, and_true]

theorem commitOffset_memberTopic (groups : ConsumerGroups) (partitionCount? : Option Nat)
    (req : Request) (groupId consumerId : Bytes) :
    memberTopic (commitOffset groups partitionCount? req).2 groupId consumerId =
      memberTopic groups groupId consumerId := by
  unfold commitOffset
  split
  · rfl
  · rename_i group found
    split
    · rfl
    · split
      · rfl
      · split
        · rfl
        · rw [memberTopic_set]
          split
          · rename_i here
            simp [memberTopic, here, found]
          · rfl

/-! Assignments. -/

/-- Every stored group has members, and each of them its share of its topic. -/
structure Settled (groups : ConsumerGroups) : Prop where
  nonempty : ∀ groupId group, groups.find groupId = some group → group.members.entries ≠ []
  shares : ∀ groupId group, groups.find groupId = some group →
    ∀ consumerId member, group.members.find consumerId = some member →
      member.assignments =
        topicShare (member.topic, group.order member.topic) kDefaultPartitionCount consumerId

theorem Settled.set {groups : ConsumerGroups} (settled : Settled groups) (groupId : Bytes)
    {group : ConsumerGroup} (nonempty : group.members.entries ≠ [])
    (shares : ∀ consumerId member, group.members.find consumerId = some member →
      member.assignments =
        topicShare (member.topic, group.order member.topic) kDefaultPartitionCount consumerId) :
    Settled (groups.set groupId group) := by
  constructor
  · intro query stored found
    rw [Table.find_set] at found
    split at found
    · exact Option.some.inj found ▸ nonempty
    · exact settled.nonempty query stored found
  · intro query stored found
    rw [Table.find_set] at found
    split at found
    · exact Option.some.inj found ▸ shares
    · exact settled.shares query stored found

theorem groupStep_settled {groups : ConsumerGroups} (settled : Settled groups)
    (event : GroupEvent) : Settled (groupStep groups event).2 := by
  rcases groupStep_cases groups event with same | ⟨groupId, group, nonempty, _, _, after⟩ |
    ⟨groupId, after⟩ | ⟨_, req, group, _, found, after⟩
  · rw [same]
    exact settled
  · rw [after]
    refine settled.set groupId (rebalanced_nonempty group nonempty) ?_
    intro consumerId member stored
    have order := order_congr fun other => rebalanced_subscribed group member.topic other
    rw [rebalanceGroup_find, Option.map_eq_some_iff] at stored
    obtain ⟨before, _, rfl⟩ := stored
    rw [order]
    rfl
  · rw [after]
    constructor
    · intro query stored kept
      rw [Table.find_remove] at kept
      split at kept
      · simp at kept
      · exact settled.nonempty query stored kept
    · intro query stored kept
      rw [Table.find_remove] at kept
      split at kept
      · simp at kept
      · exact settled.shares query stored kept
  · rw [after]
    exact settled.set req.groupId (settled.nonempty req.groupId group found)
      (settled.shares req.groupId group found)

theorem reorder_settled {groups : ConsumerGroups} (settled : Settled groups) (order : HashOrder) :
    Settled (order.reorder groups) := by
  constructor
  · intro groupId reordered found
    rw [HashOrder.reorder, Table.find_mapValues, Option.map_eq_some_iff] at found
    obtain ⟨group, stored, rfl⟩ := found
    have members := settled.nonempty groupId group stored
    rw [ne_eq, Table.entries_eq_nil_iff] at members ⊢
    simpa [order.same] using members
  · intro groupId reordered found consumerId member
    rw [HashOrder.reorder, Table.find_mapValues, Option.map_eq_some_iff] at found
    obtain ⟨group, stored, rfl⟩ := found
    have sorted : ConsumerGroup.order { group with members := order.apply group.members }
        member.topic = group.order member.topic :=
      order_of_find_eq (order.same group.members) member.topic
    rw [order.same, sorted]
    exact settled.shares groupId group stored consumerId member

/-! Agreement with the history. -/

theorem subscription_seen {groupId consumerId topic : Bytes} {history : List Observation}
    (subscribed : subscription groupId consumerId history = some topic) :
    consumerId ∈ history.map Observation.consumerId := by
  induction history with
  | nil => simp [subscription] at subscribed
  | cons observation earlier ih =>
      rw [List.map_cons, List.mem_cons]
      by_cases here : consumerId = observation.consumerId
      · exact Or.inl here
      · right
        apply ih
        cases observation with
        | request req response? =>
            have other : req.consumerId ≠ consumerId := Ne.symm here
            simpa [subscription, other] using subscribed
        | disconnect group consumer =>
            have other : consumer ≠ consumerId := Ne.symm here
            simpa [subscription, other] using subscribed

theorem mem_subscribedTo_iff {groupId topic consumerId : Bytes} {history : List Observation} :
    consumerId ∈ subscribedTo groupId topic history ↔
      subscription groupId consumerId history = some topic := by
  rw [subscribedTo, Finset.mem_filter, List.mem_toFinset]
  exact ⟨And.right, fun subscribed => ⟨subscription_seen subscribed, subscribed⟩⟩

theorem currentMembers_eq_empty_iff {groupId : Bytes} {history : List Observation} :
    currentMembers groupId history = ∅ ↔
      ∀ consumerId, subscription groupId consumerId history = none := by
  rw [currentMembers, Finset.filter_eq_empty_iff]
  constructor
  · intro none consumerId
    cases subscribed : subscription groupId consumerId history with
    | none => rfl
    | some topic =>
        have seen := List.mem_toFinset.mpr (subscription_seen subscribed)
        simpa [subscribed] using none seen
  · intro none consumerId _
    simp [none consumerId]

/-- The stored groups are what the history says they are. -/
structure Recounts (history : List Observation) (groups : ConsumerGroups) : Prop where
  settled : Settled groups
  topics : ∀ groupId consumerId,
    memberTopic groups groupId consumerId = subscription groupId consumerId history
  offsets : ∀ groupId key,
    (offsetsOf groups groupId).find key = lastCommitted groupId key history

theorem find_eq_none_of_no_members {groups : ConsumerGroups} (settled : Settled groups)
    {groupId : Bytes} (nobody : ∀ consumerId, memberTopic groups groupId consumerId = none) :
    groups.find groupId = none := by
  cases found : groups.find groupId with
  | none => rfl
  | some group =>
      refine absurd ?_ (settled.nonempty groupId group found)
      rw [Table.entries_eq_nil_iff]
      simpa [memberTopic, found] using nobody

theorem hasMembers_of_memberTopic {groups : ConsumerGroups} {groupId consumerId topic : Bytes}
    (member : memberTopic groups groupId consumerId = some topic) : HasMembers groups groupId := by
  obtain ⟨group, found, member⟩ := Option.bind_eq_some_iff.mp member
  refine ⟨group, found, ?_⟩
  rw [ne_eq, Table.entries_eq_nil_iff]
  intro nobody
  simp [nobody consumerId] at member

theorem Recounts.step {history : List Observation} {groups : ConsumerGroups}
    (recounts : Recounts history groups) (event : GroupEvent) {observation : Observation}
    (topics : ∀ groupId consumerId, memberTopic (groupStep groups event).2 groupId consumerId =
      subscription groupId consumerId (observation :: history))
    (commits : ∀ groupId key offset, observation.committed? groupId key = some offset →
      ∃ partitionCount? req, event = .commit partitionCount? req ∧ req.groupId = groupId ∧
        TopicPartition.mk req.topic req.partition = key ∧ req.offset = offset ∧
        (groupStep groups event).1 = ascii "OK")
    (others : ∀ groupId key, observation.committed? groupId key = none →
      ¬CommitsTo groups event groupId key) :
    Recounts (observation :: history) (groupStep groups event).2 := by
  have settled := groupStep_settled recounts.settled event
  refine ⟨settled, topics, ?_⟩
  intro groupId key
  rw [lastCommitted]
  split
  · rename_i empty
    have nobody : ∀ consumerId, memberTopic (groupStep groups event).2 groupId consumerId =
        none := by
      intro consumerId
      rw [topics, currentMembers_eq_empty_iff.mp empty]
    rw [offsetsOf, find_eq_none_of_no_members settled nobody]
    rfl
  · rename_i someone
    cases committed : observation.committed? groupId key with
    | some offset =>
        obtain ⟨partitionCount?, req, rfl, rfl, rfl, rfl, answered⟩ :=
          commits groupId key offset committed
        exact commit_offset answered
    | none =>
        have members : HasMembers (groupStep groups event).2 groupId := by
          rw [currentMembers_eq_empty_iff, not_forall] at someone
          obtain ⟨consumerId, subscribed⟩ := someone
          obtain ⟨topic, subscribed⟩ := Option.ne_none_iff_exists'.mp subscribed
          exact hasMembers_of_memberTopic ((topics groupId consumerId).trans subscribed)
        rw [undisturbed_offset ⟨others groupId key committed, members⟩]
        exact recounts.offsets groupId key

theorem reorder_memberTopic (order : HashOrder) (groups : ConsumerGroups)
    (groupId consumerId : Bytes) :
    memberTopic (order.reorder groups) groupId consumerId =
      memberTopic groups groupId consumerId := by
  simp only [memberTopic, HashOrder.reorder, Table.find_mapValues]
  cases groups.find groupId with
  | none => rfl
  | some group => simp [order.same]

theorem reorder_offsets (order : HashOrder) (groups : ConsumerGroups) (groupId : Bytes) :
    offsetsOf (order.reorder groups) groupId = offsetsOf groups groupId := by
  simp only [offsetsOf, HashOrder.reorder, Table.find_mapValues, Option.map_map]
  rfl

theorem Recounts.reorder {history : List Observation} {groups : ConsumerGroups}
    (recounts : Recounts history groups) (order : HashOrder) :
    Recounts history (order.reorder groups) := by
  refine ⟨reorder_settled recounts.settled order, ?_, ?_⟩
  · intro groupId consumerId
    rw [reorder_memberTopic, recounts.topics]
  · intro groupId key
    rw [reorder_offsets, recounts.offsets]

theorem Recounts.disconnect {history : List Observation} {groups : ConsumerGroups}
    (recounts : Recounts history groups) (groupId consumerId : Bytes) :
    Recounts (.disconnect groupId consumerId :: history)
      (removeConsumerFromGroup groups groupId consumerId) := by
  apply recounts.step (.disconnect groupId consumerId)
  · intro query other
    simp only [groupStep, subscription]
    rw [removeConsumer_memberTopic, recounts.topics]
  · intro query key offset committed
    simp [Observation.committed?] at committed
  · rintro query key _ ⟨_, _, wrong, _⟩
    simp at wrong

theorem Recounts.unrelated {history : List Observation} {groups : ConsumerGroups}
    (recounts : Recounts history groups) {req : Request} (join : req.type ≠ .join)
    (leave : req.type ≠ .leave) (commit : req.type ≠ .commit) (response? : Option Bytes) :
    Recounts (.request req response? :: history) groups := by
  have same (groupId consumerId : Bytes) :
      subscription groupId consumerId (.request req response? :: history) =
        subscription groupId consumerId history := by
    simp only [subscription]
    split <;> rfl
  apply recounts.step (.poll req)
  · intro groupId consumerId
    rw [same]
    exact recounts.topics groupId consumerId
  · intro groupId key offset committed
    simp [Observation.committed?, commit] at committed
  · rintro groupId key _ ⟨_, _, wrong, _⟩
    simp at wrong

section Requests

variable {σ : Type} {history : List Observation} {world : World σ}

theorem Recounts.request (recounts : Recounts history world.broker.consumerGroups)
    (env : Environment σ) {req : Request} {response : Bytes}
    (returned : (handleRequest env world req).1 = .returned response) :
    Recounts (.request req (some response) :: history)
      (handleRequest env world req).2.broker.consumerGroups := by
  obtain ⟨partitionCount?, effect⟩ := handleRequest_groups env world req
  cases typed : req.type with
  | join =>
      simp only [groupEvent?, typed, returned, Outcome.returned.injEq] at effect
      obtain ⟨after, rfl⟩ := effect
      rw [after]
      apply recounts.step (.join req)
      · intro groupId consumerId
        simp only [subscription, typed, Option.some.injEq]
        rw [← recounts.topics]
        exact joinGroup_memberTopic _ req groupId consumerId
      · simp [Observation.committed?, typed]
      · simp [CommitsTo]
  | leave =>
      simp only [groupEvent?, typed, returned, Outcome.returned.injEq] at effect
      obtain ⟨after, rfl⟩ := effect
      rw [after]
      apply recounts.step (.leave req)
      · intro groupId consumerId
        simp only [subscription, typed, Option.some.injEq]
        rw [← recounts.topics]
        exact leaveGroup_memberTopic _ req groupId consumerId
      · simp [Observation.committed?, typed]
      · simp [CommitsTo]
  | commit =>
      simp only [groupEvent?, typed, returned, Outcome.returned.injEq] at effect
      obtain ⟨after, rfl⟩ := effect
      rw [after]
      apply recounts.step (.commit partitionCount? req)
      · intro groupId consumerId
        simp only [subscription, typed, ite_self]
        rw [← recounts.topics]
        exact commitOffset_memberTopic _ _ req groupId consumerId
      · intro groupId key offset committed
        simp only [Observation.committed?, typed, true_and, Option.some.injEq] at committed
        split at committed
        · rename_i here
          exact ⟨partitionCount?, req, rfl, here.1, here.2.1, Option.some.inj committed,
            here.2.2⟩
        · simp at committed
      · rintro groupId key committed ⟨_, _, same, rfl, rfl, answered⟩
        cases same
        simp [Observation.committed?, typed, answered] at committed
  | _ =>
      simp only [groupEvent?, typed] at effect
      rw [effect]
      exact recounts.unrelated (by simp [typed]) (by simp [typed]) (by simp [typed]) _

theorem Recounts.threw (recounts : Recounts history world.broker.consumerGroups)
    {env : Environment σ} {req : Request} (ended : (handleRequest env world req).1 = .threw) :
    Recounts (.request req none :: history)
      (handleRequest env world req).2.broker.consumerGroups := by
  obtain ⟨partitionCount?, effect⟩ := handleRequest_groups env world req
  cases typed : req.type with
  | join => simp [groupEvent?, typed, ended] at effect
  | leave => simp [groupEvent?, typed, ended] at effect
  | commit => simp [groupEvent?, typed, ended] at effect
  | _ =>
      rw [handleRequest_threw_groups ended]
      exact recounts.unrelated (by simp [typed]) (by simp [typed]) (by simp [typed]) _

end Requests

section Runs

variable {σ : Type}

def HistoryState.Recounted (state : HistoryState σ) : Prop :=
  Recounts state.history state.world.broker.consumerGroups

theorem serveEvent_recounts {state next : HistoryState σ} {event : HistoryEvent σ}
    (recounted : state.Recounted) (served : serveEvent state event = some next) :
    next.Recounted := by
  cases event with
  | request raw env =>
      simp only [serveEvent] at served
      split at served
      · simp at served
      · rename_i ended
        rw [← Option.some.inj served]
        exact Recounts.threw recounted ended
      · rename_i response returned
        rw [← Option.some.inj served]
        exact Recounts.request recounted env returned
  | disconnect groupId consumerId =>
      simp only [serveEvent, Option.some.injEq] at served
      rw [← served]
      exact Recounts.disconnect recounted groupId consumerId

theorem historyStep_recounts {state next : HistoryState σ} {event : HistoryEvent σ × HashOrder}
    (recounted : state.Recounted) (stepped : historyStep state event = some next) :
    next.Recounted := by
  obtain ⟨served, taken, rfl⟩ := Option.map_eq_some_iff.mp stepped
  exact Recounts.reorder (serveEvent_recounts recounted taken) event.2

theorem recounts_start {world : World σ} (fresh : world.broker.consumerGroups = ∅) :
    HistoryState.Recounted ⟨world, []⟩ := by
  simp only [HistoryState.Recounted, fresh]
  refine ⟨⟨?_, ?_⟩, ?_, ?_⟩
  · intro groupId group found
    simp at found
  · intro groupId group found
    simp at found
  · intro groupId consumerId
    rfl
  · intro groupId key
    rfl

theorem historyRun_recounts {world : World σ} (fresh : world.broker.consumerGroups = ∅)
    {events : List (HistoryEvent σ × HashOrder)} {state : HistoryState σ}
    (reached : Transition.run historyStep ⟨world, []⟩ events = some state) : state.Recounted :=
  Transition.run_invariant HistoryState.Recounted
    (fun _ _ _ recounted stepped => historyStep_recounts recounted stepped)
    (recounts_start fresh) reached

end Runs

/-! The answer to a poll. -/

theorem mem_order_iff_subscribedTo {history : List Observation} {groups : ConsumerGroups}
    (recounts : Recounts history groups) {groupId : Bytes} {group : ConsumerGroup}
    (found : groups.find groupId = some group) (topic consumerId : Bytes) :
    consumerId ∈ group.order topic ↔ consumerId ∈ subscribedTo groupId topic history := by
  rw [mem_order_iff, mem_subscribedTo_iff, ← recounts.topics]
  simp only [ConsumerGroup.Subscribed, memberTopic, found, Option.bind_some,
    Option.map_eq_some_iff]

theorem order_toFinset {history : List Observation} {groups : ConsumerGroups}
    (recounts : Recounts history groups) {groupId : Bytes} {group : ConsumerGroup}
    (found : groups.find groupId = some group) (topic : Bytes) :
    (group.order topic).toFinset = subscribedTo groupId topic history := by
  ext consumerId
  rw [List.mem_toFinset, mem_order_iff_subscribedTo recounts found]

theorem share_eq_ranked {history : List Observation} {groups : ConsumerGroups}
    (recounts : Recounts history groups) {groupId : Bytes} {group : ConsumerGroup}
    (found : groups.find groupId = some group) {topic consumerId : Bytes}
    (member : consumerId ∈ group.order topic) (count : Nat) :
    RoundRobin.share (group.order topic) [] count consumerId =
      (List.range count).filter fun partition =>
        partition % (subscribedTo groupId topic history).card =
          rank (subscribedTo groupId topic history) consumerId := by
  have distinct := order_nodup group topic
  have size : (subscribedTo groupId topic history).card = (group.order topic).length := by
    rw [← order_toFinset recounts found, List.toFinset_card_of_nodup distinct]
  have place : rank (subscribedTo groupId topic history) consumerId =
      ((group.order topic).filter fun other => other < consumerId).length := by
    have smaller : (group.order topic).toFinset.filter (· < consumerId) =
        ((group.order topic).filter fun other => other < consumerId).toFinset := by
      ext other
      simp
    rw [rank, ← order_toFinset recounts found, smaller,
      List.toFinset_card_of_nodup (distinct.filter _)]
  rw [RoundRobin.share_of_sorted (order_pairwise group topic) count member, size, place]

theorem expectedPoll_eq_error_iff (groupId consumerId : Bytes) (history : List Observation) :
    expectedPoll groupId consumerId history = ascii "ERROR" ↔
      subscription groupId consumerId history = none := by
  cases subscribed : subscription groupId consumerId history with
  | none => simp [expectedPoll, subscribed]
  | some topic =>
      simp only [expectedPoll, subscribed, reduceCtorEq, iff_false]
      generalize (List.range kDefaultPartitionCount).filter _ = partitions
      cases partitions with
      | nil =>
          have noRows : joinLines [] ≠ ascii "ERROR" := by decide
          exact noRows
      | cons partition rest =>
          have row : space ∈ expectedRow groupId topic history partition := by
            simp [expectedRow]
          have noSpace : space ∉ ascii "ERROR" := by decide
          intro error
          rw [← error] at noSpace
          exact noSpace (mem_joinLines (by simp) row)

theorem groupPoll_eq_expected {history : List Observation} {groups : ConsumerGroups}
    (recounts : Recounts history groups) (req : Request) :
    groupPoll groups req = expectedPoll req.groupId req.consumerId history := by
  have topics := recounts.topics req.groupId req.consumerId
  cases found : groups.find req.groupId with
  | none =>
      simp only [memberTopic, found, Option.bind_none] at topics
      simp [groupPoll, found, expectedPoll, ← topics]
  | some group =>
      simp only [memberTopic, found, Option.bind_some] at topics
      cases stored : group.members.find req.consumerId with
      | none =>
          rw [stored, Option.map_none] at topics
          simp [groupPoll, found, stored, expectedPoll, ← topics]
      | some member =>
          rw [stored, Option.map_some] at topics
          have ordered : req.consumerId ∈ group.order member.topic := by
            rw [mem_order_iff]
            exact ⟨member, stored, rfl⟩
          rw [groupPoll_rows found stored, expectedPoll, ← topics,
            recounts.settled.shares _ _ found _ _ stored, topicShare,
            share_eq_ranked recounts found ordered, List.map_map]
          simp only [reportedOffset, recounts.offsets]
          congr 1

/-- `GROUP_POLL` answers are a function of the history. -/
theorem groupPoll_function_of_history {σ : Type} {world : World σ}
    (fresh : world.broker.consumerGroups = ∅) {events : List (HistoryEvent σ × HashOrder)}
    {state : HistoryState σ} (reached : Transition.run historyStep ⟨world, []⟩ events = some state)
    {raw : Bytes} (polls : (parseRequest raw).type = .groupPoll) (env : Environment σ) :
    (handleRequest env state.world (parseRequest raw)).1 =
        .returned (expectedPoll (parseRequest raw).groupId (parseRequest raw).consumerId
          state.history) ∧
      ((handleRequest env state.world (parseRequest raw)).1 = .returned (ascii "ERROR") ↔
        subscription (parseRequest raw).groupId (parseRequest raw).consumerId state.history =
          none) := by
  have recounted := historyRun_recounts fresh reached
  have answered : (handleRequest env state.world (parseRequest raw)).1 =
      .returned (expectedPoll (parseRequest raw).groupId (parseRequest raw).consumerId
        state.history) := by
    rw [← groupPoll_eq_expected recounted]
    simp [handleRequest, dispatch, polls]
  refine ⟨answered, ?_⟩
  rw [answered, Outcome.returned.injEq]
  exact expectedPoll_eq_error_iff _ _ _

def backwards : HashOrder where
  apply members := ⟨members.entries.reverse,
    (List.perm_nodupKeys (List.reverse_perm members.entries)).mpr members.nodupKeys⟩
  same members _ :=
    (AList.perm_lookup (List.reverse_perm members.entries).symm).symm

def served (text : String) : HistoryEvent Unit × HashOrder :=
  (.request (ascii text) { link := fun peer _ => (peer, none), calls := smoothCalls 9 }, backwards)

def rejoinRun : List (HistoryEvent Unit × HashOrder) :=
  [served "PRODUCE t 0 a", served "JOIN g b t", served "JOIN g a t", served "JOIN g c u",
    served "COMMIT g c t 2 7", served "LEAVE g b", served "JOIN g b t",
    (.disconnect (ascii "g") (ascii "c"), backwards)]

theorem groupPoll_after_rejoin :
    ∃ state, Transition.run historyStep ⟨⟨{}, ∅, ()⟩, []⟩ rejoinRun = some state ∧
      ∀ env, (handleRequest env state.world (parseRequest (ascii "GROUP_POLL g a"))).1 =
        .returned (ascii "t 0 0\nt 2 7") := by
  have evaluated : (Transition.run historyStep ⟨⟨{}, ∅, ()⟩, []⟩ rejoinRun).map
      (fun state => expectedPoll (ascii "g") (ascii "a") state.history) =
        some (ascii "t 0 0\nt 2 7") := by
    decide +kernel
  obtain ⟨state, reached, expected⟩ := Option.map_eq_some_iff.mp evaluated
  have parsed : parseRequest (ascii "GROUP_POLL g a") =
      { type := .groupPoll, groupId := ascii "g", consumerId := ascii "a" } := by
    decide +kernel
  have polls : (parseRequest (ascii "GROUP_POLL g a")).type = .groupPoll := by
    rw [parsed]
  refine ⟨state, reached, fun env => ?_⟩
  have answered := (groupPoll_function_of_history rfl reached polls env).1
  rw [parsed] at answered ⊢
  rw [answered, expected]

end KafkaBroker
