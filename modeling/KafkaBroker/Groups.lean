import KafkaBroker.GroupCore
import KafkaBroker.Lib.RoundRobin
import KafkaBroker.Lib.Transition

/-!
Consumer groups over whole runs: after every membership change the partitions of a
topic are shared round-robin among the members subscribed to it, and committed
offsets stay with the group for as long as it has a member.
-/

namespace KafkaBroker

open ByteText

/-! `topic_to_consumers`. -/

def subscribers (members : Members) (topic : Bytes) : List Bytes :=
  (members.entries.filter fun entry => entry.2.topic = topic).map Sigma.fst

theorem mem_subscribers_iff (members : Members) (topic consumerId : Bytes) :
    consumerId ∈ subscribers members topic ↔
      ∃ member, members.find consumerId = some member ∧ member.topic = topic := by
  simp only [subscribers, List.mem_map, List.mem_filter, decide_eq_true_eq]
  constructor
  · rintro ⟨⟨key, member⟩, ⟨inside, subscribed⟩, rfl⟩
    exact ⟨member, (Table.mem_entries_iff members key member).mp inside, subscribed⟩
  · rintro ⟨member, found, subscribed⟩
    exact ⟨⟨consumerId, member⟩, ⟨(Table.mem_entries_iff members _ _).mpr found, subscribed⟩, rfl⟩

theorem subscribers_nodup (members : Members) (topic : Bytes) :
    (subscribers members topic).Nodup := by
  have keys : (members.entries.map Sigma.fst).Nodup := members.nodupKeys
  exact keys.sublist (List.filter_sublist.map Sigma.fst)

theorem collect_find (entries : List (Sigma fun _ : Bytes => GroupMember)) :
    ∀ (table : Table Bytes (List Bytes)) (topic : Bytes),
      (entries.foldl (fun table entry =>
        Table.set table entry.2.topic ((table.find entry.2.topic).getD [] ++ [entry.1]))
        table).find topic =
      if (entries.filter fun entry => entry.2.topic = topic) = [] then table.find topic
      else some ((table.find topic).getD [] ++
        (entries.filter fun entry => entry.2.topic = topic).map Sigma.fst) := by
  induction entries with
  | nil => simp
  | cons entry rest ih =>
      intro table topic
      rw [List.foldl_cons, ih]
      by_cases here : entry.2.topic = topic
      · subst here
        simp
      · have other : topic ≠ entry.2.topic := fun same => here same.symm
        simp [here, other]

theorem mem_topicToConsumers {members : Members} {topic : Bytes} {consumerIds : List Bytes}
    (listed : (topic, consumerIds) ∈ topicToConsumers members) :
    consumerIds ≠ [] ∧ consumerIds = (subscribers members topic).insertionSort (· ≤ ·) := by
  simp only [topicToConsumers, List.mem_map, List.mem_insertionSort, Prod.mk.injEq] at listed
  obtain ⟨key, member, rfl, rfl⟩ := listed
  rw [Table.mem_keys_iff, collect_find] at member
  rw [collect_find]
  split at member
  · simp at member
  · rename_i present
    rw [if_neg present]
    simp only [Table.find_empty, Option.getD_none, List.nil_append, Option.getD_some]
    refine ⟨?_, rfl⟩
    intro empty
    have sizes := congrArg List.length empty
    simp only [List.length_insertionSort, List.length_map, List.length_nil,
      List.length_eq_zero_iff] at sizes
    exact present sizes

theorem topicToConsumers_listed {members : Members} {topic : Bytes}
    (subscribed : subscribers members topic ≠ []) :
    (topic, (subscribers members topic).insertionSort (· ≤ ·)) ∈ topicToConsumers members := by
  have present : (members.entries.filter fun entry => entry.2.topic = topic) ≠ [] := by
    intro empty
    simp [subscribers, empty] at subscribed
  simp only [topicToConsumers, List.mem_map, List.mem_insertionSort, Prod.mk.injEq]
  refine ⟨topic, ?_, rfl, ?_⟩
  · rw [Table.mem_keys_iff, collect_find, if_neg present]
    rfl
  · rw [collect_find, if_neg present]
    rfl

theorem topicToConsumers_keys_nodup (members : Members) :
    ((topicToConsumers members).map Prod.fst).Nodup := by
  simp only [topicToConsumers, List.map_map]
  change (List.map id (List.insertionSort _ _)).Nodup
  rw [List.map_id, (List.perm_insertionSort _ _).nodup_iff]
  exact AList.nodupKeys _

/-! The assignment loops. -/

def GroupMember.give (member : GroupMember) (added : List TopicPartition) : GroupMember :=
  { member with assignments := member.assignments ++ added }

@[simp] theorem GroupMember.give_nil (member : GroupMember) : member.give [] = member := by
  simp [GroupMember.give]

@[simp] theorem GroupMember.give_give (member : GroupMember) (first second : List TopicPartition) :
    (member.give first).give second = member.give (first ++ second) := by
  simp [GroupMember.give]

def topicShare (topicEntry : Bytes × List Bytes) (count : Nat) (consumerId : Bytes) :
    List TopicPartition :=
  (RoundRobin.share topicEntry.2 [] count consumerId).map fun (index : Nat) =>
    ⟨topicEntry.1, (index : Int)⟩

theorem assignPartition_find {topic : Bytes} {consumerIds : List Bytes} {members : Members}
    {partition : Nat}
    (present : (members.find (RoundRobin.owner consumerIds [] partition)).isSome)
    (consumerId : Bytes) :
    (assignPartition topic consumerIds members partition).find consumerId =
      (members.find consumerId).map fun member =>
        member.give (if RoundRobin.owner consumerIds [] partition = consumerId
          then [⟨topic, partition⟩] else []) := by
  obtain ⟨member, found⟩ := Option.isSome_iff_exists.mp present
  unfold assignPartition
  change (members.set (RoundRobin.owner consumerIds [] partition) _).find consumerId = _
  rw [Table.find_set]
  by_cases here : consumerId = RoundRobin.owner consumerIds [] partition
  · subst here
    have stored : members.find (consumerIds.getD (partition % consumerIds.length) []) =
        some member := found
    rw [if_pos rfl, if_pos rfl, found, stored]
    rfl
  · have other : RoundRobin.owner consumerIds [] partition ≠ consumerId := fun same => here same.symm
    simp [here, other]

theorem assignTopic_find (topic : Bytes) {consumerIds : List Bytes} (count : Nat) :
    ∀ {members : Members},
      (∀ partition, (members.find (RoundRobin.owner consumerIds [] partition)).isSome) →
      ∀ consumerId,
        ((List.range count).foldl (assignPartition topic consumerIds) members).find consumerId =
          (members.find consumerId).map fun member =>
            member.give (topicShare (topic, consumerIds) count consumerId) := by
  induction count with
  | zero =>
      intro members _ consumerId
      simp [topicShare, RoundRobin.share]
  | succ count ih =>
      intro members present consumerId
      have stillPresent :
          (((List.range count).foldl (assignPartition topic consumerIds) members).find
            (RoundRobin.owner consumerIds [] count)).isSome := by
        rw [ih present, Option.isSome_map]
        exact present count
      rw [List.range_succ, List.foldl_append, List.foldl_cons, List.foldl_nil,
        assignPartition_find stillPresent, ih present, Option.map_map]
      congr 1
      funext member
      simp only [Function.comp_apply, GroupMember.give_give, topicShare, RoundRobin.share,
        List.range_succ, List.filter_append, List.filter_singleton]
      by_cases owns : RoundRobin.owner consumerIds [] count = consumerId
      · simp [owns]
      · simp [owns]

theorem assignTopics_find {topics : List (Bytes × List Bytes)} :
    ∀ {members : Members}, (∀ entry ∈ topics, entry.2 ≠ [] ∧
        ∀ consumerId ∈ entry.2, (members.find consumerId).isSome) →
      ∀ consumerId, (topics.foldl assignTopic members).find consumerId =
        (members.find consumerId).map fun member => member.give
          (topics.flatMap fun entry => topicShare entry kDefaultPartitionCount consumerId) := by
  induction topics with
  | nil => simp
  | cons entry rest ih =>
      intro members present consumerId
      obtain ⟨nonempty, known⟩ := present entry (by simp)
      have assigned := assignTopic_find entry.1 kDefaultPartitionCount
        fun partition => known _ (RoundRobin.owner_mem nonempty partition)
      have laterKnown : ∀ other ∈ rest, other.2 ≠ [] ∧ ∀ id ∈ other.2,
          ((assignTopic members entry).find id).isSome := by
        intro other member
        obtain ⟨otherNonempty, otherKnown⟩ := present other (by simp [member])
        refine ⟨otherNonempty, fun id inside => ?_⟩
        rw [assignTopic, assigned, Option.isSome_map]
        exact otherKnown id inside
      rw [List.foldl_cons, ih laterKnown, assignTopic, assigned, Option.map_map]
      congr 1
      funext member
      simp

/-! `rebalance_group`. -/

def clearAssignments (members : Members) : Members :=
  Table.mapValues (fun member => { member with assignments := [] }) members

theorem subscribers_clear (members : Members) (topic : Bytes) :
    subscribers (clearAssignments members) topic = subscribers members topic := by
  simp only [subscribers, clearAssignments, Table.mapValues, List.filter_map, List.map_map]
  rfl

theorem flatMap_topicShare {members : Members} {consumerId : Bytes} {member : GroupMember}
    (found : members.find consumerId = some member) :
    ((topicToConsumers members).flatMap fun entry =>
        topicShare entry kDefaultPartitionCount consumerId) =
      topicShare (member.topic, (subscribers members member.topic).insertionSort (· ≤ ·))
        kDefaultPartitionCount consumerId := by
  have subscribed : subscribers members member.topic ≠ [] :=
    List.ne_nil_of_mem ((mem_subscribers_iff _ _ _).mpr ⟨member, found, rfl⟩)
  have nothing (entry : Bytes × List Bytes) (listed : entry ∈ topicToConsumers members)
      (other : entry.1 ≠ member.topic) :
      topicShare entry kDefaultPartitionCount consumerId = [] := by
    obtain ⟨nonempty, sorted⟩ := mem_topicToConsumers listed
    have absent : consumerId ∉ entry.2 := by
      rw [sorted, List.mem_insertionSort, mem_subscribers_iff]
      rintro ⟨stored, again, topicEq⟩
      rw [found, Option.some.injEq] at again
      exact other (again ▸ topicEq.symm)
    rw [topicShare, RoundRobin.share_eq_nil nonempty _ absent, List.map_nil]
  obtain ⟨before, after, split⟩ := List.append_of_mem (topicToConsumers_listed subscribed)
  have distinct := topicToConsumers_keys_nodup members
  rw [split, List.map_append, List.map_cons, List.nodup_append] at distinct
  obtain ⟨_, tail, apart⟩ := distinct
  rw [split, List.flatMap_append, List.flatMap_cons]
  have left : (before.flatMap fun entry => topicShare entry kDefaultPartitionCount consumerId) =
      [] := by
    rw [List.flatMap_eq_nil_iff]
    intro entry inside
    apply nothing entry (by rw [split]; simp [inside])
    exact apart entry.1 (List.mem_map_of_mem inside) _ (by simp)
  have right : (after.flatMap fun entry => topicShare entry kDefaultPartitionCount consumerId) =
      [] := by
    rw [List.flatMap_eq_nil_iff]
    intro entry inside
    apply nothing entry (by rw [split]; simp [inside])
    intro same
    rw [List.nodup_cons] at tail
    exact tail.1 (List.mem_map.mpr ⟨entry, inside, same⟩)
  rw [left, right, List.nil_append, List.append_nil]

theorem rebalanceGroup_find (group : ConsumerGroup) (consumerId : Bytes) :
    (rebalanceGroup group).members.find consumerId =
      (group.members.find consumerId).map fun member => { member with
        assignments := topicShare (member.topic,
          (subscribers group.members member.topic).insertionSort (· ≤ ·)) kDefaultPartitionCount
            consumerId } := by
  have known : ∀ entry ∈ topicToConsumers (clearAssignments group.members), entry.2 ≠ [] ∧
      ∀ id ∈ entry.2, ((clearAssignments group.members).find id).isSome := by
    intro entry listed
    obtain ⟨nonempty, sorted⟩ := mem_topicToConsumers listed
    refine ⟨nonempty, fun id inside => ?_⟩
    rw [sorted, List.mem_insertionSort, mem_subscribers_iff] at inside
    obtain ⟨member, found, _⟩ := inside
    rw [found]
    rfl
  have assigned := assignTopics_find known consumerId
  change ((topicToConsumers (clearAssignments group.members)).foldl assignTopic
    (clearAssignments group.members)).find consumerId = _
  rw [assigned]
  cases found : group.members.find consumerId with
  | none => simp [clearAssignments, found]
  | some member =>
      have cleared : (clearAssignments group.members).find consumerId =
          some { member with assignments := [] } := by
        simp [clearAssignments, found]
      rw [flatMap_topicShare cleared, cleared]
      simp [GroupMember.give, subscribers_clear]

@[simp] theorem rebalanceGroup_committedOffsets (group : ConsumerGroup) :
    (rebalanceGroup group).committedOffsets = group.committedOffsets := by
  rfl

/-! Ownership of partitions. -/

/-- A consumer of the group is subscribed to the topic. -/
def ConsumerGroup.Subscribed (group : ConsumerGroup) (topic consumerId : Bytes) : Prop :=
  ∃ member, group.members.find consumerId = some member ∧ member.topic = topic

def ConsumerGroup.Holds (group : ConsumerGroup) (partition : TopicPartition)
    (consumerId : Bytes) : Prop :=
  ∃ member, group.members.find consumerId = some member ∧ partition ∈ member.assignments

def ConsumerGroup.held (group : ConsumerGroup) (topic consumerId : Bytes) : List TopicPartition :=
  ((group.members.find consumerId).map fun member =>
    member.assignments.filter fun assigned => assigned.topic = topic).getD []

/-- Exclusive, complete and fair ownership of the partitions. -/
structure Balanced (group : ConsumerGroup) : Prop where
  nonempty : group.members.entries ≠ []
  owned : ∀ topic, (∃ consumerId, group.Subscribed topic consumerId) →
    ∀ partition : Nat, partition < kDefaultPartitionCount →
      ∃! consumerId, group.Holds ⟨topic, partition⟩ consumerId
  subscribed : ∀ partition consumerId, group.Holds partition consumerId →
    group.Subscribed partition.topic consumerId
  nodup : ∀ consumerId member, group.members.find consumerId = some member →
    member.assignments.Nodup
  fair : ∀ topic first second, group.Subscribed topic first → group.Subscribed topic second →
    (group.held topic first).length ≤ (group.held topic second).length + 1

section Rebalanced

variable (group : ConsumerGroup)

def ConsumerGroup.order (topic : Bytes) : List Bytes :=
  (subscribers group.members topic).insertionSort (· ≤ ·)

theorem mem_order_iff (topic consumerId : Bytes) :
    consumerId ∈ group.order topic ↔ group.Subscribed topic consumerId := by
  rw [ConsumerGroup.order, List.mem_insertionSort, mem_subscribers_iff]
  rfl

theorem order_nodup (topic : Bytes) : (group.order topic).Nodup :=
  (List.perm_insertionSort _ _).nodup_iff.mpr (subscribers_nodup _ _)

theorem rebalanced_subscribed (topic consumerId : Bytes) :
    (rebalanceGroup group).Subscribed topic consumerId ↔ group.Subscribed topic consumerId := by
  unfold ConsumerGroup.Subscribed
  rw [rebalanceGroup_find]
  cases group.members.find consumerId <;> simp

theorem rebalanced_holds (topic : Bytes) (partition : Int) (consumerId : Bytes) :
    (rebalanceGroup group).Holds ⟨topic, partition⟩ consumerId ↔
      group.Subscribed topic consumerId ∧ ∃ index : Nat, partition = index ∧
        index < kDefaultPartitionCount ∧
          RoundRobin.owner (group.order topic) [] index = consumerId := by
  unfold ConsumerGroup.Holds ConsumerGroup.Subscribed
  rw [rebalanceGroup_find]
  cases group.members.find consumerId with
  | none => simp
  | some member =>
      simp only [Option.map_some, Option.some.injEq, exists_eq_left', topicShare, List.mem_map,
        RoundRobin.mem_share_iff, TopicPartition.mk.injEq]
      constructor
      · rintro ⟨index, ⟨bound, owns⟩, rfl, rfl⟩
        exact ⟨rfl, index, rfl, bound, owns⟩
      · rintro ⟨rfl, index, rfl, bound, owns⟩
        exact ⟨index, ⟨bound, owns⟩, rfl, rfl⟩

theorem rebalanced_held {topic consumerId : Bytes} (subscribed : group.Subscribed topic consumerId) :
    (rebalanceGroup group).held topic consumerId =
      topicShare (topic, group.order topic) kDefaultPartitionCount consumerId := by
  obtain ⟨member, found, rfl⟩ := subscribed
  simp only [ConsumerGroup.held, rebalanceGroup_find, found, Option.map_some, Option.getD_some]
  refine List.filter_eq_self.mpr ?_
  intro assigned inside
  obtain ⟨_, _, rfl⟩ := List.mem_map.mp inside
  simp

theorem rebalanced_nonempty (nonempty : group.members.entries ≠ []) :
    (rebalanceGroup group).members.entries ≠ [] := by
  rw [ne_eq, Table.entries_eq_nil_iff] at nonempty ⊢
  simpa [rebalanceGroup_find] using nonempty

theorem rebalanced_balanced (nonempty : group.members.entries ≠ []) :
    Balanced (rebalanceGroup group) := by
  refine ⟨rebalanced_nonempty group nonempty, ?_, ?_, ?_, ?_⟩
  · rintro topic ⟨consumerId, subscribed⟩ partition bound
    rw [rebalanced_subscribed, ← mem_order_iff] at subscribed
    have owns : RoundRobin.owner (group.order topic) [] partition ∈ group.order topic :=
      RoundRobin.owner_mem (List.ne_nil_of_mem subscribed) partition
    refine ⟨RoundRobin.owner (group.order topic) [] partition, ?_, ?_⟩
    · change (rebalanceGroup group).Holds _ _
      rw [rebalanced_holds]
      exact ⟨(mem_order_iff group topic _).mp owns, partition, rfl, bound, rfl⟩
    · intro other holds
      rw [rebalanced_holds] at holds
      obtain ⟨_, index, same, _, rfl⟩ := holds
      rw [Int.ofNat_inj.mp same]
  · rintro ⟨topic, partition⟩ consumerId holds
    rw [rebalanced_holds] at holds
    rw [rebalanced_subscribed]
    exact holds.1
  · intro consumerId member found
    rw [rebalanceGroup_find, Option.map_eq_some_iff] at found
    obtain ⟨stored, _, rfl⟩ := found
    apply (RoundRobin.share_nodup _ _).map
    intro first second same
    exact Int.ofNat_inj.mp (TopicPartition.mk.inj same).2
  · intro topic first second firstIn secondIn
    rw [rebalanced_subscribed] at firstIn secondIn
    rw [rebalanced_held group firstIn, rebalanced_held group secondIn, topicShare, topicShare,
      List.length_map, List.length_map]
    exact RoundRobin.share_fair (order_nodup group topic) _
      ((mem_order_iff group topic first).mpr firstIn)
      ((mem_order_iff group topic second).mpr secondIn)

end Rebalanced

/-! Runs. -/

inductive GroupEvent
  | join (req : Request)
  | leave (req : Request)
  | disconnect (groupId consumerId : Bytes)
  | commit (partitionCount? : Option Nat) (req : Request)
  | poll (req : Request)

def groupStep (groups : ConsumerGroups) : GroupEvent → Bytes × ConsumerGroups
  | .join req => joinGroup groups req
  | .leave req => leaveGroup groups req
  | .disconnect groupId consumerId => ([], removeConsumerFromGroup groups groupId consumerId)
  | .commit partitionCount? req => commitOffset groups partitionCount? req
  | .poll req => (groupPoll groups req, groups)

def groupNext (groups : ConsumerGroups) (event : GroupEvent) : Option ConsumerGroups :=
  some (groupStep groups event).2

theorem storeAfterRemoval_cases (groups : ConsumerGroups) (groupId : Bytes)
    (group : ConsumerGroup) :
    group.members.entries ≠ [] ∧ storeAfterRemoval groups groupId group =
        groups.set groupId (rebalanceGroup group) ∨
      storeAfterRemoval groups groupId group = groups.remove groupId := by
  unfold storeAfterRemoval
  split
  · exact Or.inr rfl
  · rename_i nonempty
    exact Or.inl ⟨nonempty, rfl⟩

def offsetsOf (groups : ConsumerGroups) (groupId : Bytes) : Table TopicPartition Nat :=
  ((groups.find groupId).map ConsumerGroup.committedOffsets).getD ∅

theorem groupStep_cases (groups : ConsumerGroups) (event : GroupEvent) :
    (groupStep groups event).2 = groups ∨
      (∃ groupId group, group.members.entries ≠ [] ∧
        group.committedOffsets = offsetsOf groups groupId ∧
        (∀ consumerId member, group.members.find consumerId = some member →
          (∃ old, groups.find groupId = some old ∧ old.members.find consumerId = some member) ∨
          ∃ req, event = .join req ∧ member.topic = req.topic) ∧
        (groupStep groups event).2 = groups.set groupId (rebalanceGroup group)) ∨
      (∃ groupId, (groupStep groups event).2 = groups.remove groupId) ∨
      ∃ partitionCount? req group, event = .commit partitionCount? req ∧
        groups.find req.groupId = some group ∧
        groupStep groups event = (ascii "OK", groups.set req.groupId { group with
          committedOffsets := group.committedOffsets.set ⟨req.topic, req.partition⟩ req.offset }) := by
  have removal (groupId consumerId : Bytes) {group : ConsumerGroup}
      (found : groups.find groupId = some group) :
      (∃ other rest, rest.members.entries ≠ [] ∧ rest.committedOffsets = offsetsOf groups other ∧
        (∀ id member, rest.members.find id = some member →
          (∃ old, groups.find other = some old ∧ old.members.find id = some member) ∨
          ∃ req, event = .join req ∧ member.topic = req.topic) ∧
        storeAfterRemoval groups groupId (eraseMember group consumerId) =
          groups.set other (rebalanceGroup rest)) ∨
      ∃ other, storeAfterRemoval groups groupId (eraseMember group consumerId) =
        groups.remove other := by
    rcases storeAfterRemoval_cases groups groupId (eraseMember group consumerId) with
      ⟨nonempty, stored⟩ | removed
    · refine Or.inl ⟨groupId, _, nonempty, by simp [offsetsOf, found, eraseMember], ?_, stored⟩
      intro id member kept
      simp only [eraseMember, Table.find_remove] at kept
      split at kept
      · simp at kept
      · exact Or.inl ⟨group, found, kept⟩
    · exact Or.inr ⟨groupId, removed⟩
  cases event with
  | join req =>
      simp only [groupStep, joinGroup, Table.find_emplace, if_true, Option.getD_some,
        Table.emplace_set]
      split
      · rename_i present
        cases found : groups.find req.groupId with
        | none => simp [found] at present
        | some group => exact Or.inl (Table.emplace_of_find found _)
      · refine Or.inr (Or.inl ⟨req.groupId, _, ?_, ?_, ?_, rfl⟩)
        · rw [ne_eq, Table.entries_eq_nil_iff]
          intro absent
          simpa using absent req.consumerId
        · cases found : groups.find req.groupId <;> simp [offsetsOf, found]
        · intro consumerId member stored
          rw [Table.find_set] at stored
          split at stored
          · rw [Option.some.injEq] at stored
            exact Or.inr ⟨req, rfl, by rw [← stored]⟩
          · cases found : groups.find req.groupId with
            | none => simp [found] at stored
            | some old => exact Or.inl ⟨old, rfl, by simpa [found] using stored⟩
  | leave req =>
      simp only [groupStep, leaveGroup]
      split
      · exact Or.inl rfl
      · rename_i group found
        split
        · exact Or.inl rfl
        · exact Or.inr ((removal req.groupId req.consumerId found).imp id Or.inl)
  | disconnect groupId consumerId =>
      simp only [groupStep, removeConsumerFromGroup]
      split
      · exact Or.inl rfl
      · rename_i group found
        exact Or.inr ((removal groupId consumerId found).imp id Or.inl)
  | commit partitionCount? req =>
      simp only [groupStep, commitOffset]
      split
      · exact Or.inl rfl
      · rename_i group found
        split
        · exact Or.inl rfl
        · split
          · exact Or.inl rfl
          · split
            · exact Or.inl rfl
            · exact Or.inr (Or.inr (Or.inr ⟨_, req, group, rfl, found, rfl⟩))
  | poll req => exact Or.inl rfl

def AllBalanced (groups : ConsumerGroups) : Prop :=
  ∀ groupId group, groups.find groupId = some group → Balanced group

theorem Balanced.commit {group : ConsumerGroup} (balanced : Balanced group)
    (offsets : Table TopicPartition Nat) :
    Balanced { group with committedOffsets := offsets } :=
  ⟨balanced.nonempty, balanced.owned, balanced.subscribed, balanced.nodup, balanced.fair⟩

theorem AllBalanced.set {groups : ConsumerGroups} (balanced : AllBalanced groups) {groupId : Bytes}
    {group : ConsumerGroup} (new : Balanced group) : AllBalanced (groups.set groupId group) := by
  intro query found stored
  rw [Table.find_set] at stored
  split at stored
  · rw [Option.some.injEq] at stored
    exact stored ▸ new
  · exact balanced query found stored

theorem groupStep_balanced {groups : ConsumerGroups} (balanced : AllBalanced groups)
    (event : GroupEvent) : AllBalanced (groupStep groups event).2 := by
  rcases groupStep_cases groups event with same | ⟨groupId, group, nonempty, _, _, after⟩ |
    ⟨groupId, after⟩ | ⟨_, req, group, _, found, after⟩
  · rw [same]
    exact balanced
  · rw [after]
    exact balanced.set (rebalanced_balanced group nonempty)
  · rw [after]
    intro query group stored
    rw [Table.find_remove] at stored
    split at stored
    · simp at stored
    · exact balanced query group stored
  · rw [after]
    exact balanced.set ((balanced _ _ found).commit _)

/-- Exclusive and complete partition ownership in every reachable state. -/
theorem reachable_groups_balanced {events : List GroupEvent} {groups : ConsumerGroups}
    (reached : Transition.run groupNext ∅ events = some groups) {groupId : Bytes}
    {group : ConsumerGroup} (stored : groups.find groupId = some group) : Balanced group := by
  have invariant : AllBalanced groups := by
    refine Transition.run_invariant AllBalanced ?_ ?_ reached
    · intro before event after balanced stepped
      simp only [groupNext, Option.some.injEq] at stepped
      exact stepped ▸ groupStep_balanced balanced event
    · intro query group found
      simp at found
  exact invariant groupId group stored

def joinRequest (groupId consumerId topic : String) : Request :=
  { type := .join, groupId := ascii groupId, consumerId := ascii consumerId, topic := ascii topic }

def leaveRequest (groupId consumerId : String) : Request :=
  { type := .leave, groupId := ascii groupId, consumerId := ascii consumerId }

def pollRequest (groupId consumerId : String) : Request :=
  { type := .groupPoll, groupId := ascii groupId, consumerId := ascii consumerId }

theorem reachable_groups_balanced_mixed :
    ∃ groups group, Transition.run groupNext ∅ [.join (joinRequest "g" "a" "t"),
        .join (joinRequest "g" "b" "t"), .join (joinRequest "g" "c" "u"),
        .leave (leaveRequest "g" "a")] = some groups ∧
      groups.find (ascii "g") = some group ∧ Balanced group := by
  have evaluated : ((Transition.run groupNext ∅ [.join (joinRequest "g" "a" "t"),
      .join (joinRequest "g" "b" "t"), .join (joinRequest "g" "c" "u"),
      .leave (leaveRequest "g" "a")]).bind fun groups => groups.find (ascii "g")).isSome = true := by
    decide +kernel
  obtain ⟨group, found⟩ := Option.isSome_iff_exists.mp evaluated
  obtain ⟨groups, reached, stored⟩ := Option.bind_eq_some_iff.mp found
  exact ⟨groups, group, reached, stored, reachable_groups_balanced reached stored⟩

/-! Committed offsets. -/

/-- The offset a poll reports for a partition. -/
def reportedOffset (groups : ConsumerGroups) (groupId : Bytes) (key : TopicPartition) : Nat :=
  ((offsetsOf groups groupId).find key).getD 0

theorem getCommittedOffset_eq (groups : ConsumerGroups) (groupId topic : Bytes) (partition : Int) :
    getCommittedOffset groups groupId topic partition =
      (offsetsOf groups groupId).find ⟨topic, partition⟩ := by
  unfold getCommittedOffset offsetsOf
  cases groups.find groupId <;> rfl

def HasMembers (groups : ConsumerGroups) (groupId : Bytes) : Prop :=
  ∃ group, groups.find groupId = some group ∧ group.members.entries ≠ []

def CommitsTo (groups : ConsumerGroups) (event : GroupEvent) (groupId : Bytes)
    (key : TopicPartition) : Prop :=
  ∃ partitionCount? req, event = .commit partitionCount? req ∧ req.groupId = groupId ∧
    TopicPartition.mk req.topic req.partition = key ∧ (groupStep groups event).1 = ascii "OK"

/-- An event after which the group still has a member, and which is no commit to the
partition. -/
def Undisturbed (groupId : Bytes) (key : TopicPartition) (groups : ConsumerGroups)
    (event : GroupEvent) : Prop :=
  ¬CommitsTo groups event groupId key ∧ HasMembers (groupStep groups event).2 groupId

theorem offsetsOf_set (groups : ConsumerGroups) (groupId query : Bytes) (group : ConsumerGroup) :
    offsetsOf (groups.set groupId group) query =
      if query = groupId then group.committedOffsets else offsetsOf groups query := by
  unfold offsetsOf
  rw [Table.find_set]
  split <;> simp

theorem undisturbed_offset {groups : ConsumerGroups} {event : GroupEvent} {groupId : Bytes}
    {key : TopicPartition} (undisturbed : Undisturbed groupId key groups event) :
    (offsetsOf (groupStep groups event).2 groupId).find key =
      (offsetsOf groups groupId).find key := by
  obtain ⟨noCommit, members⟩ := undisturbed
  rcases groupStep_cases groups event with same | ⟨other, group, _, offsets, _, after⟩ |
    ⟨other, after⟩ | ⟨partitionCount?, req, group, rfl, found, after⟩
  · rw [same]
  · rw [after, offsetsOf_set]
    split
    · rename_i here
      rw [rebalanceGroup_committedOffsets, offsets, here]
    · rfl
  · rw [after] at members ⊢
    obtain ⟨group, found, _⟩ := members
    rw [Table.find_remove] at found
    split at found
    · simp at found
    · rename_i elsewhere
      simp [offsetsOf, elsewhere]
  · rw [after, offsetsOf_set]
    split
    · rename_i here
      have different : key ≠ ⟨req.topic, req.partition⟩ := by
        rintro rfl
        exact noCommit ⟨partitionCount?, req, rfl, here.symm, rfl, by rw [after]⟩
      simp [here, offsetsOf, found, different]
    · rfl

theorem groupStep_offset {groups : ConsumerGroups} (event : GroupEvent) {groupId : Bytes}
    {key : TopicPartition} {offset : Nat}
    (found : (offsetsOf (groupStep groups event).2 groupId).find key = some offset) :
    (offsetsOf groups groupId).find key = some offset ∨
      ∃ partitionCount? req, event = .commit partitionCount? req ∧ req.groupId = groupId ∧
        key = ⟨req.topic, req.partition⟩ ∧ offset = req.offset := by
  rcases groupStep_cases groups event with same | ⟨other, group, _, offsets, _, after⟩ |
    ⟨other, after⟩ | ⟨partitionCount?, req, group, rfl, stored, after⟩
  · rw [same] at found
    exact Or.inl found
  · rw [after, offsetsOf_set] at found
    split at found
    · rename_i here
      rw [rebalanceGroup_committedOffsets, offsets, ← here] at found
      exact Or.inl found
    · exact Or.inl found
  · rw [after] at found
    by_cases here : groupId = other
    · simp [offsetsOf, here] at found
    · left
      simpa [offsetsOf, here] using found
  · rw [after, offsetsOf_set] at found
    split at found
    · rename_i here
      rw [Table.find_set] at found
      split at found
      · rename_i target
        rw [Option.some.injEq] at found
        exact Or.inr ⟨partitionCount?, req, rfl, here.symm, target, found.symm⟩
      · left
        simpa [offsetsOf, here, stored] using found
    · exact Or.inl found

theorem commit_offset {groups : ConsumerGroups} {partitionCount? : Option Nat} {req : Request}
    (answered : (groupStep groups (.commit partitionCount? req)).1 = ascii "OK") :
    (offsetsOf (groupStep groups (.commit partitionCount? req)).2 req.groupId).find
      ⟨req.topic, req.partition⟩ = some req.offset := by
  have refused : ascii "ERROR" ≠ ascii "OK" := by decide
  simp only [groupStep, commitOffset] at answered ⊢
  split at answered
  · exact absurd answered refused
  · rename_i group found
    split at answered
    · exact absurd answered refused
    · rename_i member
      rw [if_neg member]
      split at answered
      · exact absurd answered refused
      · split at answered
        · exact absurd answered refused
        · rename_i range
          simp only [range, if_false]
          simp [offsetsOf]

theorem groupPoll_rows {groups : ConsumerGroups} {req : Request} {group : ConsumerGroup}
    {member : GroupMember} (stored : groups.find req.groupId = some group)
    (found : group.members.find req.consumerId = some member) :
    groupPoll groups req = joinLines (member.assignments.map fun assigned =>
      assigned.topic ++ space :: decimalInt assigned.partition ++
        space :: decimal (reportedOffset groups req.groupId assigned)) := by
  simp only [groupPoll, stored, found, reportedOffset, offsetsOf, Option.map_some, Option.getD_some]
  rfl

/-- A committed offset is what every poll reports, until the next commit, for as long
as the group is never without a member. -/
theorem poll_reports_committed_offset {groups later : ConsumerGroups} {partitionCount? : Option Nat}
    {req : Request} (poll : Request) {between : List GroupEvent}
    (answered : (groupStep groups (.commit partitionCount? req)).1 = ascii "OK")
    (undisturbed : Transition.StepsMeet (Undisturbed req.groupId ⟨req.topic, req.partition⟩)
      groupNext (groupStep groups (.commit partitionCount? req)).2 between)
    (reached : Transition.run groupNext (groupStep groups (.commit partitionCount? req)).2 between =
      some later)
    (sameGroup : poll.groupId = req.groupId) {group : ConsumerGroup} {member : GroupMember}
    (stored : later.find poll.groupId = some group)
    (joined : group.members.find poll.consumerId = some member) :
    ∃ offsets : TopicPartition → Nat, offsets ⟨req.topic, req.partition⟩ = req.offset ∧
      (groupStep later (.poll poll)).1 = joinLines (member.assignments.map fun assigned =>
        assigned.topic ++ space :: decimalInt assigned.partition ++
          space :: decimal (offsets assigned)) := by
  refine ⟨reportedOffset later poll.groupId, ?_, groupPoll_rows stored joined⟩
  have kept : (offsetsOf later req.groupId).find ⟨req.topic, req.partition⟩ = some req.offset := by
    refine Transition.run_invariant_of_stepsMeet
      (fun state => (offsetsOf state req.groupId).find ⟨req.topic, req.partition⟩ =
        some req.offset) ?_ (commit_offset answered) undisturbed reached
    intro before event after holds meets stepped
    simp only [groupNext, Option.some.injEq] at stepped
    rw [← stepped, undisturbed_offset meets, holds]
  rw [reportedOffset, sameGroup, kept, Option.getD_some]

def commitRequest (groupId consumerId topic : String) (offset : Nat) : Request :=
  { type := .commit, groupId := ascii groupId, consumerId := ascii consumerId,
    topic := ascii topic, offset }

instance (groups : ConsumerGroups) (groupId : Bytes) : Decidable (HasMembers groups groupId) :=
  decidable_of_iff (∃ group ∈ groups.find groupId, group.members.entries ≠ []) Iff.rfl

def pairGroups : ConsumerGroups :=
  (joinGroup (joinGroup ∅ (joinRequest "g" "a" "t")).2 (joinRequest "g" "b" "t")).2

theorem poll_reports_committed_offset_takeover :
    ∃ later group member,
      Transition.run groupNext
        (groupStep pairGroups (.commit (some 3) (commitRequest "g" "a" "t" 5))).2
        [.disconnect (ascii "g") (ascii "a")] = some later ∧
      later.find (ascii "g") = some group ∧ group.members.find (ascii "b") = some member ∧
      ∃ offsets : TopicPartition → Nat, offsets ⟨ascii "t", 0⟩ = 5 ∧
        (groupStep later (.poll (pollRequest "g" "b"))).1 =
          joinLines (member.assignments.map fun assigned =>
            assigned.topic ++ space :: decimalInt assigned.partition ++
              space :: decimal (offsets assigned)) := by
  have evaluated : ((Transition.run groupNext
      (groupStep pairGroups (.commit (some 3) (commitRequest "g" "a" "t" 5))).2
      [.disconnect (ascii "g") (ascii "a")]).bind fun later =>
      (later.find (ascii "g")).bind fun group => group.members.find (ascii "b")).isSome = true := by
    decide +kernel
  obtain ⟨member, found⟩ := Option.isSome_iff_exists.mp evaluated
  obtain ⟨later, reached, found⟩ := Option.bind_eq_some_iff.mp found
  obtain ⟨group, stored, joined⟩ := Option.bind_eq_some_iff.mp found
  have undisturbed : Transition.StepsMeet (Undisturbed (ascii "g") ⟨ascii "t", 0⟩) groupNext
      (groupStep pairGroups (.commit (some 3) (commitRequest "g" "a" "t" 5))).2
      [.disconnect (ascii "g") (ascii "a")] := by
    refine ⟨⟨?_, by decide +kernel⟩, fun _ _ => trivial⟩
    rintro ⟨_, _, isCommit, _⟩
    simp at isCommit
  exact ⟨later, group, member, reached, stored, joined,
    poll_reports_committed_offset (pollRequest "g" "b") (by decide +kernel) undisturbed reached rfl
      stored joined⟩

def groupAnswers : ConsumerGroups → List GroupEvent → List Bytes
  | _, [] => []
  | groups, event :: rest =>
      (groupStep groups event).1 :: groupAnswers (groupStep groups event).2 rest

/-- A group that was without a member in between starts over. -/
theorem committed_offset_forgotten :
    groupAnswers ∅ [.join (joinRequest "g" "a" "t"),
        .commit (some 3) (commitRequest "g" "a" "t" 5), .leave (leaveRequest "g" "a"),
        .join (joinRequest "g" "a" "t"), .poll (pollRequest "g" "a")] =
      [ascii "OK", ascii "OK", ascii "OK", ascii "OK", ascii "t 0 0\nt 1 0\nt 2 0"] := by
  decide +kernel

end KafkaBroker
