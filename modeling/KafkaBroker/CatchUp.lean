import KafkaBroker.Replication

/-!
`synchronize_follower` as a catch-up: wherever it is cut off, and whenever the follower
starts over, the follower is left with a prefix of every list of the leader, in memory and
on disk, and a progress that says how long it is.
-/

namespace KafkaBroker

open ByteText Posix

def Arrived (topic : Bytes) (partition : Int) (payload : Bytes) : Prop :=
  ∃ raw : Bytes, raw.length ≤ kMaxPayloadSize ∧
    ((parseRequest raw).type = .produce ∨ (parseRequest raw).type = .replicate) ∧
    (parseRequest raw).topic = topic ∧ (parseRequest raw).partition = partition ∧
    (parseRequest raw).payload = payload

/-- A leader and a follower that has a part of its records. -/
structure Related (config : StoreConfig) (leader : Broker) (follower : World Unit) : Prop where
  regular : leader.Regular
  stored : ∀ topic partition, ∀ payload ∈ leader.messages topic partition,
    Arrived topic partition payload ∧ ValidName topic ∧ isBlank payload = false
  sound : FollowerSound config follower
  inside : ∀ topic partition,
    follower.broker.messages topic partition <+: leader.messages topic partition

theorem Arrived.sendable {topic : Bytes} {partition : Int} {payload : Bytes}
    (arrived : Arrived topic partition payload) (range : InRange partition)
    (valid : ValidName topic) (solid : isBlank payload = false) :
    Sendable topic partition payload := by
  obtain ⟨raw, framed, typed, rfl, rfl, rfl⟩ := arrived
  have accepted : (parseRequest raw).type ≠ .invalid := by
    rcases typed with typed | typed <;> simp [typed]
  have head := parseRequest_head accepted solid
  rcases typed with typed | typed
  · obtain ⟨word, _, text, _, shorter⟩ := parseRequest_produce typed
    exact ⟨⟨word, range, text, head⟩, valid, shorter.trans framed⟩
  · obtain ⟨word, _, text, shorter⟩ := parseRequest_replicate typed
    exact ⟨⟨word, range, text, head⟩, valid, shorter.trans framed⟩

section Synchronize

variable {config : StoreConfig} {leader : Broker} {follower : World Unit}

theorem Related.replicable (related : Related config leader follower) : Replicable leader := by
  intro topic partition payload member
  have range : InRange partition := by
    by_contra outside
    simp [messages_outside related.regular topic outside] at member
  obtain ⟨arrived, valid, solid⟩ := related.stored topic partition payload member
  exact arrived.sendable range valid solid

theorem Related.advance (related : Related config leader follower) {before after : Follower}
    (advances : Advances config leader before after) : Related config leader after.world :=
  ⟨related.regular, related.stored, advances.mirrors.sound, advances.mirrors.inside⟩

variable (follows : config.role = .follower) (noNul : 0 ∉ config.dataDir)

include follows noNul

theorem Related.restart (related : Related config leader follower) :
    ∃ next, KafkaBroker.restart config follower = some next ∧ Related config leader next := by
  obtain ⟨next, restarted, sound, messages⟩ := related.sound.restart follows noNul
  refine ⟨next, restarted, related.regular, related.stored, sound, ?_⟩
  intro topic partition
  rw [messages]
  exact related.inside topic partition

/-- The catch-up keeps the two brokers related, and if it returns `true` they hold the same
records. -/
theorem synchronizeFollower_related (related : Related config leader follower)
    {script : List Exchange} (fine : ∀ exchange ∈ script, exchange.env.calls.Unfailing) {result}
    (synchronized : leader.synchronizeFollower (followerLink config) { world := follower, script } =
      result) :
    Related config leader result.2.world ∧
      (∃ next, KafkaBroker.restart config result.2.world = some next ∧
        Related config leader next) ∧
      (result.1 = true → ∀ topic partition,
        result.2.world.broker.messages topic partition = leader.messages topic partition) := by
  have after : Related config leader result.2.world ∧ (result.1 = true → ∀ topic partition,
      result.2.world.broker.messages topic partition = leader.messages topic partition) := by
    unfold Broker.synchronizeFollower at synchronized
    split at synchronized
    · rename_i leads
      have replicable := related.replicable
      have mirrors : Mirrors config leader { world := follower, script } :=
        ⟨related.sound, related.inside, fine⟩
      have known : ∀ target ∈ leader.nonEmptyPartitions,
          Word target.topic ∧ InRange target.partition := by
        rintro ⟨topic, partition⟩ listed
        rw [mem_nonEmptyPartitions related.regular] at listed
        obtain ⟨payload, member⟩ := List.exists_mem_of_ne_nil _ listed
        have sendable := replicable topic partition payload member
        exact ⟨sendable.word, sendable.range⟩
      obtain ⟨advances, caughtUp⟩ := synchronize_advances follows noNul leads replicable mirrors
        known synchronized
      refine ⟨related.advance advances, fun success topic partition => ?_⟩
      by_cases empty : leader.messages topic partition = []
      · have inside := advances.mirrors.inside topic partition
        rw [empty, List.prefix_nil] at inside
        rw [inside, empty]
      · have listed := (mem_nonEmptyPartitions related.regular topic partition).mpr empty
        exact caughtUp success _ listed
    · subst synchronized
      exact ⟨related, by simp⟩
  exact ⟨after.1, after.1.restart follows noNul, after.2⟩

end Synchronize

def holding (broker : Broker) (payload : Bytes) : Broker :=
  { broker with
    topics := (broker.topics.emplace (ascii "t") (Topic.create (ascii "t"))).set (ascii "t")
      ((broker.topicOf (ascii "t")).push 0 payload) }

theorem holding_pushed {broker : Broker} (regular : broker.Regular) (payload : Bytes) :
    Pushed { topic := ascii "t", payload } broker (holding broker payload) :=
  have range : InRange 0 := by decide
  @push_pushed broker regular { topic := ascii "t", payload } range broker.replicationProgress

def leaderHolding : Broker :=
  holding (holding { role := .leader, followerPort := 9093 } (ascii "x")) (ascii "y")

theorem leaderHolding_spec : leaderHolding.Regular ∧ ∀ topic partition,
    leaderHolding.messages topic partition =
      if topic = ascii "t" ∧ partition = 0 then [ascii "x", ascii "y"] else [] := by
  have regular : ({ role := .leader, followerPort := 9093 } : Broker).Regular := by
    simp [Broker.Regular]
  have first := holding_pushed regular (ascii "x")
  have second := holding_pushed first.regular (ascii "y")
  refine ⟨second.regular, fun topic partition => ?_⟩
  rw [leaderHolding, second.messages, first.messages]
  split <;> rfl

theorem leaderHolding_stored {topic : Bytes} {partition : Int} {payload : Bytes}
    (member : payload ∈ leaderHolding.messages topic partition) :
    Arrived topic partition payload ∧ ValidName topic ∧ isBlank payload = false := by
  rw [leaderHolding_spec.2] at member
  split at member
  · rename_i here
    obtain ⟨rfl, rfl⟩ := here
    simp only [List.mem_cons, List.not_mem_nil, or_false] at member
    rcases member with rfl | rfl
    · exact ⟨⟨ascii "PRODUCE t 0 x", by decide +kernel⟩, by decide +kernel, by decide +kernel⟩
    · exact ⟨⟨ascii "PRODUCE t 0 y", by decide +kernel⟩, by decide +kernel, by decide +kernel⟩
  · simp at member

/-- The follower stores the first record but its answer is lost. -/
def lostScript : List Exchange := [smoothExchange .answered, smoothExchange .lost]

def restartedScript : List Exchange :=
  [{ smoothExchange .answered with restarts := true }, smoothExchange .answered]

def synchronizedOver (world : World Unit) (script : List Exchange) : Bool × Follower :=
  leaderHolding.synchronizeFollower (followerLink followerAlone) { world, script }

theorem synchronizeFollower_related_lost :
    ∃ follower lost next result, restart followerAlone ⟨{}, ∅, ()⟩ = some follower ∧
      synchronizedOver follower lostScript = (false, lost) ∧
      lost.world.broker.messages (ascii "t") 0 = [ascii "x"] ∧
      synchronizedOver lost.world restartedScript = (true, result) ∧
      restart followerAlone result.world = some next ∧
      Related followerAlone leaderHolding next ∧
      ∀ topic partition, result.world.broker.messages topic partition =
        leaderHolding.messages topic partition := by
  have evaluated : (restart followerAlone (⟨{}, ∅, ()⟩ : World Unit)).map (fun follower =>
      let lost := synchronizedOver follower lostScript
      (lost.1, lost.2.world.broker.messages (ascii "t") 0,
        (synchronizedOver lost.2.world restartedScript).1)) = some (false, [ascii "x"], true) := by
    decide +kernel
  have follows : followerAlone.role = .follower := rfl
  have noNul : 0 ∉ followerAlone.dataDir := by decide
  obtain ⟨follower, started, sound, nothing⟩ := restart_fresh follows noNul (freshStore_empty _)
  simp only [started, Option.map_some, Option.some.injEq, Prod.mk.injEq] at evaluated
  obtain ⟨failed, stored, caughtUp⟩ := evaluated
  obtain ⟨lost, first⟩ : ∃ lost, synchronizedOver follower lostScript = (false, lost) :=
    ⟨_, Prod.ext failed rfl⟩
  rw [first] at stored caughtUp
  obtain ⟨result, second⟩ : ∃ result, synchronizedOver lost.world restartedScript =
      (true, result) := ⟨_, Prod.ext caughtUp rfl⟩
  have related : Related followerAlone leaderHolding follower := by
    refine ⟨leaderHolding_spec.1, fun _ _ _ => leaderHolding_stored, sound, ?_⟩
    intro topic partition
    rw [nothing]
    exact List.nil_prefix
  have fine : ∀ exchange ∈ lostScript ++ restartedScript, exchange.env.calls.Unfailing := by
    simp [lostScript, restartedScript, smoothExchange, smoothCalls_unfailing]
  obtain ⟨again, _, _⟩ := synchronizeFollower_related follows noNul related
    (fun exchange member => fine exchange (List.mem_append_left _ member)) first
  obtain ⟨_, ⟨next, restarted, last⟩, equal⟩ := synchronizeFollower_related follows noNul again
    (fun exchange member => fine exchange (List.mem_append_right _ member)) second
  exact ⟨follower, lost, next, result, started, first, stored, second, restarted, last, equal rfl⟩

end KafkaBroker
