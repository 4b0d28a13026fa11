import KafkaBroker.ClusterCore
import KafkaBroker.Replication

/-!
Concurrent producers. A thread sends missing records outside the lock, at offsets it has
worked out from an earlier progress. As long as each `REPLICATE` goes out at the offset
where the follower's list ends, the follower holds a prefix of what the leader holds; the
catch-up of one thread and the append of another one can break that.
-/

namespace KafkaBroker

open ByteText Posix

def ProduceThread.InOrder (leader : World (World Unit)) (calls : AppendCalls)
    (thread : ProduceThread) : Prop :=
  match thread.phase with
  | .missing target _ _ =>
      -- no more records than offsets
      (leader.broker.messages target.topic target.partition).length ≤ 2 ^ 64
  | .send target offset _ _ _ =>
      offset = (leader.peer.broker.messages target.topic target.partition).length
  | .produce => AppendSucceeds leader.broker.dataDir leader.disk calls thread.req →
      (leader.broker.messages thread.req.topic thread.req.partition).length =
        (leader.peer.broker.messages thread.req.topic thread.req.partition).length
  | _ => True

/-- No payload is all blanks, and every record is sent in its turn. -/
def SentInOrder (state : ClusterState) : ClusterEvent → Prop
  | .arrive _ raw => isBlank (parseRequest raw).payload = false
  | .step id env _ _ => ∀ thread ∈ state.threads.find id, thread.InOrder state.leader env.calls

instance (leader : World (World Unit)) (calls : AppendCalls) (thread : ProduceThread) :
    Decidable (thread.InOrder leader calls) :=
  match thread with
  | ⟨_, .missing _ _ _⟩ => inferInstanceAs (Decidable (_ ≤ _))
  | ⟨_, .send _ _ _ _ _⟩ => inferInstanceAs (Decidable (_ = _))
  | ⟨_, .produce⟩ => inferInstanceAs (Decidable (_ → _))
  | ⟨_, .snapshot⟩ => inferInstanceAs (Decidable True)
  | ⟨_, .query _ _⟩ => inferInstanceAs (Decidable True)
  | ⟨_, .finished⟩ => inferInstanceAs (Decidable True)

instance (state : ClusterState) (event : ClusterEvent) : Decidable (SentInOrder state event) :=
  match event with
  | .arrive _ raw => inferInstanceAs (Decidable (isBlank (parseRequest raw).payload = false))
  | .step id env _ _ => inferInstanceAs (Decidable
      (∀ thread ∈ state.threads.find id, thread.InOrder state.leader env.calls))

/-- The follower's lists are the start of the leader's, and the rest can be replicated. -/
def Trails (leader follower : Broker) : Prop :=
  ∀ topic partition, ∃ rest,
    follower.messages topic partition ++ rest = leader.messages topic partition ∧
      ∀ payload ∈ rest, Legible topic partition payload

def Lengthens (before after : Broker) : Prop :=
  ∀ topic partition, before.messages topic partition <+: after.messages topic partition

/-- The records a thread is about to send are the leader's, at the offsets it gives them. -/
def ThreadPhase.Reads (leader : Broker) : ThreadPhase → Prop
  | .send target offset record records _ =>
      record :: records <+: (leader.messages target.topic target.partition).drop offset
  | _ => True

structure ThreadSound (leader : Broker) (thread : ProduceThread) : Prop where
  legible : Legible thread.req.topic thread.req.partition thread.req.payload
  reads : thread.phase.Reads leader

structure InStep (state : ClusterState) : Prop where
  trails : Trails state.leader.broker state.follower.broker
  threads : ∀ id thread, state.threads.find id = some thread →
    ThreadSound state.leader.broker thread

/-! The lists. -/

theorem Trails.inside {leader follower : Broker} (trails : Trails leader follower) (topic : Bytes)
    (partition : Int) :
    follower.messages topic partition <+: leader.messages topic partition := by
  obtain ⟨rest, whole, _⟩ := trails topic partition
  exact ⟨rest, whole⟩

theorem Trails.follower_same {leader follower after : Broker} (trails : Trails leader follower)
    (same : ∀ topic partition, after.messages topic partition =
      follower.messages topic partition) : Trails leader after := by
  intro topic partition
  rw [same]
  exact trails topic partition

theorem Lengthens.of_eq {before after : Broker} (same : ∀ topic partition,
    after.messages topic partition = before.messages topic partition) : Lengthens before after := by
  intro topic partition
  rw [same]

theorem Lengthens.refl (broker : Broker) : Lengthens broker broker :=
  Lengthens.of_eq fun _ _ => rfl

theorem Appended.lengthens {req : Request} {before after : Broker}
    (appended : Appended req before after) : Lengthens before after := by
  intro topic partition
  rcases appended.list topic partition with same | pushed
  · rw [same]
  · rw [pushed]
    exact List.prefix_append _ _

theorem Trails.leader_appended {req : Request} {leader follower after : Broker}
    (trails : Trails leader follower)
    (legible : Legible req.topic req.partition req.payload)
    (appended : Appended req leader after) : Trails after follower := by
  intro topic partition
  obtain ⟨rest, whole, rest_legible⟩ := trails topic partition
  rcases appended with same | pushed
  · exact ⟨rest, whole.trans (same topic partition).symm, rest_legible⟩
  · refine ⟨rest ++ if topic = req.topic ∧ partition = req.partition then [req.payload] else [],
      ?_, ?_⟩
    · rw [pushed, ← List.append_assoc, whole]
    · intro payload member
      rcases List.mem_append.mp member with member | member
      · exact rest_legible payload member
      · split at member
        · rename_i here
          rw [List.mem_singleton] at member
          rw [here.1, here.2, member]
          exact legible
        · simp at member

theorem Trails.follower_appended {leader follower after : Broker}
    (trails : Trails leader follower) {topic : Bytes} {partition : Int} {payload : Bytes}
    (next : [payload] <+: (leader.messages topic partition).drop
      (follower.messages topic partition).length)
    (appended : Appended { topic, partition, payload } follower after) : Trails leader after := by
  rcases appended with same | pushed
  · exact trails.follower_same same
  · intro name query
    obtain ⟨rest, whole, legible⟩ := trails name query
    rw [pushed]
    split
    · rename_i here
      obtain ⟨rfl, rfl⟩ := here
      rw [← whole, List.drop_left] at next
      obtain ⟨later, rfl⟩ := next
      refine ⟨later, ?_, fun record member => legible record (by simp [member])⟩
      rw [← whole, List.append_assoc]
    · rw [List.append_nil]
      exact ⟨rest, whole, legible⟩

theorem Trails.next_legible {leader follower : Broker} (trails : Trails leader follower)
    {topic : Bytes} {partition : Int} {record : Bytes}
    (next : [record] <+: (leader.messages topic partition).drop
      (follower.messages topic partition).length) : Legible topic partition record := by
  obtain ⟨rest, whole, legible⟩ := trails topic partition
  rw [← whole, List.drop_left] at next
  exact legible record (next.subset (by simp))

theorem ThreadPhase.Reads.grow {before after : Broker} {phase : ThreadPhase}
    (reads : phase.Reads before) (longer : Lengthens before after) : phase.Reads after := by
  cases phase with
  | send target offset record records rest => exact reads.trans ((longer _ _).drop offset)
  | _ => trivial

theorem nextTarget_reads (leader : Broker) (targets : List TopicPartition) :
    (nextTarget targets).Reads leader := by
  cases targets <;> trivial

theorem nextRecord_reads {leader : Broker} {target : TopicPartition} {offset : Nat}
    {records : List Bytes} (rest : List TopicPartition)
    (read : records <+: (leader.messages target.topic target.partition).drop offset) :
    (nextRecord target offset records rest).Reads leader := by
  cases records with
  | nil => exact nextTarget_reads leader rest
  | cons record records => exact read

theorem getMissingRecords_reads {leader : Broker} {topic : Bytes} {partition : Int}
    (few : (leader.messages topic partition).length ≤ 2 ^ 64) (progress : Option Nat) :
    leader.getMissingRecords topic partition progress <+:
      (leader.messages topic partition).drop (firstMissingOffset progress) := by
  simp only [Broker.getMissingRecords]
  split
  · exact List.nil_prefix
  · cases progress with
    | none => exact List.prefix_rfl
    | some progress =>
        simp only [firstMissingOffset]
        split
        · exact List.nil_prefix
        · rename_i before
          have small : (progress + 1) % 2 ^ 64 = progress + 1 := Nat.mod_eq_of_lt (by omega)
          rw [small]

/-! The follower. -/

theorem replicate_survived {calls : AppendCalls} (alive : calls.Survived) (broker : Broker)
    (disk : FileSystem) (req : Request) : (replicate calls broker disk req).1 ≠ .crashed := by
  simp only [replicate]
  split
  · simp
  · split
    · simp
    · split
      · simp
      · rename_i log _
        split
        · rename_i crashed
          exact absurd crashed (alive log _ disk)
        · simp
        · simp

section Follower

variable {config : StoreConfig} {env : Environment Unit}

theorem deliver_appended (alive : env.calls.Survived) (follower : World Unit) {topic : Bytes}
    {partition : Int} {payload : Bytes} (legible : Legible topic partition payload) (offset : Nat)
    {result} (delivered : deliver config env follower
      (replicateMessage topic partition offset payload) = result) :
    Appended { topic, partition, payload } follower.broker result.1.broker ∧
      (result.2 = some (ascii "OK") → offset < 2 ^ 63) := by
  have parsed := parse_replicateMessage legible offset
  subst delivered
  by_cases small : offset < 2 ^ 63
  · refine ⟨?_, fun _ => small⟩
    rw [if_pos small] at parsed
    have appended := replicate_appended env.calls follower.broker follower.disk
      { type := .replicate, topic, partition, offset, payload }
    have lives := replicate_survived alive follower.broker follower.disk
      { type := .replicate, topic, partition, offset, payload }
    obtain ⟨metrics, after, _, _, crashed⟩ := handleRequest_eq env follower
      { type := .replicate, topic, partition, offset, payload }
    simp only [dispatch] at after crashed
    have handled : Appended { topic, partition, payload } follower.broker
        (handleRequest env follower
          { type := .replicate, topic, partition, offset, payload }).2.broker := by
      rw [after]
      exact appended
    simp only [deliver, parsed]
    split
    · exact handled
    · rename_i died
      exact absurd (crashed.mp died) lives
    · exact handled
  · rw [if_neg small] at parsed
    have dispatched : dispatch env follower
        (parseRequest (replicateMessage topic partition offset payload)) =
        (.returned (ascii "ERROR", false), follower) := by
      rw [parsed]
      rfl
    obtain ⟨metrics, quiet⟩ := deliver_quiet config dispatched
    rw [quiet]
    refine ⟨Or.inl fun _ _ => rfl, ?_⟩
    have refused : ascii "ERROR" ≠ ascii "OK" := by decide
    split
    · simp
    · simp [refused]

theorem send_appended (config : StoreConfig) (alive : env.calls.Survived) (follower : World Unit) {topic : Bytes}
    {partition : Int} {payload : Bytes} (legible : Legible topic partition payload) (offset : Nat)
    {result} (sent : clientRequest (steadyLink config env) follower
      (replicateMessage topic partition offset payload) = result) :
    Appended { topic, partition, payload } follower.broker result.1.broker ∧
      (result.2 = some (ascii "OK") → offset < 2 ^ 63) := by
  unfold clientRequest at sent
  split at sent
  · subst sent
    exact ⟨Or.inl fun _ _ => rfl, by simp⟩
  · exact deliver_appended alive follower legible offset sent

theorem query_same (follower : World Unit) (topic : Bytes) (partition : Int) (name : Bytes)
    (query : Int) :
    (queryFollowerProgress (steadyLink config env) follower topic partition).1.broker.messages
      name query = follower.broker.messages name query := by
  have typed : (parseRequest (progressMessage topic partition)).type = .replicationProgress ∨
      (parseRequest (progressMessage topic partition)).type = .invalid := by
    rw [progressMessage_eq_render, parse_render_arguments]
    exact parserOf_type .replicationProgress _
  simp only [queryFollowerProgress, clientRequest]
  split
  · rfl
  · obtain ⟨reply, dispatched⟩ : ∃ reply, dispatch env follower
        (parseRequest (progressMessage topic partition)) = (.returned reply, follower) := by
      rcases typed with typed | typed
      · exact ⟨_, by simp only [dispatch, typed]; rfl⟩
      · exact ⟨_, by simp only [dispatch, typed]; rfl⟩
    obtain ⟨metrics, delivered⟩ := deliver_quiet config dispatched
    simp only [steadyLink, delivered]
    rfl

end Follower

/-! One step of a thread. -/

structure Stepped (before after : World (World Unit)) (phase : ThreadPhase) : Prop where
  trails : Trails after.broker after.peer.broker
  longer : Lengthens before.broker after.broker
  reads : phase.Reads after.broker

section Threads

variable {config : StoreConfig} {env : Environment (World Unit)} {followerEnv : Environment Unit}
  (alive : followerEnv.calls.Survived) {leader : World (World Unit)}
  (trails : Trails leader.broker leader.peer.broker)

include alive trails

theorem send_stepped {target : TopicPartition} {offset : Nat} {record : Bytes}
    {records : List Bytes} (rest : List TopicPartition)
    (reads : record :: records <+:
      (leader.broker.messages target.topic target.partition).drop offset)
    (turn : offset = (leader.peer.broker.messages target.topic target.partition).length) {answer}
    (sent : clientRequest (steadyLink config followerEnv) leader.peer
      (replicateMessage target.topic target.partition offset record) = answer) :
    Stepped leader { leader with peer := answer.1 }
      (if answer.2 = some (ascii "OK") then nextRecord target ((offset + 1) % 2 ^ 64) records rest
        else .produce) := by
  have next : [record] <+: (leader.broker.messages target.topic target.partition).drop offset :=
    (List.prefix_append [record] records).trans reads
  rw [turn] at next
  obtain ⟨appended, small⟩ := send_appended config alive leader.peer (trails.next_legible next) offset sent
  refine ⟨trails.follower_appended next appended, Lengthens.refl _, ?_⟩
  split
  · rename_i accepted
    have bound := small accepted
    have noWrap : (offset + 1) % 2 ^ 64 = offset + 1 := Nat.mod_eq_of_lt (by omega)
    rw [noWrap]
    apply nextRecord_reads
    have later := reads.drop 1
    rw [List.drop_drop] at later
    exact later
  · trivial

theorem appendAndReplicate_trails (config : StoreConfig) (env : Environment (World Unit))
    {req : Request}
    (legible : Legible req.topic req.partition req.payload)
    (turn : AppendSucceeds leader.broker.dataDir leader.disk env.calls req →
      (leader.broker.messages req.topic req.partition).length =
        (leader.peer.broker.messages req.topic req.partition).length) {produced}
    (ended : appendAndReplicate { env with link := steadyLink config followerEnv } leader req =
      produced) :
    Trails produced.2.broker produced.2.peer.broker ∧
      Lengthens leader.broker produced.2.broker := by
  have appended := appendLocal_appended leader.broker leader.disk env.calls req
  have waiting := trails.leader_appended legible appended
  subst ended
  simp only [appendAndReplicate]
  split
  · exact ⟨waiting, appended.lengthens⟩
  · exact ⟨waiting, appended.lengthens⟩
  · exact ⟨waiting, appended.lengthens⟩
  · rename_i offset returned
    obtain ⟨succeeds, position, pushed⟩ := appendLocal_returned returned
    have next : [req.payload] <+:
        ((appendLocal leader.broker leader.disk env.calls req).2.1.messages req.topic
          req.partition).drop
            (leader.peer.broker.messages req.topic req.partition).length := by
      rw [pushed, ← turn succeeds]
      simp
    have received := waiting.follower_appended next
      (send_appended config alive leader.peer legible offset rfl).1
    split
    · split
      · exact ⟨received, appended.lengthens⟩
      · exact ⟨received, appended.lengthens⟩
    · exact ⟨waiting, appended.lengthens⟩

theorem threadStep_stepped {thread : ProduceThread} (sound : ThreadSound leader.broker thread)
    (inOrder : thread.InOrder leader env.calls) {next}
    (stepped : threadStep { env with link := steadyLink config followerEnv } leader thread =
      some next) : Stepped leader next.1 next.2 := by
  obtain ⟨req, phase⟩ := thread
  obtain ⟨legible, reads⟩ := sound
  cases phase with
  | snapshot =>
      simp only [threadStep, Option.some.injEq] at stepped
      subst stepped
      refine ⟨trails, Lengthens.refl _, ?_⟩
      split
      · exact nextTarget_reads _ _
      · trivial
  | query target rest =>
      simp only [threadStep, Option.some.injEq] at stepped
      subst stepped
      refine ⟨trails.follower_same (query_same leader.peer _ _), Lengthens.refl _, ?_⟩
      split <;> trivial
  | missing target progress rest =>
      simp only [threadStep, Option.some.injEq] at stepped
      subst stepped
      exact ⟨trails, Lengthens.refl _,
        nextRecord_reads rest (getMissingRecords_reads inOrder progress)⟩
  | send target offset record records rest =>
      simp only [threadStep, Option.some.injEq] at stepped
      subst stepped
      exact send_stepped alive trails rest reads inOrder rfl
  | produce =>
      obtain ⟨kept, longer⟩ := appendAndReplicate_trails alive trails config env legible
        inOrder rfl
      simp only [threadStep] at stepped
      split at stepped
      · simp at stepped
      · rw [Option.some.injEq] at stepped
        subst stepped
        exact ⟨kept, longer, trivial⟩
  | finished => simp [threadStep] at stepped

end Threads

/-! A thread on its own does what `produce` does. -/

def Moves (env : Environment (World Unit)) (req : Request)
    (before after : World (World Unit) × ThreadPhase) : Prop :=
  threadStep env before.1 ⟨req, before.2⟩ = some after

section Alone

variable (env : Environment (World Unit)) (req : Request)

theorem sendMissing_moves (leader : World (World Unit)) (target : TopicPartition)
    (rest : List TopicPartition) (offset : Nat) (records : List Bytes) :
    let sent := sendMissing env.link target.topic target.partition leader.peer offset records
    Relation.ReflTransGen (Moves env req) (leader, nextRecord target offset records rest)
      ({ leader with peer := sent.2 }, if sent.1 then nextTarget rest else .produce) := by
  induction records generalizing leader offset with
  | nil => exact Relation.ReflTransGen.refl
  | cons record records ih =>
      refine Relation.ReflTransGen.head rfl ?_
      simp only [sendMissing]
      split
      · exact ih { leader with peer := (clientRequest env.link leader.peer
          (replicateMessage target.topic target.partition offset record)).1 } _
      · exact Relation.ReflTransGen.refl

theorem catchUpFollower_moves {leader : World (World Unit)}
    (leads : leader.broker.replicates = true) (target : TopicPartition) (progress : Option Nat)
    (rest : List TopicPartition) :
    let caughtUp := leader.broker.catchUpFollower env.link leader.peer target.topic
      target.partition progress
    Relation.ReflTransGen (Moves env req) (leader, .missing target progress rest)
      ({ leader with peer := caughtUp.2 }, if caughtUp.1 then nextTarget rest else .produce) := by
  refine Relation.ReflTransGen.head rfl ?_
  simp only [Broker.replicates, decide_eq_true_eq] at leads
  have role : ¬leader.broker.role ≠ .leader := not_not_intro leads.1
  have port : ¬leader.broker.followerPort ≤ 0 := by omega
  simp only [Broker.catchUpFollower, role, port, if_false]
  split
  · rename_i missing
    rw [missing]
    exact Relation.ReflTransGen.refl
  · exact sendMissing_moves env req leader target rest _ _

theorem synchronizePartitions_moves {leader : World (World Unit)}
    (leads : leader.broker.replicates = true) (targets : List TopicPartition) :
    Relation.ReflTransGen (Moves env req) (leader, nextTarget targets)
      ({ leader with peer :=
        (leader.broker.synchronizePartitions env.link leader.peer targets).2 }, .produce) := by
  induction targets generalizing leader with
  | nil => exact Relation.ReflTransGen.refl
  | cons target rest ih =>
      refine Relation.ReflTransGen.head rfl ?_
      simp only [Broker.synchronizePartitions]
      cases (queryFollowerProgress env.link leader.peer target.topic target.partition).2 with
      | none => exact Relation.ReflTransGen.refl
      | some progress =>
          refine (catchUpFollower_moves env req (by exact leads) target progress rest).trans ?_
          simp only
          split
          · exact ih (by exact leads)
          · exact Relation.ReflTransGen.refl

theorem produce_moves (leader : World (World Unit))
    (lives : (produce env leader req).1 ≠ .crashed) :
    Relation.ReflTransGen (Moves env req) (leader, .snapshot)
      ((produce env leader req).2, .finished) := by
  have synchronized : Relation.ReflTransGen (Moves env req)
      (leader, if leader.broker.replicates then nextTarget leader.broker.nonEmptyPartitions
        else .produce)
      ({ leader with peer := (leader.broker.synchronizeFollower env.link leader.peer).2 },
        .produce) := by
    cases leads : leader.broker.replicates with
    | true =>
        simp only [Broker.synchronizeFollower, leads, if_true]
        exact synchronizePartitions_moves env req leads _
    | false =>
        simp only [Broker.synchronizeFollower, leads, Bool.false_eq_true, if_false]
        exact Relation.ReflTransGen.refl
  refine Relation.ReflTransGen.head rfl (synchronized.tail ?_)
  rw [produce_eq] at lives ⊢
  simp only [Moves, threadStep]

end Alone

/-! Runs. -/

section Runs

variable {config : StoreConfig} {state next : ClusterState}

theorem arrive_inStep (inStep : InStep state) {id : Nat} {raw : Bytes}
    (solid : isBlank (parseRequest raw).payload = false)
    (stepped : clusterStep config state (.arrive id raw) = some next) : InStep next := by
  simp only [clusterStep] at stepped
  split at stepped
  · simp at stepped
  · rename_i refused
    simp only [not_or, not_not] at refused
    rw [Option.some.injEq] at stepped
    subst stepped
    obtain ⟨word, range, text, head, _⟩ := parseRequest_produce refused.2.2
    refine ⟨inStep.trails, fun other thread found => ?_⟩
    rw [Table.find_set] at found
    split at found
    · rw [Option.some.injEq] at found
      subst found
      exact ⟨⟨word, range, text, head solid⟩, trivial⟩
    · exact inStep.threads other thread found

theorem clusterStep_inStep {event : ClusterEvent} (inStep : InStep state)
    (sentInOrder : SentInOrder state event)
    (stepped : clusterStep config state event = some next) : InStep next := by
  cases event with
  | arrive id raw => exact arrive_inStep inStep sentInOrder stepped
  | step id env followerEnv alive =>
      simp only [clusterStep] at stepped
      split at stepped
      · simp at stepped
      · rename_i thread found
        obtain ⟨after, moved, rfl⟩ := Option.map_eq_some_iff.mp stepped
        have sound := inStep.threads id thread found
        obtain ⟨trails, longer, reads⟩ := threadStep_stepped alive inStep.trails sound
          (sentInOrder thread found) moved
        refine ⟨trails, fun other stored held => ?_⟩
        rw [Table.find_set] at held
        split at held
        · rw [Option.some.injEq] at held
          subst held
          exact ⟨sound.legible, reads⟩
        · have before := inStep.threads other stored held
          exact ⟨before.legible, before.reads.grow longer⟩

theorem clusterStart_inStep {leaderConfig : StoreConfig} (leaderNul : 0 ∉ leaderConfig.dataDir)
    (noNul : 0 ∉ config.dataDir) {leaderDisk followerDisk : FileSystem}
    (leaderLayout : StoreLayout (resolve leaderConfig.dataDir) leaderDisk)
    (layout : StoreLayout (resolve config.dataDir) followerDisk)
    (equal : ∀ topic partition, InRange partition →
      payloads (logBytes (resolve config.dataDir) followerDisk topic partition) =
        payloads (logBytes (resolve leaderConfig.dataDir) leaderDisk topic partition)) :
    ∃ initial, clusterStart leaderConfig config leaderDisk followerDisk = some initial ∧
      InStep initial := by
  have followerLayout : StoreLayout (resolve config.dataDir)
      (⟨{}, followerDisk, ()⟩ : World Unit).disk := layout
  obtain ⟨follower, followerStarted, following, _, held⟩ := restart_spec noNul followerLayout
  have leaderThere : StoreLayout (resolve leaderConfig.dataDir)
      (⟨{}, leaderDisk, follower⟩ : World (World Unit)).disk := leaderLayout
  obtain ⟨leader, leaderStarted, leading, _, logs⟩ := restart_spec leaderNul leaderThere
  have peer : leader.peer = follower := restart_peer leaderStarted
  refine ⟨{ leader }, by simp only [clusterStart, followerStarted, Option.bind_some, leaderStarted,
    Option.map_some], ?_, by simp⟩
  intro topic partition
  refine ⟨[], ?_, by simp⟩
  rw [ClusterState.follower, peer, List.append_nil]
  by_cases range : InRange partition
  · rw [(held topic partition range).1, (logs topic partition range).1]
    exact equal topic partition range
  · rw [messages_outside following.regular topic range,
      messages_outside leading.regular topic range]

end Runs

/-- Whatever the order in which the threads take their steps, the follower holds a prefix
of what the leader holds, as long as no record is sent out of its turn. -/
theorem follower_prefix_of_leader {leaderConfig config : StoreConfig}
    (leaderNul : 0 ∉ leaderConfig.dataDir) (noNul : 0 ∉ config.dataDir)
    {leaderDisk followerDisk : FileSystem}
    (leaderLayout : StoreLayout (resolve leaderConfig.dataDir) leaderDisk)
    (layout : StoreLayout (resolve config.dataDir) followerDisk)
    (equal : ∀ topic partition, InRange partition →
      payloads (logBytes (resolve config.dataDir) followerDisk topic partition) =
        payloads (logBytes (resolve leaderConfig.dataDir) leaderDisk topic partition))
    {initial state : ClusterState} {events : List ClusterEvent}
    (started : clusterStart leaderConfig config leaderDisk followerDisk = some initial)
    (sentInOrder : Transition.StepsMeet SentInOrder (clusterStep config) initial events)
    (reached : Transition.run (clusterStep config) initial events = some state) (topic : Bytes)
    (partition : Int) : state.follower.broker.messages topic partition <+:
      state.leader.broker.messages topic partition := by
  obtain ⟨first, firstStarted, start⟩ := clusterStart_inStep leaderNul noNul leaderLayout layout
    equal
  rw [started, Option.some.injEq] at firstStarted
  subst firstStarted
  have inStep := Transition.run_invariant_of_stepsMeet InStep
    (fun _ _ _ inStep meets stepped => clusterStep_inStep inStep meets stepped) start sentInOrder
    reached
  exact inStep.trails.inside topic partition

def steadyCalls : AppendCalls :=
  ⟨some .succeeded, [.succeeded], [.wrote 9, .failed], [.succeeded], some .succeeded⟩

theorem steadyCalls_survived : steadyCalls.Survived := by
  intro log record disk
  have written : (writeAll (serializeRecord record) steadyCalls.writes).2 ≠ .crashed := by
    simp only [steadyCalls, writeAll]
    split
    · simp
    · simp only [OfNat.ofNat_ne_zero, if_false]
      split <;> simp
  simp only [TopicLog.append, steadyCalls, onceCall, retryCall]
  split
  · simp
  · split
    · simp
    · cases ended : (writeAll (serializeRecord record) [.wrote 9, .failed]).2 with
      | returned done => simp [syncAndClose, retryCall, onceCall]
      | threw => simp [syncAndClose]
      | crashed => exact absurd ended written

def threadMoves (id : Nat) (calls : AppendCalls) : ClusterEvent :=
  .step id { link := fun peer _ => (peer, none), calls }
    { link := fun peer _ => (peer, none), calls := steadyCalls } steadyCalls_survived

/-- One thread has asked for the progress before another one appends and replicates its
record, and looks for missing records after that: it sends the record again. -/
def racingRun : List ClusterEvent :=
  [.arrive 0 (ascii "PRODUCE t 0 x"), threadMoves 0 steadyCalls, threadMoves 0 steadyCalls,
    .arrive 1 (ascii "PRODUCE t 0 z"), .arrive 2 (ascii "PRODUCE t 0 y"),
    threadMoves 1 steadyCalls, threadMoves 1 steadyCalls,
    threadMoves 2 steadyCalls, threadMoves 2 steadyCalls, threadMoves 2 steadyCalls,
    threadMoves 2 steadyCalls,
    threadMoves 1 steadyCalls, threadMoves 1 steadyCalls]

theorem follower_doubles_record :
    ∃ initial state, clusterStart leaderAlone followerAlone ∅ ∅ = some initial ∧
      Transition.run (clusterStep followerAlone) initial racingRun = some state ∧
      ¬state.follower.broker.messages (ascii "t") 0 <+:
        state.leader.broker.messages (ascii "t") 0 := by
  have evaluated : ((clusterStart leaderAlone followerAlone ∅ ∅).bind fun initial =>
      (Transition.run (clusterStep followerAlone) initial racingRun).map fun state =>
        (state.leader.broker.messages (ascii "t") 0,
          state.follower.broker.messages (ascii "t") 0)) =
      some ([ascii "x", ascii "y"], [ascii "x", ascii "y", ascii "y"]) := by
    decide +kernel
  simp only [Option.bind_eq_some_iff, Option.map_eq_some_iff, Prod.mk.injEq] at evaluated
  obtain ⟨initial, started, state, reached, leads, follows⟩ := evaluated
  refine ⟨initial, state, started, reached, ?_⟩
  rw [leads, follows]
  decide

/-- The first thread's append fails on the leader, and the second one brings the follower
the record before its own. -/
def catchUpRun : List ClusterEvent :=
  [.arrive 0 (ascii "PRODUCE t 0 x"), threadMoves 0 steadyCalls, threadMoves 0 (failedCalls 3),
    .arrive 1 (ascii "PRODUCE t 0 y"), threadMoves 1 steadyCalls, threadMoves 1 steadyCalls,
    threadMoves 1 steadyCalls, threadMoves 1 steadyCalls, threadMoves 1 steadyCalls]

theorem follower_prefix_after_catchUp :
    ∃ initial state, clusterStart leaderAlone followerAlone ∅ ∅ = some initial ∧
      Transition.run (clusterStep followerAlone) initial catchUpRun = some state ∧
      state.leader.broker.messages (ascii "t") 0 = [ascii "x", ascii "y"] ∧
      ∀ topic partition, state.follower.broker.messages topic partition <+:
        state.leader.broker.messages topic partition := by
  have evaluated : ((clusterStart leaderAlone followerAlone ∅ ∅).bind fun initial =>
      (Transition.run (clusterStep followerAlone) initial catchUpRun).map fun state =>
        (decide (Transition.StepsMeet SentInOrder (clusterStep followerAlone) initial catchUpRun),
          state.leader.broker.messages (ascii "t") 0)) =
      some (true, [ascii "x", ascii "y"]) := by
    decide +kernel
  simp only [Option.bind_eq_some_iff, Option.map_eq_some_iff, Prod.mk.injEq,
    decide_eq_true_eq] at evaluated
  obtain ⟨initial, started, state, reached, sentInOrder, leads⟩ := evaluated
  have leaderFresh := freshStore_empty (resolve leaderAlone.dataDir)
  have followerFresh := freshStore_empty (resolve followerAlone.dataDir)
  refine ⟨initial, state, started, reached, leads, ?_⟩
  exact follower_prefix_of_leader (by decide) (by decide) leaderFresh.layout followerFresh.layout
    (fun topic partition _ => by rw [followerFresh.logBytes, leaderFresh.logBytes]) started
    sentInOrder reached

end KafkaBroker
