import KafkaBroker.Cluster
import KafkaBroker.Connections
import KafkaBroker.LockingCore
import KafkaBroker.Rebuilding

/-!
The two mutexes are enough: every access is under its mutex, the threads never wait for
each other in a circle, and where no follower is told, a request takes effect at once.
-/

namespace KafkaBroker

open ByteText Posix TwoPhase Transition

variable {σ : Type}

/-! Each program run alone is the request. -/

section Alone

variable {broker : Broker} {env : Environment σ} {calls : AppendCalls} {req : Request}
  {link : Link σ} {target : TopicPartition} {next failed done : Locking σ}

@[simp] theorem alone_underLock (lock : Mutex) (change : Guarded lock → Guarded lock)
    (next : Guarded lock → Locking σ) (shared : Shared Guarded σ) :
    (underLock lock change next).alone shared =
      (next (shared.guarded lock)).alone
        (shared.write lock (change (shared.guarded lock))) := by
  rfl

@[simp] theorem alone_reply (response : Bytes) (success : Bool) (shared : Shared Guarded σ) :
    (reply response success : Locking σ).alone shared =
      (shared, .replied (.returned (response, success))) := by
  rfl

@[simp] theorem write_outside (shared : Shared Guarded σ) (lock : Mutex) (value : Guarded lock) :
    (shared.write lock value).outside = shared.outside := by
  rfl

@[simp] theorem write_read (shared : Shared Guarded σ) (lock : Mutex) :
    shared.write lock (shared.guarded lock) = shared := by
  simp [Shared.write]

theorem facing_getMissingRecords (broker : Broker) (shared : Shared Guarded σ) :
    (broker.facing shared).broker.getMissingRecords =
      ((shared.guarded .topics).broker broker).getMissingRecords := by
  rfl

theorem sendMissingLocked_alone (link : Link σ) (target : TopicPartition)
    (failed done : Locking σ) (offset : Nat) (records : List Bytes) (shared : Shared Guarded σ) :
    (sendMissingLocked link target failed done offset records).alone shared =
      (if (sendMissing link target.topic target.partition shared.outside offset records).1
        then done else failed).alone
        { shared with
          outside :=
            (sendMissing link target.topic target.partition shared.outside offset records).2 } := by
  induction records generalizing offset shared with
  | nil => simp [sendMissingLocked, sendMissing]
  | cons payload rest ih =>
      simp only [sendMissingLocked, sendMissing, Program.alone]
      split
      · rw [ih]
      · simp

theorem catchUpFollowerLocked_alone (broker : Broker) (link : Link σ) (target : TopicPartition)
    (followerProgress : Option Nat) (failed done : Locking σ) (shared : Shared Guarded σ) :
    (catchUpFollowerLocked broker link target followerProgress failed done).alone shared =
      (if ((broker.facing shared).broker.catchUpFollower link shared.outside target.topic
        target.partition followerProgress).1 then done else failed).alone
        { shared with
          outside := ((broker.facing shared).broker.catchUpFollower link shared.outside
            target.topic target.partition followerProgress).2 } := by
  simp only [catchUpFollowerLocked, Broker.catchUpFollower, facing_getMissingRecords]
  by_cases leads : broker.role = .leader
  · have role : (broker.facing shared).broker.role = .leader := leads
    simp only [leads, role, ne_eq, not_true_eq_false, if_false, alone_underLock, id, write_read]
    split
    · rfl
    · by_cases configured : broker.followerPort ≤ 0
      · have port : (broker.facing shared).broker.followerPort ≤ 0 := configured
        simp [configured, port]
      · have port : ¬(broker.facing shared).broker.followerPort ≤ 0 := configured
        rw [if_neg configured, if_neg port, sendMissingLocked_alone]
  · have role : ¬(broker.facing shared).broker.role = .leader := leads
    simp [leads, role]

theorem synchronizePartitionsLocked_alone (broker : Broker) (link : Link σ) (next : Locking σ)
    (targets : List TopicPartition) (shared : Shared Guarded σ) :
    (synchronizePartitionsLocked broker link next targets).alone shared =
      next.alone { shared with
        outside := ((broker.facing shared).broker.synchronizePartitions link shared.outside
          targets).2 } := by
  induction targets generalizing shared with
  | nil => rfl
  | cons target rest ih =>
      simp only [synchronizePartitionsLocked, Broker.synchronizePartitions, Program.alone]
      cases (queryFollowerProgress link shared.outside target.topic target.partition).2 with
      | none => rfl
      | some progress =>
          simp only [catchUpFollowerLocked_alone]
          change Program.alone (if ((broker.facing shared).broker.catchUpFollower link
            (queryFollowerProgress link shared.outside target.topic target.partition).1
            target.topic target.partition progress).1 then _ else _) _ = _
          split
          · rw [ih]
            rfl
          · rfl

theorem synchronizeFollowerLocked_alone (broker : Broker) (link : Link σ) (next : Locking σ)
    (shared : Shared Guarded σ) :
    (synchronizeFollowerLocked broker link next).alone shared =
      next.alone { shared with
        outside := ((broker.facing shared).broker.synchronizeFollower link shared.outside).2 } := by
  have leads : (broker.facing shared).broker.replicates = broker.replicates := rfl
  rw [synchronizeFollowerLocked, Broker.synchronizeFollower, leads]
  split
  · rw [alone_underLock, id, write_read, synchronizePartitionsLocked_alone]
    rfl
  · rfl

theorem appendLocal_apart (broker : Broker) (groups : ConsumerGroups) (disk : FileSystem)
    (calls : AppendCalls) (req : Request) :
    appendLocal { broker with consumerGroups := groups } disk calls req =
      ((appendLocal broker disk calls req).1,
        { (appendLocal broker disk calls req).2.1 with consumerGroups := groups },
        (appendLocal broker disk calls req).2.2) := by
  simp only [appendLocal]
  split
  · rfl
  · split
    · rfl
    · split <;> rfl

theorem replicate_apart (broker : Broker) (groups : ConsumerGroups) (disk : FileSystem)
    (calls : AppendCalls) (req : Request) :
    replicate calls { broker with consumerGroups := groups } disk req =
      ((replicate calls broker disk req).1,
        { (replicate calls broker disk req).2.1 with consumerGroups := groups },
        (replicate calls broker disk req).2.2) := by
  simp only [replicate]
  split
  · rfl
  · split
    · rfl
    · split
      · rfl
      · split <;> rfl

theorem replicate_frame (broker : Broker) (disk : FileSystem) (calls : AppendCalls)
    (req : Request) : ∃ topics replicationProgress,
      (replicate calls broker disk req).2.1 = { broker with topics, replicationProgress } := by
  simp only [replicate]
  split
  · exact ⟨_, _, rfl⟩
  · split
    · exact ⟨_, _, rfl⟩
    · split
      · exact ⟨_, _, rfl⟩
      · split <;> exact ⟨_, _, rfl⟩

theorem facing_outside (broker : Broker) (shared : Shared Guarded σ) (peer : σ) :
    broker.facing { shared with outside := peer } = { broker.facing shared with peer } := by
  rfl

theorem facing_peer (broker : Broker) (shared : Shared Guarded σ) :
    (broker.facing shared).peer = shared.outside := by
  rfl

/-- What the broker is after an access under `topics_mutex_`. -/
theorem facing_write_topics {broker changed : Broker} {shared : Shared Guarded σ}
    {topics : Table Bytes Topic} {replicationProgress : Table TopicPartition Nat}
    (frame : changed =
      { (shared.guarded .topics).broker broker with topics, replicationProgress })
    (disk : FileSystem) :
    broker.facing (shared.write .topics (changed.stored disk)) =
      ⟨{ changed with consumerGroups := shared.guarded .consumerGroups }, disk, shared.outside⟩ := by
  have groups : (shared.write .topics (changed.stored disk)).guarded .consumerGroups =
      shared.guarded .consumerGroups := Shared.write_other _ _ (by decide)
  rw [Broker.facing, groups, Shared.write_same]
  subst frame
  rfl

theorem facing_write_groups (broker : Broker) (shared : Shared Guarded σ)
    (groups : ConsumerGroups) :
    broker.facing (shared.write .consumerGroups groups) =
      withGroups (broker.facing shared) groups := by
  have topics : (shared.write .consumerGroups groups).guarded .topics = shared.guarded .topics :=
    Shared.write_other _ _ (by decide)
  rw [Broker.facing, topics, Shared.write_same]
  rfl

/-- The broker after a request, and the answer. -/
def Broker.outcome (broker : Broker) (ended : Shared Guarded σ × Answer) : World σ × Answer :=
  (broker.facing ended.1, ended.2)

theorem appendLocked_alone (broker : Broker) (env : Environment σ) (req : Request)
    (shared : Shared Guarded σ) :
    broker.outcome ((appendLocked broker env req).alone shared) =
      ((appendAndReplicate env (broker.facing shared) req).2,
        .replied (appendAndReplicate env (broker.facing shared) req).1) := by
  have leads : (broker.facing shared).broker.replicates = broker.replicates := rfl
  have apart : appendLocal (broker.facing shared).broker (broker.facing shared).disk env.calls req =
      _ := appendLocal_apart ((shared.guarded .topics).broker broker)
    (shared.guarded .consumerGroups) (shared.guarded .topics).disk env.calls req
  obtain ⟨topics, frame⟩ := appendLocal_frame ((shared.guarded .topics).broker broker)
    (shared.guarded .topics).disk env.calls req
  simp only [appendLocked, appendAndReplicate, Program.alone, apart, leads, Broker.outcome]
  generalize appendLocal ((shared.guarded .topics).broker broker) (shared.guarded .topics).disk
    env.calls req = appended at frame
  obtain ⟨ended, changed, disk⟩ := appended
  have written := facing_write_topics frame disk
  cases ended with
  | threw => simp only [Program.alone, written]; rfl
  | crashed => simp only [Program.alone, written]; rfl
  | returned result =>
      cases result with
      | none => simp only [Program.alone, alone_reply, written]; rfl
      | some offset =>
          simp only [facing_peer]
          split
          · simp only [Program.alone, write_outside]
            split
            · rw [alone_reply, facing_outside, written]
            · rw [alone_reply, facing_outside, written]
          · simp only [Program.alone, alone_reply, written]

theorem replicateLocked_alone (broker : Broker) (calls : AppendCalls) (req : Request)
    (shared : Shared Guarded σ) :
    broker.outcome ((replicateLocked broker calls req).alone shared) =
      ({ broker.facing shared with
          broker := (replicate calls (broker.facing shared).broker (broker.facing shared).disk
            req).2.1
          disk := (replicate calls (broker.facing shared).broker (broker.facing shared).disk
            req).2.2 },
        .replied (replicate calls (broker.facing shared).broker (broker.facing shared).disk
          req).1) := by
  have apart : replicate calls (broker.facing shared).broker (broker.facing shared).disk req =
      _ := replicate_apart ((shared.guarded .topics).broker broker)
    (shared.guarded .consumerGroups) (shared.guarded .topics).disk calls req
  rw [replicateLocked]
  split
  · rename_i leads
    have refused : (broker.facing shared).broker.role ≠ .follower := leads
    rw [alone_reply, replicate, if_pos refused]
    rfl
  · obtain ⟨topics, replicationProgress, frame⟩ := replicate_frame
      ((shared.guarded .topics).broker broker) (shared.guarded .topics).disk calls req
    rw [apart, alone_underLock]
    simp only [Program.alone, Broker.outcome]
    generalize replicate calls ((shared.guarded .topics).broker broker) (shared.guarded .topics).disk
      req = replicated at frame
    obtain ⟨ended, changed, disk⟩ := replicated
    simp only [facing_write_topics frame disk]
    rfl

theorem replicationProgressLocked_alone (broker : Broker) (req : Request)
    (shared : Shared Guarded σ) :
    (replicationProgressLocked broker req).alone shared = (shared,
      .replied (.returned (replicationProgressReply (broker.facing shared).broker req))) := by
  rw [replicationProgressLocked, replicationProgressReply]
  by_cases follows : broker.role = .follower
  · have role : ¬(broker.facing shared).broker.role ≠ .follower := fun different => different follows
    have same : getReplicationProgress ((shared.guarded .topics).broker broker) req.topic
        req.partition = getReplicationProgress (broker.facing shared).broker req.topic
        req.partition := rfl
    rw [if_neg role, if_neg (by simp [follows]), alone_underLock, id, write_read, same]
    cases getReplicationProgress (broker.facing shared).broker req.topic req.partition <;> rfl
  · have role : (broker.facing shared).broker.role ≠ .follower := follows
    rw [if_pos role, if_pos follows, alone_reply]

theorem commitLocked_alone (broker : Broker) (req : Request) (shared : Shared Guarded σ) :
    broker.outcome ((commitLocked req).alone shared) =
      (withGroups (broker.facing shared) (commitOffset (shared.guarded .consumerGroups)
          (((shared.guarded .topics).topics.find req.topic).map fun topic =>
            topic.partitions.length) req).2,
        .replied (.returned ((commitOffset (shared.guarded .consumerGroups)
          (((shared.guarded .topics).topics.find req.topic).map fun topic =>
            topic.partitions.length) req).1, (commitOffset (shared.guarded .consumerGroups)
          (((shared.guarded .topics).topics.find req.topic).map fun topic =>
            topic.partitions.length) req).1 = ascii "OK"))) := by
  have unchanged : withGroups (broker.facing shared) (shared.guarded .consumerGroups) =
      broker.facing shared := rfl
  have refused : ascii "ERROR" ≠ ascii "OK" := by decide
  simp only [commitLocked, commitOffset, Program.alone, id, write_read]
  cases (shared.guarded .consumerGroups).find req.groupId with
  | none =>
      simp only [Program.alone, alone_reply, Broker.outcome, unchanged, refused, decide_false]
  | some group =>
      simp only
      split
      · simp only [Program.alone, alone_reply, Broker.outcome, unchanged, refused, decide_false]
      · simp only [alone_underLock, id, write_read]
        cases (shared.guarded .topics).topics.find req.topic with
        | none =>
            simp only [Program.alone, alone_reply, Broker.outcome, unchanged, refused, decide_false,
              Option.map_none]
        | some topic =>
            simp only [Option.map_some]
            split
            · simp only [Program.alone, alone_reply, Broker.outcome, unchanged, refused,
                decide_false]
            · simp only [Program.alone, alone_reply, Broker.outcome, facing_write_groups,
                decide_true]

theorem groupsLocked_alone (broker : Broker) (change : ConsumerGroups → Bytes × ConsumerGroups)
    (success : Bytes → Bool) (shared : Shared Guarded σ) :
    broker.outcome ((groupsLocked change success).alone shared) =
      (withGroups (broker.facing shared) (change (shared.guarded .consumerGroups)).2,
        .replied (.returned ((change (shared.guarded .consumerGroups)).1,
          success (change (shared.guarded .consumerGroups)).1))) := by
  rw [groupsLocked, alone_underLock, alone_reply, Broker.outcome, facing_write_groups]

theorem brokerPrograms_alone (broker : Broker) (shared : Shared Guarded σ) (call : BrokerCall σ) :
    broker.outcome ((brokerPrograms broker call).alone shared) =
      performCall (broker.facing shared) call := by
  cases call with
  | remove groupId consumerId =>
      rw [brokerPrograms, alone_underLock]
      simp only [Program.alone, Broker.outcome, facing_write_groups]
      rfl
  | request req env alive counters =>
      simp only [brokerPrograms, performCall, dispatch]
      cases type : req.type with
      | metrics => exact absurd type counters
      | ping => rfl
      | invalid => rfl
      | produce =>
          simp only [produceLocked, synchronizeFollowerLocked_alone, appendLocked_alone,
            produce_eq]
          rfl
      | replicate => exact replicateLocked_alone broker env.calls req shared
      | replicationProgress =>
          simp only [replicationProgressLocked_alone]
          rfl
      | fetch =>
          simp only [fetchLocked, alone_underLock, id, write_read]
          rfl
      | join => exact groupsLocked_alone broker ..
      | leave => exact groupsLocked_alone broker ..
      | groupPoll => exact groupsLocked_alone broker ..
      | commit => exact commitLocked_alone broker req shared

end Alone

/-! Every access is under its mutex, and `consumer_groups_mutex_` is taken first. -/

section Order

def Mutex.rank : Mutex → Nat
  | .consumerGroups => 0
  | .topics => 1

instance : Finite Mutex :=
  Finite.of_injective (fun lock => decide (lock = .topics)) fun first second same => by
    cases first <;> cases second <;> simp_all

variable {broker : Broker} {link : Link σ} {next failed done : Locking σ} {held : Set Mutex}

theorem reply_wellLocked (response : Bytes) (success : Bool) :
    (reply response success : Locking σ).WellLocked Mutex.rank ∅ := by
  rfl

theorem underLock_wellLocked {lock : Mutex} {change : Guarded lock → Guarded lock}
    {next : Guarded lock → Locking σ} (lower : ∀ other ∈ held, other.rank < lock.rank)
    (onward : ∀ value, (next value).WellLocked Mutex.rank held) :
    (underLock lock change next).WellLocked Mutex.rank held := by
  have fresh : lock ∉ held := fun member => lt_irrefl _ (lower lock member)
  refine ⟨lower, .inl rfl, fun value => ⟨.inl rfl, ?_⟩⟩
  rw [Set.insert_sdiff_self_of_notMem fresh]
  exact onward value

theorem sendMissingLocked_wellLocked (failure : failed.WellLocked Mutex.rank ∅)
    (success : done.WellLocked Mutex.rank ∅) (link : Link σ) (target : TopicPartition)
    (offset : Nat) (records : List Bytes) :
    (sendMissingLocked link target failed done offset records).WellLocked Mutex.rank ∅ := by
  induction records generalizing offset with
  | nil => exact success
  | cons payload rest ih =>
      intro peer
      simp only
      split
      · exact ih _
      · exact failure

theorem synchronizePartitionsLocked_wellLocked (onward : next.WellLocked Mutex.rank ∅)
    (broker : Broker) (link : Link σ) (targets : List TopicPartition) :
    (synchronizePartitionsLocked broker link next targets).WellLocked Mutex.rank ∅ := by
  induction targets with
  | nil => exact onward
  | cons target rest ih =>
      intro peer
      simp only
      split
      · exact onward
      · rw [catchUpFollowerLocked]
        split
        · exact onward
        · refine underLock_wellLocked (by simp) fun stored => ?_
          simp only
          split
          · exact ih
          · split
            · exact onward
            · exact sendMissingLocked_wellLocked onward ih ..

theorem appendLocked_wellLocked (broker : Broker) (env : Environment σ) (req : Request) :
    (appendLocked broker env req).WellLocked Mutex.rank ∅ := by
  have given (last : Locking σ) (ends : last.WellLocked Mutex.rank ∅) :
      (Program.release .topics last).WellLocked Mutex.rank (insert .topics ∅) := by
    refine ⟨.inl rfl, ?_⟩
    simpa using ends
  refine ⟨by simp, .inl rfl, fun stored => ?_⟩
  simp only
  split
  · exact given _ rfl
  · exact given _ rfl
  · exact given _ (reply_wellLocked ..)
  · split
    · intro peer
      refine given _ ?_
      split <;> exact reply_wellLocked ..
    · exact given _ (reply_wellLocked ..)

theorem commitLocked_wellLocked (req : Request) :
    (commitLocked req : Locking σ).WellLocked Mutex.rank ∅ := by
  have given (last : Locking σ) (ends : last.WellLocked Mutex.rank ∅) :
      (Program.release .consumerGroups last).WellLocked Mutex.rank (insert .consumerGroups ∅) := by
    refine ⟨.inl rfl, ?_⟩
    simpa using ends
  refine ⟨by simp, .inl rfl, fun groups => ?_⟩
  simp only
  split
  · exact given _ (reply_wellLocked ..)
  · split
    · exact given _ (reply_wellLocked ..)
    · refine underLock_wellLocked (by simp [Mutex.rank]) fun stored => ?_
      split
      · exact given _ (reply_wellLocked ..)
      · split
        · exact given _ (reply_wellLocked ..)
        · exact ⟨.inl rfl, fun _ => given _ (reply_wellLocked ..)⟩

theorem brokerPrograms_wellLocked (broker : Broker) (call : BrokerCall σ) :
    (brokerPrograms broker call).WellLocked Mutex.rank ∅ := by
  have answered (outcome : Answer) :
      (.finish outcome : Locking σ).WellLocked Mutex.rank ∅ := rfl
  cases call with
  | remove groupId consumerId =>
      exact underLock_wellLocked (by simp) fun _ => answered _
  | request req env alive counters =>
      simp only [brokerPrograms]
      split
      · exact reply_wellLocked ..
      · rw [replicationProgressLocked]
        split
        · exact reply_wellLocked ..
        · refine underLock_wellLocked (by simp) fun stored => ?_
          split <;> exact reply_wellLocked ..
      · rw [produceLocked, synchronizeFollowerLocked]
        split
        · exact underLock_wellLocked (by simp) fun stored =>
            synchronizePartitionsLocked_wellLocked (appendLocked_wellLocked ..) ..
        · exact appendLocked_wellLocked ..
      · rw [replicateLocked]
        split
        · exact reply_wellLocked ..
        · exact underLock_wellLocked (by simp) fun _ => answered _
      · exact underLock_wellLocked (by simp) fun _ => answered _
      · exact underLock_wellLocked (by simp) fun _ => reply_wellLocked ..
      · exact underLock_wellLocked (by simp) fun _ => reply_wellLocked ..
      · exact underLock_wellLocked (by simp) fun _ => reply_wellLocked ..
      · exact commitLocked_wellLocked req
      · exact reply_wellLocked ..
      · exact reply_wellLocked ..

end Order

/-! A broker that tells no follower gives no mutex back before it has all it needs. -/

theorem underLock_takesThenGives {lock : Mutex} {change : Guarded lock → Guarded lock}
    {next : Guarded lock → Locking σ} (settled : ∀ value, (next value).Settled) :
    (underLock lock change next).TakesThenGives :=
  settled

theorem appendLocked_takesThenGives {broker : Broker} (standalone : broker.replicates = false)
    (env : Environment σ) (req : Request) : (appendLocked broker env req).TakesThenGives := by
  intro stored
  simp only [standalone]
  split <;> trivial

theorem commitLocked_takesThenGives (req : Request) :
    (commitLocked req : Locking σ).TakesThenGives := by
  intro groups
  simp only
  split
  · trivial
  · split
    · trivial
    · refine underLock_takesThenGives fun stored => ?_
      split
      · trivial
      · split
        · trivial
        · exact fun _ => trivial

theorem brokerPrograms_takesThenGives {broker : Broker} (standalone : broker.replicates = false)
    (call : BrokerCall σ) : (brokerPrograms broker call).TakesThenGives := by
  cases call with
  | remove groupId consumerId => exact underLock_takesThenGives fun _ => trivial
  | request req env alive counters =>
      simp only [brokerPrograms]
      split
      · trivial
      · rw [replicationProgressLocked]
        split
        · trivial
        · refine underLock_takesThenGives fun stored => ?_
          split <;> trivial
      · rw [produceLocked, synchronizeFollowerLocked, standalone]
        exact appendLocked_takesThenGives standalone env req
      · rw [replicateLocked]
        split
        · trivial
        · exact underLock_takesThenGives fun _ => trivial
      · exact underLock_takesThenGives fun _ => trivial
      · exact underLock_takesThenGives fun _ => trivial
      · exact underLock_takesThenGives fun _ => trivial
      · exact underLock_takesThenGives fun _ => trivial
      · exact commitLocked_takesThenGives req
      · trivial
      · trivial

section Threads

variable {ι : Type} [DecidableEq ι] {world : World σ} {events : List (ThreadEvent ι (BrokerCall σ))}
  {threads : Machine ι (BrokerCall σ) Answer Guarded σ}

/-- Of the threads of a broker that tells no follower: whatever the order in which they take
the mutexes, there is an order of whole requests, each between its call and its return, that
gives the same answers, and with no request in progress the same broker. -/
theorem requests_linearizable (standalone : world.broker.replicates = false)
    (reached : run (machineStep (brokerPrograms world.broker)) (machineStart world.shared) events =
      some threads) :
    ∃ steps object, run (objectStep performCall) (objectStart world) steps = some object ∧
      object.history = threads.history ∧
      ((∀ thread, threads.running thread = none) →
        object.state = world.broker.facing threads.shared) := by
  obtain ⟨steps, object, performed, history, settled⟩ :=
    linearized (brokerPrograms_wellLocked world.broker)
      (brokerPrograms_takesThenGives standalone) reached
  have same (shared : Shared Guarded σ) (call : BrokerCall σ) :
      performCall (world.broker.facing shared) call =
        (world.broker.facing (atomically (brokerPrograms world.broker) shared call).1,
          (atomically (brokerPrograms world.broker) shared call).2) :=
    (brokerPrograms_alone world.broker shared call).symm
  refine ⟨steps, _, objectRun_map same performed, history, fun idle => ?_⟩
  exact congrArg world.broker.facing (settled idle)

/-- Of the threads of any broker: what a mutex protects is only touched by the thread that
holds it, and while a request is in progress some thread can go on. -/
theorem mutexes_sound
    (reached : run (machineStep (brokerPrograms world.broker)) (machineStart world.shared) events =
      some threads) :
    (∀ thread lock change next,
        threads.running thread = some (.access lock change next) →
        threads.holder lock = some thread) ∧
      ((∃ thread, threads.running thread ≠ none) →
        ∃ thread next, threads.running thread ≠ none ∧
          machineStep (brokerPrograms world.broker) threads (.step thread) = some next) := by
  have orderly := orderly_run (brokerPrograms_wellLocked world.broker) reached
  refine ⟨fun thread lock change next found => (orderly.locked thread _ found).1, ?_⟩
  rintro ⟨busy, working⟩
  obtain ⟨thread, next, active, stepped⟩ := orderly.progress (brokerPrograms world.broker)
    (Option.isSome_iff_ne_none.mpr working)
  exact ⟨thread, next, Option.isSome_iff_ne_none.mp active, stepped⟩

end Threads

def steadyCall (text : String) : Option (BrokerCall Unit) :=
  if counters : (parseRequest (ascii text)).type ≠ .metrics then
    some (.request (parseRequest (ascii text))
      { link := fun peer _ => (peer, none), calls := steadyCalls } steadyCalls_survived counters)
  else none

def callThen (thread : Nat) (text : String) (steps : Nat) :
    List (ThreadEvent Nat (BrokerCall Unit)) :=
  (steadyCall text).toList.map (.call thread) ++ List.replicate steps (.step thread)

/-- A member commits an offset; before it asks for the topic, another thread produces the
topic's first record. -/
def crossedThreads : List (ThreadEvent Nat (BrokerCall Unit)) :=
  callThen 0 "JOIN g c t" 4 ++ callThen 0 "COMMIT g c t 0 5" 2 ++ callThen 1 "PRODUCE t 0 x" 4 ++
    List.replicate 6 (.step 0)

def answerOf : Moment Nat (BrokerCall Unit) Answer → Option (Nat × Answer)
  | .called _ _ => none
  | .returned thread answer => some (thread, answer)

theorem requests_linearizable_crossed : ∃ threads steps object,
    run (machineStep (brokerPrograms freshWorld.broker)) (machineStart freshWorld.shared)
        crossedThreads = some threads ∧
      run (objectStep performCall) (objectStart freshWorld) steps = some object ∧
      object.history = threads.history ∧
      object.history.filterMap answerOf = [0, 1, 0].map fun thread =>
        (thread, .replied (.returned (ascii "OK", true))) := by
  have evaluated : ((run (machineStep (brokerPrograms freshWorld.broker))
      (machineStart freshWorld.shared) crossedThreads).map fun threads =>
        threads.history.filterMap answerOf) = some ([0, 1, 0].map fun thread =>
          (thread, .replied (.returned (ascii "OK", true)))) := by
    decide +kernel
  obtain ⟨threads, reached, answered⟩ := Option.map_eq_some_iff.mp evaluated
  obtain ⟨steps, object, performed, history, _⟩ := requests_linearizable rfl reached
  exact ⟨threads, steps, object, reached, performed, history, history ▸ answered⟩

def leadingWorld : World Unit :=
  { freshWorld with broker := freshWorld.broker.configure .leader 9093 }

/-- The same on a leader: the commit waits for the mutex that the other thread holds while
it tells the follower. -/
def waitingThreads : List (ThreadEvent Nat (BrokerCall Unit)) :=
  callThen 0 "JOIN g c t" 4 ++ callThen 0 "COMMIT g c t 0 5" 2 ++ callThen 1 "PRODUCE t 0 x" 5

theorem mutexes_sound_waiting : ∃ threads,
    run (machineStep (brokerPrograms leadingWorld.broker)) (machineStart leadingWorld.shared)
        waitingThreads = some threads ∧
      machineStep (brokerPrograms leadingWorld.broker) threads (.step 0) = none ∧
      ∃ thread next, threads.running thread ≠ none ∧
        machineStep (brokerPrograms leadingWorld.broker) threads (.step thread) = some next := by
  have evaluated : ((run (machineStep (brokerPrograms leadingWorld.broker))
      (machineStart leadingWorld.shared) waitingThreads).map fun threads =>
        ((machineStep (brokerPrograms leadingWorld.broker) threads (.step 0)).isNone,
          (threads.running 0).isSome)) = some (true, true) := by
    decide +kernel
  obtain ⟨threads, reached, facts⟩ := Option.map_eq_some_iff.mp evaluated
  rw [Prod.mk.injEq, Option.isNone_iff_eq_none] at facts
  exact ⟨threads, reached, facts.1,
    (mutexes_sound reached).2 ⟨0, Option.isSome_iff_ne_none.mp facts.2⟩⟩

end KafkaBroker
