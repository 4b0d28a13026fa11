import KafkaBroker.Rendering
import KafkaBroker.ReplicationCore
import KafkaBroker.Store

/-!
Replication over whole runs. What the follower holds is a prefix of what the leader
holds, and its progress says how long it is, as long as no record is sent behind a
catch-up that did not get through; then an acknowledged record is on the follower at
the offset the leader gave it.
-/

namespace KafkaBroker

open ByteText Posix

/-! The leader's messages. -/

structure Legible (topic : Bytes) (partition : Int) (payload : Bytes) : Prop where
  word : Word topic
  range : InRange partition
  text : PayloadText payload
  head : payload.head? ≠ some space

structure Sendable (topic : Bytes) (partition : Int) (payload : Bytes) : Prop
    extends Legible topic partition payload where
  valid : ValidName topic
  framed : payload.length ≤ kMaxPayloadSize

theorem parse_progressMessage {topic : Bytes} {partition : Int} (word : Word topic)
    (range : InRange partition) : parseRequest (progressMessage topic partition) =
      { type := .replicationProgress, topic, partition } := by
  rw [progressMessage_eq_render]
  exact parse_render ⟨by simp, rfl, rfl, word, range.int, rfl, rfl⟩ (by simp)

theorem parse_replicateMessage {topic : Bytes} {partition : Int} {payload : Bytes}
    (legible : Legible topic partition payload) (offset : Nat) :
    parseRequest (replicateMessage topic partition offset payload) =
      if offset < 2 ^ 63 then { type := .replicate, topic, partition, offset, payload }
      else { partition } := by
  rw [replicateMessage_eq_render]
  split
  · rename_i small
    exact parse_render ⟨by simp, rfl, rfl, legible.word, legible.range.int, small, legible.text⟩
      legible.head
  · rename_i large
    have filled : ¬(topic = [] ∨ payload = []) :=
      not_or.mpr ⟨legible.word.1, legible.text.nonempty⟩
    rw [parse_render_arguments]
    simp only [parserOf, Request.arguments, parseReplicate,
      extractThree_spaced legible.word (decimalInt_word legible.range.1) (decimal_word offset),
      stripPayload_spaced legible.text legible.head, filled, if_false,
      parseNonNegativeInt_rendered legible.range.int.1 legible.range.int.2,
      parseOffset_decimal_large (Nat.le_of_not_lt large)]

theorem readProgress_none : readProgress (ascii "NONE") = some none := by
  rfl

theorem readProgress_decimal {progress : Nat} {read : Option Nat}
    (parsed : readProgress (decimal progress) = some read) : read = some progress := by
  have numeral : decimal progress ≠ ascii "NONE" := by
    intro same
    have letter : isDigit 78 = true := decimal_isDigit progress 78 (by rw [same]; decide)
    revert letter
    decide
  rw [readProgress, if_neg numeral] at parsed
  by_cases small : progress < 2 ^ 64
  · rw [stoull_decimal small] at parsed
    simpa [eq_comm] using parsed
  · simp only [stoull, scanInteger_decimal, small, if_false, reduceCtorEq] at parsed

/-! The follower. -/

def lastOffset (messages : List Bytes) : Option Nat :=
  if messages = [] then none else some (messages.length - 1)

/-- A follower whose memory, log and progress agree. A list of more than `2 ^ 63` records
could not have been replicated. -/
structure FollowerSound (config : StoreConfig) (world : World Unit) : Prop where
  serving : Serving config world
  log : ∀ topic partition, InRange partition →
    payloads (world.logBytes config topic partition) = world.broker.messages topic partition
  whole : ∀ topic partition, InRange partition → Whole (world.logBytes config topic partition)
  progress : ∀ topic partition, InRange partition →
    getReplicationProgress world.broker topic partition =
      lastOffset (world.broker.messages topic partition)
  bounded : ∀ topic partition, (world.broker.messages topic partition).length ≤ 2 ^ 63

theorem restart_progress {σ : Type} {config : StoreConfig} (noNul : 0 ∉ config.dataDir)
    {world next : World σ} (layout : StoreLayout (resolve config.dataDir) world.disk)
    (restarted : restart config world = some next) (topic : Bytes) {partition : Int}
    (range : InRange partition) : getReplicationProgress next.broker topic partition =
      if config.role = .follower ∧ next.broker.messages topic partition ≠ []
      then some ((next.broker.messages topic partition).length - 1) else none := by
  obtain ⟨broker, disk, started, recovered⟩ :=
    startBroker_spec config.role config.followerPort noNul config.named layout
  simp only [restart, started, Option.some.injEq] at restarted
  subst restarted
  exact recovered.progress topic partition range

theorem restart_peer {σ : Type} {config : StoreConfig} {world next : World σ}
    (restarted : restart config world = some next) : next.peer = world.peer := by
  simp only [restart] at restarted
  split at restarted
  · simp at restarted
  · rw [Option.some.injEq] at restarted
    rw [← restarted]

section Follower

variable {config : StoreConfig} (follows : config.role = .follower) (noNul : 0 ∉ config.dataDir)

include follows noNul

theorem restart_sound {world : World Unit}
    (layout : StoreLayout (resolve config.dataDir) world.disk)
    (bounded : ∀ topic partition, InRange partition →
      (payloads (world.logBytes config topic partition)).length ≤ 2 ^ 63) :
    ∃ next, restart config world = some next ∧ FollowerSound config next ∧
      ∀ topic partition, InRange partition → next.broker.messages topic partition =
        payloads (world.logBytes config topic partition) := by
  obtain ⟨next, restarted, serving, _, logs⟩ := restart_spec noNul layout
  refine ⟨next, restarted, ⟨serving, ?_, ?_, ?_, ?_⟩, fun topic partition range =>
    (logs topic partition range).1⟩
  · intro topic partition range
    rw [(logs topic partition range).2, payloads_repaired, (logs topic partition range).1]
  · intro topic partition range
    rw [(logs topic partition range).2]
    exact repaired_repaired _
  · intro topic partition range
    rw [restart_progress noNul layout restarted topic range]
    simp only [follows, true_and, lastOffset]
    split <;> simp_all
  · intro topic partition
    by_cases range : InRange partition
    · rw [(logs topic partition range).1]
      exact bounded topic partition range
    · rw [messages_outside serving.regular topic range]
      exact Nat.zero_le _

theorem restart_fresh {disk : FileSystem} (fresh : FreshStore (resolve config.dataDir) disk) :
    ∃ follower : World Unit, restart config ⟨{}, disk, ()⟩ = some follower ∧
      FollowerSound config follower ∧
      ∀ topic partition, follower.broker.messages topic partition = [] := by
  have layout : StoreLayout (resolve config.dataDir) (⟨{}, disk, ()⟩ : World Unit).disk :=
    fresh.layout
  obtain ⟨follower, started, sound, held⟩ := restart_sound follows noNul layout
    fun topic partition _ => by simp [World.logBytes, fresh.logBytes]
  refine ⟨follower, started, sound, fun topic partition => ?_⟩
  by_cases range : InRange partition
  · rw [held topic partition range]
    simp [World.logBytes, fresh.logBytes]
  · exact messages_outside sound.serving.regular topic range

theorem FollowerSound.restart {world : World Unit} (sound : FollowerSound config world) :
    ∃ next, KafkaBroker.restart config world = some next ∧ FollowerSound config next ∧
      ∀ topic partition, next.broker.messages topic partition =
        world.broker.messages topic partition := by
  obtain ⟨next, restarted, again, messages⟩ := restart_sound follows noNul sound.serving.layout
    fun topic partition range => by
      rw [sound.log topic partition range]
      exact sound.bounded topic partition
  refine ⟨next, restarted, again, fun topic partition => ?_⟩
  by_cases range : InRange partition
  · rw [messages topic partition range, sound.log topic partition range]
  · rw [messages_outside again.serving.regular topic range,
      messages_outside sound.serving.regular topic range]

omit follows noNul in
theorem FollowerSound.metrics {world : World Unit} (sound : FollowerSound config world)
    (metrics : Metrics) :
    FollowerSound config { world with broker := { world.broker with metrics } } :=
  ⟨⟨sound.serving.role, sound.serving.port, sound.serving.dir, sound.serving.regular,
    sound.serving.layout⟩, sound.log, sound.whole, sound.progress, sound.bounded⟩

/-! One exchange. -/

def Received (topic : Bytes) (partition : Int) (payload : Bytes) (before after : World Unit) :
    Prop :=
  ∀ name query, after.broker.messages name query = before.broker.messages name query ++
    if name = topic ∧ query = partition then [payload] else []

def Unchanged (before after : World Unit) : Prop :=
  ∀ name query, after.broker.messages name query = before.broker.messages name query

omit follows noNul in
theorem deliver_quiet (config : StoreConfig) {env : Environment Unit} {world : World Unit} {message : Bytes}
    {reply : Reply} (dispatched : dispatch env world (parseRequest message) =
      (.returned reply, world)) :
    ∃ metrics, deliver config env world message =
      ({ world with broker := { world.broker with metrics } },
        if reply.1.length > kMaxPayloadSize then none else some reply.1) := by
  obtain ⟨metrics, after, returned, _⟩ := handleRequest_eq env world (parseRequest message)
  rw [dispatched] at after returned
  have handled := (returned reply.1).mpr ⟨reply.2, rfl⟩
  exact ⟨metrics, by simp only [deliver, handled, after]⟩

omit follows noNul in
theorem lastOffset_push (messages : List Bytes) (payload : Bytes) :
    lastOffset (messages ++ [payload]) = some messages.length := by
  simp [lastOffset]

omit follows noNul in
theorem progressReply_read {broker : Broker} (role : broker.role = .follower) {req : Request}
    {read : Option Nat} (parsed : readProgress (replicationProgressReply broker req).1 = some read) :
    read = getReplicationProgress broker req.topic req.partition := by
  have follower : ¬broker.role ≠ .follower := not_not_intro role
  simp only [replicationProgressReply, follower, if_false] at parsed
  cases progress : getReplicationProgress broker req.topic req.partition with
  | none =>
      simp only [progress, readProgress_none, Option.some.injEq] at parsed
      exact parsed.symm
  | some value =>
      simp only [progress] at parsed
      exact readProgress_decimal parsed

omit noNul in
theorem deliver_progress {world : World Unit} (sound : FollowerSound config world)
    (env : Environment Unit) {topic : Bytes} {partition : Int} (word : Word topic)
    (range : InRange partition) :
    FollowerSound config (deliver config env world (progressMessage topic partition)).1 ∧
      Unchanged world (deliver config env world (progressMessage topic partition)).1 ∧
      ∀ response read,
        (deliver config env world (progressMessage topic partition)).2 = some response →
        readProgress response = some read →
        read = lastOffset (world.broker.messages topic partition) := by
  have dispatched : dispatch env world (parseRequest (progressMessage topic partition)) =
      (.returned (replicationProgressReply world.broker
        { type := .replicationProgress, topic, partition }), world) := by
    rw [parse_progressMessage word range]
    rfl
  obtain ⟨metrics, delivered⟩ := deliver_quiet config dispatched
  rw [delivered]
  refine ⟨sound.metrics metrics, fun _ _ => rfl, ?_⟩
  intro response read sent parsed
  split at sent
  · simp at sent
  · rw [Option.some.injEq] at sent
    rw [← sent] at parsed
    rw [progressReply_read (sound.serving.role.trans follows) parsed]
    exact sound.progress topic partition range

omit follows noNul in
theorem FollowerSound.push {world next : World Unit} (sound : FollowerSound config world)
    {req : Request} (position : req.offset = (world.broker.messages req.topic req.partition).length)
    (small : req.offset < 2 ^ 63) (pushed : Pushed req world.broker next.broker)
    (progress : next.broker.replicationProgress =
      world.broker.replicationProgress.set ⟨req.topic, req.partition⟩ req.offset)
    (layout : StoreLayout (resolve config.dataDir) next.disk)
    (logs : ∀ topic partition, InRange partition →
      payloads (next.logBytes config topic partition) =
        payloads (world.logBytes config topic partition) ++
          (if topic = req.topic ∧ partition = req.partition then [req.payload] else []) ∧
      Whole (next.logBytes config topic partition)) : FollowerSound config next := by
  refine ⟨⟨pushed.role.trans sound.serving.role, pushed.port.trans sound.serving.port,
    pushed.dir.trans sound.serving.dir, pushed.regular, layout⟩, ?_, fun topic partition queried =>
    (logs topic partition queried).2, ?_, ?_⟩
  · intro topic partition queried
    rw [(logs topic partition queried).1, sound.log topic partition queried, pushed.messages]
  · intro topic partition queried
    rw [getReplicationProgress, progress, Table.find_set, pushed.messages]
    by_cases here : topic = req.topic ∧ partition = req.partition
    · obtain ⟨rfl, rfl⟩ := here
      simp [lastOffset_push, position]
    · have other : (⟨topic, partition⟩ : TopicPartition) ≠ ⟨req.topic, req.partition⟩ := by
        simpa using here
      simp only [other, here, if_false, List.append_nil]
      exact sound.progress topic partition queried
  · intro topic partition
    have bounded := sound.bounded topic partition
    rw [pushed.messages]
    split
    · rename_i here
      rw [here.1, here.2, List.length_append, List.length_singleton]
      omega
    · simpa using bounded

theorem restart_after_append {world dead : World Unit} (sound : FollowerSound config world)
    {topic : Bytes} {partition : Int} {payload : Bytes}
    (small : (world.broker.messages topic partition).length < 2 ^ 63)
    (range : InRange partition) (layout : StoreLayout (resolve config.dataDir) dead.disk)
    (kept : Bool)
    (logs : ∀ name query, InRange query → payloads (dead.logBytes config name query) =
      world.broker.messages name query ++
        if kept ∧ name = topic ∧ query = partition then [payload] else []) :
    ∃ next, restart config dead = some next ∧ FollowerSound config next ∧
      (Unchanged world next ∨ Received topic partition payload world next) := by
  have bounded : ∀ name query, InRange query →
      (payloads (dead.logBytes config name query)).length ≤ 2 ^ 63 := by
    intro name query queried
    have before := sound.bounded name query
    rw [logs name query queried]
    split
    · rename_i here
      rw [here.2.1, here.2.2, List.length_append, List.length_singleton]
      omega
    · simpa using before
  obtain ⟨next, restarted, again, messages⟩ := restart_sound follows noNul layout bounded
  have all (name : Bytes) (query : Int) : next.broker.messages name query =
      world.broker.messages name query ++
        if kept ∧ name = topic ∧ query = partition then [payload] else [] := by
    by_cases queried : InRange query
    · rw [messages name query queried, logs name query queried]
    · have elsewhere : ¬(kept ∧ name = topic ∧ query = partition) := by
        rintro ⟨_, _, rfl⟩
        exact queried range
      rw [if_neg elsewhere, messages_outside again.serving.regular name queried,
        messages_outside sound.serving.regular name queried, List.append_nil]
  refine ⟨next, restarted, again, ?_⟩
  cases kept with
  | false => exact Or.inl fun name query => by simpa using all name query
  | true => exact Or.inr fun name query => by simpa using all name query

theorem handle_continuation {world : World Unit} (sound : FollowerSound config world)
    {env : Environment Unit} (fine : env.calls.Unfailing) (req : Request)
    (typed : req.type = .replicate) (valid : ValidName req.topic) (range : InRange req.partition)
    (fits : Record.Fits ⟨req.payload⟩)
    (position : req.offset = (world.broker.messages req.topic req.partition).length)
    (small : req.offset < 2 ^ 63) :
    (handleRequest env world req).1 = .returned (ascii "OK") ∧
        FollowerSound config (handleRequest env world req).2 ∧
        Received req.topic req.partition req.payload world (handleRequest env world req).2 ∨
      (handleRequest env world req).1 = .crashed ∧
        ∃ next, restart config (handleRequest env world req).2 = some next ∧
          FollowerSound config next ∧ (Unchanged world next ∨
            Received req.topic req.partition req.payload world next) := by
  have ready := sound.serving.appendable noNul valid range
  obtain ⟨written, logged, outcome⟩ :=
    replicate_spec ready (sound.serving.role.trans follows) env.calls
  obtain ⟨metrics, after, returned, _, crashed⟩ := handleRequest_eq env world req
  simp only [dispatch, typed] at after returned crashed
  rw [sound.serving.dir] at logged
  have decoded := logged.decoded range fits sound.whole
  rcases outcome with ⟨ended, complete, pushed, progress⟩ | ⟨⟨_, failing⟩ | ended, _⟩
  · refine Or.inl ⟨(returned _).mpr ⟨true, ended⟩, ?_, ?_⟩
    · obtain ⟨_, logs⟩ := decoded.resolve_right fun torn => torn.1 complete
      have kept : FollowerSound config { world with
          broker := (replicate env.calls world.broker world.disk req).2.1
          disk := (replicate env.calls world.broker world.disk req).2.2 } :=
        sound.push position small pushed progress logged.layout logs
      rw [after]
      exact kept.metrics metrics
    · rw [after]
      exact pushed.messages
  · exact absurd fine failing
  · refine Or.inr ⟨crashed.mpr ended, ?_⟩
    rw [after]
    rcases decoded with ⟨_, logs⟩ | ⟨_, logs⟩
    · refine restart_after_append follows noNul sound (position ▸ small) range logged.layout true ?_
      intro name query queried
      rw [← sound.log name query queried]
      simp only [true_and]
      exact (logs name query queried).1
    · refine restart_after_append follows noNul sound (position ▸ small) range logged.layout false ?_
      intro name query queried
      rw [← sound.log name query queried]
      simp only [Bool.false_eq_true, false_and, if_false, List.append_nil]
      exact logs name query queried

theorem deliver_replicate {world : World Unit} (sound : FollowerSound config world)
    {env : Environment Unit} (fine : env.calls.Unfailing) {topic : Bytes} {partition : Int}
    {payload : Bytes} (sendable : Sendable topic partition payload) {offset : Nat}
    (position : offset = (world.broker.messages topic partition).length) {result}
    (delivered : deliver config env world (replicateMessage topic partition offset payload) =
      result) :
    FollowerSound config result.1 ∧
      (Unchanged world result.1 ∧ result.2 ≠ some (ascii "OK") ∨
        Received topic partition payload world result.1) := by
  have parsed := parse_replicateMessage sendable.toLegible offset
  subst delivered
  by_cases small : offset < 2 ^ 63
  · rw [if_pos small] at parsed
    have fits : Record.Fits ⟨payload⟩ := by
      have framed := sendable.framed
      simp only [kMaxPayloadSize, Record.Fits] at framed ⊢
      omega
    rcases handle_continuation follows noNul sound fine
        { type := .replicate, topic, partition, offset, payload } rfl sendable.valid sendable.range
        fits position small with
      ⟨returned, kept, received⟩ | ⟨crashed, next, restarted, kept, change⟩
    · simp only [deliver, parsed, returned]
      exact ⟨kept, Or.inr received⟩
    · simp only [deliver, parsed, crashed, restarted, Option.getD_some]
      exact ⟨kept, change.imp_left fun same => ⟨same, by simp⟩⟩
  · rw [if_neg small] at parsed
    have dispatched : dispatch env world
        (parseRequest (replicateMessage topic partition offset payload)) =
        (.returned (ascii "ERROR", false), world) := by
      rw [parsed]
      rfl
    obtain ⟨metrics, quiet⟩ := deliver_quiet config dispatched
    have refused : ascii "ERROR" ≠ ascii "OK" := by decide
    rw [quiet]
    refine ⟨sound.metrics metrics, Or.inl ⟨fun _ _ => rfl, ?_⟩⟩
    split
    · simp
    · simpa using refused

theorem reopen_sound {follower : Follower} (sound : FollowerSound config follower.world)
    (restarts : Bool) : FollowerSound config (follower.reopen config restarts) ∧
      Unchanged follower.world (follower.reopen config restarts) := by
  unfold Scripted.reopen
  split
  · obtain ⟨next, restarted, again, messages⟩ := sound.restart follows noNul
    rw [restarted, Option.getD_some]
    exact ⟨again, messages⟩
  · exact ⟨sound, fun _ _ => rfl⟩

end Follower

def Follower.Unprocessed (follower : Follower) : Prop :=
  ∀ exchange ∈ follower.script.head?, exchange.delivery = .unreachable

theorem exchange_cases (config : StoreConfig) (follower : Follower) (message : Bytes)
    {result} (exchanged : clientRequest (followerLink config) follower message = result) :
    (∀ exchange ∈ result.1.script, exchange ∈ follower.script) ∧ ∃ restarts,
      (result.1.world = follower.reopen config restarts ∧ result.2 = none ∨
        ¬follower.Unprocessed ∧ ∃ exchange ∈ follower.script,
          result.1.world =
            (deliver config exchange.env (follower.reopen config restarts) message).1 ∧
          (result.2 = none ∨ result.2 =
            (deliver config exchange.env (follower.reopen config restarts) message).2)) := by
  subst exchanged
  unfold clientRequest
  split
  · exact ⟨fun _ member => member, false, Or.inl ⟨rfl, rfl⟩⟩
  · cases script : follower.script with
    | nil =>
        simp only [followerLink, script]
        exact ⟨by simp, false, Or.inl ⟨rfl, trivial⟩⟩
    | cons exchange rest =>
        have processed (reached : exchange.delivery ≠ .unreachable) : ¬follower.Unprocessed :=
          fun unprocessed => reached (unprocessed exchange (by simp [script]))
        simp only [followerLink, script]
        cases delivery : exchange.delivery with
        | unreachable =>
            exact ⟨fun _ member => List.mem_cons_of_mem _ member, exchange.restarts,
              Or.inl ⟨rfl, rfl⟩⟩
        | lost =>
            exact ⟨fun _ member => List.mem_cons_of_mem _ member, exchange.restarts,
              Or.inr ⟨processed (by simp [delivery]), exchange, by simp, rfl, Or.inl rfl⟩⟩
        | answered =>
            exact ⟨fun _ member => List.mem_cons_of_mem _ member, exchange.restarts,
              Or.inr ⟨processed (by simp [delivery]), exchange, by simp, rfl, Or.inr rfl⟩⟩

/-! The catch-up. -/

def Replicable (leader : Broker) : Prop :=
  ∀ topic partition, ∀ payload ∈ leader.messages topic partition, Sendable topic partition payload

/-- A follower that holds a part of what the leader holds, from the start of each list. -/
structure Mirrors (config : StoreConfig) (leader : Broker) (follower : Follower) : Prop where
  sound : FollowerSound config follower.world
  inside : ∀ topic partition,
    follower.world.broker.messages topic partition <+: leader.messages topic partition
  fine : ∀ exchange ∈ follower.script, exchange.env.calls.Unfailing

def CaughtUp (leader : Broker) (topic : Bytes) (partition : Int) (follower : Follower) : Prop :=
  follower.world.broker.messages topic partition = leader.messages topic partition

structure Advances (config : StoreConfig) (leader : Broker) (before after : Follower) : Prop where
  mirrors : Mirrors config leader after
  longer : ∀ topic partition, before.world.broker.messages topic partition <+:
    after.world.broker.messages topic partition

section CatchUp

variable {config : StoreConfig} {leader : Broker} {follower : Follower}

theorem Advances.refl (mirrors : Mirrors config leader follower) :
    Advances config leader follower follower :=
  ⟨mirrors, fun _ _ => List.prefix_rfl⟩

theorem Advances.trans {middle after : Follower} (first : Advances config leader follower middle)
    (second : Advances config leader middle after) : Advances config leader follower after :=
  ⟨second.mirrors, fun topic partition =>
    (first.longer topic partition).trans (second.longer topic partition)⟩

theorem CaughtUp.advance {topic : Bytes} {partition : Int} {after : Follower}
    (caughtUp : CaughtUp leader topic partition follower)
    (advances : Advances config leader follower after) : CaughtUp leader topic partition after := by
  have longer := advances.longer topic partition
  rw [caughtUp] at longer
  exact ((advances.mirrors.inside topic partition).eq_of_length_le longer.length_le)

theorem advances_unchanged (mirrors : Mirrors config leader follower) {after : Follower}
    (script : ∀ exchange ∈ after.script, exchange ∈ follower.script)
    (sound : FollowerSound config after.world) (same : Unchanged follower.world after.world) :
    Advances config leader follower after := by
  refine ⟨⟨sound, ?_, fun exchange member => mirrors.fine exchange (script exchange member)⟩, ?_⟩
  · intro topic partition
    rw [same]
    exact mirrors.inside topic partition
  · intro topic partition
    rw [same]

variable (follows : config.role = .follower) (noNul : 0 ∉ config.dataDir)

include follows noNul

theorem query_advances (mirrors : Mirrors config leader follower) {topic : Bytes}
    {partition : Int} (word : Word topic) (range : InRange partition) {result}
    (queried : queryFollowerProgress (followerLink config) follower topic partition = result) :
    Advances config leader follower result.1 ∧ Unchanged follower.world result.1.world ∧
      ∀ progress, result.2 = some progress →
        progress = lastOffset (follower.world.broker.messages topic partition) := by
  subst queried
  obtain ⟨script, restarts, outcome⟩ :=
    exchange_cases config follower (progressMessage topic partition) rfl
  obtain ⟨reopened, unchanged⟩ := reopen_sound follows noNul mirrors.sound restarts
  simp only [queryFollowerProgress]
  rcases outcome with ⟨worldEq, silent⟩ | ⟨_, exchange, _, worldEq, answer⟩
  · rw [silent]
    refine ⟨advances_unchanged mirrors script ?_ ?_, ?_, by simp⟩
    · exact worldEq ▸ reopened
    · exact worldEq ▸ unchanged
    · exact worldEq ▸ unchanged
  · obtain ⟨sound, same, read⟩ := deliver_progress follows reopened exchange.env word range
    have all : Unchanged follower.world
        (clientRequest (followerLink config) follower (progressMessage topic partition)).1.world := by
      rw [worldEq]
      exact fun name query => (same name query).trans (unchanged name query)
    refine ⟨advances_unchanged mirrors script (worldEq ▸ sound) all, all, ?_⟩
    intro progress parsed
    obtain ⟨response, answered, parsed⟩ := Option.bind_eq_some_iff.mp parsed
    rcases answer with silent | sent
    · simp [silent] at answered
    · rw [sent] at answered
      rw [read response progress answered parsed, unchanged]

theorem send_advances (mirrors : Mirrors config leader follower) {topic : Bytes} {partition : Int}
    {payload : Bytes} (sendable : Sendable topic partition payload)
    (next : follower.world.broker.messages topic partition ++ [payload] <+:
      leader.messages topic partition) {offset : Nat}
    (position : offset = (follower.world.broker.messages topic partition).length) {result}
    (sent : clientRequest (followerLink config) follower
      (replicateMessage topic partition offset payload) = result) :
    Advances config leader follower result.1 ∧ (result.2 = some (ascii "OK") →
      result.1.world.broker.messages topic partition =
        follower.world.broker.messages topic partition ++ [payload]) := by
  obtain ⟨script, restarts, outcome⟩ := exchange_cases config follower _ sent
  obtain ⟨reopened, unchanged⟩ := reopen_sound follows noNul mirrors.sound restarts
  rcases outcome with ⟨worldEq, silent⟩ | ⟨_, exchange, member, worldEq, answer⟩
  · rw [silent]
    exact ⟨advances_unchanged mirrors script (worldEq ▸ reopened)
      (worldEq ▸ unchanged), by simp⟩
  · have again : offset = ((follower.reopen config restarts).broker.messages topic
        partition).length := by
      rw [position, unchanged]
    obtain ⟨sound, change⟩ := deliver_replicate follows noNul reopened
      (mirrors.fine exchange member) sendable again rfl
    rw [← worldEq] at sound change
    rcases change with ⟨same, refused⟩ | received
    · have all : Unchanged follower.world result.1.world := fun name query =>
        (same name query).trans (unchanged name query)
      refine ⟨advances_unchanged mirrors script sound all, fun answered => ?_⟩
      rcases answer with silent | sent
      · simp [silent] at answered
      · exact absurd (sent.symm.trans answered) refused
    · have all (name : Bytes) (query : Int) : result.1.world.broker.messages name query =
          follower.world.broker.messages name query ++
            if name = topic ∧ query = partition then [payload] else [] := by
        rw [received name query, unchanged]
      refine ⟨⟨⟨sound, ?_, fun other member => mirrors.fine other (script other member)⟩, ?_⟩, ?_⟩
      · intro name query
        rw [all]
        split
        · rename_i here
          rw [here.1, here.2]
          exact next
        · rw [List.append_nil]
          exact mirrors.inside name query
      · intro name query
        rw [all]
        exact List.prefix_append _ _
      · intro _
        rw [all]
        simp

theorem sendMissing_advances {topic : Bytes} {partition : Int} {records : List Bytes} :
    ∀ {follower : Follower} {offset : Nat}, Mirrors config leader follower →
      (∀ payload ∈ records, Sendable topic partition payload) →
      follower.world.broker.messages topic partition ++ records = leader.messages topic partition →
      offset = (follower.world.broker.messages topic partition).length →
      ∀ {result}, sendMissing (followerLink config) topic partition follower offset records = result →
      Advances config leader follower result.2 ∧
        (result.1 = true → CaughtUp leader topic partition result.2) := by
  induction records with
  | nil =>
      rintro follower offset mirrors _ rest _ _ rfl
      rw [List.append_nil] at rest
      exact ⟨Advances.refl mirrors, fun _ => rest⟩
  | cons payload rest ih =>
      rintro follower offset mirrors sendable whole position result rfl
      have inside : follower.world.broker.messages topic partition ++ [payload] <+:
          leader.messages topic partition := by
        rw [← whole]
        exact ⟨rest, by simp⟩
      obtain ⟨advances, kept⟩ := send_advances follows noNul mirrors (sendable payload (by simp))
        inside position rfl
      simp only [sendMissing]
      split
      · rename_i answered
        have list := kept answered
        have bounded := mirrors.sound.bounded topic partition
        have advanced : (offset + 1) % 2 ^ 64 =
            (follower.world.broker.messages topic partition ++ [payload]).length := by
          rw [List.length_append, List.length_singleton]
          omega
        obtain ⟨later, caughtUp⟩ := ih advances.mirrors
          (fun other member => sendable other (by simp [member]))
          (by rw [list, List.append_assoc, List.singleton_append, whole]) (list ▸ advanced) rfl
        exact ⟨advances.trans later, caughtUp⟩
      · exact ⟨advances, by simp⟩

omit follows noNul in
theorem getMissingRecords_lastOffset {topic : Bytes} {partition : Int} {held : List Bytes}
    (inside : held <+: leader.messages topic partition) :
    held ++ leader.getMissingRecords topic partition (lastOffset held) =
      leader.messages topic partition := by
  obtain ⟨rest, split⟩ := inside
  unfold Broker.getMissingRecords
  rw [← split]
  cases held with
  | nil =>
      simp only [List.nil_append, lastOffset, if_true]
      split
      · rename_i empty
        exact empty.symm
      · rfl
  | cons first others =>
      simp only [lastOffset, List.cons_append, reduceCtorEq, if_false, List.length_cons,
        Nat.add_sub_cancel, List.length_append, ge_iff_le]
      split
      · rename_i short
        have none : rest = [] := List.eq_nil_of_length_eq_zero (by omega)
        simp [none]
      · simp

omit follows noNul in
theorem firstMissingOffset_lastOffset {held : List Bytes} (bounded : held.length ≤ 2 ^ 63) :
    firstMissingOffset (lastOffset held) = held.length := by
  cases held with
  | nil => rfl
  | cons first others =>
      simp only [List.length_cons] at bounded
      simp only [lastOffset, reduceCtorEq, if_false, firstMissingOffset, List.length_cons]
      omega

theorem catchUp_advances (leads : leader.replicates = true) (replicable : Replicable leader)
    (mirrors : Mirrors config leader follower) (topic : Bytes) (partition : Int) {result}
    (caught : leader.catchUpFollower (followerLink config) follower topic partition
      (lastOffset (follower.world.broker.messages topic partition)) = result) :
    Advances config leader follower result.2 ∧
      (result.1 = true → CaughtUp leader topic partition result.2) := by
  have whole := getMissingRecords_lastOffset (mirrors.inside topic partition)
  simp only [Broker.replicates, decide_eq_true_eq] at leads
  have role : ¬leader.role ≠ .leader := not_not_intro leads.1
  have port : ¬leader.followerPort ≤ 0 := by omega
  subst caught
  simp only [Broker.catchUpFollower, role, port, if_false]
  split
  · rename_i none
    rw [none, List.append_nil] at whole
    exact ⟨Advances.refl mirrors, fun _ => whole⟩
  · refine sendMissing_advances follows noNul mirrors ?_ whole
      (firstMissingOffset_lastOffset (mirrors.sound.bounded topic partition)) rfl
    intro payload member
    apply replicable topic partition
    rw [← whole]
    exact List.mem_append_right _ member

theorem synchronize_advances (leads : leader.replicates = true) (replicable : Replicable leader)
    {targets : List TopicPartition} :
    ∀ {follower : Follower}, Mirrors config leader follower →
      (∀ target ∈ targets, Word target.topic ∧ InRange target.partition) →
      ∀ {result},
        leader.synchronizePartitions (followerLink config) follower targets = result →
      Advances config leader follower result.2 ∧ (result.1 = true →
        ∀ target ∈ targets, CaughtUp leader target.topic target.partition result.2) := by
  induction targets with
  | nil =>
      rintro follower mirrors _ _ rfl
      exact ⟨Advances.refl mirrors, by simp⟩
  | cons target rest ih =>
      rintro follower mirrors known result rfl
      obtain ⟨⟨word, range⟩, later⟩ := List.forall_mem_cons.mp known
      obtain ⟨queried, same, read⟩ := query_advances follows noNul mirrors word range rfl
      simp only [Broker.synchronizePartitions]
      split
      · exact ⟨queried, by simp⟩
      · rename_i progress answered
        rw [read progress answered, ← same]
        obtain ⟨caught, held⟩ := catchUp_advances follows noNul leads replicable queried.mirrors
          target.topic target.partition rfl
        split
        · rename_i success
          obtain ⟨remaining, others⟩ := ih caught.mirrors later rfl
          refine ⟨(queried.trans caught).trans remaining, fun finished => ?_⟩
          refine List.forall_mem_cons.mpr ⟨?_, others finished⟩
          exact (held success).advance remaining
        · exact ⟨queried.trans caught, by simp⟩

end CatchUp

/-! The snapshot. -/

theorem Topic.Regular.id_eq {topic : Topic} (regular : topic.Regular) {index : Nat}
    {stored : Partition} (found : topic.partitions[index]? = some stored) :
    stored.id = index := by
  have ids := congrArg (fun list => list[index]?) regular
  simp only [List.getElem?_map, found, Option.map_some] at ids
  obtain ⟨number, listed, same⟩ := Option.map_eq_some_iff.mp ids.symm
  rw [List.getElem?_eq_some_iff] at listed
  obtain ⟨_, rfl⟩ := listed
  simpa using same.symm

theorem Topic.Regular.nonEmpty_iff {topic : Topic} (regular : topic.Regular) (partition : Int) :
    (∃ stored ∈ topic.partitions, stored.messages ≠ [] ∧ stored.id = partition) ↔
      topic.messages partition ≠ [] := by
  constructor
  · rintro ⟨stored, member, filled, rfl⟩
    obtain ⟨index, found⟩ := List.mem_iff_getElem?.mp member
    have bound := (List.getElem?_eq_some_iff.mp found).1
    have present : topic.hasPartition stored.id = true := by
      rw [hasPartition_iff, regular.id_eq found]
      omega
    rw [Topic.messages, if_pos present, regular.id_eq found, Int.toNat_natCast, found]
    exact filled
  · intro filled
    unfold Topic.messages at filled
    split at filled
    · rename_i present
      rw [hasPartition_iff] at present
      have bound : partition.toNat < topic.partitions.length := by omega
      obtain ⟨stored, found⟩ : ∃ stored, topic.partitions[partition.toNat]? = some stored :=
        ⟨_, List.getElem?_eq_getElem bound⟩
      refine ⟨stored, List.mem_of_getElem? found, by simpa [found] using filled, ?_⟩
      rw [regular.id_eq found]
      omega
    · exact absurd rfl filled

theorem mem_nonEmptyPartitions {broker : Broker} (regular : broker.Regular) (topic : Bytes)
    (partition : Int) : (⟨topic, partition⟩ : TopicPartition) ∈ broker.nonEmptyPartitions ↔
      broker.messages topic partition ≠ [] := by
  simp only [Broker.nonEmptyPartitions, List.mem_flatMap, List.mem_map, List.mem_filter,
    decide_eq_true_eq, TopicPartition.mk.injEq, Broker.messages]
  constructor
  · rintro ⟨⟨name, stored⟩, listed, part, ⟨member, filled⟩, rfl, same⟩
    have found := (Table.mem_entries_iff broker.topics name stored).mp listed
    simp only [found]
    exact ((regular name stored found).nonEmpty_iff partition).mp ⟨part, member, filled, same⟩
  · intro filled
    cases found : broker.topics.find topic with
    | none => simp [found] at filled
    | some stored =>
        simp only [found] at filled
        obtain ⟨part, member, filled, same⟩ :=
          ((regular topic stored found).nonEmpty_iff partition).mpr filled
        exact ⟨⟨topic, stored⟩, (Table.mem_entries_iff broker.topics topic stored).mpr found, part,
          ⟨member, filled⟩, rfl, same⟩

theorem produce_eq {σ : Type} (env : Environment σ) (world : World σ) (req : Request) :
    produce env world req = appendAndReplicate env
      { world with peer := (world.broker.synchronizeFollower env.link world.peer).2 } req := by
  have peer : (if world.broker.replicates
      then (world.broker.synchronizeFollower env.link world.peer).2 else world.peer) =
      (world.broker.synchronizeFollower env.link world.peer).2 := by
    cases leads : world.broker.replicates with
    | true => rfl
    | false => simp [Broker.synchronizeFollower, leads]
  calc produce env world req
      = appendAndReplicate env { world with peer := if world.broker.replicates
          then (world.broker.synchronizeFollower env.link world.peer).2 else world.peer } req := rfl
    _ = _ := by rw [peer]

structure Leading {σ : Type} (world : World σ) : Prop where
  leads : world.broker.replicates = true
  noNul : 0 ∉ world.broker.dataDir
  regular : world.broker.Regular
  layout : StoreLayout (resolve world.broker.dataDir) world.disk

section Produce

variable {config : StoreConfig} (follows : config.role = .follower) (noNul : 0 ∉ config.dataDir)
  {world : World Follower} {req : Request}

theorem Leading.pushed {σ : Type} {before after : World σ} (leading : Leading before)
    (pushed : Pushed req before.broker after.broker)
    (layout : StoreLayout (resolve before.broker.dataDir) after.disk) : Leading after := by
  refine ⟨?_, pushed.dir ▸ leading.noNul, pushed.regular, pushed.dir ▸ layout⟩
  have leads := leading.leads
  simpa only [Broker.replicates, pushed.role, pushed.port] using leads

theorem Replicable.pushed {before after : Broker} (replicable : Replicable before)
    (sendable : Sendable req.topic req.partition req.payload) (pushed : Pushed req before after) :
    Replicable after := by
  intro topic partition payload member
  rw [pushed.messages, List.mem_append] at member
  rcases member with old | new
  · exact replicable topic partition payload old
  · split at new
    · rename_i here
      rw [List.mem_singleton] at new
      rw [here.1, here.2, new]
      exact sendable
    · simp at new

theorem Mirrors.pushed {leader after : Broker} {follower : Follower}
    (mirrors : Mirrors config leader follower) (pushed : Pushed req leader after) :
    Mirrors config after follower := by
  refine ⟨mirrors.sound, fun topic partition => ?_, mirrors.fine⟩
  rw [pushed.messages]
  exact (mirrors.inside topic partition).trans (List.prefix_append _ _)

include follows noNul

end Produce

/-! Runs. -/

def ReplicaState.synchronized (config : StoreConfig) (state : ReplicaState)
    (script : List Exchange) : World Follower :=
  { state.facing script with
    peer := (state.leader.broker.synchronizeFollower (followerLink config)
      (state.facing script).peer).2 }

section Runs

variable {config : StoreConfig} (follows : config.role = .follower) (noNul : 0 ∉ config.dataDir)
  {state : ReplicaState} {raw : Bytes} {env : Environment Follower} {script : List Exchange}

theorem Leading.metrics {σ : Type} {world : World σ} (leading : Leading world) (metrics : Metrics) :
    Leading { world with broker := { world.broker with metrics } } :=
  ⟨leading.leads, leading.noNul, leading.regular, leading.layout⟩

include follows noNul

end Runs

/-! Promotion. -/

def leaderAlone : StoreConfig := ⟨.leader, 9093, ascii "leader", by decide⟩

def followerAlone : StoreConfig := ⟨.follower, -1, ascii "follower", by decide⟩

def smoothExchange (delivery : Delivery) : Exchange :=
  ⟨false, delivery, { link := fun peer _ => (peer, none), calls := smoothCalls 9 }⟩

end KafkaBroker
