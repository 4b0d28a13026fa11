import KafkaBroker.Cluster

/-!
The offsets of `REPLICATE`. Whatever the follower answers and however the threads
interleave, every `REPLICATE` put to the link carries a record of the leader with its index
in the leader's list, and the record keeps that index.
-/

namespace KafkaBroker

open ByteText Posix

/-- The record of a request is in the list it names, at the offset it gives. -/
def SentRecord.Labelled (leader : Broker) (entry : SentRecord) : Prop :=
  (leader.messages entry.topic entry.partition)[entry.offset]? = some entry.payload

/-- A message is a progress query or the `REPLICATE` of a listed record. -/
def Accounted (sent : List SentRecord) (message : Bytes) : Prop :=
  (∃ target : TopicPartition, message = progressMessage target.topic target.partition) ∨
    ∃ entry ∈ sent,
      message = replicateMessage entry.topic entry.partition entry.offset entry.payload

theorem Accounted.mono {sent more : List SentRecord} {message : Bytes}
    (accounted : Accounted sent message) (listed : sent ⊆ more) : Accounted more message := by
  rcases accounted with query | ⟨entry, member, same⟩
  · exact Or.inl query
  · exact Or.inr ⟨entry, listed member, same⟩

structure LeaderSound {σ : Type} (state : LeaderState σ) : Prop where
  threads : ∀ id thread, state.threads.find id = some thread →
    thread.phase.Reads state.leader.broker
  sent : ∀ entry ∈ state.sent, entry.Labelled state.leader.broker
  asked : ∀ message ∈ state.leader.peer.messages, Accounted state.sent message

theorem Broker.Sized.messages {broker : Broker} (sized : broker.Sized) (topic : Bytes)
    (partition : Int) : (broker.messages topic partition).length < 2 ^ 64 := by
  unfold Broker.messages
  split
  · simp
  · rename_i stored found
    have entry := sized ⟨topic, stored⟩ ((Table.mem_entries_iff _ _ _).mpr found)
    unfold Topic.messages
    split
    · cases held : stored.partitions[partition.toNat]? with
      | none => simp
      | some part => simpa using entry part (List.mem_of_getElem? held)
    · simp

theorem SentRecord.Labelled.grow {before after : Broker} {entry : SentRecord}
    (labelled : entry.Labelled before) (longer : Lengthens before after) : entry.Labelled after := by
  obtain ⟨rest, whole⟩ := longer entry.topic entry.partition
  have bound := (List.getElem?_eq_some_iff.mp labelled).1
  rw [SentRecord.Labelled, ← whole, List.getElem?_append_left bound]
  exact labelled

theorem Lengthens.trans {before middle after : Broker} (first : Lengthens before middle)
    (second : Lengthens middle after) : Lengthens before after :=
  fun topic partition => (first topic partition).trans (second topic partition)

theorem appendAndReplicate_broker {σ : Type} (env : Environment σ) (world : World σ)
    (req : Request) : (appendAndReplicate env world req).2.broker =
      (appendLocal world.broker world.disk env.calls req).2.1 := by
  simp only [appendAndReplicate]
  split
  · rfl
  · rfl
  · rfl
  · split
    · split <;> rfl
    · rfl

theorem clientRequest_recorded {σ : Type} {link : Link σ} {recording : Recording σ}
    {request message : Bytes}
    (asked : message ∈ (clientRequest (recordingLink link) recording request).1.messages) :
    message ∈ recording.messages ∨ message = request := by
  simp only [clientRequest] at asked
  split at asked
  · exact Or.inl asked
  · simpa [recordingLink] using asked

section Threads

variable {σ : Type} {env : Environment σ}

theorem threadStep_asked {leader : World (Recording σ)} {thread : ProduceThread} {next}
    (stepped : threadStep env.recording leader thread = some next) :
    ∀ message ∈ next.1.peer.messages, message ∈ leader.peer.messages ∨
      Accounted (thread.sends leader env.calls) message := by
  obtain ⟨req, phase⟩ := thread
  intro message member
  cases phase with
  | snapshot =>
      simp only [threadStep, Option.some.injEq] at stepped
      subst stepped
      exact Or.inl member
  | query target rest =>
      simp only [threadStep, Option.some.injEq] at stepped
      subst stepped
      exact (clientRequest_recorded member).imp_right fun asked => Or.inl ⟨target, asked⟩
  | missing target progress rest =>
      simp only [threadStep, Option.some.injEq] at stepped
      subst stepped
      exact Or.inl member
  | send target offset record records rest =>
      simp only [threadStep, Option.some.injEq] at stepped
      subst stepped
      have listed : ⟨target.topic, target.partition, offset, record⟩ ∈
          ProduceThread.sends leader env.calls ⟨req, .send target offset record records rest⟩ := by
        simp [ProduceThread.sends]
      exact (clientRequest_recorded member).imp_right fun asked => Or.inr ⟨_, listed, asked⟩
  | produce =>
      have put : message ∈ (appendAndReplicate env.recording leader req).2.peer.messages := by
        simp only [threadStep] at stepped
        split at stepped
        · simp at stepped
        · rw [Option.some.injEq] at stepped
          subst stepped
          exact member
      have sameCalls : env.recording.calls = env.calls := rfl
      simp only [appendAndReplicate, sameCalls] at put
      simp only [ProduceThread.sends]
      split at put
      · exact Or.inl put
      · exact Or.inl put
      · exact Or.inl put
      · rename_i offset returned
        simp only [returned]
        split at put
        · rename_i leads
          have asked : message ∈ leader.peer.messages ∨
              message = replicateMessage req.topic req.partition offset req.payload := by
            split at put <;> exact clientRequest_recorded put
          have listed : ⟨req.topic, req.partition, offset, req.payload⟩ ∈
              (if leader.broker.replicates then
                [SentRecord.mk req.topic req.partition offset req.payload] else []) := by
            simp [leads]
          exact asked.imp_right fun same => Or.inr ⟨_, listed, same⟩
        · exact Or.inl put
  | finished => simp [threadStep] at stepped

variable {leader : World σ} {thread : ProduceThread}

theorem sends_labelled (reads : thread.phase.Reads leader.broker) {next}
    (stepped : threadStep env leader thread = some next) :
    ∀ entry ∈ thread.sends leader env.calls, entry.Labelled next.1.broker := by
  obtain ⟨req, phase⟩ := thread
  intro entry member
  cases phase with
  | send target offset record records rest =>
      simp only [ProduceThread.sends, List.mem_singleton] at member
      simp only [threadStep, Option.some.injEq] at stepped
      subst member stepped
      obtain ⟨later, split⟩ := reads
      have first : ((leader.broker.messages target.topic target.partition).drop offset)[0]? =
          some record := by
        rw [← split]
        rfl
      rw [List.getElem?_drop] at first
      exact first
  | produce =>
      simp only [ProduceThread.sends] at member
      split at member
      · rename_i offset returned
        split at member
        · rw [List.mem_singleton] at member
          subst member
          obtain ⟨_, position, pushed⟩ := appendLocal_returned returned
          simp only [threadStep] at stepped
          split at stepped
          · simp at stepped
          · rw [Option.some.injEq] at stepped
            subst stepped
            rw [SentRecord.Labelled, appendAndReplicate_broker, pushed, position]
            simp
        · simp at member
      · simp at member
  | snapshot => simp [ProduceThread.sends] at member
  | query target rest => simp [ProduceThread.sends] at member
  | missing target progress rest => simp [ProduceThread.sends] at member
  | finished => simp [ProduceThread.sends] at member

theorem threadStep_reads (sized : leader.broker.Sized) (reads : thread.phase.Reads leader.broker)
    {next} (stepped : threadStep env leader thread = some next) :
    Lengthens leader.broker next.1.broker ∧ next.2.Reads next.1.broker := by
  obtain ⟨req, phase⟩ := thread
  cases phase with
  | snapshot =>
      simp only [threadStep, Option.some.injEq] at stepped
      subst stepped
      refine ⟨Lengthens.refl _, ?_⟩
      split
      · exact nextTarget_reads _ _
      · trivial
  | query target rest =>
      simp only [threadStep, Option.some.injEq] at stepped
      subst stepped
      refine ⟨Lengthens.refl _, ?_⟩
      split <;> trivial
  | missing target progress rest =>
      simp only [threadStep, Option.some.injEq] at stepped
      subst stepped
      have few := sized.messages target.topic target.partition
      exact ⟨Lengthens.refl _, nextRecord_reads rest (getMissingRecords_reads few.le progress)⟩
  | send target offset record records rest =>
      simp only [threadStep, Option.some.injEq] at stepped
      subst stepped
      refine ⟨Lengthens.refl _, ?_⟩
      split
      · have few := sized.messages target.topic target.partition
        have inside := List.IsPrefix.length_le reads
        rw [List.length_cons, List.length_drop] at inside
        have noWrap : (offset + 1) % 2 ^ 64 = offset + 1 := Nat.mod_eq_of_lt (by omega)
        rw [noWrap]
        apply nextRecord_reads
        have later := List.IsPrefix.drop reads 1
        rw [List.drop_drop] at later
        exact later
      · trivial
  | produce =>
      simp only [threadStep] at stepped
      split at stepped
      · simp at stepped
      · rw [Option.some.injEq] at stepped
        subst stepped
        refine ⟨?_, trivial⟩
        rw [appendAndReplicate_broker]
        exact (appendLocal_appended _ _ _ _).lengthens
  | finished => simp [threadStep] at stepped

end Threads

section Runs

variable {σ : Type} {state next : LeaderState σ}

theorem leaderStep_sound {event : LeaderEvent σ} (sound : LeaderSound state)
    (stepped : leaderStep state event = some next) :
    LeaderSound next ∧ Lengthens state.leader.broker next.leader.broker := by
  cases event with
  | arrive id raw =>
      simp only [leaderStep] at stepped
      split at stepped
      · simp at stepped
      · rw [Option.some.injEq] at stepped
        subst stepped
        refine ⟨⟨fun other thread found => ?_, sound.sent, sound.asked⟩, Lengthens.refl _⟩
        rw [Table.find_set] at found
        split at found
        · rw [Option.some.injEq] at found
          subst found
          trivial
        · exact sound.threads other thread found
  | step id env =>
      simp only [leaderStep] at stepped
      split at stepped
      · simp at stepped
      · rename_i sized
        rw [not_not] at sized
        split at stepped
        · simp at stepped
        · rename_i thread found
          obtain ⟨after, moved, rfl⟩ := Option.map_eq_some_iff.mp stepped
          have reads := sound.threads id thread found
          obtain ⟨longer, readsThen⟩ := threadStep_reads sized reads moved
          refine ⟨⟨fun other stored held => ?_, fun entry member => ?_, fun message member => ?_⟩,
            longer⟩
          · rw [Table.find_set] at held
            split at held
            · rw [Option.some.injEq] at held
              subst held
              exact readsThen
            · exact (sound.threads other stored held).grow longer
          · rcases List.mem_append.mp member with earlier | now
            · exact (sound.sent entry earlier).grow longer
            · exact sends_labelled reads moved entry now
          · rcases threadStep_asked moved message member with earlier | now
            · exact (sound.asked message earlier).mono (List.subset_append_left _ _)
            · exact now.mono (List.subset_append_right _ _)

theorem leaderRun_sound {events : List (LeaderEvent σ)} (sound : LeaderSound state)
    (reached : Transition.run leaderStep state events = some next) :
    LeaderSound next ∧ Lengthens state.leader.broker next.leader.broker := by
  apply Transition.run_invariant
    (fun later => LeaderSound later ∧ Lengthens state.leader.broker later.leader.broker) ?_
    ⟨sound, Lengthens.refl _⟩ reached
  rintro before event after ⟨held, longer⟩ stepped
  obtain ⟨again, further⟩ := leaderStep_sound held stepped
  exact ⟨again, longer.trans further⟩

end Runs

/-- Every record the leader has ever sent is the one at its offset, now and in every later
state, and no other `REPLICATE` was ever put to the link. -/
theorem sent_record_at_offset {σ : Type} {leader : World σ} {state later : LeaderState σ}
    {events more : List (LeaderEvent σ)}
    (reached : Transition.run leaderStep (leaderStart leader) events = some state)
    (continued : Transition.run leaderStep state more = some later) :
    (∀ entry ∈ state.sent,
      entry.offset < (state.leader.broker.messages entry.topic entry.partition).length ∧
        (state.leader.broker.messages entry.topic entry.partition)[entry.offset]? =
          some entry.payload ∧
        (later.leader.broker.messages entry.topic entry.partition)[entry.offset]? =
          some entry.payload) ∧
      ∀ message ∈ state.leader.peer.messages,
        (∃ target : TopicPartition, message = progressMessage target.topic target.partition) ∨
          ∃ entry ∈ state.sent,
            message = replicateMessage entry.topic entry.partition entry.offset entry.payload := by
  have start : LeaderSound (leaderStart leader) := by
    constructor <;> simp [leaderStart]
  obtain ⟨sound, _⟩ := leaderRun_sound start reached
  obtain ⟨_, longer⟩ := leaderRun_sound sound continued
  refine ⟨fun entry sent => ?_, sound.asked⟩
  have labelled := sound.sent entry sent
  exact ⟨(List.getElem?_eq_some_iff.mp labelled).1, labelled, labelled.grow longer⟩

def answered (id : Nat) (text : String) : LeaderEvent Unit :=
  .step id { link := fun peer _ => (peer, some (ascii text)), calls := smoothCalls 9 }

def emptyLeader : World Unit :=
  ⟨{ role := .leader, followerPort := 9093 }, ∅, ()⟩

def contradictoryRun : List (LeaderEvent Unit) :=
  [.arrive 0 (ascii "PRODUCE t 0 x"), answered 0 "", answered 0 "OK",
    .arrive 1 (ascii "PRODUCE t 0 y"), answered 1 "", answered 1 "18446744073709551615",
    answered 1 "", .arrive 2 (ascii "PRODUCE t 0 z"), answered 2 "", answered 2 "NONE",
    answered 1 "ERROR", answered 2 "", answered 2 "OK", answered 2 "OK", answered 2 "OK"]

theorem sent_record_at_offset_contradictory :
    ∃ state, Transition.run leaderStep (leaderStart emptyLeader) contradictoryRun = some state ∧
      state.sent = [⟨ascii "t", 0, 0, ascii "x"⟩, ⟨ascii "t", 0, 1, ascii "y"⟩,
        ⟨ascii "t", 0, 0, ascii "x"⟩, ⟨ascii "t", 0, 1, ascii "y"⟩, ⟨ascii "t", 0, 2, ascii "z"⟩] ∧
      state.leader.peer.messages = [ascii "REPLICATE t 0 0 x",
        ascii "REPLICATION_PROGRESS t 0", ascii "REPLICATION_PROGRESS t 0",
        ascii "REPLICATE t 0 1 y", ascii "REPLICATE t 0 0 x", ascii "REPLICATE t 0 1 y",
        ascii "REPLICATE t 0 2 z"] ∧
      (∀ entry ∈ state.sent,
        (state.leader.broker.messages entry.topic entry.partition)[entry.offset]? =
          some entry.payload) ∧
      ∃ entry ∈ state.sent, ascii "REPLICATE t 0 2 z" =
        replicateMessage entry.topic entry.partition entry.offset entry.payload := by
  have evaluated : (Transition.run leaderStep (leaderStart emptyLeader) contradictoryRun).map
      (fun state => (state.sent, state.leader.peer.messages)) =
      some ([⟨ascii "t", 0, 0, ascii "x"⟩, ⟨ascii "t", 0, 1, ascii "y"⟩,
        ⟨ascii "t", 0, 0, ascii "x"⟩, ⟨ascii "t", 0, 1, ascii "y"⟩, ⟨ascii "t", 0, 2, ascii "z"⟩],
        [ascii "REPLICATE t 0 0 x", ascii "REPLICATION_PROGRESS t 0",
          ascii "REPLICATION_PROGRESS t 0", ascii "REPLICATE t 0 1 y", ascii "REPLICATE t 0 0 x",
          ascii "REPLICATE t 0 1 y", ascii "REPLICATE t 0 2 z"]) := by
    decide +kernel
  obtain ⟨state, reached, facts⟩ := Option.map_eq_some_iff.mp evaluated
  obtain ⟨sent, asked⟩ := Prod.mk.inj facts
  have stays : Transition.run leaderStep state [] = some state := rfl
  obtain ⟨labelled, accounted⟩ := sent_record_at_offset reached stays
  refine ⟨state, reached, sent, asked, fun entry member => (labelled entry member).2.1, ?_⟩
  refine (accounted (ascii "REPLICATE t 0 2 z") (by simp [asked])).resolve_left ?_
  rintro ⟨target, same⟩
  have head := congrArg (fun message : Bytes => message[9]?) same
  simp [progressMessage, ascii] at head

end KafkaBroker
