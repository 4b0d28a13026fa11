import KafkaBroker.Failures
import KafkaBroker.Naming
import KafkaBroker.Replication

/-!
The replication progress of a follower beside what its recovery would rebuild. A
`REPLICATE` keeps the two together, a `PRODUCE` lets the progress fall behind until the
next `REPLICATE` to its partition.
-/

namespace KafkaBroker

open ByteText Posix

variable {σ : Type}

/-- One append that a follower answers with `OK`; a `REPLICATE` carries the next offset. -/
def followerStep (world : World σ) (event : Bytes × Environment σ) : Option (World σ) :=
  if event.1.length > kMaxPayloadSize then none
  else
    let req := parseRequest event.1
    let handled := handleRequest event.2 world req
    if handled.1 = .returned (ascii "OK") ∧ (req.type = .produce ∨ req.type = .replicate ∧
        req.offset = (world.broker.messages req.topic req.partition).length) then some handled.2
    else none

def lastAppend (topic : Bytes) (partition : Int) : List (Bytes × Environment σ) →
    Option RequestType
  | [] => none
  | event :: rest =>
      let req := parseRequest event.1
      (lastAppend topic partition rest).or
        (if topic = req.topic ∧ partition = req.partition then some req.type else none)

/-- The progress of every partition is what a restart would make of its log: the index of
the last record. -/
def ProgressRebuilt (config : StoreConfig) (world : World σ) : Prop :=
  ∃ recovered, restart config world = some recovered ∧ ∀ topic partition,
    getReplicationProgress world.broker topic partition =
        getReplicationProgress recovered.broker topic partition ∧
      getReplicationProgress world.broker topic partition =
        lastOffset (world.broker.messages topic partition)

/-! One append. -/

theorem appendLocal_frame (broker : Broker) (disk : FileSystem) (calls : AppendCalls)
    (req : Request) : ∃ topics, (appendLocal broker disk calls req).2.1 = { broker with topics } := by
  simp only [appendLocal]
  split
  · exact ⟨_, rfl⟩
  · split
    · exact ⟨_, rfl⟩
    · split
      · exact ⟨_, rfl⟩
      · exact ⟨_, rfl⟩
      · exact ⟨_, rfl⟩

theorem appendLocal_disk {broker : Broker} {disk : FileSystem} {calls : AppendCalls}
    {req : Request} {offset : Nat}
    (ended : (appendLocal broker disk calls req).1 = .returned (some offset)) :
    ∃ log : TopicLog,
      (appendLocal broker disk calls req).2.2 = (log.append ⟨req.payload⟩ calls disk).2 := by
  simp only [appendLocal] at ended ⊢
  split at ended
  · simp at ended
  · rename_i present
    rw [if_neg present]
    split at ended
    · simp at ended
    · rename_i log created
      refine ⟨log, ?_⟩
      split <;> rfl

structure Answered (env : Environment σ) (req : Request) (before after : World σ) : Prop where
  messages : ∀ topic partition, after.broker.messages topic partition =
    before.broker.messages topic partition ++
      if topic = req.topic ∧ partition = req.partition then [req.payload] else []
  progress : after.broker.replicationProgress = if req.type = .replicate
    then before.broker.replicationProgress.set ⟨req.topic, req.partition⟩ req.offset
    else before.broker.replicationProgress
  disk : ∃ log : TopicLog, after.disk = (log.append ⟨req.payload⟩ env.calls before.disk).2

theorem produce_answered {env : Environment σ} {world : World σ} {req : Request}
    (produces : req.type = .produce) {success : Bool}
    (answered : (produce env world req).1 = .returned (ascii "OK", success)) :
    Answered env req world (produce env world req).2 := by
  obtain ⟨offset, ended⟩ : ∃ offset,
      (appendLocal world.broker world.disk env.calls req).1 = .returned (some offset) := by
    simp only [produce] at answered
    split at answered
    · simp at answered
    · simp at answered
    · simp only [Outcome.returned.injEq, Prod.mk.injEq] at answered
      exact absurd answered.1.symm ok_ne_error
    · exact ⟨_, ‹_›⟩
  obtain ⟨_, _, messages⟩ := appendLocal_returned ended
  obtain ⟨topics, frame⟩ := appendLocal_frame world.broker world.disk env.calls req
  obtain ⟨log, disk⟩ := appendLocal_disk ended
  have stored : (produce env world req).2.broker =
        (appendLocal world.broker world.disk env.calls req).2.1 ∧
      (produce env world req).2.disk =
        (appendLocal world.broker world.disk env.calls req).2.2 := by
    simp only [produce, ended]
    split
    · split <;> exact ⟨rfl, rfl⟩
    · exact ⟨rfl, rfl⟩
  refine ⟨?_, ?_, log, stored.2.trans disk⟩
  · rw [stored.1]
    exact messages
  · rw [stored.1, frame, produces]
    rfl

theorem replicate_answered {env : Environment σ} {world : World σ} {req : Request}
    (replicates : req.type = .replicate) {success : Bool}
    (answered : (replicate env.calls world.broker world.disk req).1 =
      .returned (ascii "OK", success)) :
    Answered env req world { world with
      broker := (replicate env.calls world.broker world.disk req).2.1
      disk := (replicate env.calls world.broker world.disk req).2.2 } := by
  have refused {success' : Bool}
      (rejected : Outcome.returned (ascii "ERROR", success') = .returned (ascii "OK", success)) :
      False := by
    simp only [Outcome.returned.injEq, Prod.mk.injEq] at rejected
    exact ok_ne_error rejected.1.symm
  simp only [replicate, topics_emplace_find] at answered ⊢
  split at answered
  · exact absurd answered refused
  · rename_i follower
    simp only [if_neg follower]
    split at answered
    · exact absurd answered refused
    · rename_i present
      simp only [if_neg present]
      split at answered
      · exact absurd answered refused
      · rename_i log created
        split at answered
        · simp at answered
        · exact absurd answered refused
        · refine ⟨messages_pushed world.broker (by simpa using present) req.payload _, ?_, log, rfl⟩
          rw [if_pos replicates]

theorem handle_answered {env : Environment σ} {world : World σ} {req : Request}
    (appends : req.appends = true)
    (answered : (handleRequest env world req).1 = .returned (ascii "OK")) :
    Answered env req world (handleRequest env world req).2 := by
  obtain ⟨metrics, after, returned, _⟩ := handleRequest_eq env world req
  obtain ⟨success, ended⟩ := (returned _).mp answered
  rw [after]
  simp only [Request.appends, decide_eq_true_eq] at appends
  rcases appends with produces | replicates
  · have dispatched : dispatch env world req = produce env world req := by
      simp only [dispatch, produces]
    rw [dispatched] at ended ⊢
    have stored := produce_answered produces ended
    exact ⟨stored.messages, stored.progress, stored.disk⟩
  · have dispatched : dispatch env world req =
        ((replicate env.calls world.broker world.disk req).1,
          { world with
            broker := (replicate env.calls world.broker world.disk req).2.1
            disk := (replicate env.calls world.broker world.disk req).2.2 }) := by
      simp only [dispatch, replicates]
    rw [dispatched] at ended ⊢
    have stored := replicate_answered replicates ended
    exact ⟨stored.messages, stored.progress, stored.disk⟩

theorem followerStep_cases {world next : World σ} {event : Bytes × Environment σ}
    (stepped : followerStep world event = some next) :
    event.1.length ≤ kMaxPayloadSize ∧ (parseRequest event.1).appends = true ∧
      (handleRequest event.2 world (parseRequest event.1)).1 = .returned (ascii "OK") ∧
      next = (handleRequest event.2 world (parseRequest event.1)).2 ∧
      ((parseRequest event.1).type = .produce ∨ (parseRequest event.1).type = .replicate ∧
        (parseRequest event.1).offset = (world.broker.messages (parseRequest event.1).topic
          (parseRequest event.1).partition).length) := by
  simp only [followerStep] at stepped
  split at stepped
  · simp at stepped
  · rename_i framed
    split at stepped
    · rename_i accepted
      refine ⟨not_lt.mp framed, ?_, accepted.1, (Option.some.inj stepped).symm, accepted.2⟩
      simp only [Request.appends, decide_eq_true_eq]
      exact accepted.2.imp_right And.left
    · simp at stepped

theorem followerStep_answered {world next : World σ} {event : Bytes × Environment σ}
    (stepped : followerStep world event = some next) :
    Answered event.2 (parseRequest event.1) world next := by
  obtain ⟨_, appends, answered, rfl, _⟩ := followerStep_cases stepped
  exact handle_answered appends answered

/-! What a follower reports, from its memory alone. -/

/-- The progress of a partition whose last append, if any, was of this type. -/
def Tracks (kind : Option RequestType) (progress : Option Nat) (messages : List Bytes) : Prop :=
  if kind = some .produce then messages ≠ [] ∧ ∀ last ∈ progress, last + 1 < messages.length
  else progress = lastOffset messages

theorem Tracks.bounded {kind : Option RequestType} {progress : Option Nat}
    {messages : List Bytes} (tracks : Tracks kind progress messages) :
    ∀ last ∈ progress, last < messages.length := by
  unfold Tracks at tracks
  intro last reported
  split at tracks
  · have behind := tracks.2 last reported
    omega
  · rw [tracks, lastOffset] at reported
    split at reported
    · simp at reported
    · rename_i stored
      have positive := List.length_pos_iff.mpr stored
      simp only [Option.mem_some_iff] at reported
      omega

theorem tracks_step {world next : World σ} {event : Bytes × Environment σ}
    (stepped : followerStep world event = some next) {kind : Option RequestType} {topic : Bytes}
    {partition : Int} (tracks : Tracks kind (getReplicationProgress world.broker topic partition)
      (world.broker.messages topic partition)) :
    Tracks ((lastAppend topic partition [event]).or kind)
      (getReplicationProgress next.broker topic partition)
      (next.broker.messages topic partition) := by
  obtain ⟨messages, progress, _⟩ := followerStep_answered stepped
  obtain ⟨_, _, _, _, typed⟩ := followerStep_cases stepped
  simp only [lastAppend, Option.none_or]
  rw [messages, getReplicationProgress, progress]
  by_cases here : topic = (parseRequest event.1).topic ∧
      partition = (parseRequest event.1).partition
  · obtain ⟨rfl, rfl⟩ := here
    simp only [and_self, if_true, Option.some_or]
    rcases typed with produces | ⟨replicates, position⟩
    · rw [produces]
      refine ⟨by simp, fun last reported => ?_⟩
      have below := tracks.bounded last reported
      rw [List.length_append, List.length_singleton]
      omega
    · rw [replicates, position, if_pos rfl, Table.find_set, if_pos rfl]
      exact (lastOffset_push _ _).symm
  · have other : (⟨topic, partition⟩ : TopicPartition) ≠
        ⟨(parseRequest event.1).topic, (parseRequest event.1).partition⟩ := by
      simpa using here
    simp only [here, if_false, Option.none_or, List.append_nil]
    split
    · rw [Table.find_set, if_neg other]
      exact tracks
    · exact tracks

theorem tracks_run {topic : Bytes} {partition : Int} {events : List (Bytes × Environment σ)} :
    ∀ {kind : Option RequestType} {world final : World σ},
      Tracks kind (getReplicationProgress world.broker topic partition)
        (world.broker.messages topic partition) →
      Transition.run followerStep world events = some final →
      Tracks ((lastAppend topic partition events).or kind)
        (getReplicationProgress final.broker topic partition)
        (final.broker.messages topic partition) := by
  induction events with
  | nil =>
      intro kind world final tracks finished
      rw [Transition.run_nil, Option.some.injEq] at finished
      exact finished ▸ tracks
  | cons event rest ih =>
      intro kind world final tracks finished
      obtain ⟨next, stepped, remaining⟩ := Transition.run_cons_eq_some finished
      have later := ih (tracks_step stepped tracks) remaining
      simp only [lastAppend, Option.none_or, Option.or_assoc] at later ⊢
      exact later

/-! What a restart rebuilds, from the names on the disk. -/

def Numbered (file : Bytes × Node) (partition : Int) : Prop :=
  ∃ text position, partitionText file.1 file.2 = some text ∧
    stoi text = some (partition, position)

theorem loadPartition_progress {role : BrokerRole} {dataDir : Bytes} {scan : TopicScan}
    {partition : Nat} {key : TopicPartition}
    (found : ((loadPartition role dataDir scan partition).progress.find key).isSome) :
    (scan.progress.find key).isSome ∨ key = ⟨scan.topic.name, partition⟩ := by
  have cases (records : List Bytes) (found : ((if role = .follower ∧ records ≠ []
      then scan.progress.set ⟨scan.topic.name, partition⟩ (records.length - 1)
      else scan.progress).find key).isSome) :
      (scan.progress.find key).isSome ∨ key = ⟨scan.topic.name, partition⟩ := by
    split at found
    · rw [Table.find_set] at found
      split at found
      · exact Or.inr ‹_›
      · exact Or.inl found
    · exact Or.inl found
  exact cases _ found

theorem scanFile_progress {role : BrokerRole} {dataDir : Bytes} {scan next : TopicScan}
    {file : Bytes × Node} (scanned : scanFile role dataDir scan file = .ok next) :
    MaybeRepaired scan.disk next.disk ∧ ∀ key, (next.progress.find key).isSome →
      (scan.progress.find key).isSome ∨ key.topic = scan.topic.name ∧
        Numbered file key.partition := by
  rcases scanFile_cases scanned with ⟨_, rfl⟩ | ⟨text, partition, position, named, parsed, _, _,
    rfl⟩
  · exact ⟨MaybeRepaired.refl _, fun key found => Or.inl found⟩
  · refine ⟨loadPartition_repairs role dataDir scan partition, fun key found => ?_⟩
    refine (loadPartition_progress found).imp_right fun here => ?_
    rw [here]
    exact ⟨rfl, text, position, named, parsed⟩

theorem MaybeRepaired.numbered {before after : FileSystem} (repairs : MaybeRepaired before after)
    {folder : Path} {file : Bytes × Node} (listed : file ∈ children after folder)
    {partition : Int} (numbered : Numbered file partition) :
    ∃ node, before.find (folder ++ [file.1]) = some node ∧ Numbered (file.1, node) partition := by
  obtain ⟨name, node⟩ := file
  rw [mem_children_iff] at listed
  rcases repairs (folder ++ [name]) with same | ⟨contents, old, new⟩
  · exact ⟨node, same ▸ listed, numbered⟩
  · rw [new, Option.some.injEq] at listed
    subst listed
    exact ⟨.file contents, old, numbered⟩

theorem scanFiles_progress {role : BrokerRole} {dataDir : Bytes} (files : List (Bytes × Node)) :
    ∀ {scan final : TopicScan}, scanFiles role dataDir scan files = .ok final →
      MaybeRepaired scan.disk final.disk ∧ ∀ key, (final.progress.find key).isSome →
        (scan.progress.find key).isSome ∨ key.topic = scan.topic.name ∧
          ∃ file ∈ files, Numbered file key.partition := by
  induction files with
  | nil =>
      intro scan final scanned
      rw [← Except.ok.inj scanned]
      exact ⟨MaybeRepaired.refl _, fun key found => Or.inl found⟩
  | cons file rest ih =>
      intro scan final scanned
      simp only [scanFiles] at scanned
      split at scanned
      · simp at scanned
      · rename_i next stepped
        obtain ⟨first, head⟩ := scanFile_progress stepped
        obtain ⟨later, tail⟩ := ih scanned
        refine ⟨first.trans later, fun key found => ?_⟩
        rcases tail key found with earlier | ⟨named, other, member, numbered⟩
        · refine (head key earlier).imp_right ?_
          rintro ⟨named, numbered⟩
          exact ⟨named, file, List.mem_cons_self, numbered⟩
        · refine Or.inr ⟨?_, other, List.mem_cons_of_mem file member, numbered⟩
          rw [named, scanFile_name stepped]

def Listed (base : Path) (disk : FileSystem) (key : TopicPartition) : Prop :=
  ∃ file node, disk.find (base ++ [key.topic, file]) = some node ∧
    Numbered (file, node) key.partition

theorem MaybeRepaired.listed {base : Path} {before after : FileSystem}
    (repairs : MaybeRepaired before after) {key : TopicPartition}
    (listed : Listed base after key) : Listed base before key := by
  obtain ⟨file, node, found, numbered⟩ := listed
  have member : (file, node) ∈ children after (base ++ [key.topic]) := by
    rw [mem_children_iff, List.append_assoc]
    exact found
  obtain ⟨old, present, again⟩ := repairs.numbered member numbered
  exact ⟨file, old, by simpa using present, again⟩

theorem scanTopic_progress {role : BrokerRole} {dataDir : Bytes} {scan next : StoreScan}
    {entry : Bytes × Node} (scanned : scanTopic role dataDir scan entry = .ok next) :
    MaybeRepaired scan.disk next.disk ∧ ∀ key, (next.progress.find key).isSome →
      (scan.progress.find key).isSome ∨ Listed (resolve dataDir) scan.disk key := by
  rcases scanTopic_cases scanned with rfl | ⟨final, files, rfl⟩
  · exact ⟨MaybeRepaired.refl _, fun key found => Or.inl found⟩
  · obtain ⟨repairs, keys⟩ := scanFiles_progress _ files
    refine ⟨repairs, fun key found => (keys key found).imp_right ?_⟩
    rintro ⟨named, ⟨file, node⟩, member, numbered⟩
    refine ⟨file, node, ?_, numbered⟩
    rw [mem_children_iff, List.append_assoc] at member
    rw [named]
    exact member

theorem scanTopics_progress {role : BrokerRole} {dataDir : Bytes}
    (entries : List (Bytes × Node)) : ∀ {scan final : StoreScan},
      scanTopics role dataDir scan entries = .ok final →
      ∀ key, (final.progress.find key).isSome →
        (scan.progress.find key).isSome ∨ Listed (resolve dataDir) scan.disk key := by
  induction entries with
  | nil =>
      intro scan final scanned key found
      rw [← Except.ok.inj scanned] at found
      exact Or.inl found
  | cons entry rest ih =>
      intro scan final scanned key found
      simp only [scanTopics] at scanned
      split at scanned
      · simp at scanned
      · rename_i next stepped
        obtain ⟨repairs, keys⟩ := scanTopic_progress stepped
        rcases ih scanned key found with earlier | listed
        · exact keys key earlier
        · exact Or.inr (repairs.listed listed)

theorem restart_listed {config : StoreConfig} {world next : World σ}
    (restarted : restart config world = some next) {topic : Bytes} {partition : Int}
    (found : (getReplicationProgress next.broker topic partition).isSome) :
    Listed (resolve config.dataDir) world.disk ⟨topic, partition⟩ := by
  rw [getReplicationProgress] at found
  rcases restart_cases restarted with ⟨_, nothing⟩ | ⟨scanned, finished, _, progress⟩
  · rw [nothing] at found
    simp at found
  · rw [progress] at found
    rcases scanTopics_progress _ finished _ found with empty | listed
    · simp at empty
    · exact listed

theorem StoreLayout.listed_key {base : Path} {disk : FileSystem} (layout : StoreLayout base disk)
    {key : TopicPartition} (listed : Listed base disk key) :
    ValidName key.topic ∧ InRange key.partition := by
  obtain ⟨file, node, found, text, position, named, parsed⟩ := listed
  obtain ⟨partition, contents, range, rfl, rfl⟩ := layout.files key.topic file node found
  obtain ⟨index, rfl⟩ := Int.eq_ofNat_of_zero_le range.1
  rw [partitionText_partitionFile, Option.some.injEq] at named
  have upper := range.2
  simp only [kDefaultPartitionCount] at upper
  have numeral : stoi text = some ((index : Int), (decimal index).length) := by
    rw [← named]
    exact stoi_decimal (by omega)
  rw [numeral, Option.some.injEq, Prod.mk.injEq] at parsed
  exact ⟨(layout.topics _ _ (layout.parents _ _ _ found)).1, parsed.1 ▸ range⟩

/-! The names on the disk, whatever the topics of the requests. -/

/-- Every directory of partition logs has a name that is one path component. -/
def Named (base : Path) (disk : FileSystem) : Prop :=
  ∀ topic file node, disk.find (base ++ [topic, file]) = some node → ValidName topic

theorem StoreLayout.named {base : Path} {disk : FileSystem} (layout : StoreLayout base disk) :
    Named base disk :=
  fun topic file node found => (layout.topics _ _ (layout.parents topic file node found)).1

theorem append_paths (log : TopicLog) (record : Record) (calls : AppendCalls)
    {disk : FileSystem} {path : Path}
    (found : ((log.append record calls disk).2.find path).isSome) :
    (disk.find path).isSome ∨ ∀ name ∈ path, ValidName name := by
  by_cases target : path = resolve log.logPath
  · exact Or.inr fun name member => resolve_valid (target ▸ member)
  have prepare {prepared : FileSystem}
      (created : createDirectories disk [] (resolve log.folder) = some prepared)
      (found : (prepared.find path).isSome) :
      (disk.find path).isSome ∨ ∀ name ∈ path, ValidName name := by
    rcases createDirectories_find created path with ⟨⟨first, last, _, split, rfl⟩, _⟩ | ⟨_, same⟩
    · refine Or.inr fun name member => ?_
      have inside : name ∈ resolve log.folder := by
        rw [split]
        exact List.mem_append_left last member
      exact resolve_valid inside
    · exact Or.inl (same ▸ found)
  simp only [TopicLog.append] at found
  split at found
  · exact Or.inl found
  · exact Or.inl found
  · split at found
    · exact Or.inl found
    · rename_i prepared created
      split at found
      · exact prepare created found
      · exact prepare created found
      · split at found
        · exact prepare created found
        · rename_i opened done
          rw [appendBytes_isSome, openAppend_find done target] at found
          exact prepare created found

theorem named_run {base : Path} {events : List (Bytes × Environment σ)} {world final : World σ}
    (named : Named base world.disk) (finished : Transition.run followerStep world events = some final) :
    Named base final.disk := by
  apply Transition.run_invariant (fun reached => Named base reached.disk) ?_ named finished
  intro reached event next before stepped topic file node found
  obtain ⟨log, after⟩ := (followerStep_answered stepped).disk
  rw [after] at found
  rcases append_paths log _ _ (Option.isSome_iff_exists.mpr ⟨node, found⟩) with present | valid
  · obtain ⟨old, present⟩ := Option.isSome_iff_exists.mp present
    exact before topic file old present
  · exact valid topic (by simp)

/-! The messages of a run. -/

theorem kept_run {events : List (Bytes × Environment σ)} {world final : World σ}
    (finished : Transition.run followerStep world events = some final) (topic : Bytes)
    (partition : Int) :
    world.broker.messages topic partition <+: final.broker.messages topic partition := by
  apply Transition.run_invariant
    (fun reached => world.broker.messages topic partition <+:
      reached.broker.messages topic partition) ?_ List.prefix_rfl finished
  intro reached event next before stepped
  rw [(followerStep_answered stepped).messages]
  exact before.trans (List.prefix_append _ _)

theorem stored_run {events : List (Bytes × Environment σ)} : ∀ {world final : World σ},
    Transition.run followerStep world events = some final → ∀ event ∈ events,
      final.broker.messages (parseRequest event.1).topic (parseRequest event.1).partition ≠ [] := by
  induction events with
  | nil => simp
  | cons event rest ih =>
      intro world final finished
      obtain ⟨next, stepped, remaining⟩ := Transition.run_cons_eq_some finished
      refine List.forall_mem_cons.mpr ⟨?_, ih remaining⟩
      have pushed := (followerStep_answered stepped).messages (parseRequest event.1).topic
        (parseRequest event.1).partition
      intro empty
      have none := List.prefix_nil.mp (empty ▸ kept_run remaining _ _)
      simp [none] at pushed

theorem mirrored_append {config : StoreConfig} (noNul : 0 ∉ config.dataDir)
    {world next : World σ} (mirrored : Mirrored config world) {event : Bytes × Environment σ}
    (stepped : followerStep world event = some next)
    (valid : ValidName (parseRequest event.1).topic) : Mirrored config next := by
  have messages := (followerStep_answered stepped).messages
  obtain ⟨framed, appends, answered, rfl, _⟩ := followerStep_cases stepped
  obtain ⟨serving, ⟨_, rejected⟩ | ⟨range, shorter, written, logged, whole⟩⟩ :=
    handle_append noNul mirrored.serving event.2 appends valid
  · rw [rejected, Outcome.returned.injEq] at answered
    exact absurd answered.symm ok_ne_error
  · have fits := payload_fits (not_lt.mpr framed) shorter
    rcases mirrored.logged range fits logged with ⟨_, logs⟩ | ⟨torn, _⟩
    · refine ⟨serving, ?_, fun topic partition queried => (logs topic partition queried).2⟩
      intro topic partition queried
      rw [messages, World.logBytes, (logs topic partition queried).1]
    · exact absurd (whole answered) torn

theorem mirrored_appends {config : StoreConfig} (noNul : 0 ∉ config.dataDir)
    {events : List (Bytes × Environment σ)} (valid : ∀ event ∈ events,
      ValidName (parseRequest event.1).topic) : ∀ {world final : World σ}, Mirrored config world →
      Transition.run followerStep world events = some final → Mirrored config final := by
  induction events with
  | nil =>
      intro world final mirrored finished
      rw [Transition.run_nil, Option.some.injEq] at finished
      exact finished ▸ mirrored
  | cons event rest ih =>
      intro world final mirrored finished
      obtain ⟨next, stepped, remaining⟩ := Transition.run_cons_eq_some finished
      rw [List.forall_mem_cons] at valid
      exact ih valid.2 (mirrored_append noNul mirrored stepped valid.1) remaining

/-! The two together. -/

theorem restart_lastOffset {config : StoreConfig} (follows : config.role = .follower)
    (noNul : 0 ∉ config.dataDir) {world next : World σ}
    (layout : StoreLayout (resolve config.dataDir) world.disk)
    (restarted : restart config world = some next) (topic : Bytes) (partition : Int) :
    getReplicationProgress next.broker topic partition =
      lastOffset (next.broker.messages topic partition) := by
  by_cases range : InRange partition
  · rw [restart_progress noNul layout restarted topic range]
    simp only [follows, true_and, lastOffset]
    split <;> simp_all
  · obtain ⟨same, started, serving, _⟩ := restart_spec noNul layout
    obtain rfl : next = same := Option.some.inj (restarted.symm.trans started)
    rw [messages_outside serving.regular topic range]
    cases found : getReplicationProgress next.broker topic partition with
    | none => rfl
    | some last =>
        have listed := restart_listed restarted (Option.isSome_iff_exists.mpr ⟨last, found⟩)
        exact absurd (layout.listed_key listed).2 range

/-- A restart of a follower rebuilds the progress it reports exactly if its topics are single
path components and no partition has a `PRODUCE` for its last append. -/
theorem progress_rebuilt_iff (config : StoreConfig) (follows : config.role = .follower)
    (noNul : 0 ∉ config.dataDir) {disk : FileSystem}
    (layout : StoreLayout (resolve config.dataDir) disk) (peer : σ) :
    ∃ initial, restart config ⟨{}, disk, peer⟩ = some initial ∧
      ∀ (events : List (Bytes × Environment σ)) (final : World σ),
        Transition.run followerStep initial events = some final →
        (ProgressRebuilt config final ↔
          (∀ event ∈ events, ValidName (parseRequest event.1).topic) ∧
            ∀ topic partition, lastAppend topic partition events ≠ some .produce) := by
  have start : StoreLayout (resolve config.dataDir) (World.mk {} disk peer).disk := layout
  obtain ⟨initial, started, mirrored, _⟩ := mirrored_restart noNul start
  refine ⟨initial, started, fun events final finished => ?_⟩
  have tracks (topic : Bytes) (partition : Int) : Tracks (lastAppend topic partition events)
      (getReplicationProgress final.broker topic partition)
      (final.broker.messages topic partition) := by
    have fresh : Tracks none (getReplicationProgress initial.broker topic partition)
        (initial.broker.messages topic partition) :=
      restart_lastOffset follows noNul start started topic partition
    simpa using tracks_run fresh finished
  constructor
  · rintro ⟨recovered, recovers, agrees⟩
    constructor
    · intro event member
      obtain ⟨same, last⟩ := agrees (parseRequest event.1).topic (parseRequest event.1).partition
      rw [lastOffset, if_neg (stored_run finished event member)] at last
      obtain ⟨file, node, found, _⟩ :=
        restart_listed recovers (Option.isSome_iff_exists.mpr ⟨_, same.symm.trans last⟩)
      exact named_run mirrored.serving.layout.named finished _ file node found
    · intro topic partition produced
      have behind := tracks topic partition
      rw [produced, (agrees topic partition).2] at behind
      obtain ⟨stored, short⟩ := behind
      have positive := List.length_pos_iff.mpr stored
      have below := short _ (if_neg stored)
      omega
  · rintro ⟨valid, last⟩
    have after := mirrored_appends noNul valid mirrored finished
    obtain ⟨recovered, recovers, again, messages⟩ := mirrored_restart noNul after.serving.layout
    refine ⟨recovered, recovers, fun topic partition => ?_⟩
    have fresh : getReplicationProgress final.broker topic partition =
        lastOffset (final.broker.messages topic partition) := by
      have kept := tracks topic partition
      rwa [Tracks, if_neg (last topic partition)] at kept
    have same : recovered.broker.messages topic partition =
        final.broker.messages topic partition := by
      by_cases range : InRange partition
      · rw [messages topic partition range, after.memory topic partition range]
      · rw [messages_outside again.serving.regular topic range,
          messages_outside after.serving.regular topic range]
    rw [restart_lastOffset follows noNul after.serving.layout recovers, same]
    exact ⟨fresh, fresh⟩

def mixedAppends : List (Bytes × Environment Unit) :=
  [(ascii "PRODUCE t 0 x", silentEnv), (ascii "REPLICATE t 0 1 y", silentEnv)]

theorem progress_rebuilt_mixed : ∃ initial final,
    restart followerConfig ⟨{}, ∅, ()⟩ = some initial ∧
      Transition.run followerStep initial mixedAppends = some final ∧
      ProgressRebuilt followerConfig final := by
  obtain ⟨initial, started, rebuilt⟩ := progress_rebuilt_iff followerConfig rfl (by decide)
    (freshStore_empty _).layout ()
  have runs : ∀ start ∈ restart followerConfig ⟨{}, ∅, ()⟩,
      (Transition.run followerStep start mixedAppends).isSome := by
    decide +kernel
  obtain ⟨final, finished⟩ := Option.isSome_iff_exists.mp (runs initial started)
  refine ⟨initial, final, started, finished, (rebuilt mixedAppends final finished).mpr
    ⟨by decide +kernel, fun topic partition => ?_⟩⟩
  have first : parseRequest (ascii "PRODUCE t 0 x") =
      { type := .produce, topic := ascii "t", partition := 0, payload := ascii "x" } := by
    decide +kernel
  have second : parseRequest (ascii "REPLICATE t 0 1 y") =
      { type := .replicate, topic := ascii "t", partition := 0, offset := 1,
        payload := ascii "y" } := by
    decide +kernel
  simp only [mixedAppends, lastAppend, first, second, Option.none_or]
  split
  · simp
  · simp

/-- A client's record on the follower moves its log and not its progress. -/
theorem progress_behind_produce : ∃ initial final recovered,
    restart followerConfig ⟨{}, ∅, ()⟩ = some initial ∧
      Transition.run followerStep initial [(ascii "PRODUCE t 0 x", silentEnv)] = some final ∧
      restart followerConfig final = some recovered ∧
      getReplicationProgress final.broker (ascii "t") 0 = none ∧
      getReplicationProgress recovered.broker (ascii "t") 0 = some 0 := by
  have evaluated : ((restart followerConfig ⟨{}, ∅, ()⟩).bind fun initial =>
      (Transition.run followerStep initial [(ascii "PRODUCE t 0 x", silentEnv)]).bind fun final =>
      (restart followerConfig final).map fun recovered =>
        (getReplicationProgress final.broker (ascii "t") 0,
          getReplicationProgress recovered.broker (ascii "t") 0)) = some (none, some 0) := by
    decide +kernel
  simp only [Option.bind_eq_some_iff, Option.map_eq_some_iff, Prod.mk.injEq] at evaluated
  obtain ⟨initial, started, final, finished, recovered, recovers, live, rebuilt⟩ := evaluated
  exact ⟨initial, final, recovered, started, finished, recovers, live, rebuilt⟩

end KafkaBroker
