import KafkaBroker.Broker
import KafkaBroker.RecoveryCore

/-!
The startup scan over a data directory that holds only topic logs: it does not
fail, every partition gets the payloads its log decodes to, every log is cut back
to what was decoded, and nothing else changes.
-/

namespace KafkaBroker

open ByteText Posix

def payloads (contents : Bytes) : List Bytes := (decodeLog contents).1.map Record.payload

def repaired (contents : Bytes) : Bytes := serializeAll (decodeLog contents).1

theorem decodeLog_repaired (contents : Bytes) : decodeLog (repaired contents) =
    ((decodeLog contents).1, (repaired contents).length) := by
  obtain ⟨_, _, _, _, fits⟩ := decodeLog_spec contents
  simpa [repaired] using decodeLog_serializeAll fits deserializeRecord_nil

@[simp] theorem payloads_repaired (contents : Bytes) :
    payloads (repaired contents) = payloads contents := by
  simp [payloads, decodeLog_repaired]

@[simp] theorem repaired_repaired (contents : Bytes) :
    repaired (repaired contents) = repaired contents := by
  rw [repaired, decodeLog_repaired, repaired]

/-- `after` is `before` with some logs cut back to their decodable prefix. -/
def MaybeRepaired (before after : FileSystem) : Prop :=
  ∀ path, after.find path = before.find path ∨
    ∃ contents, before.find path = some (.file contents) ∧
      after.find path = some (.file (repaired contents))

theorem MaybeRepaired.refl (disk : FileSystem) : MaybeRepaired disk disk :=
  fun _ => Or.inl rfl

theorem MaybeRepaired.trans {first second third : FileSystem}
    (left : MaybeRepaired first second) (right : MaybeRepaired second third) :
    MaybeRepaired first third := by
  intro path
  rcases left path with same | ⟨contents, before, after⟩
  · rcases right path with later | ⟨contents, before, after⟩
    · exact Or.inl (later.trans same)
    · exact Or.inr ⟨contents, same ▸ before, after⟩
  · rcases right path with later | ⟨again, middle, final⟩
    · exact Or.inr ⟨contents, before, later.trans after⟩
    · rw [after, Option.some.injEq, Node.file.injEq] at middle
      subst middle
      exact Or.inr ⟨contents, before, by simpa using final⟩

theorem MaybeRepaired.directory_iff {before after : FileSystem}
    (repairs : MaybeRepaired before after) (path : Path) :
    after.find path = some .directory ↔ before.find path = some .directory := by
  rcases repairs path with same | ⟨contents, old, new⟩
  · rw [same]
  · simp [old, new]

theorem MaybeRepaired.contents {before after : FileSystem}
    (repairs : MaybeRepaired before after) (path : Path) :
    contents? after path = contents? before path ∨
      contents? after path = (contents? before path).map repaired := by
  rcases repairs path with same | ⟨contents, old, new⟩
  · exact Or.inl (by rw [contents?, contents?, same])
  · exact Or.inr (by simp [contents?, old, new])

theorem MaybeRepaired.isDirectory {before after : FileSystem}
    (repairs : MaybeRepaired before after) (path : Path) :
    isDirectory after path = isDirectory before path := by
  simp [Posix.isDirectory, repairs.directory_iff]

theorem StoreLayout.maybeRepaired {base : Path} {before after : FileSystem}
    (layout : StoreLayout base before) (repairs : MaybeRepaired before after) :
    StoreLayout base after := by
  have back {path : Path} {node : Node} (found : after.find path = some node) :
      ∃ old, before.find path = some old ∧ (node = .directory ↔ old = .directory) := by
    rcases repairs path with same | ⟨contents, old, new⟩
    · exact ⟨node, same ▸ found, Iff.rfl⟩
    · rw [new, Option.some.injEq] at found
      exact ⟨_, old, by simp [← found]⟩
  refine ⟨?_, ?_, ?_, ?_, ?_⟩
  · intro path way
    rcases repairs path with same | ⟨contents, old, _⟩
    · rw [same]
      exact layout.free path way
    · rcases layout.free path way with absent | present
      · simp [old] at absent
      · simp [old] at present
  · intro name node found
    obtain ⟨old, before, same⟩ := back found
    obtain ⟨valid, isDir⟩ := layout.topics name old before
    exact ⟨valid, same.mpr isDir⟩
  · intro topic name node found
    obtain ⟨old, before, same⟩ := back found
    obtain ⟨partition, contents, range, named, isFile⟩ := layout.files topic name old before
    cases node with
    | directory => simp [isFile] at same
    | file contents => exact ⟨partition, contents, range, named, rfl⟩
  · intro topic name node found
    obtain ⟨old, before, _⟩ := back found
    exact (repairs.directory_iff _).mpr (layout.parents topic name old before)
  · intro name node found
    obtain ⟨old, before, _⟩ := back found
    rw [repairs.isDirectory]
    exact layout.rooted name old before

theorem MaybeRepaired.contents_isSome {before after : FileSystem}
    (repairs : MaybeRepaired before after) (path : Path) :
    (contents? after path).isSome = (contents? before path).isSome := by
  rcases repairs.contents path with same | cut
  · rw [same]
  · rw [cut, Option.isSome_map]

theorem map_repaired_twice (contents : Option Bytes) :
    (contents.map repaired).map repaired = contents.map repaired := by
  cases contents <;> simp

theorem MaybeRepaired.after_cut {before middle after : FileSystem} {path : Path}
    (repairs : MaybeRepaired middle after)
    (cut : contents? middle path = (contents? before path).map repaired) :
    contents? after path = (contents? before path).map repaired := by
  rcases repairs.contents path with same | again
  · rw [same, cut]
  · rw [again, cut, map_repaired_twice]

theorem MaybeRepaired.before_cut {before middle after : FileSystem} {path : Path}
    (repairs : MaybeRepaired before middle)
    (cut : contents? after path = (contents? middle path).map repaired) :
    contents? after path = (contents? before path).map repaired := by
  rcases repairs.contents path with same | again
  · rw [cut, same]
  · rw [cut, again, map_repaired_twice]

/-! Reading one log. -/

theorem readAll_spec {log : TopicLog} {disk : FileSystem} {contents : Bytes}
    (present : contents? disk (resolve log.logPath) = some contents) :
    (log.readAll disk).1 = (decodeLog contents).1 ∧
      MaybeRepaired disk (log.readAll disk).2 ∧
      contents? (log.readAll disk).2 (resolve log.logPath) = some (repaired contents) := by
  obtain ⟨torn, split, stop, _, _⟩ := decodeLog_spec contents
  have found := contents?_eq_some_iff.mp present
  have cut : contents.take (decodeLog contents).2 = repaired contents := by
    rw [stop]
    exact (congrArg (List.take _) split).trans (List.take_left' rfl)
  unfold TopicLog.readAll
  simp only [present]
  change (decodeLog contents).1 = (decodeLog contents).1 ∧
    MaybeRepaired disk (if (decodeLog contents).2 < contents.length then _ else disk) ∧
    contents? (if (decodeLog contents).2 < contents.length then _ else disk) _ = _
  refine ⟨rfl, ?_⟩
  split
  · change MaybeRepaired disk (resizeFile disk _ (decodeLog contents).2) ∧
      contents? (resizeFile disk _ (decodeLog contents).2) _ = _
    simp only [resizeFile, found, cut]
    refine ⟨?_, by simp [contents?_set]⟩
    intro path
    by_cases here : path = resolve log.logPath
    · right
      subst here
      exact ⟨contents, found, by simp⟩
    · left
      simp [here]
  · rename_i whole
    have same : repaired contents = contents := by
      rw [← cut, List.take_of_length_le (by omega)]
    exact ⟨MaybeRepaired.refl disk, by rw [present, same]⟩

theorem readAll_log (log : TopicLog) (disk : FileSystem) :
    (log.readAll disk).1.map Record.payload =
        payloads ((contents? disk (resolve log.logPath)).getD []) ∧
      MaybeRepaired disk (log.readAll disk).2 := by
  cases present : contents? disk (resolve log.logPath) with
  | none =>
      have nothing : log.readAll disk = ([], disk) := by
        rw [TopicLog.readAll, present]
      rw [nothing]
      exact ⟨rfl, MaybeRepaired.refl disk⟩
  | some contents =>
      obtain ⟨decoded, repairs, _⟩ := readAll_spec present
      exact ⟨by rw [decoded, Option.getD_some, payloads], repairs⟩

/-! One step of the scan, whatever the names. -/

theorem loadPartition_repairs (role : BrokerRole) (dataDir : Bytes) (scan : TopicScan)
    (partition : Nat) :
    MaybeRepaired scan.disk (loadPartition role dataDir scan partition).disk := by
  simp only [loadPartition]
  split
  · exact MaybeRepaired.refl _
  · exact (readAll_log _ _).2

theorem scanFile_cases {role : BrokerRole} {dataDir : Bytes} {scan next : TopicScan}
    {file : Bytes × Node} (scanned : scanFile role dataDir scan file = .ok next) :
    partitionText file.1 file.2 = none ∧ next = scan ∨
      ∃ (text : Bytes) (partition position : Nat), partitionText file.1 file.2 = some text ∧
        stoi text = some ((partition : Int), position) ∧ partition + 1 < 2 ^ 31 ∧
        unreadableLog dataDir scan partition = false ∧
        next = loadPartition role dataDir scan partition := by
  unfold scanFile at scanned
  split at scanned
  · exact Or.inl ⟨‹_›, (Except.ok.inj scanned).symm⟩
  · rename_i text named
    split at scanned
    · cases scanned
    · rename_i number position parsed
      split at scanned
      · cases scanned
      · rename_i nonneg
        obtain ⟨partition, rfl⟩ := Int.eq_ofNat_of_zero_le (not_lt.mp nonneg)
        split at scanned
        · cases scanned
        · rename_i small
          split at scanned
          · cases scanned
          · rename_i readable
            exact Or.inr ⟨text, partition, position, named, parsed, by omega,
              Bool.eq_false_iff.mpr readable, (Except.ok.inj scanned).symm⟩

theorem scanTopic_cases {role : BrokerRole} {dataDir : Bytes} {scan next : StoreScan}
    {entry : Bytes × Node} (scanned : scanTopic role dataDir scan entry = .ok next) :
    next = scan ∨ ∃ final, scanFiles role dataDir
        ⟨Topic.create entry.1, false, scan.progress, scan.disk⟩
        (children scan.disk (resolve dataDir ++ [entry.1])) = .ok final ∧
      next = ⟨if final.foundAnyPartition then scan.topics.set entry.1 final.topic
        else scan.topics, final.progress, final.disk⟩ := by
  unfold scanTopic at scanned
  split at scanned
  · exact Or.inl (Except.ok.inj scanned).symm
  · simp only at scanned
    split at scanned
    · cases scanned
    · exact Or.inr ⟨_, ‹_›, (Except.ok.inj scanned).symm⟩

/-! One topic directory. -/

/-- The bytes of a partition's log; an absent log is an empty one. -/
def logBytes (base : Path) (disk : FileSystem) (topic : Bytes) (partition : Int) : Bytes :=
  (contents? disk (logFile base topic partition)).getD []

@[simp] theorem payloads_nil : payloads [] = [] := by
  rfl

theorem MaybeRepaired.payloads_logBytes {before after : FileSystem}
    (repairs : MaybeRepaired before after) (base : Path) (topic : Bytes) (partition : Int) :
    payloads (logBytes base after topic partition) =
      payloads (logBytes base before topic partition) := by
  rcases repairs.contents (logFile base topic partition) with same | cut
  · rw [logBytes, logBytes, same]
  · rw [logBytes, logBytes, cut]
    cases contents? before (logFile base topic partition) <;> simp

theorem splitExtension_append {stem extension : Bytes} (nonempty : stem ≠ [])
    (noDot : dot ∉ extension) : splitExtension (stem ++ dot :: extension) =
      (stem, dot :: extension) := by
  have suffix : ((stem ++ dot :: extension).reverse.takeWhile fun byte => byte ≠ dot) =
      extension.reverse := by
    rw [List.reverse_append, List.reverse_cons, List.append_assoc,
      List.takeWhile_append_of_pos (by
        intro byte member
        simpa using fun same : byte = dot => noDot (same ▸ List.mem_reverse.mp member))]
    simp
  have positive := List.length_pos_iff.mpr nonempty
  have start : (stem ++ dot :: extension).length - extension.length - 1 = stem.length := by
    simp only [List.length_append, List.length_cons]
    omega
  simp only [splitExtension, suffix, List.length_reverse]
  rw [if_pos (by simp only [List.length_append, List.length_cons]; omega), start,
    List.take_left, List.drop_left]

theorem partitionText_partitionFile (partition : Nat) (contents : Bytes) :
    partitionText (partitionFile partition) (.file contents) = some (decimal partition) := by
  have split : splitExtension (partitionFile partition) =
      (partitionStem ++ decimal partition, ascii ".log") := by
    rw [partitionFile, decimalInt_natCast]
    exact splitExtension_append (by simp [decimal_ne_nil]) (by decide)
  have stem : partitionStem.isPrefixOf (partitionStem ++ decimal partition) = true :=
    List.isPrefixOf_iff_prefix.mpr (List.prefix_append _ _)
  simp only [partitionText, split, stem, and_self, if_true, List.drop_left]

section Scan

variable {role : BrokerRole} {dataDir : Bytes}

/-- What reading the logs named in `names` adds to a scan of topic `name`. -/
structure Scanned (role : BrokerRole) (dataDir name : Bytes) (names : List Bytes)
    (before after : TopicScan) : Prop where
  named : after.topic.name = name
  regular : after.topic.Regular
  messages : ∀ partition, InRange partition → after.topic.messages partition =
    before.topic.messages partition ++
      if partitionFile partition ∈ names
      then payloads (logBytes (resolve dataDir) before.disk name partition) else []
  found : after.foundAnyPartition = (before.foundAnyPartition || names ≠ [])
  progress : ∀ topic partition, InRange partition →
    after.progress.find ⟨topic, partition⟩ =
      if topic = name ∧ role = .follower ∧ partitionFile partition ∈ names ∧
        payloads (logBytes (resolve dataDir) before.disk name partition) ≠ []
      then some ((payloads (logBytes (resolve dataDir) before.disk name partition)).length - 1)
      else before.progress.find ⟨topic, partition⟩
  repairs : MaybeRepaired before.disk after.disk
  cut : ∀ partition, InRange partition → partitionFile partition ∈ names →
    contents? after.disk (logFile (resolve dataDir) name partition) =
      (contents? before.disk (logFile (resolve dataDir) name partition)).map repaired

theorem Scanned.refl {name : Bytes} {scan : TopicScan} (named : scan.topic.name = name)
    (regular : scan.topic.Regular) : Scanned role dataDir name [] scan scan :=
  ⟨named, regular, by simp, by simp, by simp, MaybeRepaired.refl _, by simp⟩

theorem Scanned.cons {name file : Bytes} {names : List Bytes} {before middle after : TopicScan}
    (fresh : file ∉ names) (head : Scanned role dataDir name [file] before middle)
    (tail : Scanned role dataDir name names middle after) :
    Scanned role dataDir name (file :: names) before after := by
  have stable (partition : Int) := head.repairs.payloads_logBytes (resolve dataDir) name partition
  refine ⟨tail.named, tail.regular, ?_, ?_, ?_, head.repairs.trans tail.repairs, ?_⟩
  · intro partition range
    rw [tail.messages partition range, head.messages partition range, stable]
    by_cases here : partitionFile partition = file
    · simp [here, fresh]
    · simp [here]
  · simp [tail.found, head.found]
  · intro topic partition range
    rw [tail.progress topic partition range, head.progress topic partition range, stable]
    by_cases here : partitionFile partition = file
    · simp [here, fresh]
    · simp [here]
  · intro partition range member
    rcases List.mem_cons.mp member with here | there
    · exact tail.repairs.after_cut (head.cut partition range (by simp [here]))
    · exact head.repairs.before_cut (tail.cut partition range there)

variable (role : BrokerRole) (noNul : 0 ∉ dataDir)

include noNul

theorem create_logFile {name : Bytes} (valid : ValidName name) (partition : Nat) :
    ∃ log, TopicLog.create name partition dataDir = some log ∧
      resolve log.logPath = logFile (resolve dataDir) name partition := by
  refine ⟨⟨name, partition, dataDir, valid.1, Int.natCast_nonneg _⟩, ?_,
    resolve_logPath _ noNul valid⟩
  simp [TopicLog.create, valid.1]

theorem unreadableLog_iff {scan : TopicScan} (valid : ValidName scan.topic.name)
    (partition : Nat) : unreadableLog dataDir scan partition = true ↔
      scan.disk.find (logFile (resolve dataDir) scan.topic.name partition) = some .directory := by
  obtain ⟨log, created, path⟩ := create_logFile noNul valid partition
  simp only [unreadableLog, created, path, decide_eq_true_eq]

theorem scanFile_loads {scan : TopicScan} (valid : ValidName scan.topic.name)
    {file : Bytes × Node} {text : Bytes} (named : partitionText file.1 file.2 = some text)
    {partition position : Nat} (parsed : stoi text = some ((partition : Int), position))
    (small : partition + 1 < 2 ^ 31)
    (readable : scan.disk.find (logFile (resolve dataDir) scan.topic.name partition) ≠
      some .directory) :
    scanFile role dataDir scan file = .ok (loadPartition role dataDir scan partition) := by
  have isOpen : unreadableLog dataDir scan partition = false := by
    rw [← Bool.not_eq_true, unreadableLog_iff noNul valid]
    exact readable
  simp only [scanFile, named, parsed, show ¬(partition : Int) < 0 by omega,
    show ¬(partition : Int) + 1 ≥ 2 ^ 31 by omega, if_false, Int.toNat_natCast, isOpen,
    Bool.false_eq_true]

theorem loadPartition_spec {name : Bytes} (valid : ValidName name) {scan : TopicScan}
    (named : scan.topic.name = name) (regular : scan.topic.Regular) {partition : Nat}
    (range : InRange partition) {contents : Bytes}
    (present : contents? scan.disk (logFile (resolve dataDir) name partition) = some contents) :
    Scanned role dataDir name [partitionFile partition] scan
      (loadPartition role dataDir scan partition) := by
  obtain ⟨log, created, path⟩ := create_logFile noNul valid partition
  rw [← named] at created
  have bytes : logBytes (resolve dataDir) scan.disk name partition = contents := by
    simp [logBytes, present]
  obtain ⟨decoded, repairs, cut⟩ := readAll_spec (path ▸ present)
  rw [path] at cut
  have present' := (regular.hasPartition partition).mpr range
  have grown : growPartitions scan.topic.partitions partition = scan.topic.partitions := by
    rw [hasPartition_iff] at present'
    exact if_neg (by omega)
  have read : (log.readAll scan.disk).1.map Record.payload = payloads contents := by
    rw [decoded, payloads]
  have only (query : Int) (queried : InRange query) :
      partitionFile query ∈ [partitionFile (partition : Int)] ↔ query = partition := by
    rw [List.mem_singleton]
    exact ⟨partitionFile_injective queried.1 range.1, fun same => same ▸ rfl⟩
  simp only [loadPartition, created, read, grown]
  refine ⟨named, ?_, ?_, by simp, ?_, repairs, ?_⟩
  · have kept : (scan.topic.partitions.modify partition fun stored =>
        { id := partition, messages := stored.messages ++ payloads contents }).map Partition.id =
          scan.topic.partitions.map Partition.id := by
      apply map_id_modify
      intro stored found
      have ids := congrArg (fun ids => ids[partition]?) regular
      have bound := range.2
      simp only [List.getElem?_map, found, Option.map_some] at ids
      rw [List.getElem?_range (by omega)] at ids
      simpa using ids.symm
    exact kept.trans regular
  · intro query queried
    have modified := messages_modify scan.topic present'
      (fun stored => { id := partition, messages := stored.messages ++ payloads contents })
      (payloads contents) (fun _ => rfl) query
    rw [Int.toNat_natCast] at modified
    rw [modified]
    simp only [only query queried]
    split
    · rename_i same
      rw [same, bytes]
    · simp
  · intro topic query queried
    simp only [only query queried]
    by_cases here : topic = name ∧ query = partition
    · obtain ⟨rfl, rfl⟩ := here
      rw [bytes]
      by_cases stored : role = .follower ∧ payloads contents ≠ []
      · simp [stored, named]
      · rw [if_neg stored, if_neg (by tauto)]
    · have elsewhere : (⟨topic, query⟩ : TopicPartition) ≠ ⟨scan.topic.name, partition⟩ := by
        rw [named]
        rintro ⟨⟩
        exact here ⟨rfl, rfl⟩
      have unset : ¬(topic = name ∧ role = .follower ∧ query = partition ∧
          payloads (logBytes (resolve dataDir) scan.disk name query) ≠ []) := by
        tauto
      rw [if_neg unset]
      split
      · rw [Table.find_set, if_neg elsewhere]
      · rfl
  · intro query queried member
    rw [only query queried] at member
    rw [member, cut, present]
    rfl

theorem scanFile_spec {name : Bytes} (valid : ValidName name) {scan : TopicScan}
    (named : scan.topic.name = name) (regular : scan.topic.Regular) {partition : Int}
    (range : InRange partition) (node : Bytes)
    (present : (contents? scan.disk (logFile (resolve dataDir) name partition)).isSome) :
    ∃ next, scanFile role dataDir scan (partitionFile partition, .file node) = .ok next ∧
      Scanned role dataDir name [partitionFile partition] scan next := by
  obtain ⟨contents, present⟩ := Option.isSome_iff_exists.mp present
  obtain ⟨index, rfl⟩ := Int.eq_ofNat_of_zero_le range.1
  have small : index + 1 < 2 ^ 31 := by
    have upper := range.2
    simp only [kDefaultPartitionCount] at upper
    omega
  refine ⟨loadPartition role dataDir scan index, ?_,
    loadPartition_spec role noNul valid named regular range present⟩
  apply scanFile_loads role noNul (named ▸ valid) (partitionText_partitionFile index node)
    (stoi_decimal (by omega)) small
  rw [named, contents?_eq_some_iff.mp present]
  simp

theorem scanFiles_spec {name : Bytes} (valid : ValidName name) :
    ∀ {files : List (Bytes × Node)} (scan : TopicScan), scan.topic.name = name →
      scan.topic.Regular → (files.map Prod.fst).Nodup →
      (∀ file ∈ files, ∃ partition contents, InRange partition ∧
        file = (partitionFile partition, .file contents) ∧
        (contents? scan.disk (logFile (resolve dataDir) name partition)).isSome) →
      ∃ next, scanFiles role dataDir scan files = .ok next ∧
        Scanned role dataDir name (files.map Prod.fst) scan next := by
  intro files
  induction files with
  | nil =>
      intro scan named regular _ _
      exact ⟨scan, rfl, Scanned.refl named regular⟩
  | cons file rest ih =>
      intro scan named regular distinct logs
      rw [List.map_cons, List.nodup_cons] at distinct
      obtain ⟨partition, contents, range, rfl, present⟩ := logs file (by simp)
      obtain ⟨middle, scanned, head⟩ :=
        scanFile_spec role noNul valid named regular range contents present
      obtain ⟨final, finished, tail⟩ := ih middle head.named head.regular distinct.2 (by
        intro other member
        obtain ⟨queried, stored, queryRange, named, found⟩ := logs other (by simp [member])
        exact ⟨queried, stored, queryRange, named, by rw [head.repairs.contents_isSome, found]⟩)
      refine ⟨final, ?_, head.cons distinct.1 tail⟩
      simp only [scanFiles, scanned, finished]

end Scan

/-! The data directory. -/

def HasLog (base : Path) (disk : FileSystem) (topic : Bytes) : Prop :=
  ∃ partition, InRange partition ∧ (contents? disk (logFile base topic partition)).isSome

structure Topic.Holds (topic : Topic) (base : Path) (disk : FileSystem) (name : Bytes) : Prop where
  regular : topic.Regular
  messages : ∀ partition, InRange partition →
    topic.messages partition = payloads (logBytes base disk name partition)

structure StoreScanned (role : BrokerRole) (base : Path) (names : List Bytes)
    (before after : StoreScan) : Prop where
  loaded : ∀ name ∈ names, HasLog base before.disk name →
    ∃ topic, after.topics.find name = some topic ∧ topic.Holds base before.disk name
  others : ∀ name, ¬(name ∈ names ∧ HasLog base before.disk name) →
    after.topics.find name = before.topics.find name
  progress : ∀ name partition, InRange partition → after.progress.find ⟨name, partition⟩ =
    if name ∈ names ∧ role = .follower ∧ payloads (logBytes base before.disk name partition) ≠ []
    then some ((payloads (logBytes base before.disk name partition)).length - 1)
    else before.progress.find ⟨name, partition⟩
  repairs : MaybeRepaired before.disk after.disk
  cut : ∀ name ∈ names, ∀ partition, InRange partition →
    contents? after.disk (logFile base name partition) =
      (contents? before.disk (logFile base name partition)).map repaired

theorem MaybeRepaired.hasLog {before after : FileSystem} (repairs : MaybeRepaired before after)
    (base : Path) (topic : Bytes) : HasLog base after topic ↔ HasLog base before topic := by
  simp only [HasLog, repairs.contents_isSome]

theorem MaybeRepaired.holds {before after : FileSystem} (repairs : MaybeRepaired before after)
    {topic : Topic} {base : Path} {name : Bytes} (holds : topic.Holds base after name) :
    topic.Holds base before name :=
  ⟨holds.regular, fun partition range => by
    rw [holds.messages partition range, repairs.payloads_logBytes]⟩

section Listing

variable {base : Path} {disk : FileSystem} (layout : StoreLayout base disk) (name : Bytes)

include layout

theorem StoreLayout.listed (partition : Int) :
    partitionFile partition ∈ (children disk (base ++ [name])).map Prod.fst ↔
      (contents? disk (logFile base name partition)).isSome := by
  simp only [List.mem_map, Prod.exists, exists_and_right, exists_eq_right, mem_children_iff,
    List.append_assoc, List.singleton_append, Option.isSome_iff_exists, contents?_eq_some_iff]
  constructor
  · rintro ⟨node, found⟩
    obtain ⟨_, contents, _, _, rfl⟩ := layout.files name _ node found
    exact ⟨contents, found⟩
  · rintro ⟨contents, found⟩
    exact ⟨_, found⟩

theorem StoreLayout.listedLogs : ∀ file ∈ children disk (base ++ [name]),
    ∃ partition contents, InRange partition ∧ file = (partitionFile partition, .file contents) ∧
      (contents? disk (logFile base name partition)).isSome := by
  rintro ⟨file, node⟩ member
  rw [mem_children_iff, List.append_assoc] at member
  obtain ⟨partition, contents, range, rfl, rfl⟩ := layout.files name file node member
  have found := contents?_eq_some_iff.mpr member
  exact ⟨partition, contents, range, rfl, Option.isSome_iff_exists.mpr ⟨contents, found⟩⟩

theorem StoreLayout.listed_ne_nil_iff :
    (children disk (base ++ [name])).map Prod.fst ≠ [] ↔ HasLog base disk name := by
  constructor
  · intro nonempty
    obtain ⟨file, member⟩ := List.exists_mem_of_ne_nil _ nonempty
    obtain ⟨⟨_, node⟩, inside, rfl⟩ := List.mem_map.mp member
    obtain ⟨partition, _, range, _, found⟩ := layout.listedLogs name _ inside
    exact ⟨partition, range, found⟩
  · rintro ⟨partition, _, found⟩
    exact List.ne_nil_of_mem ((layout.listed name partition).mpr found)

end Listing

theorem payloads_absent {base : Path} {disk : FileSystem} {name : Bytes} {partition : Int}
    (absent : ¬(contents? disk (logFile base name partition)).isSome) :
    payloads (logBytes base disk name partition) = [] := by
  rw [Option.not_isSome_iff_eq_none] at absent
  simp [logBytes, absent]

theorem scanTopic_spec (role : BrokerRole) {dataDir : Bytes} (noNul : 0 ∉ dataDir)
    {scan : StoreScan} (layout : StoreLayout (resolve dataDir) scan.disk) {name : Bytes}
    (present : scan.disk.find (resolve dataDir ++ [name]) = some .directory) :
    ∃ next, scanTopic role dataDir scan (name, .directory) = .ok next ∧
      StoreScanned role (resolve dataDir) [name] scan next := by
  obtain ⟨valid, _⟩ := layout.topics name _ present
  obtain ⟨scanned, finished, result⟩ := scanFiles_spec role noNul valid
    ⟨Topic.create name, false, scan.progress, scan.disk⟩ rfl (create_regular name)
    (children_names_nodup scan.disk (resolve dataDir ++ [name])) (layout.listedLogs name)
  have holds : scanned.topic.Holds (resolve dataDir) scan.disk name := by
    refine ⟨result.regular, ?_⟩
    intro partition range
    rw [result.messages partition range]
    simp only [create_messages, List.nil_append, layout.listed]
    split
    · rfl
    · rename_i absent
      rw [payloads_absent absent]
  have found : scanned.foundAnyPartition = true ↔ HasLog (resolve dataDir) scan.disk name := by
    rw [result.found, ← layout.listed_ne_nil_iff]
    simp
  refine ⟨⟨if scanned.foundAnyPartition then scan.topics.set name scanned.topic else scan.topics,
    scanned.progress, scanned.disk⟩, ?_, ?_, ?_, ?_, result.repairs, ?_⟩
  · simp only [scanTopic, finished, valid.1, ne_eq, not_true_eq_false, or_self, if_false]
  · intro other member logged
    rw [List.mem_singleton] at member
    subst member
    exact ⟨scanned.topic, by simp [found.mpr logged], holds⟩
  · intro other untouched
    split
    · rename_i logged
      have different : other ≠ name := by
        rintro rfl
        exact untouched ⟨by simp, found.mp logged⟩
      simp [different]
    · rfl
  · intro other partition range
    rw [result.progress other partition range]
    simp only [layout.listed, List.mem_singleton]
    by_cases same : other = name
    · subst same
      by_cases logged : (contents? scan.disk (logFile (resolve dataDir) other partition)).isSome
      · simp [logged]
      · simp [payloads_absent logged]
    · simp [same]
  · intro other member partition range
    rw [List.mem_singleton] at member
    subst member
    by_cases logged : (contents? scan.disk (logFile (resolve dataDir) other partition)).isSome
    · exact result.cut partition range ((layout.listed other partition).mpr logged)
    · have kept := result.repairs.contents_isSome (logFile (resolve dataDir) other partition)
      rw [Option.not_isSome_iff_eq_none] at logged
      simp only [logged, Option.isSome_none, Option.isSome_eq_false_iff,
        Option.isNone_iff_eq_none] at kept
      simp only [logged, kept, Option.map_none]

theorem StoreScanned.cons {role : BrokerRole} {base : Path} {name : Bytes} {names : List Bytes}
    {before middle after : StoreScan} (fresh : name ∉ names)
    (head : StoreScanned role base [name] before middle)
    (tail : StoreScanned role base names middle after) :
    StoreScanned role base (name :: names) before after := by
  have stable := head.repairs.payloads_logBytes base
  refine ⟨?_, ?_, ?_, head.repairs.trans tail.repairs, ?_⟩
  · intro query member logged
    rcases List.mem_cons.mp member with rfl | member
    · rw [tail.others query fun both => fresh both.1]
      exact head.loaded query (by simp) logged
    · obtain ⟨topic, found, holds⟩ :=
        tail.loaded query member ((head.repairs.hasLog base query).mpr logged)
      exact ⟨topic, found, head.repairs.holds holds⟩
  · intro query untouched
    have later : ¬(query ∈ names ∧ HasLog base middle.disk query) := by
      rintro ⟨member, logged⟩
      exact untouched ⟨by simp [member], (head.repairs.hasLog base query).mp logged⟩
    have earlier : ¬(query ∈ [name] ∧ HasLog base before.disk query) := by
      rintro ⟨member, logged⟩
      exact untouched ⟨by simp [List.mem_singleton.mp member], logged⟩
    rw [tail.others query later, head.others query earlier]
  · intro query partition range
    rw [tail.progress query partition range, head.progress query partition range, stable]
    by_cases here : query = name
    · simp [here, fresh]
    · simp [here]
  · intro query member partition range
    rcases List.mem_cons.mp member with rfl | member
    · exact tail.repairs.after_cut (head.cut query (by simp) partition range)
    · exact head.repairs.before_cut (tail.cut query member partition range)

theorem scanTopics_spec (role : BrokerRole) {dataDir : Bytes} (noNul : 0 ∉ dataDir) :
    ∀ {entries : List (Bytes × Node)} (scan : StoreScan),
      StoreLayout (resolve dataDir) scan.disk → (entries.map Prod.fst).Nodup →
      (∀ entry ∈ entries, entry.2 = .directory ∧
        scan.disk.find (resolve dataDir ++ [entry.1]) = some .directory) →
      ∃ next, scanTopics role dataDir scan entries = .ok next ∧
        StoreScanned role (resolve dataDir) (entries.map Prod.fst) scan next := by
  intro entries
  induction entries with
  | nil =>
      intro scan _ _ _
      exact ⟨scan, rfl, by simp, by simp, by simp, MaybeRepaired.refl _, by simp⟩
  | cons entry rest ih =>
      intro scan layout distinct directories
      rw [List.map_cons, List.nodup_cons] at distinct
      obtain ⟨name, node⟩ := entry
      obtain ⟨rfl, present⟩ := directories (name, node) (by simp)
      obtain ⟨middle, scanned, head⟩ := scanTopic_spec role noNul layout present
      obtain ⟨final, finished, tail⟩ := ih middle (layout.maybeRepaired head.repairs) distinct.2 (by
        intro other member
        obtain ⟨isDir, found⟩ := directories other (by simp [member])
        exact ⟨isDir, (head.repairs.directory_iff _).mpr found⟩)
      refine ⟨final, ?_, head.cons distinct.1 tail⟩
      simp only [scanTopics, scanned, finished]

/-! The process start. -/

structure Recovered (role : BrokerRole) (followerPort : Int) (dataDir : Bytes)
    (before : FileSystem) (broker : Broker) (after : FileSystem) : Prop where
  role_eq : broker.role = role
  port_eq : broker.followerPort = followerPort
  dir_eq : broker.dataDir = dataDir
  groups : broker.consumerGroups = ∅
  layout : StoreLayout (resolve dataDir) after
  regular : ∀ name topic, broker.topics.find name = some topic → topic.Regular
  stored : ∀ name, (broker.topics.find name).isSome ↔ HasLog (resolve dataDir) before name
  messages : ∀ name partition, InRange partition → broker.messages name partition =
    payloads (logBytes (resolve dataDir) before name partition)
  progress : ∀ name partition, InRange partition →
    getReplicationProgress broker name partition =
      if role = .follower ∧ broker.messages name partition ≠ []
      then some ((broker.messages name partition).length - 1) else none
  cut : ∀ name partition, InRange partition →
    contents? after (logFile (resolve dataDir) name partition) =
      (contents? before (logFile (resolve dataDir) name partition)).map repaired

theorem StoreLayout.contents_unlisted {base : Path} {disk : FileSystem}
    (layout : StoreLayout base disk) {name : Bytes}
    (unlisted : name ∉ (children disk base).map Prod.fst) (partition : Int) :
    contents? disk (logFile base name partition) = none := by
  cases found : contents? disk (logFile base name partition) with
  | none => rfl
  | some contents =>
      have parent := layout.parents name _ _ (contents?_eq_some_iff.mp found)
      rw [← mem_children_iff] at parent
      exact absurd (List.mem_map_of_mem parent) unlisted

theorem StoreScanned.recovered {role : BrokerRole} {dataDir : Bytes} {disk : FileSystem}
    {scanned : StoreScan} (followerPort : Int) (layout : StoreLayout (resolve dataDir) disk)
    (result : StoreScanned role (resolve dataDir) ((children disk (resolve dataDir)).map Prod.fst)
      ⟨∅, ∅, disk⟩ scanned) :
    Recovered role followerPort dataDir disk
      { Broker.configure {} role followerPort with
        dataDir
        topics := scanned.topics
        replicationProgress := scanned.progress } scanned.disk := by
  have listed {name : Bytes} (logged : HasLog (resolve dataDir) disk name) :
      name ∈ (children disk (resolve dataDir)).map Prod.fst := by
    obtain ⟨partition, _, found⟩ := logged
    by_contra unlisted
    simp [layout.contents_unlisted unlisted partition] at found
  have loaded {name : Bytes} (logged : HasLog (resolve dataDir) disk name) :=
    result.loaded name (listed logged) logged
  have missing {name : Bytes} (unlogged : ¬HasLog (resolve dataDir) disk name) :
      scanned.topics.find name = none := by
    rw [result.others name fun both => unlogged both.2]
    rfl
  have messages (name : Bytes) (partition : Int) (range : InRange partition) :
      Broker.messages { Broker.configure {} role followerPort with
        dataDir
        topics := scanned.topics
        replicationProgress := scanned.progress } name partition =
        payloads (logBytes (resolve dataDir) disk name partition) := by
    by_cases logged : HasLog (resolve dataDir) disk name
    · obtain ⟨topic, found, holds⟩ := loaded logged
      simp only [Broker.messages, found, holds.messages partition range]
    · rw [payloads_absent fun present => logged ⟨partition, range, present⟩]
      simp only [Broker.messages, missing logged]
  refine ⟨rfl, rfl, rfl, rfl, layout.maybeRepaired result.repairs, ?_, ?_, messages, ?_, ?_⟩
  · intro name topic found
    by_cases logged : HasLog (resolve dataDir) disk name
    · obtain ⟨stored, same, holds⟩ := loaded logged
      rw [same, Option.some.injEq] at found
      exact found ▸ holds.regular
    · simp [missing logged] at found
  · intro name
    by_cases logged : HasLog (resolve dataDir) disk name
    · obtain ⟨stored, same, _⟩ := loaded logged
      simp [same, logged]
    · simp [missing logged, logged]
  · intro name partition range
    rw [messages name partition range, getReplicationProgress, result.progress _ _ range]
    by_cases member : name ∈ (children disk (resolve dataDir)).map Prod.fst
    · simp only [member, true_and]
      rfl
    · simp [member, logBytes, layout.contents_unlisted member]
  · intro name partition range
    by_cases member : name ∈ (children disk (resolve dataDir)).map Prod.fst
    · exact result.cut name member partition range
    · have kept := result.repairs.contents (logFile (resolve dataDir) name partition)
      simpa [layout.contents_unlisted member] using kept

theorem startBroker_spec (role : BrokerRole) (followerPort : Int) {dataDir : Bytes}
    (noNul : 0 ∉ dataDir) (named : dataDir ≠ []) {disk : FileSystem}
    (layout : StoreLayout (resolve dataDir) disk) :
    ∃ broker after, startBroker role followerPort dataDir disk = .ok (broker, after) ∧
      Recovered role followerPort dataDir disk broker after := by
  unfold startBroker Broker.recoverFromDisk
  rw [namesDirectory_eq noNul named]
  by_cases exist : isDirectory disk (resolve dataDir) = true
  · obtain ⟨scanned, finished, result⟩ := scanTopics_spec role noNul ⟨∅, ∅, disk⟩ layout
      (children_names_nodup disk (resolve dataDir)) (by
        rintro ⟨name, node⟩ member
        rw [mem_children_iff] at member
        obtain ⟨_, isDir⟩ := layout.topics name node member
        exact ⟨isDir, isDir ▸ member⟩)
    refine ⟨_, scanned.disk, ?_, result.recovered followerPort layout⟩
    simp only [exist, Bool.not_true, Bool.false_eq_true, if_false]
    simp only [Broker.configure, finished]
  · have absent (name : Bytes) (partition : Int) :
        contents? disk (logFile (resolve dataDir) name partition) = none := by
      apply layout.contents_unlisted
      intro listed
      obtain ⟨⟨_, node⟩, member, rfl⟩ := List.mem_map.mp listed
      rw [mem_children_iff] at member
      exact exist (layout.rooted _ node member)
    simp only [exist, Bool.not_false, if_true]
    refine ⟨_, _, rfl, rfl, rfl, rfl, rfl, layout, ?_, ?_, ?_, ?_, ?_⟩
    · simp [Broker.configure]
    · simp [Broker.configure, HasLog, absent]
    · simp [Broker.configure, Broker.messages, logBytes, absent]
    · simp [Broker.configure, Broker.messages, getReplicationProgress]
    · simp [absent]

end KafkaBroker
