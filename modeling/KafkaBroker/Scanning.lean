import KafkaBroker.Recovery

/-!
The startup scan over any data directory. It reads a log once for every name that `stoi`
makes into the log's number, and restores exactly the topics' own logs when no other name
does so.
-/

namespace KafkaBroker

open ByteText Posix

/-- The payloads of the file that is named `partition-<p>.log` for a number in the range of
`int`. -/
def ownPayloads (base : Path) (disk : FileSystem) (topic : Bytes) (partition : Nat) :
    Option (List Bytes) :=
  if partition < 2 ^ 31 then (contents? disk (logFile base topic partition)).map payloads
  else none

/-- A topic in memory that has its own logs and nothing else. -/
structure OwnTopic (base : Path) (disk : FileSystem) (name : Bytes) (topic : Topic) : Prop where
  present : ∃ partition, (ownPayloads base disk name partition).isSome
  logs : ∀ partition messages, ownPayloads base disk name partition = some messages →
    topic.partitions[partition]? = some ⟨partition, messages⟩
  others : ∀ partition stored, ownPayloads base disk name partition = none →
    topic.partitions[partition]? = some stored →
    stored = ⟨if partition < kDefaultPartitionCount then partition else -1, []⟩
  size : ∀ partition < topic.partitions.length, partition < kDefaultPartitionCount ∨
    ∃ last ≥ partition, (ownPayloads base disk name last).isSome

def Restored (base : Path) (disk : FileSystem) (name : Bytes) : Option Topic → Prop
  | none => ∀ partition, ownPayloads base disk name partition = none
  | some topic => OwnTopic base disk name topic

/-- The scan returns, and every topic directory with a log of its own has become a topic. -/
def RecoversOwnLogs (role : BrokerRole) (followerPort : Int) (dataDir : Bytes)
    (disk : FileSystem) : Prop :=
  ∃ broker after, startBroker role followerPort dataDir disk = .ok (broker, after) ∧
    ∀ name, Restored (resolve dataDir) disk name (broker.topics.find name)

/-- Reading this log once more changes nothing: it has no records, or it is absent and the
topic has its partition anyway. -/
def Harmless (base : Path) (disk : FileSystem) (topic : Bytes) (partition : Nat) : Prop :=
  ownPayloads base disk topic partition = some [] ∨
    partition < kDefaultPartitionCount ∧ disk.find (logFile base topic partition) = none ∧
      ∃ own, (ownPayloads base disk topic own).isSome

/-- Every file the scan looks at has a number in range, and is the log of that number or
harmless. -/
def CleanTopic (base : Path) (disk : FileSystem) (topic : Bytes) : Prop :=
  ∀ file node text, disk.find (base ++ [topic, file]) = some node →
    partitionText file node = some text →
    ∃ partition position : Nat, stoi text = some ((partition : Int), position) ∧
      partition + 1 < 2 ^ 31 ∧
      (file = partitionFile partition ∨ Harmless base disk topic partition)

/-! Reading one log. -/

section Load

variable {role : BrokerRole} {dataDir : Bytes} (noNul : 0 ∉ dataDir) {scan : TopicScan}
  (valid : ValidName scan.topic.name)

include noNul valid

theorem loadPartition_log (partition : Nat) :
    (loadPartition role dataDir scan partition).topic.partitions =
        (growPartitions scan.topic.partitions partition).modify partition (fun stored =>
          ⟨partition, stored.messages ++
            payloads (logBytes (resolve dataDir) scan.disk scan.topic.name partition)⟩) ∧
      MaybeRepaired scan.disk (loadPartition role dataDir scan partition).disk := by
  obtain ⟨log, created, path⟩ := create_logFile noNul valid partition
  obtain ⟨read, repairs⟩ := readAll_log log scan.disk
  rw [path] at read
  simp only [loadPartition, created, read]
  exact ⟨rfl, repairs⟩

end Load

/-! Loading a list of logs into a fresh topic. -/

theorem growPartitions_length (partitions : List Partition) (partition : Nat) :
    (growPartitions partitions partition).length = max partitions.length (partition + 1) := by
  unfold growPartitions
  split
  · rw [List.length_append, List.length_replicate]
    omega
  · omega

theorem growPartitions_get (partitions : List Partition) (partition query : Nat) :
    (growPartitions partitions partition)[query]? =
      if query < partitions.length then partitions[query]?
      else if query ≤ partition then some { id := -1 } else none := by
  unfold growPartitions
  by_cases inside : query < partitions.length
  · rw [if_pos inside]
    split
    · exact List.getElem?_append_left inside
    · rfl
  · rw [if_neg inside]
    split
    · rw [List.getElem?_append_right (by omega), List.getElem?_replicate]
      by_cases below : query ≤ partition
      · rw [if_pos below, if_pos (by omega)]
      · rw [if_neg below, if_neg (by omega)]
    · rw [if_neg (by omega), List.getElem?_eq_none (by omega)]

/-- What loading the logs of `ids` has made of a fresh topic. -/
structure Filled (base : Path) (disk : FileSystem) (name : Bytes) (ids : List Nat)
    (scan : TopicScan) : Prop where
  named : scan.topic.name = name
  repairs : MaybeRepaired disk scan.disk
  found : scan.foundAnyPartition = true ↔ ids ≠ []
  size : ∀ partition, partition < scan.topic.partitions.length ↔
    partition < kDefaultPartitionCount ∨ ∃ id ∈ ids, partition ≤ id
  stored : ∀ partition, partition < scan.topic.partitions.length →
    scan.topic.partitions[partition]? = some
      ⟨if partition < kDefaultPartitionCount ∨ partition ∈ ids then partition else -1,
        (List.replicate (ids.count partition)
          (payloads (logBytes base disk name partition))).flatten⟩

theorem create_filled (base : Path) (name : Bytes) (progress : Table TopicPartition Nat)
    (disk : FileSystem) : Filled base disk name [] ⟨Topic.create name, false, progress, disk⟩ := by
  have fresh : (Topic.create name).partitions = [⟨0, []⟩, ⟨1, []⟩, ⟨2, []⟩] := rfl
  refine ⟨rfl, MaybeRepaired.refl disk, by simp, by simp [fresh, kDefaultPartitionCount], ?_⟩
  intro partition bound
  rw [fresh] at bound ⊢
  have cases : partition = 0 ∨ partition = 1 ∨ partition = 2 := by
    simp only [List.length_cons, List.length_nil] at bound
    omega
  rcases cases with rfl | rfl | rfl <;> rfl

section Fill

variable {role : BrokerRole} {dataDir : Bytes} (noNul : 0 ∉ dataDir) {disk : FileSystem}
  {name : Bytes} (valid : ValidName name)

include noNul valid

theorem Filled.load {ids : List Nat} {scan : TopicScan}
    (filled : Filled (resolve dataDir) disk name ids scan) (id : Nat) :
    Filled (resolve dataDir) disk name (ids ++ [id]) (loadPartition role dataDir scan id) := by
  have loaded := @loadPartition_log role dataDir noNul scan (filled.named ▸ valid) id
  rw [filled.named, filled.repairs.payloads_logBytes] at loaded
  obtain ⟨partitions, repairs⟩ := loaded
  have size (partition : Nat) :
      partition < (loadPartition role dataDir scan id).topic.partitions.length ↔
        partition < scan.topic.partitions.length ∨ partition ≤ id := by
    rw [partitions, List.length_modify, growPartitions_length]
    omega
  refine ⟨filled.named, filled.repairs.trans repairs, ?_, ?_, ?_⟩
  · simp [loadPartition]
  · intro partition
    rw [size, filled.size]
    simp only [List.mem_append, List.mem_singleton, or_and_right, exists_or, exists_eq_left,
      or_assoc]
  · intro partition bound
    rw [size] at bound
    rw [partitions, List.getElem?_modify, growPartitions_get, List.count_append]
    by_cases old : partition < scan.topic.partitions.length
    · rw [if_pos old, filled.stored partition old]
      by_cases here : id = partition
      · simp [here, List.replicate_add]
      · simp [here, Ne.symm here]
    · have below : partition ≤ id := bound.resolve_left old
      rw [if_neg old, if_pos below]
      rw [filled.size, not_or] at old
      have fresh : partition ∉ ids := fun member => old.2 ⟨partition, member, Nat.le_refl _⟩
      by_cases here : id = partition
      · simp [here, List.count_eq_zero_of_not_mem fresh]
      · simp [here, Ne.symm here, old.1, fresh, List.count_eq_zero_of_not_mem fresh]

theorem Filled.loadAll (more : List Nat) : ∀ {ids : List Nat} {scan : TopicScan},
    Filled (resolve dataDir) disk name ids scan →
    Filled (resolve dataDir) disk name (ids ++ more)
      (more.foldl (loadPartition role dataDir) scan) := by
  induction more with
  | nil =>
      intro ids scan filled
      simpa using filled
  | cons id rest ih =>
      intro ids scan filled
      rw [List.append_cons]
      exact ih (filled.load noNul valid id)

end Fill

/-! The files of a topic directory, as the scan reads them. -/

def fileId (file : Bytes × Node) : Option Nat :=
  (partitionText file.1 file.2).bind fun text => (stoi text).map fun parsed => parsed.1.toNat

def Loadable (base : Path) (disk : FileSystem) (name : Bytes) (file : Bytes × Node) : Prop :=
  ∀ text, partitionText file.1 file.2 = some text →
    ∃ partition position : Nat, stoi text = some ((partition : Int), position) ∧
      partition + 1 < 2 ^ 31 ∧ disk.find (logFile base name partition) ≠ some .directory

theorem MaybeRepaired.loadable {before after : FileSystem} (repairs : MaybeRepaired before after)
    {base : Path} {name : Bytes} {file : Bytes × Node} :
    Loadable base after name file ↔ Loadable base before name file := by
  simp only [Loadable, ne_eq, repairs.directory_iff]

section Files

variable {role : BrokerRole} {dataDir : Bytes} (noNul : 0 ∉ dataDir)

include noNul

theorem scanFile_eq {scan : TopicScan} (valid : ValidName scan.topic.name) {file : Bytes × Node}
    (loadable : Loadable (resolve dataDir) scan.disk scan.topic.name file) :
    scanFile role dataDir scan file =
      .ok ((fileId file).toList.foldl (loadPartition role dataDir) scan) := by
  cases named : partitionText file.1 file.2 with
  | none => simp [scanFile, fileId, named]
  | some text =>
      obtain ⟨partition, position, parsed, small, readable⟩ := loadable text named
      rw [scanFile_loads role noNul valid named parsed small readable]
      simp [fileId, named, parsed]

theorem scanFile_loadable {scan next : TopicScan} (valid : ValidName scan.topic.name)
    {file : Bytes × Node} (scanned : scanFile role dataDir scan file = .ok next) :
    Loadable (resolve dataDir) scan.disk scan.topic.name file := by
  intro text named
  rcases scanFile_cases scanned with ⟨unnamed, _⟩ | ⟨other, partition, position, same, parsed,
    small, readable, _⟩
  · rw [named] at unnamed
    cases unnamed
  · rw [named, Option.some.injEq] at same
    subst same
    refine ⟨partition, position, parsed, small, ?_⟩
    rw [ne_eq, ← unreadableLog_iff noNul valid, readable]
    simp

omit noNul in
theorem foldl_load_kept (ids : List Nat) : ∀ scan : TopicScan,
    (ids.foldl (loadPartition role dataDir) scan).topic.name = scan.topic.name ∧
      MaybeRepaired scan.disk (ids.foldl (loadPartition role dataDir) scan).disk := by
  induction ids with
  | nil => exact fun _ => ⟨rfl, MaybeRepaired.refl _⟩
  | cons id rest ih =>
      intro scan
      obtain ⟨named, repairs⟩ := ih (loadPartition role dataDir scan id)
      exact ⟨named, (loadPartition_repairs role dataDir scan id).trans repairs⟩

theorem scanFiles_iff (files : List (Bytes × Node)) : ∀ {scan next : TopicScan},
    ValidName scan.topic.name →
    (scanFiles role dataDir scan files = .ok next ↔
      (∀ file ∈ files, Loadable (resolve dataDir) scan.disk scan.topic.name file) ∧
        next = (files.filterMap fileId).foldl (loadPartition role dataDir) scan) := by
  induction files with
  | nil =>
      intro scan next _
      simp [scanFiles, eq_comm]
  | cons file rest ih =>
      intro scan next valid
      have after := @foldl_load_kept role dataDir (fileId file).toList scan
      have split : ((file :: rest).filterMap fileId).foldl (loadPartition role dataDir) scan =
          (rest.filterMap fileId).foldl (loadPartition role dataDir)
            ((fileId file).toList.foldl (loadPartition role dataDir) scan) := by
        rw [List.filterMap_cons]
        cases fileId file <;> rfl
      rw [split, List.forall_mem_cons, and_assoc]
      constructor
      · intro scanned
        simp only [scanFiles] at scanned
        split at scanned
        · cases scanned
        · rename_i middle stepped
          have first := scanFile_loadable noNul valid stepped
          rw [scanFile_eq noNul valid first, Except.ok.injEq] at stepped
          rw [← stepped, ih (after.1.symm ▸ valid), after.1] at scanned
          simp only [after.2.loadable] at scanned
          exact ⟨first, scanned⟩
      · rintro ⟨first, others⟩
        simp only [scanFiles, scanFile_eq noNul valid first]
        rw [ih (after.1.symm ▸ valid), after.1]
        simp only [after.2.loadable]
        exact others

end Files

/-! One topic directory. -/

theorem count_fileId_le_one_iff {files : List (Bytes × Node)}
    (distinct : (files.map Prod.fst).Nodup) (id : Nat) :
    (files.filterMap fileId).count id ≤ 1 ↔
      ∀ first ∈ files, ∀ second ∈ files, fileId first = some id → fileId second = some id →
        first.1 = second.1 := by
  rw [List.count_filterMap, List.countP_eq_length_filter]
  have hits (file : Bytes × Node) : file ∈ files.filter (fun file => fileId file == some id) ↔
      file ∈ files ∧ fileId file = some id := by
    simp
  have names : ((files.filter fun file => fileId file == some id).map Prod.fst).Nodup :=
    distinct.sublist (List.filter_sublist.map Prod.fst)
  generalize files.filter (fun file => fileId file == some id) = matching at hits names ⊢
  constructor
  · intro short first firstIn second secondIn firstId secondId
    have firstHit := (hits first).mpr ⟨firstIn, firstId⟩
    have secondHit := (hits second).mpr ⟨secondIn, secondId⟩
    match matching with
    | [] => cases firstHit
    | [only] =>
        rw [List.mem_singleton] at firstHit secondHit
        rw [firstHit, secondHit]
    | _ :: _ :: _ =>
        simp only [List.length_cons] at short
        omega
  · intro same
    match matching with
    | [] => exact Nat.zero_le _
    | [only] => exact Nat.le_refl _
    | first :: second :: rest =>
        obtain ⟨firstIn, firstId⟩ := (hits first).mp (by simp)
        obtain ⟨secondIn, secondId⟩ := (hits second).mp (by simp)
        simp [same first firstIn second secondIn firstId secondId] at names

theorem fileId_partitionFile {partition : Nat} (small : partition < 2 ^ 31) (contents : Bytes) :
    fileId (partitionFile partition, .file contents) = some partition := by
  simp [fileId, partitionText_partitionFile, stoi_decimal small]

theorem fileId_of_parsed {file : Bytes × Node} {text : Bytes} {partition position : Nat}
    (named : partitionText file.1 file.2 = some text)
    (parsed : stoi text = some ((partition : Int), position)) : fileId file = some partition := by
  simp [fileId, named, parsed]

section Directory

variable {base : Path} {disk : FileSystem} {name : Bytes}

theorem ownPayloads_listed {partition : Nat} {messages : List Bytes}
    (own : ownPayloads base disk name partition = some messages) :
    ∃ contents, (partitionFile partition, .file contents) ∈ children disk (base ++ [name]) ∧
      payloads contents = messages ∧ fileId (partitionFile partition, .file contents) =
        some partition := by
  unfold ownPayloads at own
  split at own
  · rename_i small
    obtain ⟨contents, found, decoded⟩ := Option.map_eq_some_iff.mp own
    refine ⟨contents, ?_, decoded, fileId_partitionFile small contents⟩
    rw [mem_children_iff, List.append_assoc]
    exact contents?_eq_some_iff.mp found
  · cases own

theorem ownPayloads_of_listed {partition : Nat} (small : partition < 2 ^ 31) {node : Node}
    {text : Bytes} (named : partitionText (partitionFile partition) node = some text)
    (listed : (partitionFile partition, node) ∈ children disk (base ++ [name])) :
    (ownPayloads base disk name partition).isSome := by
  rw [mem_children_iff, List.append_assoc] at listed
  cases node with
  | directory => cases named
  | file contents =>
      have found : contents? disk (logFile base name partition) = some contents :=
        contents?_eq_some_iff.mpr listed
      rw [ownPayloads, if_pos small, found]
      rfl

theorem ownPayloads_logBytes {partition : Nat} {messages : List Bytes}
    (own : ownPayloads base disk name partition = some messages) :
    payloads (logBytes base disk name partition) = messages := by
  unfold ownPayloads at own
  split at own
  · obtain ⟨contents, found, decoded⟩ := Option.map_eq_some_iff.mp own
    rw [logBytes, found, Option.getD_some, decoded]
  · cases own

theorem payloads_unowned {partition : Nat} (small : partition < 2 ^ 31)
    (unowned : ownPayloads base disk name partition = none) :
    payloads (logBytes base disk name partition) = [] := by
  rw [ownPayloads, if_pos small, Option.map_eq_none_iff] at unowned
  rw [logBytes, unowned]
  rfl

variable {scan : TopicScan} {ids : List Nat}

theorem OwnTopic.harmless (filled : Filled base disk name ids scan)
    (own : OwnTopic base disk name scan.topic) {partition : Nat} (small : partition < 2 ^ 31)
    (member : partition ∈ ids)
    (twice : (ownPayloads base disk name partition).isSome → 1 < ids.count partition)
    (readable : disk.find (logFile base name partition) ≠ some .directory) :
    Harmless base disk name partition := by
  have stored := filled.stored partition ((filled.size partition).mpr
    (Or.inr ⟨partition, member, Nat.le_refl _⟩))
  rw [if_pos (Or.inr member)] at stored
  cases logged : ownPayloads base disk name partition with
  | some messages =>
      have more := twice (by rw [logged]; rfl)
      rw [own.logs partition messages logged, ownPayloads_logBytes logged, Option.some.injEq,
        Partition.mk.injEq] at stored
      have lengths := congrArg List.length stored.2
      simp only [List.length_flatten, List.map_replicate, List.sum_replicate_nat] at lengths
      have empty : messages = [] := by
        rw [← List.length_eq_zero_iff]
        by_contra nonempty
        have positive : 0 < messages.length := Nat.pos_of_ne_zero nonempty
        have grown := Nat.mul_le_mul_right messages.length more
        omega
      exact Or.inl (by rw [logged, empty])
  | none =>
      have placeholder := own.others partition _ logged stored
      rw [Partition.mk.injEq] at placeholder
      have fixed : partition < kDefaultPartitionCount := by
        by_contra beyond
        rw [if_neg beyond] at placeholder
        omega
      refine Or.inr ⟨fixed, ?_, own.present⟩
      rw [ownPayloads, if_pos small, Option.map_eq_none_iff] at logged
      cases found : disk.find (logFile base name partition) with
      | none => rfl
      | some node =>
          cases node with
          | directory => exact absurd found readable
          | file contents =>
              rw [contents?_eq_some_iff.mpr found] at logged
              cases logged

theorem Restored.clean
    (filled : Filled base disk name ((children disk (base ++ [name])).filterMap fileId) scan)
    (loadable : ∀ file ∈ children disk (base ++ [name]), Loadable base disk name file)
    (restored : Restored base disk name (if scan.foundAnyPartition then some scan.topic else none)) :
    CleanTopic base disk name := by
  intro file node text found named
  have listed : (file, node) ∈ children disk (base ++ [name]) := by
    rw [mem_children_iff, List.append_assoc]
    exact found
  obtain ⟨partition, position, parsed, small, readable⟩ := loadable _ listed text named
  refine ⟨partition, position, parsed, small, or_iff_not_imp_left.mpr fun other => ?_⟩
  have numbered : fileId (file, node) = some partition := fileId_of_parsed named parsed
  have member := List.mem_filterMap.mpr ⟨_, listed, numbered⟩
  rw [filled.found.mpr (List.ne_nil_of_mem member), if_pos rfl] at restored
  refine restored.harmless filled (by omega) member (fun logged => ?_) readable
  obtain ⟨messages, own⟩ := Option.isSome_iff_exists.mp logged
  obtain ⟨contents, canonical, _, ownId⟩ := ownPayloads_listed own
  rw [← not_le, count_fileId_le_one_iff (children_names_nodup disk _)]
  exact fun same => other (same _ listed _ canonical numbered ownId)

theorem CleanTopic.numbered (clean : CleanTopic base disk name) {file : Bytes × Node}
    (listed : file ∈ children disk (base ++ [name])) {partition : Nat}
    (numbered : fileId file = some partition) : partition + 1 < 2 ^ 31 ∧
      (file.1 = partitionFile partition ∧ (ownPayloads base disk name partition).isSome ∨
        Harmless base disk name partition) := by
  obtain ⟨text, named, parsed⟩ := Option.bind_eq_some_iff.mp numbered
  obtain ⟨file, node⟩ := file
  have found := listed
  rw [mem_children_iff, List.append_assoc] at found
  obtain ⟨number, position, scanned, small, known⟩ := clean file node text found named
  rw [scanned, Option.map_some, Int.toNat_natCast, Option.some.injEq] at parsed
  subst parsed
  refine ⟨small, known.imp_left fun canonical => ⟨canonical, ?_⟩⟩
  subst canonical
  exact ownPayloads_of_listed (by omega) named listed

theorem Harmless.owns {partition : Nat} (harmless : Harmless base disk name partition) :
    ∃ own, (ownPayloads base disk name own).isSome := by
  rcases harmless with empty | ⟨_, _, own⟩
  · exact ⟨partition, by rw [empty]; rfl⟩
  · exact own

theorem CleanTopic.logs (clean : CleanTopic base disk name)
    (filled : Filled base disk name ((children disk (base ++ [name])).filterMap fileId) scan)
    {partition : Nat} {messages : List Bytes}
    (own : ownPayloads base disk name partition = some messages) :
    scan.topic.partitions[partition]? = some ⟨partition, messages⟩ := by
  obtain ⟨contents, canonical, _, ownId⟩ := ownPayloads_listed own
  have member := List.mem_filterMap.mpr ⟨_, canonical, ownId⟩
  rw [filled.stored partition ((filled.size partition).mpr
    (Or.inr ⟨partition, member, Nat.le_refl _⟩)), if_pos (Or.inr member), ownPayloads_logBytes own]
  by_cases empty : messages = []
  · simp [empty]
  · -- a second file with this number would have been harmless
    have once : ((children disk (base ++ [name])).filterMap fileId).count partition ≤ 1 := by
      rw [count_fileId_le_one_iff (children_names_nodup disk _)]
      have only {file : Bytes × Node} (listed : file ∈ children disk (base ++ [name]))
          (numbered : fileId file = some partition) : file.1 = partitionFile partition := by
        rcases (clean.numbered listed numbered).2 with ⟨same, _⟩ | blank | ⟨_, absent, _⟩
        · exact same
        · rw [own, Option.some.injEq] at blank
          exact absurd blank empty
        · rw [mem_children_iff, List.append_assoc] at canonical
          rw [logFile] at absent
          simp only [List.singleton_append, absent] at canonical
          cases canonical
      intro first firstIn second secondIn firstId secondId
      rw [only firstIn firstId, only secondIn secondId]
    have one : ((children disk (base ++ [name])).filterMap fileId).count partition = 1 := by
      have positive := List.count_pos_iff.mpr member
      omega
    simp [one]

theorem CleanTopic.others (clean : CleanTopic base disk name)
    (filled : Filled base disk name ((children disk (base ++ [name])).filterMap fileId) scan)
    {partition : Nat} {stored : Partition}
    (unowned : ownPayloads base disk name partition = none)
    (found : scan.topic.partitions[partition]? = some stored) :
    stored = ⟨if partition < kDefaultPartitionCount then partition else -1, []⟩ := by
  have bound : partition < scan.topic.partitions.length := (List.getElem?_eq_some_iff.mp found).1
  rw [filled.stored partition bound, Option.some.injEq] at found
  by_cases member : partition ∈ (children disk (base ++ [name])).filterMap fileId
  · obtain ⟨file, listed, numbered⟩ := List.mem_filterMap.mp member
    obtain ⟨small, known⟩ := clean.numbered listed numbered
    rcases known with ⟨_, logged⟩ | blank | ⟨fixed, _, _⟩
    · rw [unowned] at logged
      cases logged
    · rw [unowned] at blank
      cases blank
    · rw [← found, if_pos (Or.inl fixed), if_pos fixed, payloads_unowned (by omega) unowned]
      simp
  · rw [← found, List.count_eq_zero_of_not_mem member]
    simp [member]

theorem CleanTopic.restored (clean : CleanTopic base disk name)
    (filled : Filled base disk name ((children disk (base ++ [name])).filterMap fileId) scan) :
    Restored base disk name (if scan.foundAnyPartition then some scan.topic else none) := by
  by_cases found : scan.foundAnyPartition = true
  · rw [if_pos found]
    obtain ⟨id, member⟩ := List.exists_mem_of_ne_nil _ (filled.found.mp found)
    obtain ⟨file, listed, numbered⟩ := List.mem_filterMap.mp member
    refine ⟨?_, fun _ _ => clean.logs filled, fun _ _ => clean.others filled, ?_⟩
    · rcases (clean.numbered listed numbered).2 with ⟨_, own⟩ | harmless
      · exact ⟨id, own⟩
      · exact harmless.owns
    · intro partition bound
      rcases (filled.size partition).mp bound with fixed | ⟨last, lastIn, below⟩
      · exact Or.inl fixed
      · obtain ⟨other, otherIn, otherId⟩ := List.mem_filterMap.mp lastIn
        rcases (clean.numbered otherIn otherId).2 with ⟨_, own⟩ | blank | ⟨fixed, _, _⟩
        · exact Or.inr ⟨last, below, own⟩
        · exact Or.inr ⟨last, below, by rw [blank]; rfl⟩
        · exact Or.inl (by omega)
  · rw [if_neg found]
    intro partition
    cases own : ownPayloads base disk name partition with
    | none => rfl
    | some messages =>
        obtain ⟨contents, canonical, _, ownId⟩ := ownPayloads_listed own
        have member := List.mem_filterMap.mpr ⟨_, canonical, ownId⟩
        exact absurd (filled.found.mpr (List.ne_nil_of_mem member)) found

theorem CleanTopic.loadable (clean : CleanTopic base disk name) :
    ∀ file ∈ children disk (base ++ [name]), Loadable base disk name file := by
  rintro ⟨file, node⟩ listed text named
  have found := listed
  rw [mem_children_iff, List.append_assoc] at found
  obtain ⟨partition, position, parsed, small, _⟩ := clean file node text found named
  refine ⟨partition, position, parsed, small, fun inPlace => ?_⟩
  have unowned : ownPayloads base disk name partition = none := by
    rw [ownPayloads, if_pos (by omega), contents?, inPlace]
    rfl
  rcases (clean.numbered listed (fileId_of_parsed named parsed)).2 with
    ⟨_, own⟩ | blank | ⟨_, absent, _⟩
  · rw [unowned] at own
    cases own
  · rw [unowned] at blank
    cases blank
  · rw [inPlace] at absent
    cases absent

end Directory

/-! Logs that were cut back meanwhile. -/

section Repaired

variable {before after : FileSystem} (repairs : MaybeRepaired before after) (base : Path)
  (name : Bytes)

include repairs

theorem MaybeRepaired.ownPayloads (partition : Nat) :
    ownPayloads base after name partition = ownPayloads base before name partition := by
  unfold KafkaBroker.ownPayloads
  split
  · rcases repairs.contents (logFile base name partition) with same | cut
    · rw [same]
    · rw [cut, Option.map_map]
      cases contents? before (logFile base name partition) <;> simp
  · rfl

theorem MaybeRepaired.restored (topic : Option Topic) :
    Restored base after name topic ↔ Restored base before name topic := by
  have same (partition : Nat) := repairs.ownPayloads base name partition
  cases topic with
  | none => simp only [Restored, same]
  | some topic =>
      simp only [Restored]
      constructor
      · rintro ⟨present, logs, others, size⟩
        simp only [same] at present logs others size
        exact ⟨present, logs, others, size⟩
      · rintro ⟨present, logs, others, size⟩
        simp only [← same] at present logs others size
        exact ⟨present, logs, others, size⟩

theorem MaybeRepaired.absent_iff (path : Path) :
    after.find path = none ↔ before.find path = none := by
  rcases repairs path with same | ⟨contents, old, new⟩
  · rw [same]
  · simp [old, new]

theorem MaybeRepaired.clean : CleanTopic base after name ↔ CleanTopic base before name := by
  have harmless (partition : Nat) :
      Harmless base after name partition ↔ Harmless base before name partition := by
    simp only [Harmless, repairs.ownPayloads base name, repairs.absent_iff]
  have text {file : Bytes} (text : Bytes) :
      (∃ node, after.find (base ++ [name, file]) = some node ∧
        partitionText file node = some text) ↔
      ∃ node, before.find (base ++ [name, file]) = some node ∧
        partitionText file node = some text := by
    rcases repairs (base ++ [name, file]) with same | ⟨contents, old, new⟩
    · rw [same]
    · simp [old, new, partitionText]
  simp only [CleanTopic, harmless]
  constructor
  · intro clean file node text' found named
    obtain ⟨other, present, also⟩ := (text text').mpr ⟨node, found, named⟩
    exact clean file other text' present also
  · intro clean file node text' found named
    obtain ⟨other, present, also⟩ := (text text').mp ⟨node, found, named⟩
    exact clean file other text' present also

end Repaired

/-! The data directory. -/

section Topics

variable {role : BrokerRole} {dataDir : Bytes} (noNul : 0 ∉ dataDir)

include noNul

theorem scanTopic_directory (scan : StoreScan) {name : Bytes} (valid : ValidName name) :
    ∃ scanned, Filled (resolve dataDir) scan.disk name
        ((children scan.disk (resolve dataDir ++ [name])).filterMap fileId) scanned ∧
      ∀ next, scanTopic role dataDir scan (name, .directory) = .ok next ↔
        (∀ file ∈ children scan.disk (resolve dataDir ++ [name]),
          Loadable (resolve dataDir) scan.disk name file) ∧
        next = ⟨if scanned.foundAnyPartition then scan.topics.set name scanned.topic
          else scan.topics, scanned.progress, scanned.disk⟩ := by
  have files := @scanFiles_iff role dataDir noNul
    (children scan.disk (resolve dataDir ++ [name]))
    ⟨Topic.create name, false, scan.progress, scan.disk⟩
  have filled : Filled (resolve dataDir) scan.disk name _
      (List.foldl (loadPartition role dataDir) _ _) :=
    (create_filled (resolve dataDir) name scan.progress scan.disk).loadAll noNul valid
      ((children scan.disk (resolve dataDir ++ [name])).filterMap fileId)
  refine ⟨_, filled, fun next => ?_⟩
  simp only [scanTopic, valid.1, ne_eq, not_true_eq_false, or_self, if_false]
  constructor
  · intro scanned
    split at scanned
    · cases scanned
    · rename_i result finished
      obtain ⟨loadable, rfl⟩ := (files valid).mp finished
      rw [Except.ok.injEq] at scanned
      exact ⟨loadable, scanned.symm⟩
  · rintro ⟨loadable, rfl⟩
    rw [(files valid).mpr ⟨loadable, rfl⟩]

theorem scanTopic_iff {scan : StoreScan} {name : Bytes} (valid : ValidName name)
    (fresh : scan.topics.find name = none) :
    (∃ next, scanTopic role dataDir scan (name, .directory) = .ok next ∧
        Restored (resolve dataDir) scan.disk name (next.topics.find name)) ↔
      CleanTopic (resolve dataDir) scan.disk name := by
  obtain ⟨scanned, filled, returns⟩ := @scanTopic_directory role dataDir noNul scan name valid
  have entered : (if scanned.foundAnyPartition then scan.topics.set name scanned.topic
        else scan.topics).find name =
      if scanned.foundAnyPartition then some scanned.topic else none := by
    split <;> simp [fresh]
  constructor
  · rintro ⟨next, finished, restored⟩
    obtain ⟨loadable, rfl⟩ := (returns next).mp finished
    rw [entered] at restored
    exact restored.clean filled loadable
  · intro clean
    refine ⟨_, (returns _).mpr ⟨clean.loadable, rfl⟩, ?_⟩
    rw [entered]
    exact clean.restored filled

theorem scanTopic_frame {scan next : StoreScan} {entry : Bytes × Node}
    (valid : ValidName entry.1) (finished : scanTopic role dataDir scan entry = .ok next) :
    MaybeRepaired scan.disk next.disk ∧
      ∀ name, entry ≠ (name, .directory) → next.topics.find name = scan.topics.find name := by
  obtain ⟨name, node⟩ := entry
  cases node with
  | file contents =>
      simp only [scanTopic, ne_eq, reduceCtorEq, not_false_eq_true, true_or, if_true,
        Except.ok.injEq] at finished
      rw [← finished]
      exact ⟨MaybeRepaired.refl _, fun _ _ => rfl⟩
  | directory =>
      obtain ⟨scanned, filled, returns⟩ := @scanTopic_directory role dataDir noNul scan name valid
      obtain ⟨_, rfl⟩ := (returns next).mp finished
      refine ⟨filled.repairs, fun other different => ?_⟩
      have elsewhere : other ≠ name := fun same => different (by rw [same])
      dsimp only
      split <;> simp [elsewhere]

theorem scanTopics_frame (entries : List (Bytes × Node)) : ∀ {scan final : StoreScan},
    (∀ entry ∈ entries, ValidName entry.1) → scanTopics role dataDir scan entries = .ok final →
    ∀ name, (name, .directory) ∉ entries → final.topics.find name = scan.topics.find name := by
  induction entries with
  | nil =>
      intro scan final _ finished name _
      simp only [scanTopics, Except.ok.injEq] at finished
      rw [finished]
  | cons entry rest ih =>
      intro scan final valid finished name unlisted
      rw [List.mem_cons, not_or] at unlisted
      simp only [scanTopics] at finished
      split at finished
      · cases finished
      · rename_i next stepped
        rw [ih (fun other member => valid other (by simp [member])) finished name unlisted.2,
          (scanTopic_frame noNul (valid entry (by simp)) stepped).2 name (Ne.symm unlisted.1)]

theorem scanTopics_iff {disk : FileSystem} (entries : List (Bytes × Node)) :
    ∀ {scan : StoreScan}, (∀ entry ∈ entries, ValidName entry.1) →
      (entries.map Prod.fst).Nodup → MaybeRepaired disk scan.disk →
      (∀ entry ∈ entries, scan.topics.find entry.1 = none) →
      ((∃ final, scanTopics role dataDir scan entries = .ok final ∧
          ∀ name, (name, .directory) ∈ entries →
            Restored (resolve dataDir) disk name (final.topics.find name)) ↔
        ∀ name, (name, .directory) ∈ entries → CleanTopic (resolve dataDir) disk name) := by
  induction entries with
  | nil =>
      intro scan _ _ _ _
      simp [scanTopics]
  | cons entry rest ih =>
      intro scan valid distinct repairs fresh
      obtain ⟨name, node⟩ := entry
      rw [List.map_cons, List.nodup_cons] at distinct
      obtain ⟨unlisted, distinct⟩ := distinct
      change name ∉ rest.map Prod.fst at unlisted
      have validHead : ValidName name := valid (name, node) (by simp)
      have validRest : ∀ entry ∈ rest, ValidName entry.1 :=
        fun entry member => valid entry (by simp [member])
      have continues {next : StoreScan}
          (stepped : scanTopic role dataDir scan (name, node) = .ok next) := by
        obtain ⟨step, others⟩ := scanTopic_frame noNul validHead stepped
        refine @ih next validRest distinct (repairs.trans step) fun entry member => ?_
        have elsewhere : (name, node) ≠ (entry.1, .directory) := by
          rintro same
          rw [Prod.mk.injEq] at same
          exact unlisted (List.mem_map.mpr ⟨entry, member, same.1.symm⟩)
        rw [others entry.1 elsewhere, fresh entry (by simp [member])]
      have kept {next final : StoreScan} (finished : scanTopics role dataDir next rest = .ok final) :
          final.topics.find name = next.topics.find name :=
        scanTopics_frame noNul rest validRest finished name
          fun member => unlisted (List.mem_map.mpr ⟨_, member, rfl⟩)
      cases node with
      | file contents =>
          have stepped : scanTopic role dataDir scan (name, .file contents) = .ok scan := by
            simp [scanTopic]
          simpa [scanTopics, stepped] using continues stepped
      | directory =>
          have head := @scanTopic_iff role dataDir noNul scan name validHead
            (fresh (name, .directory) (by simp))
          simp only [repairs.restored, repairs.clean] at head
          constructor
          · rintro ⟨final, finished, restored⟩
            simp only [scanTopics] at finished
            split at finished
            · cases finished
            · rename_i next stepped
              have cleanHead := head.mp ⟨next, stepped, kept finished ▸ restored name (by simp)⟩
              have cleanRest := (continues stepped).mp
                ⟨final, finished, fun other member => restored other (by simp [member])⟩
              intro other member
              rcases List.mem_cons.mp member with same | later
              · rw [(Prod.mk.inj same).1]
                exact cleanHead
              · exact cleanRest other later
          · intro clean
            obtain ⟨next, stepped, restored⟩ := head.mpr (clean name (by simp))
            obtain ⟨final, finished, others⟩ := (continues stepped).mpr
              fun other member => clean other (by simp [member])
            refine ⟨final, by simp only [scanTopics, stepped, finished], ?_⟩
            intro other member
            rcases List.mem_cons.mp member with same | later
            · rw [(Prod.mk.inj same).1, kept finished]
              exact restored
            · exact others other later

end Topics

theorem topic_listed {disk : FileSystem} (tree : IsTree disk) {base : Path}
    {name file : Bytes} {node : Node} (found : disk.find (base ++ [name, file]) = some node) :
    (name, .directory) ∈ children disk base ∧ isDirectory disk base = true := by
  rw [List.append_cons] at found
  have parent := (tree.node found).2
  rw [isDirectory, Bool.or_eq_true, decide_eq_true_eq, decide_eq_true_eq] at parent
  have folder : disk.find (base ++ [name]) = some .directory := parent.resolve_left (by simp)
  exact ⟨(mem_children_iff disk base name _).mpr folder, (tree.node folder).2⟩

theorem owned_listed {disk : FileSystem} (tree : IsTree disk) {base : Path}
    {name : Bytes} {partition : Nat} (own : (ownPayloads base disk name partition).isSome) :
    (name, .directory) ∈ children disk base ∧ isDirectory disk base = true := by
  obtain ⟨messages, own⟩ := Option.isSome_iff_exists.mp own
  obtain ⟨contents, listed, _, _⟩ := ownPayloads_listed own
  rw [mem_children_iff, List.append_assoc] at listed
  exact topic_listed tree listed

/-- A start restores the logs of the data directory, each once, and nothing else, exactly if
every `partition-*.log` in a topic directory has a number in range and is the log of that
number, or reads a log that changes nothing. -/
theorem recovers_own_logs_iff (role : BrokerRole) (followerPort : Int) {dataDir : Bytes}
    (noNul : 0 ∉ dataDir) (named : dataDir ≠ []) {disk : FileSystem} (tree : IsTree disk) :
    RecoversOwnLogs role followerPort dataDir disk ↔
      ∀ topic, CleanTopic (resolve dataDir) disk topic := by
  have unowned {name : Bytes}
      (outside : (name, .directory) ∉ children disk (resolve dataDir) ∨
        ¬isDirectory disk (resolve dataDir) = true) :
      Restored (resolve dataDir) disk name none := by
    intro partition
    by_contra own
    have listed := owned_listed tree (Option.isSome_iff_ne_none.mpr own)
    exact outside.elim (fun off => off listed.1) fun off => off listed.2
  unfold RecoversOwnLogs startBroker Broker.recoverFromDisk
  rw [namesDirectory_eq noNul named]
  by_cases exist : isDirectory disk (resolve dataDir) = true
  · have valid : ∀ entry ∈ children disk (resolve dataDir), ValidName entry.1 :=
      fun entry member => (tree.node ((mem_children_iff _ _ _ _).mp member)).1
    have scan := @scanTopics_iff role dataDir noNul disk (children disk (resolve dataDir))
      ⟨∅, ∅, disk⟩ valid (children_names_nodup disk (resolve dataDir)) (MaybeRepaired.refl disk)
      (fun _ _ => rfl)
    simp only [exist, Bool.not_true, Bool.false_eq_true, if_false, Broker.configure]
    constructor
    · rintro ⟨broker, after, finished, restored⟩ topic file node text found
      split at finished
      · cases finished
      · rename_i final scanned
        rw [Except.ok.injEq, Prod.mk.injEq] at finished
        rw [← finished.1] at restored
        exact scan.mp ⟨final, scanned, fun name _ => restored name⟩ topic (topic_listed tree found).1
          file node text found
    · intro clean
      obtain ⟨final, scanned, restored⟩ := scan.mpr fun name _ => clean name
      refine ⟨_, final.disk, by rw [scanned], fun name => ?_⟩
      by_cases listed : (name, .directory) ∈ children disk (resolve dataDir)
      · exact restored name listed
      · have untouched := scanTopics_frame noNul _ valid scanned name listed
        simp only [untouched]
        exact unowned (Or.inl listed)
  · simp only [exist, Bool.not_false, if_true]
    refine iff_of_true ⟨_, _, rfl, fun name => unowned (Or.inr exist)⟩ ?_
    intro topic file node text found
    exact absurd (topic_listed tree found).2 exist

def oneTopic (files : List (Bytes × Bytes)) : FileSystem :=
  files.foldl (fun disk file => disk.set [ascii "data", ascii "t", file.1] (.file file.2))
    (((∅ : FileSystem).set [ascii "data"] .directory).set [ascii "data", ascii "t"] .directory)

/-- `notes.txt` is passed over, and `partition-02.log` stands for a log that is not there. -/
theorem recovers_own_logs_beside_others :
    RecoversOwnLogs .leader 0 (ascii "data")
      (oneTopic [(ascii "partition-0.log", serializeRecord ⟨ascii "m"⟩),
        (ascii "notes.txt", ascii "x"), (ascii "partition-02.log", ascii "y")]) := by
  rw [recovers_own_logs_iff .leader 0 (by decide) (by decide) (by decide)]
  intro topic file node text found named
  have base : resolve (ascii "data") = [ascii "data"] := by decide
  rw [base] at found ⊢
  simp only [oneTopic, List.foldl_cons, List.foldl_nil, Table.find_set] at found
  split at found
  · rename_i second
    simp only [List.singleton_append, List.cons.injEq, and_true, true_and] at second
    obtain ⟨rfl, rfl⟩ := second
    rw [← Option.some.inj found] at named
    obtain rfl : ascii "02" = text := Option.some.inj named
    refine ⟨2, 2, by decide, by decide, Or.inr (Or.inr ⟨by decide, by decide, 0, by decide +kernel⟩)⟩
  · split at found
    · rename_i notes
      simp only [List.singleton_append, List.cons.injEq, and_true, true_and] at notes
      obtain ⟨rfl, rfl⟩ := notes
      have skipped : partitionText (ascii "notes.txt") (.file (ascii "x")) = none := by decide
      rw [← Option.some.inj found, skipped] at named
      cases named
    · split at found
      · rename_i first
        simp only [List.singleton_append, List.cons.injEq, and_true, true_and] at first
        obtain ⟨rfl, rfl⟩ := first
        rw [← Option.some.inj found] at named
        obtain rfl : ascii "0" = text := Option.some.inj named
        exact ⟨0, 1, by decide, by decide, Or.inl (by decide)⟩
      · simp at found

/-- `partition-00.log` makes the scan read `partition-0.log` again, and `partition-x.log` makes
it throw. -/
theorem other_names_break_recovery :
    (startBroker .leader 0 (ascii "data") (oneTopic
        [(ascii "partition-0.log", serializeRecord ⟨ascii "m"⟩),
          (ascii "partition-00.log", [])])).toOption.map
        (fun started => started.1.messages (ascii "t") 0) = some [ascii "m", ascii "m"] ∧
      (startBroker .leader 0 (ascii "data") (oneTopic
        [(ascii "partition-x.log", [])])).toOption.isNone = true ∧
      ¬RecoversOwnLogs .leader 0 (ascii "data") (oneTopic
        [(ascii "partition-0.log", serializeRecord ⟨ascii "m"⟩), (ascii "partition-00.log", [])]) ∧
      ¬RecoversOwnLogs .leader 0 (ascii "data") (oneTopic [(ascii "partition-x.log", [])]) := by
  have doubled : (startBroker .leader 0 (ascii "data") (oneTopic
      [(ascii "partition-0.log", serializeRecord ⟨ascii "m"⟩),
        (ascii "partition-00.log", [])])).toOption.map
      (fun started => started.1.messages (ascii "t") 0) = some [ascii "m", ascii "m"] := by
    decide +kernel
  have thrown : (startBroker .leader 0 (ascii "data") (oneTopic
      [(ascii "partition-x.log", [])])).toOption.isNone = true := by
    decide +kernel
  refine ⟨doubled, thrown, ?_, ?_⟩
  · rintro ⟨broker, after, finished, restored⟩
    have own : ownPayloads (resolve (ascii "data")) (oneTopic
        [(ascii "partition-0.log", serializeRecord ⟨ascii "m"⟩), (ascii "partition-00.log", [])])
        (ascii "t") 0 = some [ascii "m"] := by decide +kernel
    rw [finished] at doubled
    have stored := restored (ascii "t")
    cases found : broker.topics.find (ascii "t") with
    | none =>
        rw [found] at stored
        rw [stored 0] at own
        cases own
    | some topic =>
        rw [found] at stored
        have loaded := stored.logs 0 _ own
        simp only [Except.toOption, Broker.messages, found, Topic.messages, Int.toNat_zero, loaded,
          Option.map_some, Option.getD_some, Option.some.injEq] at doubled
        split at doubled <;> simp at doubled
  · rintro ⟨broker, after, finished, _⟩
    rw [finished] at thrown
    cases thrown

end KafkaBroker
