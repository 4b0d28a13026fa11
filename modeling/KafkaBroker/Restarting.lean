import KafkaBroker.Scanning

/-!
A recovery may be interrupted and made again. It cuts the logs one by one; wherever a crash
stops it, and in whatever order the next scan comes upon the files, the next recovery ends
with the same topics, the same progress and the same files as one that was never interrupted.
-/

namespace KafkaBroker

open ByteText Posix

/-- The numbers under which the scan reads the logs of a topic directory. -/
def logIds (base : Path) (disk : FileSystem) (name : Bytes) : List Nat :=
  (children disk (base ++ [name])).filterMap fileId

def LoadableTopic (base : Path) (disk : FileSystem) (name : Bytes) : Prop :=
  ∀ file ∈ children disk (base ++ [name]), Loadable base disk name file

def repairedNode : Node → Node
  | .directory => .directory
  | .file contents => .file (repaired contents)

def TopicOf (base : Path) (disk : FileSystem) (name : Bytes) : Option Topic → Prop
  | none => logIds base disk name = []
  | some topic => logIds base disk name ≠ [] ∧ topic.name = name ∧
      (∀ partition, partition < topic.partitions.length ↔
        partition < kDefaultPartitionCount ∨ ∃ id ∈ logIds base disk name, partition ≤ id) ∧
      ∀ partition, partition < topic.partitions.length → topic.partitions[partition]? = some
        ⟨if partition < kDefaultPartitionCount ∨ partition ∈ logIds base disk name then partition
          else -1,
          (List.replicate ((logIds base disk name).count partition)
            (payloads (logBytes base disk name partition))).flatten⟩

theorem TopicOf.unique {base : Path} {disk : FileSystem} {name : Bytes}
    {first second : Option Topic} (left : TopicOf base disk name first)
    (right : TopicOf base disk name second) : first = second := by
  cases first with
  | none =>
      cases second with
      | none => rfl
      | some topic => exact absurd left right.1
  | some one =>
      cases second with
      | none => exact absurd right left.1
      | some other =>
          obtain ⟨_, oneName, oneSize, oneStored⟩ := left
          obtain ⟨_, otherName, otherSize, otherStored⟩ := right
          have lengths : one.partitions.length = other.partitions.length := by
            have same (partition : Nat) : partition < one.partitions.length ↔
                partition < other.partitions.length := by
              rw [oneSize, otherSize]
            exact Nat.le_antisymm (Nat.le_of_not_lt fun more => Nat.lt_irrefl _ ((same _).mp more))
              (Nat.le_of_not_lt fun more => Nat.lt_irrefl _ ((same _).mpr more))
          have partitions : one.partitions = other.partitions := by
            refine List.ext_getElem? fun partition => ?_
            by_cases inside : partition < one.partitions.length
            · rw [oneStored partition inside, otherStored partition (lengths ▸ inside)]
            · rw [List.getElem?_eq_none (Nat.le_of_not_lt inside),
                List.getElem?_eq_none (Nat.le_of_not_lt (lengths ▸ inside))]
          rw [← oneName] at otherName
          cases one
          cases other
          simp only at otherName partitions
          rw [otherName, partitions]

/-! A disk with some of its logs cut. -/

def shape (file : Bytes × Node) : Bytes × Bool := (file.1, file.2 = .directory)

theorem fileId_shape (file : Bytes × Node) :
    fileId file = if (shape file).2 then none else fileId ((shape file).1, .file []) := by
  obtain ⟨name, node⟩ := file
  cases node <;> rfl

section Repaired

variable {before after : FileSystem} (repairs : MaybeRepaired before after)

include repairs

theorem MaybeRepaired.shapes (folder : Path) :
    ((children after folder).map shape).Perm ((children before folder).map shape) := by
  have listed (disk : FileSystem) (entry : Bytes × Bool) :
      entry ∈ (children disk folder).map shape ↔
        (disk.find (folder ++ [entry.1])).map (fun node => decide (node = .directory)) =
          some entry.2 := by
    obtain ⟨name, kind⟩ := entry
    simp only [List.mem_map, Prod.exists, shape, Prod.mk.injEq, mem_children_iff,
      Option.map_eq_some_iff]
    constructor
    · rintro ⟨_, node, found, rfl, same⟩
      exact ⟨node, found, same⟩
    · rintro ⟨node, found, same⟩
      exact ⟨name, node, found, rfl, same⟩
  have distinct (disk : FileSystem) : ((children disk folder).map shape).Nodup := by
    have names := children_names_nodup disk folder
    have through : (children disk folder).map Prod.fst =
        ((children disk folder).map shape).map Prod.fst := by
      rw [List.map_map]
      rfl
    exact List.Nodup.of_map Prod.fst (through ▸ names)
  rw [List.perm_ext_iff_of_nodup (distinct after) (distinct before)]
  intro entry
  rw [listed, listed]
  rcases repairs (folder ++ [entry.1]) with same | ⟨contents, old, new⟩
  · rw [same]
  · simp [old, new]

theorem MaybeRepaired.ids (base : Path) (name : Bytes) :
    (logIds base after name).Perm (logIds base before name) := by
  have through (disk : FileSystem) : logIds base disk name =
      ((children disk (base ++ [name])).map shape).filterMap fun entry =>
        if entry.2 then none else fileId (entry.1, .file []) := by
    rw [logIds, List.filterMap_map]
    exact List.filterMap_congr fun file _ => fileId_shape file
  rw [through, through]
  exact (repairs.shapes _).filterMap _

theorem MaybeRepaired.topicOf {base : Path} {name : Bytes} {topic : Option Topic} :
    TopicOf base after name topic ↔ TopicOf base before name topic := by
  have ids := repairs.ids base name
  have member (id : Nat) : id ∈ logIds base after name ↔
      id ∈ logIds base before name := ids.mem_iff
  have empty : logIds base after name = [] ↔
      logIds base before name = [] := by
    simp only [List.eq_nil_iff_forall_not_mem, member]
  cases topic with
  | none => exact empty
  | some topic =>
      simp only [TopicOf, ne_eq, empty, member, ids.count_eq, repairs.payloads_logBytes]

theorem MaybeRepaired.loadableTopic {base : Path} {name : Bytes} :
    LoadableTopic base after name ↔ LoadableTopic base before name := by
  have through (disk : FileSystem) : (∀ file ∈ children disk (base ++ [name]),
      Loadable base before name file) ↔
      ∀ entry ∈ (children disk (base ++ [name])).map shape, entry.2 = false →
        Loadable base before name (entry.1, .file []) := by
    rw [List.forall_mem_map]
    refine forall₂_congr fun file _ => ?_
    obtain ⟨name, node⟩ := file
    cases node with
    | directory => simp [shape, Loadable, partitionText]
    | file contents => simp [shape, Loadable, partitionText]
  simp only [LoadableTopic, repairs.loadable, through, (repairs.shapes _).mem_iff]

theorem MaybeRepaired.node (path : Path) :
    (after.find path).map repairedNode = (before.find path).map repairedNode := by
  rcases repairs path with same | ⟨contents, old, new⟩
  · rw [same]
  · simp [old, new, repairedNode]

theorem MaybeRepaired.tree (tree : IsTree before) : IsTree after := by
  intro path listed name last
  have old : path ∈ before.keys := by
    rw [Table.mem_keys_iff] at listed ⊢
    rcases repairs path with same | ⟨contents, stored, _⟩
    · exact same ▸ listed
    · rw [stored]
      rfl
  rw [repairs.isDirectory]
  exact tree path old name last

end Repaired

/-! One topic directory. -/

def logProgress (role : BrokerRole) (base : Path) (disk : FileSystem) (key : TopicPartition)
    (ids : List Nat) : Option Nat :=
  if 0 ≤ key.partition ∧ key.partition.toNat ∈ ids ∧ role = .follower ∧
      payloads (logBytes base disk key.topic key.partition) ≠ [] then
    some ((payloads (logBytes base disk key.topic key.partition)).length - 1)
  else none

/-- The logs with these numbers have been read, and no others. -/
structure Cut (role : BrokerRole) (base : Path) (disk : FileSystem) (name : Bytes)
    (progress : Table TopicPartition Nat) (ids : List Nat) (scan : TopicScan) : Prop where
  progress : ∀ key, scan.progress.find key =
    if key.topic = name then (logProgress role base disk key ids).or (progress.find key)
    else progress.find key
  read : ∀ id ∈ ids, scan.disk.find (logFile base name id) =
    (disk.find (logFile base name id)).map repairedNode
  kept : ∀ path, (∀ id ∈ ids, path ≠ logFile base name id) → scan.disk.find path = disk.find path

theorem readAll_find (log : TopicLog) (disk : FileSystem) (path : Path) :
    (log.readAll disk).2.find path = if path = resolve log.logPath
      then (disk.find path).map repairedNode else disk.find path := by
  cases present : contents? disk (resolve log.logPath) with
  | none =>
      have nothing : log.readAll disk = ([], disk) := by
        rw [TopicLog.readAll, present]
      rw [nothing]
      split
      · rename_i here
        subst here
        unfold contents? at present
        cases found : disk.find (resolve log.logPath) with
        | none => simp
        | some node =>
            cases node with
            | directory => simp [repairedNode]
            | file contents => simp [found] at present
      · rfl
  | some contents =>
      have found := contents?_eq_some_iff.mp present
      split
      · rename_i here
        obtain ⟨_, _, after⟩ := readAll_spec present
        rw [here, contents?_eq_some_iff.mp after, found]
        rfl
      · rename_i elsewhere
        simp only [TopicLog.readAll, present]
        split
        · simp [resizeFile, found, elsewhere]
        · rfl

theorem logProgress_append (role : BrokerRole) (base : Path) (disk : FileSystem)
    (key : TopicPartition) (ids : List Nat) (id : Nat) :
    logProgress role base disk key (ids ++ [id]) =
      (logProgress role base disk key ids).or (logProgress role base disk key [id]) := by
  simp only [logProgress, List.mem_append]
  by_cases before : key.partition.toNat ∈ ids
  · by_cases rest : 0 ≤ key.partition ∧ role = .follower ∧
        payloads (logBytes base disk key.topic key.partition) ≠ []
    · simp [before, rest]
    · have none (inside : Prop) : ¬(0 ≤ key.partition ∧ inside ∧ role = .follower ∧
          payloads (logBytes base disk key.topic key.partition) ≠ []) :=
        fun all => rest ⟨all.1, all.2.2.1, all.2.2.2⟩
      simp only [if_neg (none _), Option.or_none]
  · simp [before]

section Load

variable {role : BrokerRole} {dataDir : Bytes} (noNul : 0 ∉ dataDir) {name : Bytes}
  (valid : ValidName name) {disk : FileSystem} {progress : Table TopicPartition Nat}

include noNul valid

theorem Cut.load {ids : List Nat} {scan : TopicScan} (named : scan.topic.name = name)
    (repairs : MaybeRepaired disk scan.disk)
    (cut : Cut role (resolve dataDir) disk name progress ids scan) (id : Nat) :
    Cut role (resolve dataDir) disk name progress (ids ++ [id])
      (loadPartition role dataDir scan id) := by
  obtain ⟨log, created, path⟩ := create_logFile noNul (named ▸ valid) id
  rw [named] at created path
  obtain ⟨read, _⟩ := readAll_log log scan.disk
  rw [path] at read
  have same := repairs.payloads_logBytes (resolve dataDir) name id
  have records : (log.readAll scan.disk).1.map Record.payload =
      payloads (logBytes (resolve dataDir) disk name id) := read.trans same
  have disks (query : Path) := readAll_find log scan.disk query
  rw [path] at disks
  refine ⟨?_, ?_, ?_⟩
  · intro key
    have loaded : (loadPartition role dataDir scan id).progress =
        if role = .follower ∧ payloads (logBytes (resolve dataDir) disk name id) ≠ [] then
          scan.progress.set ⟨name, id⟩
            ((payloads (logBytes (resolve dataDir) disk name id)).length - 1)
        else scan.progress := by
      simp only [loadPartition, created, named, records]
    rw [loaded, logProgress_append]
    by_cases here : key = ⟨name, id⟩
    · subst here
      have old := cut.progress ⟨name, id⟩
      simp only [if_true] at old ⊢
      by_cases holds : role = .follower ∧ payloads (logBytes (resolve dataDir) disk name id) ≠ []
      · rw [if_pos holds, Table.find_set, if_pos rfl]
        simp only [logProgress, Int.natCast_nonneg, Int.toNat_natCast, List.mem_singleton, true_and]
        rw [if_pos holds]
        split <;> simp
      · have nothing (ids : List Nat) :
            logProgress role (resolve dataDir) disk ⟨name, id⟩ ids = none := by
          refine if_neg fun all => holds all.2.2
        rw [if_neg holds, old, nothing, nothing, Option.or_none]
    · have other : (if role = .follower ∧
          payloads (logBytes (resolve dataDir) disk name id) ≠ [] then
            scan.progress.set ⟨name, id⟩
              ((payloads (logBytes (resolve dataDir) disk name id)).length - 1)
          else scan.progress).find key = scan.progress.find key := by
        split <;> simp [here]
      rw [other, cut.progress key]
      by_cases topic : key.topic = name
      · have apart : logProgress role (resolve dataDir) disk key [id] = none := by
          refine if_neg fun all => here ?_
          obtain ⟨keyTopic, partition⟩ := key
          have same : partition = id := by
            have nonneg := all.1
            have number := List.mem_singleton.mp all.2.1
            simp only at nonneg number
            omega
          simp only at topic
          rw [topic, same]
        rw [apart, Option.or_none]
      · simp only [if_neg topic]
  · have after : (loadPartition role dataDir scan id).disk = (log.readAll scan.disk).2 := by
      simp only [loadPartition, created, named]
    intro query member
    rw [after, disks]
    split
    · rename_i here
      rw [here, repairs.node]
    · rename_i elsewhere
      rcases List.mem_append.mp member with earlier | last
      · exact cut.read query earlier
      · exact absurd (congrArg (logFile (resolve dataDir) name)
          (congrArg Nat.cast (List.mem_singleton.mp last))) elsewhere
  · have after : (loadPartition role dataDir scan id).disk = (log.readAll scan.disk).2 := by
      simp only [loadPartition, created, named]
    intro query outside
    rw [after, disks, if_neg (outside id (by simp))]
    exact cut.kept query fun other member => outside other (by simp [member])

theorem Cut.loadAll (more : List Nat) : ∀ {ids : List Nat} {scan : TopicScan},
    Filled (resolve dataDir) disk name ids scan →
    Cut role (resolve dataDir) disk name progress ids scan →
    Filled (resolve dataDir) disk name (ids ++ more)
        (more.foldl (loadPartition role dataDir) scan) ∧
      Cut role (resolve dataDir) disk name progress (ids ++ more)
        (more.foldl (loadPartition role dataDir) scan) := by
  induction more with
  | nil =>
      intro ids scan filled cut
      simpa using ⟨filled, cut⟩
  | cons id rest ih =>
      intro ids scan filled cut
      rw [List.append_cons]
      exact ih (filled.load noNul valid id) (cut.load noNul valid filled.named filled.repairs id)

end Load

theorem create_cut (role : BrokerRole) (base : Path) (name : Bytes)
    (progress : Table TopicPartition Nat) (disk : FileSystem) :
    Cut role base disk name progress [] ⟨Topic.create name, false, progress, disk⟩ := by
  refine ⟨fun key => ?_, by simp, fun _ _ => rfl⟩
  have nothing : logProgress role base disk key [] = none := by
    simp [logProgress]
  rw [nothing, Option.none_or, ite_self]

/-! The data directory. -/

/-- These topic directories have been read, and no others. -/
structure ScannedTo (role : BrokerRole) (base : Path) (disk : FileSystem)
    (done : List (Bytes × Node)) (scan : StoreScan) : Prop where
  repairs : MaybeRepaired disk scan.disk
  topics : ∀ name, if (name, .directory) ∈ done then TopicOf base disk name (scan.topics.find name)
    else scan.topics.find name = none
  progress : ∀ key, scan.progress.find key = if (key.topic, .directory) ∈ done
    then logProgress role base disk key (logIds base disk key.topic) else none
  read : ∀ name, (name, .directory) ∈ done → ∀ id ∈ logIds base disk name,
    scan.disk.find (logFile base name id) = (disk.find (logFile base name id)).map repairedNode
  kept : ∀ path, (∀ name, (name, .directory) ∈ done → ∀ id ∈ logIds base disk name,
    path ≠ logFile base name id) → scan.disk.find path = disk.find path

theorem Filled.topicOf {base : Path} {disk : FileSystem} {name : Bytes} {scan : TopicScan}
    (filled : Filled base disk name (logIds base disk name) scan) :
    TopicOf base disk name (if scan.foundAnyPartition then some scan.topic else none) := by
  by_cases found : scan.foundAnyPartition = true
  · rw [if_pos found]
    exact ⟨filled.found.mp found, filled.named, filled.size, filled.stored⟩
  · rw [if_neg found]
    by_contra some
    exact found (filled.found.mpr some)

theorem MaybeRepaired.progress {role : BrokerRole} {base : Path} {before after : FileSystem}
    (repairs : MaybeRepaired before after) (key : TopicPartition) :
    logProgress role base after key (logIds base after key.topic) =
      logProgress role base before key (logIds base before key.topic) := by
  have member := (repairs.ids base key.topic).mem_iff (a := key.partition.toNat)
  simp only [logProgress, member, repairs.payloads_logBytes]

theorem ScannedTo.file {role : BrokerRole} {dataDir : Bytes} {disk : FileSystem}
    {done : List (Bytes × Node)} {scan : StoreScan}
    (so : ScannedTo role (resolve dataDir) disk done scan) (name contents : Bytes) :
    ScannedTo role (resolve dataDir) disk (done ++ [(name, .file contents)]) scan := by
  have listed (other : Bytes) : (other, Node.directory) ∈ done ++ [(name, .file contents)] ↔
      (other, .directory) ∈ done := by
    simp
  refine ⟨so.repairs, ?_, ?_, ?_, ?_⟩
  · simpa only [listed] using so.topics
  · simpa only [listed] using so.progress
  · simpa only [listed] using so.read
  · simpa only [listed] using so.kept

section Topics

variable {role : BrokerRole} {dataDir : Bytes} (noNul : 0 ∉ dataDir)

include noNul

theorem scanTopic_read (role : BrokerRole) (scan : StoreScan) {name : Bytes}
    (valid : ValidName name) :
    ∃ scanned, Filled (resolve dataDir) scan.disk name (logIds (resolve dataDir) scan.disk name)
        scanned ∧
      Cut role (resolve dataDir) scan.disk name scan.progress
        (logIds (resolve dataDir) scan.disk name) scanned ∧
      ∀ next, scanTopic role dataDir scan (name, .directory) = .ok next ↔
        LoadableTopic (resolve dataDir) scan.disk name ∧
        next = ⟨if scanned.foundAnyPartition then scan.topics.set name scanned.topic
          else scan.topics, scanned.progress, scanned.disk⟩ := by
  have files := @scanFiles_iff role dataDir noNul
    (children scan.disk (resolve dataDir ++ [name]))
    ⟨Topic.create name, false, scan.progress, scan.disk⟩
  obtain ⟨filled, cut⟩ := Cut.loadAll noNul valid (logIds (resolve dataDir) scan.disk name)
    (create_filled (resolve dataDir) name scan.progress scan.disk)
    (create_cut role (resolve dataDir) name scan.progress scan.disk)
  refine ⟨_, filled, cut, fun next => ?_⟩
  simp only [scanTopic, valid.1, ne_eq, not_true_eq_false, or_self, if_false]
  constructor
  · intro scanned
    split at scanned
    · cases scanned
    · rename_i result finished
      obtain ⟨loadable, rfl⟩ := (files valid).mp finished
      rw [Except.ok.injEq] at scanned
      exact ⟨loadable, scanned.symm⟩
  · rintro ⟨loadable, rfl⟩
    rw [(files valid).mpr ⟨loadable, rfl⟩]
    rfl

theorem ScannedTo.directory {disk : FileSystem} {done : List (Bytes × Node)}
    {scan next : StoreScan} (so : ScannedTo role (resolve dataDir) disk done scan) {name : Bytes}
    (valid : ValidName name) (fresh : (name, .directory) ∉ done)
    (scanned : scanTopic role dataDir scan (name, .directory) = .ok next) :
    ScannedTo role (resolve dataDir) disk (done ++ [(name, .directory)]) next := by
  obtain ⟨final, filled, cut, returns⟩ := scanTopic_read noNul role scan valid
  obtain ⟨_, rfl⟩ := (returns next).mp scanned
  have ids := so.repairs.ids (resolve dataDir) name
  have topic := so.repairs.topicOf.mp filled.topicOf
  have listed (other : Bytes) : (other, Node.directory) ∈ done ++ [(name, .directory)] ↔
      (other, .directory) ∈ done ∨ other = name := by
    simp
  have unread : scan.topics.find name = none := by
    simpa only [if_neg fresh] using so.topics name
  refine ⟨so.repairs.trans filled.repairs, ?_, ?_, ?_, ?_⟩
  · intro other
    simp only [listed]
    by_cases same : other = name
    · subst same
      rw [if_pos (Or.inr rfl)]
      have entered : (if final.foundAnyPartition then scan.topics.set other final.topic
            else scan.topics).find other =
          if final.foundAnyPartition then some final.topic else none := by
        split <;> simp [unread]
      exact entered ▸ topic
    · have untouched : (if final.foundAnyPartition then scan.topics.set name final.topic
          else scan.topics).find other = scan.topics.find other := by
        split <;> simp [same]
      simp only [untouched, same, or_false]
      exact so.topics other
  · intro key
    simp only [listed, cut.progress key]
    by_cases same : key.topic = name
    · have nothing : scan.progress.find key = none := by
        rw [so.progress key, same, if_neg fresh]
      rw [if_pos same, if_pos (Or.inr same), nothing, Option.or_none, ← same,
        so.repairs.progress key]
    · simp only [same, if_false, or_false]
      exact so.progress key
  · intro other member id isId
    rcases (listed other).mp member with earlier | rfl
    · have apart : ∀ id' ∈ logIds (resolve dataDir) scan.disk name,
          logFile (resolve dataDir) other id ≠ logFile (resolve dataDir) name id' := by
        intro id' _ same
        simp only [logFile, List.append_cancel_left_eq, List.cons.injEq] at same
        exact fresh (same.1 ▸ earlier)
      exact (cut.kept _ apart).trans (so.read other earlier id isId)
    · rw [cut.read id (ids.mem_iff.mpr isId), so.repairs.node]
  · intro path outside
    have elsewhere : ∀ id ∈ logIds (resolve dataDir) scan.disk name,
        path ≠ logFile (resolve dataDir) name id := fun id isId =>
      outside name ((listed name).mpr (Or.inr rfl)) id (ids.mem_iff.mp isId)
    rw [cut.kept path elsewhere]
    exact so.kept path fun other earlier => outside other ((listed other).mpr (Or.inl earlier))

theorem scanTopics_read {disk : FileSystem} (rest : List (Bytes × Node)) :
    ∀ {done : List (Bytes × Node)} {scan : StoreScan}, (∀ entry ∈ rest, ValidName entry.1) →
      ((done ++ rest).map Prod.fst).Nodup → ScannedTo role (resolve dataDir) disk done scan →
      ((∃ final, scanTopics role dataDir scan rest = .ok final) ↔
          ∀ name, (name, .directory) ∈ rest → LoadableTopic (resolve dataDir) disk name) ∧
        ∀ final, scanTopics role dataDir scan rest = .ok final →
          ScannedTo role (resolve dataDir) disk (done ++ rest) final := by
  induction rest with
  | nil =>
      intro done scan _ _ so
      simp only [scanTopics, Except.ok.injEq, List.append_nil]
      exact ⟨by simp, fun final same => same ▸ so⟩
  | cons entry rest ih =>
      intro done scan valid distinct so
      obtain ⟨name, node⟩ := entry
      have validRest : ∀ entry ∈ rest, ValidName entry.1 := fun other member =>
        valid other (by simp [member])
      have split : done ++ (name, node) :: rest = (done ++ [(name, node)]) ++ rest := by simp
      rw [split] at distinct ⊢
      cases node with
      | file contents =>
          have passed : scanTopic role dataDir scan (name, .file contents) = .ok scan := by
            simp [scanTopic]
          simpa [scanTopics, passed] using ih validRest distinct (so.file name contents)
      | directory =>
          have fresh : (name, Node.directory) ∉ done := by
            intro member
            rw [List.map_append, List.nodup_append, List.map_append, List.nodup_append] at distinct
            exact distinct.1.2.2 name (List.mem_map_of_mem member) name (by simp) rfl
          obtain ⟨scanned, _, _, returns⟩ :=
            scanTopic_read noNul role scan (valid (name, .directory) (by simp))
          by_cases loadable : LoadableTopic (resolve dataDir) disk name
          · have stepped := (returns _).mpr ⟨so.repairs.loadableTopic.mpr loadable, rfl⟩
            have continues := ih validRest distinct
              (so.directory noNul (valid (name, .directory) (by simp)) fresh stepped)
            simpa [scanTopics, stepped, or_imp, forall_and, loadable] using continues
          · have stuck (next : StoreScan) :
                scanTopic role dataDir scan (name, .directory) ≠ .ok next := fun stepped =>
              loadable (so.repairs.loadableTopic.mp ((returns next).mp stepped).1)
            have never (final : StoreScan) :
                scanTopics role dataDir scan ((name, .directory) :: rest) ≠ .ok final := by
              simp only [scanTopics]
              split
              · simp
              · rename_i next stepped
                exact absurd stepped (stuck next)
            refine ⟨iff_of_false ?_ fun all => loadable (all name (by simp)), ?_⟩
            · rintro ⟨final, finished⟩
              exact never final finished
            · exact fun final finished => absurd finished (never final)

end Topics

/-! Recovery. -/

theorem startBroker_read (role : BrokerRole) (followerPort : Int) {dataDir : Bytes}
    (noNul : 0 ∉ dataDir) {disk : FileSystem} (tree : IsTree disk)
    (exists? : namesDirectory disk dataDir = true) :
    ((∃ started, startBroker role followerPort dataDir disk = .ok started) ↔
        ∀ name, (name, .directory) ∈ children disk (resolve dataDir) →
          LoadableTopic (resolve dataDir) disk name) ∧
      ∀ broker after, startBroker role followerPort dataDir disk = .ok (broker, after) →
        ScannedTo role (resolve dataDir) disk (children disk (resolve dataDir))
          ⟨broker.topics, broker.replicationProgress, after⟩ := by
  have valid : ∀ entry ∈ children disk (resolve dataDir), ValidName entry.1 :=
    fun entry member => (tree.node ((mem_children_iff _ _ _ _).mp member)).1
  have start : ScannedTo role (resolve dataDir) disk [] ⟨∅, ∅, disk⟩ :=
    ⟨MaybeRepaired.refl disk, by simp, by simp, by simp, by simp⟩
  obtain ⟨returns, reads⟩ := scanTopics_read noNul (children disk (resolve dataDir)) valid
    (children_names_nodup disk (resolve dataDir)) start
  simp only [startBroker, Broker.recoverFromDisk, exists?, Bool.not_true, Bool.false_eq_true,
    if_false, Broker.configure]
  constructor
  · rw [← returns]
    constructor
    · rintro ⟨started, finished⟩
      split at finished
      · cases finished
      · rename_i final scanned
        exact ⟨final, scanned⟩
    · rintro ⟨final, scanned⟩
      exact ⟨_, by rw [scanned]⟩
  · intro broker after finished
    split at finished
    · cases finished
    · rename_i final scanned
      rw [Except.ok.injEq, Prod.mk.injEq] at finished
      rw [← finished.1, ← finished.2]
      exact reads final scanned

/-- Two starts with the same outcome: the topics, the progress and the files are the same. -/
structure SameStart (first second : Broker × FileSystem) : Prop where
  topics : ∀ name, second.1.topics.find name = first.1.topics.find name
  progress : ∀ key, second.1.replicationProgress.find key = first.1.replicationProgress.find key
  disk : ∀ path, second.2.find path = first.2.find path

/-- A recovery that was interrupted anywhere, with some logs cut and others not yet, is made up
for by the next one. -/
theorem recovery_repeatable (role : BrokerRole) (followerPort : Int) {dataDir : Bytes}
    (noNul : 0 ∉ dataDir) {disk after middle : FileSystem} (tree : IsTree disk) {broker : Broker}
    (started : startBroker role followerPort dataDir disk = .ok (broker, after))
    (interrupted : ∀ path, middle.find path = disk.find path ∨
      middle.find path = after.find path) :
    ∃ again, startBroker role followerPort dataDir middle = .ok again ∧
      SameStart (broker, after) again := by
  by_cases exist : namesDirectory disk dataDir = true
  · obtain ⟨returns, reads⟩ := startBroker_read role followerPort noNul tree exist
    have so := reads broker after started
    have repairs : MaybeRepaired disk middle := fun path =>
      (interrupted path).elim Or.inl fun same => same ▸ so.repairs path
    obtain ⟨againReturns, againReads⟩ := startBroker_read role followerPort noNul
      (repairs.tree tree) (by simpa only [namesDirectory, repairs.isDirectory] using exist)
    have listed (name : Bytes) : (name, Node.directory) ∈ children middle (resolve dataDir) ↔
        (name, .directory) ∈ children disk (resolve dataDir) := by
      simp only [mem_children_iff, repairs.directory_iff]
    obtain ⟨again, finished⟩ := againReturns.mpr fun name member =>
      repairs.loadableTopic.mpr (returns.mp ⟨_, started⟩ name ((listed name).mp member))
    have also := againReads again.1 again.2 finished
    refine ⟨again, finished, ?_, ?_, ?_⟩
    · intro name
      have first := so.topics name
      have second := also.topics name
      simp only [listed] at second
      split at first
      · rename_i member
        rw [if_pos member] at second
        exact (repairs.topicOf.mp second).unique first
      · rename_i outside
        rw [if_neg outside] at second
        exact second.trans first.symm
    · intro key
      have second := also.progress key
      simp only [listed, repairs.progress key] at second
      exact second.trans (so.progress key).symm
    · intro path
      by_cases cut : ∃ name id, (name, Node.directory) ∈ children disk (resolve dataDir) ∧
          id ∈ logIds (resolve dataDir) disk name ∧ path = logFile (resolve dataDir) name id
      · obtain ⟨name, id, member, isId, rfl⟩ := cut
        rw [also.read name ((listed name).mpr member) id
          ((repairs.ids (resolve dataDir) name).mem_iff.mpr isId), repairs.node]
        exact (so.read name member id isId).symm
      · have outside : ∀ name, (name, Node.directory) ∈ children disk (resolve dataDir) →
            ∀ id ∈ logIds (resolve dataDir) disk name, path ≠ logFile (resolve dataDir) name id :=
          fun name member id isId same => cut ⟨name, id, member, isId, same⟩
        have unread := so.kept path outside
        have untouched := also.kept path fun name member id isId => outside name
          ((listed name).mp member) id ((repairs.ids (resolve dataDir) name).mem_iff.mp isId)
        refine untouched.trans ?_
        rcases interrupted path with same | same
        · exact same.trans unread.symm
        · exact same
  · simp only [startBroker, Broker.recoverFromDisk, exist, Bool.not_false, if_true, Except.ok.injEq,
      Prod.mk.injEq] at started
    obtain ⟨rfl, rfl⟩ := started
    have same (path : Path) : middle.find path = disk.find path := (interrupted path).elim id id
    have absent : namesDirectory middle dataDir = namesDirectory disk dataDir := by
      simp only [namesDirectory, isDirectory, same]
    refine ⟨({ Broker.configure {} role followerPort with dataDir }, middle), ?_, fun _ => rfl,
      fun _ => rfl, same⟩
    simp only [startBroker, Broker.recoverFromDisk, absent, exist, Bool.not_false, if_true]

def tornLogs (first : Bytes) : FileSystem :=
  oneTopic [(ascii "partition-0.log", first), (ascii "partition-1.log", [0, 0, 0])]

theorem recovery_repeatable_half : ∃ broker after again,
    startBroker .follower 0 (ascii "data") (tornLogs (serializeRecord ⟨ascii "m"⟩ ++ [0, 0])) =
        .ok (broker, after) ∧
      startBroker .follower 0 (ascii "data") (tornLogs (serializeRecord ⟨ascii "m"⟩)) = .ok again ∧
      SameStart (broker, after) again := by
  have evaluated : ∃ started ∈ (startBroker .follower 0 (ascii "data")
      (tornLogs (serializeRecord ⟨ascii "m"⟩ ++ [0, 0]))).toOption,
      started.2.find [ascii "data", ascii "t", ascii "partition-0.log"] =
        some (.file (serializeRecord ⟨ascii "m"⟩)) := by
    decide +kernel
  obtain ⟨⟨broker, after⟩, started, cut⟩ := evaluated
  have returned : startBroker .follower 0 (ascii "data")
      (tornLogs (serializeRecord ⟨ascii "m"⟩ ++ [0, 0])) = .ok (broker, after) := by
    cases result : startBroker .follower 0 (ascii "data")
        (tornLogs (serializeRecord ⟨ascii "m"⟩ ++ [0, 0])) with
    | error error => simp [result, Except.toOption] at started
    | ok pair =>
        simp only [result, Except.toOption, Option.mem_some_iff] at started
        rw [started]
  have interrupted : ∀ path, (tornLogs (serializeRecord ⟨ascii "m"⟩)).find path =
        (tornLogs (serializeRecord ⟨ascii "m"⟩ ++ [0, 0])).find path ∨
      (tornLogs (serializeRecord ⟨ascii "m"⟩)).find path = after.find path := by
    intro path
    by_cases first : path = [ascii "data", ascii "t", ascii "partition-0.log"]
    · right
      rw [first, cut]
      decide +kernel
    · left
      simp only [tornLogs, oneTopic, List.foldl_cons, List.foldl_nil, Table.find_set, if_neg first]
  obtain ⟨again, finished, same⟩ := recovery_repeatable .follower 0 (by decide) (by decide) returned
    interrupted
  exact ⟨broker, after, again, returned, finished, same⟩

end KafkaBroker
