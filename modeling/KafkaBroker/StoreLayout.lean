import KafkaBroker.TopicLog
import KafkaBroker.Protocol

/-!
What the log calls do to a data directory that only ever held topic logs: an append
puts a prefix of one serialized record at the end of one file, and reading a log cuts
that file back to its decodable prefix.
-/

namespace KafkaBroker

open ByteText Posix

/-- A data directory with nothing in it but topic directories and partition logs. -/
structure StoreLayout (base : Path) (disk : FileSystem) : Prop where
  free : ∀ path, OnTheWay [] base path →
    disk.find path = none ∨ disk.find path = some .directory
  topics : ∀ name node, disk.find (base ++ [name]) = some node →
    ValidName name ∧ node = .directory
  files : ∀ topic name node, disk.find (base ++ [topic, name]) = some node →
    ∃ partition contents, InRange partition ∧ name = partitionFile partition ∧
      node = .file contents
  parents : ∀ topic name node, disk.find (base ++ [topic, name]) = some node →
    disk.find (base ++ [topic]) = some .directory
  rooted : ∀ name node, disk.find (base ++ [name]) = some node → isDirectory disk base = true

/-- The files of `after` are those of `before`, with `written` added to one of them. -/
structure Extends (path : Path) (written : Bytes) (before after : FileSystem) : Prop where
  target : (contents? after path).getD [] = (contents? before path).getD [] ++ written
  kept : (contents? before path).isSome → (contents? after path).isSome
  others : ∀ other, other ≠ path → contents? after other = contents? before other

theorem Extends.refl (path : Path) (disk : FileSystem) : Extends path [] disk disk :=
  ⟨by simp, id, fun _ _ => rfl⟩

theorem Extends.trans {path : Path} {first second : Bytes} {before middle after : FileSystem}
    (left : Extends path first before middle) (right : Extends path second middle after) :
    Extends path (first ++ second) before after := by
  refine ⟨?_, fun present => right.kept (left.kept present), ?_⟩
  · rw [right.target, left.target, List.append_assoc]
  · intro other different
    rw [right.others other different, left.others other different]

theorem Extends.of_same_files {path : Path} {before after : FileSystem}
    (same : ∀ other contents, after.find other = some (.file contents) ↔
      before.find other = some (.file contents)) : Extends path [] before after := by
  have equal (other : Path) : contents? after other = contents? before other := by
    apply Option.ext
    intro contents
    rw [contents?_eq_some_iff, contents?_eq_some_iff]
    exact same other contents
  exact ⟨by simp [equal], by simp [equal], fun other _ => equal other⟩

theorem createDirectories_extends {disk created : FileSystem} {folder path : Path}
    (done : createDirectories disk [] folder = some created) : Extends path [] disk created := by
  apply Extends.of_same_files
  intro other contents
  rcases createDirectories_find done other with ⟨_, after, before⟩ | ⟨_, after⟩
  · rcases before with absent | present
    · simp [after, absent]
    · simp [after, present]
  · rw [after]

theorem openAppend_extends {disk opened : FileSystem} {path : Path}
    (done : openAppend disk path = some opened) :
    Extends path [] disk opened ∧ ∃ contents, contents? opened path = some contents := by
  simp only [openAppend] at done
  split at done
  · rename_i contents found
    simp only [Option.some.injEq] at done
    subst done
    exact ⟨Extends.refl path disk, contents, by simp [contents?, found]⟩
  · simp at done
  · rename_i absent
    split at done
    · simp only [Option.some.injEq] at done
      subst done
      refine ⟨⟨?_, ?_, ?_⟩, [], ?_⟩
      · simp [contents?, absent]
      · simp [contents?_set]
      · intro other different
        simp [contents?_set, different]
      · simp [contents?_set]
    · simp at done

theorem appendBytes_extends {disk : FileSystem} {path : Path} {contents : Bytes}
    (present : contents? disk path = some contents) (bytes : Bytes) :
    Extends path bytes disk (appendBytes disk path bytes) := by
  have found := contents?_eq_some_iff.mp present
  simp only [appendBytes, found]
  refine ⟨?_, ?_, ?_⟩
  · simp [contents?_set, present]
  · simp [contents?_set]
  · intro other different
    simp [contents?_set, different]

/-! The layout is kept. -/

theorem onTheWay_same_length {base rest : Path} {path : Path} {name : Bytes}
    (way : OnTheWay base rest path) (last : path = base ++ rest.dropLast ++ [name]) :
    rest.getLast? = some name := by
  obtain ⟨first, final, nonempty, rfl, rfl⟩ := way
  rw [List.append_assoc, List.append_cancel_left_eq] at last
  have sizes := congrArg List.length last
  simp only [List.length_append, List.length_dropLast, List.length_singleton] at sizes
  have positive : 0 < first.length := List.length_pos_iff.mpr nonempty
  have empty : final = [] := List.length_eq_zero_iff.mp (by omega)
  subst empty
  rw [List.append_nil] at last ⊢
  rw [last]
  simp

theorem not_onTheWay_below {base : Path} {topic : Bytes} {path : Path}
    (deep : base.length + 1 < path.length) : ¬OnTheWay [] (base ++ [topic]) path := by
  rintro ⟨first, last, _, split, rfl⟩
  have sizes := congrArg List.length split
  simp only [List.length_append, List.length_singleton] at sizes deep
  omega

theorem isDirectory_base_of_created {disk created : FileSystem} {base : Path} {topic : Bytes}
    (done : createDirectories disk [] (base ++ [topic]) = some created) :
    isDirectory created base = true := by
  by_cases root : base = []
  · simp [isDirectory, root]
  · rcases createDirectories_find done base with ⟨_, after, _⟩ | ⟨off, _⟩
    · simp [isDirectory, after]
    · exact absurd ⟨base, [topic], root, rfl, by simp⟩ off

theorem find_topic_of_created {disk created : FileSystem} {base : Path} {topic : Bytes}
    (done : createDirectories disk [] (base ++ [topic]) = some created) :
    created.find (base ++ [topic]) = some .directory := by
  rcases createDirectories_find done (base ++ [topic]) with ⟨_, after, _⟩ | ⟨off, _⟩
  · exact after
  · exact absurd ⟨base ++ [topic], [], by simp, by simp, by simp⟩ off

theorem StoreLayout.createDirectories {disk created : FileSystem} {base : Path} {topic : Bytes}
    (layout : StoreLayout base disk) (valid : ValidName topic)
    (done : createDirectories disk [] (base ++ [topic]) = some created) :
    StoreLayout base created := by
  have isDir := isDirectory_base_of_created done
  have below (first second : Bytes) :
      created.find (base ++ [first, second]) = disk.find (base ++ [first, second]) := by
    rcases createDirectories_find done (base ++ [first, second]) with ⟨way, _, _⟩ | ⟨_, after⟩
    · exact absurd way (not_onTheWay_below (by simp))
    · exact after
  have grown {path : Path} (present : disk.find path = some .directory) :
      created.find path = some .directory := by
    rcases createDirectories_find done path with ⟨_, after, _⟩ | ⟨_, after⟩
    · exact after
    · rw [after, present]
  refine ⟨?_, ?_, ?_, ?_, fun _ _ _ => isDir⟩
  · intro path way
    rcases createDirectories_find done path with ⟨_, after, _⟩ | ⟨_, after⟩
    · exact Or.inr after
    · rw [after]
      exact layout.free path way
  · intro name node found
    rcases createDirectories_find done (base ++ [name]) with ⟨way, after, _⟩ | ⟨_, after⟩
    · have same : (base ++ [topic]).getLast? = some name :=
        onTheWay_same_length way (by simp)
      rw [List.getLast?_concat, Option.some.injEq] at same
      subst same
      rw [after, Option.some.injEq] at found
      exact ⟨valid, found.symm⟩
    · rw [after] at found
      exact layout.topics name node found
  · intro first second node found
    rw [below] at found
    exact layout.files first second node found
  · intro first second node found
    rw [below] at found
    exact grown (layout.parents first second node found)

theorem StoreLayout.setFile {disk : FileSystem} {base : Path} {topic : Bytes} {partition : Int}
    (layout : StoreLayout base disk) (range : InRange partition) (contents : Bytes)
    (parent : disk.find (base ++ [topic]) = some .directory) :
    StoreLayout base (disk.set (base ++ [topic, partitionFile partition]) (.file contents)) := by
  have shorter (path : Path) (short : path.length < base.length + 2) :
      path ≠ base ++ [topic, partitionFile partition] := by
    rintro rfl
    simp at short
  have isDir := layout.rooted topic _ parent
  refine ⟨?_, ?_, ?_, ?_, ?_⟩
  · intro path way
    have short : path.length < base.length + 2 := by
      obtain ⟨first, last, _, rfl, rfl⟩ := way
      simp
      omega
    simpa [shorter path short] using layout.free path way
  · intro name node found
    rw [Table.find_set, if_neg (shorter _ (by simp))] at found
    exact layout.topics name node found
  · intro first second node found
    rw [Table.find_set] at found
    split at found
    · rename_i same
      simp only [List.append_cancel_left_eq, List.cons.injEq, and_true] at same
      simp only [Option.some.injEq] at found
      exact ⟨partition, contents, range, same.2, found.symm⟩
    · exact layout.files first second node found
  · intro first second node found
    rw [Table.find_set] at found ⊢
    rw [if_neg (shorter _ (by simp))]
    split at found
    · rename_i same
      simp only [List.append_cancel_left_eq, List.cons.injEq, and_true] at same
      rw [same.1]
      exact parent
    · exact layout.parents first second node found
  · intro name node _
    unfold isDirectory at isDir ⊢
    rw [Table.find_set, if_neg (shorter _ (by simp))]
    exact isDir

/-! Appending. -/

theorem partitionFile_validName {partition : Int} (nonneg : 0 ≤ partition) :
    ValidName (partitionFile partition) := by
  obtain ⟨number, rfl⟩ := Int.eq_ofNat_of_zero_le nonneg
  have inside {byte : Byte} (plain : byte ∉ ascii "partition-" ∧ byte ∉ ascii ".log")
      (notDigit : isDigit byte = false) : byte ∉ partitionFile number := by
    simp only [partitionFile, decimalInt_natCast, List.mem_append, not_or]
    refine ⟨⟨plain.1, fun member => ?_⟩, plain.2⟩
    rw [decimal_isDigit number byte member] at notDigit
    cases notDigit
  have long : 4 ≤ (partitionFile number).length := by
    simp only [partitionFile, List.length_append]
    have suffix : (ascii ".log").length = 4 := by decide
    omega
  refine ⟨?_, ?_, ?_, inside (by decide) (by decide), inside (by decide) (by decide)⟩
  · rintro same
    simp [same] at long
  · rintro same
    rw [same] at long
    exact absurd long (by decide)
  · rintro same
    rw [same] at long
    exact absurd long (by decide)

theorem partitionFile_injective {first second : Int} (firstNonneg : 0 ≤ first)
    (secondNonneg : 0 ≤ second) (same : partitionFile first = partitionFile second) :
    first = second := by
  simp only [partitionFile, List.append_cancel_right_eq, List.append_cancel_left_eq,
    decimalInt, show ¬first < 0 by omega, show ¬second < 0 by omega, if_false] at same
  have values := congrArg digitsValue same
  rw [digitsValue_decimal, digitsValue_decimal] at values
  omega

def logFile (base : Path) (topic : Bytes) (partition : Int) : Path :=
  base ++ [topic, partitionFile partition]

theorem logFile_injective {base : Path} {firstTopic secondTopic : Bytes} {first second : Int}
    (firstRange : InRange first) (secondRange : InRange second)
    (same : logFile base firstTopic first = logFile base secondTopic second) :
    firstTopic = secondTopic ∧ first = second := by
  simp only [logFile, List.append_cancel_left_eq, List.cons.injEq, and_true] at same
  exact ⟨same.1, partitionFile_injective firstRange.1 secondRange.1 same.2⟩

theorem resolve_folder (log : TopicLog) (noNul : 0 ∉ log.dataDir) (valid : ValidName log.topic) :
    resolve log.folder = resolve log.dataDir ++ [log.topic] :=
  resolve_append_validName noNul valid

theorem resolve_logPath (log : TopicLog) (noNul : 0 ∉ log.dataDir) (valid : ValidName log.topic) :
    resolve log.logPath = logFile (resolve log.dataDir) log.topic log.partitionId := by
  have folderNul : 0 ∉ log.dataDir ++ slash :: log.topic := by
    simp only [List.mem_append, List.mem_cons, not_or]
    exact ⟨noNul, by decide, valid.2.2.2.2⟩
  rw [TopicLog.logPath, resolve_append_validName folderNul (partitionFile_validName log.partitionNonneg),
    resolve_append_validName noNul valid, logFile, List.append_assoc]
  rfl

/-- What an append leaves on disk, whatever its system calls answered. -/
structure AppendResult (log : TopicLog) (record : Record) (disk : FileSystem)
    (result : Outcome Unit × FileSystem) (written : Bytes) : Prop where
  cut : written <+: serializeRecord record
  layout : StoreLayout (resolve log.dataDir) result.2
  extended : Extends (logFile (resolve log.dataDir) log.topic log.partitionId) written disk result.2
  complete : result.1 = .returned () → written = serializeRecord record

theorem StoreLayout.wayFree {disk : FileSystem} {base : Path} (layout : StoreLayout base disk)
    (topic : Bytes) : ∀ path, OnTheWay [] (base ++ [topic]) path →
      disk.find path = none ∨ disk.find path = some .directory := by
  rintro first ⟨_, last, nonempty, split, rfl⟩
  cases last using List.reverseRecOn with
  | nil =>
      rw [List.append_nil] at split
      rw [← split]
      cases found : disk.find (base ++ [topic]) with
      | none => exact Or.inl rfl
      | some node => exact Or.inr (by rw [(layout.topics topic node found).2])
  | append_singleton rest final =>
      rw [← List.append_assoc] at split
      obtain ⟨baseEq, _⟩ := List.append_inj' split rfl
      exact layout.free first ⟨first, rest, nonempty, baseEq, by simp⟩

theorem append_written {opened : FileSystem} {base : Path} {topic : Bytes} {partition : Int}
    {contents : Bytes} (layout : StoreLayout base opened) (range : InRange partition)
    (present : contents? opened (logFile base topic partition) = some contents) (bytes : Bytes) :
    StoreLayout base (appendBytes opened (logFile base topic partition) bytes) := by
  have found := contents?_eq_some_iff.mp present
  have parent := layout.parents topic _ _ found
  simp only [appendBytes, found]
  exact layout.setFile range _ parent

theorem openAppend_layout {prepared : FileSystem} {base : Path} {topic : Bytes} {partition : Int}
    (layout : StoreLayout base prepared) (range : InRange partition)
    (parent : prepared.find (base ++ [topic]) = some .directory) :
    ∃ opened, openAppend prepared (logFile base topic partition) = some opened ∧
      StoreLayout base opened := by
  unfold openAppend
  split
  · exact ⟨prepared, rfl, layout⟩
  · rename_i found
    obtain ⟨_, _, _, _, isFile⟩ := layout.files topic _ _ found
    simp at isFile
  · have above : (logFile base topic partition).dropLast = base ++ [topic] := by
      rw [logFile, List.append_cons, List.dropLast_concat]
    have isDir : isDirectory prepared (logFile base topic partition).dropLast = true := by
      rw [above]
      simp [isDirectory, parent]
    rw [if_pos ⟨by simp [logFile], isDir⟩]
    exact ⟨_, rfl, layout.setFile range [] parent⟩

theorem append_result (log : TopicLog) {disk : FileSystem} (noNul : 0 ∉ log.dataDir)
    (valid : ValidName log.topic) (range : InRange log.partitionId)
    (layout : StoreLayout (resolve log.dataDir) disk) (record : Record) (calls : AppendCalls) :
    ∃ written, AppendResult log record disk (log.append record calls disk) written := by
  obtain ⟨prepared, created⟩ :=
    createDirectories_isSome (layout.wayFree log.topic)
  have preparedLayout := layout.createDirectories valid created
  obtain ⟨opened, openedEq, openedLayout⟩ :=
    openAppend_layout preparedLayout range (find_topic_of_created created)
  obtain ⟨openedExtends, contents, present⟩ := openAppend_extends openedEq
  have preparedExtends : Extends (logFile (resolve log.dataDir) log.topic log.partitionId) []
      disk prepared := createDirectories_extends created
  have writtenLayout := append_written openedLayout range present
    (writeAll (serializeRecord record) calls.writes).1
  have writtenExtends := (preparedExtends.trans openedExtends).trans
    (appendBytes_extends present (writeAll (serializeRecord record) calls.writes).1)
  have cut := writeAll_prefix calls.writes (serializeRecord record)
  have whole := writeAll_returned calls.writes (serializeRecord record)
  simp only [List.nil_append] at writtenExtends
  unfold TopicLog.append
  rw [resolve_folder log noNul valid, resolve_logPath log noNul valid, created]
  simp only [openedEq]
  cases onceCall calls.createDirectories with
  | threw => exact ⟨[], by simp, layout, Extends.refl _ _, by simp⟩
  | crashed => exact ⟨[], by simp, layout, Extends.refl _ _, by simp⟩
  | returned _ =>
  cases retryCall calls.opens with
  | threw => exact ⟨[], by simp, preparedLayout, preparedExtends, by simp⟩
  | crashed => exact ⟨[], by simp, preparedLayout, preparedExtends, by simp⟩
  | returned _ =>
  exact ⟨_, cut, writtenLayout, writtenExtends, fun ended => whole (syncAndClose_returned ended)⟩

theorem append_ne_threw (log : TopicLog) {disk : FileSystem} (noNul : 0 ∉ log.dataDir)
    (valid : ValidName log.topic) (range : InRange log.partitionId)
    (layout : StoreLayout (resolve log.dataDir) disk) (record : Record) {calls : AppendCalls}
    (fine : calls.Unfailing) : (log.append record calls disk).1 ≠ .threw := by
  obtain ⟨prepared, created⟩ := createDirectories_isSome (layout.wayFree log.topic)
  obtain ⟨opened, openedEq, _⟩ := openAppend_layout (layout.createDirectories valid created) range
    (find_topic_of_created created)
  have made := onceCall_ne_threw fine.createDirectories
  have openedFine := retryCall_ne_threw fine.opens
  have wrote := writeAll_ne_threw fine.writes (serializeRecord record)
  unfold TopicLog.append
  rw [resolve_folder log noNul valid, resolve_logPath log noNul valid, created]
  simp only [openedEq]
  split
  · rename_i failed
    exact absurd failed made
  · simp
  · split
    · rename_i failed
      exact absurd failed openedFine
    · simp
    · exact syncAndClose_ne_threw fine wrote

end KafkaBroker
