import KafkaBroker.Lib.Table
import KafkaBroker.Lib.Text

/-!
A small POSIX file system: a finite tree of directories and byte files without
symbolic links, path resolution from the working directory, and the handful of
calls an append-only log needs.
-/

namespace Posix

open ByteText

abbrev Path := List Bytes

inductive Node
  | directory
  | file (contents : Bytes)
  deriving DecidableEq, Repr

/-- Nodes by path from the working directory, which itself always exists. -/
abbrev FileSystem := Table Path Node

def slash : Byte := 47

/-- What a system call sees of a string: the bytes before the first NUL. -/
def cString (text : Bytes) : Bytes := text.takeWhile fun byte => byte ≠ 0

def components (text : Bytes) : List Bytes := fields (fun byte => byte = slash) (cString text)

def resolveFrom (base : Path) : List Bytes → Path
  | [] => base
  | component :: rest =>
      if component = ascii "." then resolveFrom base rest
      else if component = ascii ".." then resolveFrom base.dropLast rest
      else resolveFrom (base ++ [component]) rest

/-- `..` takes off the name before it in the text, whether or not that is a directory, and an
absolute path starts where a relative one does. -/
def resolve (text : Bytes) : Path := resolveFrom [] (components text)

def isDirectory (disk : FileSystem) (path : Path) : Bool :=
  path = [] || disk.find path = some .directory

/-- `exists` and `is_directory`; the empty text names nothing. -/
def namesDirectory (disk : FileSystem) (text : Bytes) : Bool :=
  cString text ≠ [] && isDirectory disk (resolve text)

def contents? (disk : FileSystem) (path : Path) : Option Bytes :=
  match disk.find path with
  | some (.file contents) => some contents
  | _ => none

/-- `create_directories`, `none` when a component is a regular file. -/
def createDirectories (disk : FileSystem) (base : Path) : List Bytes → Option FileSystem
  | [] => some disk
  | component :: rest =>
      match disk.find (base ++ [component]) with
      | some .directory => createDirectories disk (base ++ [component]) rest
      | some (.file _) => none
      | none => createDirectories (disk.set (base ++ [component]) .directory)
          (base ++ [component]) rest

def openAppend (disk : FileSystem) (path : Path) : Option FileSystem :=
  match disk.find path with
  | some (.file _) => some disk
  | some .directory => none
  | none =>
      if path ≠ [] ∧ isDirectory disk path.dropLast then some (disk.set path (.file []))
      else none

def appendBytes (disk : FileSystem) (path : Path) (bytes : Bytes) : FileSystem :=
  match disk.find path with
  | some (.file contents) => disk.set path (.file (contents ++ bytes))
  | _ => disk

def resizeFile (disk : FileSystem) (path : Path) (size : Nat) : FileSystem :=
  match disk.find path with
  | some (.file contents) => disk.set path (.file (contents.take size))
  | _ => disk

def childName (folder path : Path) : Option Bytes :=
  if path.dropLast = folder then path.getLast? else none

/-- A directory listing, in the unspecified order of the file system. -/
def children (disk : FileSystem) (folder : Path) : List (Bytes × Node) :=
  disk.entries.filterMap fun entry =>
    (childName folder entry.1).map fun name => (name, entry.2)

/-! Path resolution. -/

/-- A name that denotes one entry of a directory. -/
def ValidName (name : Bytes) : Prop :=
  name ≠ [] ∧ name ≠ ascii "." ∧ name ≠ ascii ".." ∧ slash ∉ name ∧ 0 ∉ name

instance (name : Bytes) : Decidable (ValidName name) := inferInstanceAs (Decidable (_ ∧ _))

theorem resolveFrom_append (first second : List Bytes) : ∀ base,
    resolveFrom base (first ++ second) = resolveFrom (resolveFrom base first) second := by
  induction first with
  | nil =>
      intro base
      rfl
  | cons component rest ih =>
      intro base
      simp only [List.cons_append, resolveFrom]
      split
      · exact ih base
      · split
        · exact ih base.dropLast
        · exact ih (base ++ [component])

theorem cString_eq_self {text : Bytes} (noNul : 0 ∉ text) : cString text = text := by
  apply List.takeWhile_eq_self_iff.mpr
  intro byte member
  simpa using fun same : byte = 0 => noNul (same ▸ member)

theorem namesDirectory_eq {text : Bytes} (noNul : 0 ∉ text) (named : text ≠ [])
    (disk : FileSystem) : namesDirectory disk text = isDirectory disk (resolve text) := by
  simp [namesDirectory, cString_eq_self noNul, named]

theorem components_append {folder name : Bytes} (folderNul : 0 ∉ folder) (nameNul : 0 ∉ name) :
    components (folder ++ slash :: name) = components folder ++ components name := by
  have whole : 0 ∉ folder ++ slash :: name := by
    simp only [List.mem_append, List.mem_cons, not_or]
    exact ⟨folderNul, by decide, nameNul⟩
  rw [components, components, components, cString_eq_self whole, cString_eq_self folderNul,
    cString_eq_self nameNul]
  exact fields_append_cons (by simp) folder name

theorem components_validName {name : Bytes} (valid : ValidName name) : components name = [name] := by
  obtain ⟨nonempty, _, _, noSlash, noNul⟩ := valid
  rw [components, cString_eq_self noNul]
  apply fields_singleton nonempty
  intro byte member
  simpa using fun same : byte = slash => noSlash (same ▸ member)

theorem resolve_append_validName {folder name : Bytes} (folderNul : 0 ∉ folder)
    (valid : ValidName name) : resolve (folder ++ slash :: name) = resolve folder ++ [name] := by
  have nameNul := valid.2.2.2.2
  rw [resolve, components_append folderNul nameNul, components_validName valid,
    resolveFrom_append]
  simp only [resolveFrom, valid.2.1, valid.2.2.1, if_false]
  rfl

theorem mem_components {text component : Bytes} (listed : component ∈ components text) :
    component ≠ [] ∧ slash ∉ component ∧ 0 ∉ component := by
  simp only [components, fields, List.mem_filter, decide_eq_true_eq] at listed
  obtain ⟨listed, nonempty⟩ := listed
  refine ⟨nonempty, fun inside => ?_, fun inside => ?_⟩
  · simpa using (mem_splitOnP listed slash inside).1
  · have within := (mem_splitOnP listed 0 inside).2
    simpa using List.mem_takeWhile_imp within

theorem mem_resolveFrom {component : Bytes} (names : List Bytes) : ∀ {base : Path},
    component ∈ resolveFrom base names →
      component ∈ base ∨ component ∈ names ∧ component ≠ ascii "." ∧ component ≠ ascii ".." := by
  induction names with
  | nil => exact fun inside => Or.inl inside
  | cons first rest ih =>
      intro base inside
      simp only [resolveFrom] at inside
      split at inside
      · exact (ih inside).imp_right fun later => ⟨List.mem_cons_of_mem first later.1, later.2⟩
      · rename_i notDot
        split at inside
        · rcases ih inside with before | later
          · exact Or.inl (List.dropLast_subset base before)
          · exact Or.inr ⟨List.mem_cons_of_mem first later.1, later.2⟩
        · rename_i notDots
          rcases ih inside with before | later
          · rw [List.mem_append, List.mem_singleton] at before
            rcases before with base | rfl
            · exact Or.inl base
            · exact Or.inr ⟨by simp, notDot, notDots⟩
          · exact Or.inr ⟨List.mem_cons_of_mem first later.1, later.2⟩

theorem resolve_valid {text component : Bytes} (inside : component ∈ resolve text) :
    ValidName component := by
  rcases mem_resolveFrom (components text) inside with root | ⟨listed, notDot, notDots⟩
  · simp at root
  · obtain ⟨nonempty, noSlash, noNul⟩ := mem_components listed
    exact ⟨nonempty, notDot, notDots, noSlash, noNul⟩

/-! The calls. -/

/-- `path` is one of the directories on the way from `base` along `rest`. -/
def OnTheWay (base : Path) (rest : List Bytes) (path : Path) : Prop :=
  ∃ first last, first ≠ [] ∧ rest = first ++ last ∧ path = base ++ first

theorem onTheWay_cons {base : Path} {component : Bytes} {rest : List Bytes} {path : Path} :
    OnTheWay base (component :: rest) path ↔
      path = base ++ [component] ∨ OnTheWay (base ++ [component]) rest path := by
  constructor
  · rintro ⟨first, last, nonempty, split, rfl⟩
    cases first with
    | nil => exact absurd rfl nonempty
    | cons head tail =>
        simp only [List.cons_append, List.cons.injEq] at split
        obtain ⟨rfl, rfl⟩ := split
        by_cases final : tail = []
        · left
          rw [final]
        · right
          exact ⟨tail, last, final, rfl, by simp⟩
  · rintro (rfl | ⟨first, last, nonempty, rfl, rfl⟩)
    · exact ⟨[component], rest, by simp, rfl, rfl⟩
    · exact ⟨component :: first, last, by simp, rfl, by simp⟩

theorem createDirectories_find {rest : List Bytes} : ∀ {disk created : FileSystem} {base : Path},
    createDirectories disk base rest = some created → ∀ path,
      (OnTheWay base rest path ∧ created.find path = some .directory ∧
        (disk.find path = none ∨ disk.find path = some .directory)) ∨
      (¬OnTheWay base rest path ∧ created.find path = disk.find path) := by
  induction rest with
  | nil =>
      intro disk created base done path
      simp only [createDirectories, Option.some.injEq] at done
      subst done
      right
      refine ⟨?_, rfl⟩
      rintro ⟨first, last, nonempty, split, _⟩
      exact nonempty (List.append_eq_nil_iff.mp split.symm).1
  | cons component rest ih =>
      intro disk created base done path
      have final : ¬OnTheWay (base ++ [component]) rest (base ++ [component]) := by
        rintro ⟨first, last, nonempty, _, same⟩
        simp at same
        exact nonempty same
      simp only [createDirectories] at done
      rw [onTheWay_cons]
      split at done
      · rename_i present
        rcases ih done path with ⟨way, after, before⟩ | ⟨off, after⟩
        · exact Or.inl ⟨Or.inr way, after, before⟩
        · by_cases here : path = base ++ [component]
          · subst here
            exact Or.inl ⟨Or.inl rfl, by rw [after, present], Or.inr present⟩
          · exact Or.inr ⟨by simp [here, off], after⟩
      · simp at done
      · rename_i absent
        rcases ih done path with ⟨way, after, before⟩ | ⟨off, after⟩
        · refine Or.inl ⟨Or.inr way, after, ?_⟩
          by_cases here : path = base ++ [component]
          · exact absurd (here ▸ way) final
          · simpa [here] using before
        · by_cases here : path = base ++ [component]
          · subst here
            exact Or.inl ⟨Or.inl rfl, by simpa using after, Or.inl absent⟩
          · exact Or.inr ⟨by simp [here, off], by simpa [here] using after⟩

theorem createDirectories_isSome {rest : List Bytes} : ∀ {disk : FileSystem} {base : Path},
    (∀ path, OnTheWay base rest path →
      disk.find path = none ∨ disk.find path = some .directory) →
    ∃ created, createDirectories disk base rest = some created := by
  induction rest with
  | nil =>
      intro disk base _
      exact ⟨disk, rfl⟩
  | cons component rest ih =>
      intro disk base free
      have here := free (base ++ [component]) (onTheWay_cons.mpr (Or.inl rfl))
      have below (path : Path) (way : OnTheWay (base ++ [component]) rest path) :=
        free path (onTheWay_cons.mpr (Or.inr way))
      simp only [createDirectories]
      rcases here with absent | present
      · rw [absent]
        apply ih
        intro path way
        by_cases same : path = base ++ [component]
        · simp [same]
        · simpa [same] using below path way
      · rw [present]
        exact ih below

theorem openAppend_find {disk opened : FileSystem} {path other : Path}
    (done : openAppend disk path = some opened) (different : other ≠ path) :
    opened.find other = disk.find other := by
  simp only [openAppend] at done
  split at done
  · rw [Option.some.inj done]
  · cases done
  · split at done
    · rw [← Option.some.inj done, Table.find_set, if_neg different]
    · cases done

theorem appendBytes_isSome (disk : FileSystem) (path : Path) (bytes : Bytes) (other : Path) :
    ((appendBytes disk path bytes).find other).isSome = (disk.find other).isSome := by
  simp only [appendBytes]
  split
  · rename_i contents present
    rw [Table.find_set]
    split
    · rename_i here
      rw [here, present]
      rfl
    · rfl
  · rfl

theorem contents?_eq_some_iff {disk : FileSystem} {path : Path} {contents : Bytes} :
    contents? disk path = some contents ↔ disk.find path = some (.file contents) := by
  unfold contents?
  split
  · rename_i stored found
    simp [found]
  · rename_i notFile
    simp only [reduceCtorEq, false_iff]
    exact fun found => notFile contents found

theorem contents?_set (disk : FileSystem) (path query : Path) (contents : Bytes) :
    contents? (disk.set path (.file contents)) query =
      if query = path then some contents else contents? disk query := by
  unfold contents?
  by_cases same : query = path
  · simp [same]
  · simp [same]

theorem childName_eq_some_iff {folder path : Path} {name : Bytes} :
    childName folder path = some name ↔ path = folder ++ [name] := by
  constructor
  · intro named
    simp only [childName] at named
    split at named
    · rename_i inside
      rw [← inside]
      exact (List.dropLast_append_getLast? name (Option.mem_def.mpr named)).symm
    · simp at named
  · rintro rfl
    simp [childName]

theorem mem_children_iff (disk : FileSystem) (folder : Path) (name : Bytes) (node : Node) :
    (name, node) ∈ children disk folder ↔ disk.find (folder ++ [name]) = some node := by
  rw [← Table.mem_entries_iff]
  simp only [children, List.mem_filterMap, Option.map_eq_some_iff, Prod.mk.injEq,
    childName_eq_some_iff]
  constructor
  · rintro ⟨⟨path, stored⟩, member, found, inside, rfl, rfl⟩
    exact inside ▸ member
  · intro member
    exact ⟨⟨folder ++ [name], node⟩, member, name, rfl, rfl, rfl⟩

/-- A tree as the kernel keeps it: valid names, and every node in a directory. -/
def IsTree (disk : FileSystem) : Prop :=
  ∀ path ∈ disk.keys, ∀ name ∈ path.getLast?,
    ValidName name ∧ isDirectory disk path.dropLast = true

instance (disk : FileSystem) : Decidable (IsTree disk) :=
  inferInstanceAs (Decidable (∀ path ∈ disk.keys, _))

theorem IsTree.node {disk : FileSystem} (tree : IsTree disk) {folder : Path} {name : Bytes}
    {node : Node} (found : disk.find (folder ++ [name]) = some node) :
    ValidName name ∧ isDirectory disk folder = true := by
  have kept := tree (folder ++ [name]) (by rw [Table.mem_keys_iff, found]; rfl) name (by simp)
  rw [List.dropLast_concat] at kept
  exact kept

theorem children_names_nodup (disk : FileSystem) (folder : Path) :
    ((children disk folder).map Prod.fst).Nodup := by
  have paths : (disk.entries.map Sigma.fst).Nodup := disk.nodupKeys
  unfold children
  generalize disk.entries = entries at paths
  induction entries with
  | nil => simp
  | cons entry rest ih =>
      simp only [List.map_cons, List.nodup_cons] at paths
      obtain ⟨fresh, distinct⟩ := paths
      simp only [List.filterMap_cons]
      cases named : childName folder entry.1 with
      | none => simpa using ih distinct
      | some name =>
          simp only [Option.map_some, List.map_cons, List.nodup_cons]
          refine ⟨?_, ih distinct⟩
          intro again
          simp only [List.mem_map, List.mem_filterMap, Option.map_eq_some_iff,
            childName_eq_some_iff] at again
          obtain ⟨_, ⟨other, member, _, inside, rfl⟩, rfl⟩ := again
          rw [childName_eq_some_iff, ← inside] at named
          exact fresh (List.mem_map.mpr ⟨other, member, named.symm⟩)

end Posix
