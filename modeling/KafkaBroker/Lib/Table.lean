import Mathlib.Data.List.AList

/-!
Finite maps: association lists of one value type under the operations of the C++
map classes, with one lookup equation for each. The order of the entries stands
for an iteration order the program must not depend on.
-/

abbrev Table (κ ν : Type) := AList fun _ : κ => ν

namespace Table

variable {κ ν : Type} [DecidableEq κ]

def find (table : Table κ ν) (key : κ) : Option ν := AList.lookup key table

/-- Assignment through `operator[]`. -/
def set (table : Table κ ν) (key : κ) (value : ν) : Table κ ν := AList.insert key value table

def remove (table : Table κ ν) (key : κ) : Table κ ν := AList.erase key table

/-- Insertion that leaves an existing entry alone. -/
def emplace (table : Table κ ν) (key : κ) (value : ν) : Table κ ν :=
  if (table.find key).isSome then table else table.set key value

def mapValues (change : ν → ν) (table : Table κ ν) : Table κ ν :=
  ⟨table.entries.map (Sigma.map id fun _ => change), table.nodupKeys.map₂ (fun _ => change) _⟩

@[simp] theorem find_empty (key : κ) : find (∅ : Table κ ν) key = none := by
  rfl

@[simp] theorem find_set (table : Table κ ν) (key query : κ) (value : ν) :
    (table.set key value).find query = if query = key then some value else table.find query := by
  split
  · rename_i same
    subst same
    exact AList.lookup_insert table
  · rename_i different
    exact AList.lookup_insert_ne different

@[simp] theorem set_set (table : Table κ ν) (key : κ) (old new : ν) :
    (table.set key old).set key new = table.set key new :=
  AList.insert_insert table

@[simp] theorem find_remove (table : Table κ ν) (key query : κ) :
    (table.remove key).find query = if query = key then none else table.find query := by
  split
  · rename_i same
    subst same
    exact AList.lookup_erase query table
  · rename_i different
    exact AList.lookup_erase_ne different

@[simp] theorem find_emplace (table : Table κ ν) (key query : κ) (value : ν) :
    (table.emplace key value).find query =
      if query = key then some ((table.find key).getD value) else table.find query := by
  unfold emplace
  cases found : table.find key with
  | none => simp
  | some old =>
      by_cases same : query = key
      · simp [same, found]
      · simp [same]

theorem emplace_of_find {table : Table κ ν} {key : κ} {old : ν} (found : table.find key = some old)
    (value : ν) : table.emplace key value = table := by
  simp [emplace, found]

@[simp] theorem emplace_set (table : Table κ ν) (key : κ) (old new : ν) :
    (table.emplace key old).set key new = table.set key new := by
  unfold emplace
  split <;> simp

@[simp] theorem find_mapValues (change : ν → ν) (table : Table κ ν) (key : κ) :
    (mapValues change table).find key = (table.find key).map change :=
  List.dlookup_map₂ key

theorem mem_entries_iff (table : Table κ ν) (key : κ) (value : ν) :
    (⟨key, value⟩ : Sigma fun _ : κ => ν) ∈ table.entries ↔ table.find key = some value :=
  (AList.mem_lookup_iff (s := table)).symm

theorem mem_keys_iff (table : Table κ ν) (key : κ) :
    key ∈ table.keys ↔ (table.find key).isSome = true :=
  AList.lookup_isSome.symm

theorem entries_eq_nil_iff (table : Table κ ν) :
    table.entries = [] ↔ ∀ key, table.find key = none := by
  constructor
  · intro empty key
    cases found : table.find key with
    | none => rfl
    | some value =>
        have member := (mem_entries_iff table key value).mpr found
        simp [empty] at member
  · intro absent
    cases entriesEq : table.entries with
    | nil => rfl
    | cons entry rest =>
        obtain ⟨key, value⟩ := entry
        have member : (⟨key, value⟩ : Sigma fun _ : κ => ν) ∈ table.entries := by
          simp [entriesEq]
        rw [mem_entries_iff, absent key] at member
        simp at member

end Table
