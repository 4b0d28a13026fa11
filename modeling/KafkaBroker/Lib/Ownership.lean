import KafkaBroker.Lib.Table
import KafkaBroker.Lib.Transition

/-!
Resources that a system hands out under names and takes back, after which it may hand out the
same name again. Whoever gives back what is not his own takes it from its next owner. A ledger
names the owner with everything that is done; it is proper if nobody uses, gives back or hands
over what he does not own.
-/

namespace Ownership

variable {α ω : Type} [DecidableEq α] [DecidableEq ω]

inductive Use (α : Type)
  | acquire (item : α)
  | use (item : α)
  | release (item : α)
  deriving DecidableEq, Repr

inductive Entry (ω α : Type)
  | made (owner : ω) (use : Use α)
  | handed (owner : ω) (item : α) (heir : ω)
  deriving DecidableEq, Repr

/-- The owners of what is handed out, after a proper entry. -/
def step (held : Table α ω) : Entry ω α → Option (Table α ω)
  | .made owner (.acquire item) =>
      if (held.find item).isSome then none else some (held.set item owner)
  | .made owner (.use item) => if held.find item = some owner then some held else none
  | .made owner (.release item) =>
      if held.find item = some owner then some (held.remove item) else none
  | .handed owner item heir =>
      if held.find item = some owner then some (held.set item heir) else none

structure Ledger (ω α : Type) [DecidableEq α] where
  held : Table α ω := ∅
  entries : List (Entry ω α) := []

/-- The system carries out what it is asked for, proper or not. -/
def Ledger.enter (ledger : Ledger ω α) (entry : Entry ω α) : Ledger ω α where
  entries := ledger.entries ++ [entry]
  held := match entry with
    | .made owner (.acquire item) => ledger.held.set item owner
    | .made _ (.use _) => ledger.held
    | .made _ (.release item) => ledger.held.remove item
    | .handed _ item heir => ledger.held.set item heir

def Ledger.make (ledger : Ledger ω α) (owner : ω) (uses : List (Use α)) : Ledger ω α :=
  uses.foldl (fun ledger use => ledger.enter (.made owner use)) ledger

/-- All entries were proper, and the system agrees with the owners about who they are. -/
structure Accounts (ledger : Ledger ω α) (owns : ω → α → Prop) : Prop where
  proper : Transition.run step ∅ ledger.entries = some ledger.held
  held : ∀ item owner, ledger.held.find item = some owner ↔ owns owner item

section Rules

variable {ledger : Ledger ω α} {owns : ω → α → Prop} {owner : ω} {item : α}

theorem accounts_empty : Accounts ({} : Ledger ω α) fun _ _ => False :=
  ⟨rfl, by simp⟩

theorem Accounts.unique (accounts : Accounts ledger owns) {first second : ω}
    (left : owns first item) (right : owns second item) : first = second := by
  rw [← accounts.held] at left right
  exact Option.some.inj (left.symm.trans right)

theorem Accounts.congr (accounts : Accounts ledger owns) {after : ω → α → Prop}
    (same : ∀ owner item, after owner item ↔ owns owner item) : Accounts ledger after :=
  ⟨accounts.proper, fun item owner => (accounts.held item owner).trans (same owner item).symm⟩

theorem Accounts.entered (accounts : Accounts ledger owns) {entry : Entry ω α}
    (proper : step ledger.held entry = some (ledger.enter entry).held) :
    Transition.run step ∅ (ledger.enter entry).entries = some (ledger.enter entry).held := by
  have last : Transition.run step ledger.held [entry] = some (ledger.enter entry).held := by
    rw [Transition.run_cons, proper]
    rfl
  exact (Transition.run_append accounts.proper [entry]).trans last

theorem Accounts.acquire (accounts : Accounts ledger owns) (fresh : ledger.held.find item = none)
    (owner : ω) : Accounts (ledger.enter (.made owner (.acquire item)))
      fun other query => owns other query ∨ other = owner ∧ query = item := by
  refine ⟨accounts.entered ?_, fun query other => ?_⟩
  · simp [step, Ledger.enter, fresh]
  · simp only [Ledger.enter, Table.find_set]
    split
    · rename_i same
      have unowned : ¬owns other item := by simp [← accounts.held, fresh]
      simp [same, unowned, eq_comm]
    · rename_i different
      simp [different, accounts.held]

theorem Accounts.use (accounts : Accounts ledger owns) (owned : owns owner item) :
    Accounts (ledger.enter (.made owner (.use item))) owns := by
  rw [← accounts.held] at owned
  refine ⟨accounts.entered ?_, accounts.held⟩
  simp [step, Ledger.enter, owned]

theorem Accounts.release (accounts : Accounts ledger owns) (owned : owns owner item) :
    Accounts (ledger.enter (.made owner (.release item)))
      fun other query => owns other query ∧ query ≠ item := by
  rw [← accounts.held] at owned
  refine ⟨accounts.entered ?_, fun query other => ?_⟩
  · simp [step, Ledger.enter, owned]
  · simp only [Ledger.enter, Table.find_remove]
    split
    · rename_i same
      simp [same]
    · rename_i different
      simp [different, accounts.held]

theorem Accounts.hand (accounts : Accounts ledger owns) (owned : owns owner item) (heir : ω) :
    Accounts (ledger.enter (.handed owner item heir))
      fun other query => if query = item then other = heir else owns other query := by
  rw [← accounts.held] at owned
  refine ⟨accounts.entered ?_, fun query other => ?_⟩
  · simp [step, Ledger.enter, owned]
  · simp only [Ledger.enter, Table.find_set]
    split
    · simp [eq_comm]
    · exact accounts.held query other

theorem Accounts.giveBack (accounts : Accounts ledger owns) (fresh : ledger.held.find item = none)
    {later : Ledger ω α}
    (acquired : Accounts later fun other query => owns other query ∨ other = owner ∧ query = item) :
    Accounts (later.enter (.made owner (.release item))) owns := by
  have returned := acquired.release (Or.inr ⟨rfl, rfl⟩)
  refine returned.congr fun other query => ?_
  have kept : owns other query → query ≠ item := by
    rintro owned rfl
    simp [← accounts.held, fresh] at owned
  tauto

end Rules

end Ownership
