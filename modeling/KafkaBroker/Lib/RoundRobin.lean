import Mathlib.Data.Int.CardIntervalMod

/-!
Round-robin sharing of numbered items among distinct workers: item `i` goes to
worker `i % n`. Every item has one owner and the shares differ by at most one.
-/

namespace RoundRobin

variable {α : Type}

def owner (workers : List α) (nobody : α) (item : Nat) : α :=
  workers.getD (item % workers.length) nobody

variable {workers : List α} {nobody : α}

theorem owner_eq_getElem (item : Nat) (bound : item % workers.length < workers.length) :
    owner workers nobody item = workers[item % workers.length] := by
  simp [owner, bound]

theorem owner_mem (nonempty : workers ≠ []) (item : Nat) :
    owner workers nobody item ∈ workers := by
  have bound := Nat.mod_lt item (List.length_pos_iff.mpr nonempty)
  rw [owner_eq_getElem item bound]
  exact List.getElem_mem bound

theorem length_filter_lt {lt : α → α → Prop} [DecidableRel lt] [Std.Asymm lt]
    (sorted : workers.Pairwise lt) {place : Nat} (bound : place < workers.length) :
    (workers.filter fun worker => lt worker workers[place]).length = place := by
  induction workers generalizing place with
  | nil => simp at bound
  | cons first rest ih =>
      rw [List.pairwise_cons] at sorted
      cases place with
      | zero =>
          have larger : ∀ worker ∈ rest, ¬lt worker first := fun worker member =>
            Std.Asymm.asymm _ _ (sorted.1 worker member)
          have self : ¬lt first first := fun less => Std.Asymm.asymm _ _ less less
          simpa [self] using larger
      | succ place =>
          rw [List.length_cons, Nat.add_lt_add_iff_right] at bound
          have less := sorted.1 _ (List.getElem_mem bound)
          simp [less, ih sorted.2 bound]

variable [DecidableEq α]

/-- The items of one worker, in order. -/
def share (workers : List α) (nobody : α) (count : Nat) (worker : α) : List Nat :=
  (List.range count).filter fun item => owner workers nobody item = worker

@[simp] theorem mem_share_iff {count item : Nat} {worker : α} :
    item ∈ share workers nobody count worker ↔
      item < count ∧ owner workers nobody item = worker := by
  simp [share]

theorem share_nodup (count : Nat) (worker : α) : (share workers nobody count worker).Nodup :=
  List.nodup_range.filter _

theorem share_eq_nil (nonempty : workers ≠ []) (count : Nat) {worker : α}
    (absent : worker ∉ workers) : share workers nobody count worker = [] := by
  rw [List.eq_nil_iff_forall_not_mem]
  intro item member
  rw [mem_share_iff] at member
  exact absent (member.2 ▸ owner_mem nonempty item)

theorem share_length (distinct : workers.Nodup) (count : Nat) {place : Nat}
    (bound : place < workers.length) :
    (share workers nobody count workers[place]).length =
      count / workers.length + if place < count % workers.length then 1 else 0 := by
  have positive : 0 < workers.length := by omega
  have owned (item : Nat) :
      owner workers nobody item = workers[place] ↔ item ≡ place [MOD workers.length] := by
    have inside := Nat.mod_lt item positive
    rw [owner_eq_getElem item inside, distinct.getElem_inj_iff, Nat.ModEq,
      Nat.mod_eq_of_lt bound]
  calc (share workers nobody count workers[place]).length
      = count.count (· ≡ place [MOD workers.length]) := by
        rw [Nat.count_eq_card_filter_range]
        simp only [share, owned]
        rfl
    _ = count / workers.length + if place < count % workers.length then 1 else 0 := by
        rw [Nat.count_modEq_card count positive, Nat.mod_eq_of_lt bound]

theorem share_fair (distinct : workers.Nodup) (count : Nat) {first second : α}
    (firstIn : first ∈ workers) (secondIn : second ∈ workers) :
    (share workers nobody count first).length ≤
      (share workers nobody count second).length + 1 := by
  obtain ⟨firstPlace, firstBound, rfl⟩ := List.getElem_of_mem firstIn
  obtain ⟨secondPlace, secondBound, rfl⟩ := List.getElem_of_mem secondIn
  rw [share_length distinct count firstBound, share_length distinct count secondBound]
  split <;> split <;> omega

theorem share_of_sorted {lt : α → α → Prop} [DecidableRel lt] [Std.Asymm lt]
    (sorted : workers.Pairwise lt) (count : Nat) {worker : α} (member : worker ∈ workers) :
    share workers nobody count worker = (List.range count).filter fun item =>
      item % workers.length = (workers.filter fun other => lt other worker).length := by
  obtain ⟨place, bound, rfl⟩ := List.getElem_of_mem member
  have distinct : workers.Nodup := sorted.imp fun less same => by
    subst same
    exact Std.Asymm.asymm _ _ less less
  rw [length_filter_lt sorted bound]
  apply List.filter_congr
  intro item _
  have inside := Nat.mod_lt item (Nat.zero_lt_of_lt bound)
  rw [owner_eq_getElem item inside]
  exact decide_eq_decide.mpr distinct.getElem_inj_iff

end RoundRobin
