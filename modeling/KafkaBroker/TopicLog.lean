import KafkaBroker.Record
import KafkaBroker.TopicLogCore

/-!
The call loops of `TopicLogCore`: whatever the system calls answer, the write loop
leaves a prefix of its buffer in the file, the whole buffer when it returns, and an
append with no failing call does not throw.
-/

namespace KafkaBroker

open ByteText Posix

/-! The write loop. -/

theorem writeAll_prefix (calls : List WriteCall) : ∀ pending : Bytes,
    (writeAll pending calls).1 <+: pending := by
  induction calls with
  | nil => simp [writeAll]
  | cons call rest ih =>
      intro pending
      simp only [writeAll]
      split
      · simp
      · split
        · exact ih pending
        · simp
        · rename_i count
          split
          · simp
          · conv_rhs => rw [← List.take_append_drop count pending]
            exact (List.prefix_append_right_inj _).mpr (ih (pending.drop count))

theorem writeAll_returned (calls : List WriteCall) : ∀ pending : Bytes,
    (writeAll pending calls).2 = .returned () → (writeAll pending calls).1 = pending := by
  induction calls with
  | nil =>
      intro pending ended
      simp only [writeAll] at ended ⊢
      split at ended
      · rename_i empty
        exact empty.symm
      · simp at ended
  | cons call rest ih =>
      intro pending ended
      simp only [writeAll] at ended ⊢
      split
      · rename_i empty
        exact empty.symm
      · rename_i nonempty
        simp only [nonempty, if_false] at ended
        split at ended
        · exact ih pending ended
        · simp at ended
        · rename_i count
          split at ended
          · simp at ended
          · rename_i progress
            simp only [progress, if_false]
            rw [ih (pending.drop count) ended, List.take_append_drop]

/-- No call reports an error; interrupted calls that are retried are fine. -/
structure AppendCalls.Unfailing (calls : AppendCalls) : Prop where
  createDirectories : ∀ call ∈ calls.createDirectories, call = .succeeded
  opens : .failed ∉ calls.opens
  writes : ∀ call ∈ calls.writes, call ≠ .failed ∧ call ≠ .wrote 0
  syncs : .failed ∉ calls.syncs
  close : ∀ call ∈ calls.close, call = .succeeded

theorem onceCall_ne_threw {call : Option Call} (fine : ∀ result ∈ call, result = .succeeded) :
    onceCall call ≠ .threw := by
  cases call with
  | none => simp [onceCall]
  | some result => simp [fine result (by simp), onceCall]

theorem retryCall_ne_threw {calls : List Call} (fine : .failed ∉ calls) :
    retryCall calls ≠ .threw := by
  induction calls with
  | nil => simp [retryCall]
  | cons call rest ih =>
      simp only [List.mem_cons, not_or] at fine
      cases call with
      | succeeded => simp [retryCall]
      | interrupted => exact ih fine.2
      | failed => exact absurd rfl fine.1

theorem writeAll_ne_threw {calls : List WriteCall}
    (fine : ∀ call ∈ calls, call ≠ .failed ∧ call ≠ .wrote 0) : ∀ pending : Bytes,
    (writeAll pending calls).2 ≠ .threw := by
  induction calls with
  | nil =>
      intro pending
      simp only [writeAll]
      split <;> simp
  | cons call rest ih =>
      intro pending
      have head := fine call (by simp)
      have tail := ih fun other member => fine other (by simp [member])
      simp only [writeAll]
      split
      · simp
      · cases call with
        | interrupted => exact tail pending
        | failed => exact absurd rfl head.1
        | wrote count =>
            have progress : count ≠ 0 := by
              rintro rfl
              exact head.2 rfl
            simp only [progress, if_false]
            exact tail _

theorem syncAndClose_returned {calls : AppendCalls} {wrote : Outcome Unit}
    (ended : syncAndClose calls wrote = .returned ()) : wrote = .returned () := by
  cases wrote with
  | returned _ => rfl
  | threw => simp [syncAndClose] at ended
  | crashed => simp [syncAndClose] at ended

theorem syncAndClose_ne_threw {calls : AppendCalls} (fine : calls.Unfailing)
    {wrote : Outcome Unit} (went : wrote ≠ .threw) : syncAndClose calls wrote ≠ .threw := by
  have synced := retryCall_ne_threw fine.syncs
  unfold syncAndClose
  split
  · exact absurd rfl went
  · simp
  · split
    · rename_i failed
      exact absurd failed synced
    · simp
    · exact onceCall_ne_threw fine.close

end KafkaBroker
