import KafkaBroker.Rendering
import KafkaBroker.Store

/-!
The size of a `FETCH` response. A response takes all records from an offset to the end of
the list, so it fits a frame as long as every list that was ever built fits one.
-/

namespace KafkaBroker

open ByteText Posix

/-- The bytes of a list of records with a newline between neighbours. -/
def joinedSize (messages : List Bytes) : Nat :=
  (messages.map List.length).sum + (messages.length - 1)

def Broker.Small (broker : Broker) : Prop :=
  ∀ topic partition, joinedSize (broker.messages topic partition) ≤ kMaxPayloadSize

def Stores {σ : Type} (world : World σ) (env : Environment σ) (req : Request) : Prop :=
  req.type = .produce ∨ req.type = .replicate ∧ world.broker.role = .follower ∧
    AppendSucceeds world.broker.dataDir world.disk env.calls req

/-- A request that adds a record only where the list then still fits one frame. -/
def KeepsSmall {σ : Type} (world : World σ) (event : Bytes × Environment σ) : Prop :=
  Stores world event.2 (parseRequest event.1) →
    joinedSize (world.broker.messages (parseRequest event.1).topic
      (parseRequest event.1).partition ++ [(parseRequest event.1).payload]) ≤ kMaxPayloadSize

theorem joinedSize_drop_le (messages : List Bytes) (offset : Nat) :
    joinedSize (messages.drop offset) ≤ joinedSize messages := by
  have total : (messages.map List.length).sum =
      ((messages.take offset).map List.length).sum +
        ((messages.drop offset).map List.length).sum := by
    rw [← List.sum_append, ← List.map_append, List.take_append_drop]
  simp only [joinedSize, List.length_drop]
  omega

section Requests

variable {σ : Type} {world : World σ}

theorem fetch_length (small : world.broker.Small) (req : Request) :
    (fetch world.broker req).1.length ≤ kMaxPayloadSize := by
  rcases fetch_reply world.broker req with error | joined
  · rw [error]
    decide
  · rw [joined, joinLines_length]
    exact (joinedSize_drop_le _ _).trans (small req.topic req.partition)

theorem handleRequest_stores (env : Environment σ) (world : World σ) (req : Request) :
    (∀ topic partition, (handleRequest env world req).2.broker.messages topic partition =
        world.broker.messages topic partition) ∨
      Stores world env req ∧
        ∀ topic partition, (handleRequest env world req).2.broker.messages topic partition =
          world.broker.messages topic partition ++
            if topic = req.topic ∧ partition = req.partition then [req.payload] else [] := by
  obtain ⟨metrics, after, _⟩ := handleRequest_eq env world req
  rw [after]
  by_cases produces : req.type = .produce
  · simp only [dispatch, produces]
    exact (produce_appended env world req).imp_right fun pushed => ⟨Or.inl produces, pushed⟩
  by_cases replicates : req.type = .replicate
  · simp only [dispatch, replicates]
    by_cases succeeds : world.broker.role = .follower ∧
        AppendSucceeds world.broker.dataDir world.disk env.calls req
    · exact (replicate_appended env.calls world.broker world.disk req).imp_right fun pushed =>
        ⟨Or.inr ⟨replicates, succeeds⟩, pushed⟩
    · exact Or.inl (replicate_unchanged succeeds)
  obtain ⟨reply, groups, quiet⟩ := dispatch_quiet env world produces replicates
  rw [quiet]
  exact Or.inl fun _ _ => rfl

theorem requestStep_small {next : World σ} {event : Bytes × Environment σ}
    (small : world.broker.Small) (keeps : KeepsSmall world event)
    (stepped : requestStep world event = some next) : next.broker.Small := by
  have handled : next = (handleRequest event.2 world (parseRequest event.1)).2 := by
    simp only [requestStep] at stepped
    split at stepped
    · simp at stepped
    · split at stepped
      · simp at stepped
      · exact (Option.some.inj stepped).symm
  subst handled
  intro topic partition
  rcases handleRequest_stores event.2 world (parseRequest event.1) with same | ⟨stores, pushed⟩
  · rw [same]
    exact small topic partition
  · rw [pushed]
    split
    · rename_i here
      rw [here.1, here.2]
      exact keeps stores
    · rw [List.append_nil]
      exact small topic partition

end Requests

/-- As long as every list that is built fits one frame, every `FETCH` is answered within
one. -/
theorem fetch_fits_one_frame {σ : Type} {start world : World σ} (small : start.broker.Small)
    {events : List (Bytes × Environment σ)}
    (keeps : Transition.StepsMeet KeepsSmall requestStep start events)
    (reached : Transition.run requestStep start events = some world) {raw : Bytes}
    (fetches : (parseRequest raw).type = .fetch) (env : Environment σ) :
    ∃ response, (handleRequest env world (parseRequest raw)).1 = .returned response ∧
      response.length ≤ kMaxPayloadSize := by
  have fits := Transition.run_invariant_of_stepsMeet (fun world => world.broker.Small)
    (fun _ _ _ small keeps stepped => requestStep_small small keeps stepped) small keeps reached
  obtain ⟨_, _, returned, _⟩ := handleRequest_eq env world (parseRequest raw)
  refine ⟨(fetch world.broker (parseRequest raw)).1,
    (returned _).mpr ⟨(fetch world.broker (parseRequest raw)).2, ?_⟩, fetch_length fits _⟩
  simp only [dispatch, fetches]

instance {σ : Type} (world : World σ) (env : Environment σ) (req : Request) :
    Decidable (Stores world env req) :=
  inferInstanceAs (Decidable (req.type = .produce ∨ req.type = .replicate ∧
    world.broker.role = .follower ∧ AppendSucceeds world.broker.dataDir world.disk env.calls req))

instance {σ : Type} (world : World σ) (event : Bytes × Environment σ) :
    Decidable (KeepsSmall world event) :=
  inferInstanceAs (Decidable (_ → _))

def shortProduce : Bytes × Environment Unit :=
  (ascii "PRODUCE t 0 a", { link := fun peer _ => (peer, none), calls := smoothCalls 9 })

theorem fetch_fits_after_short :
    ∃ world, Transition.run requestStep (⟨{}, ∅, ()⟩ : World Unit) [shortProduce, shortProduce] =
        some world ∧
      ∃ response, (handleRequest shortProduce.2 world (parseRequest (ascii "FETCH t 0 0"))).1 =
        .returned response ∧ response.length ≤ kMaxPayloadSize := by
  have runs : (Transition.run requestStep (⟨{}, ∅, ()⟩ : World Unit)
      [shortProduce, shortProduce]).isSome := by
    decide +kernel
  have keeps : Transition.StepsMeet KeepsSmall requestStep (⟨{}, ∅, ()⟩ : World Unit)
      [shortProduce, shortProduce] := by
    decide +kernel
  have small : (⟨{}, ∅, ()⟩ : World Unit).broker.Small := fun _ _ => Nat.zero_le _
  obtain ⟨world, reached⟩ := Option.isSome_iff_exists.mp runs
  have fetches : (parseRequest (ascii "FETCH t 0 0")).type = .fetch := by
    decide +kernel
  exact ⟨world, reached, fetch_fits_one_frame small keeps reached fetches _⟩

def sizedProduce (size : Nat) : Bytes × Environment Unit :=
  (render (sizedRequest size),
    { link := fun peer _ => (peer, none), calls := smoothCalls (size + 8) })

theorem smoothCalls_append_ne_crashed (log : TopicLog) (record : Record) (disk : FileSystem)
    {size : Nat} (whole : (serializeRecord record).length ≤ size) :
    (log.append record (smoothCalls size) disk).1 ≠ .crashed := by
  have nonempty : serializeRecord record ≠ [] := by
    rw [← List.length_pos_iff, serializeRecord_length]
    omega
  have positive : size ≠ 0 := by
    rw [serializeRecord_length] at whole
    omega
  have wrote : (writeAll (serializeRecord record) [.wrote size]).2 = .returned () := by
    simp [writeAll, nonempty, positive, whole]
  simp only [TopicLog.append, smoothCalls, onceCall, retryCall]
  split
  · simp
  · split
    · simp
    · simp [syncAndClose, retryCall, onceCall, wrote]

theorem produce_ne_crashed {σ : Type} {env : Environment σ} {world : World σ} {req : Request}
    (alive : ∀ log : TopicLog, (log.append ⟨req.payload⟩ env.calls world.disk).1 ≠ .crashed) :
    (produce env world req).1 ≠ .crashed := by
  have lived : (appendLocal world.broker world.disk env.calls req).1 ≠ .crashed := by
    simp only [appendLocal]
    split
    · simp
    · split
      · simp
      · split
        · simp
        · simp
        · rename_i log _ _ died
          exact absurd died (alive log)
  simp only [produce]
  split
  · simp
  · contradiction
  · simp
  · split
    · split
      · simp
      · simp
    · simp

theorem sizedProduce_step {size : Nat} (positive : 0 < size) (short : size + 12 ≤ kMaxPayloadSize)
    (world : World Unit) (ready : Appendable world.broker world.disk (sizedRequest size)) :
    ∃ next, requestStep world (sizedProduce size) = some next ∧
      Pushed (sizedRequest size) world.broker next.broker ∧
      Appendable next.broker next.disk (sizedRequest size) := by
  have parsed : parseRequest (sizedProduce size).1 = sizedRequest size :=
    parse_sizedRequest positive
  have framed : ¬(sizedProduce size).1.length > kMaxPayloadSize := by
    rw [sizedProduce, render_sizedRequest_length]
    omega
  have produces : dispatch (sizedProduce size).2 world (sizedRequest size) =
      produce (sizedProduce size).2 world (sizedRequest size) := rfl
  obtain ⟨written, logged, pushed, _⟩ := produce_spec (sizedProduce size).2 ready
  obtain ⟨metrics, after, _, _, crashes⟩ :=
    handleRequest_eq (sizedProduce size).2 world (sizedRequest size)
  rw [produces] at after crashes
  have alive : (handleRequest (sizedProduce size).2 world (sizedRequest size)).1 ≠ .crashed := by
    rw [ne_eq, crashes]
    apply produce_ne_crashed
    intro log
    apply smoothCalls_append_ne_crashed
    rw [serializeRecord_length, sizedRequest, List.length_replicate]
    omega
  refine ⟨(handleRequest (sizedProduce size).2 world (sizedRequest size)).2, ?_, ?_, ?_⟩
  · simp only [requestStep, if_neg framed, parsed]
  · rw [after]
    exact ⟨pushed.regular, pushed.stored, pushed.kept, pushed.messages, pushed.groups,
      pushed.role, pushed.port, pushed.dir⟩
  · rw [after]
    exact ⟨pushed.dir ▸ ready.noNul, pushed.dir ▸ logged.layout, pushed.regular, ready.valid,
      ready.range⟩

theorem fetch_two_sized {size : Nat} (positive : 0 < size) (short : size + 12 ≤ kMaxPayloadSize) :
    ∃ world, Transition.run requestStep (⟨{}, ∅, ()⟩ : World Unit)
        [sizedProduce size, sizedProduce size] = some world ∧
      ∃ response, (handleRequest (sizedProduce size).2 world
          (parseRequest (ascii "FETCH t 0 0"))).1 = .returned response ∧
        response.length = 2 * size + 1 := by
  have valid : ValidName (ascii "t") := by decide
  have range : InRange 0 := by simp [InRange, kDefaultPartitionCount]
  have start : Appendable ({} : Broker) ∅ (sizedRequest size) :=
    ⟨by decide, (freshStore_empty _).layout, by simp [Broker.Regular], valid, range⟩
  obtain ⟨middle, first, before, ready⟩ := sizedProduce_step positive short ⟨{}, ∅, ()⟩ start
  obtain ⟨world, second, pushed, after⟩ := sizedProduce_step positive short middle ready
  have parsed : parseRequest (ascii "FETCH t 0 0") = { type := .fetch, topic := ascii "t" } := by
    decide +kernel
  have stored : world.broker.messages (ascii "t") 0 =
      [(sizedRequest size).payload, (sizedRequest size).payload] := by
    rw [pushed.messages, before.messages]
    rfl
  have answered : (handleRequest (sizedProduce size).2 world
      { type := .fetch, topic := ascii "t" }).1 =
        .returned (joinLines ((world.broker.messages (ascii "t") 0).drop 0)) :=
    handle_fetch (sizedProduce size).2 rfl after.regular pushed.stored (by decide)
  rw [parsed]
  refine ⟨world, ?_, _, answered, ?_⟩
  · rw [Transition.run_cons, first, Option.bind_some, Transition.run_cons, second]
    rfl
  · rw [stored, List.drop_zero, joinLines_length]
    simp only [List.map_cons, List.map_nil, List.sum_cons, List.sum_nil, List.length_cons,
      List.length_nil, sizedRequest, List.length_replicate]
    omega

/-- Each of the two records fits a frame; what a `FETCH` from the start answers does not. -/
theorem fetch_exceeds_frame :
    ∃ world, Transition.run requestStep (⟨{}, ∅, ()⟩ : World Unit)
        [sizedProduce 40000, sizedProduce 40000] = some world ∧
      ∃ response, (handleRequest (sizedProduce 40000).2 world
          (parseRequest (ascii "FETCH t 0 0"))).1 = .returned response ∧
        ¬response.length ≤ kMaxPayloadSize := by
  have short : 40000 + 12 ≤ kMaxPayloadSize := by decide
  obtain ⟨world, reached, response, answered, size⟩ := fetch_two_sized (by omega) short
  refine ⟨world, reached, response, answered, ?_⟩
  rw [size]
  decide

end KafkaBroker
