import Mathlib.Data.List.Basic

/-!
Runs of a labelled transition system given by a partial step function, and the
rules every safety proof of this development uses: an invariant kept by each
step holds after every run, also when the steps are only known to meet a
condition on the state they start from or is about all that was observed so far, a
system whose steps are runs of another one has no other runs than that one, and a party
whose every step takes one off a count makes no more steps than that.
-/

namespace Transition

variable {σ ε : Type}

/-- The state after a list of events, when every one of them is enabled. -/
def run (step : σ → ε → Option σ) : σ → List ε → Option σ
  | state, [] => some state
  | state, event :: rest => (step state event).bind fun next => run step next rest

@[simp] theorem run_nil (step : σ → ε → Option σ) (state : σ) :
    run step state [] = some state := by
  rfl

theorem run_cons (step : σ → ε → Option σ) (state : σ) (event : ε) (rest : List ε) :
    run step state (event :: rest) =
      (step state event).bind fun next => run step next rest := by
  rfl

theorem run_cons_eq_some {step : σ → ε → Option σ} {state final : σ} {event : ε}
    {rest : List ε} (finished : run step state (event :: rest) = some final) :
    ∃ next, step state event = some next ∧ run step next rest = some final := by
  rw [run_cons] at finished
  exact Option.bind_eq_some_iff.mp finished

theorem run_append {step : σ → ε → Option σ} {state middle : σ} {first : List ε}
    (reached : run step state first = some middle) (second : List ε) :
    run step state (first ++ second) = run step middle second := by
  induction first generalizing state with
  | nil =>
      simp only [run_nil, Option.some.injEq] at reached
      rw [reached, List.nil_append]
  | cons event rest ih =>
      obtain ⟨next, stepped, remaining⟩ := run_cons_eq_some reached
      rw [List.cons_append, run_cons, stepped, Option.bind_some, ih remaining]

/-- Every step of the run starts in a state that meets the condition. -/
def StepsMeet (condition : σ → ε → Prop) (step : σ → ε → Option σ) : σ → List ε → Prop
  | _, [] => True
  | state, event :: rest => condition state event ∧
      ∀ next, step state event = some next → StepsMeet condition step next rest

instance decidableStepsMeet {condition : σ → ε → Prop} [∀ state event, Decidable (condition state event)]
    {step : σ → ε → Option σ} : ∀ (state : σ) (events : List ε),
    Decidable (StepsMeet condition step state events)
  | _, [] => isTrue trivial
  | state, event :: rest =>
      have (next : σ) : Decidable (StepsMeet condition step next rest) :=
        decidableStepsMeet next rest
      inferInstanceAs (Decidable (condition state event ∧
        ∀ next ∈ step state event, StepsMeet condition step next rest))

theorem stepsMeet_append {condition : σ → ε → Prop} {step : σ → ε → Option σ} {state middle : σ}
    {first second : List ε} (reached : run step state first = some middle)
    (meets : StepsMeet condition step state (first ++ second)) :
    StepsMeet condition step state first ∧ StepsMeet condition step middle second := by
  induction first generalizing state with
  | nil =>
      simp only [run_nil, Option.some.injEq] at reached
      exact ⟨trivial, reached ▸ meets⟩
  | cons event rest ih =>
      obtain ⟨next, stepped, remaining⟩ := run_cons_eq_some reached
      obtain ⟨before, after⟩ := ih remaining (meets.2 next stepped)
      refine ⟨⟨meets.1, fun other also => ?_⟩, after⟩
      rw [stepped, Option.some.injEq] at also
      exact also ▸ before

theorem stepsMeet_and {first second : σ → ε → Prop} {step : σ → ε → Option σ} {events : List ε}
    {state : σ} (left : StepsMeet first step state events)
    (right : StepsMeet second step state events) :
    StepsMeet (fun state event => first state event ∧ second state event) step state events := by
  induction events generalizing state with
  | nil => trivial
  | cons event rest ih =>
      exact ⟨⟨left.1, right.1⟩, fun next stepped => ih (left.2 next stepped) (right.2 next stepped)⟩

theorem StepsMeet.imp {first second : σ → ε → Prop} {step : σ → ε → Option σ}
    (weaker : ∀ state event, first state event → second state event) {events : List ε} {state : σ}
    (meets : StepsMeet first step state events) : StepsMeet second step state events := by
  induction events generalizing state with
  | nil => trivial
  | cons event rest ih =>
      exact ⟨weaker state event meets.1, fun next stepped => ih (meets.2 next stepped)⟩

theorem run_invariant_of_stepsMeet {condition : σ → ε → Prop} {step : σ → ε → Option σ}
    (invariant : σ → Prop)
    (preserved : ∀ state event next, invariant state → condition state event →
      step state event = some next → invariant next)
    {events : List ε} {state final : σ} (initial : invariant state)
    (meets : StepsMeet condition step state events)
    (finished : run step state events = some final) : invariant final := by
  induction events generalizing state with
  | nil =>
      simp only [run_nil, Option.some.injEq] at finished
      exact finished ▸ initial
  | cons event rest ih =>
      obtain ⟨next, stepped, remaining⟩ := run_cons_eq_some finished
      exact ih (preserved state event next initial meets.1 stepped)
        (meets.2 next stepped) remaining

theorem run_invariant {step : σ → ε → Option σ} (invariant : σ → Prop)
    (preserved : ∀ state event next, invariant state → step state event = some next →
      invariant next)
    {events : List ε} {state final : σ} (initial : invariant state)
    (finished : run step state events = some final) : invariant final := by
  induction events generalizing state with
  | nil =>
      simp only [run_nil, Option.some.injEq] at finished
      exact finished ▸ initial
  | cons event rest ih =>
      obtain ⟨next, stepped, remaining⟩ := run_cons_eq_some finished
      exact ih (preserved state event next initial stepped) remaining

theorem run_progress {condition : σ → ε → Prop} {step : σ → ε → Option σ} (invariant : σ → Prop)
    (progress : ∀ state event, invariant state → condition state event →
      ∃ next, step state event = some next ∧ invariant next)
    {events : List ε} {state : σ} (initial : invariant state)
    (meets : StepsMeet condition step state events) :
    ∃ final, run step state events = some final ∧ invariant final := by
  induction events generalizing state with
  | nil => exact ⟨state, rfl, initial⟩
  | cons event rest ih =>
      obtain ⟨next, stepped, kept⟩ := progress state event initial meets.1
      obtain ⟨final, finished, reached⟩ := ih kept (meets.2 next stepped)
      exact ⟨final, by rw [run_cons, stepped, Option.bind_some, finished], reached⟩

theorem stepsMeet_of_forall {allowed : ε → Prop} {step : σ → ε → Option σ} {events : List ε}
    (all : ∀ event ∈ events, allowed event) (state : σ) :
    StepsMeet (fun _ event => allowed event) step state events := by
  induction events generalizing state with
  | nil => trivial
  | cons event rest ih =>
      exact ⟨all event (by simp), fun next _ => ih (fun other member => all other (by simp [member]))
        next⟩

theorem run_countdown {step : σ → ε → Option σ} {condition : σ → ε → Prop} (own : ε → Bool)
    (left : σ → Nat → Prop)
    (counted : ∀ state event next count, left state count → own event = true →
      step state event = some next → ∃ rest, count = rest + 1 ∧ left next rest)
    (kept : ∀ state event next count, left state count → condition state event →
      own event = false → step state event = some next → left next count)
    {events : List ε} {state final : σ} {count : Nat} (initial : left state count)
    (meets : StepsMeet (fun state event => own event = true ∨ condition state event) step state
      events)
    (finished : run step state events = some final) :
    ∃ rest, events.countP own + rest = count ∧ left final rest := by
  induction events generalizing state count with
  | nil =>
      simp only [run_nil, Option.some.injEq] at finished
      exact ⟨count, by simp, finished ▸ initial⟩
  | cons event rest ih =>
      obtain ⟨next, stepped, remaining⟩ := run_cons_eq_some finished
      have later := meets.2 next stepped
      cases isOwn : own event with
      | true =>
          obtain ⟨fewer, rfl, held⟩ := counted state event next count initial isOwn stepped
          obtain ⟨others, total, reached⟩ := ih held later remaining
          refine ⟨others, ?_, reached⟩
          rw [List.countP_cons_of_pos isOwn]
          omega
      | false =>
          have allowed : condition state event := by simpa [isOwn] using meets.1
          obtain ⟨others, total, reached⟩ :=
            ih (kept state event next count initial allowed isOwn stepped) later remaining
          refine ⟨others, ?_, reached⟩
          rw [List.countP_cons_of_neg (by simp [isOwn])]
          exact total

/-! Observations. -/

/-- What is observed of the steps of a run, in their order. -/
def observe {ω : Type} (observation : σ → ε → List ω) (step : σ → ε → Option σ) :
    σ → List ε → List ω
  | _, [] => []
  | state, event :: rest => observation state event ++
      ((step state event).map fun next => observe observation step next rest).getD []

theorem run_observed {ω : Type} {observation : σ → ε → List ω} {step : σ → ε → Option σ}
    (invariant : List ω → σ → Prop)
    (preserved : ∀ state event next seen, invariant seen state → step state event = some next →
      invariant (seen ++ observation state event) next)
    {events : List ε} {state final : σ} {seen : List ω} (initial : invariant seen state)
    (finished : run step state events = some final) :
    invariant (seen ++ observe observation step state events) final := by
  induction events generalizing state seen with
  | nil =>
      simp only [run_nil, Option.some.injEq] at finished
      simpa [observe, finished] using initial
  | cons event rest ih =>
      obtain ⟨next, stepped, remaining⟩ := run_cons_eq_some finished
      have later := ih (preserved state event next seen initial stepped) remaining
      simpa [observe, stepped] using later

/-! Simulation. -/

def Reaches (step : σ → ε → Option σ) (first last : σ) : Prop :=
  ∃ events, run step first events = some last

theorem Reaches.refl (step : σ → ε → Option σ) (state : σ) : Reaches step state state :=
  ⟨[], rfl⟩

theorem Reaches.trans {step : σ → ε → Option σ} {first middle last : σ}
    (before : Reaches step first middle) (after : Reaches step middle last) :
    Reaches step first last := by
  obtain ⟨events, reached⟩ := before
  obtain ⟨rest, finished⟩ := after
  exact ⟨events ++ rest, by rw [run_append reached, finished]⟩

theorem Reaches.step {step : σ → ε → Option σ} {first next last : σ} {event : ε}
    (stepped : step first event = some next) (after : Reaches step next last) :
    Reaches step first last := by
  obtain ⟨rest, finished⟩ := after
  exact ⟨event :: rest, by rw [run_cons, stepped, Option.bind_some, finished]⟩

theorem run_simulated {τ δ : Type} {step : σ → ε → Option σ} {other : τ → δ → Option τ}
    (matching : σ → τ → Prop)
    (simulated : ∀ state event next also, matching state also → step state event = some next →
      ∃ last, Reaches other also last ∧ matching next last)
    {events : List ε} {state final : σ} (also : τ) (initial : matching state also)
    (finished : run step state events = some final) :
    ∃ last, Reaches other also last ∧ matching final last := by
  induction events generalizing state also with
  | nil =>
      simp only [run_nil, Option.some.injEq] at finished
      exact ⟨also, .refl other also, finished ▸ initial⟩
  | cons event rest ih =>
      obtain ⟨next, stepped, remaining⟩ := run_cons_eq_some finished
      obtain ⟨middle, reached, kept⟩ := simulated state event next also initial stepped
      obtain ⟨last, later, matched⟩ := ih middle kept remaining
      exact ⟨last, reached.trans later, matched⟩

end Transition
