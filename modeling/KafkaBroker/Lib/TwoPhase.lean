import Mathlib.Data.Set.Finite.Lemmas
import KafkaBroker.Lib.Transition

/-!
Threads that share data under locks. A request is a program whose steps take and give
back locks, work on what a lock protects, and work on what no lock protects. Programs
that take no lock after they have given one back are linearizable: whatever the order of
the threads' steps, each request takes effect at once, between its call and its return.
Programs that take locks in one order never wait for each other in a circle.
-/

namespace TwoPhase

open Function Transition

variable {ι μ ω ρ τ : Type} {β : μ → Type}

/-- What is left of a request. An `access` reads and changes what a lock protects, an
`exchange` what no lock protects; both go on with the value they read. -/
inductive Program (μ : Type) (β : μ → Type) (τ ρ : Type)
  | finish (result : ρ)
  | acquire (lock : μ) (next : Program μ β τ ρ)
  | release (lock : μ) (next : Program μ β τ ρ)
  | access (lock : μ) (change : β lock → β lock) (next : β lock → Program μ β τ ρ)
  | exchange (change : τ → τ) (next : τ → Program μ β τ ρ)

@[ext] structure Shared (β : μ → Type) (τ : Type) where
  guarded : (lock : μ) → β lock
  outside : τ

def Shared.write [DecidableEq μ] (shared : Shared β τ) (lock : μ) (value : β lock) :
    Shared β τ :=
  { shared with guarded := update shared.guarded lock value }

@[simp] theorem Shared.write_same [DecidableEq μ] (shared : Shared β τ) (lock : μ)
    (value : β lock) : (shared.write lock value).guarded lock = value :=
  update_self ..

theorem Shared.write_other [DecidableEq μ] (shared : Shared β τ) {lock other : μ}
    (value : β lock) (different : other ≠ lock) :
    (shared.write lock value).guarded other = shared.guarded other :=
  update_of_ne different ..

namespace Program

def alone [DecidableEq μ] : Program μ β τ ρ → Shared β τ → Shared β τ × ρ
  | finish result, shared => (shared, result)
  | acquire _ next, shared => next.alone shared
  | release _ next, shared => next.alone shared
  | access lock change next, shared =>
      (next (shared.guarded lock)).alone (shared.write lock (change (shared.guarded lock)))
  | exchange change next, shared =>
      (next shared.outside).alone { shared with outside := change shared.outside }

/-- Every access is under its lock, locks are taken in rising order, and all are given
back at the end. -/
def WellLocked (rank : μ → Nat) : Program μ β τ ρ → Set μ → Prop
  | finish _, held => held = ∅
  | acquire lock next, held =>
      (∀ other ∈ held, rank other < rank lock) ∧ next.WellLocked rank (insert lock held)
  | release lock next, held => lock ∈ held ∧ next.WellLocked rank (held \ {lock})
  | access lock _ next, held => lock ∈ held ∧ ∀ value, (next value).WellLocked rank held
  | exchange _ next, held => ∀ value, (next value).WellLocked rank held

/-- What is left works on the locks it holds. -/
def Settled : Program μ β τ ρ → Prop
  | finish _ => True
  | acquire _ _ => False
  | release _ next => next.Settled
  | access _ _ next => ∀ value, (next value).Settled
  | exchange _ _ => False

def TakesThenGives : Program μ β τ ρ → Prop
  | finish _ => True
  | acquire _ next => next.TakesThenGives
  | release _ next => next.Settled
  | access _ _ next => ∀ value, (next value).TakesThenGives
  | exchange _ _ => False

variable [DecidableEq μ] {rank : μ → Nat} {program : Program μ β τ ρ} {held : Set μ}

theorem alone_frame (settled : program.Settled) (locked : program.WellLocked rank held)
    (shared : Shared β τ) :
    (program.alone shared).1.outside = shared.outside ∧
      ∀ lock, lock ∉ held → (program.alone shared).1.guarded lock = shared.guarded lock := by
  induction program generalizing held shared with
  | finish result => exact ⟨rfl, fun _ _ => rfl⟩
  | acquire lock next ih => exact settled.elim
  | release lock next ih =>
      obtain ⟨outside, frame⟩ := ih settled locked.2 shared
      exact ⟨outside, fun other missing => frame other fun member => missing member.1⟩
  | access lock change next ih =>
      obtain ⟨outside, frame⟩ := ih _ (settled _) (locked.2 (shared.guarded lock))
        (shared.write lock (change (shared.guarded lock)))
      refine ⟨outside, fun other missing => ?_⟩
      have different : other ≠ lock := fun same => missing (same ▸ locked.1)
      rw [alone, frame other missing, Shared.write_other _ _ different]
  | exchange change next ih => exact settled.elim

theorem alone_local (settled : program.Settled) (locked : program.WellLocked rank held)
    {first second : Shared β τ} (agree : ∀ lock ∈ held, first.guarded lock = second.guarded lock) :
    (program.alone first).2 = (program.alone second).2 ∧
      ∀ lock ∈ held,
        (program.alone first).1.guarded lock = (program.alone second).1.guarded lock := by
  induction program generalizing held first second with
  | finish result => exact ⟨rfl, agree⟩
  | acquire lock next ih => exact settled.elim
  | release lock next ih =>
      obtain ⟨result, after⟩ := ih settled locked.2 fun other member => agree other member.1
      refine ⟨result, fun other member => ?_⟩
      by_cases same : other = lock
      · subst same
        have missing : other ∉ held \ {other} := fun member => member.2 rfl
        have onward : next.Settled := settled
        have first_kept := (alone_frame onward locked.2 first).2 other missing
        have second_kept := (alone_frame onward locked.2 second).2 other missing
        rw [alone, alone, first_kept, second_kept]
        exact agree other member
      · exact after other ⟨member, same⟩
  | access lock change next ih =>
      have read := agree lock locked.1
      rw [alone, alone, read]
      refine ih _ (settled _) (locked.2 _) fun other member => ?_
      by_cases same : other = lock
      · subst same
        simp [Shared.write]
      · simp [Shared.write, same, agree other member]
  | exchange change next ih => exact settled.elim

end Program

inductive Moment (ι ω ρ : Type)
  | called (thread : ι) (request : ω)
  | returned (thread : ι) (result : ρ)
  deriving DecidableEq

/-! The threads, one step of one of them at a time. -/

structure Machine (ι ω ρ : Type) (β : μ → Type) (τ : Type) where
  shared : Shared β τ
  holder : μ → Option ι := fun _ => none
  running : ι → Option (Program μ β τ ρ) := fun _ => none
  history : List (Moment ι ω ρ) := []

inductive ThreadEvent (ι ω : Type)
  | call (thread : ι) (request : ω)
  | step (thread : ι)

namespace Machine

variable [DecidableEq ι] [DecidableEq μ]

def resume (machine : Machine ι ω ρ β τ) (thread : ι) (program : Program μ β τ ρ) :
    Machine ι ω ρ β τ :=
  { machine with running := update machine.running thread (some program) }

/-- A lock that is taken is waited for. -/
def advance (machine : Machine ι ω ρ β τ) (thread : ι) :
    Program μ β τ ρ → Option (Machine ι ω ρ β τ)
  | .finish result => some { machine with
      running := update machine.running thread none
      history := machine.history ++ [.returned thread result] }
  | .acquire lock next =>
      if machine.holder lock = none then
        some (resume { machine with holder := update machine.holder lock (some thread) }
          thread next)
      else none
  | .release lock next =>
      some (resume { machine with holder := update machine.holder lock none } thread next)
  | .access lock change next =>
      let value := machine.shared.guarded lock
      some (resume { machine with shared := machine.shared.write lock (change value) } thread
        (next value))
  | .exchange change next =>
      let value := machine.shared.outside
      some (resume { machine with shared := { machine.shared with outside := change value } }
        thread (next value))

end Machine

section Machine

variable [DecidableEq ι] [DecidableEq μ]

def machineStep (programs : ω → Program μ β τ ρ) (machine : Machine ι ω ρ β τ) :
    ThreadEvent ι ω → Option (Machine ι ω ρ β τ)
  | .call thread request =>
      if (machine.running thread).isSome then none
      else some (Machine.resume
        { machine with history := machine.history ++ [.called thread request] } thread
        (programs request))
  | .step thread => (machine.running thread).bind (machine.advance thread)

def heldBy (holder : μ → Option ι) (thread : ι) : Set μ :=
  { lock | holder lock = some thread }

omit [DecidableEq ι] [DecidableEq μ] in
theorem notMem_heldBy_of_free {holder : μ → Option ι} {lock : μ} (free : holder lock = none)
    (thread : ι) : lock ∉ heldBy holder thread := fun mine => by
  have held : holder lock = some thread := mine
  rw [free] at held
  cases held

theorem heldBy_take {holder : μ → Option ι} {lock : μ} (free : holder lock = none)
    (thread other : ι) :
    heldBy (update holder lock (some thread)) other =
      if other = thread then insert lock (heldBy holder thread) else heldBy holder other := by
  ext taken
  by_cases same : taken = lock
  · subst same
    by_cases mine : other = thread
    · simp [heldBy, mine]
    · have theirs : thread ≠ other := fun eq => mine eq.symm
      simp [heldBy, mine, theirs, free]
  · by_cases mine : other = thread
    · simp [heldBy, mine, same]
    · simp [heldBy, mine, same]

theorem heldBy_give {holder : μ → Option ι} {lock : μ} {thread : ι}
    (mine : lock ∈ heldBy holder thread) (other : ι) :
    heldBy (update holder lock none) other =
      if other = thread then heldBy holder thread \ {lock} else heldBy holder other := by
  have held : holder lock = some thread := mine
  ext given
  by_cases same : given = lock
  · subst same
    by_cases here : other = thread
    · simp [heldBy, here]
    · have theirs : thread ≠ other := fun eq => here eq.symm
      simp [heldBy, here, theirs, held]
  · by_cases here : other = thread
    · simp [heldBy, here, same]
    · simp [heldBy, here, same]

/-- Every thread holds the locks its program counts on. -/
structure Orderly (rank : μ → Nat) (machine : Machine ι ω ρ β τ) : Prop where
  idle : ∀ thread, machine.running thread = none → heldBy machine.holder thread = ∅
  locked : ∀ thread program, machine.running thread = some program →
    program.WellLocked rank (heldBy machine.holder thread)

variable {rank : μ → Nat} {machine next : Machine ι ω ρ β τ} {thread : ι}

omit [DecidableEq μ] in
theorem Orderly.moved (orderly : Orderly rank machine) {after : Machine ι ω ρ β τ}
    {left : Option (Program μ β τ ρ)} (running : after.running = update machine.running thread left)
    (others : ∀ other, other ≠ thread → heldBy after.holder other = heldBy machine.holder other)
    (idle : left = none → heldBy after.holder thread = ∅)
    (locked : ∀ program, left = some program →
      program.WellLocked rank (heldBy after.holder thread)) : Orderly rank after := by
  refine ⟨fun other none => ?_, fun other program found => ?_⟩
  · by_cases same : other = thread
    · subst same
      exact idle (by simpa [running] using none)
    · rw [running, update_of_ne same] at none
      exact (others other same).trans (orderly.idle other none)
  · by_cases same : other = thread
    · subst same
      exact locked program (by simpa [running] using found)
    · rw [running, update_of_ne same] at found
      rw [others other same]
      exact orderly.locked other program found

omit [DecidableEq μ] in
theorem Orderly.resume (orderly : Orderly rank machine) {after : Machine ι ω ρ β τ}
    {program : Program μ β τ ρ} (running : after.running = machine.running)
    (others : ∀ other, other ≠ thread → heldBy after.holder other = heldBy machine.holder other)
    (locked : program.WellLocked rank (heldBy after.holder thread)) :
    Orderly rank (after.resume thread program) := by
  have moved : (after.resume thread program).running =
      update machine.running thread (some program) := by
    rw [← running]
    rfl
  refine orderly.moved moved others (by simp) fun other same => ?_
  exact Option.some.inj same ▸ locked

theorem orderly_step {programs : ω → Program μ β τ ρ} {event : ThreadEvent ι ω}
    (wellLocked : ∀ request, (programs request).WellLocked rank ∅)
    (orderly : Orderly rank machine) (stepped : machineStep programs machine event = some next) :
    Orderly rank next := by
  cases event with
  | call thread request =>
      simp only [machineStep] at stepped
      split at stepped
      · simp at stepped
      · rename_i free
        rw [Option.some.injEq] at stepped
        subst stepped
        have idle : machine.running thread = none := by simpa using free
        refine orderly.resume rfl (fun _ _ => rfl) ?_
        change (programs request).WellLocked rank (heldBy machine.holder thread)
        rw [orderly.idle thread idle]
        exact wellLocked request
  | step thread =>
      simp only [machineStep, Option.bind_eq_some_iff] at stepped
      obtain ⟨program, found, stepped⟩ := stepped
      have locked := orderly.locked thread program found
      cases program with
      | finish result =>
          rw [Machine.advance, Option.some.injEq] at stepped
          subst stepped
          exact orderly.moved rfl (fun _ _ => rfl) (fun _ => locked) (by simp)
      | acquire lock rest =>
          simp only [Machine.advance] at stepped
          split at stepped
          · rename_i free
            rw [Option.some.injEq] at stepped
            subst stepped
            refine orderly.resume rfl (fun other different => ?_) ?_
            · simp only [heldBy_take free, if_neg different]
            · simpa only [heldBy_take free, if_true] using locked.2
          · simp at stepped
      | release lock rest =>
          rw [Machine.advance, Option.some.injEq] at stepped
          subst stepped
          refine orderly.resume rfl (fun other different => ?_) ?_
          · simp only [heldBy_give locked.1, if_neg different]
          · simpa only [heldBy_give locked.1, if_true] using locked.2
      | access lock change rest =>
          rw [Machine.advance, Option.some.injEq] at stepped
          subst stepped
          exact orderly.resume rfl (fun _ _ => rfl) (locked.2 _)
      | exchange change rest =>
          rw [Machine.advance, Option.some.injEq] at stepped
          subst stepped
          exact orderly.resume rfl (fun _ _ => rfl) (locked _)

def machineStart (shared : Shared β τ) : Machine ι ω ρ β τ := { shared }

omit [DecidableEq ι] [DecidableEq μ] in
theorem orderly_start (rank : μ → Nat) (shared : Shared β τ) :
    Orderly rank (machineStart shared : Machine ι ω ρ β τ) := by
  refine ⟨fun _ _ => ?_, fun _ _ found => ?_⟩
  · ext lock
    simp [heldBy, machineStart]
  · simp [machineStart] at found

theorem orderly_run {programs : ω → Program μ β τ ρ} {shared : Shared β τ}
    {events : List (ThreadEvent ι ω)}
    (wellLocked : ∀ request, (programs request).WellLocked rank ∅)
    (reached : run (machineStep programs) (machineStart shared) events = some machine) :
    Orderly rank machine :=
  run_invariant (Orderly rank)
    (fun _ _ _ orderly stepped => orderly_step wellLocked orderly stepped)
    (orderly_start rank shared) reached

/-- A step that cannot be taken is the wait for a lock that another thread holds. -/
theorem advance_eq_none_iff (machine : Machine ι ω ρ β τ) (thread : ι)
    (program : Program μ β τ ρ) :
    machine.advance thread program = none ↔
      ∃ lock rest, program = .acquire lock rest ∧ machine.holder lock ≠ none := by
  cases program <;> simp [Machine.advance]

theorem Orderly.progress [Finite μ] (orderly : Orderly rank machine)
    (programs : ω → Program μ β τ ρ) {busy : ι} (working : (machine.running busy).isSome = true) :
    ∃ thread next, (machine.running thread).isSome = true ∧
      machineStep programs machine (.step thread) = some next := by
  by_contra! stuck
  have waits (thread : ι) (program : Program μ β τ ρ)
      (found : machine.running thread = some program) :
      ∃ lock rest, program = .acquire lock rest ∧ machine.holder lock ≠ none := by
    refine (advance_eq_none_iff machine thread program).mp ?_
    refine Option.eq_none_iff_forall_ne_some.mpr fun next stepped => ?_
    refine stuck thread next (by simp [found]) ?_
    simp [machineStep, found, stepped]
  obtain ⟨first, found⟩ := Option.isSome_iff_exists.mp working
  obtain ⟨lock, _, _, taken⟩ := waits busy first found
  -- The holder of the highest lock that is taken waits for a higher one, which is taken too.
  obtain ⟨highest, held, above⟩ := Set.exists_max_image { lock | machine.holder lock ≠ none } rank
    (Set.toFinite _) ⟨lock, taken⟩
  obtain ⟨thread, mine⟩ := Option.ne_none_iff_exists'.mp held
  have member : highest ∈ heldBy machine.holder thread := mine
  cases there : machine.running thread with
  | none =>
      rw [orderly.idle thread there] at member
      exact member
  | some program =>
      obtain ⟨wanted, rest, rfl, busy⟩ := waits thread program there
      have rising := (orderly.locked thread _ there).1 highest member
      exact absurd (above wanted busy) (by omega)

end Machine

/-! The same requests, each taking effect in one step. -/

inductive CallState (ω ρ : Type)
  | pending (request : ω)
  | done (result : ρ)

structure Object (ι ω ρ σ : Type) where
  state : σ
  calls : ι → Option (CallState ω ρ) := fun _ => none
  history : List (Moment ι ω ρ) := []

inductive ObjectEvent (ι ω : Type)
  | call (thread : ι) (request : ω)
  | perform (thread : ι)
  | answer (thread : ι)

def objectStep {σ : Type} [DecidableEq ι] (perform : σ → ω → σ × ρ) (object : Object ι ω ρ σ) :
    ObjectEvent ι ω → Option (Object ι ω ρ σ)
  | .call thread request =>
      if (object.calls thread).isSome then none
      else some { object with
        calls := update object.calls thread (some (.pending request))
        history := object.history ++ [.called thread request] }
  | .perform thread =>
      match object.calls thread with
      | some (.pending request) =>
          let performed := perform object.state request
          some { object with
            state := performed.1
            calls := update object.calls thread (some (.done performed.2)) }
      | _ => none
  | .answer thread =>
      match object.calls thread with
      | some (.done result) => some { object with
          calls := update object.calls thread none
          history := object.history ++ [.returned thread result] }
      | _ => none

def atomically [DecidableEq μ] (programs : ω → Program μ β τ ρ) (shared : Shared β τ)
    (request : ω) : Shared β τ × ρ :=
  (programs request).alone shared

def objectStart {σ : Type} (state : σ) : Object ι ω ρ σ := { state }

def Object.map {σ σ' : Type} (view : σ → σ') (object : Object ι ω ρ σ) : Object ι ω ρ σ' :=
  { state := view object.state, calls := object.calls, history := object.history }

theorem objectStep_map {σ σ' : Type} [DecidableEq ι] {perform : σ → ω → σ × ρ}
    {perform' : σ' → ω → σ' × ρ} {view : σ → σ'}
    (same : ∀ state request, perform' (view state) request =
      (view (perform state request).1, (perform state request).2))
    {object next : Object ι ω ρ σ} {event : ObjectEvent ι ω}
    (stepped : objectStep perform object event = some next) :
    objectStep perform' (object.map view) event = some (next.map view) := by
  cases event with
  | call thread request =>
      simp only [objectStep] at stepped
      split at stepped
      · simp at stepped
      · rename_i free
        rw [Option.some.injEq] at stepped
        subst stepped
        exact if_neg free
  | perform thread =>
      simp only [objectStep] at stepped
      split at stepped
      · rename_i request called
        rw [Option.some.injEq] at stepped
        subst stepped
        simp only [objectStep, Object.map, called, same]
      · simp at stepped
  | answer thread =>
      simp only [objectStep] at stepped
      split at stepped
      · rename_i result called
        rw [Option.some.injEq] at stepped
        subst stepped
        simp only [objectStep, Object.map, called]
      · simp at stepped

theorem objectRun_map {σ σ' : Type} [DecidableEq ι] {perform : σ → ω → σ × ρ}
    {perform' : σ' → ω → σ' × ρ} {view : σ → σ'}
    (same : ∀ state request, perform' (view state) request =
      (view (perform state request).1, (perform state request).2))
    {object last : Object ι ω ρ σ} {steps : List (ObjectEvent ι ω)}
    (performed : run (objectStep perform) object steps = some last) :
    run (objectStep perform') (object.map view) steps = some (last.map view) := by
  induction steps generalizing object with
  | nil =>
      rw [run_nil, Option.some.injEq] at performed
      rw [run_nil, performed]
  | cons event rest ih =>
      obtain ⟨next, stepped, remaining⟩ := run_cons_eq_some performed
      rw [run_cons, objectStep_map same stepped, Option.bind_some, ih remaining]

section Linearization

variable [DecidableEq ι] [DecidableEq μ]

def Machine.overlay (machine : Machine ι ω ρ β τ) (thread : ι) (other : Shared β τ) :
    Shared β τ :=
  { other with
    guarded := fun lock =>
      if machine.holder lock = some thread then machine.shared.guarded lock
      else other.guarded lock }

/-- The request has not taken effect: wherever the locks it holds have the object's values,
what is left of it does the same as all of it. -/
def Pending (programs : ω → Program μ β τ ρ) (machine : Machine ι ω ρ β τ)
    (object : Object ι ω ρ (Shared β τ)) (thread : ι) (program : Program μ β τ ρ) : Prop :=
  ∃ request, object.calls thread = some (.pending request) ∧ program.TakesThenGives ∧
    ∀ other : Shared β τ,
      (∀ lock ∈ heldBy machine.holder thread,
        other.guarded lock = object.state.guarded lock) →
      (programs request).alone other = program.alone (machine.overlay thread other)

/-- The request has taken effect: what is left of it leads to the result and the values
that the object has. -/
structure Performed (machine : Machine ι ω ρ β τ) (object : Object ι ω ρ (Shared β τ))
    (thread : ι) (program : Program μ β τ ρ) : Prop where
  settled : program.Settled
  done : object.calls thread = some (.done (program.alone machine.shared).2)
  values : ∀ lock ∈ heldBy machine.holder thread,
    object.state.guarded lock = (program.alone machine.shared).1.guarded lock

structure Fits (programs : ω → Program μ β τ ρ) (machine : Machine ι ω ρ β τ)
    (object : Object ι ω ρ (Shared β τ)) (thread : ι) : Prop where
  idle : machine.running thread = none → object.calls thread = none
  busy : ∀ program, machine.running thread = some program →
    ¬program.Settled ∧ Pending programs machine object thread program ∨
      Performed machine object thread program

/-- The object has the machine's history and its values of the free locks. -/
structure Tracks (programs : ω → Program μ β τ ρ) (except : Option ι)
    (machine : Machine ι ω ρ β τ) (object : Object ι ω ρ (Shared β τ)) : Prop where
  history : object.history = machine.history
  outside : object.state.outside = machine.shared.outside
  free : ∀ lock, machine.holder lock = none →
    object.state.guarded lock = machine.shared.guarded lock
  fits : ∀ thread, except ≠ some thread → Fits programs machine object thread

variable {rank : μ → Nat} {programs : ω → Program μ β τ ρ} {machine next : Machine ι ω ρ β τ}
  {object last : Object ι ω ρ (Shared β τ)} {thread other : ι} {program : Program μ β τ ρ}

omit [DecidableEq μ] in
theorem Machine.overlay_held {lock : μ} (mine : lock ∈ heldBy machine.holder thread)
    (other : Shared β τ) :
    (machine.overlay thread other).guarded lock = machine.shared.guarded lock :=
  if_pos mine

omit [DecidableEq μ] in
theorem Machine.overlay_unheld {lock : μ} (missing : lock ∉ heldBy machine.holder thread)
    (other : Shared β τ) : (machine.overlay thread other).guarded lock = other.guarded lock :=
  if_neg missing

theorem Fits.congr (fits : Fits programs machine object thread) (orderly : Orderly rank machine)
    (running : next.running thread = machine.running thread)
    (calls : last.calls thread = object.calls thread)
    (held : heldBy next.holder thread = heldBy machine.holder thread)
    (shared : ∀ lock ∈ heldBy machine.holder thread,
      next.shared.guarded lock = machine.shared.guarded lock)
    (state : ∀ lock ∈ heldBy machine.holder thread,
      last.state.guarded lock = object.state.guarded lock) :
    Fits programs next last thread := by
  refine ⟨fun idle => by rw [calls, fits.idle (running ▸ idle)], fun program found => ?_⟩
  rw [running] at found
  rcases fits.busy program found with ⟨unsettled, request, called, shape, same⟩ | performed
  · refine .inl ⟨unsettled, request, calls.trans called, shape, fun other agree => ?_⟩
    have overlaid : next.overlay thread other = machine.overlay thread other := by
      refine Shared.ext (funext fun lock => ?_) rfl
      by_cases mine : lock ∈ heldBy machine.holder thread
      · rw [next.overlay_held (held ▸ mine), machine.overlay_held mine, shared lock mine]
      · rw [next.overlay_unheld (held ▸ mine), machine.overlay_unheld mine]
    rw [overlaid]
    refine same other fun lock member => ?_
    rw [agree lock (held ▸ member), state lock member]
  · obtain ⟨result, values⟩ := Program.alone_local performed.settled
      (orderly.locked thread program found) shared
    refine .inr ⟨performed.settled, ?_, fun lock member => ?_⟩
    · rw [calls, performed.done, result]
    · rw [held] at member
      rw [state lock member, performed.values lock member, values lock member]

def Performs (programs : ω → Program μ β τ ρ) (thread : ι)
    (object last : Object ι ω ρ (Shared β τ)) : Prop :=
  last = object ∨ objectStep (atomically programs) object (.perform thread) = some last

theorem Performs.reaches (performs : Performs programs thread object last) :
    Reaches (objectStep (atomically programs)) object last := by
  rcases performs with rfl | stepped
  · exact .refl ..
  · exact Reaches.step stepped (.refl ..)

theorem Tracks.settle (tracks : Tracks programs (some thread) machine object)
    (orderly : Orderly rank machine) (found : machine.running thread = some program)
    (pending : Pending programs machine object thread program) :
    ∃ last, Performs programs thread object last ∧ Tracks programs none machine last := by
  by_cases settled : program.Settled
  · obtain ⟨request, called, _, same⟩ := pending
    have locked := orderly.locked thread program found
    have whole := same object.state fun _ _ => rfl
    obtain ⟨outside, frame⟩ := Program.alone_frame settled locked
      (machine.overlay thread object.state)
    have agree : ∀ lock ∈ heldBy machine.holder thread,
        (machine.overlay thread object.state).guarded lock = machine.shared.guarded lock :=
      fun lock mine => if_pos mine
    obtain ⟨result, values⟩ := Program.alone_local settled locked agree
    have kept : ∀ lock, lock ∉ heldBy machine.holder thread →
        ((programs request).alone object.state).1.guarded lock = object.state.guarded lock := by
      intro lock missing
      rw [whole, frame lock missing]
      exact if_neg missing
    have performs : objectStep (atomically programs) object
        (.perform thread) = some { object with
          state := ((programs request).alone object.state).1
          calls := update object.calls thread
            (some (.done ((programs request).alone object.state).2)) } := by
      simp only [objectStep, called, atomically]
    refine ⟨_, .inr performs, tracks.history, ?_, fun lock free => ?_,
      fun other _ => ?_⟩
    · rw [← tracks.outside]
      exact (congrArg (fun performed => performed.1.outside) whole).trans outside
    · have missing := notMem_heldBy_of_free free thread
      exact (kept lock missing).trans (tracks.free lock free)
    · by_cases here : other = thread
      · subst here
        refine ⟨fun idle => by simp [found] at idle, fun running there => .inr ?_⟩
        rw [found, Option.some.injEq] at there
        subst there
        refine ⟨settled, ?_, fun lock member => ?_⟩
        · simp only [update_self, whole, result]
        · simp only [whole]
          exact values lock member
      · refine (tracks.fits other (by simpa using Ne.symm here)).congr orderly rfl
          (update_of_ne here ..) rfl (fun _ _ => rfl) fun lock theirs => kept lock fun mine => ?_
        exact here (Option.some.inj (theirs.symm.trans mine))
  · refine ⟨object, .inl rfl, tracks.history, tracks.outside, tracks.free, fun other _ => ?_⟩
    by_cases here : other = thread
    · subst here
      refine ⟨fun idle => by simp [found] at idle, fun running there => .inl ?_⟩
      rw [found, Option.some.injEq] at there
      exact there ▸ ⟨settled, pending⟩
    · exact tracks.fits other (by simpa using Ne.symm here)

theorem Performed.fits (performed : Performed machine object thread program)
    (found : machine.running thread = some program) : Fits programs machine object thread := by
  refine ⟨fun idle => by simp [found] at idle, fun other there => .inr ?_⟩
  rw [found, Option.some.injEq] at there
  exact there ▸ performed

theorem Tracks.complete (tracks : Tracks programs (some thread) machine object)
    (fits : Fits programs machine object thread) : Tracks programs none machine object := by
  refine ⟨tracks.history, tracks.outside, tracks.free, fun other _ => ?_⟩
  by_cases here : other = thread
  · exact here ▸ fits
  · exact tracks.fits other (by simpa using Ne.symm here)

theorem Tracks.apart (tracks : Tracks programs none machine object) (orderly : Orderly rank machine)
    (history : last.history = next.history)
    (outside : last.state.outside = next.shared.outside)
    (free : ∀ lock, next.holder lock = none →
      last.state.guarded lock = next.shared.guarded lock)
    (running : ∀ other, other ≠ thread → next.running other = machine.running other)
    (calls : ∀ other, other ≠ thread → last.calls other = object.calls other)
    (held : ∀ other, other ≠ thread → heldBy next.holder other = heldBy machine.holder other)
    (shared : ∀ lock, lock ∉ heldBy machine.holder thread →
      next.shared.guarded lock = machine.shared.guarded lock)
    (state : last.state = object.state) : Tracks programs (some thread) next last := by
  refine ⟨history, outside, free, fun other different => ?_⟩
  have here : other ≠ thread := fun same => different (congrArg some same.symm)
  refine (tracks.fits other (by simp)).congr orderly (running other here) (calls other here)
    (held other here) (fun lock theirs => shared lock fun mine => ?_) fun _ _ => by rw [state]
  exact here (Option.some.inj (theirs.symm.trans mine))

theorem Tracks.access (tracks : Tracks programs none machine object)
    (orderly : Orderly rank machine) {lock : μ} (held : lock ∈ heldBy machine.holder thread)
    (value : β lock) (rest : Program μ β τ ρ) :
    Tracks programs (some thread)
      (Machine.resume { machine with shared := machine.shared.write lock value } thread rest)
      object := by
  have away (other : μ) (unheld : other ∉ heldBy machine.holder thread) :
      (machine.shared.write lock value).guarded other = machine.shared.guarded other :=
    Shared.write_other _ _ (ne_of_mem_of_not_mem held unheld).symm
  refine tracks.apart orderly tracks.history tracks.outside (fun other free => ?_)
    (fun other different => update_of_ne different ..) (fun _ _ => rfl) (fun _ _ => rfl) away rfl
  exact (tracks.free other free).trans (away other (notMem_heldBy_of_free free thread)).symm

theorem tracks_call {request : ω} (tracks : Tracks programs none machine object)
    (orderly : Orderly rank machine)
    (wellLocked : ∀ request, (programs request).WellLocked rank ∅)
    (shape : (programs request).TakesThenGives)
    (stepped : machineStep programs machine (.call thread request) = some next) :
    ∃ called last,
      objectStep (atomically programs) object (.call thread request) = some called ∧
        Performs programs thread called last ∧ Tracks programs none next last := by
  have after := orderly_step wellLocked orderly stepped
  simp only [machineStep] at stepped
  split at stepped
  · simp at stepped
  · rename_i free
    rw [Option.some.injEq] at stepped
    have idle : machine.running thread = none := by simpa using free
    have calls : objectStep (atomically programs) object
        (.call thread request) = some { object with
          calls := update object.calls thread (some (.pending request))
          history := object.history ++ [.called thread request] } := by
      simp [objectStep, (tracks.fits thread (by simp)).idle idle]
    have apart : Tracks programs (some thread) next { object with
        calls := update object.calls thread (some (.pending request))
        history := object.history ++ [.called thread request] } := by
      subst stepped
      exact tracks.apart orderly (congrArg (· ++ [.called thread request]) tracks.history)
        tracks.outside tracks.free (fun other different => update_of_ne different ..)
        (fun other different => update_of_ne different ..) (fun _ _ => rfl) (fun _ _ => rfl) rfl
    have pending : Pending programs next { object with
        calls := update object.calls thread (some (.pending request))
        history := object.history ++ [.called thread request] } thread (programs request) := by
      refine ⟨request, update_self .., shape, fun other _ => ?_⟩
      have unheld (lock : μ) : machine.holder lock ≠ some thread := fun mine => by
        have member : lock ∈ heldBy machine.holder thread := mine
        rw [orderly.idle thread idle] at member
        exact member
      subst stepped
      simp [Machine.overlay, Machine.resume, unheld]
    have found : next.running thread = some (programs request) := by
      subst stepped
      exact update_self ..
    obtain ⟨last, performs, matched⟩ := apart.settle after found pending
    exact ⟨_, last, calls, performs, matched⟩

theorem tracks_finish {result : ρ} (tracks : Tracks programs none machine object)
    (orderly : Orderly rank machine) (found : machine.running thread = some (.finish result))
    (stepped : machine.advance thread (.finish result) = some next) :
    ∃ last, objectStep (atomically programs) object (.answer thread) = some last ∧
      Tracks programs none next last := by
  obtain ⟨_, done, _⟩ : Performed machine object thread (.finish result) := by
    rcases (tracks.fits thread (by simp)).busy _ found with ⟨unsettled, _⟩ | performed
    · exact absurd trivial unsettled
    · exact performed
  rw [Machine.advance, Option.some.injEq] at stepped
  have answers : objectStep (atomically programs) object (.answer thread) = some { object with
      calls := update object.calls thread none
      history := object.history ++ [.returned thread result] } := by
    simp only [objectStep, done, Program.alone]
  have apart : Tracks programs (some thread) next { object with
      calls := update object.calls thread none
      history := object.history ++ [.returned thread result] } := by
    subst stepped
    exact tracks.apart orderly (congrArg (· ++ [.returned thread result]) tracks.history)
      tracks.outside tracks.free (fun other different => update_of_ne different ..)
      (fun other different => update_of_ne different ..) (fun _ _ => rfl) (fun _ _ => rfl) rfl
  refine ⟨_, answers, apart.complete ?_⟩
  subst stepped
  exact ⟨fun _ => update_self .., fun program there => by simp at there⟩

theorem tracks_performed (tracks : Tracks programs none machine object)
    (orderly : Orderly rank machine) (found : machine.running thread = some program)
    (unfinished : ∀ result, program ≠ .finish result)
    (performed : Performed machine object thread program)
    (stepped : machine.advance thread program = some next) : Tracks programs none next object := by
  obtain ⟨settled, done, values⟩ := performed
  have locked := orderly.locked thread program found
  cases program with
  | finish result => exact absurd rfl (unfinished result)
  | acquire lock rest => exact settled.elim
  | release lock rest =>
      rw [Machine.advance, Option.some.injEq] at stepped
      have onward : rest.Settled := settled
      have free (given : μ) (unheld : next.holder given = none) :
          object.state.guarded given = next.shared.guarded given := by
        subst stepped
        by_cases same : given = lock
        · subst same
          rw [values given locked.1]
          exact (Program.alone_frame onward locked.2 _).2 given fun member => member.2 rfl
        · exact tracks.free given (by simpa [Machine.resume, same] using unheld)
      have held (other : ι) : heldBy next.holder other =
          if other = thread then heldBy machine.holder thread \ {lock}
          else heldBy machine.holder other := by
        subst stepped
        exact heldBy_give locked.1 other
      have apart : Tracks programs (some thread) next object := by
        subst stepped
        exact tracks.apart orderly tracks.history tracks.outside free
          (fun other different => update_of_ne different ..) (fun _ _ => rfl)
          (fun other different => by rw [held, if_neg different]) (fun _ _ => rfl) rfl
      have performed : Performed next object thread rest := by
        refine ⟨onward, by subst stepped; exact done, fun other member => ?_⟩
        rw [held, if_pos rfl] at member
        subst stepped
        exact values other member.1
      refine apart.complete (performed.fits ?_)
      subst stepped
      exact update_self ..
  | access lock change rest =>
      rw [Machine.advance, Option.some.injEq] at stepped
      have apart : Tracks programs (some thread) next object := by
        subst stepped
        exact tracks.access orderly locked.1 ..
      subst stepped
      have performed : Performed (Machine.resume { machine with
          shared := machine.shared.write lock (change (machine.shared.guarded lock)) } thread
          (rest (machine.shared.guarded lock))) object thread
          (rest (machine.shared.guarded lock)) :=
        ⟨settled _, done, values⟩
      exact apart.complete (performed.fits (update_self ..))
  | exchange change rest => exact settled.elim

theorem tracks_pending (tracks : Tracks programs none machine object)
    (orderly : Orderly rank machine) (after : Orderly rank next)
    (found : machine.running thread = some program) (unsettled : ¬program.Settled)
    (pending : Pending programs machine object thread program)
    (stepped : machine.advance thread program = some next) :
    ∃ last, Performs programs thread object last ∧ Tracks programs none next last := by
  obtain ⟨request, called, shape, same⟩ := pending
  have locked := orderly.locked thread program found
  cases program with
  | finish result => exact absurd trivial unsettled
  | acquire lock rest =>
      simp only [Machine.advance] at stepped
      split at stepped
      · rename_i free
        rw [Option.some.injEq] at stepped
        have held (other : ι) : heldBy next.holder other =
            if other = thread then insert lock (heldBy machine.holder thread)
            else heldBy machine.holder other := by
          subst stepped
          exact heldBy_take free thread other
        have apart : Tracks programs (some thread) next object := by
          subst stepped
          refine tracks.apart orderly tracks.history tracks.outside (fun other unheld => ?_)
            (fun other different => update_of_ne different ..) (fun _ _ => rfl)
            (fun other different => by rw [held, if_neg different]) (fun _ _ => rfl) rfl
          have different : other ≠ lock := fun same => by
            simp [Machine.resume, same] at unheld
          exact tracks.free other (by simpa [Machine.resume, different] using unheld)
        have pending : Pending programs next object thread rest := by
          refine ⟨request, called, shape, fun other agree => ?_⟩
          rw [held, if_pos rfl] at agree
          have unheld := notMem_heldBy_of_free free thread
          have overlaid : next.overlay thread other = machine.overlay thread other := by
            have shared : next.shared = machine.shared := by subst stepped; rfl
            refine Shared.ext (funext fun taken => ?_) rfl
            by_cases mine : taken ∈ heldBy next.holder thread
            · rw [next.overlay_held mine, shared]
              rw [held, if_pos rfl] at mine
              obtain rfl | before := mine
              · rw [machine.overlay_unheld unheld, agree taken (.inl rfl), tracks.free taken free]
              · rw [machine.overlay_held before]
            · rw [next.overlay_unheld mine]
              rw [held, if_pos rfl] at mine
              rw [machine.overlay_unheld fun before => mine (.inr before)]
          rw [overlaid]
          exact same other fun held member => agree held (.inr member)
        exact apart.settle after (by subst stepped; exact update_self ..) pending
      · simp at stepped
  | release lock rest => exact absurd shape unsettled
  | access lock change rest =>
      rw [Machine.advance, Option.some.injEq] at stepped
      have apart : Tracks programs (some thread) next object := by
        subst stepped
        exact tracks.access orderly locked.1 ..
      have pending : Pending programs next object thread (rest (machine.shared.guarded lock)) := by
        refine ⟨request, called, shape _, fun other agree => ?_⟩
        have read := machine.overlay_held locked.1 other
        have overlaid : next.overlay thread other = (machine.overlay thread other).write lock
            (change (machine.shared.guarded lock)) := by
          have shared : next.shared = machine.shared.write lock
              (change (machine.shared.guarded lock)) := by subst stepped; rfl
          have held : heldBy next.holder thread = heldBy machine.holder thread := by
            subst stepped; rfl
          refine Shared.ext (funext fun taken => ?_) rfl
          by_cases here : taken = lock
          · subst here
            rw [next.overlay_held (held ▸ locked.1), shared, Shared.write_same, Shared.write_same]
          · rw [Shared.write_other _ _ here]
            by_cases mine : taken ∈ heldBy machine.holder thread
            · rw [next.overlay_held (held ▸ mine), shared, Shared.write_other _ _ here,
                machine.overlay_held mine]
            · rw [next.overlay_unheld (held ▸ mine), machine.overlay_unheld mine]
        rw [overlaid, same other (by subst stepped; exact agree), Program.alone, read]
      exact apart.settle after (by subst stepped; exact update_self ..) pending
  | exchange change rest => exact shape.elim

theorem tracks_advance (tracks : Tracks programs none machine object)
    (orderly : Orderly rank machine) (after : Orderly rank next)
    (found : machine.running thread = some program)
    (unfinished : ∀ result, program ≠ .finish result)
    (stepped : machine.advance thread program = some next) :
    ∃ last, Performs programs thread object last ∧ Tracks programs none next last := by
  rcases (tracks.fits thread (by simp)).busy program found with ⟨unsettled, pending⟩ | performed
  · exact tracks_pending tracks orderly after found unsettled pending stepped
  · exact ⟨object, .inl rfl, tracks_performed tracks orderly found unfinished performed stepped⟩

theorem tracks_step {event : ThreadEvent ι ω}
    (wellLocked : ∀ request, (programs request).WellLocked rank ∅)
    (shape : ∀ request, (programs request).TakesThenGives)
    (orderly : Orderly rank machine) (tracks : Tracks programs none machine object)
    (stepped : machineStep programs machine event = some next) :
    ∃ last, Reaches (objectStep (atomically programs)) object last ∧
      Tracks programs none next last := by
  have after := orderly_step wellLocked orderly stepped
  cases event with
  | call thread request =>
      obtain ⟨called, last, calls, performs, matched⟩ :=
        tracks_call tracks orderly wellLocked (shape request) stepped
      exact ⟨last, Reaches.step calls performs.reaches, matched⟩
  | step thread =>
      obtain ⟨program, found, advanced⟩ := Option.bind_eq_some_iff.mp stepped
      by_cases finished : ∃ result, program = .finish result
      · obtain ⟨result, rfl⟩ := finished
        obtain ⟨last, answers, matched⟩ := tracks_finish tracks orderly found advanced
        exact ⟨last, Reaches.step answers (.refl ..), matched⟩
      · obtain ⟨last, performs, matched⟩ := tracks_advance tracks orderly after found
          (fun result same => finished ⟨result, same⟩) advanced
        exact ⟨last, performs.reaches, matched⟩

theorem tracks_start (shared : Shared β τ) :
    Tracks programs none (machineStart shared : Machine ι ω ρ β τ) (objectStart shared) :=
  ⟨rfl, rfl, fun _ _ => rfl, fun _ _ => ⟨fun _ => rfl, fun _ found => by simp [machineStart] at found⟩⟩

theorem Tracks.settled (tracks : Tracks programs none machine object)
    (orderly : Orderly rank machine) (idle : ∀ thread, machine.running thread = none) :
    object.state = machine.shared := by
  refine Shared.ext (funext fun lock => tracks.free lock ?_) tracks.outside
  refine Option.eq_none_iff_forall_ne_some.mpr fun thread mine => ?_
  have member : lock ∈ heldBy machine.holder thread := mine
  rw [orderly.idle thread (idle thread)] at member
  exact member

/-- Every history of the threads is one of the object whose requests take effect at once;
when no request is in progress, the object has the threads' state. -/
theorem linearized {shared : Shared β τ} {events : List (ThreadEvent ι ω)}
    (wellLocked : ∀ request, (programs request).WellLocked rank ∅)
    (shape : ∀ request, (programs request).TakesThenGives)
    (reached : run (machineStep programs) (machineStart shared) events = some machine) :
    ∃ steps object,
      run (objectStep (atomically programs)) (objectStart shared)
        steps = some object ∧
      object.history = machine.history ∧
      ((∀ thread, machine.running thread = none) → object.state = machine.shared) := by
  obtain ⟨object, ⟨steps, performed⟩, orderly, tracks⟩ := run_simulated
    (fun machine object => Orderly rank machine ∧ Tracks programs none machine object)
    (fun machine event next object held stepped => by
      obtain ⟨last, reached, tracks⟩ := tracks_step wellLocked shape held.1 held.2 stepped
      exact ⟨last, reached, orderly_step wellLocked held.1 stepped, tracks⟩)
    (objectStart shared) ⟨orderly_start rank shared, tracks_start shared⟩ reached
  exact ⟨steps, object, performed, tracks.history, tracks.settled orderly⟩

end Linearization

end TwoPhase
