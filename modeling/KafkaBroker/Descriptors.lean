import KafkaBroker.DescriptorsCore

/-!
Descriptor ownership. Clients can be created, moved, connected, closed and destroyed in any
order, and any of their calls may fail: every descriptor that is open belongs to one client or to
the rest of the process, and no client ever closes or uses one that is not its own.
-/

namespace KafkaBroker

open ByteText Ownership

def Process.owns (process : Process) : DescriptorOwner → Nat → Prop
  | .client id, fd => ∃ client, process.clients.find id = some client ∧ client.fd = some fd
  | .other, fd => fd ∈ process.others

theorem connect_thrown (client : BrokerClient) (calls : ConnectCalls) :
    (client.connect calls).thrown = none ↔ ((client.connect calls).client.fd).isSome = true := by
  unfold BrokerClient.connect
  cases connected : client.fd with
  | some fd => simp [connected]
  | none =>
      cases calls.socket with
      | none => simp [connected]
      | some fd =>
          simp only [Bool.not_eq_true']
          split
          · simp [connected]
          · split
            · simp [connected]
            · simp

theorem request_client (client : BrokerClient) (failure : Option Bytes) :
    (client.request failure).client = client := by
  unfold BrokerClient.request
  split <;> rfl

theorem close_client (client : BrokerClient) : client.close.client.fd = none := by
  unfold BrokerClient.close
  split
  · assumption
  · rfl

section Steps

variable {process : Process} {id : Nat} {client : BrokerClient}

theorem owns_client (found : process.clients.find id = some client) (fd : Nat) :
    process.owns (.client id) fd ↔ client.fd = some fd := by
  simp [Process.owns, found]

theorem owns_called (process : Process) (id : Nat) (outcome : ClientOutcome)
    (owner : DescriptorOwner) (fd : Nat) : (process.called id outcome).owns owner fd ↔
      if owner = .client id then outcome.client.fd = some fd else process.owns owner fd := by
  cases owner with
  | other => simp [Process.owns, Process.called]
  | client query =>
      simp only [Process.owns, Process.called, Table.find_set, DescriptorOwner.client.injEq]
      split <;> simp

theorem called_unchanged {outcome : ClientOutcome}
    (accounts : Accounts (process.called id outcome).ledger process.owns)
    (same : ∀ fd, outcome.client.fd = some fd ↔ process.owns (.client id) fd) :
    Accounts (process.called id outcome).ledger (process.called id outcome).owns := by
  refine accounts.congr fun owner fd => ?_
  rw [owns_called]
  split
  · rename_i isId
    rw [isId, same]
  · rfl

theorem close_accounts (accounts : Accounts process.ledger process.owns)
    (found : process.clients.find id = some client) :
    Accounts (process.called id client.close).ledger (process.called id client.close).owns := by
  have own := owns_client found
  cases connected : client.fd with
  | none =>
      have closed : client.close = { client } := by simp only [BrokerClient.close, connected]
      rw [closed]
      exact called_unchanged accounts fun fd => (own fd).symm
  | some socket =>
      have owned : process.owns (.client id) socket := (own socket).mpr connected
      have closed : client.close =
          { client := { client with fd := none }, uses := [.release socket] } := by
        simp only [BrokerClient.close, connected]
      rw [closed]
      refine (accounts.release owned).congr fun owner fd => ?_
      rw [owns_called]
      split
      · rename_i isId
        simp [isId, own, connected, eq_comm]
      · rename_i different
        have apart : process.owns owner fd → fd ≠ socket := by
          rintro held rfl
          exact different (accounts.unique held owned)
        tauto

theorem connect_accounts (accounts : Accounts process.ledger process.owns)
    (found : process.clients.find id = some client) {calls : ConnectCalls}
    (fresh : ∀ fd, calls.socket = some fd → process.ledger.held.find fd = none) :
    Accounts (process.called id (client.connect calls)).ledger
      (process.called id (client.connect calls)).owns := by
  have own := owns_client found
  unfold BrokerClient.connect
  cases connected : client.fd with
  | some fd => exact called_unchanged accounts fun fd => (own fd).symm
  | none =>
      cases opened : calls.socket with
      | none => exact called_unchanged accounts fun fd => (own fd).symm
      | some socket =>
          have new := fresh socket opened
          have acquired := accounts.acquire new (.client id)
          have used := acquired.use (Or.inr ⟨rfl, rfl⟩)
          simp only [Bool.not_eq_true']
          split
          · exact called_unchanged (accounts.giveBack new acquired) fun fd => (own fd).symm
          · split
            · exact called_unchanged (accounts.giveBack new used) fun fd => (own fd).symm
            · refine used.congr fun owner fd => ?_
              rw [owns_called]
              split
              · rename_i isId
                simp [isId, own, connected, eq_comm]
              · rename_i different
                simp [different]

theorem request_accounts (accounts : Accounts process.ledger process.owns)
    (found : process.clients.find id = some client) (failure : Option Bytes) :
    Accounts (process.called id (client.request failure)).ledger
      (process.called id (client.request failure)).owns := by
  have own := owns_client found
  refine called_unchanged ?_ fun fd => by rw [request_client, own]
  unfold BrokerClient.request
  cases connected : client.fd with
  | none => exact accounts
  | some fd => exact accounts.use ((own fd).mpr connected)

theorem moved_accounts (accounts : Accounts process.ledger process.owns)
    (free : ∀ fd, ¬process.owns (.client id) fd) {source : Nat} (different : id ≠ source)
    {other : BrokerClient} (found : process.clients.find source = some other) (host : Bytes) :
    Accounts (process.moved id source other host).ledger
      (process.moved id source other host).owns := by
  have own := owns_client found
  have after (owner : DescriptorOwner) (fd : Nat) :
      (process.moved id source other host).owns owner fd ↔
        if owner = .client source then False
        else if owner = .client id then other.fd = some fd else process.owns owner fd := by
    cases owner with
    | other => simp [Process.owns, Process.moved]
    | client query =>
        simp only [Process.owns, Process.moved, Table.find_set, DescriptorOwner.client.injEq]
        split
        · simp [BrokerClient.movedFrom]
        · split <;> simp
  cases connected : other.fd with
  | none =>
      have ledger : (process.moved id source other host).ledger = process.ledger := by
        simp only [Process.moved, connected]
      rw [ledger]
      refine accounts.congr fun owner fd => ?_
      rw [after, connected]
      split
      · rename_i isSource
        simp [isSource, own, connected]
      · split
        · rename_i isTarget
          simp [isTarget, free]
        · rfl
  | some socket =>
      have ledger : (process.moved id source other host).ledger =
          process.ledger.enter (.handed (.client source) socket (.client id)) := by
        simp only [Process.moved, connected]
      have owned : process.owns (.client source) socket := (own socket).mpr connected
      rw [ledger]
      refine (accounts.hand owned (.client id)).congr fun owner fd => ?_
      rw [after, connected, Option.some.injEq, eq_comm (a := socket)]
      by_cases same : fd = socket
      · subst same
        by_cases isTarget : owner = .client id
        · simp [isTarget, different]
        · simp only [isTarget, if_false, if_true, iff_false]
          split
          · exact not_false
          · rename_i notSource
            exact fun held => notSource (accounts.unique held owned)
      · simp only [same, if_false]
        split
        · rename_i isSource
          simp [isSource, own, connected, Ne.symm same]
        · split
          · rename_i isTarget
            simp [isTarget, free]
          · rfl

theorem free_owns (free : (process.clients.find id).isSome = false) (fd : Nat) :
    ¬process.owns (.client id) fd := by
  rw [Option.isSome_eq_false_iff, Option.isNone_iff_eq_none] at free
  simp [Process.owns, free]

theorem processStep_accounts {next : Process} (accounts : Accounts process.ledger process.owns)
    {event : ProcessEvent} (stepped : processStep process event = some next) :
    Accounts next.ledger next.owns := by
  cases event with
  | construct id host port =>
      simp only [processStep, Option.ite_none_left_eq_some, Option.some.injEq,
        Bool.not_eq_true] at stepped
      obtain ⟨free, rfl⟩ := stepped
      refine called_unchanged accounts fun fd => ?_
      simp [free_owns free]
  | moveConstruct id source host =>
      simp only [processStep, Option.ite_none_left_eq_some, Option.map_eq_some_iff,
        Bool.not_eq_true] at stepped
      obtain ⟨free, other, found, rfl⟩ := stepped
      refine moved_accounts accounts (free_owns free) ?_ found host
      rintro rfl
      simp [found] at free
  | moveAssign id source host =>
      simp only [processStep, Option.bind_eq_some_iff, Option.map_eq_some_iff] at stepped
      obtain ⟨client, found, other, sourceFound, rfl⟩ := stepped
      split
      · exact accounts
      · rename_i different
        refine moved_accounts (close_accounts accounts found) (fun fd => ?_) different ?_ host
        · simp [owns_called, close_client]
        · simpa [Process.called, Ne.symm different] using sourceFound
  | connect id calls =>
      simp only [processStep, Option.bind_eq_some_iff, Option.ite_none_left_eq_some,
        Option.some.injEq] at stepped
      obtain ⟨client, found, fresh, rfl⟩ := stepped
      refine connect_accounts accounts found fun fd opened => ?_
      simpa [opened] using fresh
  | request id failure =>
      simp only [processStep, Option.map_eq_some_iff] at stepped
      obtain ⟨client, found, rfl⟩ := stepped
      exact request_accounts accounts found failure
  | close id =>
      simp only [processStep, Option.map_eq_some_iff] at stepped
      obtain ⟨client, found, rfl⟩ := stepped
      exact close_accounts accounts found
  | destroy id =>
      simp only [processStep, Option.map_eq_some_iff] at stepped
      obtain ⟨client, found, rfl⟩ := stepped
      refine (close_accounts accounts found).congr fun owner fd => ?_
      rw [owns_called, close_client]
      cases owner with
      | other => simp [Process.owns, Process.called]
      | client query =>
          simp only [Process.owns, Process.called, Table.find_remove, Table.find_set,
            DescriptorOwner.client.injEq]
          split <;> simp
  | openOther fd =>
      simp only [processStep, Option.ite_none_left_eq_some, Option.some.injEq,
        Option.not_isSome_iff_eq_none] at stepped
      obtain ⟨fresh, rfl⟩ := stepped
      refine (accounts.acquire fresh .other).congr fun owner query => ?_
      cases owner with
      | other => simp [Process.owns, or_comm]
      | client id => simp [Process.owns]
  | closeOther fd =>
      simp only [processStep, Option.ite_none_right_eq_some, Option.some.injEq] at stepped
      obtain ⟨owned, rfl⟩ := stepped
      have own : process.owns .other fd := owned
      refine (accounts.release own).congr fun owner query => ?_
      cases owner with
      | other => simp [Process.owns, and_comm]
      | client id =>
          have apart : process.owns (.client id) query → query ≠ fd := by
            rintro held rfl
            simpa using accounts.unique held own
          constructor
          · exact fun held => ⟨held, apart held⟩
          · exact And.left

end Steps

theorem process_accounts {events : List ProcessEvent} {process : Process}
    (reached : Transition.run processStep {} events = some process) :
    Accounts process.ledger process.owns := by
  refine Transition.run_invariant (fun process : Process => Accounts process.ledger process.owns)
    (fun _ _ _ accounts stepped => processStep_accounts accounts stepped) ?_ reached
  refine accounts_empty.congr fun owner fd => ?_
  cases owner <;> simp [Process.owns]

/-- In every process, whatever its clients go through: each descriptor was used, closed and
handed over by its owner only, and each one that is open belongs to the client that holds it or
to the rest of the process. -/
theorem descriptors_owned {events : List ProcessEvent} {process : Process}
    (reached : Transition.run processStep {} events = some process) :
    Transition.run Ownership.step ∅ process.ledger.entries = some process.ledger.held ∧
      (∀ fd, process.ledger.held.find fd = some .other ↔ fd ∈ process.others) ∧
      ∀ fd id, process.ledger.held.find fd = some (.client id) ↔
        ∃ client, process.clients.find id = some client ∧ client.fd = some fd := by
  have accounts := process_accounts reached
  exact ⟨accounts.proper, fun fd => accounts.held fd .other,
    fun fd id => accounts.held fd (.client id)⟩

def movedAround : List ProcessEvent :=
  [.construct 1 (ascii "127.0.0.1") 9093, .connect 1 ⟨some 5, true, true, []⟩,
    .moveConstruct 2 1 [], .destroy 1, .request 2 none,
    -- the number of the socket that did not connect is given out again
    .construct 3 (ascii "127.0.0.1") 9093,
    .connect 3 ⟨some 6, true, false, ascii "Connection refused"⟩, .openOther 6,
    .moveAssign 3 2 [], .request 2 none, .destroy 2]

theorem descriptors_owned_moved :
    ∃ process, Transition.run processStep {} movedAround = some process ∧
      (∃ client, process.clients.find 3 = some client ∧ client.fd = some 5) ∧
      6 ∈ process.others := by
  have evaluated : (Transition.run processStep {} movedAround).map (fun process =>
      (process.ledger.held.find 5, process.ledger.held.find 6)) =
        some (some (.client 3), some .other) := by
    decide +kernel
  simp only [Option.map_eq_some_iff, Prod.mk.injEq] at evaluated
  obtain ⟨process, reached, taken, other⟩ := evaluated
  obtain ⟨_, others, clients⟩ := descriptors_owned reached
  exact ⟨process, reached, (clients 5 3).mp taken, (others 6).mp other⟩

/-! A local object, as `broker.cpp` and the two programs have it. -/

def ProcessEvent.callOf (id : Nat) : ProcessEvent → Bool
  | .connect other _ => other = id
  | .request other _ => other = id
  | .close other => other = id
  | _ => false

/-- Everything is as before, but for one object. -/
structure Process.Besides (id : Nat) (before after : Process) : Prop where
  others : after.others = before.others
  clients : ∀ query, query ≠ id → after.clients.find query = before.clients.find query

theorem called_besides {before process : Process} {id : Nat} (besides : before.Besides id process)
    (outcome : ClientOutcome) : before.Besides id (process.called id outcome) := by
  refine ⟨besides.others, fun query different => ?_⟩
  rw [← besides.clients query different]
  simp [Process.called, different]

theorem callOf_besides {before process next : Process} {id : Nat}
    (besides : before.Besides id process) {event : ProcessEvent}
    (call : event.callOf id = true) (stepped : processStep process event = some next) :
    before.Besides id next := by
  cases event with
  | connect other calls =>
      obtain rfl : other = id := by simpa [ProcessEvent.callOf] using call
      simp only [processStep, Option.bind_eq_some_iff, Option.ite_none_left_eq_some,
        Option.some.injEq] at stepped
      obtain ⟨client, _, _, rfl⟩ := stepped
      exact called_besides besides _
  | request other failure =>
      obtain rfl : other = id := by simpa [ProcessEvent.callOf] using call
      simp only [processStep, Option.map_eq_some_iff] at stepped
      obtain ⟨client, _, rfl⟩ := stepped
      exact called_besides besides _
  | close other =>
      obtain rfl : other = id := by simpa [ProcessEvent.callOf] using call
      simp only [processStep, Option.map_eq_some_iff] at stepped
      obtain ⟨client, _, rfl⟩ := stepped
      exact called_besides besides _
  | _ => simp [ProcessEvent.callOf] at call

theorem run_besides {before process final : Process} {id : Nat} {calls : List ProcessEvent}
    (besides : before.Besides id process) (own : ∀ call ∈ calls, call.callOf id = true)
    (reached : Transition.run processStep process (calls ++ [.destroy id]) = some final) :
    before.Besides id final ∧ final.clients.find id = none := by
  induction calls generalizing process with
  | nil =>
      obtain ⟨next, stepped, finished⟩ := Transition.run_cons_eq_some reached
      obtain rfl := Option.some.inj finished
      simp only [processStep, Option.map_eq_some_iff] at stepped
      obtain ⟨client, _, rfl⟩ := stepped
      have closed := called_besides besides client.close
      refine ⟨⟨closed.others, fun query different => ?_⟩, by simp⟩
      rw [← closed.clients query different, Table.find_remove, if_neg different]
  | cons call rest ih =>
      rw [List.forall_mem_cons] at own
      obtain ⟨next, stepped, remaining⟩ := Transition.run_cons_eq_some reached
      exact ih (callOf_besides besides own.1 stepped) own.2 remaining

/-- Whatever the calls on a local object throw, once it is destroyed the same descriptors are
open as before it was there, with the same owners. -/
theorem local_client_returns {earlier calls : List ProcessEvent} {process final : Process}
    (before : Transition.run processStep {} earlier = some process) {id : Nat} {host : Bytes}
    {port : Int} (own : ∀ call ∈ calls, call.callOf id = true)
    (reached : Transition.run processStep process
      (.construct id host port :: (calls ++ [.destroy id])) = some final) (fd : Nat) :
    final.ledger.held.find fd = process.ledger.held.find fd := by
  have accounts := process_accounts before
  have later := process_accounts ((Transition.run_append before _).trans reached)
  obtain ⟨next, constructed, remaining⟩ := Transition.run_cons_eq_some reached
  simp only [processStep, Option.ite_none_left_eq_some, Option.some.injEq,
    Option.not_isSome_iff_eq_none] at constructed
  obtain ⟨free, rfl⟩ := constructed
  have start : process.Besides id process := ⟨rfl, fun _ _ => rfl⟩
  obtain ⟨besides, gone⟩ := run_besides (called_besides start _) own remaining
  have clients (query : Nat) : final.clients.find query = process.clients.find query := by
    by_cases same : query = id
    · rw [same, gone, free]
    · exact besides.clients query same
  have owns (owner : DescriptorOwner) : final.owns owner fd ↔ process.owns owner fd := by
    cases owner with
    | other => simp only [Process.owns, besides.others]
    | client query => simp only [Process.owns, clients]
  refine Option.ext fun owner => ?_
  rw [later.held, accounts.held, owns]

def brokenExchange : List ProcessEvent :=
  [.connect 4 ⟨some 7, true, true, []⟩, .request 4 (some (ascii "Connection closed by broker"))]

theorem local_client_returns_broken :
    ∃ process final, Transition.run processStep {} movedAround = some process ∧
      Transition.run processStep process
        (.construct 4 (ascii "127.0.0.1") 9094 :: (brokenExchange ++ [.destroy 4])) = some final ∧
      final.ledger.held.find 7 = process.ledger.held.find 7 := by
  have evaluated : ((Transition.run processStep {} movedAround).bind fun process =>
      Transition.run processStep process
        (.construct 4 (ascii "127.0.0.1") 9094 :: (brokenExchange ++ [.destroy 4]))).isSome =
          true := by
    decide +kernel
  obtain ⟨final, reached⟩ := Option.isSome_iff_exists.mp evaluated
  obtain ⟨process, before, after⟩ := Option.bind_eq_some_iff.mp reached
  have own : ∀ call ∈ brokenExchange, call.callOf 4 = true := by decide
  exact ⟨process, final, before, after, local_client_returns before own after 7⟩

end KafkaBroker
