import Mathlib.Tactic.SplitIfs
import KafkaBroker.EventLoopCore
import KafkaBroker.Sending

/-!
The event loop of `EpollServer` over whole runs: it has open what its tables list, an event
is for the connection it was reported for, and every connection gets the answers to its
requests in order, whatever the other clients do in between.
-/

namespace KafkaBroker

open ByteText

def Operation.connection : Operation → Nat
  | .request connection _ _ => connection
  | .remove connection _ => connection

theorem exchanges_append (first second : List Operation) (connection : Nat) :
    exchanges (first ++ second) connection =
      exchanges first connection ++ exchanges second connection := by
  exact List.filterMap_append

theorem exchanges_other {operations : List Operation} {connection : Nat}
    (other : ∀ operation ∈ operations, operation.connection ≠ connection) :
    exchanges operations connection = [] := by
  rw [exchanges, List.filterMap_eq_nil_iff]
  intro operation member
  have different := other operation member
  cases operation with
  | request number payload response =>
      cases response with
      | none => rfl
      | some response => exact if_neg different
  | remove number membership => rfl

namespace EventLoop

variable {β : Type}

@[simp] theorem setClient_find (loop : EventLoop β) (fd other : Nat) (client : EpollClient) :
    (loop.setClient fd client).clients.find other =
      if other = fd then some client else loop.clients.find other :=
  Table.find_set loop.clients fd other client

/-! What holds between two steps. -/

/-- The tables of the server and of the kernel list the same descriptors, and what is left
of `events` is about the connections it was reported for. -/
structure Tables (loop : EventLoop β) : Prop where
  distinct : loop.serverFd ≠ loop.epollFd
  apart : loop.clients.find loop.serverFd = none ∧ loop.clients.find loop.epollFd = none
  openFds : ∀ fd, fd ∈ loop.openFds ↔
    loop.running = true ∧ (fd = loop.serverFd ∨ fd = loop.epollFd) ∨
      (loop.clients.find fd).isSome = true
  watched : ∀ fd, fd ∈ loop.watched ↔
    loop.running = true ∧ fd = loop.serverFd ∨ (loop.clients.find fd).isSome = true
  stopped : loop.running = false → (∀ fd, loop.clients.find fd = none) ∧ loop.ready = []
  numbered : ∀ fd client, loop.clients.find fd = some client → client.connection < loop.accepted
  unique : ∀ fd other client also, loop.clients.find fd = some client →
    loop.clients.find other = some also → client.connection = also.connection → fd = other
  noted : ∀ operation ∈ loop.history, operation.connection < loop.accepted
  once : (loop.ready.map fun entry => entry.1.fd).Nodup
  reported : ∀ entry ∈ loop.ready, entry.1.fd = loop.serverFd ∨
    ∃ client, loop.clients.find entry.1.fd = some client ∧ entry.2 = some client.connection

/-- The client has been handed the frames of its responses as far as `write_offset`, and the
stream it sends has been cut into the frames of its requests and `buffer`. -/
structure Streams (client : EpollClient) (exchanged : List (Bytes × Bytes)) (buffer : Bytes) :
    Prop where
  received : client.received = frameBytes (exchanged.map Prod.fst) ++ buffer
  flowing : Flowing (exchanged.map fun exchange => bigEndian exchange.2.length ++ exchange.2)
    client.outgoing

def InOrder (loop : EventLoop β) (fd : Nat) : Prop :=
  ∀ client, loop.clients.find fd = some client →
    Streams client (exchanges loop.history client.connection) client.readBuffer ∧
      Incomplete client.readBuffer

variable (calls : BrokerCalls β) (initial : EventLoop β)

structure Sound (loop : EventLoop β) : Prop extends Tables loop where
  serverFd : loop.serverFd = initial.serverFd
  epollFd : loop.epollFd = initial.epollFd
  replayed : Transition.run calls.perform initial.broker loop.history = some loop.broker
  inOrder : ∀ fd, loop.InOrder fd

/-- While the entry of `fd` is handled, the state of that client is left open. -/
structure Handling (fd : Nat) (loop : EventLoop β) : Prop extends Tables loop where
  handled : ∀ entry ∈ loop.ready, entry.1.fd ≠ fd
  serverFd : loop.serverFd = initial.serverFd
  epollFd : loop.epollFd = initial.epollFd
  replayed : Transition.run calls.perform initial.broker loop.history = some loop.broker
  inOrder : ∀ other, other ≠ fd → loop.InOrder other

structure Reading (fd : Nat) (goesOn : Prop) (buffer : Bytes) (loop : EventLoop β) : Prop extends
    Handling calls initial fd loop where
  stored : ∃ client, loop.clients.find fd = some client ∧
    (goesOn → Streams client (exchanges loop.history client.connection) buffer)

section Handling

variable {calls initial} {loop : EventLoop β} {fd : Nat} {client : EpollClient}

theorem Sound.handling (sound : Sound calls initial loop)
    (handled : ∀ entry ∈ loop.ready, entry.1.fd ≠ fd) : Handling calls initial fd loop :=
  ⟨sound.toTables, handled, sound.serverFd, sound.epollFd, sound.replayed, fun other _ => sound.inOrder other⟩

theorem Handling.sound (handling : Handling calls initial fd loop) (inOrder : loop.InOrder fd) :
    Sound calls initial loop := by
  refine ⟨handling.toTables, handling.serverFd, handling.epollFd, handling.replayed,
    fun other => ?_⟩
  by_cases same : other = fd
  · exact same ▸ inOrder
  · exact handling.inOrder other same

theorem Handling.advance (handling : Handling calls initial fd loop)
    (found : loop.clients.find fd = some client) (after : EpollClient)
    (same : after.connection = client.connection) (operations : List Operation) {broker : β}
    (own : ∀ operation ∈ operations, operation.connection = client.connection)
    (performed : Transition.run calls.perform loop.broker operations = some broker)
    {clients : Table Nat EpollClient} (stored : ∀ other,
      clients.find other = if other = fd then some after else loop.clients.find other) :
    Handling calls initial fd { loop with
      broker
      clients
      history := loop.history ++ operations } := by
  have present (other : Nat) :
      (clients.find other).isSome = (loop.clients.find other).isSome := by
    rw [stored]
    split_ifs with here
    · rw [here, found]
      rfl
    · rfl
  have elsewhere {other : Nat} (different : other ≠ fd) :
      clients.find other = loop.clients.find other := by
    rw [stored, if_neg different]
  have client_of {other : Nat} {now : EpollClient} (listed : clients.find other = some now) :
      ∃ before, loop.clients.find other = some before ∧ now.connection = before.connection := by
    rw [stored] at listed
    split_ifs at listed with here
    · rw [Option.some.injEq] at listed
      exact ⟨client, here ▸ found, listed ▸ same⟩
    · exact ⟨now, listed, rfl⟩
  have tables : Tables { loop with
      broker
      clients
      history := loop.history ++ operations } := by
    refine ⟨handling.distinct, ?_, ?_, ?_, ?_, ?_, ?_, ?_, handling.once, ?_⟩
    · have free {other : Nat} (absent : loop.clients.find other = none) :
          clients.find other = none := by
        have still := present other
        rw [absent] at still
        simpa using still
      exact ⟨free handling.apart.1, free handling.apart.2⟩
    · intro other
      rw [present]
      exact handling.openFds other
    · intro other
      rw [present]
      exact handling.watched other
    · intro stopped
      have absent := (handling.stopped stopped).1 fd
      rw [found] at absent
      cases absent
    · intro other now listed
      obtain ⟨before, earlier, number⟩ := client_of listed
      exact number ▸ handling.numbered other before earlier
    · intro first second now also listed listedAlso number
      obtain ⟨before, earlier, sameFirst⟩ := client_of listed
      obtain ⟨beforeAlso, earlierAlso, sameSecond⟩ := client_of listedAlso
      exact handling.unique first second before beforeAlso earlier earlierAlso
        (by rw [← sameFirst, ← sameSecond, number])
    · intro operation member
      rcases List.mem_append.mp member with earlier | new
      · exact handling.noted operation earlier
      · exact own operation new ▸ handling.numbered fd client found
    · intro entry member
      rcases handling.reported entry member with server | ⟨before, listed, number⟩
      · exact Or.inl server
      · exact Or.inr ⟨before, (elsewhere (handling.handled entry member)).trans listed, number⟩
  refine ⟨tables, handling.handled, handling.serverFd, handling.epollFd, ?_, ?_⟩
  · rw [Transition.run_append handling.replayed, performed]
  · intro other different now listed
    have earlier : loop.clients.find other = some now := (elsewhere different).symm.trans listed
    have foreign : ∀ operation ∈ operations, operation.connection ≠ now.connection := by
      intro operation member number
      rw [own operation member] at number
      exact different (handling.unique fd other client now found earlier number).symm
    have before := handling.inOrder other different now earlier
    rw [← List.append_nil (exchanges loop.history now.connection), ← exchanges_other foreign,
      ← exchanges_append] at before
    exact before

theorem Handling.setClient (handling : Handling calls initial fd loop)
    (found : loop.clients.find fd = some client) (after : EpollClient)
    (same : after.connection = client.connection) :
    Handling calls initial fd (loop.setClient fd after) := by
  have advanced := handling.advance found after same [] (fun _ member => nomatch member)
    (Transition.run_nil _ _) (fun other => Table.find_set loop.clients fd other after)
  rw [List.append_nil] at advanced
  exact advanced

theorem run_removals (connection : Nat) (memberships : List Membership) (broker : β) :
    Transition.run calls.perform broker (memberships.map (Operation.remove connection)) =
      some ((memberships.map (Operation.remove connection)).foldl
        (fun broker operation => (calls.perform broker operation).getD broker) broker) := by
  induction memberships generalizing broker with
  | nil => rfl
  | cons membership rest ih =>
      rw [List.map_cons, Transition.run_cons, List.foldl_cons]
      exact ih _

theorem Handling.closeClient (handling : Handling calls initial fd loop)
    (found : loop.clients.find fd = some client) :
    Sound calls initial (loop.closeClient calls fd) := by
  have served : fd ≠ loop.serverFd := by
    rintro rfl
    rw [handling.apart.1] at found
    cases found
  have polled : fd ≠ loop.epollFd := by
    rintro rfl
    rw [handling.apart.2] at found
    cases found
  -- the removals are operations on behalf of the client, so its entry may go afterwards
  have advanced := handling.advance found client rfl
    (client.joinedGroups.map (Operation.remove client.connection))
    (by
      intro operation member
      obtain ⟨membership, _, rfl⟩ := List.mem_map.mp member
      rfl)
    (run_removals client.connection client.joinedGroups loop.broker)
    (fun other => Table.find_set loop.clients fd other client)
  have find_removed (other : Nat) : (loop.closeClient calls fd).clients.find other =
      if other = fd then none else loop.clients.find other :=
    Table.find_remove loop.clients fd other
  have earlier {other : Nat} {now : EpollClient}
      (stored : (loop.closeClient calls fd).clients.find other = some now) :
      other ≠ fd ∧ loop.clients.find other = some now := by
    rw [find_removed] at stored
    split_ifs at stored with here
    exact ⟨here, stored⟩
  have broker : (loop.closeClient calls fd).broker =
      (client.joinedGroups.map (Operation.remove client.connection)).foldl
        (fun broker operation => (calls.perform broker operation).getD broker) loop.broker := by
    simp [EventLoop.closeClient, found]
  have history : (loop.closeClient calls fd).history =
      loop.history ++ client.joinedGroups.map (Operation.remove client.connection) := by
    simp [EventLoop.closeClient, found]
  have tables : Tables (loop.closeClient calls fd) := by
    refine ⟨handling.distinct, ?_, ?_, ?_, ?_, ?_, ?_, ?_, handling.once, ?_⟩
    · change (loop.closeClient calls fd).clients.find loop.serverFd = none ∧
        (loop.closeClient calls fd).clients.find loop.epollFd = none
      rw [find_removed, find_removed, if_neg served.symm, if_neg polled.symm]
      exact handling.apart
    · intro other
      change other ∈ loop.openFds.erase fd ↔ _
      rw [Finset.mem_erase, handling.openFds, find_removed]
      by_cases here : other = fd
      · subst here
        simp [served, polled, EventLoop.closeClient]
      · simp only [ne_eq, here, not_false_eq_true, true_and, if_false]
        rfl
    · intro other
      change other ∈ loop.watched.erase fd ↔ _
      rw [Finset.mem_erase, handling.watched, find_removed]
      by_cases here : other = fd
      · subst here
        simp [served, EventLoop.closeClient]
      · simp only [ne_eq, here, not_false_eq_true, true_and, if_false]
        rfl
    · intro stopped
      have none := (handling.stopped stopped).1 fd
      rw [found] at none
      cases none
    · intro other now stored
      exact handling.numbered other now (earlier stored).2
    · intro first second now also stored storedAlso
      exact handling.unique first second now also (earlier stored).2 (earlier storedAlso).2
    · rw [history]
      exact advanced.noted
    · intro entry member
      rcases handling.reported entry member with server | ⟨before, stored, number⟩
      · exact Or.inl server
      · refine Or.inr ⟨before, ?_, number⟩
        rw [find_removed, if_neg (handling.handled entry member)]
        exact stored
  refine ⟨tables, handling.serverFd, handling.epollFd, ?_, ?_⟩
  · rw [history, broker]
    exact advanced.replayed
  · intro other now stored
    obtain ⟨different, before⟩ := earlier stored
    rw [history]
    refine advanced.inOrder other different now ?_
    exact (Table.find_set ..).trans ((if_neg different).trans before)

/-! Requests. -/

theorem serveFrame_stored (present : (loop.clients.find fd).isSome = true) (payload : Bytes)
    (registered : Bool) :
    ((loop.serveFrame calls fd payload registered).2.clients.find fd).isSome = true := by
  obtain ⟨client, found⟩ := Option.isSome_iff_exists.mp present
  simp only [serveFrame, found]
  cases (calls.handleRequest loop.broker (parseRequest payload)).2 with
  | none => exact present
  | some response =>
      by_cases oversized : response.length > kMaxPayloadSize
      · simp [oversized]
      · simp [oversized, queueResponse]

theorem Reading.serveFrame {payload rest : Bytes} (reading : Reading calls initial fd True
      (bigEndian payload.length ++ payload ++ rest) loop) (registered : Bool) :
    Reading calls initial fd ((loop.serveFrame calls fd payload registered).1 = true) rest
      (loop.serveFrame calls fd payload registered).2 := by
  obtain ⟨handling, client, found, streams⟩ := reading
  replace streams := streams trivial
  have performed (response : Option Bytes)
      (answer : (calls.handleRequest loop.broker (parseRequest payload)).2 = response) :
      Transition.run calls.perform loop.broker [.request client.connection payload response] =
        some (calls.handleRequest loop.broker (parseRequest payload)).1 := by
    simp [Transition.run, BrokerCalls.perform, answer]
  have own (response : Option Bytes) :
      ∀ operation ∈ [Operation.request client.connection payload response],
        operation.connection = client.connection := by
    intro operation member
    rw [List.mem_singleton.mp member]
    rfl
  simp only [EventLoop.serveFrame, found]
  cases answer : (calls.handleRequest loop.broker (parseRequest payload)).2 with
  | none =>
      refine ⟨?_, client, found, by simp⟩
      exact handling.advance found client rfl _ (own none) (performed none answer) (fun other => by
        split_ifs with here
        · rw [here, found]
        · rfl)
  | some response =>
      have tracked := handling.advance found { client with
          joinedGroups := trackMembership client.joinedGroups (parseRequest payload) response }
        rfl _ (own (some response)) (performed (some response) answer)
        (fun other => Table.find_set loop.clients fd other _)
      by_cases oversized : response.length > kMaxPayloadSize
      · simp only [oversized, if_true]
        exact ⟨tracked, _, (setClient_find ..).trans (if_pos rfl), by simp⟩
      · simp only [oversized, if_false, EventLoop.queueResponse, setClient_find, if_true]
        refine ⟨tracked.setClient ((setClient_find ..).trans (if_pos rfl)) _ rfl, _,
          (setClient_find ..).trans (if_pos rfl), ?_⟩
        intro queued
        have exchanged : exchanges (loop.history ++
            [.request client.connection payload (some response)]) client.connection =
            exchanges loop.history client.connection ++ [(payload, response)] := by
          rw [exchanges_append]
          simp [exchanges]
        change Streams _ (exchanges (loop.history ++
          [.request client.connection payload (some response)]) client.connection) rest
        rw [exchanged]
        refine ⟨by simpa [frameBytes] using streams.received, ?_⟩
        cases registered with
        | true =>
            rw [List.map_append]
            exact queueResponse_flowing streams.flowing.toDraining response
        | false => simp [Outgoing.queueResponse, streams.flowing.isOpen] at queued

theorem extractCompleteFrames_stored (loop : EventLoop β) (buffer : Bytes)
    (registered : List Bool) : (loop.clients.find fd).isSome = true →
      ((extractCompleteFrames calls fd loop buffer registered).2.1.clients.find fd).isSome =
        true := by
  fun_induction extractCompleteFrames calls fd loop buffer registered with
  | case1 => exact id
  | case2 => exact id
  | case3 => exact id
  | case4 loop buffer registered header payloadLength allowed frameSize complete payload served
      goesOn ih => exact fun present => ih (serveFrame_stored present payload _)
  | case5 loop buffer registered header payloadLength allowed frameSize complete payload =>
      exact fun present => serveFrame_stored present payload _

theorem Reading.extractCompleteFrames {buffer : Bytes}
    (reading : Reading calls initial fd True buffer loop) (registered : List Bool) :
    Reading calls initial fd
      ((extractCompleteFrames calls fd loop buffer registered).1 = true)
      (EventLoop.extractCompleteFrames calls fd loop buffer registered).2.2
      (EventLoop.extractCompleteFrames calls fd loop buffer registered).2.1 := by
  have shift {goesOn : Prop} {buffer : Bytes} {loop : EventLoop β} (holds : goesOn)
      (reading : Reading calls initial fd goesOn buffer loop) :
      Reading calls initial fd True buffer loop := by
    obtain ⟨handling, client, found, streams⟩ := reading
    exact ⟨handling, client, found, fun _ => streams holds⟩
  have stop {goesOn : Prop} {buffer other : Bytes} {loop : EventLoop β}
      (reading : Reading calls initial fd goesOn buffer loop) :
      Reading calls initial fd (false = true) other loop := by
    obtain ⟨handling, client, found, _⟩ := reading
    exact ⟨handling, client, found, by simp⟩
  fun_induction EventLoop.extractCompleteFrames calls fd loop buffer registered with
  | case1 => exact ⟨reading.toHandling, by simpa using reading.stored⟩
  | case2 => exact stop reading
  | case3 => exact ⟨reading.toHandling, by simpa using reading.stored⟩
  | case4 loop buffer registered header payloadLength allowed frameSize complete payload served
      goesOn ih =>
      obtain ⟨_, _, rfl, front⟩ := @complete_front buffer _ rfl (not_lt.mp complete)
      rw [front] at reading
      exact ih (shift goesOn (reading.serveFrame (registered.headD true)))
  | case5 loop buffer registered header payloadLength allowed frameSize complete payload served
      stops =>
      obtain ⟨_, _, rfl, front⟩ := @complete_front buffer _ rfl (not_lt.mp complete)
      rw [front] at reading
      exact stop (reading.serveFrame (registered.headD true))

theorem extractCompleteFrames_incomplete (loop : EventLoop β) (buffer : Bytes)
    (registered : List Bool) :
    (extractCompleteFrames calls fd loop buffer registered).1 = true →
      Incomplete (extractCompleteFrames calls fd loop buffer registered).2.2 := by
  fun_induction extractCompleteFrames calls fd loop buffer registered with
  | case1 loop buffer registered short => exact fun _ => Or.inl short
  | case2 => simp
  | case3 loop buffer registered header payloadLength allowed frameSize short =>
      exact fun _ => Or.inr ⟨not_lt.mp allowed, short⟩
  | case4 loop buffer registered header payloadLength allowed frameSize complete payload served
      goesOn ih => exact ih
  | case5 => simp

theorem Handling.receive (handling : Handling calls initial fd loop)
    (found : loop.clients.find fd = some client) (inOrder : loop.InOrder fd) (bytes : Bytes)
    (registered : List Bool) :
    Handling calls initial fd (loop.receive calls fd bytes registered).2 ∧
      ((loop.receive calls fd bytes registered).2.clients.find fd).isSome ∧
      ((loop.receive calls fd bytes registered).1 = true →
        (loop.receive calls fd bytes registered).2.InOrder fd) := by
  obtain ⟨streams, _⟩ := inOrder client found
  have reading : Reading calls initial fd True (client.readBuffer ++ bytes)
      (loop.setClient fd { client with received := client.received ++ bytes }) := by
    refine ⟨handling.setClient found _ rfl, _, (setClient_find ..).trans (if_pos rfl), fun _ => ?_⟩
    refine ⟨?_, streams.flowing⟩
    change client.received ++ bytes = _
    rw [streams.received, List.append_assoc]
    rfl
  have extracted := reading.extractCompleteFrames registered
  obtain ⟨after, stored, kept⟩ := extracted.stored
  simp only [EventLoop.receive, found, stored]
  refine ⟨extracted.toHandling.setClient stored _ rfl, by simp, fun goesOn now listed => ?_⟩
  rw [setClient_find, if_pos rfl, Option.some.injEq] at listed
  subst listed
  obtain ⟨received, flowing⟩ := kept goesOn
  exact ⟨⟨received, flowing⟩, extractCompleteFrames_incomplete _ _ _ goesOn⟩

theorem Handling.readFromClient (recvs : List RecvResult) : ∀ {loop : EventLoop β},
    Handling calls initial fd loop → (loop.clients.find fd).isSome → loop.InOrder fd →
      Handling calls initial fd (loop.readFromClient calls fd recvs) ∧
        (loop.readFromClient calls fd recvs).InOrder fd := by
  induction recvs with
  | nil =>
      intro loop handling _ inOrder
      exact ⟨handling, inOrder⟩
  | cons call rest ih =>
      intro loop handling present inOrder
      obtain ⟨client, found⟩ := Option.isSome_iff_exists.mp present
      have closed {loop : EventLoop β} {client : EpollClient}
          (handling : Handling calls initial fd loop)
          (found : loop.clients.find fd = some client) :
          Handling calls initial fd (loop.closeClient calls fd) ∧
            (loop.closeClient calls fd).InOrder fd := by
        have sound := handling.closeClient found
        exact ⟨sound.handling handling.handled, sound.inOrder fd⟩
      cases call with
      | interrupted => exact ih handling present inOrder
      | wouldBlock => exact ⟨handling, inOrder⟩
      | failed => exact closed handling found
      | received chunk registered =>
          obtain ⟨next, still, ordered⟩ :=
            handling.receive found inOrder (chunk.take kReadBufferSize) registered
          obtain ⟨after, stored⟩ := Option.isSome_iff_exists.mp still
          simp only [EventLoop.readFromClient]
          split_ifs with ended goesOn
          · exact closed handling found
          · exact ih next still (ordered goesOn)
          · exact closed next stored

theorem Handling.writeToClient (handling : Handling calls initial fd loop)
    (found : loop.clients.find fd = some client) (inOrder : loop.InOrder fd)
    (sends : List SendCall) (registered : Bool) :
    Sound calls initial (loop.writeToClient calls fd sends registered) := by
  obtain ⟨streams, incomplete⟩ := inOrder client found
  have written := handling.setClient found { client with
    outgoing := client.outgoing.writeToClient sends registered } rfl
  simp only [EventLoop.writeToClient, found]
  split_ifs with closed
  · exact written.closeClient ((setClient_find ..).trans (if_pos rfl))
  · refine written.sound fun now listed => ?_
    rw [setClient_find, if_pos rfl, Option.some.injEq] at listed
    subst listed
    refine ⟨⟨streams.received, ?_⟩, incomplete⟩
    simp only [Outgoing.writeToClient, streams.flowing.isOpen, Bool.false_eq_true, if_false]
      at closed ⊢
    exact writePending_flowing streams.flowing.toDraining (Bool.not_eq_true _ ▸ closed)

/-! Connections come and go. -/

theorem Tables.free (tables : Tables loop) (unused : fd ∉ loop.openFds) :
    loop.clients.find fd = none := by
  rw [tables.openFds] at unused
  simpa using (not_or.mp unused).2

theorem Sound.enroll (sound : Sound calls initial loop) (running : loop.running = true)
    (unused : fd ∉ loop.openFds) : Sound calls initial (loop.enroll fd) := by
  have free := sound.free unused
  have other_than (used : Nat) (inUse : used = loop.serverFd ∨ used = loop.epollFd) :
      fd ≠ used := by
    rintro rfl
    exact unused ((sound.openFds fd).mpr (Or.inl ⟨running, inUse⟩))
  have find_admitted (other : Nat) : (loop.enroll fd).clients.find other =
      if other = fd then some { connection := loop.accepted } else loop.clients.find other :=
    Table.find_set loop.clients fd other _
  have earlier {other : Nat} {now : EpollClient}
      (stored : (loop.enroll fd).clients.find other = some now) :
      other = fd ∧ now = { connection := loop.accepted } ∨
        other ≠ fd ∧ loop.clients.find other = some now := by
    rw [find_admitted] at stored
    split_ifs at stored with here
    · exact Or.inl ⟨here, (Option.some.inj stored).symm⟩
    · exact Or.inr ⟨here, stored⟩
  have fresh : exchanges loop.history loop.accepted = [] :=
    exchanges_other fun operation member => (sound.noted operation member).ne
  have tables : Tables (loop.enroll fd) := by
    refine ⟨sound.distinct, ?_, ?_, ?_, ?_, ?_, ?_, ?_, sound.once, ?_⟩
    · change (loop.enroll fd).clients.find loop.serverFd = none ∧
        (loop.enroll fd).clients.find loop.epollFd = none
      rw [find_admitted, find_admitted, if_neg (other_than _ (Or.inl rfl)).symm,
        if_neg (other_than _ (Or.inr rfl)).symm]
      exact sound.apart
    · intro other
      change other ∈ insert fd loop.openFds ↔ _
      rw [Finset.mem_insert, sound.openFds, find_admitted]
      by_cases here : other = fd
      · simp [here]
      · simp only [here, false_or, if_false]
        rfl
    · intro other
      change other ∈ insert fd loop.watched ↔ _
      rw [Finset.mem_insert, sound.watched, find_admitted]
      by_cases here : other = fd
      · simp [here]
      · simp only [here, false_or, if_false]
        rfl
    · intro stopped
      change loop.running = false at stopped
      rw [running] at stopped
      cases stopped
    · intro other now stored
      change now.connection < loop.accepted + 1
      rcases earlier stored with ⟨_, rfl⟩ | ⟨_, before⟩
      · exact Nat.lt_succ_self _
      · exact (sound.numbered other now before).trans (Nat.lt_succ_self _)
    · intro first second now also stored storedAlso number
      rcases earlier stored with ⟨here, rfl⟩ | ⟨_, before⟩ <;>
        rcases earlier storedAlso with ⟨hereAlso, rfl⟩ | ⟨_, beforeAlso⟩
      · rw [here, hereAlso]
      · exact absurd number (sound.numbered second also beforeAlso).ne'
      · exact absurd number (sound.numbered first now before).ne
      · exact sound.unique first second now also before beforeAlso number
    · intro operation member
      exact (sound.noted operation member).trans (Nat.lt_succ_self _)
    · intro entry member
      rcases sound.reported entry member with server | ⟨before, stored, number⟩
      · exact Or.inl server
      · refine Or.inr ⟨before, ?_, number⟩
        rw [find_admitted, if_neg, stored]
        rintro here
        rw [here, free] at stored
        cases stored
  refine ⟨tables, sound.serverFd, sound.epollFd, sound.replayed, ?_⟩
  intro other now stored
  rcases earlier stored with ⟨_, rfl⟩ | ⟨_, before⟩
  · change Streams _ (exchanges loop.history loop.accepted) [] ∧ Incomplete []
    rw [fresh]
    exact ⟨⟨rfl, ⟨rfl, Nat.le_refl 0, rfl, fun left => absurd rfl left⟩, fun _ => rfl⟩,
      Or.inl (by decide)⟩
  · exact sound.inOrder other now before

theorem Sound.acceptClients (accepts : List AcceptResult) : ∀ {loop next : EventLoop β},
    Sound calls initial loop → loop.running = true → loop.acceptClients accepts = some next →
      Sound calls initial next := by
  induction accepts with
  | nil =>
      intro loop next sound _ accepted
      exact Option.some.inj accepted ▸ sound
  | cons call rest ih =>
      intro loop next sound running accepted
      cases call with
      | interrupted => exact ih sound running accepted
      | wouldBlock => exact Option.some.inj accepted ▸ sound
      | failed => exact Option.some.inj accepted ▸ sound
      | accepted fd configured registered =>
          simp only [EventLoop.acceptClients] at accepted
          split_ifs at accepted with used ready
          · exact ih (sound.enroll running used) running accepted
          · exact ih sound running accepted

theorem Sound.handleReady {event : ReadyEvent} {answers : KernelAnswers} {next : EventLoop β}
    (sound : Sound calls initial loop) (running : loop.running = true)
    (handled : ∀ entry ∈ loop.ready, entry.1.fd ≠ event.fd)
    (stepped : loop.handleReady calls event answers = some next) : Sound calls initial next := by
  simp only [EventLoop.handleReady] at stepped
  split at stepped
  · split at stepped
    · exact Sound.acceptClients answers.accepts sound running stepped
    · exact Option.some.inj stepped ▸ sound
  · cases found : loop.clients.find event.fd with
    | none =>
        simp only [found, Option.isNone_none, if_true, Option.some.injEq] at stepped
        exact stepped ▸ sound
    | some client =>
        simp only [found, Option.isNone_some, Bool.false_eq_true, if_false] at stepped
        have handling := sound.handling handled
        obtain ⟨read, inOrder⟩ : Handling calls initial event.fd
            (if event.readable = true then loop.readFromClient calls event.fd answers.recvs
              else loop) ∧ InOrder (if event.readable = true then
                loop.readFromClient calls event.fd answers.recvs else loop) event.fd := by
          split
          · exact handling.readFromClient answers.recvs (by simp [found]) (sound.inOrder event.fd)
          · exact ⟨handling, sound.inOrder event.fd⟩
        generalize (if event.readable = true then loop.readFromClient calls event.fd answers.recvs
          else loop) = after at read inOrder stepped
        split at stepped
        · exact Option.some.inj stepped ▸ handling.closeClient found
        · split at stepped
          · rename_i stays
            obtain ⟨now, stored⟩ := Option.isSome_iff_exists.mp stays.2
            exact Option.some.inj stepped ▸
              read.writeToClient stored inOrder answers.sends answers.registered
          · exact Option.some.inj stepped ▸ read.sound inOrder

/-! Runs. -/

theorem Sound.stop (sound : Sound calls initial loop) : Sound calls initial loop.stop := by
  refine ⟨⟨sound.distinct, by simp [EventLoop.stop], ?_, by simp [EventLoop.stop],
    by simp [EventLoop.stop], by simp [EventLoop.stop], by simp [EventLoop.stop], sound.noted,
    by simp [EventLoop.stop], by simp [EventLoop.stop]⟩, sound.serverFd, sound.epollFd,
    sound.replayed,
    by simp [EventLoop.stop, InOrder]⟩
  intro fd
  simp only [EventLoop.stop, Finset.mem_sdiff, Finset.mem_erase, sound.openFds, List.mem_toFinset,
    Table.mem_keys_iff, Table.find_empty]
  grind

theorem Sound.popped {entry : ReadyEvent × Option Nat} {rest : List (ReadyEvent × Option Nat)}
    (sound : Sound calls initial loop) (pending : loop.ready = entry :: rest) :
    loop.running = true ∧ Sound calls initial { loop with ready := rest } ∧
      ∀ other ∈ rest, other.1.fd ≠ entry.1.fd := by
  have running : loop.running = true := by
    by_contra stopped
    rw [(sound.stopped (Bool.not_eq_true _ ▸ stopped)).2] at pending
    cases pending
  have once := sound.once
  have reported := sound.reported
  rw [pending, List.map_cons, List.nodup_cons] at once
  refine ⟨running, ?_, ?_⟩
  · refine ⟨⟨sound.distinct, sound.apart, sound.openFds, sound.watched, ?_, sound.numbered,
      sound.unique, sound.noted, once.2, ?_⟩, sound.serverFd, sound.epollFd, sound.replayed,
      sound.inOrder⟩
    · intro stopped
      rw [running] at stopped
      cases stopped
    · exact fun other member => reported other (pending ▸ List.mem_cons_of_mem _ member)
  · intro other member same
    exact once.1 (same ▸ List.mem_map_of_mem member)

theorem sound_step (loop : EventLoop β) (event : LoopEvent) (next : EventLoop β)
    (sound : Sound calls initial loop) (stepped : loopStep calls loop event = some next) :
    Sound calls initial next := by
  cases event with
  | wait events =>
      simp only [loopStep] at stepped
      split at stepped
      · rename_i allowed
        rw [Option.some.injEq] at stepped
        subst stepped
        obtain ⟨running, _, _, once, watched⟩ := allowed
        refine ⟨⟨sound.distinct, sound.apart, sound.openFds, sound.watched, ?_, sound.numbered,
          sound.unique, sound.noted, ?_, ?_⟩, sound.serverFd, sound.epollFd, sound.replayed,
          sound.inOrder⟩
        · intro stopped
          rw [running] at stopped
          cases stopped
        · rw [List.map_map]
          exact once
        · intro entry member
          obtain ⟨event, reported, rfl⟩ := List.mem_map.mp member
          rcases (sound.watched event.fd).mp (watched event reported) with ⟨_, server⟩ | present
          · exact Or.inl server
          · obtain ⟨client, found⟩ := Option.isSome_iff_exists.mp present
            exact Or.inr ⟨client, found, by simp [found]⟩
      · simp at stepped
  | handle answers =>
      simp only [loopStep] at stepped
      split at stepped
      · simp at stepped
      · rename_i event connection rest pending
        obtain ⟨running, popped, handled⟩ := sound.popped pending
        exact popped.handleReady running handled stepped
  | waitFailed =>
      simp only [loopStep] at stepped
      split at stepped
      · exact Option.some.inj stepped ▸ sound.stop
      · simp at stepped

theorem listening_sound (broker : β) {serverFd epollFd : Nat} (distinct : serverFd ≠ epollFd) :
    Sound calls (listening broker serverFd epollFd) (listening broker serverFd epollFd) := by
  refine ⟨⟨distinct, by simp [listening], ?_, ?_, by simp [listening], by simp [listening],
    by simp [listening], by simp [listening], by simp [listening], by simp [listening]⟩, rfl, rfl,
    rfl, by simp [listening, InOrder]⟩
  · simp [listening]
  · simp [listening]

end Handling

end EventLoop

section Runs

variable {β : Type} {calls : BrokerCalls β} {broker : β} {serverFd epollFd : Nat}
  {events : List LoopEvent} {final : EventLoop β}

theorem loop_sound (distinct : serverFd ≠ epollFd) (reached : Transition.run (loopStep calls)
      (.listening broker serverFd epollFd) events = some final) :
    EventLoop.Sound calls (.listening broker serverFd epollFd) final :=
  Transition.run_invariant (EventLoop.Sound calls _) EventLoop.sound_step
    (EventLoop.listening_sound broker distinct) reached

/-- The process has open, and its epoll instance watches, what `clients_` lists beside the
server's own descriptors; after `start` has thrown it has none of them open. Every entry of
`events` that is still to be handled is for the connection it was reported for, so that no
entry is ever for an unknown or a reused descriptor. -/
theorem descriptors_accounted (distinct : serverFd ≠ epollFd)
    (reached : Transition.run (loopStep calls) (.listening broker serverFd epollFd) events =
      some final) :
    (∀ fd, fd ∈ final.openFds ↔
        final.running = true ∧ (fd = serverFd ∨ fd = epollFd) ∨
          (final.clients.find fd).isSome = true) ∧
      (∀ fd, fd ∈ final.watched ↔
        final.running = true ∧ fd = serverFd ∨ (final.clients.find fd).isSome = true) ∧
      (final.running = false → final.openFds = ∅) ∧
      ∀ entry ∈ final.ready, entry.1.fd = serverFd ∨ ∃ client,
        final.clients.find entry.1.fd = some client ∧ entry.2 = some client.connection := by
  have sound := loop_sound distinct reached
  have server : final.serverFd = serverFd := sound.serverFd
  have epoll : final.epollFd = epollFd := sound.epollFd
  have openFds := sound.openFds
  have watched := sound.watched
  have reported := sound.reported
  rw [server] at watched reported
  rw [server, epoll] at openFds
  refine ⟨openFds, watched, fun stopped => ?_, reported⟩
  ext fd
  simp [openFds, stopped, (sound.stopped stopped).1 fd]

/-- Every connection is served as if it were alone: what it sent is the frames of its
requests and an incomplete one, what was sent to it and waits for it is the frames of the
responses in the same order, and the broker gave these going through the operations of all
connections one after another. -/
theorem connections_served_in_order (distinct : serverFd ≠ epollFd)
    (reached : Transition.run (loopStep calls) (.listening broker serverFd epollFd) events =
      some final) :
    Transition.run calls.perform broker final.history = some final.broker ∧
      ∀ fd client, final.clients.find fd = some client →
        client.received = frameBytes ((exchanges final.history client.connection).map Prod.fst) ++
            client.readBuffer ∧
          Incomplete client.readBuffer ∧
          client.outgoing.sent ++ client.outgoing.writeBuffer.drop client.outgoing.writeOffset =
            frameBytes ((exchanges final.history client.connection).map Prod.snd) ∧
          (client.outgoing.writeInterest = true ↔
            client.outgoing.writeBuffer.drop client.outgoing.writeOffset ≠ []) := by
  have sound := loop_sound distinct reached
  refine ⟨sound.replayed, fun fd client found => ?_⟩
  obtain ⟨⟨received, flowing⟩, incomplete⟩ := sound.inOrder fd client found
  refine ⟨received, incomplete, ?_, ?_, flowing.armed⟩
  · rw [frameBytes, List.flatMap_map, List.flatMap_def]
    exact flowing.queued
  · intro interest nothing
    rw [flowing.disarmed nothing] at interest
    cases interest

end Runs

/-- Two clients whose events come in one batch: the first one is closed, the listener hands
its descriptor to a third, and then the second is served. -/
def crossedEvents : List LoopEvent :=
  [.wait [{ fd := 3, readable := true }],
    .handle { accepts := [.accepted 7 true true, .accepted 8 true true] },
    .wait [{ fd := 7, hangup := true }, { fd := 3, readable := true },
      { fd := 8, readable := true, writable := true }],
    .handle {},
    .handle { accepts := [.accepted 7 true true] },
    .handle {
      recvs := [.received (frameBytes [ascii "PING"]) [true], .received [0, 0] []]
      sends := [.accepted 5, .wouldBlock] }]

theorem crossedEvents_run : (Transition.run (loopStep standaloneCalls)
    (.listening emptyBroker 3 4) crossedEvents).isSome = true := by
  decide +kernel

theorem descriptors_accounted_crossed : ∃ final, Transition.run (loopStep standaloneCalls)
      (.listening emptyBroker 3 4) crossedEvents = some final ∧
    ∀ fd, fd ∈ final.watched ↔
      final.running = true ∧ fd = 3 ∨ (final.clients.find fd).isSome = true := by
  obtain ⟨final, reached⟩ := Option.isSome_iff_exists.mp crossedEvents_run
  exact ⟨final, reached, (descriptors_accounted (by decide) reached).2.1⟩

theorem connections_served_crossed : ∃ final client, Transition.run (loopStep standaloneCalls)
      (.listening emptyBroker 3 4) crossedEvents = some final ∧
    final.clients.find 8 = some client ∧
    client.received = frameBytes [ascii "PING"] ++ [0, 0] ∧
    client.received = frameBytes ((exchanges final.history client.connection).map Prod.fst) ++
        client.readBuffer ∧
    client.outgoing.sent ++ client.outgoing.writeBuffer.drop client.outgoing.writeOffset =
      frameBytes ((exchanges final.history client.connection).map Prod.snd) ∧
    client.outgoing.sent = [0, 0, 0, 4, 80] := by
  have evaluated : ((Transition.run (loopStep standaloneCalls) (.listening emptyBroker 3 4)
      crossedEvents).bind fun final => (final.clients.find 8).map fun client =>
        (client.received, client.outgoing.sent)) =
      some (frameBytes [ascii "PING"] ++ [0, 0], [0, 0, 0, 4, 80]) := by
    decide +kernel
  obtain ⟨final, reached, evaluated⟩ := Option.bind_eq_some_iff.mp evaluated
  obtain ⟨client, found, facts⟩ := Option.map_eq_some_iff.mp evaluated
  obtain ⟨received, sent⟩ := Prod.mk.inj facts
  obtain ⟨requests, _, responses, _⟩ :=
    (connections_served_in_order (by decide) reached).2 8 client found
  exact ⟨final, client, reached, found, received, requests, responses, sent⟩

end KafkaBroker
