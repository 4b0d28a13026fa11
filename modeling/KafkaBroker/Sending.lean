import KafkaBroker.Delivery
import KafkaBroker.SendingCore

/-!
The write path of `EpollServer` sends every queued byte once and in order, and asks for
write readiness exactly while some are left.
-/

namespace KafkaBroker

open ByteText

/-- An open client inside `write_to_client`: the queued frames are sent, or wait behind
`write_offset` with write readiness asked for. -/
structure Draining (frames : List Bytes) (client : Outgoing) : Prop where
  isOpen : client.closed = false
  offset : client.writeOffset ≤ client.writeBuffer.length
  queued : client.sent ++ client.unsent = frames.flatten
  armed : client.unsent ≠ [] → client.writeInterest = true

/-- An open client between two calls. -/
structure Flowing (frames : List Bytes) (client : Outgoing) : Prop extends
    Draining frames client where
  disarmed : client.unsent = [] → client.writeInterest = false

theorem queuedFrames_append (first second : List OutgoingCall) :
    queuedFrames (first ++ second) = queuedFrames first ++ queuedFrames second := by
  exact List.filterMap_append

section Calls

variable {frames : List Bytes} {client : Outgoing}

theorem queueResponse_flowing (draining : Draining frames client) (response : Bytes) :
    Flowing (frames ++ [bigEndian response.length ++ response])
      (client.queueResponse response true).2 := by
  have after : (client.queueResponse response true).2 = { client with
      writeBuffer := client.writeBuffer ++ (bigEndian response.length ++ response)
      writeInterest := true } := by
    simp [Outgoing.queueResponse, draining.isOpen]
  have unsent : (client.queueResponse response true).2.unsent =
      client.unsent ++ (bigEndian response.length ++ response) := by
    rw [after]
    exact List.drop_append_of_le_length draining.offset
  refine ⟨⟨?_, ?_, ?_, ?_⟩, ?_⟩
  · rw [after]
    exact draining.isOpen
  · have offset := draining.offset
    rw [after]
    simp only [List.length_append]
    omega
  · rw [unsent, ← List.append_assoc, after]
    simp only [draining.queued, List.flatten_append, List.flatten_singleton]
  · rw [after]
    exact fun _ => rfl
  · rw [unsent]
    simp [bigEndian]

theorem send_draining (draining : Draining frames client) {bytesSent : Nat}
    (bound : bytesSent ≤ client.unsent.length) :
    Draining frames { client with
      sent := client.sent ++ client.unsent.take bytesSent
      writeOffset := client.writeOffset + bytesSent } := by
  have offset := draining.offset
  simp only [Outgoing.unsent, List.length_drop] at bound
  refine ⟨draining.isOpen, ?_, ?_, ?_⟩
  · change client.writeOffset + bytesSent ≤ client.writeBuffer.length
    omega
  · change (client.sent ++ client.unsent.take bytesSent) ++
      client.writeBuffer.drop (client.writeOffset + bytesSent) = frames.flatten
    rw [← draining.queued]
    exact sent_append_unsent client.sent client.writeBuffer client.writeOffset bytesSent
  · change client.writeBuffer.drop (client.writeOffset + bytesSent) ≠ [] →
      client.writeInterest = true
    rw [← List.drop_drop]
    intro left
    apply draining.armed
    rintro none
    rw [Outgoing.unsent] at none
    simp [none] at left

theorem pending_flowing (draining : Draining frames client)
    (pending : client.writeOffset < client.writeBuffer.length) : Flowing frames client := by
  refine ⟨draining, fun none => ?_⟩
  simp only [Outgoing.unsent, List.drop_eq_nil_iff] at none
  omega

theorem cleared_flowing (draining : Draining frames client)
    (flushed : ¬client.writeOffset < client.writeBuffer.length) :
    Flowing frames { client with
      writeBuffer := []
      writeOffset := 0
      writeInterest := false } := by
  have none : client.unsent = [] := by
    rw [Outgoing.unsent, List.drop_eq_nil_iff]
    omega
  have all := draining.queued
  rw [none, List.append_nil] at all
  exact ⟨⟨draining.isOpen, Nat.le_refl 0, by simp [Outgoing.unsent, all], by simp [Outgoing.unsent]⟩,
    fun _ => rfl⟩

theorem writePending_flowing {registered : Bool} {sends : List SendCall}
    (draining : Draining frames client)
    (stays : (client.writePending registered sends).closed = false) :
    Flowing frames (client.writePending registered sends) := by
  fun_induction Outgoing.writePending registered client sends with
  | case1 client pending => exact pending_flowing draining pending
  | case2 client pending => exact pending_flowing draining pending
  | case3 client pending rest ih => exact ih draining stays
  | case4 client pending => simp at stays
  | case5 client pending count rest bytesSent nothing => simp at stays
  | case6 client pending count rest bytesSent something ih =>
      exact ih (send_draining draining (Nat.min_le_right count _)) stays
  | case7 client sends flushed cleared registers =>
      have after := cleared_flowing draining flushed
      exact after
  | case8 client sends flushed cleared refused => simp at stays

theorem outgoingStep_flowing {call : OutgoingCall} {next : Outgoing}
    (flowing : Flowing frames client) (stepped : outgoingStep client call = some next)
    (stays : next.closed = false) : Flowing (frames ++ queuedFrames [call]) next := by
  cases call with
  | queueResponse response registered =>
      cases registered with
      | true =>
          have queued := queueResponse_flowing flowing.toDraining response
          have returned : (client.queueResponse response true).1 = true := by
            simp [Outgoing.queueResponse, flowing.isOpen]
          simp only [outgoingStep, returned, if_true, Option.some.injEq] at stepped
          rw [stepped] at queued
          exact queued
      | false =>
          simp only [outgoingStep, Outgoing.queueResponse, flowing.isOpen, Bool.false_eq_true,
            if_false, Option.some.injEq] at stepped
          rw [← stepped] at stays
          simp at stays
  | writeToClient sends registered =>
      simp only [outgoingStep, Outgoing.writeToClient, flowing.isOpen, Bool.false_eq_true, if_false,
        Option.some.injEq] at stepped
      rw [← stepped] at stays ⊢
      simpa [queuedFrames] using writePending_flowing flowing.toDraining stays

theorem outgoingStep_closed {call : OutgoingCall} {next : Outgoing} (closed : client.closed = true)
    (stepped : outgoingStep client call = some next) : next.closed = true := by
  cases call with
  | queueResponse response registered =>
      simp only [outgoingStep, Outgoing.queueResponse, closed, if_true, Bool.false_eq_true,
        if_false, Option.some.injEq] at stepped
      rw [← stepped]
  | writeToClient sends registered =>
      simp only [outgoingStep, Outgoing.writeToClient, closed, if_true,
        Option.some.injEq] at stepped
      rw [← stepped, closed]

end Calls

theorem run_flowing {frames : List Bytes} {client final : Outgoing} {calls : List OutgoingCall}
    (flowing : Flowing frames client) (reached : Transition.run outgoingStep client calls = some final)
    (stays : final.closed = false) : Flowing (frames ++ queuedFrames calls) final := by
  induction calls generalizing frames client with
  | nil =>
      simp only [Transition.run_nil, Option.some.injEq] at reached
      simpa [queuedFrames, ← reached] using flowing
  | cons call rest ih =>
      obtain ⟨next, stepped, remaining⟩ := Transition.run_cons_eq_some reached
      -- a client that is closed once would be closed at the end
      have isOpen : next.closed = false := by
        by_contra closed
        have final := Transition.run_invariant (fun client => client.closed = true)
          (fun _ _ _ => outgoingStep_closed) (Bool.not_eq_false _ ▸ closed) remaining
        rw [stays] at final
        cases final
      have after := ih (outgoingStep_flowing flowing stepped isOpen) remaining
      rw [← List.singleton_append, queuedFrames_append, ← List.append_assoc]
      exact after

/-- After every sequence of the two calls, whatever each `send` and `epoll_ctl` returns, an
open client has been sent its responses up to `write_offset`, each byte once. -/
theorem responses_sent_once {calls : List OutgoingCall} {final : Outgoing}
    (reached : Transition.run outgoingStep {} calls = some final) (isOpen : final.closed = false) :
    final.sent ++ final.writeBuffer.drop final.writeOffset = (queuedFrames calls).flatten ∧
      final.writeOffset ≤ final.writeBuffer.length ∧
      (final.writeInterest = true ↔ final.writeBuffer.drop final.writeOffset ≠ []) := by
  have fresh : Flowing [] ({} : Outgoing) :=
    ⟨⟨rfl, Nat.le_refl 0, rfl, fun left => absurd rfl left⟩, fun _ => rfl⟩
  have flowing := run_flowing fresh reached isOpen
  refine ⟨flowing.queued, flowing.offset, fun interest none => ?_, flowing.armed⟩
  rw [flowing.disarmed none] at interest
  cases interest

theorem responses_sent_once_partly :
    let calls : List OutgoingCall := [.queueResponse (ascii "OK") true,
      .writeToClient [.interrupted, .accepted 3, .wouldBlock] true,
      .queueResponse (ascii "PONG") true, .writeToClient [.accepted 4] true]
    ∃ final : Outgoing, Transition.run outgoingStep {} calls = some final ∧
      final.sent = [0, 0, 0, 2, 79, 75, 0] ∧ final.writeInterest = true ∧
      final.sent ++ final.writeBuffer.drop final.writeOffset = (queuedFrames calls).flatten := by
  refine ⟨_, rfl, by decide, by decide, ?_⟩
  exact (responses_sent_once rfl (by decide)).1

/-! The write side of a connection makes these calls. -/

/-- A connection, with the calls that were made for it. -/
structure Sends {β : Type} (client : Outgoing) (connection : EpollConnection β) : Prop where
  writeBuffer : client.writeBuffer = connection.writeBuffer
  writeOffset : client.writeOffset = connection.writeOffset
  sent : client.sent = connection.sent
  closed : client.closed = connection.closed

section Connection

variable {β : Type} (calls : BrokerCalls β)

theorem extract_responses (client : ClientState β) :
    ∃ responses : List Bytes,
      (EpollServer.extractCompleteFrames calls client).2.session.frames =
        client.session.frames ++
          responses.map fun response => bigEndian response.length ++ response := by
  fun_induction EpollServer.extractCompleteFrames calls client with
  | case1 client short => exact ⟨[], by simp⟩
  | case2 client header payloadLength oversized => exact ⟨[], by simp⟩
  | case3 client header payloadLength allowed frameSize short => exact ⟨[], by simp⟩
  | case4 client header payloadLength allowed frameSize complete payload served goesOn ih =>
      obtain ⟨responses, added⟩ := ih
      simp only [served, serve_eq] at added goesOn ⊢
      rcases serve_frames calls client.session payload with ⟨_, response, grown⟩ | ⟨stops, _⟩
      · refine ⟨response :: responses, ?_⟩
        rw [added, grown, List.map_cons, List.append_assoc, List.singleton_append]
      · rw [stops] at goesOn
        cases goesOn
  | case5 client header payloadLength allowed frameSize complete payload served stops =>
      simp only [served, serve_eq] at stops ⊢
      rcases serve_frames calls client.session payload with ⟨serves, _⟩ | ⟨_, same⟩
      · exact absurd serves stops
      · exact ⟨[], by simp [same]⟩

theorem queueResponses_run (responses : List Bytes) (client : Outgoing)
    (isOpen : client.closed = false) :
    Transition.run outgoingStep client (responses.map fun response =>
        .queueResponse response true) =
      some { client with
        writeBuffer := client.writeBuffer ++
          (responses.map fun response => bigEndian response.length ++ response).flatten
        writeInterest := client.writeInterest || !responses.isEmpty } := by
  induction responses generalizing client with
  | nil => simp
  | cons response rest ih =>
      rw [List.map_cons, Transition.run_cons]
      simp only [outgoingStep, Outgoing.queueResponse, isOpen, Bool.false_eq_true, if_false, if_true,
        Option.bind_some]
      rw [ih _ rfl]
      simp [List.append_assoc]

theorem queuedFrames_map (responses : List Bytes) :
    queuedFrames (responses.map fun response => .queueResponse response true) =
      responses.map fun response => bigEndian response.length ++ response := by
  induction responses with
  | nil => rfl
  | cons response rest ih =>
      simp only [queuedFrames] at ih ⊢
      rw [List.map_cons, List.filterMap_cons, ih, List.map_cons]

theorem receive_sends {client : Outgoing} {connection : EpollConnection β}
    (sends : Sends client connection) (isOpen : connection.closed = false) (count : Nat) :
    ∃ made next, Transition.run outgoingStep client made = some next ∧
      Sends next (connection.receive calls count).2 ∧
      (connection.receive calls count).2.client.session.frames =
        connection.client.session.frames ++ queuedFrames made := by
  obtain ⟨responses, added⟩ := extract_responses calls { connection.client with
    readBuffer := connection.client.readBuffer ++ connection.incoming.take count }
  refine ⟨_, _, queueResponses_run responses client (sends.closed.trans isOpen), ?_, ?_⟩
  · refine ⟨?_, sends.writeOffset, sends.sent, sends.closed⟩
    simp only [EpollConnection.receive, added, List.drop_left, sends.writeBuffer]
  · rw [queuedFrames_map]
    exact added

theorem readFromClient_sends (ending : Ending) (recvs : List RecvCall) {client : Outgoing}
    {connection : EpollConnection β} (sends : Sends client connection)
    (isOpen : connection.closed = false)
    (stays : (connection.readFromClient calls ending recvs).closed = false) :
    ∃ made next, Transition.run outgoingStep client made = some next ∧
      Sends next (connection.readFromClient calls ending recvs) ∧
      (connection.readFromClient calls ending recvs).client.session.frames =
        connection.client.session.frames ++ queuedFrames made := by
  have unchanged : connection.client.session.frames =
      connection.client.session.frames ++ queuedFrames [] := (List.append_nil _).symm
  induction recvs generalizing client connection with
  | nil => exact ⟨[], client, rfl, sends, unchanged⟩
  | cons call rest ih =>
      cases call with
      | wouldBlock => exact ⟨[], client, rfl, sends, unchanged⟩
      | interrupted => exact ih sends isOpen stays unchanged
      | failed => simp [EpollConnection.readFromClient, EpollConnection.closeClient] at stays
      | received more =>
          simp only [EpollConnection.readFromClient] at stays ⊢
          by_cases drained : connection.incoming = []
          · rw [if_pos drained] at stays ⊢
            cases ending with
            | shutdown => simp [EpollConnection.closeClient] at stays
            | silent => exact ⟨[], client, rfl, sends, unchanged⟩
          · rw [if_neg drained] at stays ⊢
            by_cases goesOn : (connection.receive calls (min (more + 1) kReadBufferSize)).1 = true
            · rw [if_pos goesOn] at stays ⊢
              obtain ⟨first, middle, queued, between, added⟩ := receive_sends calls sends isOpen
                (min (more + 1) kReadBufferSize)
              obtain ⟨second, next, reached, after, grown⟩ := ih between isOpen stays
                (List.append_nil _).symm
              refine ⟨first ++ second, next, ?_, after, ?_⟩
              · rw [Transition.run_append queued, reached]
              · rw [grown, added, List.append_assoc, queuedFrames_append]
            · rw [if_neg goesOn] at stays
              simp [EpollConnection.closeClient] at stays

theorem Sends.unsent {client : Outgoing} {connection : EpollConnection β}
    (agrees : Sends client connection) : client.unsent = connection.unsent := by
  rw [Outgoing.unsent, EpollConnection.unsent, agrees.writeBuffer, agrees.writeOffset]

theorem writeToClient_sends {client : Outgoing} {connection : EpollConnection β}
    (agrees : Sends client connection) (sends : List SendCall)
    (stays : (connection.writeToClient calls sends).closed = false) :
    Sends (client.writePending true sends) (connection.writeToClient calls sends) ∧
      (connection.writeToClient calls sends).client.session.frames =
        connection.client.session.frames := by
  fun_induction EpollConnection.writeToClient calls connection sends generalizing client with
  | case1 connection pending =>
      rw [Outgoing.writePending, agrees.writeBuffer, agrees.writeOffset, if_pos pending]
      exact ⟨agrees, rfl⟩
  | case2 connection pending rest =>
      rw [Outgoing.writePending, agrees.writeBuffer, agrees.writeOffset, if_pos pending]
      exact ⟨agrees, rfl⟩
  | case3 connection pending rest ih =>
      rw [Outgoing.writePending, agrees.writeBuffer, agrees.writeOffset, if_pos pending]
      exact ih agrees stays
  | case4 connection pending => simp [EpollConnection.closeClient] at stays
  | case5 connection pending count rest nothing =>
      simp [EpollConnection.closeClient] at stays
  | case6 connection pending count rest bytesSent something =>
      rename_i ih
      rw [Outgoing.writePending, agrees.writeBuffer, agrees.writeOffset, if_pos pending]
      dsimp only
      rw [agrees.unsent, if_neg something]
      exact ih ⟨rfl, rfl, by rw [agrees.sent], agrees.closed⟩ stays
  | case7 connection sends flushed =>
      rw [Outgoing.writePending.eq_def]
      dsimp only
      rw [agrees.writeBuffer, agrees.writeOffset, if_neg flushed]
      exact ⟨⟨rfl, rfl, agrees.sent, agrees.closed⟩, rfl⟩

/-- While a connection is open, its write side has made calls of the two functions, and every
response of the session is queued by one of them. -/
theorem handleEvent_sends (ending : Ending) (event : EpollEvent) {client : Outgoing}
    {connection : EpollConnection β} (agrees : Sends client connection)
    (isOpen : connection.closed = false)
    (stays : (connection.handleEvent calls ending event).closed = false) :
    ∃ made next, Transition.run outgoingStep client made = some next ∧
      Sends next (connection.handleEvent calls ending event) ∧
      (connection.handleEvent calls ending event).client.session.frames =
        connection.client.session.frames ++ queuedFrames made := by
  simp only [EpollConnection.handleEvent, isOpen, Bool.false_eq_true, if_false] at stays ⊢
  by_cases hangup : event.hangup = true
  · simp [hangup, EpollConnection.closeClient] at stays
  · rw [if_neg hangup] at stays ⊢
    have reading : let read := event.readable.elim connection (connection.readFromClient calls ending)
        read.closed = false →
        ∃ made next, Transition.run outgoingStep client made = some next ∧ Sends next read ∧
          read.client.session.frames = connection.client.session.frames ++ queuedFrames made := by
      cases event.readable with
      | none => exact fun _ => ⟨[], client, rfl, agrees, (List.append_nil _).symm⟩
      | some recvs => exact readFromClient_sends calls ending recvs agrees isOpen
    generalize event.readable.elim connection (connection.readFromClient calls ending) = read
      at stays reading ⊢
    cases written : event.writable with
    | none =>
        rw [written] at stays
        exact reading stays
    | some sends =>
        rw [written] at stays
        dsimp only at stays ⊢
        by_cases closed : read.closed = true
        · rw [if_pos closed, closed] at stays
          cases stays
        · rw [if_neg closed] at stays ⊢
          obtain ⟨made, next, reached, between, grown⟩ := reading (Bool.not_eq_true _ ▸ closed)
          obtain ⟨after, same⟩ := writeToClient_sends calls between sends stays
          refine ⟨made ++ [.writeToClient sends true], next.writePending true sends, ?_, after, ?_⟩
          · rw [Transition.run_append reached]
            simp [Transition.run_cons, outgoingStep, Outgoing.writeToClient, between.closed, closed]
          · rw [same, grown, queuedFrames_append]
            simp [queuedFrames]

theorem run_sends (ending : Ending) {session : Session β} (fresh : session.frames = [])
    (stream : Bytes) {events : List EpollEvent} {connection : EpollConnection β}
    (reached : (EpollConnection.accepted session stream).run calls ending events = some connection)
    (stays : connection.closed = false) :
    ∃ made client, Transition.run outgoingStep {} made = some client ∧ Sends client connection ∧
      connection.client.session.frames = queuedFrames made := by
  refine run_open calls
    (fun connection => ∃ made client, Transition.run outgoingStep {} made = some client ∧
      Sends client connection ∧ connection.client.session.frames = queuedFrames made)
    ⟨[], {}, rfl, ⟨rfl, rfl, rfl, rfl⟩, fresh⟩ ?_ reached stays
  rintro state event isOpen ⟨before, client, ran, agrees, frames⟩ nextOpen
  obtain ⟨made, after, goesOn, agreesAfter, grown⟩ := handleEvent_sends calls ending event agrees
    isOpen nextOpen
  refine ⟨before ++ made, after, ?_, agreesAfter, ?_⟩
  · rw [Transition.run_append ran, goesOn]
  · rw [grown, frames, queuedFrames_append]

end Connection

end KafkaBroker
