import KafkaBroker.DeliveryCore
import KafkaBroker.Servers

/-!
When the response bytes of a connection reach its client. `TcpServer` sends every response
before it reads on; `EpollServer` closes from inside its read loop, and what waits in
`write_buffer` then is lost.
-/

namespace KafkaBroker

open ByteText

variable {β : Type} (calls : BrokerCalls β)

/-! The frames of a session only grow. -/

theorem serve_frames (session : Session β) (payload : Bytes) :
    (TcpServer.serve calls session payload).1 = true ∧
        (∃ response : Bytes, (TcpServer.serve calls session payload).2.frames =
          session.frames ++ [bigEndian response.length ++ response]) ∨
      (TcpServer.serve calls session payload).1 = false ∧
        (TcpServer.serve calls session payload).2.frames = session.frames := by
  simp only [TcpServer.serve]
  cases (calls.handleRequest session.broker (parseRequest payload)).2 with
  | none => exact Or.inr ⟨rfl, rfl⟩
  | some response =>
      simp only [writeFrame]
      by_cases oversized : response.length > kMaxPayloadSize
      · rw [if_pos oversized]
        exact Or.inr ⟨rfl, rfl⟩
      · rw [if_neg oversized]
        exact Or.inl ⟨rfl, response, rfl⟩

theorem serve_frames_grow (session : Session β) (payload : Bytes) :
    session.frames <+: (TcpServer.serve calls session payload).2.frames := by
  rcases serve_frames calls session payload with ⟨_, response, grown⟩ | ⟨_, same⟩
  · rw [grown]
    exact List.prefix_append _ _
  · rw [same]

theorem extract_frames_grow (client : ClientState β) :
    client.session.frames <+:
      (EpollServer.extractCompleteFrames calls client).2.session.frames := by
  fun_induction EpollServer.extractCompleteFrames calls client with
  | case1 client short => exact List.prefix_rfl
  | case2 client header payloadLength oversized => exact List.prefix_rfl
  | case3 client header payloadLength allowed frameSize short => exact List.prefix_rfl
  | case4 client header payloadLength allowed frameSize complete payload served goesOn ih =>
      refine List.IsPrefix.trans ?_ ih
      simp only [served, serve_eq]
      exact serve_frames_grow calls client.session payload
  | case5 client header payloadLength allowed frameSize complete payload served stops =>
      simp only [served, serve_eq]
      exact serve_frames_grow calls client.session payload

/-! The responses to a list of requests. -/

theorem answeredSession_cons (session : Session β) (payload : Bytes) (rest : List Bytes) :
    (answeredSession calls session (payload :: rest)).frames =
      if (TcpServer.serve calls session payload).1 = true then
        (answeredSession calls (TcpServer.serve calls session payload).2 rest).frames
      else session.frames := by
  simp only [answeredSession, answeredRequests]
  split
  · rfl
  · rfl

theorem answeredSession_grows (payloads : List Bytes) (session : Session β) :
    session.frames <+: (answeredSession calls session payloads).frames := by
  induction payloads generalizing session with
  | nil => exact List.prefix_rfl
  | cons payload rest ih =>
      rw [answeredSession_cons]
      split
      · exact (serve_frames_grow calls session payload).trans (ih _)
      · exact List.prefix_rfl

theorem answeredSession_filled (payloads : List Bytes) (session : Session β)
    (filled : ∀ frame ∈ session.frames, frame ≠ []) :
    ∀ frame ∈ (answeredSession calls session payloads).frames, frame ≠ [] := by
  induction payloads generalizing session with
  | nil => exact filled
  | cons payload rest ih =>
      rw [answeredSession_cons]
      rcases serve_frames calls session payload with ⟨serves, response, grown⟩ | ⟨stops, _⟩
      · rw [if_pos serves]
        apply ih
        intro frame member
        rw [grown, List.mem_append, List.mem_singleton] at member
        rcases member with earlier | rfl
        · exact filled frame earlier
        · simp [bigEndian]
      · rw [if_neg (by simp [stops])]
        exact filled

/-! What the read loop makes of a stream of requests. -/

theorem extract_finish {ending : Ending} {tail : Bytes} (finishes : Finishes ending tail)
    (session : Session β) :
    (EpollServer.extractCompleteFrames calls ⟨session, tail⟩).2.session = session ∧
      ((EpollServer.extractCompleteFrames calls ⟨session, tail⟩).1 = true → ending = .shutdown) := by
  rcases finishes with ⟨rfl, rfl⟩ | ⟨header, oversized⟩
  · rw [extract_incomplete calls (Or.inl (by simp [kFrameHeaderSize]))]
    exact ⟨rfl, fun _ => rfl⟩
  · rw [EpollServer.extractCompleteFrames]
    simp only [not_lt.mpr header, if_false, oversized, if_true]
    exact ⟨trivial, by simp⟩

theorem extract_stream {ending : Ending} {tail : Bytes} (finishes : Finishes ending tail)
    {payloads : List Bytes} (valid : ∀ payload ∈ payloads, payload.length ≤ kMaxPayloadSize)
    (session : Session β) :
    (EpollServer.extractCompleteFrames calls
        ⟨session, frameBytes payloads ++ tail⟩).2.session.frames =
        (answeredSession calls session payloads).frames ∧
      ((EpollServer.extractCompleteFrames calls ⟨session, frameBytes payloads ++ tail⟩).1 = true →
        ending = .shutdown) := by
  induction payloads generalizing session with
  | nil =>
      obtain ⟨unchanged, stays⟩ := extract_finish calls finishes session
      exact ⟨congrArg Session.frames unchanged, stays⟩
  | cons payload rest ih =>
      have front : frameBytes (payload :: rest) ++ tail =
          bigEndian payload.length ++ payload ++ (frameBytes rest ++ tail) := by
        rw [frameBytes_cons, List.append_assoc]
      rw [extract_frame calls session (valid payload (by simp)) front, serve_eq,
        answeredSession_cons]
      rcases serve_frames calls session payload with ⟨serves, _⟩ | ⟨stops, same⟩
      · rw [if_pos serves, if_pos serves]
        exact ih (fun other member => valid other (by simp [member])) _
      · rw [if_neg (by simp [stops]), if_neg (by simp [stops])]
        exact ⟨same, by simp⟩

theorem incomplete_of_append_eq {payload consumed more rest : Bytes}
    (allowed : payload.length ≤ kMaxPayloadSize)
    (whole : consumed ++ more = bigEndian payload.length ++ payload ++ rest)
    (short : consumed.length < kFrameHeaderSize + payload.length) : Incomplete consumed := by
  by_cases header : consumed.length < kFrameHeaderSize
  · exact Or.inl header
  · have bound : payload.length < 2 ^ 32 := by
      simp only [kMaxPayloadSize] at allowed
      omega
    have front : consumed.take kFrameHeaderSize = bigEndian payload.length := by
      rw [← List.take_append_of_le_length (not_lt.mp header), whole, List.append_assoc]
      exact List.take_left' rfl
    refine Or.inr ?_
    rw [front, fromBigEndian_bigEndian_of_lt bound]
    exact ⟨allowed, short⟩

theorem extract_open_grows (session : Session β) {consumed : Bytes}
    (stays : (EpollServer.extractCompleteFrames calls ⟨session, consumed⟩).1 = true)
    (more : Bytes) :
    (EpollServer.extractCompleteFrames calls ⟨session, consumed⟩).2.session.frames <+:
      (EpollServer.extractCompleteFrames calls ⟨session, consumed ++ more⟩).2.session.frames := by
  rw [(extract_append calls more ⟨session, consumed⟩).1 stays]
  exact extract_frames_grow calls ⟨_, _ ++ more⟩

theorem extract_complete_iff {ending : Ending} {tail : Bytes} (finishes : Finishes ending tail)
    {payloads : List Bytes} (valid : ∀ payload ∈ payloads, payload.length ≤ kMaxPayloadSize)
    (session : Session β) {consumed more : Bytes}
    (whole : consumed ++ more = frameBytes payloads ++ tail)
    (stays : (EpollServer.extractCompleteFrames calls ⟨session, consumed⟩).1 = true) :
    (EpollServer.extractCompleteFrames calls ⟨session, consumed⟩).2.session.frames =
        (answeredSession calls session payloads).frames ↔
      (frameBytes (answeredRequests calls session payloads)).length ≤ consumed.length := by
  induction payloads generalizing session consumed with
  | nil =>
      refine ⟨fun _ => Nat.zero_le _, fun _ => ?_⟩
      -- between the frames there were and those after the whole tail, which are the same
      have upper := extract_open_grows calls session stays more
      have lower := extract_frames_grow calls ⟨session, consumed⟩
      rw [whole, frameBytes, List.flatMap_nil, List.nil_append,
        (extract_finish calls finishes session).1] at upper
      exact upper.eq_of_length_le lower.length_le
  | cons payload rest ih =>
      rw [frameBytes_cons, List.append_assoc] at whole
      have allowed := valid payload (by simp)
      rw [answeredSession_cons, answeredRequests]
      by_cases short : consumed.length < kFrameHeaderSize + payload.length
      · rw [extract_incomplete calls (incomplete_of_append_eq allowed whole short)]
        rcases serve_frames calls session payload with ⟨serves, response, grown⟩ | ⟨stops, _⟩
        · have longer := (answeredSession_grows calls rest
            (TcpServer.serve calls session payload).2).length_le
          rw [grown, List.length_append, List.length_singleton] at longer
          rw [if_pos serves, if_pos serves, frameBytes_cons, List.length_append,
            List.length_append, bigEndian_length]
          simp only [kFrameHeaderSize] at short
          refine ⟨fun same => ?_, fun received => by omega⟩
          have sameLength := congrArg List.length same
          dsimp only at sameLength
          omega
        · rw [if_neg (by simp [stops]), if_neg (by simp [stops])]
          exact ⟨fun _ => Nat.zero_le _, fun _ => rfl⟩
      · obtain ⟨after, consumedEq, wholeAfter⟩ : ∃ after,
            consumed = bigEndian payload.length ++ payload ++ after ∧
              after ++ more = frameBytes rest ++ tail := by
          have frameSize : (bigEndian payload.length ++ payload).length ≤ consumed.length := by
            rw [List.length_append, bigEndian_length]
            exact not_lt.mp short
          obtain ⟨after, rfl⟩ := List.prefix_of_prefix_length_le ⟨_, rfl⟩ ⟨more, whole⟩ frameSize
          rw [List.append_assoc] at whole
          exact ⟨after, rfl, List.append_cancel_left whole⟩
        rw [extract_frame calls session allowed consumedEq, serve_eq] at stays ⊢
        rcases serve_frames calls session payload with ⟨serves, _⟩ | ⟨stops, _⟩
        · simp only [serves, if_true] at stays ⊢
          rw [ih (fun other member => valid other (by simp [member])) _ wholeAfter stays,
            consumedEq, frameBytes_cons]
          simp only [List.length_append]
          omega
        · simp [stops] at stays

/-! The invariant of an open connection. -/

/-- What has been received of the stream is extracted, and every response is sent or
waits in `write_buffer`. -/
structure Delivering (session : Session β) (stream : Bytes) (connection : EpollConnection β) :
    Prop where
  extracted : ∃ consumed, consumed ++ connection.incoming = stream ∧
    EpollServer.extractCompleteFrames calls ⟨session, consumed⟩ = (true, connection.client)
  offset : connection.writeOffset ≤ connection.writeBuffer.length
  queued : connection.sent ++ connection.unsent = connection.client.session.frames.flatten

theorem accepted_delivering {session : Session β} (fresh : session.frames = []) (stream : Bytes) :
    Delivering calls session stream (EpollConnection.accepted session stream) := by
  refine ⟨⟨[], rfl, ?_⟩, Nat.le_refl _, ?_⟩
  · exact extract_incomplete calls (Or.inl (by simp [kFrameHeaderSize]))
  · simp [EpollConnection.accepted, EpollConnection.unsent, fresh]

theorem receive_frames (connection : EpollConnection β) (count : Nat) :
    (connection.receive calls count).2.client.session.frames =
      connection.client.session.frames ++
        (connection.receive calls count).2.client.session.frames.drop
          connection.client.session.frames.length := by
  obtain ⟨added, grown⟩ := extract_frames_grow calls { connection.client with
    readBuffer := connection.client.readBuffer ++ connection.incoming.take count }
  simp only [EpollConnection.receive, ← grown, List.drop_left]

theorem receive_delivering {session : Session β} {stream : Bytes} {connection : EpollConnection β}
    (delivering : Delivering calls session stream connection) {count : Nat}
    (stays : (connection.receive calls count).1 = true) :
    Delivering calls session stream (connection.receive calls count).2 := by
  obtain ⟨⟨consumed, whole, extracted⟩, offset, queued⟩ := delivering
  refine ⟨⟨consumed ++ connection.incoming.take count, ?_, ?_⟩, ?_, ?_⟩
  · simp only [EpollConnection.receive]
    rw [List.append_assoc, List.take_append_drop, whole]
  · have continued := (extract_append calls (connection.incoming.take count) ⟨session, consumed⟩).1
      (by rw [extracted])
    simp only [extracted] at continued
    rw [continued]
    exact Prod.ext stays rfl
  · simp only [EpollConnection.receive, List.length_append]
    omega
  · rw [receive_frames, List.flatten_append, ← queued, List.append_assoc]
    simp only [EpollConnection.receive, EpollConnection.unsent]
    rw [List.drop_append_of_le_length offset]

theorem readFromClient_spec (ending : Ending) {session : Session β} {stream : Bytes}
    (recvs : List RecvCall) {connection : EpollConnection β} (isOpen : connection.closed = false)
    (delivering : Delivering calls session stream connection) :
    (connection.readFromClient calls ending recvs).sent = connection.sent ∧
      ((connection.readFromClient calls ending recvs).closed = false →
        Delivering calls session stream (connection.readFromClient calls ending recvs)) := by
  induction recvs generalizing connection with
  | nil => exact ⟨rfl, fun _ => delivering⟩
  | cons call rest ih =>
      cases call with
      | wouldBlock => exact ⟨rfl, fun _ => delivering⟩
      | interrupted => exact ih isOpen delivering
      | failed => exact ⟨rfl, by simp [EpollConnection.readFromClient, EpollConnection.closeClient]⟩
      | received more =>
          simp only [EpollConnection.readFromClient]
          by_cases drained : connection.incoming = []
          · rw [if_pos drained]
            cases ending with
            | shutdown => exact ⟨rfl, by simp [EpollConnection.closeClient]⟩
            | silent => exact ⟨rfl, fun _ => delivering⟩
          · rw [if_neg drained]
            by_cases stays : (connection.receive calls (min (more + 1) kReadBufferSize)).1 = true
            · rw [if_pos stays]
              exact ih isOpen (receive_delivering calls delivering stays)
            · rw [if_neg stays]
              exact ⟨rfl, by simp [EpollConnection.closeClient]⟩

theorem sent_append_unsent (sent buffer : Bytes) (offset count : Nat) :
    (sent ++ (buffer.drop offset).take count) ++ buffer.drop (offset + count) =
      sent ++ buffer.drop offset := by
  rw [List.append_assoc, ← List.drop_drop, List.take_append_drop]

theorem send_delivering {session : Session β} {stream : Bytes}
    {connection : EpollConnection β} (delivering : Delivering calls session stream connection)
    {bytesSent : Nat} (bound : bytesSent ≤ connection.unsent.length) :
    Delivering calls session stream { connection with
      sent := connection.sent ++ connection.unsent.take bytesSent
      writeOffset := connection.writeOffset + bytesSent } := by
  refine ⟨delivering.extracted, ?_, ?_⟩
  · have offset := delivering.offset
    simp only [EpollConnection.unsent, List.length_drop] at bound
    dsimp only
    omega
  · rw [← delivering.queued]
    exact sent_append_unsent connection.sent connection.writeBuffer connection.writeOffset bytesSent

theorem writeToClient_flushed {session : Session β} {stream : Bytes}
    {connection : EpollConnection β} (isOpen : connection.closed = false)
    (delivering : Delivering calls session stream connection)
    (flushed : ¬connection.writeOffset < connection.writeBuffer.length) (sends : List SendCall) :
    (connection.writeToClient calls sends).closed = false ∧
      Delivering calls session stream (connection.writeToClient calls sends) := by
  have cleared : connection.writeToClient calls sends = { connection with
      writeBuffer := []
      writeOffset := 0 } := by
    cases sends with
    | nil => simp only [EpollConnection.writeToClient, flushed, if_false]
    | cons call rest => cases call <;> simp only [EpollConnection.writeToClient, flushed, if_false]
  have nothing : connection.unsent = [] := List.drop_of_length_le (not_lt.mp flushed)
  rw [cleared]
  refine ⟨isOpen, delivering.extracted, Nat.le_refl _, ?_⟩
  rw [← delivering.queued, nothing]
  rfl

theorem writeToClient_spec {session : Session β} {stream : Bytes} (sends : List SendCall)
    {connection : EpollConnection β} (isOpen : connection.closed = false)
    (delivering : Delivering calls session stream connection) :
    ((connection.writeToClient calls sends).closed = false →
        Delivering calls session stream (connection.writeToClient calls sends)) ∧
      (SendCall.failed ∉ sends ∧ SendCall.accepted 0 ∉ sends →
        (connection.writeToClient calls sends).closed = false) := by
  induction sends generalizing connection with
  | nil =>
      by_cases pending : connection.writeOffset < connection.writeBuffer.length
      · simp only [EpollConnection.writeToClient, pending, if_true]
        exact ⟨fun _ => delivering, fun _ => isOpen⟩
      · obtain ⟨stays, kept⟩ := writeToClient_flushed calls isOpen delivering pending []
        exact ⟨fun _ => kept, fun _ => stays⟩
  | cons call rest ih =>
      by_cases pending : connection.writeOffset < connection.writeBuffer.length
      · cases call with
        | wouldBlock =>
            simp only [EpollConnection.writeToClient, pending, if_true]
            exact ⟨fun _ => delivering, fun _ => isOpen⟩
        | interrupted =>
            simp only [EpollConnection.writeToClient, pending, if_true]
            obtain ⟨kept, progresses⟩ := ih isOpen delivering
            refine ⟨kept, fun progress => progresses ?_⟩
            simpa using progress
        | failed =>
            simp only [EpollConnection.writeToClient, pending, if_true]
            exact ⟨by simp [EpollConnection.closeClient], by simp⟩
        | accepted count =>
            simp only [EpollConnection.writeToClient, pending, if_true]
            have waiting : 0 < connection.unsent.length := by
              simp only [EpollConnection.unsent, List.length_drop]
              omega
            by_cases nothing : min count connection.unsent.length = 0
            · rw [if_pos nothing]
              refine ⟨by simp [EpollConnection.closeClient], fun progress => absurd ?_ progress.2⟩
              have zero : count = 0 := by omega
              simp [zero]
            · rw [if_neg nothing]
              obtain ⟨kept, progresses⟩ := ih (by exact isOpen)
                (send_delivering calls delivering (Nat.min_le_right count _))
              refine ⟨kept, fun progress => progresses ?_⟩
              simp only [List.mem_cons, not_or] at progress
              exact ⟨progress.1.2, progress.2.2⟩
      · obtain ⟨stays, kept⟩ := writeToClient_flushed calls isOpen delivering pending (call :: rest)
        exact ⟨fun _ => kept, fun _ => stays⟩

/-! Events and runs. -/

theorem handleEvent_spec (ending : Ending) {session : Session β} {stream : Bytes}
    (event : EpollEvent) {connection : EpollConnection β} (isOpen : connection.closed = false)
    (delivering : Delivering calls session stream connection) :
    ((connection.handleEvent calls ending event).closed = false →
        Delivering calls session stream (connection.handleEvent calls ending event)) ∧
      (event.SendsProgress → (connection.handleEvent calls ending event).closed = true →
        (connection.handleEvent calls ending event).sent = connection.sent) := by
  simp only [EpollConnection.handleEvent, isOpen, Bool.false_eq_true, if_false]
  by_cases hangup : event.hangup = true
  · rw [if_pos hangup]
    exact ⟨by simp [EpollConnection.closeClient], fun _ _ => rfl⟩
  rw [if_neg hangup]
  generalize readEq : event.readable.elim connection (connection.readFromClient calls ending) = read
  have readSpec : read.sent = connection.sent ∧
      (read.closed = false → Delivering calls session stream read) := by
    rw [← readEq]
    cases event.readable with
    | none => exact ⟨rfl, fun _ => delivering⟩
    | some recvs => exact readFromClient_spec calls ending recvs isOpen delivering
  cases writable : event.writable with
  | none => exact ⟨readSpec.2, fun _ _ => readSpec.1⟩
  | some sends =>
      dsimp only
      by_cases readClosed : read.closed = true
      · rw [if_pos readClosed]
        exact ⟨by simp [readClosed], fun _ _ => readSpec.1⟩
      · rw [if_neg readClosed]
        have readOpen : read.closed = false := by simpa using readClosed
        obtain ⟨kept, stays⟩ := writeToClient_spec calls sends readOpen (readSpec.2 readOpen)
        refine ⟨kept, fun progress closes => ?_⟩
        rw [stays (progress sends writable)] at closes
        exact absurd closes (by simp)

theorem run_open {ending : Ending} {session : Session β} {stream : Bytes}
    (invariant : EpollConnection β → Prop)
    (initial : invariant (EpollConnection.accepted session stream))
    (kept : ∀ connection event, connection.closed = false → invariant connection →
      (connection.handleEvent calls ending event).closed = false →
      invariant (connection.handleEvent calls ending event))
    {events : List EpollEvent} {connection : EpollConnection β}
    (reached : (EpollConnection.accepted session stream).run calls ending events =
      some connection) (isOpen : connection.closed = false) : invariant connection := by
  refine Transition.run_invariant
    (fun connection => connection.closed = false → invariant connection)
    ?_ (fun _ => initial) reached isOpen
  intro state event next before stepped nextOpen
  rw [Option.some.injEq] at stepped
  rw [← stepped] at nextOpen ⊢
  by_cases closed : state.closed = true
  · simp only [EpollConnection.handleEvent, closed, if_true] at nextOpen
    exact absurd nextOpen (by simp)
  · have stateOpen : state.closed = false := by simpa using closed
    exact kept state event stateOpen (before stateOpen) nextOpen

theorem run_delivering (ending : Ending) {session : Session β} (fresh : session.frames = [])
    (stream : Bytes) {events : List EpollEvent} {connection : EpollConnection β}
    (reached : (EpollConnection.accepted session stream).run calls ending events =
      some connection) (isOpen : connection.closed = false) :
    Delivering calls session stream connection := by
  refine run_open calls (Delivering calls session stream) (accepted_delivering calls fresh stream)
    ?_ reached isOpen
  intro state event stateOpen delivering nextOpen
  exact (handleEvent_spec calls ending event stateOpen delivering).1 nextOpen

theorem readFromClient_drained {ending : Ending} {tail : Bytes} (finishes : Finishes ending tail)
    {payloads : List Bytes} (valid : ∀ payload ∈ payloads, payload.length ≤ kMaxPayloadSize)
    {session : Session β} (more count : Nat) {connection : EpollConnection β}
    (delivering : Delivering calls session (frameBytes payloads ++ tail) connection)
    (enough : connection.incoming.length < count) :
    (connection.readFromClient calls ending (List.replicate count (.received more))).closed =
      true := by
  induction count generalizing connection with
  | zero => omega
  | succ count ih =>
      simp only [List.replicate_succ, EpollConnection.readFromClient]
      by_cases drained : connection.incoming = []
      · obtain ⟨consumed, whole, extracted⟩ := delivering.extracted
        rw [drained, List.append_nil] at whole
        rw [whole] at extracted
        have shutdown := (extract_stream calls finishes valid session).2 (by rw [extracted])
        simp [drained, shutdown, EpollConnection.closeClient]
      · rw [if_neg drained]
        by_cases stays : (connection.receive calls (min (more + 1) kReadBufferSize)).1 = true
        · rw [if_pos stays]
          apply ih (receive_delivering calls delivering stays)
          have nonempty := List.length_pos_iff.mpr drained
          simp only [EpollConnection.receive, List.length_drop, kReadBufferSize]
          omega
        · rw [if_neg stays]
          rfl

theorem frames_eq_of_flatten {frames all : List Bytes} (before : frames <+: all)
    (filled : ∀ frame ∈ all, frame ≠ []) (same : all.flatten.length ≤ frames.flatten.length) :
    frames = all := by
  obtain ⟨missing, rfl⟩ := before
  rw [List.flatten_append, List.length_append] at same
  have nothing : missing.flatten = [] := List.length_eq_zero_iff.mp (by omega)
  cases missing with
  | nil => rw [List.append_nil]
  | cons frame rest =>
      rw [List.flatten_cons, List.append_eq_nil_iff] at nothing
      exact absurd nothing.1 (filled frame (by simp))

theorem sent_complete_iff {ending : Ending} {tail : Bytes} (finishes : Finishes ending tail)
    {payloads : List Bytes} (valid : ∀ payload ∈ payloads, payload.length ≤ kMaxPayloadSize)
    {session : Session β} (fresh : session.frames = []) {connection : EpollConnection β}
    (delivering : Delivering calls session (frameBytes payloads ++ tail) connection) :
    connection.sent = (answeredSession calls session payloads).frames.flatten ↔
      connection.unsent = [] ∧
        connection.incoming.length + (frameBytes (answeredRequests calls session payloads)).length ≤
          (frameBytes payloads ++ tail).length := by
  obtain ⟨⟨consumed, whole, extracted⟩, _, queued⟩ := delivering
  have stays : (EpollServer.extractCompleteFrames calls ⟨session, consumed⟩).1 = true := by
    rw [extracted]
  have complete := extract_complete_iff calls finishes valid session whole stays
  have before := extract_open_grows calls session stays connection.incoming
  rw [whole, (extract_stream calls finishes valid session).1, extracted] at before
  rw [extracted] at complete
  have received : connection.incoming.length +
        (frameBytes (answeredRequests calls session payloads)).length ≤
          (frameBytes payloads ++ tail).length ↔
      (frameBytes (answeredRequests calls session payloads)).length ≤ consumed.length := by
    rw [← whole, List.length_append]
    omega
  have filled := answeredSession_filled calls payloads session (by simp [fresh])
  rw [received, ← complete]
  constructor
  · intro sent
    have lengths := congrArg List.length queued
    rw [sent, List.length_append] at lengths
    have frames := frames_eq_of_flatten before filled (by dsimp only; omega)
    refine ⟨List.length_eq_zero_iff.mp ?_, frames⟩
    rw [← frames] at lengths
    dsimp only at lengths
    omega
  · rintro ⟨flushed, frames⟩
    rw [← frames, ← queued, flushed, List.append_nil]

/-- Both servers answer a stream of requests that ends with a shutdown or an oversized
frame. `TcpServer` closes with every response sent; `EpollServer` does exactly when the
event that closes finds `write_buffer` sent and the requests received. -/
theorem responses_delivered (broker : β) {payloads : List Bytes}
    (valid : ∀ payload ∈ payloads, payload.length ≤ kMaxPayloadSize) {ending : Ending}
    {tail : Bytes} (finishes : Finishes ending tail) :
    let stream := frameBytes payloads ++ tail
    let responses := (answeredSession calls { broker } payloads).frames.flatten
    (∀ segments : List Bytes, (∀ segment ∈ segments, segment ≠ []) → segments.flatten = stream →
      (TcpServer.handleClient calls ending { broker } segments).1 = true ∧
        (TcpServer.handleClient calls ending { broker } segments).2.frames.flatten = responses) ∧
    ∀ (before : List EpollEvent) (connection : EpollConnection β),
      (EpollConnection.accepted { broker } stream).run calls ending before = some connection →
      connection.closed = false →
      (∃ last : EpollEvent, last.SendsProgress ∧
        (connection.handleEvent calls ending last).closed = true) ∧
      ∀ last : EpollEvent, last.SendsProgress →
        (connection.handleEvent calls ending last).closed = true →
        ((connection.handleEvent calls ending last).sent = responses ↔
          connection.unsent = [] ∧
            connection.incoming.length +
              (frameBytes (answeredRequests calls { broker } payloads)).length ≤
              stream.length) := by
  refine ⟨fun segments filled whole => ?_, fun before connection reached isOpen => ?_⟩
  · obtain ⟨frames, shutdown⟩ := extract_stream calls finishes valid { broker }
    rw [TcpServer.handleClient, tcpLoop_eq calls ending _ _ filled (by omega), whole]
    have closes : ¬((EpollServer.extractCompleteFrames calls
        ⟨{ broker }, frameBytes payloads ++ tail⟩).1 = true ∧ ending = .silent) := by
      rintro ⟨stays, rfl⟩
      exact absurd (shutdown stays) (by simp)
    rw [connectionEnd, if_neg closes]
    exact ⟨rfl, congrArg List.flatten frames⟩
  · have delivering := run_delivering calls ending rfl _ reached isOpen
    refine ⟨⟨{ readable := some (List.replicate (connection.incoming.length + 1) (.received 0)) },
      by simp [EpollEvent.SendsProgress], ?_⟩, fun last progress closes => ?_⟩
    · simp only [EpollConnection.handleEvent, isOpen, Bool.false_eq_true, if_false, Option.elim]
      exact readFromClient_drained calls finishes valid 0 _ delivering (by omega)
    · rw [(handleEvent_spec calls ending last isOpen delivering).2 progress closes]
      exact sent_complete_iff calls finishes valid rfl delivering

def standaloneCalls : BrokerCalls (World Unit) :=
  brokerCalls { link := fun peer _ => (peer, none), calls := ⟨none, [], [], [], none⟩ }

def emptyBroker : World Unit := ⟨{}, ∅, ()⟩

theorem responses_delivered_ping :
    ((EpollConnection.accepted { broker := emptyBroker } (frameBytes [ascii "PING"] ++ [])).run
      standaloneCalls .shutdown
      [{ readable := some [.received 4], writable := some [] },
        { readable := some [.interrupted, .received 9, .wouldBlock],
          writable := some [.accepted 1, .interrupted, .accepted 9] },
        { readable := some [.received 0] }]).map EpollConnection.sent =
      some ([0, 0, 0, 4] ++ ascii "PONG") := by
  have valid : ∀ payload ∈ [ascii "PING"], payload.length ≤ kMaxPayloadSize := by decide
  obtain ⟨_, delivered⟩ :=
    (responses_delivered standaloneCalls emptyBroker valid (by decide : Finishes .shutdown [])).2
      [{ readable := some [.received 4], writable := some [] },
        { readable := some [.interrupted, .received 9, .wouldBlock],
          writable := some [.accepted 1, .interrupted, .accepted 9] }] _ rfl (by decide +kernel)
  have sent := (delivered { readable := some [.received 0] } (by decide) (by decide +kernel)).mpr
    (by decide +kernel)
  have responses : (answeredSession standaloneCalls { broker := emptyBroker }
      [ascii "PING"]).frames.flatten = [0, 0, 0, 4] ++ ascii "PONG" := by decide +kernel
  exact congrArg some (sent.trans responses)

/-- A `PING` and the shutdown are read in one call: the response is queued and never sent,
while `TcpServer` sends it. -/
theorem responses_lost_ping :
    ((EpollConnection.accepted { broker := emptyBroker } (frameBytes [ascii "PING"])).run
        standaloneCalls .shutdown
        [{ readable := some [.received 4095, .received 4095], writable := some [.accepted 8] }]).map
        (fun connection => (connection.closed, connection.sent)) = some (true, []) ∧
      (TcpServer.handleClient standaloneCalls .shutdown { broker := emptyBroker }
        [frameBytes [ascii "PING"]]).2.frames.flatten = [0, 0, 0, 4] ++ ascii "PONG" ∧
      (answeredSession standaloneCalls { broker := emptyBroker } [ascii "PING"]).frames.flatten =
        [0, 0, 0, 4] ++ ascii "PONG" := by
  decide +kernel

end KafkaBroker
