import KafkaBroker.ServersCore

/-!
The two servers do the same with a byte stream, however it is cut into segments and
chunks: both come down to `extract_complete_frames` on the whole stream.
-/

namespace KafkaBroker

open ByteText

variable {β : Type} (calls : BrokerCalls β)

/-! One frame. -/

theorem serve_eq (session : Session β) (payload : Bytes) :
    EpollServer.serve calls session payload = TcpServer.serve calls session payload := by
  simp only [EpollServer.serve, TcpServer.serve]
  cases (calls.handleRequest session.broker (parseRequest payload)).2 with
  | none => rfl
  | some response =>
      simp only [writeFrame]
      by_cases oversized : response.length > kMaxPayloadSize
      · simp only [oversized, if_true]
      · simp only [oversized, if_false]
        rfl

/-! `extract_complete_frames`. -/

/-- A buffer without a complete or an oversized frame at its front. -/
def Incomplete (buffer : Bytes) : Prop :=
  buffer.length < kFrameHeaderSize ∨
    fromBigEndian (buffer.take kFrameHeaderSize) ≤ kMaxPayloadSize ∧
      buffer.length < kFrameHeaderSize + fromBigEndian (buffer.take kFrameHeaderSize)

theorem extract_incomplete {client : ClientState β} (incomplete : Incomplete client.readBuffer) :
    EpollServer.extractCompleteFrames calls client = (true, client) := by
  rw [EpollServer.extractCompleteFrames]
  rcases incomplete with short | ⟨allowed, short⟩
  · rw [if_pos short]
  · split
    · rfl
    · rw [if_neg (by omega), if_pos short]

theorem extract_true_incomplete (client : ClientState β) :
    (EpollServer.extractCompleteFrames calls client).1 = true →
      Incomplete (EpollServer.extractCompleteFrames calls client).2.readBuffer := by
  fun_induction EpollServer.extractCompleteFrames calls client with
  | case1 client short => exact fun _ => Or.inl short
  | case2 client header payloadLength oversized => simp
  | case3 client header payloadLength allowed frameSize short =>
      exact fun _ => Or.inr ⟨not_lt.mp allowed, short⟩
  | case4 client header payloadLength allowed frameSize complete payload served goesOn ih => exact ih
  | case5 client header payloadLength allowed frameSize complete payload served stops => simp

theorem extract_frame (session : Session β) {buffer payload rest : Bytes}
    (allowed : payload.length ≤ kMaxPayloadSize)
    (front : buffer = bigEndian payload.length ++ payload ++ rest) :
    EpollServer.extractCompleteFrames calls ⟨session, buffer⟩ =
      if (EpollServer.serve calls session payload).1 = true then
        EpollServer.extractCompleteFrames calls ⟨(EpollServer.serve calls session payload).2, rest⟩
      else (false, ⟨(EpollServer.serve calls session payload).2, buffer⟩) := by
  have bound : payload.length < 2 ^ 32 := by
    simp only [kMaxPayloadSize] at allowed
    omega
  have header : buffer.take kFrameHeaderSize = bigEndian payload.length := by
    rw [front, List.append_assoc]
    exact List.take_left' rfl
  have value : fromBigEndian (buffer.take kFrameHeaderSize) = payload.length := by
    rw [header, fromBigEndian_bigEndian_of_lt bound]
  have body : buffer.drop kFrameHeaderSize = payload ++ rest := by
    rw [front, List.append_assoc]
    exact List.drop_left' rfl
  have tail : buffer.drop (kFrameHeaderSize + payload.length) = rest := by
    rw [← List.drop_drop, body, List.drop_left]
  have size : buffer.length = kFrameHeaderSize + payload.length + rest.length := by
    rw [front, List.length_append, List.length_append, bigEndian_length]
    rfl
  rw [EpollServer.extractCompleteFrames]
  simp only [value, body, tail, List.take_left]
  rw [if_neg (by omega), if_neg (by omega), if_neg (by omega)]

theorem complete_front {buffer : Bytes} {payloadLength : Nat}
    (header : fromBigEndian (buffer.take kFrameHeaderSize) = payloadLength)
    (complete : kFrameHeaderSize + payloadLength ≤ buffer.length) :
    ∃ payload, payload.length = payloadLength ∧
      payload = (buffer.drop kFrameHeaderSize).take payloadLength ∧
      buffer = bigEndian payload.length ++ payload ++
        buffer.drop (kFrameHeaderSize + payloadLength) := by
  have size : ((buffer.drop kFrameHeaderSize).take payloadLength).length = payloadLength := by
    rw [List.length_take, List.length_drop]
    omega
  have four : (buffer.take kFrameHeaderSize).length = 4 := by
    rw [List.length_take]
    simp only [kFrameHeaderSize] at complete ⊢
    omega
  refine ⟨_, size, rfl, ?_⟩
  rw [size, ← header, bigEndian_fromBigEndian four, header, ← List.drop_drop, List.append_assoc,
    List.take_append_drop, List.take_append_drop]

theorem extract_complete (session : Session β) {buffer : Bytes} {payloadLength : Nat}
    (header : fromBigEndian (buffer.take kFrameHeaderSize) = payloadLength)
    (allowed : ¬payloadLength > kMaxPayloadSize)
    (complete : ¬buffer.length < kFrameHeaderSize + payloadLength) (more : Bytes) :
    EpollServer.extractCompleteFrames calls ⟨session, buffer ++ more⟩ =
      if (EpollServer.serve calls session
          ((buffer.drop kFrameHeaderSize).take payloadLength)).1 = true then
        EpollServer.extractCompleteFrames calls
          ⟨(EpollServer.serve calls session ((buffer.drop kFrameHeaderSize).take payloadLength)).2,
            buffer.drop (kFrameHeaderSize + payloadLength) ++ more⟩
      else (false,
        ⟨(EpollServer.serve calls session ((buffer.drop kFrameHeaderSize).take payloadLength)).2,
          buffer ++ more⟩) := by
  obtain ⟨payload, size, payloadEq, front⟩ := complete_front header (not_lt.mp complete)
  rw [← payloadEq]
  apply extract_frame calls session (size ▸ not_lt.mp allowed)
  rw [← List.append_assoc]
  exact congrArg (· ++ more) front

theorem extract_append (more : Bytes) (client : ClientState β) :
    ((EpollServer.extractCompleteFrames calls client).1 = true →
      EpollServer.extractCompleteFrames calls ⟨client.session, client.readBuffer ++ more⟩ =
      EpollServer.extractCompleteFrames calls
        ⟨(EpollServer.extractCompleteFrames calls client).2.session,
          (EpollServer.extractCompleteFrames calls client).2.readBuffer ++ more⟩) ∧
    ((EpollServer.extractCompleteFrames calls client).1 = false →
      (EpollServer.extractCompleteFrames calls ⟨client.session, client.readBuffer ++ more⟩).1 =
        false ∧
      (EpollServer.extractCompleteFrames calls
        ⟨client.session, client.readBuffer ++ more⟩).2.session =
        (EpollServer.extractCompleteFrames calls client).2.session) := by
  fun_induction EpollServer.extractCompleteFrames calls client with
  | case1 client short => simp
  | case2 client header payloadLength oversized =>
      have sameHeader : (client.readBuffer ++ more).take kFrameHeaderSize =
          client.readBuffer.take kFrameHeaderSize := List.take_append_of_le_length (by omega)
      refine ⟨by simp, fun _ => ?_⟩
      rw [EpollServer.extractCompleteFrames]
      simp only [sameHeader, List.length_append]
      rw [if_neg (by omega), if_pos oversized]
      exact ⟨rfl, rfl⟩
  | case3 client header payloadLength allowed frameSize short => simp
  | case4 client header payloadLength allowed frameSize complete payload served goesOn ih =>
      rw [extract_complete calls client.session rfl allowed complete more, if_pos goesOn]
      exact ih
  | case5 client header payloadLength allowed frameSize complete payload served stops =>
      rw [extract_complete calls client.session rfl allowed complete more, if_neg stops]
      exact ⟨by simp, fun _ => ⟨rfl, rfl⟩⟩

/-! Both servers on a whole stream. -/

def connectionEnd (ending : Ending) (extracted : Bool × ClientState β) : Bool × Session β :=
  if extracted.1 = true ∧ ending = .silent then (false, extracted.2.session)
  else (true, extracted.2.session.cleanup calls)

theorem readFromClient_eq (ending : Ending) {chunks : List Bytes} (filled : ∀ chunk ∈ chunks, chunk ≠ [])
    (client : ClientState β) (incomplete : Incomplete client.readBuffer) :
    EpollServer.readFromClient calls ending client chunks =
      connectionEnd calls ending (EpollServer.extractCompleteFrames calls
        ⟨client.session, client.readBuffer ++ chunks.flatten⟩) := by
  induction chunks generalizing client with
  | nil =>
      rw [List.flatten_nil, List.append_nil, extract_incomplete calls incomplete]
      cases ending <;> rfl
  | cons chunk rest ih =>
      have settled := extract_true_incomplete calls
        ⟨client.session, client.readBuffer ++ chunk⟩
      obtain ⟨continues, stops⟩ := extract_append calls rest.flatten
        ⟨client.session, client.readBuffer ++ chunk⟩
      simp only [EpollServer.readFromClient, filled chunk (by simp), if_false]
      rw [List.flatten_cons, ← List.append_assoc]
      by_cases goesOn : (EpollServer.extractCompleteFrames calls
          ⟨client.session, client.readBuffer ++ chunk⟩).1 = true
      · rw [if_pos goesOn, continues goesOn]
        exact ih (fun other member => filled other (by simp [member])) _ (settled goesOn)
      · rw [if_neg goesOn]
        obtain ⟨closed, session⟩ := stops (by simpa using goesOn)
        simp only [connectionEnd, closed, Bool.false_eq_true, false_and, if_false, session]

/-! `read_frame` on segments. -/

def starved : Ending → ReadResult
  | .shutdown => .ended
  | .silent => .waiting

theorem readExactly_spec (ending : Ending) {segments : List Bytes}
    (filled : ∀ segment ∈ segments, segment ≠ []) : ∀ (need : Nat) (got : Bytes),
    (need ≤ segments.flatten.length → ∃ rest,
      readExactly ending segments need got = .value (got ++ segments.flatten.take need) rest ∧
        rest.flatten = segments.flatten.drop need ∧ ∀ segment ∈ rest, segment ≠ []) ∧
    (segments.flatten.length < need → readExactly ending segments need got = starved ending) := by
  induction segments with
  | nil =>
      intro need got
      cases need with
      | zero => exact ⟨fun _ => ⟨[], by simp [readExactly]⟩, by simp⟩
      | succ need =>
          refine ⟨by simp, fun _ => ?_⟩
          cases ending <;> rfl
  | cons segment rest ih =>
      intro need got
      have nonempty := filled segment (by simp)
      have tail := ih fun other member => filled other (by simp [member])
      cases need with
      | zero => exact ⟨fun _ => ⟨segment :: rest, by simp [readExactly], by simp, filled⟩, by simp⟩
      | succ need =>
          simp only [readExactly, nonempty, if_false, List.flatten_cons, List.length_append]
          obtain ⟨enough, short⟩ := tail (need + 1 - segment.length) (got ++ segment)
          by_cases whole : segment.length ≤ need + 1
          · rw [if_pos whole]
            refine ⟨fun bound => ?_, fun bound => short (by omega)⟩
            obtain ⟨left, read, leftEq, leftFilled⟩ := enough (by omega)
            refine ⟨left, ?_, ?_, leftFilled⟩
            · rw [read, List.take_append, List.take_of_length_le whole, List.append_assoc]
            · rw [leftEq, List.drop_append, List.drop_of_length_le whole, List.nil_append]
          · rw [if_neg whole]
            refine ⟨fun _ => ⟨segment.drop (need + 1) :: rest, ?_, ?_, ?_⟩, fun bound => by omega⟩
            · rw [List.take_append_of_le_length (by omega)]
            · rw [List.flatten_cons, List.drop_append_of_le_length (by omega)]
            · intro other member
              rcases List.mem_cons.mp member with rfl | later
              · simp only [ne_eq, List.drop_eq_nil_iff]
                omega
              · exact filled other (by simp [later])

theorem readFrame_spec (ending : Ending) {segments : List Bytes}
    (filled : ∀ segment ∈ segments, segment ≠ []) :
    Incomplete segments.flatten ∧
        (readFrame ending segments = .waiting ∧ ending = .silent ∨
          (readFrame ending segments = .closed ∨ readFrame ending segments = .threw) ∧
            ending = .shutdown) ∨
      (kFrameHeaderSize ≤ segments.flatten.length ∧
        kMaxPayloadSize < fromBigEndian (segments.flatten.take kFrameHeaderSize) ∧
        readFrame ending segments = .threw) ∨
      ∃ payload rest, payload.length ≤ kMaxPayloadSize ∧
        segments.flatten = bigEndian payload.length ++ payload ++ rest.flatten ∧
        readFrame ending segments = .frame payload rest ∧ ∀ segment ∈ rest, segment ≠ [] := by
  obtain ⟨enough, short⟩ := readExactly_spec ending filled 4 []
  by_cases header : 4 ≤ segments.flatten.length
  · obtain ⟨body, read, bodyEq, bodyFilled⟩ := enough header
    simp only [List.nil_append] at read
    obtain ⟨enoughBody, shortBody⟩ := readExactly_spec ending bodyFilled
      (fromBigEndian (segments.flatten.take 4)) []
    have bodySize : body.flatten.length = segments.flatten.length - 4 := by
      rw [bodyEq, List.length_drop]
    simp only [readFrame, read]
    by_cases oversized : fromBigEndian (segments.flatten.take 4) > kMaxPayloadSize
    · exact Or.inr (Or.inl ⟨header, oversized, by rw [if_pos oversized]⟩)
    · rw [if_neg oversized]
      by_cases complete : fromBigEndian (segments.flatten.take 4) ≤ body.flatten.length
      · obtain ⟨rest, readBody, restEq, restFilled⟩ := enoughBody complete
        rw [readBody, List.nil_append]
        have whole : kFrameHeaderSize + fromBigEndian (segments.flatten.take kFrameHeaderSize) ≤
            segments.flatten.length := by
          simp only [kFrameHeaderSize]
          omega
        obtain ⟨payload, size, payloadEq, front⟩ := complete_front rfl whole
        refine Or.inr (Or.inr ⟨payload, rest, ?_, ?_, ?_, restFilled⟩)
        · rw [size]
          exact not_lt.mp oversized
        · rw [restEq, bodyEq, List.drop_drop]
          exact front
        · rw [payloadEq, bodyEq]
          rfl
      · refine Or.inl ⟨Or.inr ⟨not_lt.mp oversized, by simp only [kFrameHeaderSize]; omega⟩, ?_⟩
        rw [shortBody (not_le.mp complete)]
        cases ending <;> simp [starved]
  · refine Or.inl ⟨Or.inl (not_le.mp header), ?_⟩
    simp only [readFrame, short (not_le.mp header)]
    cases ending <;> simp [starved]

theorem tcpLoop_eq (ending : Ending) (bound : Nat) : ∀ (session : Session β) {segments : List Bytes},
    (∀ segment ∈ segments, segment ≠ []) → segments.flatten.length < bound →
    TcpServer.loop calls ending bound session segments =
      connectionEnd calls ending
        (EpollServer.extractCompleteFrames calls ⟨session, segments.flatten⟩) := by
  induction bound with
  | zero =>
      intro session segments _ short
      omega
  | succ bound ih =>
      intro session segments filled short
      simp only [TcpServer.loop]
      rcases readFrame_spec ending filled with ⟨incomplete, outcome⟩ | ⟨header, oversized, read⟩ |
        ⟨payload, rest, allowed, front, read, restFilled⟩
      · rw [extract_incomplete calls incomplete]
        rcases outcome with ⟨read, rfl⟩ | ⟨read | read, rfl⟩ <;> rw [read] <;> rfl
      · rw [read, EpollServer.extractCompleteFrames]
        simp only [connectionEnd, not_lt.mpr header, if_false, oversized, if_true,
          Bool.false_eq_true, false_and]
      · have smaller : rest.flatten.length < bound := by
          rw [front, List.length_append, List.length_append, bigEndian_length] at short
          omega
        rw [read, extract_frame calls session allowed front, serve_eq]
        simp only
        split
        · rw [ih _ restFilled smaller]
        · rfl

theorem incomplete_prefix {buffer : Bytes} (incomplete : Incomplete buffer) :
    buffer.length < kFrameHeaderSize + kMaxPayloadSize ∧
      ∃ payload : Bytes, payload.length < 2 ^ 32 ∧
        buffer <+: bigEndian payload.length ++ payload ∧
        buffer ≠ bigEndian payload.length ++ payload := by
  have shorter {whole : Bytes} (short : buffer.length < whole.length) : buffer ≠ whole := by
    rintro rfl
    omega
  by_cases header : buffer.length < kFrameHeaderSize
  · refine ⟨by omega, ?_⟩
    simp only [kFrameHeaderSize] at header
    -- fill up the header with zeros and take a payload of the length it then has
    have four : (buffer ++ List.replicate (4 - buffer.length) 0).length = 4 := by
      rw [List.length_append, List.length_replicate]
      omega
    refine ⟨List.replicate (fromBigEndian (buffer ++ List.replicate (4 - buffer.length) 0)) 0,
      ?_, ?_, ?_⟩
    · rw [List.length_replicate]
      exact fromBigEndian_lt four
    · rw [List.length_replicate, bigEndian_fromBigEndian four, List.append_assoc]
      exact List.prefix_append _ _
    · apply shorter
      rw [List.length_append, bigEndian_length]
      omega
  · rcases incomplete with short | ⟨allowed, short⟩
    · exact absurd short header
    · refine ⟨by omega, ?_⟩
      have four : (buffer.take kFrameHeaderSize).length = 4 := by
        rw [List.length_take]
        simp only [kFrameHeaderSize] at header ⊢
        omega
      generalize payloadLength : fromBigEndian (buffer.take kFrameHeaderSize) = size at *
      have total : (buffer.drop kFrameHeaderSize ++
          List.replicate (size - (buffer.length - kFrameHeaderSize)) 0).length = size := by
        rw [List.length_append, List.length_drop, List.length_replicate]
        omega
      refine ⟨buffer.drop kFrameHeaderSize ++
        List.replicate (size - (buffer.length - kFrameHeaderSize)) 0, ?_, ?_, ?_⟩
      · rw [total, ← payloadLength]
        exact fromBigEndian_lt four
      · rw [total, ← payloadLength, bigEndian_fromBigEndian four, ← List.append_assoc,
          List.take_append_drop]
        exact List.prefix_append _ _
      · apply shorter
        rw [List.length_append, total, bigEndian_length]
        simp only [kFrameHeaderSize] at short
        omega

/-- The two servers execute the same thing, whatever the chunking. -/
theorem servers_agree {segments chunks : List Bytes} (segmentsFilled : ∀ segment ∈ segments, segment ≠ [])
    (chunksFilled : ∀ chunk ∈ chunks, chunk ≠ []) (sameStream : segments.flatten = chunks.flatten)
    (ending : Ending) (broker : β) :
    EpollServer.readFromClient calls ending ⟨{ broker }, []⟩ chunks =
        TcpServer.handleClient calls ending { broker } segments ∧
      ∀ client : ClientState β, (EpollServer.extractCompleteFrames calls client).1 = true →
        let buffer := (EpollServer.extractCompleteFrames calls client).2.readBuffer
        buffer.length < kFrameHeaderSize + kMaxPayloadSize ∧
          ∃ payload : Bytes, payload.length < 2 ^ 32 ∧
            buffer <+: bigEndian payload.length ++ payload ∧
            buffer ≠ bigEndian payload.length ++ payload := by
  constructor
  · rw [readFromClient_eq calls ending chunksFilled _ (Or.inl (by simp [kFrameHeaderSize])),
      TcpServer.handleClient, tcpLoop_eq calls ending _ _ segmentsFilled (by omega), sameStream,
      List.nil_append]
  · intro client extracted
    exact incomplete_prefix (extract_true_incomplete calls client extracted)

/-- A broker that only knows who is a member. -/
def memberCalls : BrokerCalls (List Membership) where
  handleRequest members req :=
    match req.type with
    | .join => (members ++ [(req.groupId, req.consumerId)], some (ascii "OK"))
    | .leave => (members.erase (req.groupId, req.consumerId), some (ascii "OK"))
    | _ => (members, some (ascii "PONG"))
  removeConsumerFromGroup members groupId consumerId := members.erase (groupId, consumerId)

/-- Two clients join, one leaves, and the last header announces too much. -/
def memberStream : Bytes :=
  bigEndian 10 ++ ascii "JOIN g a t" ++ (bigEndian 10 ++ ascii "JOIN g b t") ++
    (bigEndian 9 ++ ascii "LEAVE g a") ++ [0, 1, 0, 1]

def otherMember : Session (List Membership) := { broker := [(ascii "h", ascii "z")] }

theorem servers_agree_members : ∃ session,
    EpollServer.readFromClient memberCalls .silent ⟨otherMember, []⟩
        [memberStream.take 3, (memberStream.drop 3).take 13, memberStream.drop 16] =
          (true, session) ∧
      TcpServer.handleClient memberCalls .silent otherMember
        [memberStream.take 18, memberStream.drop 18] = (true, session) ∧
      session.broker = [(ascii "h", ascii "z")] ∧
      session.requests.map Prod.snd = [[(ascii "g", ascii "a")],
        [(ascii "g", ascii "a"), (ascii "g", ascii "b")], [(ascii "g", ascii "b")]] ∧
      session.frames.length = 3 := by
  generalize handled : TcpServer.handleClient memberCalls .silent otherMember
    [memberStream.take 18, memberStream.drop 18] = served
  obtain ⟨closed, facts⟩ : served.1 = true ∧ served.2.broker = [(ascii "h", ascii "z")] ∧
      served.2.requests.map Prod.snd = [[(ascii "g", ascii "a")],
        [(ascii "g", ascii "a"), (ascii "g", ascii "b")], [(ascii "g", ascii "b")]] ∧
      served.2.frames.length = 3 := by
    rw [← handled]
    decide +kernel
  have same := (@servers_agree _ memberCalls [memberStream.take 18, memberStream.drop 18]
    [memberStream.take 3, (memberStream.drop 3).take 13, memberStream.drop 16] (by decide +kernel)
    (by decide +kernel) (by decide +kernel) .silent [(ascii "h", ascii "z")]).1
  exact ⟨served.2, (same.trans handled).trans (Prod.ext closed rfl), Prod.ext closed rfl, facts⟩

end KafkaBroker
