import KafkaBroker.BlockingCore
import KafkaBroker.Servers

/-!
Frames over a blocking socket, whatever `send` and `recv` do with each call: what is
written arrives frame by frame, a write that fails leaves the stream inside a frame, and
such a stream never passes for a payload.
-/

namespace KafkaBroker

open ByteText

namespace BlockingSocket

/-! Writing. -/

/-- A write of `data` either returns when all of it is sent, or throws with a part of it
sent because of a call or because `refused`. -/
def Carries (data sent : Bytes) (sends : List SendCall) (refused : Prop) : Written → Prop
  | .returned all left => all = sent ++ data ∧ left <:+ sends
  | .threw part => (∃ done, done <+: data ∧ part = sent ++ done) ∧
      (refused ∨ ∃ call ∈ sends, ¬call.Progresses)

variable {data sent : Bytes} {sends : List SendCall} {refused : Prop} {written : Written}

theorem Carries.step {done later : Bytes} {call : SendCall} (split : data = done ++ later)
    (rest : Carries later (sent ++ done) sends refused written) :
    Carries data sent (call :: sends) refused written := by
  subst split
  cases written with
  | returned all left =>
      obtain ⟨rfl, suffix⟩ := rest
      exact ⟨by rw [List.append_assoc], suffix.trans (List.suffix_cons call sends)⟩
  | threw part =>
      obtain ⟨⟨more, starts, rfl⟩, fault⟩ := rest
      refine ⟨⟨done ++ more, (List.prefix_append_right_inj done).mpr starts, ?_⟩,
        fault.imp_right ?_⟩
      · rw [List.append_assoc]
      · rintro ⟨bad, member, stuck⟩
        exact ⟨bad, List.mem_cons_of_mem _ member, stuck⟩

theorem carries_nothing (fault : refused ∨ ∃ call ∈ sends, ¬call.Progresses) :
    Carries data sent sends refused (.threw sent) :=
  ⟨⟨[], List.nil_prefix, (List.append_nil sent).symm⟩, fault⟩

theorem carries_all : Carries data sent sends refused (.returned (sent ++ data) sends) :=
  ⟨rfl, List.suffix_refl _⟩

theorem carries_empty : Carries [] sent sends refused (.returned sent sends) :=
  ⟨(List.append_nil sent).symm, List.suffix_refl _⟩

theorem Carries.andThen {first later : Bytes} {next : Bytes → List SendCall → Written}
    (carries : Carries first sent sends refused written)
    (goesOn : ∀ left, Carries later (sent ++ first) left refused (next (sent ++ first) left)) :
    Carries (first ++ later) sent sends refused (written.andThen next) := by
  cases written with
  | threw part =>
      obtain ⟨⟨done, starts, rfl⟩, fault⟩ := carries
      exact ⟨⟨done, starts.trans (List.prefix_append _ _), rfl⟩, fault⟩
  | returned all left =>
      obtain ⟨rfl, suffix⟩ := carries
      have rest := goesOn left
      simp only [Written.andThen]
      generalize next (sent ++ first) left = written at rest
      cases written with
      | returned all last =>
          obtain ⟨rfl, tail⟩ := rest
          exact ⟨by rw [List.append_assoc], tail.trans suffix⟩
      | threw part =>
          obtain ⟨⟨done, starts, rfl⟩, fault⟩ := rest
          refine ⟨⟨first ++ done, (List.prefix_append_right_inj first).mpr starts, ?_⟩,
            fault.imp_right ?_⟩
          · rw [List.append_assoc]
          · rintro ⟨bad, member, stuck⟩
            exact ⟨bad, suffix.subset member, stuck⟩

theorem writeExactly_spec (buffer : Bytes) (totalSent : Nat) :
    Carries (buffer.drop totalSent) sent sends refused
      (writeExactly buffer totalSent sent sends) := by
  have finish {totalSent : Nat} {sent : Bytes} {sends : List SendCall}
      (finished : ¬totalSent < buffer.length) :
      Carries (buffer.drop totalSent) sent sends refused (.returned sent sends) := by
    rw [List.drop_of_length_le (not_lt.mp finished)]
    exact carries_empty
  have stop {totalSent : Nat} {sent : Bytes} {call : SendCall} {rest : List SendCall}
      (stuck : ¬call.Progresses) :
      Carries (buffer.drop totalSent) sent (call :: rest) refused (.threw sent) :=
    carries_nothing (Or.inr ⟨call, List.mem_cons_self, stuck⟩)
  induction sends generalizing totalSent sent with
  | nil =>
      unfold writeExactly
      split
      · exact carries_all
      · exact finish ‹_›
  | cons call rest ih =>
      unfold writeExactly
      split
      · cases call with
        | interrupted =>
            apply Carries.step (List.nil_append _).symm
            rw [List.append_nil]
            exact ih totalSent
        | wouldBlock => exact stop id
        | failed => exact stop id
        | accepted count =>
            simp only
            split
            · exact stop (by simp only [SendCall.Progresses]; omega)
            · refine Carries.step ?_ (ih _)
              rw [← List.drop_drop, List.take_append_drop]
      · exact finish ‹_›

theorem writeFrame_spec {payload : Bytes} (oversized : payload.length > kMaxPayloadSize → refused) :
    Carries (bigEndian payload.length ++ payload) sent sends refused
      (writeFrame payload sent sends) := by
  unfold writeFrame
  split
  · exact carries_nothing (Or.inl (oversized ‹_›))
  · apply Carries.andThen (writeExactly_spec _ 0)
    intro left
    split
    · rename_i empty
      rw [empty]
      exact carries_empty
    · exact writeExactly_spec payload 0

theorem writeFrames_spec {payloads : List Bytes}
    (oversized : ∀ payload ∈ payloads, payload.length > kMaxPayloadSize → refused) :
    Carries (frameBytes payloads) sent sends refused (writeFrames payloads sent sends) := by
  induction payloads generalizing sent sends with
  | nil => exact carries_empty
  | cons payload rest ih =>
      rw [frameBytes_cons]
      apply Carries.andThen (writeFrame_spec (oversized payload List.mem_cons_self))
      intro left
      exact ih fun later member => oversized later (List.mem_cons_of_mem _ member)

/-! Reading. -/

/-- A read of `need` bytes behind `buffer` returns them off the front of `incoming`, or the
stream is shorter, or a call failed. -/
def Obtains (ending : Ending) (buffer : Bytes) (need : Nat) (incoming : Bytes)
    (recvs : List RecvCall) : Received → Prop
  | .value all rest left => need ≤ incoming.length ∧ all = buffer ++ incoming.take need ∧
      rest = incoming.drop need ∧ left <:+ recvs
  | .ended => incoming.length < need ∧ ending = .shutdown
  | .waiting => incoming.length < need ∧ ending = .silent
  | .threw => ∃ call ∈ recvs, ¬call.Progresses

variable {ending : Ending} {buffer incoming : Bytes} {need : Nat} {recvs : List RecvCall}

theorem Obtains.step {received : Received} {call : RecvCall} (count : Nat) (fits : count ≤ need)
    (rest : Obtains ending (buffer ++ incoming.take count)
      (need - (incoming.take count).length) (incoming.drop count) recvs received) :
    Obtains ending buffer need incoming (call :: recvs) received := by
  have taken : (incoming.take count).length = min count incoming.length := List.length_take
  have length : (incoming.drop count).length = incoming.length - count := List.length_drop
  cases received with
  | value all after left =>
      obtain ⟨enough, rfl, rfl, suffix⟩ := rest
      have whole : need = count + (need - count) := by omega
      have size : need - (incoming.take count).length = need - count := by omega
      refine ⟨by omega, ?_, ?_, suffix.trans (List.suffix_cons call recvs)⟩
      · conv_rhs => rw [whole]
        rw [size, List.take_add, List.append_assoc]
      · conv_rhs => rw [whole]
        rw [size, List.drop_drop]
  | ended =>
      obtain ⟨short, shutdown⟩ := rest
      exact ⟨by omega, shutdown⟩
  | waiting =>
      obtain ⟨short, silent⟩ := rest
      exact ⟨by omega, silent⟩
  | threw =>
      obtain ⟨bad, member, stuck⟩ := rest
      exact ⟨bad, List.mem_cons_of_mem _ member, stuck⟩

theorem obtains_starved (short : incoming.length < need) :
    Obtains ending buffer need incoming recvs (starved ending) := by
  cases ending with
  | shutdown => exact ⟨short, rfl⟩
  | silent => exact ⟨short, rfl⟩

theorem readExactly_spec (bytes : Nat) :
    Obtains ending buffer (bytes - buffer.length) incoming recvs
      (readExactly ending bytes buffer incoming recvs) := by
  have finish {buffer incoming : Bytes} {recvs : List RecvCall}
      (finished : ¬buffer.length < bytes) :
      Obtains ending buffer (bytes - buffer.length) incoming recvs
        (.value buffer incoming recvs) := by
    have none : bytes - buffer.length = 0 := by omega
    rw [none]
    exact ⟨Nat.zero_le _, (List.append_nil buffer).symm, rfl, List.suffix_refl _⟩
  induction recvs generalizing buffer incoming with
  | nil =>
      unfold readExactly
      split
      · simp only
        split
        · exact obtains_starved ‹_›
        · exact ⟨by omega, rfl, rfl, List.suffix_refl _⟩
      · exact finish ‹_›
  | cons call rest ih =>
      unfold readExactly
      split
      · cases call with
        | interrupted =>
            apply Obtains.step 0 (Nat.zero_le _)
            simpa using ih
        | wouldBlock => exact ⟨_, List.mem_cons_self, id⟩
        | failed => exact ⟨_, List.mem_cons_self, id⟩
        | received more =>
            simp only
            split
            · rename_i empty
              apply obtains_starved
              rw [empty, List.length_nil]
              omega
            · apply Obtains.step _ (Nat.min_le_right _ _)
              rw [Nat.sub_sub, ← List.length_append]
              exact ih
      · exact finish ‹_›

theorem readExactly_value {bytes : Nat} {all rest : Bytes} {left : List RecvCall}
    (read : readExactly ending bytes [] incoming recvs = .value all rest left) :
    all.length = bytes ∧ incoming = all ++ rest ∧ left <:+ recvs := by
  have spec : Obtains ending [] bytes incoming recvs (readExactly ending bytes [] incoming recvs) :=
    readExactly_spec bytes
  rw [read] at spec
  obtain ⟨enough, rfl, rfl, suffix⟩ := spec
  rw [List.nil_append, List.length_take]
  exact ⟨Nat.min_eq_left enough, (List.take_append_drop bytes incoming).symm, suffix⟩

theorem readExactly_progresses (progresses : ∀ call ∈ recvs, call.Progresses) (bytes : Nat)
    (incoming : Bytes) :
    (bytes ≤ incoming.length → ∃ left, left <:+ recvs ∧
      readExactly ending bytes [] incoming recvs =
        .value (incoming.take bytes) (incoming.drop bytes) left) ∧
    (incoming.length < bytes → readExactly ending bytes [] incoming recvs = starved ending) := by
  have spec : Obtains ending [] bytes incoming recvs (readExactly ending bytes [] incoming recvs) :=
    readExactly_spec bytes
  generalize readExactly ending bytes [] incoming recvs = received at spec
  cases received with
  | value all rest left =>
      obtain ⟨enough, rfl, rfl, suffix⟩ := spec
      exact ⟨fun _ => ⟨left, suffix, rfl⟩, fun short => absurd enough (not_le.mpr short)⟩
  | ended =>
      obtain ⟨short, rfl⟩ := spec
      exact ⟨fun enough => absurd short (not_lt.mpr enough), fun _ => rfl⟩
  | waiting =>
      obtain ⟨short, rfl⟩ := spec
      exact ⟨fun enough => absurd short (not_lt.mpr enough), fun _ => rfl⟩
  | threw =>
      obtain ⟨call, member, stuck⟩ := spec
      exact absurd (progresses call member) stuck

theorem readExactly_front (progresses : ∀ call ∈ recvs, call.Progresses) (ahead rest : Bytes) :
    ∃ left, left <:+ recvs ∧
      readExactly ending ahead.length [] (ahead ++ rest) recvs = .value ahead rest left := by
  have enough : ahead.length ≤ (ahead ++ rest).length := by simp
  simpa using (readExactly_progresses progresses ahead.length (ahead ++ rest)).1 enough

theorem length_lt_of_allowed {payload : Bytes} (allowed : payload.length ≤ kMaxPayloadSize) :
    payload.length < 2 ^ 32 := by
  simp only [kMaxPayloadSize] at allowed
  omega

theorem readFrame_sound {payload rest : Bytes} {left : List RecvCall}
    (read : readFrame ending incoming recvs = .frame payload rest left) :
    payload.length ≤ kMaxPayloadSize ∧
      incoming = bigEndian payload.length ++ payload ++ rest := by
  unfold readFrame at read
  split at read
  · simp at read
  · simp at read
  · simp at read
  · rename_i header body bodyRecvs headerRead
    obtain ⟨four, rfl, _⟩ := readExactly_value headerRead
    simp only at read
    split at read
    · simp at read
    · rename_i allowed
      split at read
      · rename_i empty
        obtain ⟨rfl, rfl, _⟩ := FrameReceived.frame.inj read
        refine ⟨Nat.zero_le _, ?_⟩
        rw [List.length_nil, ← empty, bigEndian_fromBigEndian four, List.append_nil]
      · split at read
        · simp at read
        · simp at read
        · simp at read
        · rename_i bodyRead
          obtain ⟨size, rfl, _⟩ := readExactly_value bodyRead
          obtain ⟨rfl, rfl, _⟩ := FrameReceived.frame.inj read
          refine ⟨size ▸ not_lt.mp allowed, ?_⟩
          rw [size, bigEndian_fromBigEndian four, List.append_assoc]

theorem readFrame_frame {payload : Bytes} (rest : Bytes)
    (progresses : ∀ call ∈ recvs, call.Progresses) (allowed : payload.length ≤ kMaxPayloadSize) :
    ∃ left, left <:+ recvs ∧ readFrame ending (bigEndian payload.length ++ payload ++ rest) recvs =
      .frame payload rest left := by
  have bound := length_lt_of_allowed allowed
  obtain ⟨bodyRecvs, suffix, headerRead⟩ := @readExactly_front ending recvs progresses
    (bigEndian payload.length) (payload ++ rest)
  obtain ⟨left, bodySuffix, bodyRead⟩ := @readExactly_front ending bodyRecvs
    (fun call member => progresses call (suffix.subset member)) payload rest
  rw [bigEndian_length] at headerRead
  rw [List.append_assoc, readFrame, headerRead]
  simp only [fromBigEndian_bigEndian_of_lt bound, if_neg (not_lt.mpr allowed), bodyRead]
  split
  · rename_i empty
    obtain rfl := List.length_eq_zero_iff.mp empty
    exact ⟨bodyRecvs, suffix, rfl⟩
  · exact ⟨left, bodySuffix.trans suffix, rfl⟩

theorem readFrames_frames {payloads : List Bytes} (following : Bytes)
    (progresses : ∀ call ∈ recvs, call.Progresses)
    (allowed : ∀ payload ∈ payloads, payload.length ≤ kMaxPayloadSize) :
    ∃ left, left <:+ recvs ∧
      readFrames ending payloads.length (frameBytes payloads ++ following) recvs =
        some (payloads, following, left) := by
  induction payloads generalizing recvs with
  | nil => exact ⟨recvs, List.suffix_refl _, rfl⟩
  | cons payload rest ih =>
      obtain ⟨others, suffix, read⟩ := @readFrame_frame ending recvs payload
        (frameBytes rest ++ following) progresses (allowed payload List.mem_cons_self)
      obtain ⟨left, later, reads⟩ := @ih others
        (fun call member => progresses call (suffix.subset member))
        fun other member => allowed other (List.mem_cons_of_mem _ member)
      refine ⟨left, later.trans suffix, ?_⟩
      rw [frameBytes_cons, List.append_assoc, List.length_cons, readFrames, read]
      simp only [reads, Option.map_some]

/-! The servers read segments; the calls that bring these make no difference. -/

theorem readExactly_segments {segments : List Bytes} (filled : ∀ segment ∈ segments, segment ≠ [])
    (progresses : ∀ call ∈ recvs, call.Progresses) (bytes : Nat) :
    match KafkaBroker.readExactly ending segments bytes [] with
    | .value all rest => (∀ segment ∈ rest, segment ≠ []) ∧ ∃ left, left <:+ recvs ∧
        readExactly ending bytes [] segments.flatten recvs = .value all rest.flatten left
    | .ended => readExactly ending bytes [] segments.flatten recvs = .ended
    | .waiting => readExactly ending bytes [] segments.flatten recvs = .waiting := by
  obtain ⟨enough, short⟩ := KafkaBroker.readExactly_spec ending filled bytes []
  obtain ⟨reads, starves⟩ := @readExactly_progresses ending recvs progresses bytes segments.flatten
  by_cases complete : bytes ≤ segments.flatten.length
  · obtain ⟨rest, read, restEq, restFilled⟩ := enough complete
    rw [read, List.nil_append]
    refine ⟨restFilled, ?_⟩
    rw [restEq]
    exact reads complete
  · rw [short (not_le.mp complete), starves (not_le.mp complete)]
    cases ending <;> rfl

theorem readFrame_segments {segments : List Bytes} (filled : ∀ segment ∈ segments, segment ≠ [])
    (progresses : ∀ call ∈ recvs, call.Progresses) :
    match KafkaBroker.readFrame ending segments with
    | .frame payload rest => ∃ left, left <:+ recvs ∧
        readFrame ending segments.flatten recvs = .frame payload rest.flatten left
    | .closed => readFrame ending segments.flatten recvs = .closed
    | .waiting => readFrame ending segments.flatten recvs = .waiting
    | .threw => readFrame ending segments.flatten recvs = .threw := by
  have header := @readExactly_segments ending recvs segments filled progresses 4
  unfold KafkaBroker.readFrame readFrame
  generalize KafkaBroker.readExactly ending segments 4 [] = headerRead at header
  cases headerRead with
  | ended => simp only [header]
  | waiting => simp only [header]
  | value first rest =>
      obtain ⟨restFilled, others, suffix, same⟩ := header
      have body := @readExactly_segments ending others rest restFilled
        (fun call member => progresses call (suffix.subset member)) (fromBigEndian first)
      simp only [same]
      by_cases oversized : fromBigEndian first > kMaxPayloadSize
      · simp only [oversized, if_true]
      simp only [oversized, if_false]
      by_cases empty : fromBigEndian first = 0
      · simp only [empty, if_true, KafkaBroker.readExactly]
        exact ⟨others, suffix, rfl⟩
      simp only [empty, if_false]
      generalize KafkaBroker.readExactly ending rest (fromBigEndian first) [] = bodyRead at body
      cases bodyRead with
      | ended => simp only [body]
      | waiting => simp only [body]
      | value payload after =>
          obtain ⟨_, left, bodySuffix, bodySame⟩ := body
          simp only [bodySame]
          exact ⟨left, bodySuffix.trans suffix, rfl⟩

/-! Both ends. -/

theorem frame_cancel {first second rest others : Bytes} (firstBound : first.length < 2 ^ 32)
    (secondBound : second.length < 2 ^ 32)
    (same : bigEndian first.length ++ first ++ rest = bigEndian second.length ++ second ++ others) :
    first = second ∧ rest = others := by
  rw [List.append_assoc, List.append_assoc] at same
  obtain ⟨headers, bodies⟩ := List.append_inj same (by simp)
  have lengths : first.length = second.length := by
    rw [← fromBigEndian_bigEndian_of_lt firstBound, headers,
      fromBigEndian_bigEndian_of_lt secondBound]
  exact List.append_inj bodies lengths

theorem readFrames_sound {count : Nat} {payloads : List Bytes} {rest : Bytes}
    {left : List RecvCall}
    (read : readFrames ending count incoming recvs = some (payloads, rest, left)) :
    payloads.length = count ∧ (∀ payload ∈ payloads, payload.length ≤ kMaxPayloadSize) ∧
      incoming = frameBytes payloads ++ rest := by
  induction count generalizing incoming recvs payloads with
  | zero =>
      simp only [readFrames, Option.some.injEq, Prod.mk.injEq] at read
      obtain ⟨rfl, rfl, rfl⟩ := read
      exact ⟨rfl, by simp, rfl⟩
  | succ count ih =>
      simp only [readFrames] at read
      split at read
      · rename_i payload after others frameRead
        obtain ⟨allowed, rfl⟩ := readFrame_sound frameRead
        simp only [Option.map_eq_some_iff, Prod.mk.injEq, Prod.exists] at read
        obtain ⟨later, _, _, reads, rfl, rfl, rfl⟩ := read
        obtain ⟨rfl, laterAllowed, rfl⟩ := ih reads
        refine ⟨rfl, ?_, ?_⟩
        · simpa using ⟨allowed, laterAllowed⟩
        · simp only [frameBytes_cons, List.append_assoc]
      · simp at read

theorem prefix_of_frameBytes {read payloads : List Bytes}
    (readAllowed : ∀ payload ∈ read, payload.length ≤ kMaxPayloadSize)
    (allowed : ∀ payload ∈ payloads, payload.length ≤ kMaxPayloadSize)
    (starts : frameBytes read <+: frameBytes payloads) : read <+: payloads := by
  induction read generalizing payloads with
  | nil => exact List.nil_prefix
  | cons first rest ih =>
      obtain ⟨more, whole⟩ := starts
      cases payloads with
      | nil => simp [frameBytes, bigEndian] at whole
      | cons second others =>
          simp only [List.forall_mem_cons] at readAllowed allowed
          rw [frameBytes_cons, frameBytes_cons, List.append_assoc] at whole
          obtain ⟨rfl, tails⟩ := frame_cancel (length_lt_of_allowed readAllowed.1)
            (length_lt_of_allowed allowed.1) whole
          rw [List.cons_prefix_cons]
          exact ⟨rfl, ih readAllowed.2 allowed.2 ⟨more, tails⟩⟩

/-- Whatever either side's calls come to, the payloads read are the first ones written. -/
theorem delivered_in_order {payloads read : List Bytes} {count : Nat} {stream rest : Bytes}
    {left : List RecvCall} (allowed : ∀ payload ∈ payloads, payload.length ≤ kMaxPayloadSize)
    (sent : writeFrames payloads [] sends = .threw stream ∨
      ∃ unmade, writeFrames payloads [] sends = .returned stream unmade)
    (received : readFrames ending count stream recvs = some (read, rest, left)) :
    read <+: payloads := by
  have carries : Carries (frameBytes payloads) [] sends False (writeFrames payloads [] sends) :=
    writeFrames_spec fun payload member oversized => not_lt.mpr (allowed payload member) oversized
  have starts : stream <+: frameBytes payloads := by
    rcases sent with threw | ⟨unmade, returned⟩
    · rw [threw] at carries
      obtain ⟨⟨part, starts, rfl⟩, _⟩ := carries
      exact starts
    · rw [returned] at carries
      obtain ⟨rfl, _⟩ := carries
      exact List.prefix_refl _
  obtain ⟨_, readAllowed, rfl⟩ := readFrames_sound received
  exact prefix_of_frameBytes readAllowed allowed ((List.prefix_append _ _).trans starts)

theorem readFrames_cut {payloads : List Bytes} {payload cut : Bytes}
    (allowed : ∀ other ∈ payload :: payloads, other.length ≤ kMaxPayloadSize)
    (starts : cut <+: bigEndian payload.length ++ payload)
    (inside : cut ≠ bigEndian payload.length ++ payload) :
    readFrames ending (payloads.length + 1) (frameBytes payloads ++ cut) recvs = none := by
  cases read : readFrames ending (payloads.length + 1) (frameBytes payloads ++ cut) recvs with
  | none => rfl
  | some result =>
      exfalso
      obtain ⟨found, rest, left⟩ := result
      obtain ⟨size, foundAllowed, stream⟩ := readFrames_sound read
      have whole : frameBytes (payloads ++ [payload]) =
          frameBytes payloads ++ (bigEndian payload.length ++ payload) := by
        simp [frameBytes]
      have within : frameBytes found <+: frameBytes (payloads ++ [payload]) := by
        rw [whole]
        calc frameBytes found
            <+: frameBytes payloads ++ cut := stream ▸ List.prefix_append _ _
          _ <+: _ := (List.prefix_append_right_inj _).mpr starts
      have sameAllowed : ∀ other ∈ payloads ++ [payload], other.length ≤ kMaxPayloadSize := by
        intro other member
        exact allowed other (by simpa [or_comm] using member)
      -- as many payloads as were sent, the cut one among them
      have all := (prefix_of_frameBytes foundAllowed sameAllowed within).eq_of_length
        (by simpa using size)
      rw [all, whole, List.append_assoc, List.append_cancel_left_eq] at stream
      have longer := congrArg List.length stream
      rw [List.length_append] at longer
      exact inside (starts.eq_of_length (Nat.le_antisymm starts.length_le (by omega)))

end BlockingSocket

open BlockingSocket

/-- Frames are read back as they were written, however their bytes are cut up; nothing of a
payload that is too long is sent, and a stream that ends inside a frame does not yield it. -/
theorem frames_roundTrip :
    (∀ (payloads : List Bytes) (following : Bytes) (ending : Ending) (sends : List SendCall)
        (recvs : List RecvCall), (∀ payload ∈ payloads, payload.length ≤ kMaxPayloadSize) →
      (∀ call ∈ sends, call.Progresses) → (∀ call ∈ recvs, call.Progresses) →
      ∃ transmitted unmadeSends unmadeRecvs,
        writeFrames payloads [] sends = .returned transmitted unmadeSends ∧
        readFrames ending payloads.length (transmitted ++ following) recvs =
          some (payloads, following, unmadeRecvs)) ∧
    (∀ (payload sent : Bytes) (sends : List SendCall), kMaxPayloadSize < payload.length →
      BlockingSocket.writeFrame payload sent sends = .threw sent) ∧
    ∀ (payloads : List Bytes) (payload cut : Bytes) (ending : Ending) (recvs : List RecvCall),
      (∀ other ∈ payload :: payloads, other.length ≤ kMaxPayloadSize) →
      cut <+: bigEndian payload.length ++ payload → cut ≠ bigEndian payload.length ++ payload →
      (∀ read rest left, BlockingSocket.readFrame ending cut recvs ≠ .frame read rest left) ∧
        readFrames ending (payloads.length + 1) (frameBytes payloads ++ cut) recvs = none := by
  refine ⟨?_, ?_, ?_⟩
  · intro payloads following ending sends recvs allowed sendsProgress recvsProgress
    have carries : Carries (frameBytes payloads) [] sends False (writeFrames payloads [] sends) :=
      writeFrames_spec fun payload member oversized =>
        not_lt.mpr (allowed payload member) oversized
    obtain ⟨unmadeRecvs, _, read⟩ :=
      @readFrames_frames ending recvs payloads following recvsProgress allowed
    cases written : writeFrames payloads [] sends with
    | returned transmitted unmadeSends =>
        rw [written] at carries
        obtain ⟨rfl, _⟩ := carries
        exact ⟨_, unmadeSends, unmadeRecvs, rfl, read⟩
    | threw part =>
        rw [written] at carries
        obtain ⟨_, fault | ⟨call, member, stuck⟩⟩ := carries
        · exact absurd fault id
        · exact absurd (sendsProgress call member) stuck
  · intro payload sent sends oversized
    rw [BlockingSocket.writeFrame, if_pos oversized]
  · intro payloads payload cut ending recvs allowed starts inside
    refine ⟨?_, readFrames_cut allowed starts inside⟩
    intro read rest left found
    have alone : ∀ other ∈ [payload], other.length ≤ kMaxPayloadSize := by
      simpa using allowed payload List.mem_cons_self
    have none := @readFrames_cut ending recvs [] payload cut alone starts inside
    simp [readFrames, frameBytes, found] at none

theorem frames_roundTrip_short :
    ∃ transmitted unmadeSends unmadeRecvs,
      writeFrames [ascii "PING", [], ascii "OK"] []
          [.accepted 1, .interrupted, .accepted 2, .accepted 9, .interrupted] =
        .returned transmitted unmadeSends ∧
      readFrames .silent 3 (transmitted ++ [0, 0]) [.interrupted, .received 0, .received 6] =
        some ([ascii "PING", [], ascii "OK"], [0, 0], unmadeRecvs) := by
  exact frames_roundTrip.1 [ascii "PING", [], ascii "OK"] [0, 0] .silent _ _ (by decide)
    (by simp [SendCall.Progresses]) (by simp [RecvCall.Progresses])

end KafkaBroker
