import KafkaBroker.Cluster
import KafkaBroker.Connections
import KafkaBroker.EventLoop
import KafkaBroker.Fetching

/-!
The event loop as one of the interleavings of `Connections`: each entry of `events` is a
run of the connections' own steps. What holds of all interleavings holds of `EpollServer`.
-/

namespace KafkaBroker

open ByteText Transition

/-- The broker behind the event loop, with what its calls will meet during the requests to
come; none of them kills the process. -/
structure Attended (σ : Type) where
  world : World σ
  upcoming : Nat → { env : Environment σ // env.calls.Survived }

variable {σ : Type}

def attendedCalls : BrokerCalls (Attended σ) where
  handleRequest attended req :=
    let handled := KafkaBroker.handleRequest (attended.upcoming 0).1 attended.world req
    (⟨handled.2, fun count => attended.upcoming (count + 1)⟩,
      match handled.1 with
      | .returned response => some response
      | _ => none)
  removeConsumerFromGroup attended groupId consumerId :=
    { attended with
      world := withGroups attended.world
        (KafkaBroker.removeConsumerFromGroup attended.world.broker.consumerGroups groupId
          consumerId) }

/-- The same broker and the same lists of memberships; between two entries of `events` all
connections are idle, and one that is about to be closed has its list before it. -/
structure Matches (closing : Option Nat) (loop : EventLoop (Attended σ)) (server : ServerState σ) :
    Prop where
  world : server.world = loop.broker.world
  connections : ∀ fd, server.connections.find fd = (loop.clients.find fd).map fun client =>
    ⟨client.joinedGroups, if closing = some fd then .closing client.joinedGroups else .idle⟩

section Client

variable {loop : EventLoop (Attended σ)} {server : ServerState σ} {fd : Nat} {client : EpollClient}

theorem removals_reached (connection : Nat) (joinedGroups : List Membership) :
    ∀ (memberships : List Membership) (server : ServerState σ) (attended : Attended σ),
      server.world = attended.world →
      server.connections.find fd = some ⟨joinedGroups, .closing memberships⟩ →
      ∃ last, Reaches serverStep server last ∧
        last.world = ((memberships.map (Operation.remove connection)).foldl
          (fun broker operation => (attendedCalls.perform broker operation).getD broker)
            attended).world ∧
        last.connections.find fd = none ∧
        ∀ other, other ≠ fd → last.connections.find other = server.connections.find other := by
  intro memberships
  induction memberships with
  | nil =>
      intro server attended world found
      have stepped : serverStep server (.close fd) =
          some { server with connections := server.connections.remove fd } := by
        simp [serverStep, found]
      refine ⟨_, Reaches.step stepped (.refl ..), world, by simp, fun other different => ?_⟩
      simp [different]
  | cons membership rest ih =>
      intro server attended world found
      obtain ⟨next, stepped, kept, listed⟩ : ∃ next, serverStep server (.remove fd) =
            some (ServerState.update next fd ⟨joinedGroups, .closing rest⟩) ∧
          next.connections = server.connections ∧
          next.world = (attendedCalls.removeConsumerFromGroup attended membership.1
            membership.2).world := by
        refine ⟨{ server with
          world := withGroups server.world
            (removeConsumerFromGroup server.groups membership.1 membership.2) },
          by simp [serverStep, found], rfl, ?_⟩
        simp only [ServerState.groups, world]
        rfl
      obtain ⟨last, reached, same, closed, others⟩ := ih
        (next.update fd ⟨joinedGroups, .closing rest⟩) _ listed (update_find_self next fd _)
      refine ⟨last, Reaches.step stepped reached, same, closed, fun other different => ?_⟩
      rw [others other different, update_find, if_neg different, kept]

theorem Matches.closeClient (matched : Matches (some fd) loop server)
    (found : loop.clients.find fd = some client) :
    ∃ last, Reaches serverStep server last ∧
      Matches none (loop.closeClient attendedCalls fd) last := by
  have listed := matched.connections fd
  rw [found, Option.map_some, if_pos rfl] at listed
  obtain ⟨last, reached, world, closed, others⟩ :=
    removals_reached client.connection client.joinedGroups client.joinedGroups server loop.broker
      matched.world listed
  refine ⟨last, reached, ⟨?_, fun other => ?_⟩⟩
  · rw [world]
    simp [EventLoop.closeClient, found]
  · change _ = ((loop.clients.remove fd).find other).map _
    rw [Table.find_remove]
    by_cases here : other = fd
    · rw [here, closed, if_pos rfl]
      rfl
    · rw [others other here, matched.connections other, if_neg here]
      have different : ¬some fd = some other := fun same => here (Option.some.inj same).symm
      simp [different]

theorem Matches.hangup (matched : Matches none loop server)
    (found : loop.clients.find fd = some client) :
    ∃ last, Reaches serverStep server last ∧ Matches (some fd) loop last := by
  have listed := matched.connections fd
  rw [found, Option.map_some, if_neg (by simp)] at listed
  have stepped : serverStep server (.hangup fd) =
      some (server.update fd ⟨client.joinedGroups, .closing client.joinedGroups⟩) := by
    simp [serverStep, listed]
  refine ⟨_, Reaches.step stepped (.refl ..), matched.world, fun other => ?_⟩
  rw [update_find]
  by_cases here : other = fd
  · rw [here, found]
    simp
  · rw [if_neg here, matched.connections other]
    have different : ¬some fd = some other := fun same => here (Option.some.inj same).symm
    simp [different]

theorem Matches.disconnect (matched : Matches none loop server)
    (found : loop.clients.find fd = some client) :
    ∃ last, Reaches serverStep server last ∧
      Matches none (loop.closeClient attendedCalls fd) last := by
  obtain ⟨middle, reached, closing⟩ := matched.hangup found
  obtain ⟨last, later, closed⟩ := closing.closeClient found
  exact ⟨last, reached.trans later, closed⟩

theorem handleRequest_survived {env : Environment σ} (alive : env.calls.Survived)
    (world : World σ) (req : Request) : (handleRequest env world req).1 ≠ .crashed := by
  obtain ⟨_, _, _, _, crashed⟩ := handleRequest_eq env world req
  rw [ne_eq, crashed]
  unfold dispatch
  cases req.type with
  | produce => exact produce_ne_crashed fun log => alive log _ _
  | replicate => exact replicate_survived alive world.broker world.disk req
  | _ => simp

theorem respond_reached {joinedGroups : List Membership} {payload response : Bytes}
    {env : Environment σ} (idle : server.connections.find fd = some ⟨joinedGroups, .idle⟩)
    (answered : (handleRequest env server.world (parseRequest payload)).1 = .returned response)
    (sent : Bool) : ∃ last, Reaches serverStep server last ∧
      last.world = (handleRequest env server.world (parseRequest payload)).2 ∧
      ∀ other, last.connections.find other = if other = fd then
        some ⟨trackMembership joinedGroups (parseRequest payload) response,
          if sent = true ∧ response.length ≤ kMaxPayloadSize then .idle
          else .closing (trackMembership joinedGroups (parseRequest payload) response)⟩
        else server.connections.find other := by
  let tracked := trackMembership joinedGroups (parseRequest payload) response
  let executed : ServerState σ := ServerState.update
    { server with world := (handleRequest env server.world (parseRequest payload)).2 } fd
    ⟨joinedGroups, .executed (parseRequest payload) response⟩
  let recorded := executed.update fd ⟨tracked, .recorded response⟩
  let responded := recorded.update fd ⟨tracked,
    if sent = true ∧ response.length ≤ kMaxPayloadSize then .idle else .closing tracked⟩
  have first : serverStep server (.request fd payload env) = some executed := by
    simp [serverStep, idle, answered, executed]
  have second : serverStep executed (.record fd) = some recorded := by
    simp [serverStep, executed, recorded, tracked]
  have third : serverStep recorded (.respond fd sent) = some responded := by
    by_cases goesOn : sent = true ∧ response.length ≤ kMaxPayloadSize
    · simp only [serverStep, recorded, responded, update_find, if_true, if_pos goesOn]
    · simp only [serverStep, recorded, responded, update_find, if_true, if_neg goesOn]
  refine ⟨responded, .step first (.step second (.step third (.refl ..))), rfl, fun other => ?_⟩
  simp only [responded, recorded, executed, update_find]
  split
  · rfl
  · rfl

theorem throw_reached {joinedGroups : List Membership} {payload : Bytes} {env : Environment σ}
    (idle : server.connections.find fd = some ⟨joinedGroups, .idle⟩)
    (ended : (handleRequest env server.world (parseRequest payload)).1 = .threw) :
    ∃ last, Reaches serverStep server last ∧
      last.world = (handleRequest env server.world (parseRequest payload)).2 ∧
      ∀ other, last.connections.find other = if other = fd then
        some ⟨joinedGroups, .closing joinedGroups⟩ else server.connections.find other := by
  have stepped : serverStep server (.request fd payload env) = some (ServerState.update
      { server with world := (handleRequest env server.world (parseRequest payload)).2 } fd
      ⟨joinedGroups, .closing joinedGroups⟩) := by
    simp [serverStep, idle, ended]
  exact ⟨_, .step stepped (.refl ..), rfl, fun other => update_find ..⟩

theorem Matches.entry (matched : Matches none loop server) {next : EventLoop (Attended σ)}
    {last : ServerState σ} (after : EpollClient) (goesOn : Bool)
    (world : last.world = next.broker.world)
    (clients : ∀ other, next.clients.find other =
      if other = fd then some after else loop.clients.find other)
    (connections : ∀ other, last.connections.find other = if other = fd then
      some ⟨after.joinedGroups, if goesOn then .idle else .closing after.joinedGroups⟩
      else server.connections.find other) :
    Matches (if goesOn then none else some fd) next last := by
  refine ⟨world, fun other => ?_⟩
  rw [connections, clients]
  by_cases here : other = fd
  · rw [here]
    cases goesOn with
    | true => simp
    | false => simp
  · rw [if_neg here, if_neg here, matched.connections other]
    have different : ¬some fd = some other := fun same => here (Option.some.inj same).symm
    cases goesOn with
    | true => rfl
    | false => simp [different]

theorem Matches.serveFrame (matched : Matches none loop server)
    (found : loop.clients.find fd = some client) (payload : Bytes) (registered : Bool) :
    ∃ last, Reaches serverStep server last ∧
      Matches (if (loop.serveFrame attendedCalls fd payload registered).1 then none else some fd)
        (loop.serveFrame attendedCalls fd payload registered).2 last := by
  have idle := matched.connections fd
  rw [found, Option.map_some, if_neg (by simp)] at idle
  have alive := handleRequest_survived (loop.broker.upcoming 0).2 loop.broker.world
    (parseRequest payload)
  simp only [EventLoop.serveFrame, found, attendedCalls]
  cases ended : (handleRequest (loop.broker.upcoming 0).1 loop.broker.world
      (parseRequest payload)).1 with
  | crashed => exact absurd ended alive
  | threw =>
      obtain ⟨last, reached, world, connections⟩ := throw_reached idle (matched.world ▸ ended)
      rw [matched.world] at world
      refine ⟨last, reached, matched.entry client false world ?_ connections⟩
      intro other
      split_ifs with here
      · rw [here, found]
      · rfl
  | returned response =>
      by_cases oversized : response.length > kMaxPayloadSize
      · obtain ⟨last, reached, world, connections⟩ :=
          respond_reached idle (matched.world ▸ ended) true
        rw [matched.world] at world
        simp only [oversized, if_true]
        refine ⟨last, reached, matched.entry _ false world
          (fun other => EventLoop.setClient_find _ fd other _) ?_⟩
        simpa [not_le.mpr oversized] using connections
      · -- `queue_response` fails with its `epoll_ctl`
        obtain ⟨last, reached, world, connections⟩ := respond_reached idle (matched.world ▸ ended)
          (client.outgoing.queueResponse response registered).1
        rw [matched.world] at world
        simp only [oversized, if_false, EventLoop.queueResponse, EventLoop.setClient_find, if_true]
        refine ⟨last, reached, matched.entry { client with
          joinedGroups := trackMembership client.joinedGroups (parseRequest payload) response
          outgoing := (client.outgoing.queueResponse response registered).2 } _ world
          (fun other => ?_) ?_⟩
        · rw [EventLoop.setClient_find, EventLoop.setClient_find]
          split_ifs
          · rfl
          · rfl
        · simpa [not_lt.mp oversized] using connections

theorem Matches.extractCompleteFrames {loop : EventLoop (Attended σ)} {buffer : Bytes}
    {registered : List Bool} : ∀ {server : ServerState σ},
    Matches none loop server → (loop.clients.find fd).isSome = true →
    ∃ last, Reaches serverStep server last ∧
      Matches (if (EventLoop.extractCompleteFrames attendedCalls fd loop buffer registered).1
          then none else some fd)
        (EventLoop.extractCompleteFrames attendedCalls fd loop buffer registered).2.1 last := by
  fun_induction EventLoop.extractCompleteFrames attendedCalls fd loop buffer registered with
  | case1 =>
      intro server matched present
      exact ⟨server, .refl .., matched⟩
  | case2 =>
      intro server matched present
      obtain ⟨client, found⟩ := Option.isSome_iff_exists.mp present
      exact matched.hangup found
  | case3 =>
      intro server matched present
      exact ⟨server, .refl .., matched⟩
  | case4 loop buffer registered header payloadLength allowed frameSize complete payload served =>
      rename_i goesOn ih
      intro server matched present
      obtain ⟨client, found⟩ := Option.isSome_iff_exists.mp present
      obtain ⟨middle, reached, answered⟩ :=
        matched.serveFrame found payload (registered.headD true)
      rw [if_pos goesOn] at answered
      obtain ⟨last, later, extracted⟩ :=
        ih answered (EventLoop.serveFrame_stored present payload _)
      exact ⟨last, reached.trans later, extracted⟩
  | case5 loop buffer registered header payloadLength allowed frameSize complete payload =>
      rename_i served stops
      intro server matched present
      obtain ⟨client, found⟩ := Option.isSome_iff_exists.mp present
      obtain ⟨last, reached, answered⟩ :=
        matched.serveFrame found payload (registered.headD true)
      rw [if_neg stops] at answered
      exact ⟨last, reached, answered⟩

theorem Matches.setClient {closing : Option Nat} (matched : Matches closing loop server)
    (found : loop.clients.find fd = some client) (after : EpollClient)
    (same : after.joinedGroups = client.joinedGroups) :
    Matches closing (loop.setClient fd after) server := by
  refine ⟨matched.world, fun other => ?_⟩
  rw [EventLoop.setClient_find]
  by_cases here : other = fd
  · rw [if_pos here, here, matched.connections fd, found, Option.map_some, Option.map_some, same]
  · rw [if_neg here]
    exact matched.connections other

theorem Matches.receive (matched : Matches none loop server)
    (found : loop.clients.find fd = some client) (bytes : Bytes) (registered : List Bool) :
    ((loop.receive attendedCalls fd bytes registered).2.clients.find fd).isSome = true ∧
      ∃ last, Reaches serverStep server last ∧
        Matches (if (loop.receive attendedCalls fd bytes registered).1 then none else some fd)
          (loop.receive attendedCalls fd bytes registered).2 last := by
  have appended : ((loop.setClient fd
      { client with received := client.received ++ bytes }).clients.find fd).isSome = true := by
    rw [EventLoop.setClient_find, if_pos rfl]
    rfl
  obtain ⟨last, reached, extracted⟩ := Matches.extractCompleteFrames
    (matched.setClient found { client with received := client.received ++ bytes } rfl) appended
  obtain ⟨after, stored⟩ := Option.isSome_iff_exists.mp
    (EventLoop.extractCompleteFrames_stored _ (client.readBuffer ++ bytes) registered appended)
  simp only [EventLoop.receive, found]
  rw [stored]
  refine ⟨by simp, last, reached, ?_⟩
  exact extracted.setClient stored { after with readBuffer := _ } rfl

theorem Matches.readFromClient (recvs : List RecvResult) : ∀ {loop : EventLoop (Attended σ)}
    {server : ServerState σ}, Matches none loop server → (loop.clients.find fd).isSome = true →
    ∃ last, Reaches serverStep server last ∧
      Matches none (loop.readFromClient attendedCalls fd recvs) last := by
  induction recvs with
  | nil =>
      intro loop server matched _
      exact ⟨server, .refl .., matched⟩
  | cons call rest ih =>
      intro loop server matched present
      obtain ⟨client, found⟩ := Option.isSome_iff_exists.mp present
      cases call with
      | interrupted => exact ih matched present
      | wouldBlock => exact ⟨server, .refl .., matched⟩
      | failed => exact matched.disconnect found
      | received chunk registered =>
          obtain ⟨still, middle, reached, received⟩ :=
            matched.receive found (chunk.take kReadBufferSize) registered
          obtain ⟨after, stored⟩ := Option.isSome_iff_exists.mp still
          simp only [EventLoop.readFromClient]
          split_ifs with ended goesOn
          · exact matched.disconnect found
          · rw [if_pos goesOn] at received
            obtain ⟨last, later, read⟩ := ih received still
            exact ⟨last, reached.trans later, read⟩
          · rw [if_neg goesOn] at received
            obtain ⟨last, later, closed⟩ := received.closeClient stored
            exact ⟨last, reached.trans later, closed⟩

theorem Matches.writeToClient (matched : Matches none loop server) (sends : List SendCall)
    (registered : Bool) : ∃ last, Reaches serverStep server last ∧
      Matches none (loop.writeToClient attendedCalls fd sends registered) last := by
  cases found : loop.clients.find fd with
  | none =>
      simp only [EventLoop.writeToClient, found]
      exact ⟨server, .refl .., matched⟩
  | some client =>
      have written := matched.setClient found { client with
        outgoing := client.outgoing.writeToClient sends registered } rfl
      simp only [EventLoop.writeToClient, found]
      split_ifs with closed
      · exact written.disconnect ((EventLoop.setClient_find ..).trans (if_pos rfl))
      · exact ⟨server, .refl .., written⟩

end Client

/-! The whole loop. -/

variable {loop next : EventLoop (Attended σ)} {initial : EventLoop (Attended σ)}
  {server : ServerState σ}

theorem Matches.acceptClients (accepts : List AcceptResult) :
    ∀ {loop next : EventLoop (Attended σ)} {server : ServerState σ},
    EventLoop.Sound attendedCalls initial loop → loop.running = true →
    Matches none loop server → loop.acceptClients accepts = some next →
    ∃ last, Reaches serverStep server last ∧ Matches none next last := by
  induction accepts with
  | nil =>
      intro loop next server _ _ matched accepted
      exact ⟨server, .refl .., Option.some.inj accepted ▸ matched⟩
  | cons call rest ih =>
      intro loop next server sound running matched accepted
      cases call with
      | interrupted => exact ih sound running matched accepted
      | wouldBlock => exact ⟨server, .refl .., Option.some.inj accepted ▸ matched⟩
      | failed => exact ⟨server, .refl .., Option.some.inj accepted ▸ matched⟩
      | accepted fd configured registered =>
          simp only [EventLoop.acceptClients] at accepted
          split_ifs at accepted with used ready
          · have free := matched.connections fd
            rw [sound.free used, Option.map_none] at free
            have stepped : serverStep server (.accept fd) = some (server.update fd {}) := by
              simp [serverStep, free]
            have admitted : Matches none (loop.enroll fd) (server.update fd {}) := by
              refine ⟨matched.world, fun other => ?_⟩
              rw [update_find]
              change _ = ((loop.clients.set fd { connection := loop.accepted }).find other).map _
              rw [Table.find_set]
              by_cases here : other = fd
              · rw [if_pos here, if_pos here]
                rfl
              · rw [if_neg here, if_neg here]
                exact matched.connections other
            obtain ⟨last, later, accepted⟩ :=
              ih (sound.enroll running used) running admitted accepted
            exact ⟨last, .step stepped later, accepted⟩
          · exact ih sound running matched accepted

theorem Matches.handleReady {event : ReadyEvent} {answers : KernelAnswers}
    (sound : EventLoop.Sound attendedCalls initial loop) (running : loop.running = true)
    (matched : Matches none loop server)
    (stepped : loop.handleReady attendedCalls event answers = some next) :
    ∃ last, Reaches serverStep server last ∧ Matches none next last := by
  simp only [EventLoop.handleReady] at stepped
  split at stepped
  · split at stepped
    · exact Matches.acceptClients answers.accepts sound running matched stepped
    · exact ⟨server, .refl .., Option.some.inj stepped ▸ matched⟩
  · cases found : loop.clients.find event.fd with
    | none =>
        simp only [found, Option.isNone_none, if_true, Option.some.injEq] at stepped
        exact ⟨server, .refl .., stepped ▸ matched⟩
    | some client =>
        simp only [found, Option.isNone_some, Bool.false_eq_true, if_false] at stepped
        obtain ⟨middle, reached, read⟩ : ∃ middle, Reaches serverStep server middle ∧
            Matches none (if event.readable = true then
              loop.readFromClient attendedCalls event.fd answers.recvs else loop) middle := by
          split
          · exact matched.readFromClient answers.recvs (by simp [found])
          · exact ⟨server, .refl .., matched⟩
        generalize (if event.readable = true then
          loop.readFromClient attendedCalls event.fd answers.recvs else loop) = after at read stepped
        split at stepped
        · exact Option.some.inj stepped ▸ matched.disconnect found
        · split at stepped
          · obtain ⟨last, later, written⟩ :=
              read.writeToClient answers.sends answers.registered
            exact ⟨last, reached.trans later, Option.some.inj stepped ▸ written⟩
          · exact ⟨middle, reached, Option.some.inj stepped ▸ read⟩

theorem matches_step {event : LoopEvent}
    (sound : EventLoop.Sound attendedCalls initial loop)
    (matched : loop.running = true → Matches none loop server)
    (stepped : loopStep attendedCalls loop event = some next) :
    ∃ last, Reaches serverStep server last ∧ (next.running = true → Matches none next last) := by
  cases event with
  | wait events =>
      simp only [loopStep] at stepped
      split at stepped
      · rw [Option.some.injEq] at stepped
        subst stepped
        refine ⟨server, .refl .., fun running => ?_⟩
        exact ⟨(matched running).world, (matched running).connections⟩
      · simp at stepped
  | handle answers =>
      simp only [loopStep] at stepped
      split at stepped
      · simp at stepped
      · rename_i event connection rest pending
        obtain ⟨running, popped, _⟩ := sound.popped pending
        have kept : Matches none { loop with ready := rest } server :=
          ⟨(matched running).world, (matched running).connections⟩
        obtain ⟨last, reached, after⟩ := kept.handleReady popped running stepped
        exact ⟨last, reached, fun _ => after⟩
  | waitFailed =>
      simp only [loopStep] at stepped
      split at stepped
      · rw [Option.some.injEq] at stepped
        subst stepped
        exact ⟨server, .refl .., fun running => absurd running Bool.false_ne_true⟩
      · simp at stepped

theorem covered_start {world : World σ} (fresh : world.broker.consumerGroups = ∅) :
    Covered (⟨world, ∅⟩ : ServerState σ) := by
  refine ⟨?_, by simp, ?_⟩
  · rintro membership ⟨group, found, _⟩
    simp [ServerState.groups, fresh] at found
  · intro groupId group found
    simp [ServerState.groups, fresh] at found

theorem AllBalanced.eq_empty {groups : ConsumerGroups} (balanced : AllBalanced groups)
    (deserted : ∀ membership, ¬IsMember groups membership) : groups = ∅ := by
  apply AList.ext
  rw [(Table.entries_eq_nil_iff _).mpr]
  · rfl
  · intro groupId
    by_contra stored
    obtain ⟨group, found⟩ := Option.ne_none_iff_exists'.mp stored
    have nonempty := (balanced groupId group found).nonempty
    rw [ne_eq, Table.entries_eq_nil_iff] at nonempty
    push Not at nonempty
    obtain ⟨consumerId, present⟩ := nonempty
    exact deserted (groupId, consumerId) ⟨group, found, Option.isSome_iff_ne_none.mpr present⟩

section Runs

variable {world : World σ} {upcoming : Nat → { env : Environment σ // env.calls.Survived }}
  {serverFd epollFd : Nat} {events : List LoopEvent} {final : EventLoop (Attended σ)}

theorem loop_matches (distinct : serverFd ≠ epollFd)
    (reached : run (loopStep attendedCalls) (.listening ⟨world, upcoming⟩ serverFd epollFd)
      events = some final) :
    ∃ server, Reaches serverStep ⟨world, ∅⟩ server ∧
      (final.running = true → Matches none final server) := by
  have start : EventLoop.Sound attendedCalls (.listening ⟨world, upcoming⟩ serverFd epollFd)
      (.listening ⟨world, upcoming⟩ serverFd epollFd) := EventLoop.listening_sound _ distinct
  obtain ⟨server, done, _, matched⟩ := run_simulated
    (fun loop server => EventLoop.Sound attendedCalls
        (.listening ⟨world, upcoming⟩ serverFd epollFd) loop ∧
      (loop.running = true → Matches none loop server))
    (fun loop event next server held stepped => by
      obtain ⟨last, reached, matched⟩ := matches_step held.1 held.2 stepped
      exact ⟨last, reached, EventLoop.sound_step loop event next held.1 stepped, matched⟩)
    ⟨world, ∅⟩ ⟨start, fun _ => ⟨rfl, fun _ => rfl⟩⟩ reached
  exact ⟨server, done, matched⟩

/-- A run of the event loop is an interleaving of the connections' steps, and ends with all
of them between two requests. -/
theorem event_loop_interleaves (distinct : serverFd ≠ epollFd)
    (reached : run (loopStep attendedCalls) (.listening ⟨world, upcoming⟩ serverFd epollFd)
      events = some final) (running : final.running = true) :
    ∃ steps server, run serverStep ⟨world, ∅⟩ steps = some server ∧
      server.world = final.broker.world ∧
      ∀ fd, server.connections.find fd =
        (final.clients.find fd).map fun client => ⟨client.joinedGroups, .idle⟩ := by
  obtain ⟨server, ⟨steps, done⟩, matched⟩ := loop_matches distinct reached
  exact ⟨steps, server, done, (matched running).world,
    by simpa using (matched running).connections⟩

/-- Of `EpollServer` therefore: every member of a group is on the list of a client that is
still connected, every topic's partitions are shared out among its subscribers, and with
the last client the last group is gone. -/
theorem event_loop_members_owned (fresh : world.broker.consumerGroups = ∅)
    (distinct : serverFd ≠ epollFd)
    (reached : run (loopStep attendedCalls) (.listening ⟨world, upcoming⟩ serverFd epollFd)
      events = some final) (running : final.running = true) :
    (∀ membership, IsMember final.broker.world.broker.consumerGroups membership →
        ∃ fd client, final.clients.find fd = some client ∧ membership ∈ client.joinedGroups) ∧
      AllBalanced final.broker.world.broker.consumerGroups ∧
      ((∀ fd, final.clients.find fd = none) →
        final.broker.world.broker.consumerGroups = ∅) := by
  obtain ⟨server, ⟨steps, done⟩, matched⟩ := loop_matches distinct reached
  have covered := run_invariant Covered covered_step (covered_start fresh) done
  have groups : server.groups = final.broker.world.broker.consumerGroups :=
    congrArg (fun world => world.broker.consumerGroups) (matched running).world
  have owned := covered.owned
  have balanced := covered.balanced
  rw [groups] at owned balanced
  have owners (membership : Membership)
      (member : IsMember final.broker.world.broker.consumerGroups membership) :
      ∃ fd client, final.clients.find fd = some client ∧ membership ∈ client.joinedGroups := by
    obtain ⟨fd, connection, found, owns⟩ := owned membership member
    rw [(matched running).connections fd, Option.map_eq_some_iff] at found
    obtain ⟨client, stored, rfl⟩ := found
    exact ⟨fd, client, stored, by simpa [Connection.owned] using owns⟩
  refine ⟨owners, balanced, fun closed => balanced.eq_empty fun membership member => ?_⟩
  obtain ⟨fd, client, listed, _⟩ := owners membership member
  simp [closed fd] at listed

end Runs

def steadyBroker : Attended Unit where
  world := freshWorld
  upcoming := fun _ => ⟨{ link := fun peer _ => (peer, none), calls := steadyCalls },
    steadyCalls_survived⟩

def joinedEvents : List LoopEvent :=
  [.wait [{ fd := 3, readable := true }],
    .handle { accepts := [.accepted 7 true true, .accepted 8 true true] },
    .wait [{ fd := 7, readable := true }, { fd := 8, readable := true }],
    .handle { recvs := [.received (frameBytes [ascii "JOIN g a t"]) [true], .received [0] []] },
    .handle { recvs := [.received (frameBytes [ascii "JOIN g b t"]) [true], .received [] []] }]

theorem joinedEvents_run : ∃ final, run (loopStep attendedCalls) (.listening steadyBroker 3 4)
    joinedEvents = some final ∧ final.running = true := by
  have evaluated : ((run (loopStep attendedCalls) (.listening steadyBroker 3 4)
      joinedEvents).map EventLoop.running) = some true := by
    decide +kernel
  exact Option.map_eq_some_iff.mp evaluated

theorem event_loop_interleaves_joined : ∃ final steps server,
    run (loopStep attendedCalls) (.listening steadyBroker 3 4) joinedEvents = some final ∧
      run serverStep ⟨freshWorld, ∅⟩ steps = some server ∧
      server.world = final.broker.world := by
  obtain ⟨final, reached, running⟩ := joinedEvents_run
  obtain ⟨steps, server, done, same, _⟩ := event_loop_interleaves (by decide) reached running
  exact ⟨final, steps, server, reached, done, same⟩

theorem event_loop_members_owned_joined : ∃ final,
    run (loopStep attendedCalls) (.listening steadyBroker 3 4) joinedEvents = some final ∧
      AllBalanced final.broker.world.broker.consumerGroups := by
  obtain ⟨final, reached, running⟩ := joinedEvents_run
  exact ⟨final, reached, (event_loop_members_owned rfl (by decide) reached running).2.1⟩

end KafkaBroker
