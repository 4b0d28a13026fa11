import KafkaBroker.Interleaving
import KafkaBroker.Locking
import KafkaBroker.ThreadsCore

/-!
The threads of `TcpServer` as an interleaving of `Connections`. There a request is one step
of the server; here it takes its two mutexes, one access at a time, and what the sequential
server can say about connections and memberships holds all the same.
-/

namespace KafkaBroker

open ByteText TwoPhase Transition

variable {σ : Type}

/-! Requests do not look at the counters. -/

def World.counting (world : World σ) (metrics : Metrics) : World σ :=
  { world with broker := { world.broker with metrics } }

theorem appendLocal_counting (broker : Broker) (metrics : Metrics) (disk : Posix.FileSystem)
    (calls : AppendCalls) (req : Request) :
    appendLocal { broker with metrics } disk calls req =
      ((appendLocal broker disk calls req).1,
        { (appendLocal broker disk calls req).2.1 with metrics },
        (appendLocal broker disk calls req).2.2) := by
  simp only [appendLocal]
  split
  · rfl
  · split
    · rfl
    · split <;> rfl

theorem replicate_counting (broker : Broker) (metrics : Metrics) (disk : Posix.FileSystem)
    (calls : AppendCalls) (req : Request) :
    replicate calls { broker with metrics } disk req =
      ((replicate calls broker disk req).1,
        { (replicate calls broker disk req).2.1 with metrics },
        (replicate calls broker disk req).2.2) := by
  simp only [replicate]
  split
  · rfl
  · split
    · rfl
    · split
      · rfl
      · split <;> rfl

theorem produce_counting {world : World σ} (standalone : world.broker.replicates = false)
    (env : Environment σ) (metrics : Metrics) (req : Request) :
    produce env (world.counting metrics) req =
      ((produce env world req).1, (produce env world req).2.counting metrics) := by
  have alone : (world.counting metrics).broker.replicates = false := standalone
  have apart := appendLocal_counting world.broker metrics world.disk env.calls req
  simp only [produce, standalone, alone]
  simp only [World.counting, apart]
  split <;> rfl

theorem dispatch_counting {world : World σ} (standalone : world.broker.replicates = false)
    (env : Environment σ) (metrics : Metrics) {req : Request} (counters : req.type ≠ .metrics) :
    dispatch env (world.counting metrics) req =
      ((dispatch env world req).1, (dispatch env world req).2.counting metrics) := by
  simp only [dispatch]
  cases type : req.type with
  | metrics => exact absurd type counters
  | produce => exact produce_counting standalone env metrics req
  | replicate =>
      have apart := replicate_counting world.broker metrics world.disk env.calls req
      simp only [World.counting, apart]
  | _ => rfl

/-! A connection as the sequential server sees it. -/

/-- A request that has not taken effect has not been made there. -/
inductive Sees : Option (CallState (BrokerCall σ) Answer) → TcpConnection → Connection → Prop
  | reading (joinedGroups : List Membership) : Sees none ⟨joinedGroups, .reading⟩ ⟨joinedGroups, .idle⟩
  | pending (joinedGroups : List Membership) (raw : Bytes) (env : Environment σ)
      (alive : env.calls.Survived) (counters : (parseRequest raw).type ≠ .metrics) :
      Sees (some (.pending (.request (parseRequest raw) env alive counters)))
        ⟨joinedGroups, .handling (parseRequest raw)⟩ ⟨joinedGroups, .idle⟩
  | performed (joinedGroups : List Membership) (req : Request) (reply : Reply) :
      Sees (some (.done (.replied (.returned reply)))) ⟨joinedGroups, .handling req⟩
        ⟨joinedGroups, .executed req reply.1⟩
  | threw (joinedGroups : List Membership) (req : Request) :
      Sees (some (.done (.replied .threw))) ⟨joinedGroups, .handling req⟩
        ⟨joinedGroups, .closing joinedGroups⟩
  | executed (joinedGroups : List Membership) (req : Request) (response : Bytes) :
      Sees none ⟨joinedGroups, .executed req response⟩ ⟨joinedGroups, .executed req response⟩
  | recorded (joinedGroups : List Membership) (response : Bytes) :
      Sees none ⟨joinedGroups, .recorded response⟩ ⟨joinedGroups, .recorded response⟩
  | closing (joinedGroups remaining : List Membership) :
      Sees none ⟨joinedGroups, .closing remaining⟩ ⟨joinedGroups, .closing remaining⟩
  | removing (joinedGroups remaining : List Membership) (membership : Membership) :
      Sees (some (.pending (.remove membership.1 membership.2)))
        ⟨joinedGroups, .removing remaining⟩ ⟨joinedGroups, .closing (membership :: remaining)⟩
  | removed (joinedGroups remaining : List Membership) :
      Sees (some (.done .removed)) ⟨joinedGroups, .removing remaining⟩
        ⟨joinedGroups, .closing remaining⟩

structure Serves (broker : Broker) (connections : Table Nat TcpConnection)
    (object : Object Nat (BrokerCall σ) Answer (Shared Guarded σ)) (server : ServerState σ) :
    Prop where
  world : ∃ metrics, server.world = (broker.facing object.state).counting metrics
  absent : ∀ id, connections.find id = none →
    object.calls id = none ∧ server.connections.find id = none
  present : ∀ id connection, connections.find id = some connection →
    ∃ shown, Sees (object.calls id) connection shown ∧ server.connections.find id = some shown

section Steps

variable {broker : Broker} {connections : Table Nat TcpConnection}
  {object last : Object Nat (BrokerCall σ) Answer (Shared Guarded σ)}
  {server next : ServerState σ} {id : Nat} {connection : TcpConnection} {shown : Connection}

theorem Serves.change (serves : Serves broker connections object server)
    {after : Table Nat TcpConnection} {stored : Option TcpConnection}
    (table : ∀ other, after.find other = if other = id then stored else connections.find other)
    (world : ∃ metrics, next.world = (broker.facing last.state).counting metrics)
    (calls : ∀ other, other ≠ id → last.calls other = object.calls other)
    (others : ∀ other, other ≠ id →
      next.connections.find other = server.connections.find other)
    (absent : stored = none → last.calls id = none ∧ next.connections.find id = none)
    (present : ∀ connection, stored = some connection →
      ∃ shown, Sees (last.calls id) connection shown ∧ next.connections.find id = some shown) :
    Serves broker after last next := by
  refine ⟨world, fun other free => ?_, fun other connection found => ?_⟩
  · by_cases same : other = id
    · rw [table, if_pos same] at free
      exact same ▸ absent free
    · rw [table, if_neg same] at free
      rw [calls other same, others other same]
      exact serves.absent other free
  · by_cases same : other = id
    · rw [table, if_pos same] at found
      exact same ▸ present connection found
    · rw [table, if_neg same] at found
      rw [calls other same, others other same]
      exact serves.present other connection found

theorem Serves.perform (serves : Serves broker connections object server)
    (standalone : broker.replicates = false)
    (performs : Performs (brokerPrograms broker) id object last) :
    ∃ next, Reaches serverStep server next ∧ Serves broker connections last next := by
  rcases performs with rfl | stepped
  · exact ⟨server, .refl .., serves⟩
  obtain ⟨metrics, world⟩ := serves.world
  cases called : object.calls id with
  | none => simp [objectStep, called] at stepped
  | some call =>
  cases call with
  | done answer => simp [objectStep, called] at stepped
  | pending call =>
  simp only [objectStep, called, Option.some.injEq] at stepped
  have alone := brokerPrograms_alone broker object.state call
  have after : broker.facing last.state = (performCall (broker.facing object.state) call).1 := by
    rw [← alone, ← stepped]
    rfl
  have calls : last.calls id =
      some (.done (performCall (broker.facing object.state) call).2) := by
    rw [← alone, ← stepped]
    exact Function.update_self ..
  have others (other : Nat) (different : other ≠ id) : last.calls other = object.calls other := by
    rw [← stepped]
    exact Function.update_of_ne different ..
  cases found : connections.find id with
  | none =>
      have free := (serves.absent id found).1
      rw [called] at free
      cases free
  | some connection =>
  obtain ⟨shown, sees, there⟩ := serves.present id connection found
  rw [called] at sees
  have kept (other : Nat) : connections.find other =
      if other = id then some connection else connections.find other := by
    split
    · rename_i same
      exact same ▸ found
    · rfl
  cases sees with
  | pending joinedGroups raw env alive counters =>
      have counted : dispatch env ((broker.facing object.state).counting metrics)
          (parseRequest raw) = _ := dispatch_counting standalone env metrics counters
      rw [← world] at counted
      obtain ⟨metrics, handled, returned, threw, _⟩ :=
        handleRequest_eq env server.world (parseRequest raw)
      have survived := handleRequest_survived alive server.world (parseRequest raw)
      rw [counted] at handled returned threw
      have state : ∃ metrics, (handleRequest env server.world (parseRequest raw)).2 =
          (broker.facing last.state).counting metrics :=
        ⟨metrics, by rw [handled, after]; rfl⟩
      cases ended : (handleRequest env server.world (parseRequest raw)).1 with
      | crashed => exact absurd ended survived
      | threw =>
          have requests : serverStep server (.request id raw env) = some (ServerState.update
              { server with world := (handleRequest env server.world (parseRequest raw)).2 } id
              ⟨joinedGroups, .closing joinedGroups⟩) := by
            simp only [serverStep, there, ended]
          refine ⟨_, Reaches.step requests (.refl ..), serves.change kept state others
            (fun other different => by rw [update_find, if_neg different]) (by simp) ?_⟩
          intro other same
          rw [calls, performCall, threw.mp ended, ← Option.some.inj same]
          exact ⟨_, .threw .., update_find_self ..⟩
      | returned response =>
          have requests : serverStep server (.request id raw env) = some (ServerState.update
              { server with world := (handleRequest env server.world (parseRequest raw)).2 } id
              ⟨joinedGroups, .executed (parseRequest raw) response⟩) := by
            simp only [serverStep, there, ended]
          obtain ⟨success, ended⟩ := (returned response).mp ended
          refine ⟨_, Reaches.step requests (.refl ..), serves.change kept state others
            (fun other different => by rw [update_find, if_neg different]) (by simp) ?_⟩
          intro other same
          rw [calls, performCall, ended, ← Option.some.inj same]
          exact ⟨_, .performed .., update_find_self ..⟩
  | removing joinedGroups remaining membership =>
      have removes : serverStep server (.remove id) = some (ServerState.update
          { server with
            world := withGroups server.world
              (removeConsumerFromGroup server.groups membership.1 membership.2) } id
          ⟨joinedGroups, .closing remaining⟩) := by
        simp only [serverStep, there]
      refine ⟨_, Reaches.step removes (.refl ..), serves.change kept ⟨metrics, ?_⟩ others
        (fun other different => by rw [update_find, if_neg different]) (by simp) ?_⟩
      · rw [after]
        change withGroups server.world _ = _
        rw [ServerState.groups, world]
        rfl
      · intro other same
        rw [calls, ← Option.some.inj same]
        exact ⟨_, .removed .., update_find_self ..⟩

end Steps

structure Shows (broker : Broker) (tcp : TcpServer σ)
    (object : Object Nat (BrokerCall σ) Answer (Shared Guarded σ)) (server : ServerState σ) :
    Prop where
  orderly : TwoPhase.Orderly Mutex.rank tcp.machine
  tracks : TwoPhase.Tracks (brokerPrograms broker) none tcp.machine object
  serves : Serves broker tcp.connections object server

section Threads

variable {broker : Broker} {tcp next : TcpServer σ}
  {object : Object Nat (BrokerCall σ) Answer (Shared Guarded σ)} {server : ServerState σ}
  {id : Nat} {connection after : TcpConnection} {shown seen : Connection}

theorem Shows.outside (shows : Shows broker tcp object server) {event : ServerEvent σ}
    (stepped : serverStep server event = some (server.update id seen))
    (sees : Sees (object.calls id) after seen) :
    ∃ object last, Reaches serverStep server last ∧ Shows broker (tcp.update id after) object last := by
  refine ⟨object, _, Reaches.step stepped (.refl ..), shows.orderly, shows.tracks, ?_⟩
  refine shows.serves.change (fun other => Table.find_set ..) shows.serves.world (fun _ _ => rfl)
    (fun other different => by rw [update_find, if_neg different]) (by simp) ?_
  intro stored same
  exact ⟨seen, Option.some.inj same ▸ sees, update_find_self ..⟩

theorem Shows.call (shows : Shows broker tcp object server)
    (standalone : broker.replicates = false) {call : BrokerCall σ}
    {machine : Machine Nat (BrokerCall σ) Answer Guarded σ}
    (called : machineStep (brokerPrograms broker) tcp.machine (.call id call) = some machine)
    (there : server.connections.find id = some shown)
    (sees : Sees (some (.pending call)) after shown) :
    ∃ object last, Reaches serverStep server last ∧
      Shows broker (TcpServer.update { tcp with machine } id after) object last := by
  obtain ⟨begun, last, calls, performs, tracks⟩ := tracks_call shows.tracks shows.orderly
    (brokerPrograms_wellLocked broker) (brokerPrograms_takesThenGives standalone call) called
  have middle : Serves broker (tcp.connections.set id after) begun server := by
    simp only [objectStep] at calls
    split at calls
    · simp at calls
    · rw [Option.some.injEq] at calls
      subst calls
      refine shows.serves.change (fun other => Table.find_set ..) shows.serves.world
        (fun other different => Function.update_of_ne different ..) (fun _ _ => rfl) (by simp) ?_
      intro stored same
      refine ⟨shown, ?_, there⟩
      rw [← Option.some.inj same]
      simpa using sees
  obtain ⟨server', reached, serves⟩ := middle.perform standalone performs
  exact ⟨last, server', reached,
    orderly_step (brokerPrograms_wellLocked broker) shows.orderly called, tracks, serves⟩

theorem Shows.advance (shows : Shows broker tcp object server)
    (standalone : broker.replicates = false) {program : Locking σ}
    {machine : Machine Nat (BrokerCall σ) Answer Guarded σ}
    (found : tcp.machine.running id = some program) (unfinished : ∀ answer, program ≠ .finish answer)
    (stepped : machineStep (brokerPrograms broker) tcp.machine (.step id) = some machine) :
    ∃ object last, Reaches serverStep server last ∧
      Shows broker { tcp with machine } object last := by
  have after := orderly_step (brokerPrograms_wellLocked broker) shows.orderly stepped
  have advanced : tcp.machine.advance id program = some machine := by
    simpa [machineStep, found] using stepped
  obtain ⟨last, performs, tracks⟩ :=
    tracks_advance shows.tracks shows.orderly after found unfinished advanced
  obtain ⟨server', reached, serves⟩ := shows.serves.perform standalone performs
  exact ⟨last, server', reached, after, tracks, serves⟩

theorem Shows.answer (shows : Shows broker tcp object server) {answer : Answer}
    {machine : Machine Nat (BrokerCall σ) Answer Guarded σ}
    (there : tcp.connections.find id = some connection)
    (found : tcp.machine.running id = some (.finish answer))
    (stepped : machineStep (brokerPrograms broker) tcp.machine (.step id) = some machine) :
    ∃ object last, Reaches serverStep server last ∧
      Shows broker (TcpServer.update { tcp with machine } id (connection.returned answer))
        object last := by
  have advanced : tcp.machine.advance id (.finish answer) = some machine := by
    simpa [machineStep, found] using stepped
  have done : object.calls id = some (.done answer) := by
    rcases (shows.tracks.fits id (by simp)).busy _ found with ⟨unsettled, _⟩ | performed
    · exact absurd trivial unsettled
    · exact performed.done
  obtain ⟨last, answered, tracks⟩ := tracks_finish shows.tracks shows.orderly found advanced
  simp only [objectStep, done, Option.some.injEq] at answered
  refine ⟨last, server, .refl .., orderly_step (brokerPrograms_wellLocked broker) shows.orderly
    stepped, tracks, ?_⟩
  obtain ⟨shown, sees, listed⟩ := shows.serves.present id connection there
  rw [done] at sees
  subst answered
  refine shows.serves.change (fun other => Table.find_set ..) shows.serves.world
    (fun other different => Function.update_of_ne different ..) (fun _ _ => rfl) (by simp) ?_
  intro stored same
  refine ⟨shown, ?_, listed⟩
  rw [← Option.some.inj same]
  simp only [Function.update_self]
  cases sees with
  | performed joinedGroups req reply => exact .executed ..
  | threw joinedGroups req => exact .closing ..
  | removed joinedGroups remaining => exact .closing ..

theorem shows_step (standalone : broker.replicates = false) {event : TcpEvent σ}
    (shows : Shows broker tcp object server) (stepped : tcpStep broker tcp event = some next) :
    ∃ object last, Reaches serverStep server last ∧ Shows broker next object last := by
  cases event with
  | accept id =>
      simp only [tcpStep] at stepped
      split at stepped
      · simp at stepped
      · rename_i free
        rw [Option.some.injEq] at stepped
        obtain ⟨called, missing⟩ := shows.serves.absent id (by simpa using free)
        have accepts : serverStep server (.accept id) = some (server.update id {}) := by
          simp [serverStep, missing]
        exact stepped ▸ shows.outside accepts (called ▸ .reading [])
  | request id raw env alive counters =>
      simp only [tcpStep] at stepped
      split at stepped
      · rename_i joinedGroups found
        obtain ⟨machine, called, rfl⟩ := Option.map_eq_some_iff.mp stepped
        obtain ⟨shown, sees, there⟩ := shows.serves.present id _ found
        generalize object.calls id = call at sees
        cases sees
        exact shows.call standalone called there (.pending ..)
      · simp at stepped
  | work id =>
      simp only [tcpStep] at stepped
      split at stepped
      · rename_i connection answer there found
        obtain ⟨machine, advanced, rfl⟩ := Option.map_eq_some_iff.mp stepped
        exact shows.answer there found advanced
      · rename_i apart
        obtain ⟨machine, advanced, rfl⟩ := Option.map_eq_some_iff.mp stepped
        obtain ⟨program, found, _⟩ := Option.bind_eq_some_iff.mp advanced
        refine shows.advance standalone found (fun answer same => ?_) advanced
        subst same
        cases there : tcp.connections.find id with
        | some connection => exact apart connection answer there found
        | none =>
            have free := (shows.serves.absent id there).1
            rcases (shows.tracks.fits id (by simp)).busy _ found with ⟨unsettled, _⟩ | performed
            · exact unsettled trivial
            · have done := performed.done
              rw [free] at done
              cases done
  | record id =>
      simp only [tcpStep] at stepped
      split at stepped
      · rename_i joinedGroups req response found
        rw [Option.some.injEq] at stepped
        obtain ⟨shown, sees, there⟩ := shows.serves.present id _ found
        generalize called : object.calls id = call at sees
        cases sees
        have records : serverStep server (.record id) = some (server.update id
            ⟨trackMembership joinedGroups req response, .recorded response⟩) := by
          simp only [serverStep, there]
        exact stepped ▸ shows.outside records (called ▸ .recorded ..)
      · simp at stepped
  | respond id sent =>
      simp only [tcpStep] at stepped
      split at stepped
      · rename_i joinedGroups response found
        obtain ⟨shown, sees, there⟩ := shows.serves.present id _ found
        generalize called : object.calls id = call at sees
        cases sees
        split at stepped
        · rename_i delivered
          rw [Option.some.injEq] at stepped
          have responds : serverStep server (.respond id sent) =
              some (server.update id ⟨joinedGroups, .idle⟩) := by
            simp only [serverStep, there, if_pos delivered]
          exact stepped ▸ shows.outside responds (called ▸ .reading ..)
        · rename_i failed
          rw [Option.some.injEq] at stepped
          have responds : serverStep server (.respond id sent) =
              some (server.update id ⟨joinedGroups, .closing joinedGroups⟩) := by
            simp only [serverStep, there, if_neg failed]
          exact stepped ▸ shows.outside responds (called ▸ .closing ..)
      · simp at stepped
  | hangup id =>
      simp only [tcpStep] at stepped
      split at stepped
      · rename_i joinedGroups found
        rw [Option.some.injEq] at stepped
        obtain ⟨shown, sees, there⟩ := shows.serves.present id _ found
        generalize called : object.calls id = call at sees
        cases sees
        have hangs : serverStep server (.hangup id) =
            some (server.update id ⟨joinedGroups, .closing joinedGroups⟩) := by
          simp only [serverStep, there]
        exact stepped ▸ shows.outside hangs (called ▸ .closing ..)
      · simp at stepped
  | remove id =>
      simp only [tcpStep] at stepped
      split at stepped
      · rename_i joinedGroups membership remaining found
        obtain ⟨machine, called, rfl⟩ := Option.map_eq_some_iff.mp stepped
        obtain ⟨shown, sees, there⟩ := shows.serves.present id _ found
        generalize object.calls id = call at sees
        cases sees
        exact shows.call standalone called there (.removing ..)
      · simp at stepped
  | close id =>
      simp only [tcpStep] at stepped
      split at stepped
      · rename_i joinedGroups found
        rw [Option.some.injEq] at stepped
        subst stepped
        obtain ⟨shown, sees, there⟩ := shows.serves.present id _ found
        generalize called : object.calls id = call at sees
        cases sees
        have closes : serverStep server (.close id) =
            some { server with connections := server.connections.remove id } := by
          simp only [serverStep, there]
        refine ⟨object, _, Reaches.step closes (.refl ..), shows.orderly, shows.tracks, ?_⟩
        refine shows.serves.change (fun other => Table.find_remove ..) shows.serves.world
          (fun _ _ => rfl) (fun other different => ?_) (fun _ => ⟨called, ?_⟩) (by simp)
        · rw [Table.find_remove, if_neg different]
        · rw [Table.find_remove, if_pos rfl]
      · simp at stepped

end Threads

def TcpConnection.outside : TcpConnection → Option Connection
  | ⟨joinedGroups, .reading⟩ => some ⟨joinedGroups, .idle⟩
  | ⟨joinedGroups, .executed req response⟩ => some ⟨joinedGroups, .executed req response⟩
  | ⟨joinedGroups, .recorded response⟩ => some ⟨joinedGroups, .recorded response⟩
  | ⟨joinedGroups, .closing remaining⟩ => some ⟨joinedGroups, .closing remaining⟩
  | _ => none

theorem Sees.outside {connection : TcpConnection} {shown : Connection}
    (sees : Sees (none : Option (CallState (BrokerCall σ) Answer)) connection shown) :
    connection.outside = some shown := by
  cases sees <;> rfl

theorem Sees.joinedGroups {call : Option (CallState (BrokerCall σ) Answer)}
    {connection : TcpConnection} {shown : Connection} (sees : Sees call connection shown) :
    shown.joinedGroups = connection.joinedGroups := by
  cases sees <;> rfl

def TcpConnection.Joins (connection : TcpConnection) (membership : Membership) : Prop :=
  ∃ req, req.type = .join ∧ (req.groupId, req.consumerId) = membership ∧
    (connection.phase = .handling req ∨ connection.phase = .executed req (ascii "OK"))

theorem Sees.listed {call : Option (CallState (BrokerCall σ) Answer)}
    {connection : TcpConnection} {shown : Connection} (sees : Sees call connection shown)
    {membership : Membership}
    (listed : membership ∈ shown.joinedGroups ∨ shown.AboutToRecord membership) :
    membership ∈ connection.joinedGroups ∨ connection.Joins membership := by
  rcases listed with listed | ⟨req, phase, joins, named⟩
  · exact .inl (sees.joinedGroups ▸ listed)
  · cases sees with
    | performed joinedGroups sent reply =>
        injection phase with same
        exact .inr ⟨req, joins, named, .inl (same ▸ rfl)⟩
    | executed joinedGroups sent response =>
        injection phase with same answered
        exact .inr ⟨req, joins, named, .inr (same ▸ answered ▸ rfl)⟩
    | _ => simp at phase

section Runs

variable {world : World σ} {events : List (TcpEvent σ)} {tcp : TcpServer σ}

theorem tcp_shows (standalone : world.broker.replicates = false)
    (reached : run (tcpStep world.broker) (tcpStart world) events = some tcp) :
    ∃ object server, Reaches serverStep ⟨world, ∅⟩ server ∧
      Shows world.broker tcp object server := by
  have start : Shows world.broker (tcpStart world) (objectStart world.shared) ⟨world, ∅⟩ := by
    refine ⟨TwoPhase.orderly_start Mutex.rank world.shared, tracks_start world.shared, ?_⟩
    exact ⟨⟨world.broker.metrics, rfl⟩, fun _ _ => ⟨rfl, rfl⟩, by simp [tcpStart]⟩
  obtain ⟨server, reached, object, shows⟩ := run_simulated
    (fun tcp server => ∃ object, Shows world.broker tcp object server)
    (fun tcp event next server held stepped => by
      obtain ⟨object, shows⟩ := held
      obtain ⟨object, last, reached, shows⟩ := shows_step standalone shows stepped
      exact ⟨last, reached, object, shows⟩)
    ⟨world, ∅⟩ ⟨objectStart world.shared, start⟩ reached
  exact ⟨object, server, reached, shows⟩

/-- What the threads do is an interleaving of the connections' steps with the same lists;
whenever no thread is inside the broker, it has also led to the same phases and to the same
broker, the counters apart. -/
theorem tcp_threads_interleave (standalone : world.broker.replicates = false)
    (reached : run (tcpStep world.broker) (tcpStart world) events = some tcp) :
    ∃ steps server, run serverStep ⟨world, ∅⟩ steps = some server ∧
      (∀ id, (server.connections.find id).map Connection.joinedGroups =
        (tcp.connections.find id).map TcpConnection.joinedGroups) ∧
      ((∀ thread, tcp.machine.running thread = none) →
        (∃ metrics, server.world = (world.broker.facing tcp.machine.shared).counting metrics) ∧
        ∀ id, server.connections.find id =
          (tcp.connections.find id).bind TcpConnection.outside) := by
  obtain ⟨object, server, ⟨steps, done⟩, shows⟩ := tcp_shows standalone reached
  refine ⟨steps, server, done, fun id => ?_, fun idle => ⟨?_, fun id => ?_⟩⟩
  · cases found : tcp.connections.find id with
    | none => simp [(shows.serves.absent id found).2]
    | some connection =>
        obtain ⟨shown, sees, there⟩ := shows.serves.present id connection found
        simp [there, sees.joinedGroups]
  · rw [← shows.tracks.settled shows.orderly idle]
    exact shows.serves.world
  · cases found : tcp.connections.find id with
    | none => simp [(shows.serves.absent id found).2]
    | some connection =>
        obtain ⟨shown, sees, there⟩ := shows.serves.present id connection found
        rw [(shows.tracks.fits id (by simp)).idle (idle id)] at sees
        simp [there, sees.outside]

/-- What a thread finds when it takes `consumer_groups_mutex_`: every member of a group is
on the list of an open connection or is just joining, every topic's partitions are shared
out among its subscribers, and with the last connection the last group is gone. -/
theorem tcp_members_owned (fresh : world.broker.consumerGroups = ∅)
    (standalone : world.broker.replicates = false)
    (reached : run (tcpStep world.broker) (tcpStart world) events = some tcp)
    (free : tcp.machine.holder .consumerGroups = none) :
    (∀ membership, IsMember (tcp.machine.shared.guarded .consumerGroups) membership →
        ∃ id connection, tcp.connections.find id = some connection ∧
          (membership ∈ connection.joinedGroups ∨ connection.Joins membership)) ∧
      AllBalanced (tcp.machine.shared.guarded .consumerGroups) ∧
      ((∀ id, tcp.connections.find id = none) →
        tcp.machine.shared.guarded .consumerGroups = (∅ : ConsumerGroups)) := by
  obtain ⟨object, server, ⟨steps, done⟩, shows⟩ := tcp_shows standalone reached
  have covered := run_invariant Covered covered_step (covered_start fresh) done
  obtain ⟨metrics, world⟩ := shows.serves.world
  have groups : server.groups = tcp.machine.shared.guarded .consumerGroups := by
    rw [← shows.tracks.free .consumerGroups free, ServerState.groups, world]
    rfl
  have balanced := covered.balanced
  have owned := covered.owned
  rw [groups] at balanced owned
  have owners (membership : Membership)
      (member : IsMember (tcp.machine.shared.guarded .consumerGroups) membership) :
      ∃ id connection, tcp.connections.find id = some connection ∧
        (membership ∈ connection.joinedGroups ∨ connection.Joins membership) := by
    obtain ⟨id, shown, there, owns⟩ := owned membership member
    cases found : tcp.connections.find id with
    | none =>
        rw [(shows.serves.absent id found).2] at there
        cases there
    | some connection =>
        obtain ⟨other, sees, also⟩ := shows.serves.present id connection found
        obtain rfl : other = shown := Option.some.inj (also.symm.trans there)
        exact ⟨id, connection, found, sees.listed ((covered.sound id _ there).listed owns)⟩
  refine ⟨owners, balanced, fun closed => balanced.eq_empty fun membership member => ?_⟩
  obtain ⟨id, connection, listed, _⟩ := owners membership member
  simp [closed id] at listed

end Runs

def tcpRequest (id : Nat) (text : String) : List (TcpEvent Unit) :=
  if counters : (parseRequest (ascii text)).type ≠ .metrics then
    [.request id (ascii text) { link := fun peer _ => (peer, none), calls := steadyCalls }
      steadyCalls_survived counters]
  else []

/-- Two clients join at the same time; the second one waits for the mutex, and is gone
before it has its answer. -/
def joiningThreads : List (TcpEvent Unit) :=
  [.accept 1, .accept 2] ++ tcpRequest 1 "JOIN g a t" ++ [.work 1] ++
    tcpRequest 2 "JOIN g b t" ++ [.work 1, .work 1, .work 1, .work 2, .work 2, .record 1] ++
    [.work 2, .work 2, .record 2, .respond 2 false, .remove 2, .respond 1 true] ++
    [.work 2, .work 2, .work 2, .work 2, .close 2]

theorem tcp_threads_interleave_joining : ∃ tcp steps server,
    run (tcpStep freshWorld.broker) (tcpStart freshWorld) joiningThreads = some tcp ∧
      run serverStep ⟨freshWorld, ∅⟩ steps = some server ∧
      (server.connections.find 1).map Connection.joinedGroups =
        some [(ascii "g", ascii "a")] := by
  have evaluated : ((run (tcpStep freshWorld.broker) (tcpStart freshWorld)
      joiningThreads).map fun tcp =>
        (tcp.connections.find 1).map TcpConnection.joinedGroups) =
      some (some [(ascii "g", ascii "a")]) := by
    decide +kernel
  obtain ⟨tcp, reached, listed⟩ := Option.map_eq_some_iff.mp evaluated
  obtain ⟨steps, server, done, same, _⟩ := tcp_threads_interleave rfl reached
  exact ⟨tcp, steps, server, reached, done, (same 1).trans listed⟩

theorem tcp_members_owned_joining : ∃ tcp,
    run (tcpStep freshWorld.broker) (tcpStart freshWorld) joiningThreads = some tcp ∧
      IsMember (tcp.machine.shared.guarded .consumerGroups) (ascii "g", ascii "a") ∧
      (∃ id connection, tcp.connections.find id = some connection ∧
        ((ascii "g", ascii "a") ∈ connection.joinedGroups ∨
          connection.Joins (ascii "g", ascii "a"))) ∧
      ¬IsMember (tcp.machine.shared.guarded .consumerGroups) (ascii "g", ascii "b") ∧
      AllBalanced (tcp.machine.shared.guarded .consumerGroups) := by
  have evaluated : ((run (tcpStep freshWorld.broker) (tcpStart freshWorld)
      joiningThreads).map fun tcp => (tcp.machine.holder .consumerGroups,
        decide (IsMember (tcp.machine.shared.guarded .consumerGroups) (ascii "g", ascii "a")),
        decide (IsMember (tcp.machine.shared.guarded .consumerGroups) (ascii "g", ascii "b")))) =
      some (none, true, false) := by
    decide +kernel
  obtain ⟨tcp, reached, facts⟩ := Option.map_eq_some_iff.mp evaluated
  simp only [Prod.mk.injEq, decide_eq_true_eq, decide_eq_false_iff_not] at facts
  obtain ⟨free, member, gone⟩ := facts
  obtain ⟨owned, balanced, _⟩ := tcp_members_owned rfl rfl reached free
  exact ⟨tcp, reached, member, owned _ member, gone, balanced⟩

end KafkaBroker
