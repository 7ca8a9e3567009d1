import XWebServer.Http.Client
import XWebServer.Server.Objects
import XWebServer.Server.Ownership

/-! # The conversations of a running server

`observed` is the machine of the server together with the conversation of every object's latest client:
`AddClient` opens one, a task that a worker runs is a turn of one, and nothing else touches them. In the
runs whose ticks spare the pending tasks each of them is a conversation in the sense of `talks`, so the
server adds nothing to what a connection alone guarantees, whatever the other clients do.
-/

namespace XWebServer

open Transition System HeapTimer HttpConn

/-- A task as a turn of its conversation. -/
def Task.turn (task : Task) (io : TaskIo) : Turn where
  host := io.host
  event :=
    match task.kind with
    | .onRead => .readable io.reads
    | .onWrite => .writable io.writes

/-- What a connection waits for while a task of this kind is queued for it. -/
def TaskKind.waits : TaskKind → Decision
  | .onRead => .armIn
  | .onWrite => .armOut

namespace Server

/-- The server and the conversation of the latest client of each object. -/
structure Observed where
  server : Server
  talk : ℤ → Conversation

/-- The conversations after a step that ends in `target`. -/
def observe (config : Config) (source : Observed) (target : Server) : Action → ℤ → Conversation
  | .listen _, object =>
      if target.kernel.latest object = source.server.kernel.latest object then source.talk object
      else
        match target.users object with
        | some client => if client.isClose then source.talk object else .opening client
        | none => source.talk object
  | .run index io, object =>
      match source.server.pending[index]? with
      | some task =>
          if object = task.object then (source.talk object).next config.connET (task.turn io)
          else source.talk object
      | none => source.talk object
  | _, object => source.talk object

def observed (config : Config) : System Observed Action where
  Init state := ∃ isOpen clock, state.server = start isOpen clock
  Step source action target := (machine config).Step source.server action target.server ∧
    target.talk = observe config source target.server action

/-! ## What a task does -/

/-- A task that runs is a turn of the conversation. -/
theorem turn_of_runTask {config : Config} {task : Task} {io : TaskIo} {talk : Conversation}
    {decision : Decision} {next : HttpConn}
    (run : runTask config task io talk.conn = .ok (decision, next)) :
    (talk.turn config.connET (task.turn io)).isOk = true ∧
      (talk.next config.connET (task.turn io)).conn = next ∧
      (talk.next config.connET (task.turn io)).waits = decision := by
  rw [Conversation.next]
  obtain ⟨_, run⟩ := runTask_ok run
  cases kind : task.kind with
  | onRead =>
    rw [kind] at run
    have turn : talk.turn config.connET (task.turn io) =
        talk.takeIn config.connET io.host io.reads := by rw [Conversation.turn, Task.turn, kind]
    simp only at run
    rw [turn, Conversation.takeIn, run]
    exact ⟨rfl, rfl, rfl⟩
  | onWrite =>
    rw [kind] at run
    have turn : talk.turn config.connET (task.turn io) =
        talk.giveOut config.connET io.host io.writes := by rw [Conversation.turn, Task.turn, kind]
    simp only at run
    obtain ⟨written, writes, _⟩ := bind_ok run
    rw [turn, Conversation.giveOut, writes, run]
    exact ⟨rfl, rfl, rfl⟩

/-! ## The conversations are conversations -/

section

variable (config : Config) (allows : Host → Prop) (opens : HttpConn → Prop)

/-- A conversation on allowed hosts, of a connection that `Init` has set up for this descriptor. -/
def Began (object : ℤ) (talk : Conversation) : Prop :=
  ∃ before start, before.init object = .ok start ∧ opens before ∧
    ((Conversation.talks config.connET start).restrict fun _ turn => allows turn.host).Reachable talk

/-- An object, as it is stored and armed, and the conversation of its latest client: the object is the
connection of the conversation, and that waits for what the descriptor is armed for. -/
structure Tracks (object : ℤ) (user : Option HttpConn) (interest : Option Interest)
    (talk : Conversation) : Prop where
  began : ∀ client, user = some client → Began config allows opens object talk ∧
    (client = talk.conn ∨ client = talk.conn.close)
  live : ∀ client, user = some client → client.isClose = false → client = talk.conn
  input : interest = some .input → talk.waits = .armIn
  output : interest = some .output → talk.waits = .armOut

/-- Every conversation is tracked, and waits for the task that is queued, if there is one. -/
structure Follows (state : Observed) : Prop where
  each : ∀ object, Tracks config allows opens object (state.server.users object)
    (state.server.kernel.epoll object) (state.talk object)
  tasks : ∀ task ∈ state.server.pending, (state.talk task.object).waits = task.kind.waits

/-- Tasks find allowed hosts, and new objects such memory. -/
def Permits : Action → Prop
  | .listen arrivals => ∀ arrival ∈ arrivals, opens (.new arrival.iovCnt arrival.iov0 arrival.iov1)
  | .run _ io => allows io.host
  | _ => True

end

variable {config : Config} {allows : Host → Prop} {opens : HttpConn → Prop}

/-- A closed object is tracked, with the conversation broken off. -/
theorem Tracks.closed {object : ℤ} {client : HttpConn} {interest : Option Interest}
    {talk : Conversation}
    (tracks : Tracks config allows opens object (some client) interest talk) :
    Tracks config allows opens object (some client.close) none talk := by
  refine ⟨fun other there => ?_, fun other there isOpen => ?_, ?_, ?_⟩
  · obtain rfl := Option.some.inj there
    obtain ⟨began, rfl | rfl⟩ := tracks.began client rfl
    · exact ⟨began, .inr rfl⟩
    · exact ⟨began, .inr (close_close _)⟩
  · obtain rfl := Option.some.inj there
    cases isOpen
  · intro armed
    cases armed
  · intro armed
    cases armed

theorem Tracks.disarmed {object : ℤ} {user : Option HttpConn} {interest : Option Interest}
    {talk : Conversation} (tracks : Tracks config allows opens object user interest talk) :
    Tracks config allows opens object user (some .disarmed) talk := by
  refine ⟨tracks.began, tracks.live, ?_, ?_⟩
  · intro armed
    cases armed
  · intro armed
    cases armed

/-- A connected object is the connection of its conversation. -/
theorem Follows.live {state : Observed} (follows : Follows config allows opens state) {object : ℤ}
    (isConnected : state.server.connected object = true) :
    state.server.users object = some (state.talk object).conn := by
  obtain ⟨client, known⟩ := exists_client isConnected
  rw [connected_of known, Bool.not_eq_true'] at isConnected
  rw [known, (follows.each object).live client known isConnected]

theorem Follows.cut {state : Observed} (follows : Follows config allows opens state) {target : Server}
    (cut : Cut state.server target) : Follows config allows opens ⟨target, state.talk⟩ := by
  refine ⟨fun object => ?_, fun task queued => follows.tasks task (cut.pending ▸ queued)⟩
  have before := follows.each object
  rcases cut.each object with ⟨users, epoll⟩ | ⟨client, there, closed, epoll⟩
  · dsimp only
    rw [users, epoll]
    exact before
  · rw [there] at before
    dsimp only
    rw [closed, epoll]
    exact before.closed

theorem Follows.dealt {state : Observed} (follows : Follows config allows opens state) {fd now : ℤ}
    {kind : TaskKind} {timer : HeapTimer ℤ}
    (armed : (kind = .onRead ∧ state.server.kernel.epoll fd = some .input) ∨
      (kind = .onWrite ∧ state.server.kernel.epoll fd = some .output)) :
    Follows config allows opens ⟨state.server.dealt kind fd now timer, state.talk⟩ := by
  refine ⟨fun object => ?_, fun task queued => ?_⟩
  · rcases eq_or_ne object fd with rfl | apart
    · have epoll : (state.server.dealt kind object now timer).kernel.epoll object = some .disarmed :=
        Function.update_self ..
      dsimp only
      rw [epoll]
      exact (follows.each object).disarmed
    · have epoll : (state.server.dealt kind fd now timer).kernel.epoll object =
        state.server.kernel.epoll object := Function.update_of_ne apart ..
      dsimp only
      rw [epoll]
      exact follows.each object
  · rcases List.mem_append.mp queued with old | new
    · exact follows.tasks task old
    · obtain rfl := List.mem_singleton.mp new
      rcases armed with ⟨rfl, found⟩ | ⟨rfl, found⟩
      · exact (follows.each fd).input found
      · exact (follows.each fd).output found

/-- What is known of the memory of an object that a new client gets stays so while it is used. -/
structure Lasting (config : Config) (allows : Host → Prop) (opens : HttpConn → Prop) : Prop where
  talk : ∀ object talk, Began config allows opens object talk → opens talk.conn
  close : ∀ conn, opens conn → opens conn.close

theorem Follows.listened {state : Observed} (follows : Follows config allows opens state)
    (lasting : Lasting config allows opens) (sound : state.server.Sound)
    (owner : state.server.OneOwner) {arrivals : List Arrival} {target : Server}
    (admits : state.server.Admits config (.listen arrivals))
    (memory : ∀ arrival ∈ arrivals, opens (.new arrival.iovCnt arrival.iov0 arrival.iov1))
    (run : state.server.dealListen config arrivals = .ok target) :
    Follows config allows opens ⟨target, observe config state target (.listen arrivals)⟩ := by
  obtain ⟨pending, each, others⟩ := dealListen_heard sound admits memory run
  refine ⟨fun object => ?_, fun task queued => ?_⟩
  · dsimp only
    cases each object with
    | same same =>
      rw [same.users, same.epoll, observe, if_pos same.latest]
      exact follows.each object
    | idle users epoll off =>
      have talk : observe config state target (.listen arrivals) object = state.talk object := by
        rw [observe]
        split_ifs
        · rfl
        · cases known : target.users object with
          | none => rfl
          | some client =>
            rw [connected_of known, Bool.not_eq_false'] at off
            exact if_pos off
      rw [users, epoll, talk]
      exact follows.each object
    | @joined before client init origin known epoll latest =>
      have memory : opens before := by
        rcases origin with there | new
        · obtain ⟨began, rfl | rfl⟩ := (follows.each object).began before there
          · exact lasting.talk object _ began
          · exact lasting.close _ (lasting.talk object _ began)
        · exact new
      have talk : observe config state target (.listen arrivals) object = .opening client := by
        rw [observe, if_neg latest, known]
        dsimp only
        rw [(init_fields init).2, if_neg Bool.false_ne_true]
      rw [known, epoll, talk]
      refine ⟨fun other there => ?_, fun other there _ => ?_, fun _ => rfl, fun armed => ?_⟩
      · obtain rfl := Option.some.inj there
        exact ⟨⟨before, client, init, memory, .init rfl⟩, .inl rfl⟩
      · exact (Option.some.inj there).symm
      · cases armed
  · -- a pending task has an open descriptor, which no accept returns
    have before : task ∈ state.server.pending := pending ▸ queued
    have isOpen := sound.isOpen _ (owner.own task before).1
    have other : task.object ∉ arrivals.map (·.fd) := by
      intro member
      obtain ⟨arrival, there, same⟩ := List.mem_map.mp member
      rw [← same, (admits.1 arrival there).2] at isOpen
      cases isOpen
    have talk : observe config state target (.listen arrivals) task.object =
      state.talk task.object := if_pos (others task.object other).latest
    dsimp only
    rw [talk]
    exact follows.tasks task before

theorem awaits_turn {task : Task} (io : TaskIo) {decision : Decision}
    (waits : decision = task.kind.waits) : Conversation.Awaits decision (task.turn io).event := by
  rw [waits, Task.turn]
  cases task.kind <;> trivial

theorem Follows.ran {state : Observed} (follows : Follows config allows opens state)
    (sound : state.server.Sound) (owner : state.server.OneOwner) {index : ℕ} {io : TaskIo}
    (allowed : allows io.host) {task : Task} (queued : state.server.pending[index]? = some task)
    {target : Server} (run : state.server.run config index io = .ok target) :
    Follows config allows opens ⟨target, observe config state target (.run index io)⟩ := by
  obtain ⟨client, decision, next, known, ran, same, ends⟩ := run_cases sound queued run
  have inside := List.mem_of_getElem? queued
  have isConnected := (owner.own task inside).1
  obtain rfl := Option.some.inj (known.symm.trans (follows.live isConnected))
  obtain ⟨completes, isNext, decides⟩ := turn_of_runTask ran
  obtain ⟨disarmed, free, _⟩ := owner.erase queued
  obtain ⟨⟨before, start, init, memory, reached⟩, _⟩ := (follows.each _).began _ known
  have began : Began config allows opens task.object
      ((state.talk task.object).next config.connET (task.turn io)) :=
    ⟨before, start, init, memory, Conversation.next_reachable reached (task.turn io) allowed
      (awaits_turn io (follows.tasks task inside)) completes⟩
  have self : observe config state target (.run index io) task.object =
      (state.talk task.object).next config.connET (task.turn io) := by
    simp only [observe, queued, if_true]
  have away (object : ℤ) (apart : object ≠ task.object) :
      observe config state target (.run index io) object = state.talk object := by
    simp only [observe, queued, if_neg apart]
  have stored : Tracks config allows opens task.object (some next) none
      ((state.talk task.object).next config.connET (task.turn io)) := by
    refine ⟨fun other there => ⟨began, ?_⟩, fun other there _ => ?_, ?_, ?_⟩
    · exact .inl ((Option.some.inj there).symm.trans isNext.symm)
    · exact (Option.some.inj there).symm.trans isNext.symm
    · intro armed
      cases armed
    · intro armed
      cases armed
  refine ⟨fun object => ?_, fun other left => ?_⟩
  · dsimp only
    rcases eq_or_ne object task.object with rfl | apart
    · rw [self]
      rcases ends with ⟨interest, rfl, arms⟩ | ⟨_, rfl⟩
      · simp only [Server.rearmed, Kernel.modFd_of _ disarmed, Function.update_self]
        refine ⟨stored.began, stored.live, fun armed => ?_, fun armed => ?_⟩
        · rw [decides]
          rcases arms with ⟨isIn, _⟩ | ⟨_, rfl⟩
          · exact isIn
          · cases armed
        · rw [decides]
          rcases arms with ⟨_, rfl⟩ | ⟨isOut, _⟩
          · cases armed
          · exact isOut
      · have still : connected { state.server with
            pending := state.server.pending.eraseIdx index } task.object = true := isConnected
        simp only [Server.closing, still, if_true, Kernel.close, Function.update_self]
        exact stored.closed
    · rw [away object apart]
      rcases ends with ⟨interest, rfl, _⟩ | ⟨_, rfl⟩
      · simp only [Server.rearmed, Kernel.modFd_of _ disarmed, Function.update_of_ne apart]
        exact follows.each object
      · simp only [Server.closing, Function.update_of_ne apart]
        split_ifs
        · simp only [Kernel.close, Function.update_of_ne apart]
          exact follows.each object
        · exact follows.each object
  · have pending : target.pending = state.server.pending.eraseIdx index := by
      rcases ends with ⟨interest, rfl, _⟩ | ⟨_, rfl⟩ <;> rfl
    dsimp only at left ⊢
    rw [pending] at left
    have apart : other.object ≠ task.object := fun isObject =>
      List.countP_eq_zero.mp free other left (decide_eq_true isObject)
    rw [away _ apart]
    exact follows.tasks other (List.mem_of_mem_eraseIdx left)

theorem Follows.step {state next : Observed} {action : Action}
    (follows : Follows config allows opens state) (lasting : Lasting config allows opens)
    (sound : state.server.Sound) (owner : state.server.OneOwner) (permits : Permits allows opens action)
    (move : (observed config).Step state action next) : Follows config allows opens next := by
  obtain ⟨⟨admits, run⟩, talk⟩ := move
  rw [show next = ⟨next.server, observe config state next.server action⟩ by rw [← talk]]
  cases action with
  | listen arrivals => exact follows.listened lasting sound owner admits permits run
  | tick source =>
    obtain ⟨ticked, rounds, run⟩ := bind_ok run
    exact follows.cut (expire_cut sound run)
  | tickRound round =>
    obtain ⟨ticked, rounds, run⟩ := bind_ok run
    exact follows.cut (expire_cut sound run)
  | event fd events now =>
    rcases event_cases sound admits run with ⟨client, known, closed⟩ | ⟨kind, timer, dealt, armed⟩
    · rw [closed]
      exact follows.cut (.closing sound known)
    · rw [dealt]
      exact follows.dealt armed
  | run index io =>
    have queued := List.getElem?_eq_getElem admits
    exact follows.ran sound owner permits queued run

/-- The observed runs whose ticks spare the pending tasks, on such hosts and with such memory. -/
def sparedRuns (config : Config) (allows : Host → Prop) (opens : HttpConn → Prop) :
    System Observed Action :=
  (observed config).restrict fun state action =>
    Spares state.server action ∧ Permits allows opens action

theorem server_of_spared {state : Observed} (reached : (sparedRuns config allows opens).Reachable state) :
    ((machine config).restrict Spares).Reachable state.server := by
  induction reached with
  | init start => exact .init start
  | step _ move ih => exact .step ih ⟨move.1.1, move.2.1⟩

theorem owner_of_spared {server : Server}
    (reached : ((machine config).restrict Spares).Reachable server) :
    server.Sound ∧ server.OneOwner := by
  have path : ((effects config).restrict (Allowed False True)).Reachable server :=
    reachable_effects (fun _ _ _ => False.elim) (fun _ _ spares _ => spares) reached
  refine ⟨sound_of_effects path.of_restrict, ?_⟩
  refine effects_invariant start_oneOwner ?_ path
  intro source effect target sound owner allowed move
  exact move.oneOwner sound (allowed.2 trivial) owner

theorem follows_of_spared (lasting : Lasting config allows opens) {state : Observed}
    (reached : (sparedRuns config allows opens).Reachable state) :
    Follows config allows opens state := by
  induction reached with
  | @init state init =>
    obtain ⟨isOpen, clock, begins⟩ := init
    have users : state.server.users = fun _ => none := by rw [begins]; rfl
    have epoll : state.server.kernel.epoll = fun _ => none := by rw [begins]; rfl
    have pending : state.server.pending = [] := by rw [begins]; rfl
    refine ⟨fun object => ?_, fun task queued => ?_⟩
    · rw [users, epoll]
      refine ⟨?_, ?_, ?_, ?_⟩ <;> intros <;> contradiction
    · rw [pending] at queued
      cases queued
  | step before move ih =>
    obtain ⟨sound, owner⟩ := owner_of_spared (server_of_spared before)
    exact ih.step lasting sound owner move.2.2 move.1

/-- Every run of the server is observed. -/
theorem observed_of_spared {server : Server}
    (reached : ((machine config).restrict Spares).Reachable server) :
    ∃ talk, (sparedRuns config (fun _ => True) (fun _ => True)).Reachable ⟨server, talk⟩ := by
  induction reached with
  | init start => exact ⟨fun _ => .opening (.new 0 ⟨0, 0⟩ ⟨0, 0⟩), .init start⟩
  | @step source target action before move ih =>
    obtain ⟨talk, reached⟩ := ih
    have permits : Permits (fun _ => True) (fun _ => True) action := by
      cases action with
      | listen arrivals => exact fun _ _ => trivial
      | tick => trivial
      | tickRound => trivial
      | event => trivial
      | run => trivial
    have step : (sparedRuns config (fun _ => True) (fun _ => True)).Step ⟨source, talk⟩ action
        ⟨target, observe config ⟨source, talk⟩ target action⟩ := ⟨⟨move.1, rfl⟩, move.2, permits⟩
    exact ⟨_, .step reached step⟩

/-! ## What every client of the server sees -/

/-- Second vectors below `2 ^ 31` bytes stay so on modest hosts. -/
theorem modest_lasting (config : Config) :
    Lasting config Host.Modest (fun conn => conn.iov1.len < 2 ^ 31) := by
  refine ⟨fun object talk began => ?_, fun conn small => small⟩
  obtain ⟨before, start, init, small, reached⟩ := began
  exact (Conversation.ready_of_modest init small reached).second

/-- In every run of the server whose ticks spare the pending tasks, whose hosts are modest and whose new
objects have a second vector below `2 ^ 31` bytes, over any number of clients, the bytes taken from each
client are its requests and the unread rest, the bytes sent to it are the responses to them up to the unsent
rest, and the client reads these responses. -/
theorem every_client_intact {state : Observed}
    (reached : (sparedRuns config Host.Modest fun conn => conn.iov1.len < 2 ^ 31).Reachable state)
    {object : ℤ} {client : HttpConn} (known : state.server.users object = some client) :
    (client.isClose = false → client = (state.talk object).conn) ∧ (state.talk object).Intact ∧
      ∃ messages rest, (state.talk object).Understood messages rest := by
  have follows := follows_of_spared (modest_lasting config) reached
  obtain ⟨⟨before, start, init, small, talks⟩, _⟩ := (follows.each object).began client known
  have ready := Conversation.ready_of_modest init small talks
  exact ⟨(follows.each object).live client known, ready.toIntact, ready.toIntact.understood⟩

def Observed.next (config : Config) (action : Action) (state : Observed) : Observed :=
  ⟨state.server.next config action,
    observe config state (state.server.next config action) action⟩

theorem observed_next {state : Observed} (reached : (sparedRuns config allows opens).Reachable state)
    (action : Action) (admits : state.server.Admits config action) (spares : Spares state.server action)
    (permits : Permits allows opens action)
    (completes : (state.server.step config action).isOk = true) :
    (sparedRuns config allows opens).Reachable (state.next config action) := by
  have move : (sparedRuns config allows opens).Step state action (state.next config action) :=
    ⟨⟨step_next admits completes, rfl⟩, spares, permits⟩
  exact .step reached move

private def edgeConfig : Config := ⟨3, 60000⟩

private def quiet : Observed :=
  ⟨start (fun _ => false) 0, fun _ => .opening (.new 0 ⟨0, 0⟩ ⟨0, 0⟩)⟩

private def welcomed : Observed := quiet.next edgeConfig (.listen [⟨5, 0, .ok true, 0, ⟨0, 0⟩, ⟨0, 0⟩⟩])

private def spoken : Observed := welcomed.next edgeConfig (.event 5 ⟨false, true, false⟩ 1)

private def served : Observed := spoken.next edgeConfig (.run 0 ⟨bareHost, [.data keptRequest], [], none⟩)

/-- A client has asked once, and a worker has prepared the answer. -/
theorem every_client_intact_served : (served.talk 5).replies.length = 1 ∧ (served.talk 5).Intact := by
  have first : (sparedRuns edgeConfig Host.Modest fun conn => conn.iov1.len < 2 ^ 31).Reachable quiet :=
    .init ⟨_, _, rfl⟩
  have second := observed_next first (.listen [⟨5, 0, .ok true, 0, ⟨0, 0⟩, ⟨0, 0⟩⟩])
    ⟨by decide +kernel, by decide +kernel⟩ trivial
    (fun arrival there => by rw [List.mem_singleton.mp there]; decide) (by decide +kernel)
  have third := observed_next second (.event 5 ⟨false, true, false⟩ 1)
    ⟨.input, by decide +kernel, by decide⟩ trivial trivial (by decide +kernel)
  have fourth := observed_next third (.run 0 ⟨bareHost, [.data keptRequest], [], none⟩)
    (show 0 < spoken.server.pending.length by decide +kernel) trivial bareHost_modest
    (by decide +kernel)
  have known : (served.server.users 5).isSome := by decide +kernel
  obtain ⟨client, known⟩ := Option.isSome_iff_exists.mp known
  exact ⟨by decide +kernel, (every_client_intact fourth known).2.1⟩

end Server

end XWebServer
