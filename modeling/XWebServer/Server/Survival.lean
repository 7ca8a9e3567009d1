import XWebServer.Server.Backlog
import XWebServer.Server.Conversations
import XWebServer.Server.IdleTimeout

/-! # The server does not abort

The handlers run under assertions: the timer finds the id it is asked for, `Retrieve` is not asked for
more than there is, a descriptor is positive. The main thread meets none of them in any run, whatever
stale tasks the workers still hold. A task meets none as long as no tick closes a connection under it:
then the write buffer is what `Process` prepared for this `Write`, and only a file that opens but cannot
be mapped takes the process down, or a signal that nobody handles.
-/

namespace XWebServer

open Transition System HeapTimer HttpConn

namespace Server

/-- Where the comparison past the end of the heap comes into it, it ends the upward sift. -/
def Action.EndsAtRoot : Action → Prop
  | .listen arrivals => ∀ arrival ∈ arrivals, arrival.wild = .ok true
  | .tick source => ∀ n, (source n).wild = .ok true
  | .tickRound round => round.wild = .ok true
  | .event _ _ _ | .run _ _ => True

/-! ## The entries of the open connections -/

/-- Every open connection has an entry in the timer. -/
def Entered (server : Server) : Prop :=
  ∀ object, server.connected object = true → ∃ node ∈ server.timer.heap, node.id = object

variable {config : Config}

theorem Entered.joined {server : Server} (entered : server.Entered) (on : 0 < config.timeoutMS)
    (sound : server.Sound) {arrival : Arrival} {client : HttpConn} {timer : HeapTimer ℤ}
    (isOpen : client.isClose = false) (added : addTimer config arrival server.timer = .ok timer) :
    (server.joined arrival client timer).Entered := by
  rw [addTimer, if_pos on] at added
  obtain ⟨_, _, mem⟩ := add_ok sound.indexed added
  intro object isConnected
  rw [connected_joined arrival timer server isOpen, Function.update_apply] at isConnected
  split_ifs at isConnected with same
  · exact ⟨_, (mem _).mpr (.inl rfl), same.symm⟩
  · obtain ⟨node, there, isId⟩ := entered object isConnected
    refine ⟨node, (mem _).mpr (.inr ⟨there, ?_⟩), isId⟩
    rwa [isId]

theorem Entered.dealt {server : Server} (entered : server.Entered) (on : 0 < config.timeoutMS)
    (sound : server.Sound) {kind : TaskKind} {fd now : ℤ} {interest : Interest} {client : HttpConn}
    {timer : HeapTimer ℤ} (registered : server.kernel.epoll fd = some interest)
    (known : server.users fd = some client)
    (extended : extentTime config client now server.timer = .ok timer) :
    (server.dealt kind fd now timer).Entered := by
  obtain ⟨node, present, rfl⟩ := entered fd (sound.registered fd interest registered)
  rw [extentTime, if_pos on, sound.sockFd _ client known] at extended
  obtain ⟨adjusted, success, _, _, mem⟩ := adjust_ok sound.indexed present config.timeoutMS now
  obtain rfl := Except.ok.inj (extended.symm.trans success)
  intro object isConnected
  rcases eq_or_ne object node.id with rfl | apart
  · exact ⟨_, (mem _).mpr (.inl rfl), rfl⟩
  · obtain ⟨other, there, isId⟩ := entered object isConnected
    refine ⟨other, (mem _).mpr (.inr ⟨there, ?_⟩), isId⟩
    rwa [isId]

theorem Effects.entered {source target : Server} {effect : Effect} (on : 0 < config.timeoutMS)
    (move : Effects config source effect target) (sound : source.Sound) (entered : source.Entered) :
    target.Entered := by
  have fewer (object : ℤ) (client : HttpConn) (server : Server) (timer : server.timer = source.timer)
      (connected : server.connected = source.connected) : (server.closing object client).Entered := by
    intro other still
    rw [connected_closing, Function.update_apply, connected] at still
    split_ifs at still
    change ∃ node ∈ server.timer.heap, node.id = other
    rw [timer]
    exact entered other still
  cases move with
  | leak free => exact entered
  | refuse free => exact entered
  | join free room owns isOpen added => exact entered.joined on sound isOpen added
  | hangUp registered armed known => exact fewer _ _ _ rfl rfl
  | callback known => exact fewer _ _ _ rfl rfl
  | deal registered armed known extended => exact entered.dealt on sound registered known extended
  | retime indexed ordered fewer left =>
    intro object isConnected
    obtain ⟨node, there, rfl⟩ := entered object isConnected
    exact ⟨node, left node there isConnected, rfl⟩
  | @rearm index task interest client next queued armed known same =>
    intro object isConnected
    rw [connected_rearmed index interest known same] at isConnected
    exact entered object isConnected
  | finish queued known same => exact fewer _ _ _ rfl (connected_congr rfl)

/-! ## The main thread -/

theorem extentTime_ends {server : Server} {fd : ℤ} {client : HttpConn} (sound : server.Sound)
    (entered : 0 < config.timeoutMS → server.Entered) (isConnected : server.connected fd = true)
    (known : server.users fd = some client) (now : ℤ) :
    ∃ timer, extentTime config client now server.timer = .ok timer := by
  rw [extentTime]
  split_ifs with on
  · obtain ⟨node, present, isId⟩ := entered on fd isConnected
    obtain ⟨timer, success, _⟩ := adjust_ok sound.indexed present config.timeoutMS now
    rw [sound.sockFd fd client known, ← isId]
    exact ⟨timer, success⟩
  · exact ⟨_, rfl⟩

theorem deal_ends {server : Server} {fd : ℤ} {client : HttpConn} (sound : server.Sound)
    (entered : 0 < config.timeoutMS → server.Entered) (isConnected : server.connected fd = true)
    (known : server.users fd = some client) (kind : TaskKind) (now : ℤ) :
    ∃ target, (server.disarm fd).deal kind config fd now = .ok target := by
  obtain ⟨timer, extended⟩ := extentTime_ends sound entered isConnected known now
  have looked : (server.disarm fd).client fd = .ok client := client_ok.mpr known
  have extends' : extentTime config client now (server.disarm fd).timer = .ok timer := extended
  rw [deal, looked, ok_bind, extends', ok_bind]
  exact ⟨_, rfl⟩

theorem callbacks_end {entries : List (TimerNode ℤ × ℤ)} {server : Server} (sound : server.Sound)
    (known : ∀ entry ∈ entries, ∃ client, server.users entry.1.cb = some client) :
    ∃ target, entries.foldlM (fun server entry => server.closeConn entry.1.cb) server = .ok target := by
  induction entries generalizing server with
  | nil => exact ⟨server, rfl⟩
  | cons entry rest ih =>
    obtain ⟨client, there⟩ := known entry List.mem_cons_self
    rw [List.foldlM_cons, sound.closeConn there, ok_bind]
    apply ih (sound.closing (sound.sockFd _ _ there))
    exact fun other member => exists_update (known other (List.mem_cons_of_mem _ member))

theorem expire_ends {server : Server} {source : ℕ → Round} {ticked : Ticked ℤ} (sound : server.Sound)
    (expires : Expires server.timer source ticked) : ∃ target, server.expire ticked = .ok target := by
  have known : ∀ entry ∈ ticked.fired, ∃ client, server.users entry.1.cb = some client := by
    intro entry fired
    obtain ⟨isCb, known⟩ := sound.entries entry.1 (expires.fired entry.1 entry.2 fired).1
    rwa [isCb]
  obtain ⟨closed, callbacks⟩ := callbacks_end sound known
  rw [expire, callbacks, ok_bind]
  exact ⟨_, rfl⟩

theorem dispatch_ends {server : Server} (sound : server.Sound)
    (entered : 0 < config.timeoutMS → server.Entered) {fd : ℤ} {interest : Interest}
    (registered : server.kernel.epoll fd = some interest) (events : Events) (now : ℤ) :
    ∃ target, (server.disarm fd).dispatch config fd events now = .ok target := by
  have isConnected := sound.registered fd interest registered
  obtain ⟨client, known⟩ := exists_client isConnected
  rw [dispatch]
  split_ifs
  · exact ⟨_, hangUp_eq sound registered known⟩
  · exact deal_ends sound entered isConnected known .onRead now
  · exact deal_ends sound entered isConnected known .onWrite now
  · exact ⟨_, rfl⟩

theorem start_entered (isOpen : ℤ → Bool) (clock : ℤ) : (start isOpen clock).Entered := by
  intro object isConnected
  cases isConnected

theorem entered_of_reachable (on : 0 < config.timeoutMS) {server : Server}
    (reached : (machine config).Reachable server) : server.Entered := by
  have path : ((effects config).restrict fun _ _ => True).Reachable server :=
    (effects_of_reachable reached).to_restrict fun _ _ _ _ => trivial
  refine effects_invariant start_entered ?_ path
  intro source effect target sound entered _ move
  exact move.entered on sound entered

/-- A step of the main thread comes to its end. -/
theorem Sound.main_ends {server : Server} (sound : server.Sound)
    (entered : 0 < config.timeoutMS → server.Entered) {action : Action}
    (admits : server.Admits config action) (ends : action.EndsAtRoot)
    (main : ∀ index io, action ≠ .run index io) :
    ∃ target, server.step config action = .ok target := by
  cases action with
  | listen arrivals => exact dealListen_ends sound admits ends
  | tick source =>
    have rounds : ∃ ticked, server.timer.tick source = .ok ticked := rounds_ends ends sound.indexed
    obtain ⟨ticked, rounds⟩ := rounds
    change ∃ target, server.timer.tick source >>= (server.expire ·) = .ok target
    rw [rounds, ok_bind]
    exact expire_ends sound (rounds_ok sound.indexed rounds)
  | tickRound round =>
    have each : ∀ n, ((fun _ => round : ℕ → Round) n).wild = .ok true := fun _ => ends
    have rounds : ∃ ticked, server.timer.rounds 1 (fun _ => round) = .ok ticked :=
      rounds_ends each sound.indexed
    obtain ⟨ticked, rounds⟩ := rounds
    change ∃ target, server.timer.rounds 1 (fun _ => round) >>= (server.expire ·) = .ok target
    rw [rounds, ok_bind]
    exact expire_ends sound (rounds_ok sound.indexed rounds)
  | event fd events now =>
    obtain ⟨interest, registered, _⟩ := admits
    exact dispatch_ends sound entered registered events now
  | run index io => exact absurd rfl (main index io)

/-- In every reachable state, also one in which tasks have outlived their connections, every handler of
the main thread that the kernel can call comes to its end. -/
theorem mainThread_survives {server : Server} (reached : (machine config).Reachable server)
    {action : Action} (admits : server.Admits config action) (ends : action.EndsAtRoot)
    (main : ∀ index io, action ≠ .run index io) :
    ∃ target, server.step config action = .ok target :=
  (sound_of_effects (effects_of_reachable reached)).main_ends
    (fun on => entered_of_reachable on reached) admits ends main

private def slowConfig : Config := ⟨0, 60000⟩

private def hailed : Server :=
  (start (fun _ => false) 0).next slowConfig (.listen [⟨5, 0, .ok true, 0, ⟨0, 0⟩, ⟨0, 0⟩⟩])

private def deferred : Server := hailed.next slowConfig (.event 5 ⟨false, true, false⟩ 0)

private def overtaken : Server := deferred.next slowConfig (.tick fun _ => ⟨60000000000, .ok true⟩)

/-- A tick has closed a connection whose task is still pending, and a new client gets its descriptor. -/
theorem mainThread_survives_overtaken : (∃ task ∈ overtaken.pending,
      overtaken.connected task.object = false) ∧
    ∃ target, overtaken.step slowConfig
      (.listen [⟨5, 60000000000, .ok true, 0, ⟨0, 0⟩, ⟨0, 0⟩⟩]) = .ok target := by
  have first : (machine slowConfig).Reachable (start (fun _ => false) 0) := .init ⟨_, _, rfl⟩
  have second : (machine slowConfig).Reachable hailed :=
    .step first (step_next ⟨by decide +kernel, by decide +kernel⟩ (by decide +kernel))
  have third : (machine slowConfig).Reachable deferred :=
    .step second (step_next ⟨.input, by decide +kernel, by decide⟩ (by decide +kernel))
  have fourth : (machine slowConfig).Reachable overtaken :=
    .step third (step_next (show (0 : ℤ) < 60000 by decide) (by decide +kernel))
  have admits : overtaken.Admits slowConfig
    (.listen [⟨5, 60000000000, .ok true, 0, ⟨0, 0⟩, ⟨0, 0⟩⟩]) := ⟨by decide +kernel, by decide +kernel⟩
  refine ⟨by decide +kernel, mainThread_survives fourth admits ?_ fun _ _ same => by cases same⟩
  intro arrival there
  rw [List.mem_singleton.mp there]

/-! ## The tasks -/

/-- `OnProcess` comes to its end unless a file cannot be mapped. -/
theorem onProcess_ends (host : Host) (conn : HttpConn) :
    (∃ decision next, conn.onProcess host = .ok (decision, next)) ∨
      (conn.onProcess host = .error .badMapping ∧
        host.Unmappable (HttpRequest.requestPath conn.readBuff.content)) := by
  rw [HttpConn.onProcess]
  by_cases empty : conn.readBuff.content = []
  · rw [process_empty empty host]
    exact .inl ⟨_, _, rfl⟩
  · rcases process_cases empty host with ⟨fails, crash⟩ | ⟨_, _, next, _, success, _⟩
    · rw [crash]
      exact .inr ⟨rfl, fails⟩
    · rw [success]
      exact .inl ⟨_, _, rfl⟩

theorem head_of_onProcess {host : Host} {conn next : HttpConn}
    (run : conn.onProcess host = .ok (.armOut, next)) : next.Head := by
  rcases onProcess_cases run with ⟨impossible, _⟩ | ⟨_, success⟩
  · cases impossible
  · obtain ⟨_, _, made, _, prepared⟩ := prepares_of_process success
    exact prepared.head

/-- A turn that hands the connection back for output leaves in the write buffer what the first vector
says. -/
theorem head_of_turn {isET : Bool} {turn : Turn} {source target : Conversation}
    (head : source.waits = .armOut → source.conn.Head)
    (awaits : Conversation.Awaits source.waits turn.event)
    (run : source.turn isET turn = .ok target) (armed : target.waits = .armOut) :
    target.conn.Head := by
  rcases awaits.waits with ⟨waits, outcomes, event⟩ | ⟨waits, outcomes, event⟩
  · rw [Conversation.turn, event] at run
    obtain ⟨⟨decision, next⟩, task, run⟩ := bind_ok run
    obtain rfl := Except.ok.inj run
    obtain rfl : decision = .armOut := armed
    obtain ⟨buff, _, steps⟩ := onRead_eq isET turn.host outcomes source.conn
    rw [steps] at task
    split_ifs at task
    · cases task
    · exact head_of_onProcess task
  · rw [Conversation.turn, event] at run
    obtain ⟨written, writes, run⟩ := bind_ok run
    obtain ⟨⟨decision, next⟩, task, run⟩ := bind_ok run
    obtain rfl := Except.ok.inj run
    obtain rfl : decision = .armOut := armed
    obtain ⟨other, again, left⟩ := write_ok (head waits) isET outcomes
    obtain rfl := Except.ok.inj (writes.symm.trans again)
    rw [onWrite, writes, ok_bind] at task
    cases verdict : written.verdict with
    | nextRequest =>
      rw [verdict] at task
      exact head_of_onProcess task
    | rearm =>
      rw [verdict] at task
      obtain ⟨_, rfl⟩ := Prod.mk.inj (Except.ok.inj task)
      exact left
    | close =>
      rw [verdict] at task
      cases task

theorem head_of_talks {isET : Bool} {start : HttpConn} {talk : Conversation}
    (reached : (Conversation.talks isET start).Reachable talk) :
    talk.waits = .armOut → talk.conn.Head := by
  refine reached.invariant (P := fun talk => talk.waits = .armOut → talk.conn.Head) ?_ ?_
  · rintro _ rfl impossible
    cases impossible
  · rintro source turn target head ⟨awaits, run⟩ armed
    exact head_of_turn head awaits run armed

/-- The bytes that a task finds to parse. -/
def toParse (config : Config) (task : Task) (io : TaskIo) (conn : HttpConn) : Bytes :=
  match task.kind with
  | .onRead => conn.readBuff.content ++ (arrival config.connET io.reads).2
  | .onWrite => conn.readBuff.content

/-- What takes the process down in a task: a signal, or a response that needs a file that opens and cannot be
mapped. -/
inductive Kills (config : Config) (server : Server) (task : Task) (io : TaskIo) : Fault → Prop where
  | raised {signal : Signal} (raises : io.signal = some signal) :
      Kills config server task io (.killed signal)
  | unmappable {conn : HttpConn} (known : server.users task.object = some conn)
      (fails : io.host.Unmappable (HttpRequest.requestPath (toParse config task io conn))) :
      Kills config server task io .badMapping

/-- A task whose write buffer holds what the first vector says comes to its end, unless the process is
killed. -/
theorem runTask_ends {task : Task} (io : TaskIo) {conn : HttpConn}
    (head : task.kind = .onWrite → conn.Head) :
    (∃ decision next, runTask config task io conn = .ok (decision, next)) ∨
      ∃ fault, runTask config task io conn = .error fault ∧
        ∀ server : Server, server.users task.object = some conn → Kills config server task io fault := by
  rw [runTask]
  cases raises : io.signal with
  | some signal => exact .inr ⟨_, rfl, fun _ _ => .raised raises⟩
  | none =>
    dsimp only
    cases kind : task.kind with
    | onRead =>
      obtain ⟨buff, content, steps⟩ := onRead_eq config.connET io.host io.reads conn
      have input : toParse config task io conn = buff.content := by rw [toParse, kind, content]
      dsimp only
      rw [steps]
      split_ifs
      · exact .inl ⟨_, _, rfl⟩
      · rcases onProcess_ends io.host { conn with readBuff := buff } with done | ⟨crash, fails⟩
        · exact .inl done
        · exact .inr ⟨_, crash, fun _ known => .unmappable known (input ▸ fails)⟩
    | onWrite =>
      obtain ⟨written, writes, _⟩ := write_ok (head kind) config.connET io.writes
      have input : toParse config task io conn = written.conn.readBuff.content := by
        rw [toParse, kind, (write_keeps writes).readBuff]
      dsimp only
      rw [onWrite, writes, ok_bind]
      cases written.verdict with
      | nextRequest =>
        rcases onProcess_ends io.host written.conn with done | ⟨crash, fails⟩
        · exact .inl done
        · exact .inr ⟨_, crash, fun _ known => .unmappable known (input ▸ fails)⟩
      | rearm => exact .inl ⟨_, _, rfl⟩
      | close => exact .inl ⟨_, _, rfl⟩

/-- A worker comes to the end of the task it takes, unless the process is killed. -/
theorem run_ends {server : Server} (reached : ((machine config).restrict Spares).Reachable server)
    {index : ℕ} (inside : index < server.pending.length) (io : TaskIo) :
    (∃ target, server.run config index io = .ok target) ∨
      ∃ task fault, server.pending[index]? = some task ∧ server.run config index io = .error fault ∧
        Kills config server task io fault := by
  obtain ⟨sound, owner⟩ := owner_of_spared reached
  obtain ⟨talk, observed⟩ := observed_of_spared reached
  have lasting : Lasting config (fun _ => True) (fun _ => True) := ⟨fun _ _ _ => trivial, fun _ => id⟩
  have follows := follows_of_spared lasting observed
  have queued := List.getElem?_eq_getElem inside
  generalize server.pending[index] = task at queued
  have there := List.mem_of_getElem? queued
  have known : server.users task.object = some (talk task.object).conn :=
    follows.live (owner.own task there).1
  have head : task.kind = .onWrite → (talk task.object).conn.Head := by
    intro kind
    have waits : (talk task.object).waits = task.kind.waits := follows.tasks task there
    obtain ⟨⟨_, start, _, _, talks⟩, _⟩ := (follows.each task.object).began _ known
    rw [kind] at waits
    exact head_of_talks talks.of_restrict waits
  rw [Server.run]
  simp only [queued, client_ok.mpr known, ok_bind]
  rcases runTask_ends io head with ⟨decision, next, ran⟩ | ⟨fault, crash, kills⟩
  · left
    rw [ran, ok_bind]
    cases decision with
    | armIn => exact ⟨_, rfl⟩
    | armOut => exact ⟨_, rfl⟩
    | close => exact ⟨_, handBack_close (sound.erase index) known (runTask_same ran)⟩
  · exact .inr ⟨task, fault, rfl, by rw [crash]; rfl, kills server known⟩

/-- In every run whose ticks spare the pending tasks, every step that the kernel and the pool allow comes
to its end, but for a task in which a signal ends the process or whose response needs a file that opens and
cannot be mapped. Where a step compares past the end of the heap, the comparison has to end the upward
sift. -/
theorem server_survives {server : Server}
    (reached : ((machine config).restrict Spares).Reachable server) {action : Action}
    (admits : server.Admits config action) (ends : action.EndsAtRoot) :
    (∃ target, server.step config action = .ok target) ∨
      ∃ index io task fault, action = .run index io ∧ server.pending[index]? = some task ∧
        server.step config action = .error fault ∧ Kills config server task io fault := by
  have sound := (owner_of_spared reached).1
  have handler := sound.main_ends (fun on => entered_of_reachable on reached.of_restrict) admits ends
  cases action with
  | listen => exact .inl (handler fun _ _ same => by cases same)
  | tick => exact .inl (handler fun _ _ same => by cases same)
  | tickRound => exact .inl (handler fun _ _ same => by cases same)
  | event => exact .inl (handler fun _ _ same => by cases same)
  | run index io =>
    rcases run_ends reached admits io with done | ⟨task, fault, queued, crash, kills⟩
    · exact .inl done
    · exact .inr ⟨index, io, task, fault, rfl, queued, crash, kills⟩

/-- A server without files responds, unless a signal ends it. -/
theorem not_kills_bareHost {server : Server} {task : Task} {reads : List ReadvOutcome}
    {writes : List WriteOutcome} {fault : Fault} :
    ¬ Kills config server task ⟨bareHost, reads, writes, none⟩ fault := by
  intro kills
  cases kills with
  | raised raises => cases raises
  | unmappable _ fails =>
    obtain ⟨node, opened, _⟩ := fails
    cases opened

/-- The task of a connection that a tick has spared. -/
theorem server_survives_deferred : ∃ target, deferred.step slowConfig
    (.run 0 ⟨bareHost, [.data keptRequest], [], none⟩) = .ok target := by
  have second : ((machine slowConfig).restrict Spares).Reachable hailed :=
    next_reachable (.init ⟨_, _, rfl⟩) _ ⟨by decide +kernel, by decide +kernel⟩ trivial
      (by decide +kernel)
  have third : ((machine slowConfig).restrict Spares).Reachable deferred :=
    next_reachable second _ ⟨.input, by decide +kernel, by decide⟩ trivial (by decide +kernel)
  have admits : deferred.Admits slowConfig (.run 0 ⟨bareHost, [.data keptRequest], [], none⟩) :=
    show 0 < deferred.pending.length by decide +kernel
  rcases server_survives third admits trivial with done | ⟨index, io, _, fault, same, _, _, kills⟩
  · exact done
  · cases same
    exact absurd kills not_kills_bareHost

end Server

end XWebServer
