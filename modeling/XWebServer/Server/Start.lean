import XWebServer.Server.EventLoop
import XWebServer.Server.Startup

/-! # `main`, with descriptors and masks

The loop of `Start` as the source has it: a report is a descriptor and a mask, the listening descriptor is
told apart by its number, and the branches test the mask. From a server that came up, every state of a run
is one of the event loop, because no step touches a descriptor that is open and belongs to no object: the
listening one is never closed, never registered as a client's, and never the key of an object.
-/

namespace XWebServer

open Transition System HeapTimer

namespace Server

/-! ## A descriptor of no object -/

/-- The descriptor is open, belongs to no object, and has never been closed. -/
structure Untouched (fd : ℤ) (server : Server) : Prop where
  isOpen : server.kernel.isOpen fd = true
  users : server.users fd = none
  epoll : server.kernel.epoll fd = none
  closes : ∀ call ∈ server.kernel.closeCalls, call.fd ≠ fd

variable {config : Config} {fd : ℤ}

theorem Untouched.apart_of_closed {server : Server} (untouched : server.Untouched fd) {other : ℤ}
    (closed : server.kernel.isOpen other = false) : fd ≠ other := by
  rintro rfl
  cases untouched.isOpen.symm.trans closed

theorem Untouched.apart_of_known {server : Server} (untouched : server.Untouched fd) {other : ℤ}
    {client : HttpConn} (known : server.users other = some client) : fd ≠ other := by
  rintro rfl
  cases untouched.users.symm.trans known

theorem Untouched.closing {server : Server} (untouched : server.Untouched fd) {object : ℤ}
    (apart : fd ≠ object) (client : HttpConn) : (server.closing object client).Untouched fd := by
  have users : (server.closing object client).users fd = none := by
    simp only [Server.closing, Function.update_of_ne apart, untouched.users]
  cases status : server.connected object with
  | false =>
    refine ⟨?_, users, ?_, ?_⟩ <;> simp only [Server.closing, status, Bool.false_eq_true, if_false]
    · exact untouched.isOpen
    · exact untouched.epoll
    · exact untouched.closes
  | true =>
    refine ⟨?_, users, ?_, ?_⟩ <;> simp only [Server.closing, status, if_true, Kernel.close]
    · rw [Function.update_of_ne apart, untouched.isOpen]
    · rw [Function.update_of_ne apart, untouched.epoll]
    · intro call made
      rcases List.mem_append.mp made with before | new
      · exact untouched.closes call before
      · rw [List.mem_singleton.mp new]
        exact apart.symm

theorem Effects.untouched {source target : Server} {effect : Effect}
    (move : Effects config source effect target) (untouched : source.Untouched fd) :
    target.Untouched fd := by
  cases move with
  | leak free =>
    refine ⟨?_, untouched.users, untouched.epoll, untouched.closes⟩
    simp only [Kernel.accept, Function.update_of_ne (untouched.apart_of_closed free), untouched.isOpen]
  | refuse free =>
    have apart := untouched.apart_of_closed free
    refine ⟨?_, untouched.users, ?_, ?_⟩
    · simp only [Kernel.close, Kernel.accept, Function.update_of_ne apart, untouched.isOpen]
    · simp only [Kernel.close, Kernel.accept, Function.update_of_ne apart, untouched.epoll]
    · intro call made
      rcases List.mem_append.mp made with before | new
      · exact untouched.closes call before
      · rw [List.mem_singleton.mp new]
        exact apart.symm
  | join free =>
    have apart := untouched.apart_of_closed free
    refine ⟨?_, ?_, ?_, untouched.closes⟩
    · simp only [joined, Function.update_of_ne apart, untouched.isOpen]
    · simp only [joined, Function.update_of_ne apart, untouched.users]
    · simp only [joined, Function.update_of_ne apart, untouched.epoll]
  | hangUp registered armed known => exact untouched.closing (untouched.apart_of_known known) _
  | callback known => exact untouched.closing (untouched.apart_of_known known) _
  | deal registered armed known =>
    refine ⟨untouched.isOpen, untouched.users, ?_, untouched.closes⟩
    simp only [dealt, Function.update_of_ne (untouched.apart_of_known known), untouched.epoll]
  | retime => exact ⟨untouched.isOpen, untouched.users, untouched.epoll, untouched.closes⟩
  | rearm queued armed known =>
    have apart := untouched.apart_of_known known
    refine ⟨?_, ?_, ?_, ?_⟩
    · rw [rearmed, Kernel.modFd_isOpen, untouched.isOpen]
    · simp only [rearmed, Function.update_of_ne apart, untouched.users]
    · by_contra registered
      obtain ⟨interest, found⟩ := Option.ne_none_iff_exists'.mp registered
      obtain ⟨before, there⟩ := Kernel.registered_of_modFd found
      cases untouched.epoll.symm.trans there
    · rw [rearmed, Kernel.modFd_closeCalls]
      exact untouched.closes
  | @finish index task client next queued known =>
    have erased : Untouched fd { source with pending := source.pending.eraseIdx index } :=
      ⟨untouched.isOpen, untouched.users, untouched.epoll, untouched.closes⟩
    exact erased.closing (untouched.apart_of_known known) _

/-- No step touches it. -/
theorem Untouched.path {guard : Server → Action → Prop} {source target : Server} (sound : source.Sound)
    (untouched : source.Untouched fd) (path : ((machine config).restrict guard).Path source target) :
    target.Untouched fd := by
  refine (Path.invariant (P := fun server => server.Sound ∧ server.Untouched fd) ?_ ⟨sound, untouched⟩
    path).2
  intro first action last held move
  have steps : ((effects config).restrict (Fits False False action.listens)).Path first last :=
    step_path held.1 move.1 False.elim False.elim
  refine Path.invariant (P := fun server => server.Sound ∧ server.Untouched fd) ?_ held steps
  intro first effect last held move
  have change : Effects config first effect last := move.1
  exact ⟨change.sound held.1, change.untouched held.2⟩

end Server

/-! ## The loop of `Start` -/

/-- One entry of `eventsList`. -/
structure EpollEvent where
  fd : ℤ
  events : Mask
deriving DecidableEq, Repr

namespace HttpServer

open Server

/-- `Start` between two calls: whether `GetNextTick` has returned in this round of the loop, and what is
left of `eventsList`. -/
structure State where
  server : Server
  ticked : Bool
  batch : List EpollEvent

/-- What the main thread does next, or a worker. A report of the listening descriptor comes with the
connections that are waiting. -/
inductive Move where
  | tickRound (round : Round)
  | tick (source : ℕ → Round)
  | wait (batch : List EpollEvent)
  | handle (arrivals : List Arrival) (now : ℤ)
  | run (index : ℕ) (io : TaskIo)

/-- The mask that `epoll_wait` compares a descriptor's events with. -/
def registered (http : HttpServer) (server : Server) (fd : ℤ) : Option Mask :=
  if fd = http.listenFd then some (http.mode.listenEvent ||| epollIn ||| (epollErr ||| epollHup))
  else (server.kernel.epoll fd).map (Interest.mask http.mode.connEvent)

/-- The body of the loop over `eventsList`. -/
def handle (http : HttpServer) (event : EpollEvent) (arrivals : List Arrival) (now : ℤ) (server : Server) :
    Except Fault Server :=
  if event.fd = http.listenFd then server.dealListen http.config arrivals
  else if event.events &&& (epollRdHup ||| epollHup ||| epollErr) ≠ 0 then do
    assert ((server.users event.fd).isSome)
    server.closeConn event.fd
  else if event.events &&& epollIn ≠ 0 then do
    assert ((server.users event.fd).isSome)
    server.dealRead http.config event.fd now
  else if event.events &&& epollOut ≠ 0 then do
    assert ((server.users event.fd).isSome)
    server.dealWrite http.config event.fd now
  else .ok server

def Admits (http : HttpServer) (state : State) : Move → Prop
  | .tickRound _ | .tick _ => 0 < http.config.timeoutMS ∧ state.ticked = false ∧ state.batch = []
  | .wait batch => (0 < http.config.timeoutMS → state.ticked = true) ∧ state.batch = [] ∧
      (batch.map (·.fd)).Nodup ∧ ∀ event ∈ batch, ∃ mask,
        http.registered state.server event.fd = some mask ∧ Delivers mask event.events
  | .handle arrivals _ => ∃ event, state.batch.head? = some event ∧
      (event.fd = http.listenFd → state.server.Admits http.config (.listen arrivals))
  | .run index io => state.server.Admits http.config (.run index io)

def step (http : HttpServer) (move : Move) (state : State) : Except Fault State :=
  match move with
  | .tickRound round => do
      .ok { state with server := ← state.server.tickRound round }
  | .tick source => do
      .ok { state with server := ← state.server.tick source, ticked := true }
  | .wait batch =>
      -- the registrations of the clients are one-shot, that of `listenFd` is not
      let fds := (batch.map (·.fd)).filter (· ≠ http.listenFd)
      .ok ⟨state.server.waited fds, false, batch⟩
  | .handle arrivals now =>
      match state.batch with
      | [] => .ok state
      | event :: rest => do
          .ok { state with server := ← http.handle event arrivals now state.server, batch := rest }
  | .run index io => do
      .ok { state with server := ← state.server.run http.config index io }

/-- No timer callback finds a pending task for its object. -/
def Spares (state : State) : Move → Prop
  | .tickRound round => state.server.Spares (.tickRound round)
  | .tick source => state.server.Spares (.tick source)
  | _ => True

/-- `Start`, which returns at once when `isClose` is set, and then never sets it. -/
def main (http : HttpServer) : System State Move where
  Init state := http.isClose = false ∧ ∃ clock, state = ⟨start http.table.isOpen clock, false, []⟩
  Step source move target := http.Admits source move ∧ http.step move source = .ok target

/-! ## The event loop it refines -/

def report (http : HttpServer) (event : EpollEvent) : Report :=
  if event.fd = http.listenFd then .listening else .client event.fd (.ofMask event.events)

def loop (http : HttpServer) (state : State) : Loop :=
  ⟨state.server, state.ticked, state.batch.map http.report⟩

/-- The move of the event loop. -/
def Move.ofEvent (http : HttpServer) (state : State) : Move → Server.Move
  | .tickRound round => .tickRound round
  | .tick source => .tick source
  | .wait batch => .wait (batch.map http.report)
  | .handle arrivals now =>
      if (state.batch.map (·.fd)).head? = some http.listenFd then .listen arrivals else .event now
  | .run index io => .run index io

/-- `Start` after a move, or as it was when the move breaks off. -/
def next (http : HttpServer) (move : Move) (state : State) : State :=
  match http.step move state with
  | .ok target => target
  | .error _ => state

variable {http : HttpServer} {state target : State} {move : Move}

/-- One more move of a run that spares the pending tasks, by evaluation. -/
theorem next_reachable (reached : (http.main.restrict Spares).Reachable state) (move : Move)
    (admits : http.Admits state move) (spares : Spares state move)
    (completes : (http.step move state).isOk = true) :
    (http.main.restrict Spares).Reachable (http.next move state) := by
  have ends : http.step move state = .ok (http.next move state) := by
    rw [next]
    cases outcome : http.step move state with
    | error fault =>
      rw [outcome] at completes
      cases completes
    | ok target => rfl
  have step : (http.main.restrict Spares).Step state move (http.next move state) := ⟨⟨admits, ends⟩, spares⟩
  exact .step reached step

theorem checked_bind {server : Server} {fd : ℤ} {α : Type} (next : HttpConn → Except Fault α) :
    (assert ((server.users fd).isSome) >>= fun _ => server.client fd >>= next) =
      server.client fd >>= next := by
  rw [client]
  cases server.users fd with
  | none => rfl
  | some client => rfl

/-- For a client's descriptor the branches of `Start` are those of `dispatch`. -/
theorem handle_client {event : EpollEvent} (apart : event.fd ≠ http.listenFd) (arrivals : List Arrival)
    (now : ℤ) (server : Server) : http.handle event arrivals now server =
      server.dispatch http.config event.fd (.ofMask event.events) now := by
  rw [handle, if_neg apart, dispatch]
  simp only [Events.ofMask, decide_eq_true_eq]
  split_ifs
  · exact checked_bind _
  · exact checked_bind _
  · exact checked_bind _
  · rfl

theorem report_fd? (event : EpollEvent) :
    (http.report event).fd? = if event.fd = http.listenFd then none else some event.fd := by
  rw [report]
  split_ifs <;> rfl

theorem filterMap_report (batch : List EpollEvent) :
    (batch.map http.report).filterMap Report.fd? = (batch.map (·.fd)).filter (· ≠ http.listenFd) := by
  induction batch with
  | nil => rfl
  | cons event rest ih =>
    rw [List.map_cons, List.map_cons, List.filterMap_cons, List.filter_cons, report_fd?, ih]
    split_ifs with same <;> simp_all

theorem nodup_report {batch : List EpollEvent} (distinct : (batch.map (·.fd)).Nodup) :
    ((batch.map http.report).map Report.fd?).Nodup := by
  have fds : (batch.map http.report).map Report.fd? =
      (batch.map (·.fd)).map fun fd => if fd = http.listenFd then none else some fd := by
    rw [List.map_map, List.map_map]
    exact List.map_congr_left fun event _ => report_fd? event
  rw [fds]
  refine distinct.map fun first second same => ?_
  split_ifs at same with isFirst isSecond
  · rw [isFirst, isSecond]
  · exact Option.some.inj same

/-- The moves of `main` are moves of the event loop. -/
theorem admits_loop (mode : http.mode = initEventMode http.config.trigMode)
    (admits : http.Admits state move) : (http.loop state).Admits http.config (move.ofEvent http state) := by
  cases move with
  | tickRound round => exact ⟨admits.1, admits.2.1, by rw [loop, admits.2.2]; rfl⟩
  | tick source => exact ⟨admits.1, admits.2.1, by rw [loop, admits.2.2]; rfl⟩
  | wait batch =>
    obtain ⟨ticked, empty, distinct, reports⟩ := admits
    refine ⟨ticked, by rw [loop, empty]; rfl, nodup_report distinct, fun fd events there => ?_⟩
    obtain ⟨event, member, isReport⟩ := List.mem_map.mp there
    rw [report] at isReport
    split_ifs at isReport with same
    obtain ⟨rfl, rfl⟩ := Report.client.inj isReport
    obtain ⟨mask, known, delivers⟩ := reports event member
    rw [registered, if_neg same, Option.map_eq_some_iff] at known
    obtain ⟨interest, found, rfl⟩ := known
    rw [mode] at delivers
    exact ⟨interest, found, interest.reports_of_delivers http.config delivers⟩
  | handle arrivals now =>
    obtain ⟨event, first, accepts⟩ := admits
    obtain ⟨rest, batch⟩ := List.head?_eq_some_iff.mp first
    rw [Move.ofEvent, batch, List.map_cons, List.head?_cons]
    split_ifs with same
    · have same := Option.some.inj same
      refine ⟨?_, accepts same⟩
      rw [loop, batch, List.map_cons, List.head?_cons, report, if_pos same]
    · have apart : event.fd ≠ http.listenFd := fun isListening => same (congrArg some isListening)
      refine ⟨event.fd, .ofMask event.events, ?_⟩
      rw [loop, batch, List.map_cons, List.head?_cons, report, if_neg apart]
  | run index io => exact admits

theorem step_loop (admits : http.Admits state move) :
    (http.loop state).step http.config (move.ofEvent http state) = (http.step move state).map http.loop := by
  cases move with
  | tickRound round =>
    simp only [Move.ofEvent, Loop.step, HttpServer.step, loop]
    cases state.server.tickRound round <;> rfl
  | tick source =>
    simp only [Move.ofEvent, Loop.step, HttpServer.step, loop]
    cases state.server.tick source <;> rfl
  | wait batch =>
    simp only [Move.ofEvent, Loop.step, HttpServer.step, loop, filterMap_report]
    rfl
  | handle arrivals now =>
    obtain ⟨event, first, _⟩ := admits
    obtain ⟨rest, batch⟩ := List.head?_eq_some_iff.mp first
    simp only [Move.ofEvent, HttpServer.step, loop, batch, List.map_cons, List.head?_cons, Option.some.injEq]
    split_ifs with same
    · simp only [Loop.step, handle, if_pos same]
      cases state.server.dealListen http.config arrivals <;> rfl
    · simp only [Loop.step, report, if_neg same, handle_client same]
      cases state.server.dispatch http.config event.fd (.ofMask event.events) now <;> rfl
  | run index io =>
    simp only [Move.ofEvent, Loop.step, HttpServer.step, loop]
    cases state.server.run http.config index io <;> rfl

theorem spares_loop (spares : Spares state move) : (http.loop state).Spares (move.ofEvent http state) := by
  cases move with
  | tickRound | tick => exact spares
  | wait | run => trivial
  | handle arrivals now =>
    rw [Move.ofEvent]
    split_ifs <;> trivial

/-- A step of `main` is a step of the event loop, and leaves a descriptor of no object alone. -/
theorem loop_step (mode : http.mode = initEventMode http.config.trigMode)
    (before : ((eventLoop http.config).restrict Loop.Spares).Reachable (http.loop state))
    (admits : http.Admits state move) (spares : Spares state move)
    (run : http.step move state = .ok target) :
    ((eventLoop http.config).restrict Loop.Spares).Step (http.loop state) (move.ofEvent http state)
        (http.loop target) ∧
      ∀ fd, state.server.Untouched fd → target.server.Untouched fd := by
  have accepts := admits_loop mode admits
  have spared : (http.loop state).Spares (move.ofEvent http state) := spares_loop spares
  have ends : (http.loop state).step http.config (move.ofEvent http state) = .ok (http.loop target) := by
    rw [step_loop admits, run]
    rfl
  refine ⟨⟨⟨accepts, ends⟩, spared⟩, fun fd untouched => ?_⟩
  obtain ⟨server, reached, undelivered⟩ := undelivered_of_reachable before
  obtain ⟨sound, owner⟩ := owner_of_spared reached
  obtain ⟨next, path, interests, isNext, delivering⟩ := undelivered.step sound owner accepts spared ends
  obtain ⟨replaced, rfl, delivered⟩ := undelivered
  have untouched : (state.server.overlay replaced).Untouched fd := by
    refine ⟨untouched.isOpen, untouched.users, ?_, untouched.closes⟩
    have free : replaced fd = none := by
      by_contra waits
      cases untouched.epoll.symm.trans (delivered.disarmed _ waits)
    simp only [overlay, free, Option.none_or, untouched.epoll]
  have after := untouched.path sound path
  rw [isNext] at after
  exact ⟨after.isOpen, after.users, (Option.or_eq_none_iff.mp after.epoll).2, after.closes⟩

theorem loop_of_reachable {setup : Setup} (up : http.Up setup)
    (reached : (http.main.restrict Spares).Reachable state) :
    ((eventLoop setup.toConfig).restrict Loop.Spares).Reachable (http.loop state) ∧
      state.server.Untouched http.listenFd ∧ state.server.Untouched http.epollFd := by
  have mode : http.mode = initEventMode http.config.trigMode := by rw [up.mode, up.config]
  rw [← up.config]
  induction reached with
  | init start =>
    obtain ⟨_, clock, rfl⟩ := start
    have fresh {fd : ℤ} (isOpen : http.table.isOpen fd = true) :
        (start http.table.isOpen clock).Untouched fd :=
      ⟨isOpen, rfl, rfl, fun call made => by cases made⟩
    exact ⟨.init ⟨_, _, rfl⟩, fresh up.listens, fresh up.polls⟩
  | step _ move ih =>
    obtain ⟨before, listens, polls⟩ := ih
    obtain ⟨⟨admits, run⟩, spares⟩ := move
    obtain ⟨step, keeps⟩ := loop_step mode before admits spares run
    exact ⟨.step before step, keeps _ listens, keeps _ polls⟩

theorem serving_of_reachable (reached : (http.main.restrict Spares).Reachable state) :
    http.isClose = false := by
  induction reached with
  | init start => exact start.1
  | step _ _ ih => exact ih

/-- A task that the event loop runs is one that `main` runs. -/
theorem Move.eq_run {index : ℕ} {io : TaskIo} (isRun : move.ofEvent http state = .run index io) :
    move = .run index io := by
  cases move with
  | run => cases isRun; rfl
  | handle =>
    rw [Move.ofEvent] at isRun
    split_ifs at isRun
  | tickRound | tick | wait => cases isRun

/-- From the constructor on, whatever the system has answered to it: in every run of the loop of `Start`
whose ticks spare the pending tasks, the state is one of the event loop; no connection ever has the
listening descriptor or that of epoll, and no step closes them; and every move comes to its end, but for a
task in which a signal ends the process or whose response needs a file that opens and cannot be mapped. Where
a move compares past the end of the heap, the comparison has to end the upward sift. -/
theorem main_serves {setup : Setup} {isOpen : ℤ → Bool} (fresh : setup.Fresh isOpen)
    (built : setup.construct isOpen = .ok http) (reached : (http.main.restrict Spares).Reachable state) :
    ((eventLoop setup.toConfig).restrict Loop.Spares).Reachable (http.loop state) ∧
      (state.server.Untouched http.listenFd ∧ state.server.Untouched http.epollFd) ∧
      ∀ move, http.Admits state move → (move.ofEvent http state).EndsAtRoot →
        (∃ target, http.step move state = .ok target) ∨
          ∃ index io task fault, move = .run index io ∧ state.server.pending[index]? = some task ∧
            http.step move state = .error fault ∧
            Kills setup.toConfig state.server task io fault := by
  have serving := serving_of_reachable reached
  have up : http.Up setup := by
    rcases setup.construct_cases fresh built with ⟨_, up⟩ | ⟨down, _⟩ | ⟨down, _⟩
    · exact up
    · cases serving.symm.trans down
    · cases serving.symm.trans down
  obtain ⟨before, untouched⟩ := loop_of_reachable up reached
  refine ⟨before, untouched, fun move admits ends => ?_⟩
  have accepts := admits_loop (by rw [up.mode, up.config]) admits
  rw [up.config] at accepts
  have same := step_loop admits
  rw [up.config] at same
  rcases Loop.move_ends before accepts ends with ⟨_, run⟩ | ⟨index, io, task, fault, isRun, queued, crash, kills⟩
  · obtain ⟨target, run, _⟩ := map_ok (same.symm.trans run)
    exact .inl ⟨target, run⟩
  · refine .inr ⟨index, io, task, fault, Move.eq_run isRun, queued, ?_, kills⟩
    rw [crash] at same
    cases ran : http.step move state with
    | ok target =>
      rw [ran] at same
      cases same
    | error fault =>
      rw [ran] at same
      obtain rfl := Except.error.inj same
      rfl

/-- The arguments that `main` gives, started in `/srv` with the first three descriptors open. -/
private def mainSetup : Setup where
  trigMode := 3
  timeoutMS := 60000
  port := 8093
  threadNum := 6
  cwd := bareHost.cwd
  cwd_name := bareHost.cwd_name
  memory := List.replicate 256 7
  memory_size := List.length_replicate ..
  garbage := 0
  epollFd := 3
  socket := 4
  setLinger := 0
  setReuse := 0
  bound := 0
  listened := 0
  added := 0

private def mainHttp : HttpServer where
  config := ⟨3, 60000⟩
  mode := initEventMode 3
  isClose := false
  listenFd := 4
  epollFd := 3
  srcDir := ascii "/srv/resources/" ++ 0 :: List.replicate 240 7
  table := ((⟨(· ∈ [0, 1, 2]), []⟩ : Descriptors).opened 3).opened 4

private def ticked : State :=
  mainHttp.next (.tick fun _ => ⟨0, .ok true⟩) ⟨start mainHttp.table.isOpen 0, false, []⟩

private def listened : State := mainHttp.next (.wait [⟨4, epollIn⟩]) ticked

private def handled : State :=
  mainHttp.next (.handle [⟨5, 0, .ok true, 0, ⟨0, 0⟩, ⟨0, 0⟩⟩] 0) listened

private theorem mainSetup_construct : mainSetup.construct (· ∈ [0, 1, 2]) = .ok mainHttp := by
  have named : mainSetup.srcDir = .ok mainHttp.srcDir := by decide +kernel
  rw [Setup.construct, named]
  rfl

private theorem handled_reachable : (mainHttp.main.restrict Spares).Reachable handled := by
  have first : (mainHttp.main.restrict Spares).Reachable ⟨start mainHttp.table.isOpen 0, false, []⟩ :=
    .init ⟨rfl, 0, rfl⟩
  have second : (mainHttp.main.restrict Spares).Reachable ticked :=
    next_reachable first (.tick fun _ => ⟨0, .ok true⟩) ⟨by decide, rfl, rfl⟩
      (fun _ _ task queued => by cases queued) (by decide +kernel)
  have third : (mainHttp.main.restrict Spares).Reachable listened := by
    refine next_reachable second (.wait [⟨4, epollIn⟩])
      ⟨fun _ => by decide +kernel, by decide +kernel, by decide, ?_⟩ trivial rfl
    intro event there
    rw [List.mem_singleton.mp there]
    exact ⟨_, rfl, by decide +kernel⟩
  refine next_reachable third _ ⟨⟨4, epollIn⟩, by decide +kernel, fun _ => ?_⟩ trivial (by decide +kernel)
  exact ⟨by decide +kernel, by decide⟩

/-- The first client has joined, and the listening descriptor is still the server's own. -/
theorem main_serves_first : handled.server.connected 5 = true ∧ handled.server.Untouched 4 := by
  have fresh : mainSetup.Fresh (· ∈ [0, 1, 2]) := ⟨by decide, by decide, fun _ => by decide⟩
  obtain ⟨_, ⟨listens, _⟩, _⟩ := main_serves fresh mainSetup_construct handled_reachable
  exact ⟨by decide +kernel, listens⟩

end HttpServer

end XWebServer
