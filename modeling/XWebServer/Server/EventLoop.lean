import XWebServer.Server.Survival

/-! # The loop of `Start`

`epoll_wait` reports a batch of events and disarms all their descriptors at once; the handlers run one
after the other, while workers go on with other connections. In the runs whose ticks spare the pending
tasks this makes no difference: every state of the loop is a state of the machine that delivers the
events one at a time, with the registrations of the waiting reports put back.
-/

namespace XWebServer

open Transition System HeapTimer HttpConn

namespace Server

/-- What `epoll_wait` reports of one descriptor. -/
inductive Report where
  | listening
  | client (fd : ℤ) (events : Events)
deriving DecidableEq, Repr

/-- `Start` between two calls: whether `GetNextTick` has returned in this round of the loop, and what is
left of the batch. -/
structure Loop where
  server : Server
  ticked : Bool
  reports : List Report

/-- What the main thread does next, or a worker. -/
inductive Move where
  | tickRound (round : Round)
  | tick (source : ℕ → Round)
  | wait (reports : List Report)
  | listen (arrivals : List Arrival)
  | event (now : ℤ)
  | run (index : ℕ) (io : TaskIo)

/-- The client's descriptor of a report. -/
def Report.fd? : Report → Option ℤ
  | .listening => none
  | .client fd _ => some fd

/-- `epoll_wait` reports these descriptors. -/
def waited (fds : List ℤ) (server : Server) : Server :=
  { server with
    kernel := { server.kernel with
      epoll := fun fd =>
        if fd ∈ fds then (server.kernel.epoll fd).map fun _ => .disarmed else server.kernel.epoll fd } }

namespace Loop

/-- The next move of the main thread is the one that `Start` is at; a worker may run at any time. -/
def Admits (config : Config) (loop : Loop) : Move → Prop
  | .tickRound _ | .tick _ => 0 < config.timeoutMS ∧ loop.ticked = false ∧ loop.reports = []
  | .wait reports => (0 < config.timeoutMS → loop.ticked = true) ∧ loop.reports = [] ∧
      (reports.map Report.fd?).Nodup ∧ ∀ fd events, .client fd events ∈ reports →
        ∃ interest, loop.server.kernel.epoll fd = some interest ∧ interest.Reports events
  | .listen arrivals => loop.reports.head? = some .listening ∧
      loop.server.Admits config (.listen arrivals)
  | .event _ => ∃ fd events, loop.reports.head? = some (.client fd events)
  | .run index io => loop.server.Admits config (.run index io)

def step (config : Config) (move : Move) (loop : Loop) : Except Fault Loop :=
  match move with
  | .tickRound round => do
      .ok { loop with server := ← loop.server.tickRound round }
  | .tick source => do
      .ok { loop with server := ← loop.server.tick source, ticked := true }
  | .wait reports => .ok ⟨loop.server.waited (reports.filterMap Report.fd?), false, reports⟩
  | .listen arrivals => do
      .ok { loop with server := ← loop.server.dealListen config arrivals, reports := loop.reports.tail }
  | .event now =>
      match loop.reports with
      | .client fd events :: rest => do
          .ok { loop with server := ← loop.server.dispatch config fd events now, reports := rest }
      | _ => .ok loop
  | .run index io => do
      .ok { loop with server := ← loop.server.run config index io }

/-- The loop after a move, or as it was when the move breaks off. -/
def next (config : Config) (move : Move) (loop : Loop) : Loop :=
  match loop.step config move with
  | .ok target => target
  | .error _ => loop

/-- No timer callback finds a pending task for its object. -/
def Spares (loop : Loop) : Move → Prop
  | .tickRound round => loop.server.Spares (.tickRound round)
  | .tick source => loop.server.Spares (.tick source)
  | _ => True

end Loop

def eventLoop (config : Config) : System Loop Move where
  Init loop := ∃ isOpen clock, loop = ⟨start isOpen clock, false, []⟩
  Step source move target := source.Admits config move ∧ source.step config move = .ok target

/-- One more move of a run that spares the pending tasks, by evaluation. -/
theorem Loop.next_reachable {config : Config} {loop : Loop}
    (reached : ((eventLoop config).restrict Loop.Spares).Reachable loop) (move : Move)
    (admits : loop.Admits config move) (spares : loop.Spares move)
    (completes : (loop.step config move).isOk = true) :
    ((eventLoop config).restrict Loop.Spares).Reachable (loop.next config move) := by
  have ends : loop.step config move = .ok (loop.next config move) := by
    rw [Loop.next]
    cases outcome : loop.step config move with
    | error fault =>
      rw [outcome] at completes
      cases completes
    | ok target => rfl
  have move : ((eventLoop config).restrict Loop.Spares).Step loop move (loop.next config move) :=
    ⟨⟨admits, ends⟩, spares⟩
  exact .step reached move

/-! ## Registrations that no call looks at -/

/-- Some registrations replaced. -/
def overlay (interests : ℤ → Option Interest) (server : Server) : Server :=
  { server with
    kernel := { server.kernel with epoll := fun fd => (interests fd).or (server.kernel.epoll fd) } }

section

variable (config : Config) {interests : ℤ → Option Interest}

theorem or_update {epoll : ℤ → Option Interest} {fd : ℤ} (free : interests fd = none)
    (interest : Option Interest) :
    (fun other => (interests other).or (Function.update epoll fd interest other)) =
      Function.update (fun other => (interests other).or (epoll other)) fd interest := by
  funext other
  rcases eq_or_ne other fd with rfl | apart
  · rw [Function.update_self, Function.update_self, free, Option.none_or]
  · rw [Function.update_of_ne apart, Function.update_of_ne apart]

theorem overlay_closeKernel {fd : ℤ} (free : interests fd = none) (caller : Option ℤ) (server : Server) :
    { server.overlay interests with kernel := (server.overlay interests).kernel.close caller fd } =
      overlay interests { server with kernel := server.kernel.close caller fd } := by
  simp only [overlay, Kernel.close, or_update free]

theorem overlay_modFd {fd : ℤ} (free : interests fd = none) (interest : Interest) (server : Server) :
    { server.overlay interests with kernel := (server.overlay interests).kernel.modFd fd interest } =
      overlay interests { server with kernel := server.kernel.modFd fd interest } := by
  simp only [overlay, Kernel.modFd, free, Option.none_or]
  cases server.kernel.epoll fd with
  | none => rfl
  | some before => simp only [or_update free]

theorem overlay_closeConn {object : ℤ} (free : interests object = none) {server : Server}
    (owns : ∀ client, server.users object = some client → client.sockFd = object) :
    (server.overlay interests).closeConn object = (server.closeConn object).map (overlay interests) := by
  have looked : (server.overlay interests).client object = server.client object := rfl
  rw [closeConn, closeConn, looked]
  cases found : server.client object with
  | error fault => rfl
  | ok client =>
    have isObject := owns client (client_ok.mp found)
    simp only [ok_bind, Except.map, close, setUser, isObject]
    cases client.isClose with
    | true => simp only [if_true, overlay, Kernel.delFd, or_update free]
    | false =>
      simp only [Bool.false_eq_true, if_false, overlay, Kernel.delFd, Kernel.close, or_update free]

theorem overlay_addClient {arrival : Arrival} (free : interests arrival.fd = none) (server : Server) :
    (server.overlay interests).addClient config arrival =
      (server.addClient config arrival).map (overlay interests) := by
  have users : (server.overlay interests).users = server.users := rfl
  have timer : (server.overlay interests).timer = server.timer := rfl
  rw [addClient, addClient, users, timer]
  cases assert (0 < arrival.fd) with
  | error fault => rfl
  | ok =>
    simp only [ok_bind]
    cases ((server.users arrival.fd).getD (.new arrival.iovCnt arrival.iov0 arrival.iov1)).init
      arrival.fd with
    | error fault => rfl
    | ok client =>
      simp only [ok_bind]
      cases addTimer config arrival server.timer with
      | error fault => rfl
      | ok timer =>
        simp only [ok_bind, Except.map, overlay, Kernel.addFd, Kernel.initialise, free, Option.none_or]
        cases server.kernel.epoll arrival.fd with
        | none => simp only [or_update free]
        | some before => rfl

theorem overlay_sendError {fd : ℤ} (free : interests fd = none) (server : Server) :
    (server.overlay interests).sendError fd = (server.sendError fd).map (overlay interests) := by
  rw [sendError, sendError]
  cases assert (0 < fd) with
  | error fault => rfl
  | ok => exact congrArg Except.ok (overlay_closeKernel free none server)

theorem overlay_dealListen {arrivals : List Arrival}
    (free : ∀ arrival ∈ arrivals, interests arrival.fd = none) (server : Server) :
    (server.overlay interests).dealListen config arrivals =
      (server.dealListen config arrivals).map (overlay interests) := by
  induction arrivals generalizing server with
  | nil => rfl
  | cons arrival rest ih =>
    have first := free arrival List.mem_cons_self
    let accepted : Server := { server with kernel := server.kernel.accept arrival.fd }
    have accepts : { server.overlay interests with
        kernel := (server.overlay interests).kernel.accept arrival.fd } = accepted.overlay interests := rfl
    have count : (accepted.overlay interests).userCount = accepted.userCount := rfl
    rw [dealListen, dealListen, accepts]
    dsimp only
    rw [count]
    split_ifs with negative full edge
    · rfl
    · exact overlay_sendError first accepted
    · rw [overlay_addClient config first]
      change _ = (accepted.addClient config arrival >>= dealListen config rest).map _
      cases accepted.addClient config arrival with
      | error fault => rfl
      | ok next => exact ih (fun other there => free other (List.mem_cons_of_mem _ there)) next
    · rw [overlay_addClient config first]
      change _ = (accepted.addClient config arrival >>= .ok).map _
      cases accepted.addClient config arrival <;> rfl

theorem overlay_dispatch {fd : ℤ} (free : interests fd = none) {server : Server}
    (owns : ∀ client, server.users fd = some client → client.sockFd = fd) (events : Events) (now : ℤ) :
    (server.overlay interests).dispatch config fd events now =
      (server.dispatch config fd events now).map (overlay interests) := by
  have deals (kind : TaskKind) : (server.overlay interests).deal kind config fd now =
      (server.deal kind config fd now).map (overlay interests) := by
    have looked : (server.overlay interests).client fd = server.client fd := rfl
    have timer : (server.overlay interests).timer = server.timer := rfl
    rw [deal, deal, looked, timer]
    cases server.client fd with
    | error fault => rfl
    | ok client =>
      simp only [ok_bind]
      cases extentTime config client now server.timer <;> rfl
  rw [dispatch, dispatch]
  split_ifs
  · exact overlay_closeConn free owns
  · exact deals .onRead
  · exact deals .onWrite
  · rfl

theorem overlay_handBack {object : ℤ} (free : interests object = none) (server : Server)
    {decision : Decision} {client : HttpConn} (owns : client.sockFd = object) :
    (server.overlay interests).handBack object decision client =
      (server.handBack object decision client).map (overlay interests) := by
  have stored : (server.overlay interests).setUser object client =
    (server.setUser object client).overlay interests := rfl
  simp only [handBack, stored, owns]
  cases decision with
  | armIn => exact congrArg Except.ok (overlay_modFd free .input _)
  | armOut => exact congrArg Except.ok (overlay_modFd free .output _)
  | close =>
    refine overlay_closeConn free fun other known => ?_
    have stored : (server.setUser object client).users object = some client := Function.update_self ..
    obtain rfl := Option.some.inj (stored.symm.trans known)
    exact owns

theorem overlay_run (index : ℕ) {server : Server}
    (sockFd : ∀ object client, server.users object = some client → client.sockFd = object)
    (free : ∀ task, server.pending[index]? = some task → interests task.object = none) (io : TaskIo) :
    (server.overlay interests).run config index io =
      (server.run config index io).map (overlay interests) := by
  have pending : (server.overlay interests).pending = server.pending := rfl
  rw [Server.run, Server.run, pending]
  cases queued : server.pending[index]? with
  | none => rfl
  | some task =>
    have looked : (server.overlay interests).client task.object = server.client task.object := rfl
    dsimp only
    rw [looked]
    cases found : server.client task.object with
    | error fault => rfl
    | ok client =>
      simp only [ok_bind]
      cases ran : runTask config task io client with
      | error fault => rfl
      | ok result =>
        obtain ⟨decision, next⟩ := result
        have owns : next.sockFd = task.object :=
          (runTask_same ran).sockFd.trans (sockFd _ _ (client_ok.mp found))
        simp only [ok_bind]
        exact overlay_handBack (free task queued) { server with pending := server.pending.eraseIdx index } owns

/-- The registration of a report that waits is put back. -/
theorem disarm_overlay {server : Server} {fd : ℤ} {interest : Interest}
    (found : interests fd = some interest) (disarmed : server.kernel.epoll fd = some .disarmed) :
    (server.overlay interests).disarm fd = server.overlay (Function.update interests fd none) := by
  have registered : (server.overlay interests).kernel.epoll fd = some interest := by
    simp only [overlay, found, Option.some_or]
  have same : Function.update (fun other => (interests other).or (server.kernel.epoll other)) fd
      (some .disarmed) =
        fun other => (Function.update interests fd none other).or (server.kernel.epoll other) := by
    funext other
    rcases eq_or_ne other fd with rfl | apart
    · rw [Function.update_self, Function.update_self, Option.none_or, disarmed]
    · rw [Function.update_of_ne apart, Function.update_of_ne apart]
  rw [disarm, Kernel.modFd_of _ registered]
  simp only [overlay, same]

end

/-! ## The batch, one event at a time -/

/-- The reports that wait are those of the descriptors whose registrations are replaced, by what they
were armed for. -/
structure Delivering (loop : Loop) (interests : ℤ → Option Interest) : Prop where
  disarmed : ∀ fd, interests fd ≠ none → loop.server.kernel.epoll fd = some .disarmed
  reported : ∀ fd events, .client fd events ∈ loop.reports →
    ∃ interest, interests fd = some interest ∧ interest.Reports events
  only : ∀ fd, interests fd ≠ none → ∃ events, .client fd events ∈ loop.reports
  distinct : (loop.reports.map Report.fd?).Nodup

/-- The server as it is when none of the waiting reports has been delivered. -/
def Undelivered (loop : Loop) (server : Server) : Prop :=
  ∃ interests, server = loop.server.overlay interests ∧ Delivering loop interests

variable {config : Config}

/-- Nothing waits, and the server is the one of the loop. -/
theorem Delivering.overlay_eq {loop : Loop} {interests : ℤ → Option Interest}
    (delivering : Delivering loop interests) (empty : loop.reports = []) :
    loop.server.overlay interests = loop.server := by
  have free (fd : ℤ) : interests fd = none := by
    by_contra replaced
    obtain ⟨events, waits⟩ := delivering.only fd replaced
    rw [empty] at waits
    cases waits
  simp only [overlay, free, Option.none_or]

/-- A call that looks at no registration that is replaced runs in both, and leaves them disarmed. -/
theorem Delivering.acts {loop : Loop} {interests : ℤ → Option Interest}
    (delivering : Delivering loop interests) (act : Server → Except Fault Server) {server : Server}
    (commutes : ∀ others : ℤ → Option Interest, (∀ fd, interests fd = none → others fd = none) →
      act (loop.server.overlay others) = (act loop.server).map (overlay others))
    (run : act loop.server = .ok server) (ticked : Bool) :
    act (loop.server.overlay interests) = .ok (server.overlay interests) ∧
      Delivering ⟨server, ticked, loop.reports⟩ interests := by
  refine ⟨by rw [commutes interests fun _ => id, run]; rfl, ?_⟩
  refine ⟨fun fd replaced => ?_, delivering.reported, delivering.only, delivering.distinct⟩
  -- replacing these registrations by what they are changes nothing, before the call and behind it
  let disarmed (other : ℤ) : Option Interest := (interests other).map fun _ => .disarmed
  have before : loop.server.overlay disarmed = loop.server := by
    have same (other : ℤ) : (disarmed other).or (loop.server.kernel.epoll other) =
        loop.server.kernel.epoll other := by
      cases found : interests other with
      | none => simp only [disarmed, found, Option.map_none, Option.none_or]
      | some interest =>
        simp only [disarmed, found, Option.map_some, Option.some_or]
        exact (delivering.disarmed other (by rw [found]; exact Option.some_ne_none _)).symm
    simp only [overlay, same]
  have after : server.overlay disarmed = server := by
    have commutes := commutes disarmed fun other free => by simp only [disarmed, free, Option.map_none]
    rw [before, run] at commutes
    exact (Except.ok.inj commutes).symm
  obtain ⟨interest, found⟩ := Option.ne_none_iff_exists'.mp replaced
  rw [← after]
  simp only [overlay, disarmed, found, Option.map_some, Option.some_or]

/-- The listening descriptor's report is no client's. -/
theorem Delivering.heard {loop : Loop} {interests : ℤ → Option Interest}
    (delivering : Delivering loop interests) {rest : List Report}
    (reports : loop.reports = .listening :: rest) :
    Delivering { loop with reports := rest } interests := by
  have kept (fd : ℤ) (events : Events) :
      .client fd events ∈ loop.reports ↔ .client fd events ∈ rest := by
    rw [reports, List.mem_cons]
    exact or_iff_right (by simp only [reduceCtorEq, not_false_eq_true])
  refine ⟨delivering.disarmed, fun fd events waits => ?_, fun fd replaced => ?_, ?_⟩
  · exact delivering.reported fd events ((kept fd events).mpr waits)
  · obtain ⟨events, waits⟩ := delivering.only fd replaced
    exact ⟨events, (kept fd events).mp waits⟩
  · have distinct := delivering.distinct
    rw [reports] at distinct
    exact distinct.tail

/-- The first client's report is delivered. -/
theorem Delivering.taken {loop : Loop} {interests : ℤ → Option Interest}
    (delivering : Delivering loop interests) {fd : ℤ} {events : Events} {rest : List Report}
    (reports : loop.reports = .client fd events :: rest) :
    Delivering { loop with reports := rest } (Function.update interests fd none) := by
  have distinct := delivering.distinct
  rw [reports, List.map_cons, List.nodup_cons] at distinct
  have others (other : ℤ) (replaced : Function.update interests fd none other ≠ none) :
      other ≠ fd ∧ interests other ≠ none := by
    rcases eq_or_ne other fd with rfl | apart
    · exact absurd (Function.update_self ..) replaced
    · rw [Function.update_of_ne apart] at replaced
      exact ⟨apart, replaced⟩
  refine ⟨fun other replaced => ?_, fun other events' waits => ?_, fun other replaced => ?_, distinct.2⟩
  · exact delivering.disarmed other (others other replaced).2
  · have apart : other ≠ fd := by
      rintro rfl
      exact distinct.1 (List.mem_map.mpr ⟨_, waits, rfl⟩)
    rw [Function.update_of_ne apart]
    exact delivering.reported other events' (by rw [reports]; exact List.mem_cons_of_mem _ waits)
  · obtain ⟨events', waits⟩ := delivering.only other (others other replaced).2
    rw [reports, List.mem_cons] at waits
    rcases waits with same | behind
    · cases same
      exact absurd rfl (others _ replaced).1
    · exact ⟨events', behind⟩

theorem delivering_nil (server : Server) (ticked : Bool) : Undelivered ⟨server, ticked, []⟩ server :=
  ⟨fun _ => none, rfl, ⟨fun _ replaced => absurd rfl replaced, fun _ _ waits => (by cases waits),
    fun _ replaced => absurd rfl replaced, .nil⟩⟩

theorem undelivered_wait {server : Server} {reports : List Report}
    (distinct : (reports.map Report.fd?).Nodup)
    (registered : ∀ fd events, .client fd events ∈ reports →
      ∃ interest, server.kernel.epoll fd = some interest ∧ interest.Reports events) :
    Undelivered ⟨server.waited (reports.filterMap Report.fd?), false, reports⟩ server := by
  have waits (fd : ℤ) : fd ∈ reports.filterMap Report.fd? ↔ ∃ events, .client fd events ∈ reports := by
    rw [List.mem_filterMap]
    constructor
    · rintro ⟨report, there, isFd⟩
      cases report with
      | listening => cases isFd
      | client other events =>
        obtain rfl := Option.some.inj isFd
        exact ⟨events, there⟩
    · rintro ⟨events, there⟩
      exact ⟨_, there, rfl⟩
  refine ⟨fun fd => if fd ∈ reports.filterMap Report.fd? then server.kernel.epoll fd else none, ?_, ?_⟩
  · have same (fd : ℤ) : (if fd ∈ reports.filterMap Report.fd? then server.kernel.epoll fd else none).or
        (if fd ∈ reports.filterMap Report.fd? then (server.kernel.epoll fd).map fun _ => .disarmed
          else server.kernel.epoll fd) = server.kernel.epoll fd := by
      split_ifs with waiting
      · cases server.kernel.epoll fd <;> rfl
      · rfl
    simp only [overlay, waited, same]
  · refine ⟨fun fd replaced => ?_, fun fd events there => ?_, fun fd replaced => ?_, distinct⟩
    · split_ifs at replaced with waiting
      · obtain ⟨interest, found⟩ := Option.ne_none_iff_exists'.mp replaced
        simp only [waited, waiting, if_true, found, Option.map_some]
      · exact absurd rfl replaced
    · obtain ⟨interest, found, reports⟩ := registered fd events there
      exact ⟨interest, by rw [if_pos ((waits fd).mpr ⟨events, there⟩), found], reports⟩
    · split_ifs at replaced with waiting
      · exact (waits fd).mp waiting
      · exact absurd rfl replaced

/-- A worker's connection has no report that waits. -/
theorem Delivering.free_of_task {loop : Loop} {interests : ℤ → Option Interest}
    (delivering : Delivering loop interests) (owner : (loop.server.overlay interests).OneOwner)
    {index : ℕ} {task : Task} (queued : loop.server.pending[index]? = some task) :
    interests task.object = none := by
  by_contra replaced
  have inside : (loop.server.overlay interests).pending[index]? = some task := queued
  obtain ⟨disarmed, _⟩ := owner.erase inside
  obtain ⟨events, waits⟩ := delivering.only _ replaced
  obtain ⟨interest, found, reports⟩ := delivering.reported _ _ waits
  simp only [overlay, found, Option.some_or, Option.some.injEq] at disarmed
  rw [disarmed] at reports
  exact reports

/-- Nor has a descriptor that `accept` returns. -/
theorem free_of_closed {loop : Loop} {interests : ℤ → Option Interest}
    (sound : (loop.server.overlay interests).Sound) {fd : ℤ}
    (closed : loop.server.kernel.isOpen fd = false) : interests fd = none := by
  have free : (loop.server.overlay interests).kernel.isOpen fd = false := closed
  have unregistered := (sound.idle free).2
  exact (Option.or_eq_none_iff.mp unregistered).1

section

variable {loop target : Loop} {interests : ℤ → Option Interest}

/-- A worker's step is the same step of the machine. -/
theorem Delivering.run (delivering : Delivering loop interests)
    (sound : (loop.server.overlay interests).Sound) (owner : (loop.server.overlay interests).OneOwner)
    {index : ℕ} {io : TaskIo} (admits : loop.Admits config (.run index io))
    (step : loop.step config (.run index io) = .ok target) :
    ∃ server, (machine config).Step (loop.server.overlay interests) (.run index io) server ∧
      Undelivered target server := by
  obtain ⟨server, run, ends⟩ := bind_ok step
  obtain rfl := Except.ok.inj ends
  have sockFd : ∀ object client, loop.server.users object = some client → client.sockFd = object :=
    sound.sockFd
  obtain ⟨runs, after⟩ := delivering.acts (Server.run config index io)
    (fun others free => overlay_run config index sockFd
      (fun task queued => free _ (delivering.free_of_task owner queued)) io) run loop.ticked
  exact ⟨_, ⟨admits, runs⟩, interests, rfl, after⟩

/-- So is a call of `DealListen` ... -/
theorem Delivering.listen (delivering : Delivering loop interests)
    (sound : (loop.server.overlay interests).Sound) {arrivals : List Arrival}
    (admits : loop.Admits config (.listen arrivals))
    (step : loop.step config (.listen arrivals) = .ok target) :
    ∃ server, (machine config).Step (loop.server.overlay interests) (.listen arrivals) server ∧
      Undelivered target server := by
  obtain ⟨first, accepts⟩ := admits
  obtain ⟨rest, reports⟩ := List.head?_eq_some_iff.mp first
  obtain ⟨server, run, ends⟩ := bind_ok step
  obtain rfl := Except.ok.inj ends
  obtain ⟨runs, after⟩ := delivering.acts (Server.dealListen config arrivals)
    (fun others free => overlay_dealListen config
      (fun arrival there => free _ (free_of_closed sound (accepts.1 arrival there).2)) loop.server)
    run loop.ticked
  refine ⟨_, ⟨accepts, runs⟩, interests, rfl, ?_⟩
  have heard := after.heard reports
  rwa [show rest = loop.reports.tail by rw [reports, List.tail_cons]] at heard

/-- ... and the handler of the first report: the machine delivers it now. -/
theorem Delivering.event (delivering : Delivering loop interests)
    (sound : (loop.server.overlay interests).Sound) {now fd : ℤ} {events : Events}
    (first : loop.reports.head? = some (.client fd events))
    (step : loop.step config (.event now) = .ok target) :
    ∃ server, (machine config).Step (loop.server.overlay interests) (.event fd events now) server ∧
      Undelivered target server := by
  obtain ⟨rest, reports⟩ := List.head?_eq_some_iff.mp first
  simp only [Loop.step, reports] at step
  obtain ⟨server, run, ends⟩ := bind_ok step
  obtain rfl := Except.ok.inj ends
  have waits : .client fd events ∈ loop.reports := by
    rw [reports]
    exact List.mem_cons_self
  obtain ⟨interest, found, answers⟩ := delivering.reported fd events waits
  have registered : (loop.server.overlay interests).kernel.epoll fd = some interest := by
    simp only [overlay, found, Option.some_or]
  have disarmed := delivering.disarmed fd (by rw [found]; exact Option.some_ne_none _)
  have owns : ∀ client, loop.server.users fd = some client → client.sockFd = fd := sound.sockFd fd
  obtain ⟨runs, after⟩ := (delivering.taken reports).acts (Server.dispatch config fd events now)
    (fun others free => overlay_dispatch config (free fd (Function.update_self ..)) owns events now)
    run loop.ticked
  refine ⟨_, ⟨⟨interest, registered, answers⟩, ?_⟩, _, rfl, after⟩
  change ((loop.server.overlay interests).disarm fd).dispatch config fd events now = _
  rw [disarm_overlay found disarmed]
  exact runs

/-- Between two rounds of the loop the timer ticks as in the machine. -/
theorem Delivering.timer (delivering : Delivering loop interests) (action : Action) {ticked : Bool}
    {server : Server} (on : 0 < config.timeoutMS) (empty : loop.reports = [])
    (timer : ∀ server : Server, server.Admits config action ↔ 0 < config.timeoutMS)
    (run : loop.server.step config action = .ok server) (spares : loop.server.Spares action) :
    ((machine config).restrict Server.Spares).Step (loop.server.overlay interests) action server ∧
      Undelivered ⟨server, ticked, loop.reports⟩ server := by
  rw [delivering.overlay_eq empty, empty]
  exact ⟨⟨⟨(timer _).mpr on, run⟩, spares⟩, delivering_nil server ticked⟩

/-- Every step of the loop is a step of the machine, or, for `epoll_wait`, none. -/
theorem Undelivered.step {server : Server} {move : Move} (undelivered : Undelivered loop server)
    (sound : server.Sound) (owner : server.OneOwner) (admits : loop.Admits config move)
    (spares : loop.Spares move) (step : loop.step config move = .ok target) :
    ∃ next, ((machine config).restrict Server.Spares).Path server next ∧ Undelivered target next := by
  obtain ⟨interests, rfl, delivering⟩ := undelivered
  have single (action : Action) (spared : (loop.server.overlay interests).Spares action)
      (moves : ∃ next, (machine config).Step (loop.server.overlay interests) action next ∧
        Undelivered target next) :
      ∃ next, ((machine config).restrict Server.Spares).Path (loop.server.overlay interests) next ∧
        Undelivered target next := by
    obtain ⟨next, move, after⟩ := moves
    have step : ((machine config).restrict Server.Spares).Step (loop.server.overlay interests) action next :=
      ⟨move, spared⟩
    exact ⟨next, .single step, after⟩
  cases move with
  | tickRound round =>
    obtain ⟨on, _, empty⟩ := admits
    obtain ⟨next, run, ends⟩ := bind_ok step
    obtain rfl := Except.ok.inj ends
    obtain ⟨move, after⟩ := delivering.timer (.tickRound round) on empty (fun _ => .rfl) run spares
    exact ⟨next, .single move, after⟩
  | tick source =>
    obtain ⟨on, _, empty⟩ := admits
    obtain ⟨next, run, ends⟩ := bind_ok step
    obtain rfl := Except.ok.inj ends
    obtain ⟨move, after⟩ := delivering.timer (.tick source) on empty (fun _ => .rfl) run spares
    exact ⟨next, .single move, after⟩
  | wait reports =>
    obtain ⟨_, empty, distinct, registered⟩ := admits
    obtain rfl := Except.ok.inj step
    rw [delivering.overlay_eq empty]
    exact ⟨loop.server, .refl _, undelivered_wait distinct registered⟩
  | listen arrivals => exact single (.listen arrivals) trivial (delivering.listen sound admits step)
  | event now =>
    obtain ⟨fd, events, first⟩ := admits
    exact single (.event fd events now) trivial (delivering.event sound first step)
  | run index io => exact single (.run index io) trivial (delivering.run sound owner admits step)

end

theorem undelivered_of_reachable {loop : Loop}
    (reached : ((eventLoop config).restrict Loop.Spares).Reachable loop) :
    ∃ server, ((machine config).restrict Spares).Reachable server ∧ Undelivered loop server := by
  refine reached.simulated ?_ ?_
  · rintro _ ⟨isOpen, clock, rfl⟩
    exact ⟨start isOpen clock, ⟨_, _, rfl⟩, delivering_nil _ _⟩
  · rintro source move target server before undelivered ⟨⟨admits, step⟩, spares⟩
    obtain ⟨sound, owner⟩ := owner_of_spared before
    exact undelivered.step sound owner admits spares step

/-- In every run of the loop whose ticks spare the pending tasks, its state is one of the machine that
delivers one event at a time, but for the registrations of the reports that wait; and the connection of
such a report stays open, disarmed and without a task until its handler is called. -/
theorem eventLoop_refines {loop : Loop}
    (reached : ((eventLoop config).restrict Loop.Spares).Reachable loop) :
    (∃ server, ((machine config).restrict Spares).Reachable server ∧ Undelivered loop server) ∧
      (loop.reports = [] → ((machine config).restrict Spares).Reachable loop.server) ∧
      ∀ fd events, .client fd events ∈ loop.reports → loop.server.connected fd = true ∧
        loop.server.kernel.epoll fd = some .disarmed ∧ ∀ task ∈ loop.server.pending, task.object ≠ fd := by
  obtain ⟨server, before, undelivered⟩ := undelivered_of_reachable reached
  refine ⟨⟨server, before, undelivered⟩, fun empty => ?_, fun fd events waits => ?_⟩
  · obtain ⟨interests, rfl, delivering⟩ := undelivered
    rwa [delivering.overlay_eq empty] at before
  · obtain ⟨interests, rfl, delivering⟩ := undelivered
    obtain ⟨sound, owner⟩ := owner_of_spared before
    obtain ⟨interest, found, answers⟩ := delivering.reported fd events waits
    have registered : (loop.server.overlay interests).kernel.epoll fd = some interest := by
      simp only [overlay, found, Option.some_or]
    have armed : interest ≠ .disarmed := by
      rintro rfl
      exact answers
    have free := owner.free_of_armed sound registered armed
    refine ⟨sound.registered fd interest registered, delivering.disarmed fd ?_, fun task queued => ?_⟩
    · rw [found]
      exact Option.some_ne_none _
    · exact apart_of_free free queued

private def batchConfig : Config := ⟨3, 0⟩

private def listened : Loop :=
  (Loop.next batchConfig (.wait [.listening]) ⟨start (fun _ => false) 0, false, []⟩).next batchConfig
    (.listen [⟨5, 0, .ok true, 0, ⟨0, 0⟩, ⟨0, 0⟩⟩, ⟨6, 0, .ok true, 0, ⟨0, 0⟩, ⟨0, 0⟩⟩])

private def batched : Loop :=
  listened.next batchConfig (.wait [.client 5 ⟨false, true, false⟩, .client 6 ⟨false, true, false⟩])

private def overlapping : Loop :=
  (batched.next batchConfig (.event 1)).next batchConfig (.run 0 ⟨bareHost, [.data keptRequest], [], none⟩)

private theorem overlapping_reachable :
    ((eventLoop batchConfig).restrict Loop.Spares).Reachable overlapping := by
  have first : ((eventLoop batchConfig).restrict Loop.Spares).Reachable
    ⟨start (fun _ => false) 0, false, []⟩ := .init ⟨_, _, rfl⟩
  have second := Loop.next_reachable first (.wait [.listening])
    ⟨fun on => absurd on (by decide), rfl, by decide, fun fd events there => by simp at there⟩ trivial rfl
  have third : ((eventLoop batchConfig).restrict Loop.Spares).Reachable listened :=
    Loop.next_reachable second _ ⟨rfl, by decide +kernel, by decide +kernel⟩ trivial (by decide +kernel)
  have fourth : ((eventLoop batchConfig).restrict Loop.Spares).Reachable batched := by
    refine Loop.next_reachable third _ ⟨fun on => absurd on (by decide), rfl, by decide, ?_⟩ trivial rfl
    intro fd events there
    simp only [List.mem_cons, Report.client.injEq, List.not_mem_nil, or_false] at there
    rcases there with ⟨rfl, rfl⟩ | ⟨rfl, rfl⟩
    · exact ⟨.input, by decide +kernel, by decide⟩
    · exact ⟨.input, by decide +kernel, by decide⟩
  have fifth := Loop.next_reachable fourth (.event 1) ⟨5, _, rfl⟩ trivial (by decide +kernel)
  exact Loop.next_reachable fifth (.run 0 ⟨bareHost, [.data keptRequest], [], none⟩)
    (show 0 < (batched.next batchConfig (.event 1)).server.pending.length by decide +kernel) trivial
    (by decide +kernel)

/-- A worker answers the first client of a batch while the report of the second still waits. -/
theorem eventLoop_refines_overlapping : overlapping.server.kernel.epoll 5 = some .output ∧
    overlapping.server.connected 6 = true ∧ ∀ task ∈ overlapping.server.pending, task.object ≠ 6 := by
  have waits : .client 6 ⟨false, true, false⟩ ∈ overlapping.reports := by decide +kernel
  obtain ⟨isConnected, _, free⟩ := (eventLoop_refines overlapping_reachable).2.2 6 _ waits
  exact ⟨by decide +kernel, isConnected, free⟩

/-! ## The loop does not abort -/

/-- The comparison past the end of the heap ends the upward sift. -/
def Move.EndsAtRoot : Move → Prop
  | .tickRound round => (Action.tickRound round).EndsAtRoot
  | .tick source => (Action.tick source).EndsAtRoot
  | .listen arrivals => (Action.listen arrivals).EndsAtRoot
  | .wait _ | .event _ | .run _ _ => True

/-- What a task does not survive depends on no registration. -/
theorem Kills.of_overlay {interests : ℤ → Option Interest} {server : Server} {task : Task} {io : TaskIo}
    {fault : Fault} (kills : Kills config (server.overlay interests) task io fault) :
    Kills config server task io fault := by
  cases kills with
  | raised raises => exact .raised raises
  | unmappable known fails => exact .unmappable known fails

/-- A worker comes to the end of its task between any two handlers of a batch, unless the process is
killed. -/
theorem Loop.run_ends {loop : Loop} (reached : ((eventLoop config).restrict Loop.Spares).Reachable loop)
    {index : ℕ} (inside : index < loop.server.pending.length) (io : TaskIo) :
    (∃ target, loop.step config (.run index io) = .ok target) ∨
      ∃ task fault, loop.server.pending[index]? = some task ∧
        loop.step config (.run index io) = .error fault ∧ Kills config loop.server task io fault := by
  obtain ⟨server, before, interests, rfl, delivering⟩ := undelivered_of_reachable reached
  obtain ⟨sound, owner⟩ := owner_of_spared before
  have owns : ∀ object client, loop.server.users object = some client → client.sockFd = object :=
    sound.sockFd
  have commutes := overlay_run config index owns
    (fun task queued => delivering.free_of_task owner queued) io
  rcases Server.run_ends before inside io with ⟨_, run⟩ | ⟨task, fault, queued, crash, kills⟩
  · obtain ⟨target, run, _⟩ := map_ok (commutes.symm.trans run)
    exact .inl ⟨_, by rw [Loop.step, run]; rfl⟩
  · refine .inr ⟨task, fault, queued, ?_, kills.of_overlay⟩
    rw [crash] at commutes
    rw [Loop.step]
    cases ran : loop.server.run config index io with
    | ok target =>
      rw [ran] at commutes
      cases commutes
    | error fault =>
      rw [ran] at commutes
      obtain rfl := Except.error.inj commutes
      rfl

/-- The main thread comes to the end of every move, and a worker unless the process is killed in its task. -/
theorem Loop.move_ends {loop : Loop} (reached : ((eventLoop config).restrict Loop.Spares).Reachable loop)
    {move : Move} (admits : loop.Admits config move) (ends : move.EndsAtRoot) :
    (∃ target, loop.step config move = .ok target) ∨
      ∃ index io task fault, move = .run index io ∧ loop.server.pending[index]? = some task ∧
        loop.step config move = .error fault ∧ Kills config loop.server task io fault := by
  obtain ⟨server, before, interests, rfl, delivering⟩ := undelivered_of_reachable reached
  obtain ⟨sound, owner⟩ := owner_of_spared before
  have entered (on : 0 < config.timeoutMS) := entered_of_reachable on before.of_restrict
  cases move with
  | tickRound round =>
    obtain ⟨on, _, empty⟩ := admits
    rw [delivering.overlay_eq empty] at sound entered
    have accepts : loop.server.Admits config (.tickRound round) := on
    obtain ⟨target, run⟩ := sound.main_ends entered accepts ends fun _ _ same => by cases same
    have run : loop.server.tickRound round = .ok target := run
    exact .inl ⟨_, by rw [Loop.step, run]; rfl⟩
  | tick source =>
    obtain ⟨on, _, empty⟩ := admits
    rw [delivering.overlay_eq empty] at sound entered
    have accepts : loop.server.Admits config (.tick source) := on
    obtain ⟨target, run⟩ := sound.main_ends entered accepts ends fun _ _ same => by cases same
    have run : loop.server.tick source = .ok target := run
    exact .inl ⟨_, by rw [Loop.step, run]; rfl⟩
  | wait reports => exact .inl ⟨_, rfl⟩
  | listen arrivals =>
    obtain ⟨_, accepts⟩ := admits
    have commutes := overlay_dealListen config (fun arrival there =>
      free_of_closed sound (accepts.1 arrival there).2) loop.server
    have accepts : (loop.server.overlay interests).Admits config (.listen arrivals) := accepts
    obtain ⟨_, run⟩ := sound.main_ends entered accepts ends fun _ _ same => by cases same
    obtain ⟨target, run, _⟩ := map_ok (commutes.symm.trans run)
    exact .inl ⟨_, by rw [Loop.step, run]; rfl⟩
  | event now =>
    obtain ⟨fd, events, first⟩ := admits
    obtain ⟨rest, reports⟩ := List.head?_eq_some_iff.mp first
    have waits : .client fd events ∈ loop.reports := by
      rw [reports]
      exact List.mem_cons_self
    obtain ⟨interest, found, answers⟩ := delivering.reported fd events waits
    have disarmed := delivering.disarmed fd (by rw [found]; exact Option.some_ne_none _)
    have owns : ∀ client, loop.server.users fd = some client → client.sockFd = fd := sound.sockFd fd
    have commutes := overlay_dispatch config (Function.update_self fd none interests) owns
      events now
    have registered : (loop.server.overlay interests).kernel.epoll fd = some interest := by
      simp only [overlay, found, Option.some_or]
    obtain ⟨_, run⟩ := dispatch_ends sound entered registered events now
    rw [disarm_overlay found disarmed] at run
    obtain ⟨target, run, _⟩ := map_ok (commutes.symm.trans run)
    exact .inl ⟨_, by simp only [Loop.step, reports, run]; rfl⟩
  | run index io =>
    rcases Loop.run_ends reached admits io with done | ⟨task, fault, queued, crash, kills⟩
    · exact .inl done
    · exact .inr ⟨index, io, task, fault, rfl, queued, crash, kills⟩

/-- In the same runs the asserts of `Start` and of the handlers hold, and every move comes to its end, but
for a task in which a signal ends the process or whose response needs a file that opens and cannot be mapped.
Where a move compares past the end of the heap, the comparison has to end the upward sift. -/
theorem eventLoop_survives {loop : Loop}
    (reached : ((eventLoop config).restrict Loop.Spares).Reachable loop) {move : Move}
    (admits : loop.Admits config move) (ends : move.EndsAtRoot) :
    (∃ target, loop.step config move = .ok target) ∨
      ∃ index io task fault, move = .run index io ∧ loop.server.pending[index]? = some task ∧
        loop.step config move = .error fault ∧ Kills config loop.server task io fault :=
  Loop.move_ends reached admits ends

/-- The handler of the second report comes to its end. -/
theorem eventLoop_survives_overlapping : ∃ target, overlapping.step batchConfig (.event 2) = .ok target := by
  have first : overlapping.reports.head? = some (.client 6 ⟨false, true, false⟩) := by decide +kernel
  have admits : overlapping.Admits batchConfig (.event 2) := ⟨6, _, first⟩
  rcases eventLoop_survives overlapping_reachable admits trivial with done | ⟨_, _, _, _, same, _⟩
  · exact done
  · cases same

end Server

end XWebServer
