import XWebServer.Server.Steps

/-! # What a step does to one object

Effects forget how a task ended and what memory an object had. Where that matters, a step is taken
apart by what it leaves of each object: an object that is closed keeps its past (`Cut`), a call of
`DealListen` leaves it alone or gives it a new client (`Heard`), a delivered event queues the task that
the descriptor is armed for, and a task stores its object and arms the descriptor, or closes it.
-/

namespace XWebServer

open Transition System HeapTimer HttpConn

namespace Server

/-! ## Callbacks and events -/

/-- `Close` twice is `Close`. -/
theorem close_close (conn : HttpConn) : conn.close.close = conn.close := by
  simp only [HttpConn.close, HttpResponse.unmapFile]
  cases mapped : conn.response.mmFile <;> simp [mapped]

/-- Some objects have been closed, and nothing else has happened to any. -/
structure Cut (source target : Server) : Prop where
  pending : target.pending = source.pending
  each : ∀ object, (target.users object = source.users object ∧
      target.kernel.epoll object = source.kernel.epoll object) ∨
    ∃ client, source.users object = some client ∧ target.users object = some client.close ∧
      target.kernel.epoll object = none

theorem Cut.refl (server : Server) : Cut server server := ⟨rfl, fun _ => .inl ⟨rfl, rfl⟩⟩

theorem Cut.trans {first middle last : Server} (before : Cut first middle) (after : Cut middle last) :
    Cut first last := by
  refine ⟨after.pending.trans before.pending, fun object => ?_⟩
  rcases before.each object with ⟨users, epoll⟩ | ⟨client, known, closed, epoll⟩
  · rcases after.each object with ⟨users', epoll'⟩ | ⟨client, known, closed, epoll'⟩
    · exact .inl ⟨users'.trans users, epoll'.trans epoll⟩
    · exact .inr ⟨client, users ▸ known, closed, epoll'⟩
  · rcases after.each object with ⟨users', epoll'⟩ | ⟨other, known', closed', epoll'⟩
    · exact .inr ⟨client, known, users'.trans closed, epoll'.trans epoll⟩
    · rw [closed] at known'
      obtain rfl := Option.some.inj known'
      exact .inr ⟨client, known, closed'.trans (by rw [close_close]), epoll'⟩

theorem Cut.closing {server : Server} (sound : server.Sound) {object : ℤ} {client : HttpConn}
    (known : server.users object = some client) : Cut server (server.closing object client) := by
  refine ⟨rfl, fun other => ?_⟩
  rcases eq_or_ne other object with rfl | apart
  · refine .inr ⟨client, known, Function.update_self .., ?_⟩
    simp only [Server.closing]
    split_ifs with isConnected
    · simp only [Kernel.close, Function.update_self]
    · exact sound.unregistered (by simpa using isConnected)
  · left
    simp only [Server.closing, Function.update_of_ne apart, true_and]
    split_ifs
    · simp only [Kernel.close, Function.update_of_ne apart]
    · rfl

theorem callbacks_cut {entries : List (TimerNode ℤ × ℤ)} {server target : Server}
    (sound : server.Sound)
    (run : entries.foldlM (fun server entry => server.closeConn entry.1.cb) server = .ok target) :
    Cut server target := by
  induction entries generalizing server with
  | nil =>
    cases run
    exact .refl _
  | cons entry rest ih =>
    rw [List.foldlM_cons] at run
    obtain ⟨next, closes, run⟩ := bind_ok run
    obtain ⟨client, known⟩ := known_of_closeConn closes
    rw [sound.closeConn known] at closes
    cases closes
    apply (Cut.closing sound known).trans
    exact ih (sound.closing (sound.sockFd _ _ known)) run

theorem expire_cut {server target : Server} {ticked : Ticked ℤ} (sound : server.Sound)
    (run : server.expire ticked = .ok target) : Cut server target := by
  obtain ⟨closed, callbacks, run⟩ := bind_ok run
  obtain rfl := Except.ok.inj run
  have cut := callbacks_cut sound callbacks
  exact ⟨cut.pending, cut.each⟩

/-- A delivered event closes the connection, or queues the task that the descriptor is armed for. -/
theorem event_cases {config : Config} {server target : Server} {fd now : ℤ} {events : Events}
    (sound : server.Sound) (admits : server.Admits config (.event fd events now))
    (run : (server.disarm fd).dispatch config fd events now = .ok target) :
    (∃ client, server.users fd = some client ∧ target = server.closing fd client) ∨
      ∃ kind timer, target = server.dealt kind fd now timer ∧
        ((kind = .onRead ∧ server.kernel.epoll fd = some .input) ∨
          (kind = .onWrite ∧ server.kernel.epoll fd = some .output)) := by
  obtain ⟨interest, registered, reports⟩ := admits
  have isConnected := sound.registered fd interest registered
  obtain ⟨client, known⟩ := exists_client isConnected
  have owns := sound.sockFd fd client known
  rw [dispatch] at run
  split_ifs at run with hangUp input output
  · rw [hangUp_eq sound registered known] at run
    exact .inl ⟨client, known, (Except.ok.inj run).symm⟩
  · obtain ⟨timer, _, rfl⟩ := deal_eq registered known owns run
    refine .inr ⟨.onRead, timer, rfl, .inl ⟨rfl, ?_⟩⟩
    cases interest with
    | disarmed => exact reports.elim
    | input => exact registered
    | output => exact absurd input reports.2
  · obtain ⟨timer, _, rfl⟩ := deal_eq registered known owns run
    refine .inr ⟨.onWrite, timer, rfl, .inr ⟨rfl, ?_⟩⟩
    cases interest with
    | disarmed => exact reports.elim
    | input => exact absurd output reports.2
    | output => exact registered
  · cases interest with
    | disarmed => exact reports.elim
    | input => exact absurd reports.1 (by simp [hangUp, input])
    | output => exact absurd reports.1 (by simp [hangUp, output])

/-! ## What `DealListen` does to one object -/

/-- The object, its registration and its latest accept are as before. -/
structure SameAt (source target : Server) (object : ℤ) : Prop where
  users : target.users object = source.users object
  epoll : target.kernel.epoll object = source.kernel.epoll object
  latest : target.kernel.latest object = source.kernel.latest object

theorem SameAt.refl (server : Server) (object : ℤ) : SameAt server server object := ⟨rfl, rfl, rfl⟩

theorem SameAt.trans {first middle last : Server} {object : ℤ} (before : SameAt first middle object)
    (after : SameAt middle last object) : SameAt first last object :=
  ⟨after.users.trans before.users, after.epoll.trans before.epoll, after.latest.trans before.latest⟩

theorem sameAt_joined {arrival : Arrival} {client : HttpConn} {timer : HeapTimer ℤ} {server : Server}
    {object : ℤ} (apart : object ≠ arrival.fd) :
    SameAt server (server.joined arrival client timer) object := by
  refine ⟨?_, ?_, ?_⟩ <;> simp only [Server.joined, Function.update_of_ne apart]

/-- What happens to an object: nothing, a refusal while it has no client, or a new client. `opens` is
what is known of the memory of a new object. -/
inductive Heard (opens : HttpConn → Prop) (source target : Server) (object : ℤ) : Prop
  | same (same : SameAt source target object)
  | idle (users : target.users object = source.users object)
      (epoll : target.kernel.epoll object = source.kernel.epoll object)
      (off : target.connected object = false)
  | joined {before client : HttpConn} (init : before.init object = .ok client)
      (origin : source.users object = some before ∨ opens before)
      (known : target.users object = some client)
      (epoll : target.kernel.epoll object = some .input)
      (latest : target.kernel.latest object ≠ source.kernel.latest object)

/-- What happens behind a step that leaves the object alone. -/
theorem Heard.behind {opens : HttpConn → Prop} {first middle last : Server} {object : ℤ}
    (before : SameAt first middle object) (after : Heard opens middle last object) :
    Heard opens first last object := by
  cases after with
  | same same => exact .same (before.trans same)
  | idle users epoll off => exact .idle (users.trans before.users) (epoll.trans before.epoll) off
  | joined init origin known epoll latest =>
    rw [before.users] at origin
    rw [before.latest] at latest
    exact .joined init origin known epoll latest

/-- And in front of one. -/
theorem Heard.ahead {opens : HttpConn → Prop} {first middle last : Server} {object : ℤ}
    (before : Heard opens first middle object) (after : SameAt middle last object) :
    Heard opens first last object := by
  cases before with
  | same same => exact .same (same.trans after)
  | idle users epoll off =>
    refine .idle (after.users.trans users) (after.epoll.trans epoll) ?_
    rw [connected, after.users]
    exact off
  | joined init origin known epoll latest =>
    exact .joined init origin (after.users.trans known) (after.epoll.trans epoll)
      (by rw [after.latest]; exact latest)

/-- The object that `AddClient` initialises is the one of the descriptor, or a new one. -/
theorem addClient_init {config : Config} {server target : Server} {arrival : Arrival}
    (idle : server.kernel.epoll arrival.fd = none)
    (run : addClient config arrival { server with kernel := server.kernel.accept arrival.fd } =
      .ok target) :
    ∃ client timer, ((server.users arrival.fd).getD
        (.new arrival.iovCnt arrival.iov0 arrival.iov1)).init arrival.fd = .ok client ∧
      addTimer config arrival server.timer = .ok timer ∧ target = server.joined arrival client timer := by
  obtain ⟨_, _, run⟩ := bind_ok run
  obtain ⟨client, init, run⟩ := bind_ok run
  obtain ⟨timer, added, run⟩ := bind_ok run
  refine ⟨client, timer, init, added, ?_⟩
  rw [← Except.ok.inj run]
  simp only [joined, Kernel.addFd, Kernel.initialise, Kernel.accept, idle, Function.update_self,
    Function.update_idem, Option.map_some]

theorem init_fields {before client : HttpConn} {fd : ℤ} (init : before.init fd = .ok client) :
    client.sockFd = fd ∧ client.isClose = false := by
  obtain ⟨_, _, init⟩ := bind_ok init
  rw [← Except.ok.inj init]
  exact ⟨rfl, rfl⟩

/-- The first connection is not taken and the loop ends, or it joins. -/
theorem dealListen_first {config : Config} {arrival : Arrival} {rest : List Arrival}
    {server target : Server} (sound : server.Sound)
    (admits : server.Admits config (.listen (arrival :: rest)))
    (run : server.dealListen config (arrival :: rest) = .ok target) :
    (target.users = server.users ∧ target.kernel.epoll = server.kernel.epoll ∧
        target.pending = server.pending ∧ ∀ object, object ≠ arrival.fd →
          target.kernel.latest object = server.kernel.latest object) ∨
      ∃ client timer, ((server.users arrival.fd).getD
          (.new arrival.iovCnt arrival.iov0 arrival.iov1)).init arrival.fd = .ok client ∧
        Effects config server (.join arrival) (server.joined arrival client timer) ∧
        (target = server.joined arrival client timer ∨
          (server.joined arrival client timer).dealListen config rest = .ok target) := by
  have closed := (admits.1 arrival List.mem_cons_self).2
  obtain ⟨_, unregistered⟩ := sound.idle closed
  rw [dealListen] at run
  dsimp only at run
  by_cases negative : arrival.fd ≤ 0
  · rw [if_pos negative] at run
    cases run
    refine .inl ⟨rfl, rfl, rfl, fun object apart => ?_⟩
    simp only [Kernel.accept, Function.update_of_ne apart]
  rw [if_neg negative] at run
  by_cases full : maxFd ≤ server.userCount
  · rw [if_pos full] at run
    obtain ⟨_, _, run⟩ := bind_ok run
    cases run
    refine .inl ⟨rfl, ?_, rfl, fun object apart => ?_⟩
    · simp only [Kernel.close, Kernel.accept, ← unregistered, Function.update_eq_self]
    · simp only [Kernel.close, Kernel.accept, Function.update_of_ne apart]
  rw [if_neg full] at run
  obtain ⟨next, joins, run⟩ := bind_ok run
  obtain ⟨client, timer, init, added, rfl⟩ := addClient_init unregistered joins
  obtain ⟨owns, isOpen⟩ := init_fields init
  refine .inr ⟨client, timer, init, .join closed (not_le.mp full) owns isOpen added, ?_⟩
  split_ifs at run
  · exact .inr run
  · exact .inl (Except.ok.inj run).symm

theorem heard_joined {opens : HttpConn → Prop} {arrival : Arrival} {server : Server}
    {client : HttpConn} {timer : HeapTimer ℤ} (sound : server.Sound)
    (memory : opens (.new arrival.iovCnt arrival.iov0 arrival.iov1))
    (init : ((server.users arrival.fd).getD
      (.new arrival.iovCnt arrival.iov0 arrival.iov1)).init arrival.fd = .ok client) :
    Heard opens server (server.joined arrival client timer) arrival.fd := by
  have origin : server.users arrival.fd = some ((server.users arrival.fd).getD
      (.new arrival.iovCnt arrival.iov0 arrival.iov1)) ∨ opens ((server.users arrival.fd).getD
      (.new arrival.iovCnt arrival.iov0 arrival.iov1)) := by
    cases server.users arrival.fd with
    | none => exact .inr memory
    | some before => exact .inl rfl
  refine .joined init origin (Function.update_self ..) (Function.update_self ..) ?_
  have latest : (server.joined arrival client timer).kernel.latest arrival.fd =
    some ⟨server.kernel.accepts, some arrival.fd⟩ := Function.update_self ..
  rw [latest]
  intro same
  exact absurd (sound.kernel.fresh arrival.fd _ same.symm) (lt_irrefl _)

theorem dealListen_heard {config : Config} {opens : HttpConn → Prop} {arrivals : List Arrival}
    {server target : Server} (sound : server.Sound) (admits : server.Admits config (.listen arrivals))
    (memory : ∀ arrival ∈ arrivals, opens (.new arrival.iovCnt arrival.iov0 arrival.iov1))
    (run : server.dealListen config arrivals = .ok target) :
    target.pending = server.pending ∧ (∀ object, Heard opens server target object) ∧
      ∀ object, object ∉ arrivals.map (·.fd) → SameAt server target object := by
  induction arrivals generalizing server with
  | nil =>
    cases run
    exact ⟨rfl, fun object => .same (.refl _ object), fun object _ => .refl _ object⟩
  | cons arrival rest ih =>
    have fresh := memory arrival List.mem_cons_self
    have apart (object : ℤ) (other : object ∉ (arrival :: rest).map (·.fd)) :
        object ≠ arrival.fd ∧ object ∉ rest.map (·.fd) := by
      rwa [List.map_cons, List.mem_cons, not_or] at other
    rcases dealListen_first sound admits run with ⟨users, epoll, pending, latest⟩ |
      ⟨client, timer, init, effect, rfl | run⟩
    · have away (object : ℤ) (apart : object ≠ arrival.fd) : SameAt server target object :=
        ⟨by rw [users], by rw [epoll], latest object apart⟩
      refine ⟨pending, fun object => ?_, fun object other => away object (apart object other).1⟩
      rcases eq_or_ne object arrival.fd with rfl | other
      · refine .idle (by rw [users]) (by rw [epoll]) ?_
        rw [connected_congr users]
        exact (sound.idle (admits.1 arrival List.mem_cons_self).2).1
      · exact .same (away object other)
    · refine ⟨rfl, fun object => ?_, fun object other => sameAt_joined (apart object other).1⟩
      rcases eq_or_ne object arrival.fd with rfl | other
      · exact heard_joined sound fresh init
      · exact .same (sameAt_joined other)
    · obtain ⟨pending, each, others⟩ := ih (effect.sound sound) (admits.joined client timer)
        (fun other there => memory other (List.mem_cons_of_mem _ there)) run
      refine ⟨pending, fun object => ?_, fun object other =>
        (sameAt_joined (apart object other).1).trans (others object (apart object other).2)⟩
      rcases eq_or_ne object arrival.fd with rfl | other
      · -- the descriptors are distinct, so the rest of the loop leaves the new client alone
        have new := (List.nodup_cons.mp admits.2).1
        exact (heard_joined sound fresh init).ahead (others arrival.fd new)
      · exact (each object).behind (sameAt_joined other)

/-! ## What a task does to its object -/

/-- The server after a task: its connection is armed for what the task asks for, or closed. -/
theorem run_cases {config : Config} {server target : Server} {index : ℕ} {io : TaskIo} {task : Task}
    (sound : server.Sound) (queued : server.pending[index]? = some task)
    (run : server.run config index io = .ok target) :
    ∃ client decision next, server.users task.object = some client ∧
      runTask config task io client = .ok (decision, next) ∧ SameClient client next ∧
      ((∃ interest, target = server.rearmed index task.object interest next ∧
          ((decision = .armIn ∧ interest = .input) ∨ (decision = .armOut ∧ interest = .output))) ∨
        (decision = .close ∧ target = closing task.object next
          { server with pending := server.pending.eraseIdx index })) := by
  rw [Server.run] at run
  simp only [queued] at run
  obtain ⟨client, looked, run⟩ := bind_ok run
  obtain ⟨⟨decision, next⟩, ran, run⟩ := bind_ok run
  have known := client_ok.mp looked
  have same := runTask_same ran
  have owns : next.sockFd = task.object := same.sockFd.trans (sound.sockFd _ _ known)
  refine ⟨client, decision, next, known, ran, same, ?_⟩
  cases decision with
  | armIn =>
    refine .inl ⟨.input, ?_, .inl ⟨rfl, rfl⟩⟩
    rw [← Except.ok.inj run, owns]
    rfl
  | armOut =>
    refine .inl ⟨.output, ?_, .inr ⟨rfl, rfl⟩⟩
    rw [← Except.ok.inj run, owns]
    rfl
  | close =>
    rw [handBack_close (sound.erase index) known same] at run
    exact .inr ⟨rfl, (Except.ok.inj run).symm⟩

end Server

end XWebServer
