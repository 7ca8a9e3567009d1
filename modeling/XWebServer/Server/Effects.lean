import XWebServer.Http.Tasks
import XWebServer.Server.HttpServer
import XWebServer.Timer.Operations

/-! # The effects a step is made of

A step of the server changes its state one descriptor or one object at a time. `Effects` gives each
such change with what is known before it, and `step_path` shows that every step is a path of them. An
invariant then needs one short case for each effect, and none for the loops of `DealListen` and `tick`.
-/

namespace XWebServer

open Transition HeapTimer HttpConn

namespace Server

/-- What can happen to one descriptor or object. -/
inductive Effect where
  | leak (fd : ℤ)
  | refuse (fd : ℤ)
  | join (arrival : Arrival)
  | hangUp (fd : ℤ)
  | callback (object : ℤ)
  | deal (kind : TaskKind) (fd now : ℤ)
  | retime (clock : ℤ)
  | rearm (index : ℕ)
  | finish (index : ℕ)

/-- The server after `AddClient` for a descriptor just accepted. -/
def joined (arrival : Arrival) (client : HttpConn) (timer : HeapTimer ℤ) (server : Server) :
    Server where
  users := Function.update server.users arrival.fd (some client)
  userCount := server.userCount + 1
  timer := timer
  pending := server.pending
  kernel :=
    { isOpen := Function.update server.kernel.isOpen arrival.fd true
      epoll := Function.update server.kernel.epoll arrival.fd (some .input)
      accepts := server.kernel.accepts + 1
      latest := Function.update server.kernel.latest arrival.fd
        (some ⟨server.kernel.accepts, some arrival.fd⟩)
      closeCalls := server.kernel.closeCalls }
  clock := arrival.now
  active := Function.update server.active arrival.fd arrival.now

/-- The server after `CloseConn`: only the first one for a connection calls `close`. -/
def closing (object : ℤ) (client : HttpConn) (server : Server) : Server :=
  { server with
    users := Function.update server.users object (some client.close)
    userCount := if server.connected object then server.userCount - 1 else server.userCount
    kernel :=
      if server.connected object then server.kernel.close (some object) object
      else server.kernel }

/-- The server after `DealRead` or `DealWrite` for a delivered event. -/
def dealt (kind : TaskKind) (fd now : ℤ) (timer : HeapTimer ℤ) (server : Server) : Server :=
  { server with
    timer
    pending := server.pending ++ [⟨kind, fd, server.kernel.latest fd⟩]
    kernel :=
      { server.kernel with epoll := Function.update server.kernel.epoll fd (some .disarmed) }
    clock := now
    active := Function.update server.active fd now }

/-- The server after a task that arms its descriptor again. -/
def rearmed (index : ℕ) (object : ℤ) (interest : Interest) (next : HttpConn) (server : Server) :
    Server :=
  { server with
    users := Function.update server.users object (some next)
    pending := server.pending.eraseIdx index
    kernel := server.kernel.modFd object interest }

inductive Effects (config : Config) : Server → Effect → Server → Prop
  | leak {server : Server} {fd : ℤ} : server.kernel.isOpen fd = false →
      Effects config server (.leak fd) { server with kernel := server.kernel.accept fd }
  | refuse {server : Server} {fd : ℤ} : server.kernel.isOpen fd = false →
      Effects config server (.refuse fd)
        { server with kernel := (server.kernel.accept fd).close none fd }
  | join {server : Server} {arrival : Arrival} {client : HttpConn} {timer : HeapTimer ℤ} :
      server.kernel.isOpen arrival.fd = false → server.userCount < maxFd →
      client.sockFd = arrival.fd → client.isClose = false →
      addTimer config arrival server.timer = .ok timer →
      Effects config server (.join arrival) (server.joined arrival client timer)
  | hangUp {server : Server} {fd : ℤ} {interest : Interest} {client : HttpConn} :
      server.kernel.epoll fd = some interest → interest ≠ .disarmed →
      server.users fd = some client →
      Effects config server (.hangUp fd) (server.closing fd client)
  | callback {server : Server} {object : ℤ} {client : HttpConn} :
      server.users object = some client →
      Effects config server (.callback object) (server.closing object client)
  | deal {server : Server} {kind : TaskKind} {fd now : ℤ} {interest : Interest} {client : HttpConn}
      {timer : HeapTimer ℤ} : server.kernel.epoll fd = some interest → interest ≠ .disarmed →
      server.users fd = some client → extentTime config client now server.timer = .ok timer →
      Effects config server (.deal kind fd now) (server.dealt kind fd now timer)
  | retime {server : Server} {timer : HeapTimer ℤ} {clock : ℤ} : timer.Indexed →
      (server.timer.HeapOrdered → timer.HeapOrdered) →
      (∀ node ∈ timer.heap, node ∈ server.timer.heap) →
      (∀ node ∈ server.timer.heap, server.connected node.id = true → node ∈ timer.heap) →
      Effects config server (.retime clock) { server with timer, clock }
  | rearm {server : Server} {index : ℕ} {task : Task} {interest : Interest}
      {client next : HttpConn} : server.pending[index]? = some task → interest ≠ .disarmed →
      server.users task.object = some client → SameClient client next →
      Effects config server (.rearm index) (server.rearmed index task.object interest next)
  | finish {server : Server} {index : ℕ} {task : Task} {client next : HttpConn} :
      server.pending[index]? = some task → server.users task.object = some client →
      SameClient client next →
      Effects config server (.finish index)
        (closing task.object next { server with pending := server.pending.eraseIdx index })

/-- The same runs in smaller steps. -/
def effects (config : Config) : System Server Effect where
  Init server := ∃ isOpen clock, server = start isOpen clock
  Step := Effects config

/-! ## The parts of a reachable state fit together -/

structure Sound (server : Server) : Prop where
  sockFd : ∀ object client, server.users object = some client → client.sockFd = object
  isOpen : ∀ object, server.connected object = true → server.kernel.isOpen object = true
  owner : ∀ object, server.connected object = true →
    ∃ serial, server.kernel.latest object = some ⟨serial, some object⟩
  registered : ∀ fd interest, server.kernel.epoll fd = some interest → server.connected fd = true
  tasks : ∀ task ∈ server.pending, ∃ client, server.users task.object = some client
  indexed : server.timer.Indexed
  entries : ∀ node ∈ server.timer.heap, node.cb = node.id ∧ ∃ client, server.users node.id = some client
  kernel : server.kernel.Consistent

theorem connected_of {server : Server} {object : ℤ} {client : HttpConn}
    (known : server.users object = some client) : server.connected object = !client.isClose := by
  simp only [connected, known]

theorem exists_client {server : Server} {object : ℤ} (isConnected : server.connected object = true) :
    ∃ client, server.users object = some client := by
  cases known : server.users object with
  | none =>
    simp only [connected, known] at isConnected
    cases isConnected
  | some client => exact ⟨client, rfl⟩

theorem client_ok {server : Server} {object : ℤ} {client : HttpConn} :
    server.client object = .ok client ↔ server.users object = some client := by
  rw [Server.client]
  cases known : server.users object with
  | none => exact ⟨fun looked => (by cases looked), fun found => (by cases found)⟩
  | some found => rw [Except.ok.injEq, Option.some.injEq]

theorem connected_congr {server server' : Server} (same : server'.users = server.users) :
    server'.connected = server.connected := by
  funext object
  simp only [connected, same]

theorem connected_update {server server' : Server} {object : ℤ} {client : HttpConn}
    (stored : server'.users = Function.update server.users object (some client)) :
    server'.connected = Function.update server.connected object (!client.isClose) := by
  funext other
  rcases eq_or_ne other object with rfl | apart
  · simp only [connected, stored, Function.update_self]
  · simp only [connected, stored, Function.update_of_ne apart]

/-- Storing an object keeps every object with its own descriptor. -/
theorem sockFd_update {users : ℤ → Option HttpConn} {object other : ℤ} {stored found : HttpConn}
    (sockFd : ∀ other found, users other = some found → found.sockFd = other)
    (owns : stored.sockFd = object)
    (known : Function.update users object (some stored) other = some found) :
    found.sockFd = other := by
  rcases eq_or_ne other object with rfl | apart
  · rw [Function.update_self] at known
    cases known
    exact owns
  · rw [Function.update_of_ne apart] at known
    exact sockFd other found known

/-- Storing an object forgets none. -/
theorem exists_update {users : ℤ → Option HttpConn} {object other : ℤ} {stored : HttpConn}
    (known : ∃ client, users other = some client) :
    ∃ client, Function.update users object (some stored) other = some client := by
  rcases eq_or_ne other object with rfl | apart
  · exact ⟨stored, Function.update_self ..⟩
  · rwa [Function.update_of_ne apart]

@[simp] theorem connected_closing (object : ℤ) (client : HttpConn) (server : Server) :
    (server.closing object client).connected = Function.update server.connected object false := by
  have stored : (server.closing object client).users =
    Function.update server.users object (some client.close) := rfl
  exact connected_update stored

theorem connected_joined (arrival : Arrival) {client : HttpConn} (timer : HeapTimer ℤ)
    (server : Server) (isOpen : client.isClose = false) :
    (server.joined arrival client timer).connected =
      Function.update server.connected arrival.fd true := by
  have stored : (server.joined arrival client timer).users =
    Function.update server.users arrival.fd (some client) := rfl
  rw [connected_update stored, isOpen]
  rfl

theorem connected_rearmed (index : ℕ) {object : ℤ} {client next : HttpConn} (interest : Interest)
    {server : Server} (known : server.users object = some client) (same : SameClient client next) :
    (server.rearmed index object interest next).connected = server.connected := by
  have stored : (server.rearmed index object interest next).users =
    Function.update server.users object (some next) := rfl
  rw [connected_update stored, same.isClose, ← connected_of known, Function.update_eq_self]

/-! ## Every effect keeps them fitting -/

theorem start_sound (isOpen : ℤ → Bool) (clock : ℤ) : (start isOpen clock).Sound where
  sockFd _ _ known := by cases known
  isOpen _ isConnected := by cases isConnected
  owner _ isConnected := by cases isConnected
  registered _ _ known := by cases known
  tasks _ queued := by cases queued
  indexed := new_indexed
  entries _ present := by cases present; contradiction
  kernel := ⟨fun _ _ known => (by cases known), fun _ _ _ _ known => (by cases known),
    fun _ _ _ known => (by cases known), fun _ closed => (by cases closed), List.Pairwise.nil⟩

/-- A descriptor that is not open belongs to no connection and is not registered. -/
theorem Sound.idle {server : Server} (sound : server.Sound) {fd : ℤ}
    (free : server.kernel.isOpen fd = false) :
    server.connected fd = false ∧ server.kernel.epoll fd = none := by
  have idle : server.connected fd = false := by
    by_contra isConnected
    rw [sound.isOpen fd (by simpa using isConnected)] at free
    cases free
  refine ⟨idle, ?_⟩
  by_contra registered
  obtain ⟨interest, found⟩ := Option.ne_none_iff_exists'.mp registered
  rw [sound.registered fd interest found] at idle
  cases idle

theorem Sound.closing {server : Server} (sound : server.Sound) {object : ℤ} {client : HttpConn}
    (owns : client.sockFd = object) : (server.closing object client).Sound := by
  have away (other : ℤ) (still : (server.closing object client).connected other = true) :
      other ≠ object ∧ server.connected other = true := by
    rw [connected_closing, Function.update_apply] at still
    split_ifs at still with same
    exact ⟨same, still⟩
  constructor
  · have kept : client.close.sockFd = object := owns
    exact fun other found known => sockFd_update sound.sockFd kept known
  · intro other still
    obtain ⟨apart, before⟩ := away other still
    simp only [Server.closing]
    split_ifs
    · simp only [Kernel.close, Function.update_of_ne apart]
      exact sound.isOpen other before
    · exact sound.isOpen other before
  · intro other still
    obtain ⟨_, before⟩ := away other still
    simp only [Server.closing]
    split_ifs <;> exact sound.owner other before
  · intro fd interest found
    rw [connected_closing]
    simp only [Server.closing] at found
    split_ifs at found with isConnected
    · simp only [Kernel.close, Function.update_apply] at found
      split_ifs at found with same
      rw [Function.update_of_ne same]
      exact sound.registered fd interest found
    · have registered := sound.registered fd interest found
      have apart : fd ≠ object := fun same => isConnected (by rwa [← same])
      rw [Function.update_of_ne apart]
      exact registered
  · exact fun task queued => exists_update (sound.tasks task queued)
  · exact sound.indexed
  · exact fun node present => ⟨(sound.entries node present).1,
      exists_update (sound.entries node present).2⟩
  · simp only [Server.closing]
    split_ifs with isConnected
    · obtain ⟨serial, latest⟩ := sound.owner object isConnected
      exact sound.kernel.close (sound.isOpen object isConnected) latest _
    · exact sound.kernel

/-- An accept alone: the descriptor belongs to no object. -/
theorem Sound.accept {server : Server} (sound : server.Sound) {fd : ℤ}
    (free : server.kernel.isOpen fd = false) :
    Sound { server with kernel := server.kernel.accept fd } where
  sockFd := sound.sockFd
  isOpen object isConnected := by
    simp only [Kernel.accept, Function.update_apply]
    split_ifs
    · rfl
    · exact sound.isOpen object isConnected
  owner object isConnected := by
    have apart : object ≠ fd := fun same => by
      rw [← same, sound.isOpen object isConnected] at free
      cases free
    simp only [Kernel.accept, Function.update_of_ne apart]
    exact sound.owner object isConnected
  registered := sound.registered
  tasks := sound.tasks
  indexed := sound.indexed
  entries := sound.entries
  kernel := sound.kernel.accept fd

/-- An accepted descriptor closed right away. -/
theorem Sound.refuse {server : Server} (sound : server.Sound) {fd : ℤ}
    (free : server.kernel.isOpen fd = false) :
    Sound { server with kernel := (server.kernel.accept fd).close none fd } where
  sockFd := sound.sockFd
  isOpen object isConnected := by
    have apart : object ≠ fd := fun same => by
      rw [← same, sound.isOpen object isConnected] at free
      cases free
    simp only [Kernel.close, Kernel.accept, Function.update_of_ne apart]
    exact sound.isOpen object isConnected
  owner := (sound.accept free).owner
  registered other interest found := by
    simp only [Kernel.close, Function.update_apply] at found
    split_ifs at found
    exact sound.registered other interest found
  tasks := sound.tasks
  indexed := sound.indexed
  entries := sound.entries
  kernel := by
    have isOpen : (server.kernel.accept fd).isOpen fd = true := Function.update_self ..
    have latest : (server.kernel.accept fd).latest fd = some ⟨server.kernel.accepts, none⟩ :=
      Function.update_self ..
    exact (sound.kernel.accept fd).close isOpen latest none

theorem addTimer_ok {config : Config} {arrival : Arrival} {timer timer' : HeapTimer ℤ}
    (indexed : timer.Indexed) (run : addTimer config arrival timer = .ok timer') :
    timer'.Indexed ∧ ∀ node ∈ timer'.heap,
      (node.id = arrival.fd ∧ node.cb = arrival.fd) ∨ node ∈ timer.heap := by
  rw [addTimer] at run
  split_ifs at run
  · obtain ⟨stillIndexed, _, mem⟩ := add_ok indexed run
    refine ⟨stillIndexed, fun node present => ?_⟩
    rcases (mem node).mp present with rfl | ⟨before, _⟩
    · exact .inl ⟨rfl, rfl⟩
    · exact .inr before
  · cases run
    exact ⟨indexed, fun node present => .inr present⟩

theorem Sound.joined {config : Config} {server : Server} (sound : server.Sound) {arrival : Arrival}
    {client : HttpConn} {timer : HeapTimer ℤ} (owns : client.sockFd = arrival.fd)
    (isOpen : client.isClose = false) (added : addTimer config arrival server.timer = .ok timer) :
    (server.joined arrival client timer).Sound := by
  have connected := connected_joined arrival timer server isOpen
  obtain ⟨indexed, mem⟩ := addTimer_ok sound.indexed added
  have away (other : ℤ) (apart : other ≠ arrival.fd)
      (still : (server.joined arrival client timer).connected other = true) :
      server.connected other = true := by
    rwa [connected, Function.update_of_ne apart] at still
  constructor
  · exact fun other found known => sockFd_update sound.sockFd owns known
  · intro other still
    simp only [Server.joined, Function.update_apply]
    split_ifs with same
    · rfl
    · exact sound.isOpen other (away other same still)
  · intro other still
    simp only [Server.joined, Function.update_apply]
    split_ifs with same
    · rw [same]
      exact ⟨_, rfl⟩
    · exact sound.owner other (away other same still)
  · intro fd interest found
    rw [connected]
    simp only [Server.joined, Function.update_apply] at found ⊢
    split_ifs at found ⊢
    · rfl
    · exact sound.registered fd interest found
  · exact fun task queued => exists_update (sound.tasks task queued)
  · exact indexed
  · intro node present
    rcases mem node present with ⟨isId, isCb⟩ | before
    · rw [isId, isCb]
      exact ⟨rfl, client, Function.update_self ..⟩
    · exact ⟨(sound.entries node before).1, exists_update (sound.entries node before).2⟩
  · have steps := ((sound.kernel.accept arrival.fd).initialise arrival.fd arrival.fd).epoll
      (Function.update server.kernel.epoll arrival.fd (some .input))
    simp only [Kernel.initialise, Kernel.accept, Function.update_self, Function.update_idem,
      Option.map_some] at steps
    exact steps

theorem extentTime_ok {config : Config} {client : HttpConn} {now : ℤ} {timer timer' : HeapTimer ℤ}
    (indexed : timer.Indexed) (run : extentTime config client now timer = .ok timer') :
    timer'.Indexed ∧ ∀ node ∈ timer'.heap, ∃ before ∈ timer.heap,
      node.id = before.id ∧ node.cb = before.cb := by
  rw [extentTime] at run
  split_ifs at run
  · obtain ⟨_, _, body⟩ := bind_ok run
    cases known : timer.ref client.sockFd with
    | none =>
      simp only [known] at body
      cases body
    | some i =>
      obtain ⟨node, found, isId⟩ := (indexed client.sockFd i).mp known
      have present : node ∈ timer.heap := Array.mem_iff_getElem?.mpr ⟨i, found⟩
      obtain ⟨adjusted, success, stillIndexed, _, mem⟩ :=
        adjust_ok indexed present config.timeoutMS now
      rw [isId, run] at success
      cases success
      refine ⟨stillIndexed, fun other there => ?_⟩
      rcases (mem other).mp there with rfl | ⟨before, _⟩
      · exact ⟨node, present, rfl, rfl⟩
      · exact ⟨other, before, rfl, rfl⟩
  · cases run
    exact ⟨indexed, fun node present => ⟨node, present, rfl, rfl⟩⟩

theorem Sound.dealt {config : Config} {server : Server} (sound : server.Sound) {kind : TaskKind}
    {fd now : ℤ} {interest : Interest} {client : HttpConn} {timer : HeapTimer ℤ}
    (registered : server.kernel.epoll fd = some interest)
    (known : server.users fd = some client)
    (extended : extentTime config client now server.timer = .ok timer) :
    (server.dealt kind fd now timer).Sound := by
  obtain ⟨indexed, mem⟩ := extentTime_ok sound.indexed extended
  constructor
  · exact sound.sockFd
  · exact sound.isOpen
  · exact sound.owner
  · intro other found there
    simp only [Server.dealt, Function.update_apply] at there
    split_ifs at there with same
    · rw [same]
      exact sound.registered fd interest registered
    · exact sound.registered other found there
  · intro task queued
    rcases List.mem_append.mp queued with before | new
    · exact sound.tasks task before
    · cases List.mem_singleton.mp new
      exact ⟨client, known⟩
  · exact indexed
  · intro node present
    obtain ⟨before, there, sameId, sameCb⟩ := mem node present
    rw [sameId, sameCb]
    exact sound.entries before there
  · exact sound.kernel.epoll _

theorem Sound.rearmed {server : Server} (sound : server.Sound) {index : ℕ} {object : ℤ}
    {interest : Interest} {client next : HttpConn} (known : server.users object = some client)
    (same : SameClient client next) : (server.rearmed index object interest next).Sound := by
  have connected := connected_rearmed index interest known same
  constructor
  · have owns : next.sockFd = object := same.sockFd.trans (sound.sockFd object client known)
    exact fun other found there => sockFd_update sound.sockFd owns there
  · intro other isConnected
    rw [connected] at isConnected
    simp only [Server.rearmed, Kernel.modFd_isOpen]
    exact sound.isOpen other isConnected
  · intro other isConnected
    rw [connected] at isConnected
    simp only [Server.rearmed, Kernel.modFd_latest]
    exact sound.owner other isConnected
  · intro fd found there
    rw [connected]
    obtain ⟨before, registered⟩ := Kernel.registered_of_modFd there
    exact sound.registered fd before registered
  · exact fun task queued => exists_update (sound.tasks task (List.mem_of_mem_eraseIdx queued))
  · exact sound.indexed
  · exact fun node present => ⟨(sound.entries node present).1,
      exists_update (sound.entries node present).2⟩
  · exact sound.kernel.modFd object interest

theorem Sound.erase {server : Server} (sound : server.Sound) (index : ℕ) :
    Sound { server with pending := server.pending.eraseIdx index } :=
  { sound with tasks := fun task queued => sound.tasks task (List.mem_of_mem_eraseIdx queued) }

theorem Effects.sound {config : Config} {source target : Server} {effect : Effect}
    (move : Effects config source effect target) (sound : source.Sound) : target.Sound := by
  cases move with
  | leak free => exact sound.accept free
  | refuse free => exact sound.refuse free
  | join _ _ owns isOpen added => exact sound.joined owns isOpen added
  | hangUp _ _ known => exact sound.closing (sound.sockFd _ _ known)
  | callback known => exact sound.closing (sound.sockFd _ _ known)
  | deal registered _ known extended => exact sound.dealt registered known extended
  | retime indexed _ fewer _ =>
    exact { sound with
      indexed
      entries := fun node present => sound.entries node (fewer node present) }
  | rearm _ _ known same => exact sound.rearmed known same
  | finish _ known same =>
    exact (sound.erase _).closing (same.sockFd.trans (sound.sockFd _ _ known))

theorem sound_of_effects {config : Config} {server : Server}
    (reached : (effects config).Reachable server) : server.Sound := by
  refine reached.invariant ?_ fun source effect target sound move => ?_
  · rintro _ ⟨isOpen, clock, rfl⟩
    exact start_sound isOpen clock
  · have change : Effects config source effect target := move
    exact change.sound sound

/-- What holds at the start and is kept by every allowed effect on a sound state holds in every state
reached. -/
theorem effects_invariant {config : Config} {guard : Server → Effect → Prop} {P : Server → Prop}
    (base : ∀ isOpen clock, P (start isOpen clock))
    (keep : ∀ source effect target, source.Sound → P source → guard source effect →
      Effects config source effect target → P target)
    {server : Server} (reached : ((effects config).restrict guard).Reachable server) : P server := by
  refine reached.guarded_invariant (fun _ => sound_of_effects) ?_ keep
  rintro _ ⟨isOpen, clock, rfl⟩
  exact base isOpen clock

end Server

end XWebServer
