import XWebServer.Server.Steps
import XWebServer.Timer.Order

/-! # The idle timeout

The timer is never told that a connection was closed, so its heap also holds entries of closed ones.
With timers on and a clock that does not go back, every open connection still has its own entry, set by
its latest activity: a new client of a descriptor takes over the entry left there. All deadlines are at
most one timeout past the latest reading, so `adjust` moves a deadline forward and the heap stays ordered.
-/

namespace XWebServer

open Transition System HeapTimer HttpConn

namespace Server

section

variable (config : Config) (server : Server)

/-- When a connection times out: one timeout after its latest activity. -/
def deadlineOf (object : ℤ) : ℤ := deadline config.timeoutMS (server.active object)

/-- The entry that a connection should have. -/
def entryOf (object : ℤ) : TimerNode ℤ := ⟨object, deadlineOf config server object, object⟩

structure Timed : Prop where
  ordered : server.timer.HeapOrdered
  entry : ∀ object, server.connected object = true → entryOf config server object ∈ server.timer.heap
  bounded : ∀ node ∈ server.timer.heap, node.expires ≤ deadline config.timeoutMS server.clock

end

variable {config : Config}

theorem deadline_mono (timeout : ℤ) {early late : ℤ} (le : early ≤ late) :
    deadline timeout early ≤ deadline timeout late :=
  Int.add_le_add_right le _

theorem start_timed (isOpen : ℤ → Bool) (clock : ℤ) : Timed config (start isOpen clock) where
  ordered := new_heapOrdered
  entry _ isConnected := by cases isConnected
  bounded _ present := by cases present; contradiction

/-- Nothing new is connected, and timer and clock are as before. -/
theorem Timed.congr {server server' : Server} (timed : Timed config server)
    (connected : ∀ object, server'.connected object = true → server.connected object = true)
    (timer : server'.timer = server.timer) (clock : server'.clock = server.clock)
    (active : server'.active = server.active) : Timed config server' where
  ordered := by
    rw [timer]
    exact timed.ordered
  entry object isConnected := by
    rw [timer, entryOf, deadlineOf, active]
    exact timed.entry object (connected object isConnected)
  bounded node present := by
    rw [timer] at present
    rw [clock]
    exact timed.bounded node present

theorem Timed.closing {server : Server} (timed : Timed config server) (object : ℤ)
    (client : HttpConn) : Timed config (server.closing object client) := by
  refine timed.congr (fun other still => ?_) rfl rfl rfl
  rw [connected_closing, Function.update_apply] at still
  split_ifs at still
  exact still

/-- A new client takes over the entry of its descriptor, if there is one. -/
theorem Timed.joined {server : Server} (timed : Timed config server) (on : 0 < config.timeoutMS)
    (sound : server.Sound) {arrival : Arrival} {client : HttpConn} {timer : HeapTimer ℤ}
    (isOpen : client.isClose = false) (later : server.clock ≤ arrival.now)
    (added : addTimer config arrival server.timer = .ok timer) :
    Timed config (server.joined arrival client timer) := by
  rw [addTimer, if_pos on] at added
  obtain ⟨_, ordered, mem⟩ := add_ok sound.indexed added
  refine ⟨ordered timed.ordered, fun object isConnected => (mem _).mpr ?_, fun node present => ?_⟩
  · rw [connected_joined arrival timer server isOpen] at isConnected
    rcases eq_or_ne object arrival.fd with rfl | apart
    · left
      simp only [entryOf, deadlineOf, Server.joined, Function.update_self]
    · right
      rw [Function.update_of_ne apart] at isConnected
      refine ⟨?_, apart⟩
      simp only [entryOf, deadlineOf, Server.joined, Function.update_of_ne apart]
      exact timed.entry object isConnected
  · rcases (mem node).mp present with rfl | ⟨before, _⟩
    · exact le_rfl
    · exact (timed.bounded node before).trans (deadline_mono _ later)

/-- Activity puts the deadline of one connection forward. -/
theorem Timed.dealt {server : Server} (timed : Timed config server) (on : 0 < config.timeoutMS)
    (sound : server.Sound) {kind : TaskKind} {fd now : ℤ} {interest : Interest} {client : HttpConn}
    {timer : HeapTimer ℤ} (registered : server.kernel.epoll fd = some interest)
    (known : server.users fd = some client) (later : server.clock ≤ now)
    (extended : extentTime config client now server.timer = .ok timer) :
    Timed config (server.dealt kind fd now timer) := by
  have present := timed.entry fd (sound.registered fd interest registered)
  rw [extentTime, if_pos on, sound.sockFd fd client known] at extended
  obtain ⟨adjusted, success, _, ordered, mem⟩ :=
    adjust_ok sound.indexed present config.timeoutMS now
  rw [show (entryOf config server fd).id = fd from rfl] at success mem
  rw [extended] at success
  cases success
  have forward : (entryOf config server fd).expires ≤ deadline config.timeoutMS now :=
    (timed.bounded _ present).trans (deadline_mono _ later)
  refine ⟨ordered timed.ordered forward, fun object isConnected => (mem _).mpr ?_,
    fun node there => ?_⟩
  · rcases eq_or_ne object fd with rfl | apart
    · left
      simp only [entryOf, deadlineOf, Server.dealt, Function.update_self]
    · right
      refine ⟨?_, apart⟩
      simp only [entryOf, deadlineOf, Server.dealt, Function.update_of_ne apart]
      exact timed.entry object isConnected
  · rcases (mem node).mp there with rfl | ⟨before, _⟩
    · exact le_rfl
    · exact (timed.bounded node before).trans (deadline_mono _ later)

theorem Effects.timed {source target : Server} {effect : Effect} (on : 0 < config.timeoutMS)
    (move : Effects config source effect target) (sound : source.Sound)
    (timely : effect.Timely source) (timed : Timed config source) : Timed config target := by
  cases move with
  | leak free => exact timed.congr (fun _ => id) rfl rfl rfl
  | refuse free => exact timed.congr (fun _ => id) rfl rfl rfl
  | join free room owns isOpen added => exact timed.joined on sound isOpen timely added
  | hangUp registered armed known => exact timed.closing _ _
  | callback known => exact timed.closing _ _
  | deal registered armed known extended => exact timed.dealt on sound registered known timely extended
  | retime indexed ordered fewer left =>
    refine ⟨ordered timed.ordered, fun object isConnected => ?_, fun node present => ?_⟩
    · exact left _ (timed.entry object isConnected) isConnected
    · exact (timed.bounded node (fewer node present)).trans (deadline_mono _ timely)
  | @rearm index task interest client next queued armed known same =>
    refine timed.congr (fun object isConnected => ?_) rfl rfl rfl
    rwa [connected_rearmed index interest known same] at isConnected
  | @finish index task client next queued known same =>
    have erased : Timed config { source with pending := source.pending.eraseIdx index } :=
      timed.congr (fun _ => id) rfl rfl rfl
    exact erased.closing _ _

/-! ## The guarantee -/

/-- A connection that rounds of `tick` close was found expired at the reading that fired its entry. -/
def ClosesExpired (config : Config) (server target : Server) (ticked : Ticked ℤ) : Prop :=
  ∀ object, server.connected object = true → target.connected object = false →
    ∃ now, (entryOf config server object, now) ∈ ticked.fired ∧
      (entryOf config server object).remaining now ≤ 0

/-- Every open connection has one entry, with the deadline of its latest activity; extending it cannot
fail; `tick` and each of its rounds close only expired connections, whoever had the descriptor before;
and a tick leaves no connection expired at its last reading. -/
structure ExactTimeout (config : Config) (server : Server) : Prop where
  entry : ∀ object, server.connected object = true →
    ∃ i, server.timer.heap[i]? = some (entryOf config server object) ∧
      ∀ (j : ℕ) (node : TimerNode ℤ), server.timer.heap[j]? = some node → node.id = object → j = i
  extend : ∀ kind fd interest now, server.kernel.epoll fd = some interest →
    ∃ target, (server.disarm fd).deal kind config fd now = .ok target
  round : ∀ round target, server.tickRound round = .ok target →
    ∃ ticked, server.timer.rounds 1 (fun _ => round) = .ok ticked ∧
      ClosesExpired config server target ticked
  tick : ∀ source target, server.tick source = .ok target →
    ∃ ticked, server.timer.tick source = .ok ticked ∧
      ClosesExpired config server target ticked ∧
      ∀ object, target.connected object = true → ∃ now, ticked.readings.getLast? = some now ∧
        0 < (entryOf config target object).remaining now

/-- Which connections are open after rounds of `tick`; their latest activities are as before. -/
theorem closed_of_expire {server target : Server} {ticked : Ticked ℤ} (sound : server.Sound)
    (run : server.expire ticked = .ok target) :
    target.active = server.active ∧ ∀ object, target.connected object = true ↔
      server.connected object = true ∧ ∀ entry ∈ ticked.fired, entry.1.cb ≠ object := by
  obtain ⟨closed, callbacks, run⟩ := bind_ok run
  obtain ⟨_, called⟩ :=
    callbacks_path ⟨0, 0⟩ False sound (fun impossible : False => impossible.elim) callbacks
  rw [← Except.ok.inj run]
  exact ⟨called.active, called.connected⟩

theorem closesExpired_of_expire {server target : Server} {bound : ℕ} {source : ℕ → Round}
    {ticked : Ticked ℤ} (sound : server.Sound) (timed : Timed config server)
    (rounds : server.timer.rounds bound source = .ok ticked)
    (run : server.expire ticked = .ok target) : ClosesExpired config server target ticked := by
  intro object before after
  have expires := rounds_ok sound.indexed rounds
  obtain ⟨⟨node, now⟩, isFired, isObject⟩ : ∃ entry ∈ ticked.fired, entry.1.cb = object := by
    by_contra none
    have kept := ((closed_of_expire sound run).2 object).mpr
      ⟨before, fun entry fired isObject => none ⟨entry, fired, isObject⟩⟩
    rw [kept] at after
    cases after
  obtain ⟨present, expired⟩ := expires.fired node now isFired
  have isId : node.id = object := (sound.entries node present).1.symm.trans isObject
  obtain rfl := sound.indexed.eq_of_mem present (timed.entry object before) isId
  exact ⟨now, isFired, expired⟩

theorem deal_completes {server : Server} (on : 0 < config.timeoutMS) (sound : server.Sound)
    (timed : Timed config server) (kind : TaskKind) {fd : ℤ} {interest : Interest} (now : ℤ)
    (registered : server.kernel.epoll fd = some interest) :
    ∃ target, (server.disarm fd).deal kind config fd now = .ok target := by
  have isConnected := sound.registered fd interest registered
  obtain ⟨client, known⟩ := exists_client isConnected
  obtain ⟨timer, success, _⟩ :=
    adjust_ok sound.indexed (timed.entry fd isConnected) config.timeoutMS now
  have owns : (entryOf config server fd).id = client.sockFd := (sound.sockFd fd client known).symm
  rw [owns] at success
  have looked : (server.disarm fd).client fd = .ok client := by
    simp only [Server.client, disarm, known]
  have extended : extentTime config client now (server.disarm fd).timer = .ok timer := by
    rw [extentTime, if_pos on]
    exact success
  cases outcome : (server.disarm fd).deal kind config fd now with
  | ok target => exact ⟨target, rfl⟩
  | error fault =>
    simp only [deal, looked, extended, ok_bind] at outcome
    cases outcome

/-- With timers on and a clock that does not go back, the idle timeout is exact in every reachable
state. -/
theorem exactTimeout_of_reachable (config : Config) (on : 0 < config.timeoutMS) (server : Server)
    (reached : ((machine config).restrict Timely).Reachable server) : ExactTimeout config server := by
  have path : ((effects config).restrict (Allowed True False)).Reachable server :=
    reachable_effects (fun _ _ timely _ => timely) (fun _ _ _ => False.elim) reached
  have sound := sound_of_effects path.of_restrict
  have timed : Timed config server := by
    refine effects_invariant start_timed ?_ path
    intro source effect target sound timed allowed move
    exact move.timed on sound (allowed.1 trivial) timed
  constructor
  · intro object isConnected
    obtain ⟨i, found⟩ := Array.mem_iff_getElem?.mp (timed.entry object isConnected)
    exact ⟨i, found, fun j node there isObject => sound.indexed.unique there found isObject⟩
  · intro kind fd interest now registered
    exact deal_completes on sound timed kind now registered
  · intro round target run
    obtain ⟨ticked, rounds, run⟩ := bind_ok run
    exact ⟨ticked, rounds, closesExpired_of_expire sound timed rounds run⟩
  · intro source target run
    obtain ⟨ticked, rounds, run⟩ := bind_ok run
    refine ⟨ticked, rounds, closesExpired_of_expire sound timed rounds run, fun object left => ?_⟩
    obtain ⟨active, connected⟩ := closed_of_expire sound run
    obtain ⟨before, others⟩ := (connected object).mp left
    have expires := rounds_ok sound.indexed rounds
    have present : entryOf config server object ∈ ticked.timer.heap := by
      refine (expires.mem _).mpr ⟨timed.entry object before, fun entry fired same => ?_⟩
      have there := (expires.fired entry.1 entry.2 fired).1
      exact others entry fired ((sound.entries entry.1 there).1.trans same)
    rw [entryOf, deadlineOf, active]
    exact (rounds_fire sound.indexed timed.ordered le_rfl rounds).unexpired _ present

private def clientAt (now : ℤ) : Action := .listen [⟨5, now, .ok true, 0, ⟨0, 0⟩, ⟨0, 0⟩⟩]

private def earlier : Server := (start (fun _ => false) 0).next ⟨3, 60000⟩ (clientAt 0)

private def abandoned : Server := earlier.next ⟨3, 60000⟩ (.event 5 ⟨true, false, false⟩ 1000000000)

private def later : Server := abandoned.next ⟨3, 60000⟩ (clientAt 30000000000)

/-- A client leaves its entry behind, and the next client of the descriptor comes half a timeout later. -/
theorem exactTimeout_after_stale :
    (abandoned.timer.heap[0]?.map (·.expires) = some 60000000000 ∧
      later.timer.heap[0]?.map (·.expires) = some 90000000000) ∧ ExactTimeout ⟨3, 60000⟩ later := by
  have first : ((machine ⟨3, 60000⟩).restrict Timely).Reachable earlier :=
    next_reachable (.init ⟨_, _, rfl⟩) _ ⟨by decide +kernel, by decide +kernel⟩
      (show List.Pairwise (· ≤ ·) [(0 : ℤ), 0] by decide) (by decide +kernel)
  have closed : ((machine ⟨3, 60000⟩).restrict Timely).Reachable abandoned :=
    next_reachable first _ ⟨.input, by decide +kernel, by decide⟩
      (show earlier.clock ≤ 1000000000 by decide +kernel) (by decide +kernel)
  have reused : ((machine ⟨3, 60000⟩).restrict Timely).Reachable later :=
    next_reachable closed _ ⟨by decide +kernel, by decide +kernel⟩
      (show List.Pairwise (· ≤ ·) [abandoned.clock, 30000000000] by decide +kernel)
      (by decide +kernel)
  exact ⟨by decide +kernel, exactTimeout_of_reachable ⟨3, 60000⟩ (by decide) later reused⟩

end Server

end XWebServer
