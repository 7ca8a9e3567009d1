import XWebServer.Server.Accounting
import XWebServer.Timer.Refinement

/-! # Whether `DealListen` leaves connections waiting

An edge-triggered listener is not reported again for connections that were already waiting. The loop of
`DealListen` goes on until `accept` fails, but it returns behind the first connection that it refuses,
and behind a connection with the descriptor 0.
-/

namespace XWebServer

open HeapTimer

namespace Server

/-- `AddClient` took the connection of an accept. -/
structure Registers (serial : ℕ) (fd : ℤ) (target : Server) : Prop where
  connected : target.connected fd = true
  epoll : target.kernel.epoll fd = some .input
  latest : target.kernel.latest fd = some ⟨serial, some fd⟩

/-- `SendError` closed the descriptor of an accept. -/
def Refuses (serial : ℕ) (fd : ℤ) (target : Server) : Prop :=
  ∃ call ∈ target.kernel.closeCalls, call.fd = fd ∧ call.caller = none ∧ call.wasOpen = true ∧
    call.latest = some ⟨serial, none⟩

/-- A call of `DealListen` has accepted every connection that was waiting, and each one is registered or
refused. -/
structure Drains (server : Server) (arrivals : List Arrival) (target : Server) : Prop where
  accepted : target.kernel.accepts = server.kernel.accepts + arrivals.length
  handled : ∀ index arrival, arrivals[index]? = some arrival →
    target.Registers (server.kernel.accepts + index) arrival.fd ∨
      target.Refuses (server.kernel.accepts + index) arrival.fd
  bounded : target.userCount ≤ maxFd

variable {config : Config}

/-- An accept that is still to come has not been refused. -/
theorem Sound.not_refuses {server : Server} (sound : server.Sound) {serial : ℕ}
    (future : server.kernel.accepts ≤ serial) (fd : ℤ) : ¬ server.Refuses serial fd := by
  rintro ⟨call, made, _, _, _, latest⟩
  have closed : some serial ∈ server.kernel.closeCalls.map (·.latest.map (·.serial)) :=
    List.mem_map.mpr ⟨call, made, by rw [latest]; rfl⟩
  exact absurd (sound.kernel.past serial closed) (not_lt.mpr future)

/-- `DealListen` leaves a connection alone whose descriptor it does not accept. -/
theorem Registers.dealListen {arrivals : List Arrival} {server target : Server} {serial : ℕ} {fd : ℤ}
    (registers : server.Registers serial fd) (sound : server.Sound)
    (admits : server.Admits config (.listen arrivals)) (other : fd ∉ arrivals.map (·.fd))
    (run : server.dealListen config arrivals = .ok target) : target.Registers serial fd := by
  induction arrivals generalizing server with
  | nil =>
    cases run
    exact registers
  | cons arrival rest ih =>
    rw [List.map_cons, List.mem_cons, not_or] at other
    obtain ⟨apart, others⟩ := other
    have closed := (admits.1 arrival List.mem_cons_self).2
    rcases dealListen_cases (sound.idle closed).2 run with ⟨_, rfl⟩ | ⟨_, _, rfl⟩ |
      ⟨_, room, client, timer, owns, isOpen, added, run⟩
    · refine ⟨registers.connected, registers.epoll, ?_⟩
      simp only [Kernel.accept, Function.update_of_ne apart, registers.latest]
    · refine ⟨registers.connected, ?_, ?_⟩
      · simp only [Kernel.close, Kernel.accept, Function.update_of_ne apart, registers.epoll]
      · simp only [Kernel.close, Kernel.accept, Function.update_of_ne apart, registers.latest]
    · have kept : (server.joined arrival client timer).Registers serial fd := by
        refine ⟨?_, ?_, ?_⟩
        · rw [connected_joined arrival timer server isOpen, Function.update_of_ne apart]
          exact registers.connected
        · simp only [joined, Function.update_of_ne apart, registers.epoll]
        · simp only [joined, Function.update_of_ne apart, registers.latest]
      have effect : Effects config server (.join arrival) (server.joined arrival client timer) :=
        .join closed room owns isOpen added
      split_ifs at run
      · exact ih kept (effect.sound sound) (admits.joined client timer) others run
      · cases run
        exact kept

/-- The connection that joins first is one of those that the whole call has to handle. -/
theorem drains_cons_iff {arrival : Arrival} {rest : List Arrival} {server target : Server}
    {client : HttpConn} {timer : HeapTimer ℤ}
    (registers : target.Registers server.kernel.accepts arrival.fd) :
    Drains server (arrival :: rest) target ↔ Drains (server.joined arrival client timer) rest target := by
  have accepts : (server.joined arrival client timer).kernel.accepts = server.kernel.accepts + 1 := rfl
  have shift (index : ℕ) : server.kernel.accepts + (index + 1) = server.kernel.accepts + 1 + index := by
    omega
  constructor
  · rintro ⟨accepted, handled, bounded⟩
    refine ⟨?_, fun index other found => ?_, bounded⟩
    · rw [accepted, accepts, List.length_cons, shift]
    · rw [accepts, ← shift]
      exact handled (index + 1) other found
  · rintro ⟨accepted, handled, bounded⟩
    rw [accepts] at accepted handled
    refine ⟨?_, fun index other found => ?_, bounded⟩
    · rw [accepted, List.length_cons]
      omega
    · cases index with
      | zero =>
        obtain rfl := Option.some.inj found
        exact .inl registers
      | succ index =>
        rw [shift]
        exact handled index other found

/-- The connection with the descriptor 0 is neither registered nor refused. -/
theorem not_drains_zero {arrival : Arrival} {rest : List Arrival} {server : Server} (sound : server.Sound) :
    ¬ Drains server (arrival :: rest) { server with kernel := server.kernel.accept arrival.fd } := by
  rintro ⟨_, handled, _⟩
  rcases handled 0 arrival rfl with registers | refuses
  · have latest := registers.latest
    simp [Kernel.accept] at latest
  · exact sound.not_refuses le_rfl _ refuses

/-- Behind a connection that is refused nobody may wait. -/
theorem drains_refused_iff {arrival : Arrival} {rest : List Arrival} {server : Server}
    (bounded : server.userCount ≤ maxFd) :
    Drains server (arrival :: rest)
      { server with kernel := (server.kernel.accept arrival.fd).close none arrival.fd } ↔ rest = [] := by
  constructor
  · rintro ⟨accepted, _, _⟩
    change server.kernel.accepts + 1 = _ at accepted
    rw [List.length_cons] at accepted
    exact List.length_eq_zero_iff.mp (by omega)
  · rintro rfl
    refine ⟨rfl, fun index other found => ?_, bounded⟩
    obtain ⟨rfl, rfl⟩ : index = 0 ∧ other = arrival := by
      cases index with
      | zero => exact ⟨rfl, (Option.some.inj found).symm⟩
      | succ index => cases found
    refine .inr ⟨_, List.mem_append_right _ (List.mem_singleton_self _), rfl, rfl, ?_, ?_⟩
    · simp [Kernel.accept]
    · simp [Kernel.accept]

theorem registers_joined {arrival : Arrival} {server : Server} {client : HttpConn}
    (timer : HeapTimer ℤ) (isOpen : client.isClose = false) :
    (server.joined arrival client timer).Registers server.kernel.accepts arrival.fd where
  connected := by rw [connected_joined arrival timer server isOpen, Function.update_self]
  epoll := by simp only [joined, Function.update_self]
  latest := by simp only [joined, Function.update_self]

theorem drains_iff_of_sound (edge : config.listenET = true) {arrivals : List Arrival}
    {server target : Server} (sound : server.Sound) (bounded : server.userCount ≤ maxFd)
    (admits : server.Admits config (.listen arrivals))
    (run : server.dealListen config arrivals = .ok target) :
    Drains server arrivals target ↔
      (∀ arrival ∈ arrivals, arrival.fd ≠ 0) ∧ server.userCount + arrivals.length ≤ maxFd + 1 := by
  induction arrivals generalizing server with
  | nil =>
    cases run
    refine iff_of_true ⟨rfl, by simp, bounded⟩ ⟨by simp, ?_⟩
    rw [List.length_nil]
    omega
  | cons arrival rest ih =>
    have closed := (admits.1 arrival List.mem_cons_self).2
    rw [List.forall_mem_cons, List.length_cons]
    rcases dealListen_cases (sound.idle closed).2 run with ⟨negative, rfl⟩ | ⟨positive, full, rfl⟩ |
      ⟨positive, room, client, timer, owns, isOpen, added, run⟩
    · have zero : arrival.fd = 0 := le_antisymm negative (admits.1 arrival List.mem_cons_self).1
      apply iff_of_false
      · exact not_drains_zero sound
      · rintro ⟨⟨nonzero, _⟩, _⟩
        exact nonzero zero
    · rw [drains_refused_iff bounded]
      constructor
      · rintro rfl
        refine ⟨⟨positive.ne', by simp⟩, ?_⟩
        rw [List.length_nil]
        omega
      · rintro ⟨_, fits⟩
        exact List.length_eq_zero_iff.mp (by omega)
    · have effect : Effects config server (.join arrival) (server.joined arrival client timer) :=
        .join closed room owns isOpen added
      have nextSound := effect.sound sound
      have nextAdmits := admits.joined client timer
      rw [if_pos edge] at run
      have new := (List.nodup_cons.mp admits.2).1
      have last := (registers_joined timer isOpen).dealListen nextSound nextAdmits new run
      have roomLeft : (server.joined arrival client timer).userCount ≤ maxFd :=
        Int.add_one_le_iff.mpr room
      rw [drains_cons_iff last, ih nextSound roomLeft nextAdmits run]
      change _ ∧ server.userCount + 1 + (rest.length : ℤ) ≤ _ ↔ _
      push_cast
      constructor
      · rintro ⟨nonzero, fits⟩
        exact ⟨⟨positive.ne', nonzero⟩, by omega⟩
      · rintro ⟨⟨_, nonzero⟩, fits⟩
        exact ⟨nonzero, by omega⟩

theorem addClient_ends {arrival : Arrival} {server : Server} (indexed : server.timer.Indexed)
    (positive : 0 < arrival.fd) (ends : arrival.wild = .ok true) :
    ∃ target, server.addClient config arrival = .ok target := by
  have added : ∃ timer, addTimer config arrival server.timer = .ok timer := by
    rw [addTimer, ends]
    split_ifs
    · exact add_ends indexed positive.le _ _ _
    · exact ⟨_, rfl⟩
  obtain ⟨timer, added⟩ := added
  simp only [addClient, HttpConn.init, assert_of positive, ok_bind, added]
  exact ⟨_, rfl⟩

/-- The loop returns when every upward sift ends at the root. -/
theorem dealListen_ends {arrivals : List Arrival} {server : Server} (sound : server.Sound)
    (admits : server.Admits config (.listen arrivals))
    (ends : ∀ arrival ∈ arrivals, arrival.wild = .ok true) :
    ∃ target, server.dealListen config arrivals = .ok target := by
  induction arrivals generalizing server with
  | nil => exact ⟨server, rfl⟩
  | cons arrival rest ih =>
    obtain ⟨here, later⟩ := List.forall_mem_cons.mp ends
    have closed := (admits.1 arrival List.mem_cons_self).2
    rw [dealListen]
    dsimp only
    by_cases negative : arrival.fd ≤ 0
    · rw [if_pos negative]
      exact ⟨_, rfl⟩
    have positive := not_le.mp negative
    rw [if_neg negative]
    by_cases full : maxFd ≤ server.userCount
    · rw [if_pos full, sendError, assert_of positive]
      exact ⟨_, rfl⟩
    rw [if_neg full]
    have joins : ∃ next, addClient config arrival
        { server with kernel := server.kernel.accept arrival.fd } = .ok next :=
      addClient_ends sound.indexed positive here
    obtain ⟨next, joins⟩ := joins
    obtain ⟨client, timer, owns, isOpen, added, rfl⟩ := addClient_ok (sound.idle closed).2 joins
    have effect : Effects config server (.join arrival) (server.joined arrival client timer) :=
      .join closed (not_le.mp full) owns isOpen added
    rw [joins, ok_bind]
    split_ifs
    · exact ih (effect.sound sound) (admits.joined client timer) later
    · exact ⟨_, rfl⟩

/-- In every reachable state, with an edge-triggered listener, a call of `DealListen` that returns has
handled the whole queue exactly when no connection got the descriptor 0 and the server has room for all
but one of the connections. -/
theorem drains_iff (edge : config.listenET = true) {server : Server}
    (reached : (machine config).Reachable server) {arrivals : List Arrival}
    (admits : server.Admits config (.listen arrivals)) :
    ((∀ arrival ∈ arrivals, arrival.wild = .ok true) →
      ∃ target, server.dealListen config arrivals = .ok target) ∧
    ∀ target, server.dealListen config arrivals = .ok target →
      (Drains server arrivals target ↔
        (∀ arrival ∈ arrivals, arrival.fd ≠ 0) ∧
          server.userCount + arrivals.length ≤ maxFd + 1) := by
  have path := effects_of_reachable reached
  have sound := sound_of_effects path
  have bounded := (accounted_of_effects path).bounded
  exact ⟨dealListen_ends sound admits, fun target => drains_iff_of_sound edge sound bounded admits⟩

/-- Some connections with the descriptors from 1 on. -/
private def burst (count : ℕ) : List Arrival :=
  (List.range count).map fun n : ℕ => ⟨n + 1, 0, .ok true, 0, ⟨0, 0⟩, ⟨0, 0⟩⟩

private theorem mem_burst {count : ℕ} {arrival : Arrival} (there : arrival ∈ burst count) :
    0 < arrival.fd ∧ arrival.wild = .ok true := by
  obtain ⟨n, _, rfl⟩ := List.mem_map.mp there
  exact ⟨by dsimp only; omega, rfl⟩

private theorem burst_admitted (count : ℕ) :
    (start (fun _ => false) 0).Admits ⟨3, 60000⟩ (.listen (burst count)) := by
  refine ⟨fun arrival there => ⟨(mem_burst there).1.le, rfl⟩, ?_⟩
  rw [burst, List.map_map]
  apply List.nodup_range.map
  intro m n same
  have equal : (m : ℤ) + 1 = n + 1 := same
  omega

private theorem start_reachable : (machine ⟨3, 60000⟩).Reachable (start (fun _ => false) 0) :=
  .init ⟨_, _, rfl⟩

/-- Two connections come at once. -/
theorem drains_two : ∃ target, (start (fun _ => false) 0).dealListen ⟨3, 60000⟩ (burst 2) = .ok target ∧
    Drains (start (fun _ => false) 0) (burst 2) target := by
  obtain ⟨returns, exact⟩ := drains_iff (by decide) start_reachable (burst_admitted 2)
  obtain ⟨target, run⟩ := returns fun arrival there => (mem_burst there).2
  refine ⟨target, run, (exact target run).mpr ⟨fun arrival there => (mem_burst there).1.ne', ?_⟩⟩
  decide

/-- Two more connections come at once than the server has room for. -/
theorem not_forall_drains : ¬ ∀ (config : Config) (server target : Server) (arrivals : List Arrival),
    config.listenET = true → (machine config).Reachable server →
      server.Admits config (.listen arrivals) →
        server.dealListen config arrivals = .ok target → Drains server arrivals target := by
  intro drains
  have sound := start_sound (fun _ => false) 0
  have admits := burst_admitted 65538
  obtain ⟨target, run⟩ := dealListen_ends sound admits fun arrival there => (mem_burst there).2
  have drained := drains _ _ target _ (by decide) start_reachable admits run
  have bounded : (start (fun _ => false) 0).userCount ≤ maxFd := by decide
  obtain ⟨_, fits⟩ := (drains_iff_of_sound (by decide) sound bounded admits run).mp drained
  rw [burst, List.length_map, List.length_range] at fits
  revert fits
  decide

end Server

end XWebServer
