import Mathlib.Data.List.Perm.Basic
import XWebServer.Server.Survival

/-! # Nobody is forgotten

A connection that was accepted and not closed belongs to an object, the object is registered with epoll,
and where its registration is disarmed a task is queued that will arm or close it. So no connection is
left without anyone to look after it, however ticks, hang-ups and stale tasks come in between. The one
exception is a connection with the descriptor 0.
-/

namespace XWebServer

open Transition System HeapTimer HttpConn

namespace Server

/-- Every accepted connection belongs to an object, is registered, and waits for epoll or for a task. -/
structure Attended (server : Server) : Prop where
  accepted : ∀ fd, server.kernel.isOpen fd = true → server.kernel.latest fd ≠ none → fd ≠ 0 →
    server.connected fd = true
  registered : ∀ fd, server.connected fd = true → ∃ interest, server.kernel.epoll fd = some interest
  awaited : ∀ fd, server.kernel.epoll fd = some .disarmed → ∃ task ∈ server.pending, task.object = fd

theorem start_attended (isOpen : ℤ → Bool) (clock : ℤ) : (start isOpen clock).Attended where
  accepted _ _ known := absurd rfl known
  registered _ isConnected := by cases isConnected
  awaited _ disarmed := by cases disarmed

/-- A closed connection needs nobody. -/
theorem Attended.closing {server : Server} {object : ℤ} {client : HttpConn}
    (accepted : ∀ fd, server.kernel.isOpen fd = true → server.kernel.latest fd ≠ none → fd ≠ 0 →
      server.connected fd = true)
    (registered : ∀ fd, server.connected fd = true → ∃ interest, server.kernel.epoll fd = some interest)
    (awaited : ∀ fd, fd ≠ object → server.kernel.epoll fd = some .disarmed →
      ∃ task ∈ server.pending, task.object = fd)
    (unregistered : server.connected object = false → server.kernel.epoll object = none) :
    (server.closing object client).Attended := by
  have away (fd : ℤ) (apart : fd ≠ object) :
      (server.closing object client).connected fd = server.connected fd ∧
        (server.closing object client).kernel.isOpen fd = server.kernel.isOpen fd ∧
        (server.closing object client).kernel.epoll fd = server.kernel.epoll fd := by
    refine ⟨by rw [connected_closing, Function.update_of_ne apart], ?_, ?_⟩
    all_goals
      simp only [Server.closing]
      split_ifs
      · simp only [Kernel.close, Function.update_of_ne apart]
      · rfl
  have gone : (server.closing object client).kernel.epoll object = none := by
    simp only [Server.closing]
    split_ifs with isConnected
    · exact Function.update_self ..
    · exact unregistered (by simpa using isConnected)
  have latest : (server.closing object client).kernel.latest = server.kernel.latest := by
    simp only [Server.closing]
    split_ifs <;> rfl
  refine ⟨fun fd isOpen known nonzero => ?_, fun fd isConnected => ?_, fun fd disarmed => ?_⟩
  · rw [latest] at known
    rcases eq_or_ne fd object with rfl | apart
    · by_cases isConnected : server.connected fd = true
      · simp only [Server.closing, isConnected, if_true, Kernel.close, Function.update_self] at isOpen
        cases isOpen
      · simp only [Server.closing, isConnected, if_false, Bool.false_eq_true] at isOpen
        exact absurd (accepted fd isOpen known nonzero) isConnected
    · rw [(away fd apart).2.1] at isOpen
      rw [(away fd apart).1]
      exact accepted fd isOpen known nonzero
  · rw [connected_closing, Function.update_apply] at isConnected
    split_ifs at isConnected with same
    obtain ⟨interest, found⟩ := registered fd isConnected
    exact ⟨interest, by rw [(away fd same).2.2, found]⟩
  · rcases eq_or_ne fd object with rfl | apart
    · cases gone.symm.trans disarmed
    · rw [(away fd apart).2.2] at disarmed
      exact awaited fd apart disarmed

theorem Attended.joined {server : Server} (attended : server.Attended) {arrival : Arrival}
    {client : HttpConn} {timer : HeapTimer ℤ} (isOpen : client.isClose = false) :
    (server.joined arrival client timer).Attended := by
  have connected := connected_joined arrival timer server isOpen
  refine ⟨fun fd opened known nonzero => ?_, fun fd isConnected => ?_, fun fd disarmed => ?_⟩
  · rw [connected, Function.update_apply]
    split_ifs with same
    · rfl
    · simp only [Server.joined, Function.update_of_ne same] at opened known
      exact attended.accepted fd opened known nonzero
  · simp only [Server.joined, Function.update_apply]
    split_ifs with same
    · exact ⟨_, rfl⟩
    · rw [connected, Function.update_of_ne same] at isConnected
      exact attended.registered fd isConnected
  · simp only [Server.joined, Function.update_apply] at disarmed
    split_ifs at disarmed
    · cases disarmed
    · exact attended.awaited fd disarmed

theorem Attended.dealt {server : Server} (attended : server.Attended) (kind : TaskKind) (fd now : ℤ)
    (timer : HeapTimer ℤ) : (server.dealt kind fd now timer).Attended := by
  refine ⟨attended.accepted, fun other isConnected => ?_, fun other disarmed => ?_⟩
  · simp only [Server.dealt, Function.update_apply]
    split_ifs
    · exact ⟨_, rfl⟩
    · exact attended.registered other isConnected
  · rcases eq_or_ne other fd with rfl | apart
    · exact ⟨_, List.mem_append_right _ (List.mem_singleton_self _), rfl⟩
    · simp only [Server.dealt, Function.update_of_ne apart] at disarmed
      obtain ⟨task, queued, isObject⟩ := attended.awaited other disarmed
      exact ⟨task, List.mem_append_left _ queued, isObject⟩

/-- Another task than the one taken out is still there. -/
theorem mem_eraseIdx_of_ne {tasks : List Task} {index : ℕ} {task other : Task}
    (queued : tasks[index]? = some task) (there : other ∈ tasks) (apart : other ≠ task) :
    other ∈ tasks.eraseIdx index := by
  obtain ⟨inside, isTask⟩ := List.getElem?_eq_some_iff.mp queued
  have whole := (List.getElem_cons_eraseIdx_perm inside).mem_iff.mpr there
  rw [isTask, List.mem_cons] at whole
  exact whole.resolve_left apart

theorem Attended.awaited_behind {server : Server} (attended : server.Attended) {index : ℕ} {task : Task}
    (queued : server.pending[index]? = some task) {fd : ℤ} (apart : fd ≠ task.object)
    (disarmed : server.kernel.epoll fd = some .disarmed) :
    ∃ other ∈ server.pending.eraseIdx index, other.object = fd := by
  obtain ⟨other, there, rfl⟩ := attended.awaited fd disarmed
  exact ⟨other, mem_eraseIdx_of_ne queued there fun same => apart (by rw [same]), rfl⟩

theorem Attended.rearmed {server : Server} (attended : server.Attended) {index : ℕ} {task : Task}
    {interest : Interest} {client next : HttpConn} (queued : server.pending[index]? = some task)
    (armed : interest ≠ .disarmed) (known : server.users task.object = some client)
    (same : SameClient client next) :
    (server.rearmed index task.object interest next).Attended := by
  have connected := connected_rearmed index interest known same
  have registered (fd : ℤ) :
      (server.rearmed index task.object interest next).kernel.epoll fd = server.kernel.epoll fd ∨
        (fd = task.object ∧
          (server.rearmed index task.object interest next).kernel.epoll fd = some interest) := by
    simp only [Server.rearmed, Kernel.modFd]
    cases server.kernel.epoll task.object with
    | none => exact .inl rfl
    | some before =>
      rcases eq_or_ne fd task.object with rfl | apart
      · exact .inr ⟨rfl, Function.update_self ..⟩
      · exact .inl (Function.update_of_ne apart ..)
  refine ⟨fun fd isOpen known nonzero => ?_, fun fd isConnected => ?_, fun fd disarmed => ?_⟩
  · rw [connected]
    simp only [Server.rearmed, Kernel.modFd_isOpen, Kernel.modFd_latest] at isOpen known
    exact attended.accepted fd isOpen known nonzero
  · rw [connected] at isConnected
    rcases registered fd with before | ⟨_, after⟩
    · rw [before]
      exact attended.registered fd isConnected
    · exact ⟨interest, after⟩
  · rcases eq_or_ne fd task.object with rfl | apart
    · -- the task has armed its own descriptor, or found no registration
      simp only [Server.rearmed, Kernel.modFd] at disarmed
      cases before : server.kernel.epoll task.object with
      | none =>
        rw [before] at disarmed
        cases before.symm.trans disarmed
      | some found =>
        simp only [before, Function.update_self, Option.some.injEq] at disarmed
        exact absurd disarmed armed
    · rcases registered fd with before | ⟨same, _⟩
      · rw [before] at disarmed
        exact attended.awaited_behind queued apart disarmed
      · exact absurd same apart

variable {config : Config}

theorem Effects.attended {source target : Server} {effect : Effect} (attended : source.Attended)
    (sound : source.Sound) (handled : effect.listens = false)
    (move : Effects config source effect target) : target.Attended := by
  have closing {object : ℤ} {client : HttpConn} : (source.closing object client).Attended :=
    .closing attended.accepted attended.registered (fun fd _ => attended.awaited fd) sound.unregistered
  cases move with
  | leak | refuse | join => cases handled
  | hangUp | callback => exact closing
  | deal => exact attended.dealt ..
  | retime => exact ⟨attended.accepted, attended.registered, attended.awaited⟩
  | rearm queued armed known same => exact attended.rearmed queued armed known same
  | finish queued known same =>
    exact .closing attended.accepted attended.registered
      (fun fd apart disarmed => attended.awaited_behind queued apart disarmed) sound.unregistered

theorem Attended.dealListen {arrivals : List Arrival} {server target : Server}
    (attended : server.Attended) (sound : server.Sound)
    (admits : server.Admits config (.listen arrivals))
    (run : server.dealListen config arrivals = .ok target) : target.Attended := by
  induction arrivals generalizing server with
  | nil =>
    cases run
    exact attended
  | cons arrival rest ih =>
    obtain ⟨nonneg, closed⟩ := admits.1 arrival List.mem_cons_self
    rcases dealListen_cases (sound.idle closed).2 run with ⟨nonpos, rfl⟩ | ⟨_, _, rfl⟩ |
      ⟨_, room, client, timer, owns, isOpen, added, run⟩
    · refine ⟨fun fd opened known nonzero => ?_, attended.registered, attended.awaited⟩
      have apart : fd ≠ arrival.fd := by omega
      simp only [Kernel.accept, Function.update_of_ne apart] at opened known
      exact attended.accepted fd opened known nonzero
    · have unregistered := (sound.idle closed).2
      have epoll : ((server.kernel.accept arrival.fd).close none arrival.fd).epoll =
        server.kernel.epoll := by simp only [Kernel.close, Kernel.accept, ← unregistered, Function.update_eq_self]
      refine ⟨fun fd opened known nonzero => ?_, ?_, ?_⟩
      · have apart : fd ≠ arrival.fd := by
          rintro rfl
          simp only [Kernel.close, Function.update_self] at opened
          cases opened
        simp only [Kernel.close, Kernel.accept, Function.update_of_ne apart] at opened known
        exact attended.accepted fd opened known nonzero
      · rw [epoll]
        exact attended.registered
      · rw [epoll]
        exact attended.awaited
    · have effect : Effects config server (.join arrival) (server.joined arrival client timer) :=
        .join closed room owns isOpen added
      split_ifs at run
      · exact ih (attended.joined isOpen) (effect.sound sound) (admits.joined client timer) run
      · cases run
        exact attended.joined isOpen

theorem attended_of_reachable {server : Server} (reached : (machine config).Reachable server) :
    server.Attended := by
  induction reached with
  | init init =>
    obtain ⟨isOpen, clock, rfl⟩ := init
    exact start_attended isOpen clock
  | @step source target action before move attended =>
    have sound := sound_of_effects (effects_of_reachable before)
    cases listens : action.listens with
    | true =>
      cases action with
      | listen arrivals => exact attended.dealListen sound move.1 move.2
      | _ => cases listens
    | false =>
      have path : ((effects config).restrict (Fits False False action.listens)).Path source target :=
        step_path sound move False.elim False.elim
      rw [listens] at path
      refine (path.invariant (P := fun server => server.Sound ∧ server.Attended) ?_ ⟨sound, attended⟩).2
      rintro first effect last ⟨sound, attended⟩ ⟨move, fits⟩
      exact ⟨move.sound sound, move.attended attended sound fits.1⟩

/-- The task that has the connection arms its descriptor, or closes it. -/
theorem Sound.armed_of_run {server target : Server} {index : ℕ} {io : TaskIo} {task : Task}
    (sound : server.Sound) (queued : server.pending[index]? = some task)
    (run : server.run config index io = .ok target) :
    target.kernel.epoll task.object ≠ some .disarmed := by
  obtain ⟨client, decision, next, known, _, same, ⟨interest, rfl, arms⟩ | ⟨_, rfl⟩⟩ :=
    run_cases sound queued run
  · have armed : interest ≠ .disarmed := by
      rcases arms with ⟨_, rfl⟩ | ⟨_, rfl⟩ <;> decide
    simp only [Server.rearmed, Kernel.modFd]
    cases before : server.kernel.epoll task.object with
    | none => simp only [before, ne_eq, reduceCtorEq, not_false_eq_true]
    | some found => simpa only [Function.update_self, ne_eq, Option.some.injEq] using armed
  · intro disarmed
    have gone := (sound.erase index).closing (same.sockFd.trans (sound.sockFd _ _ known))
    have isConnected := gone.registered _ _ disarmed
    rw [connected_closing, Function.update_self] at isConnected
    cases isConnected

/-- There is an object for the connection, epoll reports it or a task is queued that will arm or close
it, and with a timeout the timer has it. -/
structure LookedAfter (config : Config) (server : Server) (fd : ℤ) : Prop where
  object : ∃ client, server.users fd = some client ∧ client.sockFd = fd ∧ client.isClose = false
  accept : ∃ serial, server.kernel.latest fd = some ⟨serial, some fd⟩
  registered : ∃ interest, server.kernel.epoll fd = some interest ∧
    (interest = .disarmed → ∃ task ∈ server.pending, task.object = fd)
  armed : ∀ index task io target, server.pending[index]? = some task → task.object = fd →
    server.step config (.run index io) = .ok target → target.kernel.epoll fd ≠ some .disarmed
  timed : 0 < config.timeoutMS → ∃ node ∈ server.timer.heap, node.id = fd ∧ node.cb = fd

/-- In every reachable state, a connection that was accepted and is open is looked after, unless its
descriptor is 0. -/
theorem open_connection_lookedAfter {server : Server} (reached : (machine config).Reachable server)
    {fd : ℤ} (isOpen : server.kernel.isOpen fd = true) (accepted : server.kernel.latest fd ≠ none)
    (nonzero : fd ≠ 0) : server.LookedAfter config fd := by
  have sound := sound_of_effects (effects_of_reachable reached)
  have attended := attended_of_reachable reached
  have isConnected := attended.accepted fd isOpen accepted nonzero
  obtain ⟨client, known⟩ := exists_client isConnected
  have status := connected_of known
  obtain ⟨interest, registered⟩ := attended.registered fd isConnected
  constructor
  · rw [isConnected] at status
    exact ⟨client, known, sound.sockFd fd client known, by simpa using status.symm⟩
  · exact sound.owner fd isConnected
  · refine ⟨interest, registered, ?_⟩
    rintro rfl
    exact attended.awaited fd registered
  · rintro index task io target queued rfl run
    exact sound.armed_of_run queued run
  · intro on
    obtain ⟨node, there, isId⟩ := entered_of_reachable on reached fd isConnected
    exact ⟨node, there, isId, by rw [(sound.entries node there).1, isId]⟩

private def watchConfig : Config := ⟨3, 60000⟩

private def admitted : Server :=
  (start (fun fd => decide (fd ≤ 2)) 0).next watchConfig
    (.listen [⟨5, 0, .ok true, 0, ⟨0, 0⟩, ⟨0, 0⟩⟩])

private def watched : Server := admitted.next watchConfig (.event 5 ⟨false, true, false⟩ 0)

/-- A connection whose first request is still with the pool. -/
theorem open_connection_lookedAfter_watched : watched.LookedAfter watchConfig 5 := by
  have first : (machine watchConfig).Reachable (start (fun fd => decide (fd ≤ 2)) 0) := .init ⟨_, _, rfl⟩
  have second : (machine watchConfig).Reachable admitted :=
    .step first (step_next ⟨by decide +kernel, by decide +kernel⟩ (by decide +kernel))
  have third : (machine watchConfig).Reachable watched :=
    .step second (step_next ⟨.input, by decide +kernel, by decide⟩ (by decide +kernel))
  exact open_connection_lookedAfter third (by decide +kernel) (by decide +kernel) (by decide)

end Server

end XWebServer
