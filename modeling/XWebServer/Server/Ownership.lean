import Mathlib.Data.List.Perm.Basic
import XWebServer.Server.Steps

/-! # One owner for each connection

A connection is owned by epoll, which may deliver an event for it, or by the one task queued for it. A
timer callback takes no notice of the owner, so ownership holds in the runs in which no tick finds the
entry of a connection with a pending task expired; in a run that breaks this, a task outlives its
connection and meets the next client of the descriptor.
-/

namespace XWebServer

open Transition System HeapTimer HttpConn

namespace Server

/-- Registered with epoll for input or output. -/
def Armed (server : Server) (fd : ℤ) : Prop :=
  ∃ interest, server.kernel.epoll fd = some interest ∧ interest ≠ .disarmed

/-- The number of tasks pending for an object. -/
def tasksFor (server : Server) (object : ℤ) : ℕ := server.pending.countP (·.object = object)

/-- Armed with no task pending, or disarmed with exactly one. -/
def Owned (server : Server) (object : ℤ) : Prop :=
  (server.Armed object ∧ server.tasksFor object = 0) ∨
    (server.kernel.epoll object = some .disarmed ∧ server.tasksFor object = 1)

/-- Every connection has one owner, and every pending task is for the connection, by its accept, that its
object holds now. -/
structure OneOwner (server : Server) : Prop where
  one : ∀ object, server.connected object = true → server.Owned object
  own : ∀ task ∈ server.pending, server.connected task.object = true ∧
    server.kernel.latest task.object = task.accept

theorem start_oneOwner (isOpen : ℤ → Bool) (clock : ℤ) : (start isOpen clock).OneOwner :=
  ⟨fun _ isConnected => (by cases isConnected), fun _ queued => (by cases queued)⟩

/-- What ownership of one object depends on is unchanged. -/
structure Undisturbed (server server' : Server) (object : ℤ) : Prop where
  connected : server'.connected object = server.connected object
  epoll : server'.kernel.epoll object = server.kernel.epoll object
  latest : server'.kernel.latest object = server.kernel.latest object
  tasks : server'.tasksFor object = server.tasksFor object

theorem Undisturbed.owned {server server' : Server} {object : ℤ}
    (same : Undisturbed server server' object) (owned : server.Owned object) :
    server'.Owned object := by
  unfold Owned Armed at owned ⊢
  rw [same.epoll, same.tasks]
  exact owned

/-- Only one object can have changed hands: the others keep their owners. -/
theorem OneOwner.of_others {server server' : Server} (owner : server.OneOwner) (object : ℤ)
    (others : ∀ other, other ≠ object → Undisturbed server server' other)
    (self : server'.connected object = true → server'.Owned object)
    (tasks : ∀ task ∈ server'.pending, (task ∈ server.pending ∧ task.object ≠ object) ∨
      (task.object = object ∧ server'.connected object = true ∧
        server'.kernel.latest object = task.accept)) : server'.OneOwner := by
  constructor
  · intro other isConnected
    rcases eq_or_ne other object with rfl | apart
    · exact self isConnected
    · have same := others other apart
      rw [same.connected] at isConnected
      exact same.owned (owner.one other isConnected)
  · intro task queued
    rcases tasks task queued with ⟨before, apart⟩ | ⟨rfl, new⟩
    · have same := others task.object apart
      rw [same.connected, same.latest]
      exact owner.own task before
    · exact new

theorem apart_of_free {server : Server} {object : ℤ} (free : server.tasksFor object = 0)
    {task : Task} (queued : task ∈ server.pending) : task.object ≠ object := fun same =>
  List.countP_eq_zero.mp free task queued (decide_eq_true same)

/-- No task is pending for an object that is not connected. -/
theorem OneOwner.free_of_idle {server : Server} (owner : server.OneOwner) {object : ℤ}
    (idle : server.connected object = false) : server.tasksFor object = 0 := by
  rw [tasksFor, List.countP_eq_zero]
  intro task queued same
  have connected := (owner.own task queued).1
  rw [of_decide_eq_true same, idle] at connected
  cases connected

/-- Nor for one that epoll may deliver an event for. -/
theorem OneOwner.free_of_armed {server : Server} (owner : server.OneOwner) (sound : server.Sound)
    {fd : ℤ} {interest : Interest} (registered : server.kernel.epoll fd = some interest)
    (armed : interest ≠ .disarmed) : server.tasksFor fd = 0 := by
  rcases owner.one fd (sound.registered fd interest registered) with ⟨_, free⟩ | ⟨disarmed, _⟩
  · exact free
  · rw [registered] at disarmed
    exact absurd (Option.some.inj disarmed) armed

/-- A pending task was the only one of its object. -/
theorem OneOwner.erase {server : Server} (owner : server.OneOwner) {index : ℕ} {task : Task}
    (queued : server.pending[index]? = some task) :
    server.kernel.epoll task.object = some .disarmed ∧
      (server.pending.eraseIdx index).countP (·.object = task.object) = 0 ∧
      ∀ other, other ≠ task.object →
        (server.pending.eraseIdx index).countP (·.object = other) = server.tasksFor other := by
  obtain ⟨inside, isTask⟩ := List.getElem?_eq_some_iff.mp queued
  have count (object : ℤ) := (List.getElem_cons_eraseIdx_perm inside).countP_eq
    (fun other : Task => decide (other.object = object))
  simp only [isTask, List.countP_cons] at count
  have self := count task.object
  rw [decide_eq_true rfl, if_pos rfl] at self
  rcases owner.one task.object (owner.own task (List.mem_of_getElem? queued)).1 with
    ⟨_, free⟩ | ⟨disarmed, one⟩
  · rw [tasksFor, ← self] at free
    cases free
  · refine ⟨disarmed, ?_, fun other apart => ?_⟩
    · rw [tasksFor, ← self] at one
      exact Nat.succ.inj one
    · have others := count other
      rw [decide_eq_false (Ne.symm apart), if_neg Bool.false_ne_true, Nat.add_zero] at others
      exact others

/-! ## Every effect that spares the pending tasks keeps ownership -/

/-- Nothing changes but what the kernel has on a descriptor that is not connected. -/
theorem OneOwner.of_idle {server server' : Server} (owner : server.OneOwner) {fd : ℤ}
    (idle : server.connected fd = false) (connected : server'.connected = server.connected)
    (pending : server'.pending = server.pending)
    (epoll : ∀ other, other ≠ fd → server'.kernel.epoll other = server.kernel.epoll other)
    (latest : ∀ other, other ≠ fd → server'.kernel.latest other = server.kernel.latest other) :
    server'.OneOwner := by
  have free := owner.free_of_idle idle
  refine owner.of_others fd (fun other apart => ?_) (fun still => ?_) fun task queued => ?_
  · exact ⟨by rw [connected], epoll other apart, latest other apart, by rw [tasksFor, pending, tasksFor]⟩
  · rw [connected, idle] at still
    cases still
  · rw [pending] at queued
    exact .inl ⟨queued, apart_of_free free queued⟩

theorem OneOwner.joined {server : Server} (owner : server.OneOwner) {arrival : Arrival}
    {client : HttpConn} {timer : HeapTimer ℤ} (idle : server.connected arrival.fd = false)
    (isOpen : client.isClose = false) : (server.joined arrival client timer).OneOwner := by
  have free := owner.free_of_idle idle
  have connected := connected_joined arrival timer server isOpen
  refine owner.of_others arrival.fd (fun other apart => ⟨?_, ?_, ?_, rfl⟩)
    (fun _ => .inl ⟨⟨.input, ?_, ?_⟩, free⟩) fun task queued => .inl ⟨queued, apart_of_free free queued⟩
  · rw [connected, Function.update_of_ne apart]
  · simp only [Server.joined, Function.update_of_ne apart]
  · simp only [Server.joined, Function.update_of_ne apart]
  · exact Function.update_self ..
  · decide

theorem OneOwner.closing {server server' : Server} (owner : server.OneOwner) {object : ℤ}
    {client : HttpConn} (kernel : server'.kernel = server.kernel)
    (connected : server'.connected = server.connected)
    (others : ∀ other, other ≠ object → server'.tasksFor other = server.tasksFor other)
    (left : ∀ task ∈ server'.pending, task ∈ server.pending ∧ task.object ≠ object) :
    (server'.closing object client).OneOwner := by
  have closed := connected_closing object client server'
  refine owner.of_others object (fun other apart => ⟨?_, ?_, ?_, others other apart⟩)
    (fun still => ?_) fun task queued => .inl (left task queued)
  · rw [closed, Function.update_of_ne apart, connected]
  · simp only [Server.closing]
    split_ifs
    · simp only [Kernel.close, Function.update_of_ne apart, kernel]
    · rw [kernel]
  · simp only [Server.closing]
    split_ifs <;> simp only [Kernel.close, kernel]
  · rw [closed, Function.update_self] at still
    cases still

/-- A delivered event disarms the descriptor and queues its one task. -/
theorem OneOwner.dealt {server : Server} (owner : server.OneOwner) {fd : ℤ} (kind : TaskKind)
    (now : ℤ) (timer : HeapTimer ℤ) (free : server.tasksFor fd = 0)
    (isConnected : server.connected fd = true) : (server.dealt kind fd now timer).OneOwner := by
  have counted (other : ℤ) : (server.dealt kind fd now timer).tasksFor other =
      server.tasksFor other + if fd = other then 1 else 0 := by
    simp only [tasksFor, Server.dealt, List.countP_append, List.countP_singleton, decide_eq_true_eq]
  refine owner.of_others fd (fun other apart => ⟨rfl, ?_, rfl, ?_⟩) (fun _ => .inr ⟨?_, ?_⟩) ?_
  · simp only [Server.dealt, Function.update_of_ne apart]
  · rw [counted, if_neg apart.symm, Nat.add_zero]
  · exact Function.update_self ..
  · rw [counted, if_pos rfl, free]
  · intro task queued
    rcases List.mem_append.mp queued with before | new
    · exact .inl ⟨before, apart_of_free free before⟩
    · cases List.mem_singleton.mp new
      exact .inr ⟨rfl, isConnected, rfl⟩

/-- A task that hands its connection back arms the descriptor. -/
theorem OneOwner.rearmed {server : Server} (owner : server.OneOwner) {index : ℕ} {task : Task}
    {interest : Interest} {client next : HttpConn} (queued : server.pending[index]? = some task)
    (armed : interest ≠ .disarmed) (known : server.users task.object = some client)
    (same : SameClient client next) : (server.rearmed index task.object interest next).OneOwner := by
  have connected := connected_rearmed index interest known same
  obtain ⟨disarmed, free, others⟩ := owner.erase queued
  have modified := Kernel.modFd_of interest disarmed
  refine owner.of_others task.object (fun other apart => ⟨by rw [connected], ?_, ?_, others other apart⟩)
    (fun _ => .inl ⟨⟨interest, ?_, armed⟩, free⟩) fun other left => .inl ⟨?_, ?_⟩
  · simp only [Server.rearmed, modified, Function.update_of_ne apart]
  · simp only [Server.rearmed, modified]
  · simp only [Server.rearmed, modified, Function.update_self]
  · exact List.mem_of_mem_eraseIdx left
  · exact fun isObject => List.countP_eq_zero.mp free other left (decide_eq_true isObject)

theorem Effects.oneOwner {config : Config} {source target : Server} {effect : Effect}
    (move : Effects config source effect target) (sound : source.Sound)
    (spares : effect.Spares source) (owner : source.OneOwner) : target.OneOwner := by
  cases move with
  | @leak fd closed =>
    refine owner.of_idle (sound.idle closed).1 rfl rfl (fun _ _ => rfl) fun other apart => ?_
    simp only [Kernel.accept, Function.update_of_ne apart]
  | @refuse fd closed =>
    refine owner.of_idle (sound.idle closed).1 rfl rfl (fun other apart => ?_) fun other apart => ?_
    · simp only [Kernel.close, Kernel.accept, Function.update_of_ne apart]
    · simp only [Kernel.close, Kernel.accept, Function.update_of_ne apart]
  | join closed room owns isOpen added => exact owner.joined (sound.idle closed).1 isOpen
  | hangUp registered armed known =>
    have free := owner.free_of_armed sound registered armed
    exact owner.closing rfl rfl (fun _ _ => rfl)
      fun task queued => ⟨queued, apart_of_free free queued⟩
  | callback known =>
    exact owner.closing rfl rfl (fun _ _ => rfl) fun task queued => ⟨queued, spares task queued⟩
  | @deal kind fd now interest client timer registered armed known extended =>
    exact owner.dealt kind now timer (owner.free_of_armed sound registered armed)
      (sound.registered fd interest registered)
  | retime indexed ordered fewer left =>
    exact ⟨fun object isConnected => owner.one object isConnected, owner.own⟩
  | rearm queued armed known same => exact owner.rearmed queued armed known same
  | @finish index task client next queued known same =>
    obtain ⟨_, free, others⟩ := owner.erase queued
    exact owner.closing rfl (connected_congr rfl) others fun other left =>
      ⟨List.mem_of_mem_eraseIdx left,
        fun isObject => List.countP_eq_zero.mp free other left (decide_eq_true isObject)⟩

/-- In every run in which no tick finds expired the entry of an object with a pending task, ownership
holds in every state. -/
theorem oneOwner_of_spared (config : Config) (server : Server)
    (reached : ((machine config).restrict Spares).Reachable server) : server.OneOwner := by
  have path : ((effects config).restrict (Allowed False True)).Reachable server :=
    reachable_effects (fun _ _ _ => False.elim) (fun _ _ spares _ => spares) reached
  refine effects_invariant start_oneOwner ?_ path
  intro source effect target sound owner allowed move
  exact move.oneOwner sound (allowed.2 trivial) owner

/-- Timers on, nothing edge-triggered. -/
private def idleConfig : Config := ⟨0, 60000⟩

private def started : Server := start (fun _ => false) 0

/-- A client on descriptor 5. -/
private def arriving (now : ℤ) : Action := .listen [⟨5, now, .ok true, 0, ⟨0, 0⟩, ⟨0, 0⟩⟩]

private def readable (now : ℤ) : Action := .event 5 ⟨false, true, false⟩ now

private def ticking (now : ℤ) : Action := .tick fun _ => ⟨now, .ok true⟩

private def firstClient : Server := started.next idleConfig (arriving 0)

private def timedOut : Server := firstClient.next idleConfig (ticking 60000000000)

private def secondClient : Server := timedOut.next idleConfig (arriving 60000000000)

private def taskQueued : Server := secondClient.next idleConfig (readable 60000000000)

/-- A client times out, the next one gets its descriptor, and a task is queued for that one. -/
theorem oneOwner_after_reuse : taskQueued.OneOwner := by
  have joined : ((machine idleConfig).restrict Spares).Reachable firstClient :=
    next_reachable (.init ⟨_, _, rfl⟩) _ ⟨by decide +kernel, by decide +kernel⟩ trivial
      (by decide +kernel)
  have expired : ((machine idleConfig).restrict Spares).Reachable timedOut := by
    refine next_reachable joined _ (show (0 : ℤ) < 60000 by decide)
      (fun ticked _ task queued => ?_)
      (by decide +kernel)
    have none : firstClient.pending = [] := by decide +kernel
    rw [none] at queued
    cases queued
  have rejoined : ((machine idleConfig).restrict Spares).Reachable secondClient :=
    next_reachable expired _ ⟨by decide +kernel, by decide +kernel⟩ trivial (by decide +kernel)
  have queued : ((machine idleConfig).restrict Spares).Reachable taskQueued :=
    next_reachable rejoined _ ⟨.input, by decide +kernel, by decide⟩ trivial (by decide +kernel)
  exact oneOwner_of_spared idleConfig taskQueued queued

/-- The same steps with the task queued for the first client: the tick closes the connection under it. -/
private def waiting : Server := firstClient.next idleConfig (readable 0)

private def closedUnder : Server := waiting.next idleConfig (ticking 60000000000)

private def staleTask : Server := closedUnder.next idleConfig (arriving 60000000000)

/-- The task of the first client then runs on the connection of the second. -/
theorem not_oneOwner_of_expired :
    ¬ ∀ (config : Config) (server : Server),
      ((machine config).restrict Timely).Reachable server → server.OneOwner := by
  intro always
  have joined : ((machine idleConfig).restrict Timely).Reachable firstClient :=
    next_reachable (.init ⟨_, _, rfl⟩) _ ⟨by decide +kernel, by decide +kernel⟩
      (show List.Pairwise (· ≤ ·) [(0 : ℤ), 0] by decide) (by decide +kernel)
  have queued : ((machine idleConfig).restrict Timely).Reachable waiting :=
    next_reachable joined _ ⟨.input, by decide +kernel, by decide⟩
      (show firstClient.clock ≤ 0 by decide +kernel) (by decide +kernel)
  have expired : ((machine idleConfig).restrict Timely).Reachable closedUnder :=
    next_reachable queued _ (show (0 : ℤ) < 60000 by decide)
      ⟨fun _ => show waiting.clock ≤ 60000000000 by decide +kernel, fun _ _ _ => le_rfl⟩
      (by decide +kernel)
  have reused : ((machine idleConfig).restrict Timely).Reachable staleTask :=
    next_reachable expired _ ⟨by decide +kernel, by decide +kernel⟩
      (show List.Pairwise (· ≤ ·) [closedUnder.clock, 60000000000] by decide +kernel)
      (by decide +kernel)
  have own := (always idleConfig staleTask reused).own ⟨.onRead, 5, some ⟨0, some 5⟩⟩
    (by decide +kernel)
  have current : staleTask.kernel.latest 5 = some ⟨1, some 5⟩ := by decide +kernel
  rw [current] at own
  exact absurd own.2 (by decide)

end Server

end XWebServer
