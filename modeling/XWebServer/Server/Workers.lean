import XWebServer.Server.Attendance
import XWebServer.Server.EventLoop
import XWebServer.ThreadPool.Tasks

/-! # The loop of `Start` and its pool

`DealRead` and `DealWrite` hand their task to `AddTask`, and the main thread goes on when it has notified.
A worker takes the front task under the pool's lock and runs it without. When the task has made its last
call on the connection, the worker still has to come back for the lock, and epoll may report the
connection again before it does.

`pending` of the server machine is a record here: what the workers run is in the pool.
-/

namespace XWebServer

open Transition System CondVar HeapTimer HttpConn
open scoped List

namespace ThreadPool

variable {τ : Type}

/-- The critical sections of some calls of `AddTask`. -/
def addTasks (tasks : List τ) (pool : ThreadPool τ) : ThreadPool τ :=
  tasks.foldl (fun pool task => pool.addTask task) pool

theorem addTasks_eq (tasks : List τ) (pool : ThreadPool τ) :
    pool.addTasks tasks = { pool with
      tasks := pool.tasks ++ tasks
      adding := pool.adding + tasks.length
      submitted := pool.submitted ++ tasks } := by
  induction tasks generalizing pool with
  | nil => simp only [addTasks, List.foldl_nil, List.append_nil, List.length_nil, Nat.add_zero]
  | cons task rest ih =>
    refine (ih (pool.addTask task)).trans ?_
    simp only [addTask, List.append_assoc, List.singleton_append, List.length_cons, Nat.add_assoc,
      Nat.add_comm 1]

theorem addTasks_reachable {threadCount : ℕ} {pool : ThreadPool τ}
    (reached : (machine τ threadCount).Reachable pool) (tasks : List τ) :
    (machine τ threadCount).Reachable (pool.addTasks tasks) := by
  induction tasks generalizing pool with
  | nil => exact reached
  | cons task rest ih =>
    have move : (machine τ threadCount).Step pool (.addTask task) (pool.addTask task) := ⟨trivial, rfl⟩
    exact ih (.step reached move)

/-- An open pool's worker takes the front task, or waits. -/
theorem loop_cases (worker : ℕ) {pool : ThreadPool τ} (isOpen : pool.isClosed = false) :
    (∃ task rest, pool.tasks = task :: rest ∧ loop worker pool = { pool with
        tasks := rest
        running := pool.running ++ [(worker, task)]
        taken := pool.taken ++ [task] }) ∨
      (pool.tasks = [] ∧ loop worker pool = { pool with cond := pool.cond.wait worker }) := by
  rw [loop]
  split
  · rename_i task rest queued
    exact .inl ⟨task, rest, queued, rfl⟩
  · rename_i idle
    rw [if_neg (by rw [isOpen]; decide)]
    exact .inr ⟨idle, rfl⟩

end ThreadPool

/-- The server with its pool; `returning` are the workers whose task has made its last call. -/
structure Program where
  loop : Server.Loop
  pool : ThreadPool Task
  returning : List ℕ

namespace Program

open Server

/-- The move of the main thread, or of a worker. -/
inductive Move where
  | main (move : Server.Move)
  /-- the `notify_one` of `AddTask` -/
  | notifyOne (pick : ℕ)
  | lock (index : ℕ)
  | wake (how : Woken) (index : ℕ)
  | rouse (index : ℕ)
  /-- a running task does its work -/
  | run (index : ℕ) (io : TaskIo)
  /-- it returns, and its worker takes the lock again -/
  | finish (index : ℕ)

/-- A task's work is no move of the main thread. -/
def ofMain : Server.Move → Bool
  | .run _ _ => false
  | .tickRound _ | .tick _ | .wait _ | .listen _ | .event _ => true

/-- The main thread makes the next move of `Start` when it has notified for the last one. -/
def Admits (config : Config) (program : Program) : Move → Prop
  | .main move => program.pool.adding = 0 ∧ ofMain move = true ∧ program.loop.Admits config move
  | .notifyOne pick => program.pool.Admits (.notifyOne pick)
  | .lock index => program.pool.Admits (.lock index)
  | .wake how index => program.pool.Admits (.wake how index)
  | .rouse index => program.pool.Admits (.rouse index)
  | .run index _ => ∃ entry, program.pool.running[index]? = some entry ∧ entry.1 ∉ program.returning
  | .finish index => ∃ entry, program.pool.running[index]? = some entry ∧ entry.1 ∈ program.returning

/-- The tasks that a move of the main thread hands to `AddTask`. -/
def handed (before after : Server) : List Task := after.pending.drop before.pending.length

def step (config : Config) (move : Move) (program : Program) : Except Fault Program :=
  match move with
  | .main move => do
      let loop ← program.loop.step config move
      .ok { program with loop, pool := program.pool.addTasks (handed program.loop.server loop.server) }
  | .notifyOne pick => .ok { program with pool := program.pool.step (.notifyOne pick) }
  | .lock index => .ok { program with pool := program.pool.step (.lock index) }
  | .wake how index => .ok { program with pool := program.pool.step (.wake how index) }
  | .rouse index => .ok { program with pool := program.pool.step (.rouse index) }
  | .run index io =>
      match program.pool.running[index]? with
      | none => .ok program
      | some (worker, task) => do
          let loop ← program.loop.step config (.run (program.loop.server.pending.idxOf task) io)
          .ok { program with loop, returning := worker :: program.returning }
  | .finish index =>
      match program.pool.running[index]? with
      | none => .ok program
      | some (worker, _) => .ok { program with
          pool := program.pool.step (.finish index)
          returning := program.returning.erase worker }

/-- No timer callback finds a task for its object with the pool. -/
def Spares (program : Program) : Move → Prop
  | .main move => program.loop.Spares move
  | _ => True

def machine (config : Config) (threadCount : ℕ) : System Program Move where
  Init program := ∃ isOpen clock,
    program = ⟨⟨Server.start isOpen clock, false, []⟩, .start Task threadCount, []⟩
  Step source move target := source.Admits config move ∧ source.step config move = .ok target

/-- The tasks that workers have taken and are at work on. -/
def held (program : Program) : List (ℕ × Task) :=
  program.pool.running.filter fun entry => entry.1 ∉ program.returning

/-- What the pool still has to do: notify, take a lock, work, return. -/
def work (program : Program) : ℕ :=
  3 * program.pool.tasks.length + 2 * program.pool.running.length + program.held.length +
    program.pool.ready.length + program.pool.cond.awake + 2 * program.pool.adding

/-- The moves of the workers, and the notification that the main thread owes them. -/
def Move.works : Move → Bool
  | .main _ | .rouse _ => false
  | .notifyOne _ | .lock _ | .wake _ _ | .run _ _ | .finish _ => true

/-- No worker has anything to do. -/
def Settled (config : Config) (program : Program) : Prop :=
  ∀ move : Move, move.works = true → ¬ program.Admits config move

end Program

/-! ## What a handler does to the pending tasks -/

namespace Server

variable {config : Config} {server target : Server}

theorem pending_closeConn {object : ℤ} (run : server.closeConn object = .ok target) :
    target.pending = server.pending := by
  obtain ⟨client, _, run⟩ := bind_ok run
  rw [← Except.ok.inj run, close]
  split_ifs <;> rfl

theorem pending_callbacks {entries : List (TimerNode ℤ × ℤ)}
    (run : entries.foldlM (fun server entry => server.closeConn entry.1.cb) server = .ok target) :
    target.pending = server.pending := by
  induction entries generalizing server with
  | nil => rw [Except.ok.inj run]
  | cons entry rest ih =>
    rw [List.foldlM_cons] at run
    obtain ⟨next, closes, run⟩ := bind_ok run
    exact (ih run).trans (pending_closeConn closes)

theorem pending_expire {ticked : Ticked ℤ} (run : server.expire ticked = .ok target) :
    target.pending = server.pending := by
  obtain ⟨closed, callbacks, run⟩ := bind_ok run
  rw [← Except.ok.inj run]
  change closed.pending = server.pending
  exact pending_callbacks callbacks

theorem pending_dealListen {arrivals : List Arrival}
    (run : server.dealListen config arrivals = .ok target) : target.pending = server.pending := by
  induction arrivals generalizing server with
  | nil => rw [Except.ok.inj run]
  | cons arrival rest ih =>
    rw [dealListen] at run
    dsimp only at run
    split_ifs at run with negative full edge
    · rw [← Except.ok.inj run]
    · obtain ⟨_, _, run⟩ := bind_ok run
      rw [← Except.ok.inj run]
    · obtain ⟨next, joins, run⟩ := bind_ok run
      refine (ih run).trans ?_
      obtain ⟨_, _, joins⟩ := bind_ok joins
      obtain ⟨client, _, joins⟩ := bind_ok joins
      obtain ⟨timer, _, joins⟩ := bind_ok joins
      rw [← Except.ok.inj joins]
    · obtain ⟨next, joins, run⟩ := bind_ok run
      rw [← Except.ok.inj run]
      obtain ⟨_, _, joins⟩ := bind_ok joins
      obtain ⟨client, _, joins⟩ := bind_ok joins
      obtain ⟨timer, _, joins⟩ := bind_ok joins
      rw [← Except.ok.inj joins]

/-- `DealRead` and `DealWrite` put theirs at the end. -/
theorem pending_dispatch {fd now : ℤ} {events : Events}
    (run : server.dispatch config fd events now = .ok target) : server.pending <+: target.pending := by
  have deals {kind : TaskKind} (run : server.deal kind config fd now = .ok target) :
      server.pending <+: target.pending := by
    obtain ⟨client, _, run⟩ := bind_ok run
    obtain ⟨timer, _, run⟩ := bind_ok run
    rw [← Except.ok.inj run]
    exact List.prefix_append ..
  rw [dispatch] at run
  split_ifs at run
  · rw [pending_closeConn run]
  · exact deals run
  · exact deals run
  · rw [Except.ok.inj run]

theorem pending_run {index : ℕ} {io : TaskIo} (inside : index < server.pending.length)
    (run : server.run config index io = .ok target) :
    target.pending = server.pending.eraseIdx index := by
  simp only [Server.run, List.getElem?_eq_getElem inside] at run
  obtain ⟨client, _, run⟩ := bind_ok run
  obtain ⟨⟨decision, next⟩, _, run⟩ := bind_ok run
  cases decision with
  | armIn => rw [← Except.ok.inj run]; rfl
  | armOut => rw [← Except.ok.inj run]; rfl
  | close => exact pending_closeConn run

/-- The main thread only adds tasks behind those that are pending. -/
theorem Loop.pending_main {loop target : Loop} {move : Move} (main : Program.ofMain move = true)
    (step : loop.step config move = .ok target) :
    loop.server.pending <+: target.server.pending := by
  cases move with
  | run => cases main
  | tickRound round =>
    obtain ⟨next, run, ends⟩ := bind_ok step
    obtain ⟨ticked, _, run⟩ := bind_ok run
    rw [← Except.ok.inj ends, pending_expire run]
  | tick source =>
    obtain ⟨next, run, ends⟩ := bind_ok step
    obtain ⟨ticked, _, run⟩ := bind_ok run
    rw [← Except.ok.inj ends, pending_expire run]
  | wait reports =>
    rw [← Except.ok.inj step]
    exact List.prefix_rfl
  | listen arrivals =>
    obtain ⟨next, run, ends⟩ := bind_ok step
    rw [← Except.ok.inj ends, pending_dealListen run]
  | event now =>
    simp only [Loop.step] at step
    split at step
    · obtain ⟨next, run, ends⟩ := bind_ok step
      rw [← Except.ok.inj ends]
      exact pending_dispatch run
    · rw [Except.ok.inj step]

theorem Loop.pending_run {loop target : Loop} {index : ℕ} {io : TaskIo}
    (inside : index < loop.server.pending.length) (step : loop.step config (.run index io) = .ok target) :
    target.server.pending = loop.server.pending.eraseIdx index := by
  obtain ⟨next, run, ends⟩ := bind_ok step
  rw [← Except.ok.inj ends]
  exact Server.pending_run inside run

end Server

/-! ## Every pending task is with the pool -/

namespace Program

open Server

variable {config : Config} {threadCount : ℕ} {program target : Program}

/-- The pending tasks are those in the queue and those that workers are at. -/
structure Handed (config : Config) (threadCount : ℕ) (program : Program) : Prop where
  loop : ((eventLoop config).restrict Loop.Spares).Reachable program.loop
  pool : (ThreadPool.machine Task threadCount).Reachable program.pool
  isOpen : program.pool.isClosed = false
  once : program.returning.Nodup
  returning : ∀ worker ∈ program.returning, worker ∈ program.pool.running.map (·.1)
  pending : program.loop.server.pending ~ program.held.map (·.2) ++ program.pool.tasks

/-- Each running worker runs one task. -/
theorem Handed.distinct (handed : program.Handed config threadCount) :
    (program.pool.ready ++ program.pool.running.map (·.1) ++ program.pool.cond.members).Nodup := by
  have workers := (ThreadPool.reachable_sound handed.pool).workers.nodup_iff.mpr List.nodup_range
  exact workers.of_append_left

theorem Handed.running_nodup (handed : program.Handed config threadCount) :
    (program.pool.running.map (·.1)).Nodup :=
  handed.distinct.of_append_left.of_append_right

/-- The pool takes a step that neither starts a task nor ends one. -/
theorem Handed.withPool (handed : program.Handed config threadCount) {action : ThreadPool.Action Task}
    (admits : program.pool.Admits action)
    (isClosed : (program.pool.step action).isClosed = program.pool.isClosed)
    (running : (program.pool.step action).running = program.pool.running)
    (tasks : (program.pool.step action).tasks = program.pool.tasks) :
    Handed config threadCount { program with pool := program.pool.step action } where
  loop := handed.loop
  pool := .step handed.pool ⟨admits, rfl⟩
  isOpen := isClosed.trans handed.isOpen
  once := handed.once
  returning := by rw [running]; exact handed.returning
  pending := by rw [held, running, tasks]; exact handed.pending

/-- A worker that is not running takes the lock. -/
theorem Handed.pass (handed : program.Handed config threadCount) {action : ThreadPool.Action Task}
    (admits : program.pool.Admits action) {worker : ℕ} {pool : ThreadPool Task}
    (pass : program.pool.step action = ThreadPool.loop worker pool)
    (isClosed : pool.isClosed = program.pool.isClosed) (running : pool.running = program.pool.running)
    (tasks : pool.tasks = program.pool.tasks) (free : worker ∉ program.pool.running.map (·.1)) :
    Handed config threadCount { program with pool := program.pool.step action } := by
  have away : worker ∉ program.returning := fun there => free (handed.returning worker there)
  rcases ThreadPool.loop_cases worker (isClosed.trans handed.isOpen) with
    ⟨task, rest, queued, looped⟩ | ⟨idle, looped⟩
  · have reached : (ThreadPool.machine Task threadCount).Reachable (program.pool.step action) :=
      .step handed.pool ⟨admits, rfl⟩
    rw [pass, looped] at reached ⊢
    refine ⟨handed.loop, reached, isClosed.trans handed.isOpen, handed.once, fun other there => ?_, ?_⟩
    · simp only [running, List.map_append, List.mem_append]
      exact .inl (handed.returning other there)
    · have pending := handed.pending
      rw [← tasks, queued] at pending
      simpa only [held, running, List.filter_append, away, List.filter_cons, List.filter_nil,
        not_false_eq_true, decide_true, if_true, List.map_append, List.map_cons, List.map_nil,
        List.append_assoc, List.singleton_append] using pending
  · apply handed.withPool admits
    · rw [pass, looped]
      exact isClosed
    · rw [pass, looped]
      exact running
    · rw [pass, looped]
      exact tasks

theorem Handed.lock (handed : program.Handed config threadCount) {index : ℕ}
    (admits : program.pool.Admits (.lock index)) :
    Handed config threadCount { program with pool := program.pool.step (.lock index) } := by
  let rest : ThreadPool Task := { program.pool with ready := program.pool.ready.eraseIdx index }
  have locks : program.pool.step (.lock index) = rest.loop program.pool.ready[index] := by
    simp only [ThreadPool.step, List.getElem?_eq_getElem admits, rest]
  apply handed.pass admits locks
  · rfl
  · rfl
  · rfl
  · exact (List.disjoint_of_nodup_append handed.distinct.of_append_left) (List.getElem_mem admits)

theorem Handed.wake (handed : program.Handed config threadCount) {how : Woken} {index : ℕ}
    (admits : program.pool.Admits (.wake how index)) :
    Handed config threadCount { program with pool := program.pool.step (.wake how index) } := by
  have found := List.getElem?_eq_getElem admits
  have waits : (program.pool.cond.woken how)[index] ∈ program.pool.cond.members :=
    (members_resume found).mem_iff.mpr List.mem_cons_self
  let rest : ThreadPool Task := { program.pool with cond := program.pool.cond.resume how index }
  have wakes : program.pool.step (.wake how index) = rest.loop (program.pool.cond.woken how)[index] := by
    simp only [ThreadPool.step, found, rest]
  apply handed.pass admits wakes
  · rfl
  · rfl
  · rfl
  · intro running
    exact List.disjoint_of_nodup_append handed.distinct (List.mem_append_right _ running) waits

/-- The entry of a worker is its only one. -/
theorem perm_cons_filter_fst {τ : Type} {entries : List (ℕ × τ)} {entry : ℕ × τ}
    (distinct : (entries.map (·.1)).Nodup) (there : entry ∈ entries) :
    entries ~ entry :: entries.filter fun other => other.1 ≠ entry.1 := by
  induction entries with
  | nil => cases there
  | cons first rest ih =>
    rw [List.map_cons, List.nodup_cons] at distinct
    obtain ⟨fresh, distinct⟩ := distinct
    rcases List.mem_cons.mp there with rfl | behind
    · have kept : rest.filter (fun other => other.1 ≠ entry.1) = rest := by
        rw [List.filter_eq_self]
        intro other inside
        apply decide_eq_true
        intro same
        exact fresh (same ▸ List.mem_map_of_mem inside)
      rw [List.filter_cons_of_neg (by simp), kept]
    · have apart : first.1 ≠ entry.1 := by
        intro same
        exact fresh (same ▸ List.mem_map_of_mem behind)
      rw [List.filter_cons_of_pos (by simpa using apart)]
      exact ((ih distinct behind).cons first).trans (.swap ..)

/-- A worker that is at its task drops out when the task has made its last call. -/
theorem Handed.held_perm (handed : program.Handed config threadCount) {index : ℕ} {entry : ℕ × Task}
    (found : program.pool.running[index]? = some entry) (busy : entry.1 ∉ program.returning) :
    program.held ~ entry :: held { program with returning := entry.1 :: program.returning } := by
  have there : entry ∈ program.held :=
    List.mem_filter.mpr ⟨List.mem_of_getElem? found, decide_eq_true busy⟩
  have distinct : (program.held.map (·.1)).Nodup :=
    handed.running_nodup.sublist (List.filter_sublist.map _)
  refine (perm_cons_filter_fst distinct there).trans (.of_eq ?_)
  rw [held, held, List.filter_filter]
  congr 1
  apply List.filter_congr
  intro other _
  simp only [List.mem_cons, not_or, ne_eq, Bool.decide_and]

theorem Handed.run (handed : program.Handed config threadCount) {index : ℕ} {entry : ℕ × Task}
    {io : TaskIo} {loop : Loop} (found : program.pool.running[index]? = some entry)
    (busy : entry.1 ∉ program.returning)
    (ran : program.loop.step config (.run (program.loop.server.pending.idxOf entry.2) io) = .ok loop) :
    Handed config threadCount { program with loop, returning := entry.1 :: program.returning } := by
  have split := handed.held_perm found busy
  have pending := handed.pending.trans ((split.map (·.2)).append_right _)
  have there : entry.2 ∈ program.loop.server.pending := pending.mem_iff.mpr List.mem_cons_self
  have inside : program.loop.server.pending.idxOf entry.2 < program.loop.server.pending.length :=
    List.idxOf_lt_length_of_mem there
  have move : ((eventLoop config).restrict Loop.Spares).Step program.loop
    (.run (program.loop.server.pending.idxOf entry.2) io) loop := ⟨⟨inside, ran⟩, trivial⟩
  refine ⟨.step handed.loop move, handed.pool, handed.isOpen, .cons busy handed.once, ?_, ?_⟩
  · intro worker there
    rcases List.mem_cons.mp there with rfl | before
    · exact List.mem_map_of_mem (List.mem_of_getElem? found)
    · exact handed.returning worker before
  · have erased := pending.erase entry.2
    rw [List.map_cons, List.cons_append, List.erase_cons_head] at erased
    rw [Loop.pending_run inside ran, List.eraseIdx_idxOf_eq_erase]
    exact erased

/-- A worker that comes back was not at its task any more, and the others are where they were. -/
theorem Handed.held_finish (handed : program.Handed config threadCount) {index : ℕ} {entry : ℕ × Task}
    (found : program.pool.running[index]? = some entry) (back : entry.1 ∈ program.returning) :
    held { program with
      pool := program.pool.step (.finish index)
      returning := program.returning.erase entry.1 } ~ program.held := by
  have split := perm_cons_eraseIdx found
  have workers : program.pool.running.map (·.1) ~
      entry.1 :: (program.pool.running.eraseIdx index).map (·.1) := split.map _
  have distinct := workers.nodup_iff.mp handed.running_nodup
  have others : (program.pool.running.eraseIdx index).filter (fun other => other.1 ∉ program.returning) =
      (program.pool.running.eraseIdx index).filter
        fun other => other.1 ∉ program.returning.erase entry.1 := by
    apply List.filter_congr
    intro other there
    have apart : other.1 ≠ entry.1 := by
      intro same
      exact (List.nodup_cons.mp distinct).1 (same ▸ List.mem_map_of_mem there)
    simp only [List.mem_erase_of_ne apart]
  have same : program.held ~ (program.pool.running.eraseIdx index).filter
      fun other => other.1 ∉ program.returning := by
    have kept := split.filter fun other => decide (other.1 ∉ program.returning)
    rwa [List.filter_cons_of_neg (by simpa using back)] at kept
  rw [others] at same
  simp only [held, ThreadPool.step, found]
  exact same.symm

theorem Handed.finish (handed : program.Handed config threadCount) {index : ℕ} {entry : ℕ × Task}
    (found : program.pool.running[index]? = some entry) (back : entry.1 ∈ program.returning) :
    Handed config threadCount { program with
      pool := program.pool.step (.finish index)
      returning := program.returning.erase entry.1 } := by
  have split := perm_cons_eraseIdx found
  have workers : program.pool.running.map (·.1) ~
      entry.1 :: (program.pool.running.eraseIdx index).map (·.1) := split.map _
  have finished : program.pool.step (.finish index) = { program.pool with
      running := program.pool.running.eraseIdx index
      ready := program.pool.ready ++ [entry.1]
      completed := program.pool.completed ++ [entry.2] } := by
    simp only [ThreadPool.step, found]
  have admits : program.pool.Admits (.finish index) := (List.getElem?_eq_some_iff.mp found).1
  have reached : (ThreadPool.machine Task threadCount).Reachable (program.pool.step (.finish index)) :=
    .step handed.pool ⟨admits, rfl⟩
  rw [finished] at reached ⊢
  refine ⟨handed.loop, reached, handed.isOpen, handed.once.erase _, fun worker there => ?_, ?_⟩
  · obtain ⟨apart, before⟩ := (handed.once.mem_erase_iff).mp there
    have running := workers.mem_iff.mp (handed.returning worker before)
    exact (List.mem_cons.mp running).resolve_left apart
  · have same := handed.held_finish found back
    rw [finished] at same
    exact handed.pending.trans ((same.symm.map (·.2)).append_right _)

theorem Handed.main (handed : program.Handed config threadCount) {move : Server.Move} {loop : Loop}
    (main : ofMain move = true) (admits : program.loop.Admits config move)
    (spares : program.loop.Spares move) (ran : program.loop.step config move = .ok loop) :
    Handed config threadCount { program with
      loop
      pool := program.pool.addTasks (Program.handed program.loop.server loop.server) } := by
  have step : ((eventLoop config).restrict Loop.Spares).Step program.loop move loop :=
    ⟨⟨admits, ran⟩, spares⟩
  have reached := ThreadPool.addTasks_reachable handed.pool (Program.handed program.loop.server loop.server)
  have behind : loop.server.pending =
      program.loop.server.pending ++ Program.handed program.loop.server loop.server :=
    (List.prefix_iff_eq_append.mp (Loop.pending_main main ran)).symm
  rw [ThreadPool.addTasks_eq] at reached ⊢
  refine ⟨.step handed.loop step, reached, handed.isOpen, handed.once, handed.returning, ?_⟩
  change loop.server.pending ~ program.held.map (·.2) ++ (program.pool.tasks ++ _)
  rw [behind, ← List.append_assoc]
  exact handed.pending.append_right _

theorem handed_of_reachable
    (reached : ((machine config threadCount).restrict Spares).Reachable program) :
    program.Handed config threadCount := by
  induction reached with
  | init start =>
    obtain ⟨isOpen, clock, rfl⟩ := start
    exact ⟨.init ⟨isOpen, clock, rfl⟩, .init rfl, rfl, .nil, fun _ there => (by cases there), .refl _⟩
  | @step source target move _ step handed =>
    obtain ⟨⟨admits, step⟩, spares⟩ := step
    cases move with
    | main move =>
      obtain ⟨_, main, admits⟩ := admits
      obtain ⟨loop, ran, ends⟩ := bind_ok step
      rw [← Except.ok.inj ends]
      exact handed.main main admits spares ran
    | notifyOne pick =>
      rw [← Except.ok.inj step]
      exact handed.withPool admits rfl rfl rfl
    | lock index =>
      rw [← Except.ok.inj step]
      exact handed.lock admits
    | wake how index =>
      rw [← Except.ok.inj step]
      exact handed.wake admits
    | rouse index =>
      rw [← Except.ok.inj step]
      exact handed.withPool admits rfl rfl rfl
    | run index io =>
      obtain ⟨⟨worker, task⟩, found, busy⟩ := admits
      simp only [Program.step, found] at step
      obtain ⟨loop, ran, ends⟩ := bind_ok step
      rw [← Except.ok.inj ends]
      exact handed.run found busy ran
    | finish index =>
      obtain ⟨⟨worker, task⟩, found, back⟩ := admits
      simp only [Program.step, found] at step
      rw [← Except.ok.inj step]
      exact handed.finish found back

/-! ## The workers come to an end -/

/-- A worker's pass takes a task to work on, or nothing. -/
theorem work_pass {worker : ℕ} {pool : ThreadPool Task} (isOpen : pool.isClosed = false)
    (loop : Server.Loop) (returning : List ℕ) :
    work ⟨loop, pool.loop worker, returning⟩ ≤ work ⟨loop, pool, returning⟩ := by
  rcases ThreadPool.loop_cases worker isOpen with ⟨task, rest, queued, looped⟩ | ⟨_, looped⟩
  · have one : ([(worker, task)].filter fun entry => entry.1 ∉ returning).length ≤ 1 :=
      List.length_filter_le ..
    rw [looped]
    simp only [work, held, queued, List.filter_append, List.length_append, List.length_cons,
      List.length_nil]
    omega
  · rw [looped]
    exact le_rfl

/-- Every move of a worker leaves less to do. -/
theorem Handed.work_lt (handed : program.Handed config threadCount) {move : Move}
    (works : move.works = true) (admits : program.Admits config move)
    (step : program.step config move = .ok target) : target.work < program.work := by
  cases move with
  | main | rouse => cases works
  | notifyOne pick =>
    obtain ⟨owed, _⟩ : 0 < program.pool.adding ∧ _ := admits
    have one := awake_notifyOne_le pick program.pool.cond
    rw [← Except.ok.inj step]
    simp only [work, held, ThreadPool.step]
    omega
  | lock index =>
    have inside : index < program.pool.ready.length := admits
    have shorter := List.length_eraseIdx_of_lt inside
    let rest : ThreadPool Task := { program.pool with ready := program.pool.ready.eraseIdx index }
    have locks : program.pool.step (.lock index) = rest.loop program.pool.ready[index] := by
      simp only [ThreadPool.step, List.getElem?_eq_getElem inside, rest]
    have isOpen : rest.isClosed = false := handed.isOpen
    rw [← Except.ok.inj step, locks]
    apply (work_pass isOpen program.loop program.returning).trans_lt
    simp only [work, held, rest, shorter]
    omega
  | wake how index =>
    have inside : index < (program.pool.cond.woken how).length := admits
    have fewer := awake_resume inside
    let rest : ThreadPool Task := { program.pool with cond := program.pool.cond.resume how index }
    have wakes : program.pool.step (.wake how index) =
        rest.loop (program.pool.cond.woken how)[index] := by
      simp only [ThreadPool.step, List.getElem?_eq_getElem inside, rest]
    have isOpen : rest.isClosed = false := handed.isOpen
    rw [← Except.ok.inj step, wakes]
    apply (work_pass isOpen program.loop program.returning).trans_lt
    simp only [work, held, rest]
    omega
  | run index io =>
    obtain ⟨⟨worker, task⟩, found, busy⟩ := admits
    have fewer := (handed.held_perm found busy).length_eq
    simp only [Program.step, found] at step
    obtain ⟨loop, _, ends⟩ := bind_ok step
    rw [← Except.ok.inj ends]
    simp only [List.length_cons] at fewer
    simp only [work, held] at fewer ⊢
    omega
  | finish index =>
    obtain ⟨⟨worker, task⟩, found, back⟩ := admits
    obtain ⟨inside, _⟩ := List.getElem?_eq_some_iff.mp found
    have shorter := List.length_eraseIdx_of_lt inside
    have same := (handed.held_finish found back).length_eq
    simp only [Program.step, found] at step
    rw [← Except.ok.inj step]
    simp only [ThreadPool.step, found] at same ⊢
    simp only [work, same, List.length_append, List.length_singleton, shorter]
    omega

/-- With no move left there is nothing in the queue and no task in work. -/
theorem Handed.idle (handed : program.Handed config threadCount) (positive : 0 < threadCount)
    (settled : program.Settled config) : program.loop.server.pending = [] := by
  have sound := ThreadPool.reachable_sound handed.pool
  have ready : program.pool.ready = [] := by
    by_contra someone
    exact settled (.lock 0) rfl (List.length_pos_iff.mpr someone)
  have notified : program.pool.cond.notified = [] := by
    by_contra someone
    exact settled (.wake .notified 0) rfl (List.length_pos_iff.mpr someone)
  have roused : program.pool.cond.roused = [] := by
    by_contra someone
    exact settled (.wake .roused 0) rfl (List.length_pos_iff.mpr someone)
  have running : program.pool.running = [] := by
    cases taken : program.pool.running with
    | nil => rfl
    | cons entry rest =>
      have first : program.pool.running[0]? = some entry := by rw [taken]; rfl
      by_cases back : entry.1 ∈ program.returning
      · exact (settled (.finish 0) rfl ⟨entry, first, back⟩).elim
      · exact (settled (.run 0 ⟨bareHost, [], [], none⟩) rfl ⟨entry, first, back⟩).elim
  have adding : program.pool.adding = 0 := by
    by_contra owed
    exact settled (.notifyOne 0) rfl ⟨Nat.pos_of_ne_zero owed, picks_zero _⟩
  have left : program.pool.left = [] := by
    by_contra someone
    have closed := sound.gone someone
    rw [handed.isOpen] at closed
    cases closed
  -- everybody sleeps, so there is nothing to wake anybody for
  have asleep : program.pool.cond.asleep ≠ [] := by
    intro nobody
    have length := sound.workers.length_eq
    simp only [ThreadPool.inLoop, members, ready, running, notified, roused, nobody, left, List.map_nil,
      List.append_nil, List.length_nil, List.length_range] at length
    exact positive.ne length
  have tasks : program.pool.tasks = [] := by
    by_contra queued
    have covered := sound.covered
    rw [adding] at covered
    exact asleep (covered.awake (List.length_pos_iff.mpr queued) notified)
  have pending := handed.pending
  rw [held, running, tasks] at pending
  exact List.perm_nil.mp pending

/-- Without pending tasks every connection is armed, or its report waits for the main thread. -/
theorem armed_of_idle {loop : Loop} (reached : ((eventLoop config).restrict Loop.Spares).Reachable loop)
    (idle : loop.server.pending = []) {fd : ℤ} (isOpen : loop.server.kernel.isOpen fd = true)
    (accepted : loop.server.kernel.latest fd ≠ none) (nonzero : fd ≠ 0) :
    loop.server.Armed fd ∨ ∃ events, .client fd events ∈ loop.reports := by
  obtain ⟨server, before, interests, rfl, delivering⟩ := undelivered_of_reachable reached
  have attended := attended_of_reachable before.of_restrict
  have isConnected := attended.accepted fd isOpen accepted nonzero
  obtain ⟨interest, registered⟩ := attended.registered fd isConnected
  cases waits : interests fd with
  | some found => exact .inr (delivering.only fd (by rw [waits]; exact Option.some_ne_none _))
  | none =>
    refine .inl ⟨interest, ?_, ?_⟩
    · simpa only [overlay, waits, Option.none_or] using registered
    · rintro rfl
      obtain ⟨task, queued, _⟩ := attended.awaited fd registered
      have queued : task ∈ loop.server.pending := queued
      rw [idle] at queued
      cases queued

theorem spares_of_works {move : Move} (works : move.works = true) (program : Program) :
    program.Spares move := by
  cases move with
  | main => cases works
  | _ => trivial

/-- In every order in which the workers move, they come to an end after at most `work` moves, whatever
their tasks find; each move comes to its end, but for a task in which a signal ends the process or whose
response needs a file that opens and cannot be mapped. And when none is left, no task is pending and every
connection is armed or its report waits for the main thread. -/
theorem workers_settle (positive : 0 < threadCount)
    (reached : ((machine config threadCount).restrict Spares).Reachable program) {moves : ℕ}
    (worked : ((machine config threadCount).restrict fun _ move => move.works = true).Steps
      program moves target) :
    moves + target.work ≤ program.work ∧
      (∀ move : Move, move.works = true → target.Admits config move →
        (∃ next, target.step config move = .ok next) ∨
          ∃ index io worker task fault, move = .run index io ∧
            target.pool.running[index]? = some (worker, task) ∧
            target.step config move = .error fault ∧
            Kills config target.loop.server task io fault) ∧
      (target.Settled config → target.loop.server.pending = [] ∧
        ∀ fd, target.loop.server.kernel.isOpen fd = true → target.loop.server.kernel.latest fd ≠ none →
          fd ≠ 0 → target.loop.server.Armed fd ∨ ∃ events, .client fd events ∈ target.loop.reports) := by
  have lowers (source : Program) (move : Move) (next : Program)
      (before : ((machine config threadCount).restrict Spares).Reachable source)
      (step : ((machine config threadCount).restrict fun _ move => move.works = true).Step source move next) :
      ((machine config threadCount).restrict Spares).Reachable next ∧ next.work < source.work := by
    obtain ⟨step, works⟩ := step
    have moves : ((machine config threadCount).restrict Spares).Step source move next :=
      ⟨step, spares_of_works works source⟩
    exact ⟨.step before moves, (handed_of_reachable before).work_lt works step.1 step.2⟩
  obtain ⟨reached, bound⟩ := worked.ranked lowers reached
  have handed := handed_of_reachable reached
  refine ⟨bound, fun move works admits => ?_, fun settled => ?_⟩
  · cases move with
    | main | rouse => cases works
    | notifyOne | lock | wake => exact .inl ⟨_, rfl⟩
    | finish index =>
      obtain ⟨⟨worker, task⟩, found, _⟩ := admits
      exact .inl ⟨_, by simp only [Program.step, found]; rfl⟩
    | run index io =>
      obtain ⟨⟨worker, task⟩, found, busy⟩ := admits
      have pending := handed.pending.trans (((handed.held_perm found busy).map (·.2)).append_right _)
      have there : task ∈ target.loop.server.pending := pending.mem_iff.mpr List.mem_cons_self
      have inside := List.idxOf_lt_length_of_mem there
      simp only [Program.step, found]
      rcases Loop.run_ends handed.loop inside io with ⟨next, ran⟩ | ⟨other, fault, queued, crash, kills⟩
      · exact .inl ⟨_, by rw [ran]; rfl⟩
      · obtain rfl := Option.some.inj ((List.getElem?_idxOf there).symm.trans queued)
        exact .inr ⟨index, io, worker, task, fault, rfl, found, by rw [crash]; rfl, kills⟩
  · have idle := handed.idle positive settled
    exact ⟨idle, fun fd isOpen accepted nonzero => armed_of_idle handed.loop idle isOpen accepted nonzero⟩

/-! ## Whose task it is -/

/-- The pending tasks of a server with one owner for each connection are for different ones. -/
theorem distinct_of_owner {server : Server} (owner : server.OneOwner) :
    (server.pending.map (·.object)).Nodup := by
  rw [List.nodup_iff_count_le_one]
  intro object
  rw [List.count_eq_countP, List.countP_map]
  have count : server.pending.countP ((· == object) ∘ Task.object) = server.tasksFor object := by
    rw [tasksFor]
    rfl
  rw [count]
  cases isConnected : server.connected object with
  | false => exact (owner.free_of_idle isConnected).le.trans (Nat.zero_le _)
  | true =>
    rcases owner.one object isConnected with ⟨_, free⟩ | ⟨_, one⟩
    · exact free.le.trans (Nat.zero_le _)
    · exact one.le

/-- The task a worker runs is for a connection that is open, the one it was queued for, and that nobody
else can touch: epoll does not report it and no report of it waits. -/
theorem free_of_queued {loop : Loop} (reached : ((eventLoop config).restrict Loop.Spares).Reachable loop)
    {task : Task} (queued : task ∈ loop.server.pending) :
    loop.server.connected task.object = true ∧ loop.server.kernel.latest task.object = task.accept ∧
      loop.server.kernel.epoll task.object = some .disarmed ∧
      ∀ events, .client task.object events ∉ loop.reports := by
  obtain ⟨server, before, interests, rfl, delivering⟩ := undelivered_of_reachable reached
  obtain ⟨sound, owner⟩ := owner_of_spared before
  obtain ⟨index, inside, isTask⟩ := List.getElem_of_mem queued
  have there : loop.server.pending[index]? = some task := List.getElem?_eq_some_iff.mpr ⟨inside, isTask⟩
  have free := delivering.free_of_task owner there
  obtain ⟨isConnected, latest⟩ := owner.own task queued
  have there : (loop.server.overlay interests).pending[index]? = some task := there
  obtain ⟨disarmed, _⟩ := owner.erase there
  refine ⟨isConnected, latest, ?_, fun events waits => ?_⟩
  · simpa only [overlay, free, Option.none_or] using disarmed
  · obtain ⟨interest, found, _⟩ := delivering.reported _ events waits
    rw [free] at found
    cases found

/-- In every run of the whole program whose ticks spare the tasks with the pool: at most `threadCount`
tasks run, no two workers are at one connection, and no task of it is queued besides; it is open, the one
the task was queued for, and neither epoll nor the main thread has an event of it. Tasks are taken in the
order in which they were handed to the pool, each by one worker. -/
theorem tasks_apart (reached : ((machine config threadCount).restrict Spares).Reachable program) :
    program.pool.running.length ≤ threadCount ∧
      ((program.held.map (·.2) ++ program.pool.tasks).map (·.object)).Nodup ∧
      (∀ task ∈ program.held.map (·.2) ++ program.pool.tasks,
        program.loop.server.connected task.object = true ∧
        program.loop.server.kernel.latest task.object = task.accept ∧
        program.loop.server.kernel.epoll task.object = some .disarmed ∧
        ∀ events, .client task.object events ∉ program.loop.reports) ∧
      program.pool.taken ++ program.pool.tasks = program.pool.submitted ∧
      program.pool.taken ~ program.pool.completed ++ program.pool.running.map (·.2) := by
  have handed := handed_of_reachable reached
  have sound := ThreadPool.reachable_sound handed.pool
  refine ⟨?_, ?_, fun task there => ?_, sound.order, sound.once⟩
  · have length := sound.workers.length_eq
    simp only [ThreadPool.inLoop, List.length_append, List.length_map, List.length_range] at length
    omega
  · obtain ⟨server, before, interests, rfl, _⟩ := undelivered_of_reachable handed.loop
    obtain ⟨_, owner⟩ := owner_of_spared before
    have distinct := distinct_of_owner owner
    exact (handed.pending.map (·.object)).nodup_iff.mp distinct
  · exact free_of_queued handed.loop (handed.pending.mem_iff.mpr there)

/-! ## A run with one worker -/

/-- The program after a move, or as it was when the move breaks off. -/
def next (config : Config) (move : Move) (program : Program) : Program :=
  match program.step config move with
  | .ok target => target
  | .error _ => program

theorem step_next {move : Move} (admits : program.Admits config move)
    (completes : (program.step config move).isOk = true) :
    (machine config threadCount).Step program move (program.next config move) := by
  refine ⟨admits, ?_⟩
  rw [next]
  cases outcome : program.step config move with
  | error fault =>
    rw [outcome] at completes
    cases completes
  | ok target => rfl

theorem next_reachable (reached : ((machine config threadCount).restrict Spares).Reachable program)
    (move : Move) (admits : program.Admits config move) (spares : program.Spares move)
    (completes : (program.step config move).isOk = true) :
    ((machine config threadCount).restrict Spares).Reachable (program.next config move) := by
  have moves : ((machine config threadCount).restrict Spares).Step program move
    (program.next config move) := ⟨step_next admits completes, spares⟩
  exact .step reached moves

theorem next_steps {start : Program} {moves : ℕ}
    (worked : ((machine config threadCount).restrict fun _ move => move.works = true).Steps
      start moves program) (move : Move) (works : move.works = true)
    (admits : program.Admits config move) (completes : (program.step config move).isOk = true) :
    ((machine config threadCount).restrict fun _ move => move.works = true).Steps
      start (moves + 1) (program.next config move) := by
  have moves : ((machine config threadCount).restrict fun _ move => move.works = true).Step program move
    (program.next config move) := ⟨step_next admits completes, works⟩
  exact .step worked moves

private def poolConfig : Config := ⟨3, 0⟩

private def hired : Program := ⟨⟨start (fun _ => false) 0, false, []⟩, .start Task 1, []⟩

private def staffed : Program :=
  ((hired.next poolConfig (.lock 0)).next poolConfig (.main (.wait [.listening]))).next poolConfig
    (.main (.listen [⟨5, 0, .ok true, 0, ⟨0, 0⟩, ⟨0, 0⟩⟩]))

private def called : Program :=
  (staffed.next poolConfig (.main (.wait [.client 5 ⟨false, true, false⟩]))).next poolConfig
    (.main (.event 1))

private theorem called_reachable : ((machine poolConfig 1).restrict Spares).Reachable called := by
  have first : ((machine poolConfig 1).restrict Spares).Reachable hired := .init ⟨_, _, rfl⟩
  have second := next_reachable first (.lock 0) Nat.one_pos trivial rfl
  have third := next_reachable second (.main (.wait [.listening]))
    ⟨rfl, rfl, fun on => absurd on (by decide), rfl, by decide, fun fd events there => by simp at there⟩
    trivial rfl
  have fourth : ((machine poolConfig 1).restrict Spares).Reachable staffed :=
    next_reachable third _ ⟨rfl, rfl, rfl, by decide +kernel, by decide +kernel⟩ trivial (by decide +kernel)
  have fifth := next_reachable fourth (.main (.wait [.client 5 ⟨false, true, false⟩]))
    ⟨rfl, rfl, fun on => absurd on (by decide), rfl, by decide, fun fd events there => by
      simp only [List.mem_cons, Report.client.injEq, List.not_mem_nil, or_false] at there
      obtain ⟨rfl, rfl⟩ := there
      exact ⟨.input, by decide +kernel, by decide⟩⟩ trivial rfl
  exact next_reachable fifth (.main (.event 1)) ⟨rfl, rfl, 5, _, rfl⟩ trivial (by decide +kernel)

private def awoken : Program :=
  (called.next poolConfig (.notifyOne 0)).next poolConfig (.wake .notified 0)

private def duty : ℕ × Task := (0, ⟨.onRead, 5, some ⟨0, some 5⟩⟩)

private def answered : Program := awoken.next poolConfig (.run 0 ⟨bareHost, [.data keptRequest], [], none⟩)

private def rested : Program := (answered.next poolConfig (.finish 0)).next poolConfig (.lock 0)

private theorem rested_settled : rested.Settled poolConfig := by
  have ready : rested.pool.ready.length = 0 := by decide +kernel
  have woken (how : Woken) : (rested.pool.cond.woken how).length = 0 := by cases how <;> decide +kernel
  have running : rested.pool.running = [] := by decide +kernel
  have adding : rested.pool.adding = 0 := by decide +kernel
  intro move works admits
  cases move with
  | main | rouse => cases works
  | notifyOne pick => exact admits.1.ne' adding
  | lock index => exact Nat.not_lt_zero _ (ready ▸ show index < rested.pool.ready.length from admits)
  | wake how index =>
    exact Nat.not_lt_zero _ (woken how ▸ show index < (rested.pool.cond.woken how).length from admits)
  | run index io =>
    obtain ⟨entry, found, _⟩ := admits
    rw [running] at found
    cases found
  | finish index =>
    obtain ⟨entry, found, _⟩ := admits
    rw [running] at found
    cases found

/-- A worker is woken, answers, comes back and sleeps; the client waits for its response. -/
theorem workers_settle_rested : called.work = 5 ∧ 5 + rested.work ≤ called.work ∧
    (rested.loop.server.Armed 5 ∨ ∃ events, .client 5 events ∈ rested.loop.reports) := by
  have first : ((machine poolConfig 1).restrict fun _ move => move.works = true).Steps called 0 called :=
    .refl _
  have second := next_steps first (.notifyOne 0) rfl
    ⟨show 0 < called.pool.adding by decide +kernel, picks_zero _⟩ rfl
  have third : Steps _ called 2 awoken := next_steps second (.wake .notified 0) rfl
    (show 0 < (called.next poolConfig (.notifyOne 0)).pool.cond.notified.length by decide +kernel) rfl
  have fourth : Steps _ called 3 answered := next_steps third _ rfl
    ⟨duty, by decide +kernel, by decide +kernel⟩ (by decide +kernel)
  have fifth := next_steps fourth (.finish 0) rfl ⟨duty, by decide +kernel, by decide +kernel⟩
    (by decide +kernel)
  have last : Steps _ called 5 rested := next_steps fifth (.lock 0) rfl
    (show 0 < (answered.next poolConfig (.finish 0)).pool.ready.length by decide +kernel)
    (by decide +kernel)
  obtain ⟨bound, _, settles⟩ := workers_settle Nat.one_pos called_reachable last
  exact ⟨by decide +kernel, bound, (settles rested_settled).2 5 (by decide +kernel) (by decide +kernel)
    (by decide)⟩

/-- While the worker is at its task, the connection is its own. -/
theorem tasks_apart_awoken : awoken.held = [duty] ∧ awoken.loop.server.connected 5 = true ∧
    awoken.loop.server.kernel.epoll 5 = some .disarmed := by
  have second : ((machine poolConfig 1).restrict Spares).Reachable (called.next poolConfig (.notifyOne 0)) :=
    next_reachable called_reachable (.notifyOne 0)
      ⟨show 0 < called.pool.adding by decide +kernel, picks_zero _⟩ trivial rfl
  have third : ((machine poolConfig 1).restrict Spares).Reachable awoken :=
    next_reachable second (.wake .notified 0)
      (show 0 < (called.next poolConfig (.notifyOne 0)).pool.cond.notified.length by decide +kernel)
      trivial rfl
  have held : awoken.held = [duty] := by decide +kernel
  have there : duty.2 ∈ awoken.held.map (·.2) ++ awoken.pool.tasks :=
    List.mem_append_left _ (List.mem_map_of_mem (by rw [held]; exact List.mem_singleton_self _))
  obtain ⟨isConnected, _, disarmed, _⟩ := (tasks_apart third).2.2.1 duty.2 there
  exact ⟨held, isConnected, disarmed⟩

end Program

end XWebServer
