import XWebServer.Basic
import XWebServer.Lib.CondVar
import XWebServer.Lib.Transition

/-! # The class `ThreadPool`

A pool whose workers are numbered. What a thread does between taking `mtx` and giving it up is one
step, and so is each notification, which both callers issue after they have given it up. Where a
worker is, is the list it is in: `ready` to take the lock, in the wait on `cond`, `running` a task,
or out of its loop.

`submitted`, `taken` and `completed` record what `AddTask` queued, what workers took from the queue
and what they ran to the end; no step reads them. `AddTask` may come at any time.
-/

namespace XWebServer

open Transition CondVar

structure ThreadPool (τ : Type) where
  tasks : List τ
  isClosed : Bool
  cond : CondVar ℕ
  ready : List ℕ
  running : List (ℕ × τ)
  left : List ℕ
  /-- the calls of `AddTask` between their critical section and their `notify_one` -/
  adding : ℕ
  /-- whether the destructor is between its critical section and its `notify_all` -/
  closing : Bool
  submitted : List τ
  taken : List τ
  completed : List τ

namespace ThreadPool

variable {τ : Type}

/-- The constructor; every worker starts by taking the lock. -/
def start (τ : Type) (threadCount : ℕ) : ThreadPool τ where
  tasks := []
  isClosed := false
  cond := .empty
  ready := List.range threadCount
  running := []
  left := []
  adding := 0
  closing := false
  submitted := []
  taken := []
  completed := []

/-- A worker's pass through its loop, from when it has the lock to when it gives it up. -/
def loop (worker : ℕ) (pool : ThreadPool τ) : ThreadPool τ :=
  match pool.tasks with
  | task :: rest => { pool with
      tasks := rest
      running := pool.running ++ [(worker, task)]
      taken := pool.taken ++ [task] }
  | [] =>
      if pool.isClosed then { pool with left := pool.left ++ [worker] }
      else { pool with cond := pool.cond.wait worker }

/-- The critical section of `AddTask`. -/
def addTask (task : τ) (pool : ThreadPool τ) : ThreadPool τ :=
  { pool with
    tasks := pool.tasks ++ [task]
    adding := pool.adding + 1
    submitted := pool.submitted ++ [task] }

/-- The critical section of the destructor. -/
def close (pool : ThreadPool τ) : ThreadPool τ := { pool with isClosed := true, closing := true }

inductive Action (τ : Type) where
  /-- a ready worker takes the lock -/
  | lock (index : ℕ)
  /-- a woken worker takes the lock -/
  | wake (how : Woken) (index : ℕ)
  /-- a spurious wake-up -/
  | rouse (index : ℕ)
  /-- a task returns -/
  | finish (index : ℕ)
  | addTask (task : τ)
  /-- the `notify_one` of an `AddTask` -/
  | notifyOne (pick : ℕ)
  | close
  /-- the `notify_all` of the destructor -/
  | notifyAll

def Admits (pool : ThreadPool τ) : Action τ → Prop
  | .lock index => index < pool.ready.length
  | .wake how index => index < (pool.cond.woken how).length
  | .rouse index => index < pool.cond.asleep.length
  | .finish index => index < pool.running.length
  | .addTask _ => True
  | .notifyOne pick => 0 < pool.adding ∧ pool.cond.Picks pick
  | .close => pool.isClosed = false
  | .notifyAll => pool.closing = true

instance (pool : ThreadPool τ) (action : Action τ) : Decidable (pool.Admits action) :=
  match action with
  | .lock index => inferInstanceAs (Decidable (index < pool.ready.length))
  | .wake how index => inferInstanceAs (Decidable (index < (pool.cond.woken how).length))
  | .rouse index => inferInstanceAs (Decidable (index < pool.cond.asleep.length))
  | .finish index => inferInstanceAs (Decidable (index < pool.running.length))
  | .addTask _ => .isTrue trivial
  | .notifyOne pick => inferInstanceAs (Decidable (0 < pool.adding ∧ pool.cond.Picks pick))
  | .close => inferInstanceAs (Decidable (pool.isClosed = false))
  | .notifyAll => inferInstanceAs (Decidable (pool.closing = true))

def step (pool : ThreadPool τ) : Action τ → ThreadPool τ
  | .lock index =>
      match pool.ready[index]? with
      | none => pool
      | some worker => loop worker { pool with ready := pool.ready.eraseIdx index }
  | .wake how index =>
      match (pool.cond.woken how)[index]? with
      | none => pool
      | some worker => loop worker { pool with cond := pool.cond.resume how index }
  | .rouse index => { pool with cond := pool.cond.rouse index }
  | .finish index =>
      match pool.running[index]? with
      | none => pool
      | some (worker, task) => { pool with
          running := pool.running.eraseIdx index
          ready := pool.ready ++ [worker]
          completed := pool.completed ++ [task] }
  | .addTask task => pool.addTask task
  | .notifyOne pick => { pool with
      adding := pool.adding - 1
      cond := pool.cond.notifyOne pick }
  | .close => pool.close
  | .notifyAll => { pool with closing := false, cond := pool.cond.notifyAll }

def machine (τ : Type) (threadCount : ℕ) : System (ThreadPool τ) (Action τ) where
  Init pool := pool = start τ threadCount
  Step source action target := source.Admits action ∧ source.step action = target

/-- The workers still in their loop. -/
def inLoop (pool : ThreadPool τ) : List ℕ :=
  pool.ready ++ pool.running.map (·.1) ++ pool.cond.members

/-- There is something to do, and every worker still in its loop is asleep with nobody to wake it. -/
structure Stalled (pool : ThreadPool τ) : Prop where
  work : pool.tasks ≠ [] ∨ pool.isClosed = true
  someone : pool.inLoop ≠ []
  asleep : ∀ worker ∈ pool.inLoop, worker ∈ pool.cond.asleep
  notified : pool.cond.notified = []
  adding : pool.adding = 0
  closing : pool.closing = false

/-- No task is added to a pool whose destructor has had the lock. -/
def AddsBefore (pool : ThreadPool τ) : Action τ → Prop
  | .addTask _ => pool.isClosed = false
  | _ => True

end ThreadPool

end XWebServer
