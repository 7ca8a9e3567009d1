import Mathlib.Data.List.Range
import XWebServer.ThreadPool.ThreadPool

/-! # The pool runs every task once

`Sound` is kept by every step: the tasks taken and queued are those submitted, each worker is in one
place, and while a worker sleeps every queued task has a worker or a notification on its way. A
worker in its critical section is in no list; `Holding` is the invariant there.
-/

namespace XWebServer

open Transition System CondVar
open scoped List

namespace ThreadPool

variable {τ : Type} {threadCount : ℕ}

/-! ## The invariant -/

structure Sound (threadCount : ℕ) (pool : ThreadPool τ) : Prop where
  order : pool.taken ++ pool.tasks = pool.submitted
  once : pool.taken.Perm (pool.completed ++ pool.running.map (·.2))
  workers : (pool.inLoop ++ pool.left).Perm (List.range threadCount)
  gone : pool.left ≠ [] → pool.isClosed = true
  covered : pool.cond.Covered pool.tasks.length pool.adding
  closed : pool.isClosed = true → pool.closing = false → pool.cond.asleep = []

/-- What holds while a worker has the lock. -/
structure Holding (threadCount worker : ℕ) (pool : ThreadPool τ) : Prop where
  order : pool.taken ++ pool.tasks = pool.submitted
  once : pool.taken.Perm (pool.completed ++ pool.running.map (·.2))
  workers : (worker :: (pool.inLoop ++ pool.left)).Perm (List.range threadCount)
  gone : pool.left ≠ [] → pool.isClosed = true
  covered : pool.cond.Covered (pool.tasks.length - 1) pool.adding
  closed : pool.isClosed = true → pool.closing = false → pool.cond.asleep = []

theorem start_sound (threadCount : ℕ) : (start τ threadCount).Sound threadCount where
  order := rfl
  once := .refl _
  workers := by simp [start, inLoop, members, empty]
  gone someone := absurd rfl someone
  covered := covered_empty _ _
  closed _ _ := rfl

/-- A worker's pass: it takes a task, leaves, or goes to sleep. -/
theorem Holding.loop {worker : ℕ} {pool : ThreadPool τ} (holding : pool.Holding threadCount worker) :
    (ThreadPool.loop worker pool).Sound threadCount := by
  have workers := holding.workers
  rw [ThreadPool.loop]
  split
  · rename_i task rest queued
    have order := holding.order
    have covered := holding.covered
    rw [queued] at order covered
    refine ⟨?_, ?_, ?_, holding.gone, covered, holding.closed⟩
    · rw [← order, List.append_assoc]
      rfl
    · rw [List.map_append, ← List.append_assoc]
      exact holding.once.append_right _
    · refine .trans ?_ workers
      simp only [inLoop, List.map_append, List.map_cons, List.map_nil, List.append_assoc,
        List.singleton_append]
      calc
        _ ~ pool.ready ++ (worker :: (pool.running.map (·.1) ++ (pool.cond.members ++ pool.left))) :=
          List.perm_middle.append_left _
        _ ~ _ := List.perm_middle
  · rename_i idle
    have order := holding.order
    rw [idle, List.append_nil] at order
    split_ifs with isClosed
    · refine ⟨holding.order, holding.once, ?_, fun _ => isClosed, ?_, holding.closed⟩
      · refine .trans ?_ workers
        rw [← List.append_assoc]
        exact List.perm_append_singleton _ _
      · rw [idle]
        exact covered_zero _ _
    · refine ⟨holding.order, holding.once, ?_, holding.gone, ?_, fun closed => absurd closed isClosed⟩
      · refine .trans ?_ workers
        simp only [inLoop, List.append_assoc]
        calc
          _ ~ pool.ready ++ (pool.running.map (·.1) ++ (worker :: pool.cond.members ++ pool.left)) :=
            ((members_wait worker pool.cond).append_right _ |>.append_left _).append_left _
          _ ~ pool.ready ++ (worker :: (pool.running.map (·.1) ++ (pool.cond.members ++ pool.left))) :=
            List.perm_middle.append_left _
          _ ~ _ := List.perm_middle
      · rw [idle]
        exact covered_zero _ _

/-! ## The steps -/

theorem Sound.lock {index worker : ℕ} {pool : ThreadPool τ} (sound : pool.Sound threadCount)
    (found : pool.ready[index]? = some worker) :
    Holding threadCount worker { pool with ready := pool.ready.eraseIdx index } where
  order := sound.order
  once := sound.once
  workers := by
    refine .trans ?_ sound.workers
    simp only [inLoop, List.append_assoc, ← List.cons_append]
    exact (perm_cons_eraseIdx found).symm.append_right _
  gone := sound.gone
  covered := sound.covered.shift (Nat.add_le_add_right (Nat.sub_le _ _) _)
  closed := sound.closed

theorem Sound.wake {how : Woken} {index worker : ℕ} {pool : ThreadPool τ}
    (sound : pool.Sound threadCount) (found : (pool.cond.woken how)[index]? = some worker) :
    Holding threadCount worker { pool with cond := pool.cond.resume how index } where
  order := sound.order
  once := sound.once
  workers := by
    refine .trans ?_ sound.workers
    simp only [inLoop, List.append_assoc]
    calc
      _ ~ pool.ready ++ (worker :: (pool.running.map (·.1) ++
          ((pool.cond.resume how index).members ++ pool.left))) := List.perm_middle.symm
      _ ~ pool.ready ++ (pool.running.map (·.1) ++
          (worker :: (pool.cond.resume how index).members ++ pool.left)) :=
        List.perm_middle.symm.append_left _
      _ ~ _ := (((members_resume found).symm.append_right _).append_left _).append_left _
  gone := sound.gone
  covered := sound.covered.resume how index
  closed isClosed told := by
    rw [asleep_resume]
    exact sound.closed isClosed told

/-- A change of the condition variable that wakes sleepers. -/
theorem Sound.cond {pool : ThreadPool τ} (sound : pool.Sound threadCount) {cond : CondVar ℕ}
    {adding : ℕ} {closing : Bool} (members : cond.members.Perm pool.cond.members)
    (covered : cond.Covered pool.tasks.length adding)
    (closed : pool.isClosed = true → closing = false → cond.asleep = []) :
    Sound threadCount { pool with cond, adding, closing } where
  order := sound.order
  once := sound.once
  workers := .trans ((members.append_left _).append_right _) sound.workers
  gone := sound.gone
  covered := covered
  closed := closed

theorem Sound.finish {index : ℕ} {entry : ℕ × τ} {pool : ThreadPool τ}
    (sound : pool.Sound threadCount) (found : pool.running[index]? = some entry) :
    Sound threadCount { pool with
      running := pool.running.eraseIdx index
      ready := pool.ready ++ [entry.1]
      completed := pool.completed ++ [entry.2] } where
  order := sound.order
  once := by
    have split : pool.running.map (·.2) ~ entry.2 :: (pool.running.eraseIdx index).map (·.2) :=
      (perm_cons_eraseIdx found).map _
    rw [List.append_assoc, List.singleton_append]
    exact sound.once.trans (split.append_left _)
  workers := by
    have split : pool.running.map (·.1) ~ entry.1 :: (pool.running.eraseIdx index).map (·.1) :=
      (perm_cons_eraseIdx found).map _
    refine .trans ?_ sound.workers
    simp only [inLoop, List.append_assoc, List.singleton_append]
    exact (split.symm.append_right _).append_left _
  gone := sound.gone
  covered := sound.covered
  closed := sound.closed

theorem Sound.step {action : Action τ} {pool : ThreadPool τ} (sound : pool.Sound threadCount)
    (admits : pool.Admits action) : (pool.step action).Sound threadCount := by
  cases action with
  | lock index =>
    simp only [ThreadPool.step, List.getElem?_eq_getElem admits]
    exact (sound.lock (List.getElem?_eq_getElem admits)).loop
  | wake how index =>
    simp only [ThreadPool.step, List.getElem?_eq_getElem admits]
    exact (sound.wake (List.getElem?_eq_getElem admits)).loop
  | rouse index =>
    apply sound.cond (members_rouse index _) (sound.covered.rouse index)
    intro isClosed told
    rw [rouse_of_awake (sound.closed isClosed told)]
    exact sound.closed isClosed told
  | finish index =>
    simp only [ThreadPool.step, List.getElem?_eq_getElem admits]
    exact sound.finish (List.getElem?_eq_getElem admits)
  | addTask task =>
    refine ⟨?_, sound.once, sound.workers, sound.gone, ?_, sound.closed⟩
    · show pool.taken ++ (pool.tasks ++ [task]) = pool.submitted ++ [task]
      rw [← List.append_assoc, sound.order]
    · refine sound.covered.shift (le_of_eq ?_)
      show (pool.tasks ++ [task]).length + pool.adding = pool.tasks.length + (pool.adding + 1)
      rw [List.length_append, List.length_singleton]
      omega
  | notifyOne pick =>
    obtain ⟨owed, picks⟩ := admits
    refine sound.cond (members_notifyOne pick _) (.notifyOne (sound.covered.shift ?_) picks) ?_
    · omega
    · intro isClosed told
      rw [notifyOne_of_awake (sound.closed isClosed told)]
      exact sound.closed isClosed told
  | close =>
    exact ⟨sound.order, sound.once, sound.workers, fun _ => rfl, sound.covered, fun _ told => by
      cases told⟩
  | notifyAll =>
    exact sound.cond (members_notifyAll _) (covered_notifyAll _ _ _) fun _ _ => rfl

theorem reachable_sound {pool : ThreadPool τ} (reached : (machine τ threadCount).Reachable pool) :
    pool.Sound threadCount := by
  apply reached.invariant
  · rintro start rfl
    exact start_sound threadCount
  · rintro source action target sound ⟨admits, rfl⟩
    exact sound.step admits

/-! ## What a worker does with the lock -/

/-- The worker that gets the lock in a step. -/
def locker (pool : ThreadPool τ) : Action τ → Option ℕ
  | .lock index => pool.ready[index]?
  | .wake how index => (pool.cond.woken how)[index]?
  | _ => none

/-- What a worker does with the lock: it takes the front task and goes to run it, and only when there
is no task it leaves its loop, if the pool is closed, or else sleeps. -/
inductive Passed (worker : ℕ) (pool target : ThreadPool τ) : Prop
  | took (task : τ) (queued : pool.tasks = task :: target.tasks)
      (taken : target.taken = pool.taken ++ [task])
      (running : target.running = pool.running ++ [(worker, task)])
      (left : target.left = pool.left)
  | leaves (idle : pool.tasks = []) (isClosed : pool.isClosed = true) (tasks : target.tasks = [])
      (taken : target.taken = pool.taken) (running : target.running = pool.running)
      (left : target.left = pool.left ++ [worker])
  | sleeps (idle : pool.tasks = []) (isOpen : pool.isClosed = false) (tasks : target.tasks = [])
      (taken : target.taken = pool.taken) (running : target.running = pool.running)
      (left : target.left = pool.left) (asleep : target.cond.asleep = pool.cond.asleep ++ [worker])

theorem loop_passed (worker : ℕ) (pool : ThreadPool τ) : Passed worker pool (loop worker pool) := by
  rw [loop]
  split
  · rename_i task rest queued
    exact .took task queued rfl rfl rfl
  · rename_i idle
    split_ifs with isClosed
    · exact .leaves idle isClosed idle rfl rfl rfl
    · exact .sleeps idle (Bool.eq_false_of_not_eq_true isClosed) idle rfl rfl rfl rfl

/-- Where the worker came from plays no part. -/
theorem Passed.behind {worker : ℕ} {pool target : ThreadPool τ} {ready : List ℕ} {cond : CondVar ℕ}
    (passed : Passed worker { pool with ready, cond } target)
    (same : cond.asleep = pool.cond.asleep) : Passed worker pool target := by
  cases passed with
  | took task queued taken running left => exact .took task queued taken running left
  | leaves idle isClosed tasks taken running left => exact .leaves idle isClosed tasks taken running left
  | sleeps idle isOpen tasks taken running left asleep =>
    exact .sleeps idle isOpen tasks taken running left (asleep.trans (congrArg (· ++ [worker]) same))

theorem step_passed {action : Action τ} {worker : ℕ} {pool : ThreadPool τ}
    (found : pool.locker action = some worker) : Passed worker pool (pool.step action) := by
  cases action with
  | lock index =>
    change pool.ready[index]? = some worker at found
    simp only [step, found]
    exact (loop_passed worker _).behind rfl
  | wake how index =>
    change (pool.cond.woken how)[index]? = some worker at found
    simp only [step, found]
    exact (loop_passed worker _).behind (asleep_resume how index _)
  | rouse | finish | addTask | notifyOne | close | notifyAll => cases found

/-- A step in which no worker gets the lock moves none out of its loop, and only `AddTask` then changes
the queue. -/
theorem step_of_no_locker {action : Action τ} {pool : ThreadPool τ}
    (nobody : pool.locker action = none) : (pool.step action).left = pool.left ∧
      ((∀ task, action ≠ .addTask task) → (pool.step action).tasks = pool.tasks) := by
  cases action with
  | lock index =>
    change pool.ready[index]? = none at nobody
    simp [step, nobody]
  | wake how index =>
    change (pool.cond.woken how)[index]? = none at nobody
    simp [step, nobody]
  | finish index =>
    simp only [step]
    split
    · exact ⟨rfl, fun _ => rfl⟩
    · exact ⟨rfl, fun _ => rfl⟩
  | addTask task => exact ⟨rfl, fun other => absurd rfl (other task)⟩
  | rouse | notifyOne | close | notifyAll => exact ⟨rfl, fun _ => rfl⟩

/-- A worker leaves its loop only in a pass that finds the pool closed and the queue empty. -/
theorem left_step {action : Action τ} {pool : ThreadPool τ}
    (leaves : (pool.step action).left ≠ pool.left) : pool.isClosed = true ∧ pool.tasks = [] := by
  cases found : pool.locker action with
  | none => exact absurd (step_of_no_locker found).1 leaves
  | some worker =>
    cases step_passed found with
    | took _ _ _ _ left => exact absurd left leaves
    | leaves idle isClosed => exact ⟨isClosed, idle⟩
    | sleeps _ _ _ _ _ left => exact absurd left leaves

/-- Only `AddTask` fills an empty queue. -/
theorem tasks_step {action : Action τ} {pool : ThreadPool τ} (idle : pool.tasks = [])
    (other : ∀ task, action ≠ .addTask task) : (pool.step action).tasks = [] := by
  cases found : pool.locker action with
  | none => exact ((step_of_no_locker found).2 other).trans idle
  | some worker =>
    cases step_passed found with
    | took task queued =>
      rw [idle] at queued
      cases queued
    | leaves _ _ tasks => exact tasks
    | sleeps _ _ tasks => exact tasks

/-! ## What holds in every run -/

theorem Sound.not_stalled {pool : ThreadPool τ} (sound : pool.Sound threadCount) :
    ¬ pool.Stalled := by
  intro stalled
  have awake : pool.cond.asleep = [] := by
    rcases stalled.work with queued | isClosed
    · have covered := sound.covered
      rw [stalled.adding] at covered
      exact covered.awake (List.length_pos_iff.mpr queued) stalled.notified
    · exact sound.closed isClosed stalled.closing
  obtain ⟨worker, inside⟩ := List.exists_mem_of_ne_nil _ stalled.someone
  have sleeps := stalled.asleep worker inside
  rw [awake] at sleeps
  cases sleeps

/-- Once a worker has left, the queue stays empty, when tasks are added before the destructor runs. -/
theorem left_drained {pool : ThreadPool τ}
    (reached : ((machine τ threadCount).restrict AddsBefore).Reachable pool)
    (someone : pool.left ≠ []) : pool.tasks = [] := by
  refine reached.guarded_invariant (P := fun pool => pool.left ≠ [] → pool.tasks = [])
    (fun _ => reachable_sound) ?_ ?_ someone
  · rintro start rfl someone
    exact absurd rfl someone
  · rintro source action target sound drained before ⟨admits, rfl⟩ someone
    have ended : source.isClosed = true ∧ source.tasks = [] := by
      by_cases before : source.left = []
      · exact left_step fun same => someone (same.trans before)
      · exact ⟨sound.gone before, drained before⟩
    apply tasks_step ended.2
    rintro task rfl
    exact absurd ended.1 (by rw [show source.isClosed = false from before]; exact Bool.false_ne_true)

/-- In every state of every run of a pool with at least one worker: tasks are taken in the order they
were added and each is run by one worker, a worker that gets the lock takes the front task if there is
one, it leaves only a closed pool without tasks, and the workers are not all asleep with work to do and
nobody to wake them. When no task is added after the destructor has run, a queued task has a worker
still in its loop. -/
theorem runs_every_task_once (positive : 0 < threadCount) {pool : ThreadPool τ}
    (reached : (machine τ threadCount).Reachable pool) :
    pool.taken ++ pool.tasks = pool.submitted ∧
      pool.taken.Perm (pool.completed ++ pool.running.map (·.2)) ∧
      (pool.inLoop ++ pool.left).Perm (List.range threadCount) ∧
      (∀ action target, (machine τ threadCount).Step pool action target →
        target.left ≠ pool.left → pool.isClosed = true ∧ pool.tasks = []) ∧
      ¬ pool.Stalled ∧
      (((machine τ threadCount).restrict AddsBefore).Reachable pool → pool.tasks ≠ [] →
        pool.inLoop ≠ []) ∧
      ∀ action target worker, (machine τ threadCount).Step pool action target →
        pool.locker action = some worker → Passed worker pool target := by
  have sound := reachable_sound reached
  refine ⟨sound.order, sound.once, sound.workers, ?_, sound.not_stalled, ?_, ?_⟩
  · rintro action target ⟨_, rfl⟩ leaves
    exact left_step leaves
  · intro orderly queued nobody
    have workers := sound.workers
    rw [nobody, List.nil_append] at workers
    have someone : pool.left ≠ [] := fun none => by
      have length := workers.length_eq
      rw [none, List.length_nil, List.length_range] at length
      exact positive.ne length
    exact queued (left_drained orderly someone)
  · rintro action target worker ⟨_, rfl⟩ found
    exact step_passed found

/-- The second of two workers takes the task whose notification wakes the first; the first runs the next
task, and a third is queued when the second is back. -/
private def stolen : ThreadPool ℕ := List.foldl step (start ℕ 2)
  [.lock 0, .addTask 7, .lock 0, .notifyOne 0, .addTask 8, .wake .notified 0, .notifyOne 0, .finish 0,
    .addTask 9]

private theorem stolen_along : Along step Admits (start ℕ 2)
    [.lock 0, .addTask 7, .lock 0, .notifyOne 0, .addTask 8, .wake .notified 0, .notifyOne 0, .finish 0,
      .addTask 9] := by
  decide +kernel

private theorem stolen_reachable : (machine ℕ 2).Reachable stolen :=
  .run stolen_along (fun _ _ admits => ⟨admits, rfl⟩) (.init rfl)

theorem runs_every_task_once_stolen : stolen.taken = [7, 8] ∧ stolen.tasks = [9] ∧
    stolen.running = [(0, 8)] ∧ stolen.completed = [7] ∧ stolen.ready = [1] ∧
    stolen.taken.Perm (stolen.completed ++ stolen.running.map (·.2)) ∧
    Passed 1 stolen (stolen.step (.lock 0)) := by
  obtain ⟨_, once, _, _, _, _, passes⟩ := runs_every_task_once (by decide) stolen_reachable
  refine ⟨by decide +kernel, by decide +kernel, by decide +kernel, by decide +kernel,
    by decide +kernel, once, ?_⟩
  exact passes (.lock 0) _ 1 ⟨by decide +kernel, rfl⟩ (by decide +kernel)

end ThreadPool

end XWebServer
