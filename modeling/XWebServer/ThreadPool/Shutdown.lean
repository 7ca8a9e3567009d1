import XWebServer.ThreadPool.Tasks

/-! # The end of the pool

The destructor sets `isClosed` and notifies every worker, and the workers run on without it. What they
have left to do is a number that every step of a closed pool makes smaller, spurious wake-ups included:
a worker that finds the queue empty no longer goes to sleep, it leaves. So the pool comes to rest, and at
rest every task that was ever added has been run to its end.
-/

namespace XWebServer

open Transition System CondVar
open scoped List

namespace ThreadPool

variable {τ : Type} {threadCount : ℕ}

/-- What a closed pool has left to do. -/
def remaining (pool : ThreadPool τ) : ℕ :=
  2 * pool.tasks.length + 2 * pool.running.length + pool.ready.length + pool.cond.awake +
    2 * pool.cond.asleep.length + pool.adding + pool.closing.toNat

/-- The steps of the workers and the notifications. -/
def Action.moves : Action τ → Bool
  | .lock _ | .wake _ _ | .finish _ | .notifyOne _ | .notifyAll => true
  | .rouse _ | .addTask _ | .close => false

/-- No worker can move, and no notification is owed. -/
def Rests (pool : ThreadPool τ) : Prop :=
  ∀ action : Action τ, action.moves = true → ¬ pool.Admits action

/-! ## Less to do after every step -/

/-- In a closed pool a worker's pass takes a task or ends its loop. -/
theorem remaining_loop {worker : ℕ} {pool : ThreadPool τ} (closed : pool.isClosed = true) :
    (loop worker pool).remaining ≤ pool.remaining := by
  rw [loop]
  split
  · rename_i task rest queued
    simp only [remaining, queued, List.length_cons, List.length_append, List.length_nil]
    omega
  · rw [if_pos closed]
    exact Nat.le_refl _

/-- A sleeper that is woken costs less. -/
theorem weight_notifyOne (pick : ℕ) (cond : CondVar ℕ) :
    (cond.notifyOne pick).awake + 2 * (cond.notifyOne pick).asleep.length ≤
      cond.awake + 2 * cond.asleep.length := by
  rw [CondVar.notifyOne]
  split
  · exact Nat.le_refl _
  · rename_i waiter found
    obtain ⟨inside, _⟩ := List.getElem?_eq_some_iff.mp found
    have shorter := List.length_eraseIdx_of_lt inside
    simp only [awake, List.length_append, List.length_singleton]
    omega

theorem weight_rouse {pick : ℕ} {cond : CondVar ℕ} (inside : pick < cond.asleep.length) :
    (cond.rouse pick).awake + 2 * (cond.rouse pick).asleep.length <
      cond.awake + 2 * cond.asleep.length := by
  have shorter := List.length_eraseIdx_of_lt inside
  rw [rouse, List.getElem?_eq_getElem inside]
  simp only [awake, List.length_append, List.length_singleton]
  omega

theorem remaining_step {pool : ThreadPool τ} (closed : pool.isClosed = true) {action : Action τ}
    (admits : pool.Admits action) (other : ∀ task, action ≠ .addTask task) :
    (pool.step action).remaining < pool.remaining := by
  cases action with
  | lock index =>
    have inside : index < pool.ready.length := admits
    have shorter := List.length_eraseIdx_of_lt inside
    simp only [step, List.getElem?_eq_getElem inside]
    apply lt_of_le_of_lt (remaining_loop ?_)
    · simp only [remaining]
      omega
    · exact closed
  | wake how index =>
    have inside : index < (pool.cond.woken how).length := admits
    have fewer := awake_resume inside
    simp only [step, List.getElem?_eq_getElem inside]
    apply lt_of_le_of_lt (remaining_loop ?_)
    · simp only [remaining, asleep_resume]
      omega
    · exact closed
  | rouse index =>
    have lighter := weight_rouse admits
    simp only [remaining, step]
    omega
  | finish index =>
    have inside : index < pool.running.length := admits
    have shorter := List.length_eraseIdx_of_lt inside
    simp only [step, List.getElem?_eq_getElem inside, remaining, List.length_append,
      List.length_singleton]
    omega
  | addTask task => exact absurd rfl (other task)
  | notifyOne pick =>
    have owed : 0 < pool.adding := admits.1
    have lighter := weight_notifyOne pick pool.cond
    simp only [remaining, step]
    omega
  | close => exact absurd (show pool.isClosed = false from admits) (by rw [closed]; decide)
  | notifyAll =>
    have owed : pool.closing = true := admits
    simp only [remaining, step, awake, CondVar.notifyAll, List.length_append, owed, List.length_nil,
      Bool.toNat_true, Bool.toNat_false]
    omega

/-- A closed pool stays closed. -/
theorem isClosed_step {pool : ThreadPool τ} (closed : pool.isClosed = true) (action : Action τ) :
    (pool.step action).isClosed = true := by
  have pass (worker : ℕ) (inside : ThreadPool τ) (same : inside.isClosed = true) :
      (loop worker inside).isClosed = true := by
    rw [loop]
    split
    · exact same
    · rw [if_pos same]
      exact same
  cases action with
  | lock index =>
    simp only [step]
    split
    · exact closed
    · exact pass _ _ closed
  | wake how index =>
    simp only [step]
    split
    · exact closed
    · exact pass _ _ closed
  | finish index =>
    simp only [step]
    split
    · exact closed
    · exact closed
  | close => rfl
  | rouse | addTask | notifyOne | notifyAll => exact closed

/-! ## At rest -/

theorem Rests.inLoop {pool : ThreadPool τ} (rests : pool.Rests) (sound : pool.Sound threadCount)
    (closed : pool.isClosed = true) : pool.inLoop = [] := by
  have ready : pool.ready = [] := by
    by_contra someone
    exact rests (.lock 0) rfl (List.length_pos_iff.mpr someone)
  have running : pool.running = [] := by
    by_contra someone
    exact rests (.finish 0) rfl (List.length_pos_iff.mpr someone)
  have woken (how : Woken) : pool.cond.woken how = [] := by
    by_contra someone
    exact rests (.wake how 0) rfl (List.length_pos_iff.mpr someone)
  have told : pool.closing = false := by
    by_contra owed
    exact rests .notifyAll rfl (Bool.eq_true_of_not_eq_false owed)
  have asleep : pool.cond.asleep = [] := sound.closed closed told
  have notified : pool.cond.notified = [] := woken .notified
  have roused : pool.cond.roused = [] := woken .roused
  simp only [ThreadPool.inLoop, members, ready, running, asleep, notified, roused, List.map_nil,
    List.append_nil]

/-- When the destructor has had the lock, and nobody adds a task any more, every run of the workers, the
notifications and spurious wake-ups, in whatever order, is over after as many steps as `remaining` says.
A pool that rests has no worker left in its loop and has run every task ever added to its end. -/
theorem closed_pool_drains (positive : 0 < threadCount) {pool target : ThreadPool τ}
    (reached : ((machine τ threadCount).restrict AddsBefore).Reachable pool)
    (closed : pool.isClosed = true) {moves : ℕ}
    (run : ((machine τ threadCount).restrict AddsBefore).Steps pool moves target) :
    moves + target.remaining ≤ pool.remaining ∧
      (target.Rests → target.left.Perm (List.range threadCount) ∧ target.tasks = [] ∧
        target.completed.Perm target.submitted) := by
  have lowers (source : ThreadPool τ) (action : Action τ) (next : ThreadPool τ)
      (before : ((machine τ threadCount).restrict AddsBefore).Reachable source ∧
        source.isClosed = true)
      (move : ((machine τ threadCount).restrict AddsBefore).Step source action next) :
      (((machine τ threadCount).restrict AddsBefore).Reachable next ∧ next.isClosed = true) ∧
        next.remaining < source.remaining := by
    obtain ⟨⟨admits, rfl⟩, adds⟩ := move
    have other : ∀ task, action ≠ .addTask task := by
      rintro task rfl
      cases before.2.symm.trans (show source.isClosed = false from adds)
    exact ⟨⟨.step before.1 ⟨⟨admits, rfl⟩, adds⟩, isClosed_step before.2 action⟩,
      remaining_step before.2 admits other⟩
  obtain ⟨⟨again, stays⟩, bound⟩ := Steps.ranked lowers ⟨reached, closed⟩ run
  refine ⟨bound, fun rests => ?_⟩
  have sound := reachable_sound again.of_restrict
  have nobody := rests.inLoop sound stays
  have workers := sound.workers
  rw [nobody, List.nil_append] at workers
  have someone : target.left ≠ [] := by
    rintro none
    have length := workers.length_eq
    rw [none, List.length_nil, List.length_range] at length
    omega
  have drained : target.tasks = [] := left_drained again someone
  have running : target.running = [] := by
    by_contra busy
    exact rests (.finish 0) rfl (List.length_pos_iff.mpr busy)
  refine ⟨workers, drained, ?_⟩
  have order := sound.order
  have once := sound.once
  rw [drained, List.append_nil] at order
  rw [running, List.map_nil, List.append_nil] at once
  rw [← order]
  exact once.symm

private def hiring : List (Action ℕ) :=
  [.lock 0, .lock 0, .addTask 7, .notifyOne 0, .wake .notified 0, .addTask 8, .close]

/-- One worker runs a task and one sleeps, and a second task is queued, when the destructor has had the
lock. -/
private def abandoned : ThreadPool ℕ := hiring.foldl step (start ℕ 2)

private def leaving : List (Action ℕ) :=
  [.notifyAll, .wake .notified 0, .notifyOne 0, .finish 0, .lock 0, .finish 0, .lock 0]

private def deserted : ThreadPool ℕ := leaving.foldl step abandoned

instance (pool : ThreadPool τ) (action : Action τ) : Decidable (pool.AddsBefore action) :=
  match action with
  | .addTask _ => inferInstanceAs (Decidable (pool.isClosed = false))
  | .lock _ | .wake _ _ | .rouse _ | .finish _ | .notifyOne _ | .close | .notifyAll => .isTrue trivial

theorem closed_pool_drains_deserted :
    abandoned.remaining = 8 ∧ 7 + deserted.remaining ≤ abandoned.remaining ∧
      deserted.left.Perm (List.range 2) ∧ deserted.completed.Perm deserted.submitted := by
  have moves (pool : ThreadPool ℕ) (action : Action ℕ)
      (passes : pool.Admits action ∧ pool.AddsBefore action) :
      ((machine ℕ 2).restrict AddsBefore).Step pool action (pool.step action) :=
    ⟨⟨passes.1, rfl⟩, passes.2⟩
  have along : Along step (fun pool action => pool.Admits action ∧ pool.AddsBefore action) (start ℕ 2)
    hiring := by decide
  have reached : ((machine ℕ 2).restrict AddsBefore).Reachable abandoned := .run along moves (.init rfl)
  have run : ((machine ℕ 2).restrict AddsBefore).Steps abandoned (0 + leaving.length) deserted :=
    .run (by decide) moves (.refl _)
  obtain ⟨bound, ends⟩ := closed_pool_drains (by decide) reached rfl run
  have rests : deserted.Rests := by
    intro action moves admits
    cases action with
    | lock index => exact absurd admits (Nat.not_lt_zero _)
    | wake how index => cases how <;> exact absurd admits (Nat.not_lt_zero _)
    | finish index => exact absurd admits (Nat.not_lt_zero _)
    | notifyOne pick => exact absurd admits.1 (Nat.lt_irrefl _)
    | notifyAll => cases admits
    | rouse | addTask | close => cases moves
  exact ⟨rfl, bound, (ends rests).1, (ends rests).2.2⟩

end ThreadPool

end XWebServer
