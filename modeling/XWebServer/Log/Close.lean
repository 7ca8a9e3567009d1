import XWebServer.Log.BlockDeque

/-! # Closing a `BlockDeque`

`pop` looks at `isClose_` only after a wait and a push never does. A `pop` called after `Close` has
notified sleeps for good, and a producer that calls a push, or goes on with one, when the deque is
closed puts its item in. `Orderly` keeps these steps out; then the closed deque stays empty, nobody
sleeps on it unless `Close` has still to notify, and every `pop` that returns returns false. Each step
that `Orderly` keeps out breaks this (`orderly_iff`).
-/

namespace XWebServer

open Transition System CondVar

namespace BlockDeque

variable {α : Type} {maxCapacity : ℕ}

/-- A `Close` that has been in its critical section has yet to notify the consumers. -/
def WillNotify (queue : BlockDeque α) : Prop := 0 < queue.closingProducers + queue.closingConsumers

instance (queue : BlockDeque α) : Decidable queue.WillNotify :=
  inferInstanceAs (Decidable (0 < queue.closingProducers + queue.closingConsumers))

/-- No producer calls a push or goes on with one after `Close` has run, and no `pop` is called once
`Close` has notified. -/
def Orderly (queue : BlockDeque α) : Action α → Prop
  | .pushBack _ _ | .pushFront _ _ | .wakeProducer _ _ _ => queue.isClose = false
  | .pop _ _ | .popTimed _ _ => queue.isClose = true → queue.WillNotify
  | _ => True

instance (queue : BlockDeque α) (action : Action α) : Decidable (queue.Orderly action) :=
  match action with
  | .pushBack _ _ | .pushFront _ _ | .wakeProducer _ _ _ =>
      inferInstanceAs (Decidable (queue.isClose = false))
  | .pop _ _ | .popTimed _ _ => inferInstanceAs (Decidable (queue.isClose = true → queue.WillNotify))
  | .wakeConsumer _ _ _ _ | .rouseProducer _ | .rouseConsumer _ | .flush _ | .clear | .close
  | .closeProducers | .closeConsumers => .isTrue trivial

/-- A step lets no item in, and a `pop` that returns in it returns false. -/
structure Refuses (queue target : BlockDeque α) : Prop where
  pushed : target.pushed = queue.pushed
  returns : target.returns = queue.returns ∨
    ∃ call, target.returns = queue.returns ++ [call] ∧ call.success = false

/-- What `Close` is for: once it has run, no consumer sleeps with nobody to wake it, no item enters,
and every `pop` that returns returns false. -/
def ClosesForGood (system : System (BlockDeque α) (Action α)) : Prop :=
  ∀ queue, system.Reachable queue → queue.isClose = true →
    (queue.condConsumer.asleep ≠ [] → queue.WillNotify) ∧
      ∀ action target, system.Step queue action target → Refuses queue target

/-- A closed deque where the calls are orderly. -/
structure Shut (queue : BlockDeque α) : Prop where
  isClose : queue.isClose = true
  deq : queue.deq = []
  consumers : queue.condConsumer.asleep ≠ [] → queue.WillNotify

/-- A change of the consumers' waits that puts nobody to sleep. -/
theorem Shut.consumers_awake {queue : BlockDeque α} (shut : queue.Shut)
    {cond : CondVar (Consumer α)} (awake : queue.condConsumer.asleep = [] → cond.asleep = [])
    (returns : List (Return α)) : Shut { queue with condConsumer := cond, returns } where
  isClose := shut.isClose
  deq := shut.deq
  consumers someone := shut.consumers fun nobody => someone (awake nobody)

theorem Shut.popWoken {consumer : Consumer α} {timedOut : Bool} {pick : ℕ} {queue : BlockDeque α}
    (shut : queue.Shut) : queue.popWoken consumer timedOut pick = queue.giveUp consumer := by
  simp only [BlockDeque.popWoken, shut.isClose, if_true, ite_self]

theorem Shut.popPass {consumer : Consumer α} {pick : ℕ} {queue : BlockDeque α} (shut : queue.Shut) :
    queue.popPass consumer pick =
      { queue with condConsumer := queue.condConsumer.wait consumer } := by
  simp only [BlockDeque.popPass, shut.deq]

/-- What an orderly step does to a deque that is shut. -/
theorem Shut.step {action : Action α} {queue : BlockDeque α} (shut : queue.Shut)
    (admits : queue.Admits action) (orderly : queue.Orderly action) :
    (queue.step action).Shut ∧ Refuses queue (queue.step action) := by
  have isClose := shut.isClose
  have same (target : BlockDeque α) (pushed : target.pushed = queue.pushed)
      (returns : target.returns = queue.returns) : Refuses queue target :=
    ⟨pushed, .inl returns⟩
  have waits (consumer : Consumer α) (pick : ℕ) (expected : queue.WillNotify) :
      (queue.popPass consumer pick).Shut ∧ Refuses queue (queue.popPass consumer pick) := by
    rw [shut.popPass]
    exact ⟨⟨isClose, shut.deq, fun _ => expected⟩, same _ rfl rfl⟩
  cases action with
  | pushBack | pushFront | wakeProducer =>
    rw [show queue.isClose = false from orderly] at isClose
    cases isClose
  | pop item pick => exact waits _ pick (orderly isClose)
  | popTimed item pick => exact waits _ pick (orderly isClose)
  | wakeConsumer how index timedOut pick =>
    have resumed : Shut { queue with condConsumer := queue.condConsumer.resume how index } :=
      shut.consumers_awake (fun nobody => by rw [asleep_resume, nobody]) queue.returns
    simp only [BlockDeque.step, List.getElem?_eq_getElem admits.1]
    rw [resumed.popWoken]
    exact ⟨resumed.consumers_awake id _, ⟨rfl, .inr ⟨_, rfl, rfl⟩⟩⟩
  | rouseProducer index => exact ⟨⟨isClose, shut.deq, shut.consumers⟩, same _ rfl rfl⟩
  | rouseConsumer index =>
    refine ⟨shut.consumers_awake (fun nobody => ?_) _, same _ rfl rfl⟩
    rw [rouse_of_awake nobody, nobody]
  | flush pick =>
    refine ⟨shut.consumers_awake (fun nobody => ?_) _, same _ rfl rfl⟩
    rw [notifyOne_of_awake nobody, nobody]
  | clear => exact ⟨⟨isClose, rfl, shut.consumers⟩, same _ rfl rfl⟩
  | close =>
    refine ⟨⟨rfl, rfl, fun _ => ?_⟩, same _ rfl rfl⟩
    show 0 < queue.closingProducers + 1 + queue.closingConsumers
    omega
  | closeProducers =>
    refine ⟨⟨isClose, shut.deq, fun _ => ?_⟩, same _ rfl rfl⟩
    show 0 < queue.closingProducers - 1 + (queue.closingConsumers + 1)
    omega
  | closeConsumers =>
    exact ⟨⟨isClose, shut.deq, fun someone => absurd rfl someone⟩, same _ rfl rfl⟩

/-- A producer that has the lock puts its item into a deque that is shut. -/
theorem Shut.pushPass_not_refuses {queue : BlockDeque α} (shut : queue.Shut)
    (positive : 0 < queue.capacity) (before : BlockDeque α) (pushed : before.pushed = queue.pushed)
    (producer : Producer α) (pick : ℕ) : ¬ Refuses before (queue.pushPass producer pick) := by
  intro refuses
  have room : queue.full = false := by
    simp only [full, shut.deq, List.length_nil, decide_eq_false_iff_not]
    omega
  have grown := congrArg List.length (refuses.pushed.trans pushed)
  simp only [BlockDeque.pushPass, room, insert, Bool.false_eq_true, if_false, List.length_append,
    List.length_singleton] at grown
  omega

/-- On a deque that is shut, the orderly steps are those that keep what `Close` is for. -/
theorem Shut.orderly_iff {action : Action α} {queue : BlockDeque α} (shut : queue.Shut)
    (positive : 0 < queue.capacity) (admits : queue.Admits action) :
    queue.Orderly action ↔
      ((queue.step action).condConsumer.asleep ≠ [] → (queue.step action).WillNotify) ∧
        Refuses queue (queue.step action) := by
  refine ⟨fun orderly => ?_, fun ⟨woken, refuses⟩ => ?_⟩
  · obtain ⟨kept, refuses⟩ := shut.step admits orderly
    exact ⟨kept.consumers, refuses⟩
  · have waits (consumer : Consumer α) (pick : ℕ)
        (woken : (queue.popPass consumer pick).condConsumer.asleep ≠ [] →
          (queue.popPass consumer pick).WillNotify) : queue.WillNotify := by
      rw [shut.popPass] at woken
      exact woken (by simp [CondVar.wait])
    cases action with
    | pushBack item pick => exact absurd refuses (shut.pushPass_not_refuses positive queue rfl _ _)
    | pushFront item pick => exact absurd refuses (shut.pushPass_not_refuses positive queue rfl _ _)
    | wakeProducer how index pick =>
      have resumed : Shut { queue with condProducer := queue.condProducer.resume how index } :=
        ⟨shut.isClose, shut.deq, shut.consumers⟩
      simp only [BlockDeque.step, List.getElem?_eq_getElem admits.1] at refuses
      exact absurd refuses (resumed.pushPass_not_refuses positive queue rfl _ _)
    | pop item pick => exact fun _ => waits _ pick woken
    | popTimed item pick => exact fun _ => waits _ pick woken
    | wakeConsumer | rouseProducer | rouseConsumer | flush | clear | close | closeProducers
    | closeConsumers => trivial

/-! ## Every run -/

theorem pushPass_isClose (producer : Producer α) (pick : ℕ) (queue : BlockDeque α) :
    (queue.pushPass producer pick).isClose = queue.isClose := by
  rw [pushPass]
  split_ifs <;> rfl

theorem popPass_isClose (consumer : Consumer α) (pick : ℕ) (queue : BlockDeque α) :
    (queue.popPass consumer pick).isClose = queue.isClose := by
  rw [popPass]
  split <;> rfl

theorem popWoken_isClose (consumer : Consumer α) (timedOut : Bool) (pick : ℕ)
    (queue : BlockDeque α) : (queue.popWoken consumer timedOut pick).isClose = queue.isClose := by
  rw [popWoken]
  split_ifs
  · rfl
  · rfl
  · exact popPass_isClose consumer pick queue

/-- Only `Close` closes. -/
theorem step_isClose {action : Action α} (other : action ≠ .close) (queue : BlockDeque α) :
    (queue.step action).isClose = queue.isClose := by
  cases action with
  | close => exact absurd rfl other
  | pushBack | pushFront => exact pushPass_isClose _ _ queue
  | pop | popTimed => exact popPass_isClose _ _ queue
  | wakeProducer how index pick =>
    simp only [step]
    split
    · rfl
    · exact pushPass_isClose _ _ _
  | wakeConsumer how index timedOut pick =>
    simp only [step]
    split
    · rfl
    · exact popWoken_isClose _ _ _ _
  | rouseProducer | rouseConsumer | flush | clear | closeProducers | closeConsumers => rfl

/-- `Close` shuts the deque. -/
theorem close_shut (queue : BlockDeque α) : queue.close.Shut where
  isClose := rfl
  deq := rfl
  consumers _ := by
    show 0 < queue.closingProducers + 1 + queue.closingConsumers
    omega

theorem reachable_shut {queue : BlockDeque α}
    (reached : ((machine α maxCapacity).restrict Orderly).Reachable queue) :
    queue.isClose = true → queue.Shut := by
  refine reached.invariant (P := fun queue => queue.isClose = true → queue.Shut) ?_ ?_
  · rintro start rfl isClose
    cases isClose
  · rintro source action target shut ⟨⟨admits, rfl⟩, orderly⟩ isClose
    by_cases closes : action = .close
    · subst closes
      exact close_shut source
    · rw [step_isClose closes] at isClose
      exact ((shut isClose).step admits orderly).1

/-- Where the calls are orderly, a closed deque is closed for good. -/
theorem closesForGood_of_orderly (maxCapacity : ℕ) :
    ClosesForGood ((machine α maxCapacity).restrict Orderly) := by
  intro queue reached isClose
  have shut := reachable_shut reached isClose
  refine ⟨shut.consumers, ?_⟩
  rintro action target ⟨⟨admits, rfl⟩, orderly⟩
  exact (shut.step admits orderly).2

/-- Only the calls of producers and consumers, and one `Close`. -/
def OneClose (queue : BlockDeque α) : Action α → Prop
  | .flush _ | .clear => False
  | .close => queue.isClose = false
  | _ => True

instance (queue : BlockDeque α) (action : Action α) : Decidable (queue.OneClose action) :=
  match action with
  | .flush _ | .clear => .isFalse id
  | .close => inferInstanceAs (Decidable (queue.isClose = false))
  | .pushBack _ _ | .pushFront _ _ | .pop _ _ | .popTimed _ _ | .wakeProducer _ _ _
  | .wakeConsumer _ _ _ _ | .rouseProducer _ | .rouseConsumer _ | .closeProducers
  | .closeConsumers => .isTrue trivial

/-- The flush thread has popped the last line when `Close` runs, and pops again after it. -/
private def hanging : BlockDeque ℕ :=
  List.foldl step (new ℕ 1)
    [.pushBack 7 0, .pop 0 0, .close, .closeProducers, .closeConsumers, .pop 7 0]

theorem not_closesForGood_hanging : ¬ ClosesForGood ((machine ℕ 1).restrict OneClose) := by
  intro closes
  have reached : ((machine ℕ 1).restrict OneClose).Reachable hanging :=
    reachable_run (by decide +kernel)
  have expected := (closes hanging reached rfl).1 (List.cons_ne_nil _ _)
  exact absurd expected (by decide +kernel)

end BlockDeque

end XWebServer
