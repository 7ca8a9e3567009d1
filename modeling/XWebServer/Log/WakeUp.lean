import XWebServer.Log.BlockDeque

/-! # Lost wake-ups of a `BlockDeque`

`push` and `pop` wake one thread for the item or the slot they make. `clear` makes slots and wakes
nobody, as `Close` does, so a producer can sleep beside an empty deque. Where no `clear` runs with a
producer asleep and fewer than `capacity` notified ones on their way, `Served` holds throughout: the
free slots and the queued items are covered by threads on their way.
-/

namespace XWebServer

open Transition System CondVar

namespace BlockDeque

variable {α : Type} {maxCapacity : ℕ}

/-- The operations without `Close` and without timeouts. -/
def Untimed (_ : BlockDeque α) : Action α → Prop
  | .popTimed _ _ | .close | .closeProducers | .closeConsumers => False
  | _ => True

/-- No `clear` makes more slots than notified producers are on their way to, while others sleep. -/
def ClearsServed (queue : BlockDeque α) : Action α → Prop
  | .clear => queue.condProducer.asleep ≠ [] →
      queue.capacity ≤ queue.condProducer.notified.length
  | _ => True

instance (queue : BlockDeque α) (action : Action α) : Decidable (queue.Untimed action) :=
  match action with
  | .popTimed _ _ | .close | .closeProducers | .closeConsumers => .isFalse id
  | .pushBack _ _ | .pushFront _ _ | .pop _ _ | .wakeProducer _ _ _ | .wakeConsumer _ _ _ _
  | .rouseProducer _ | .rouseConsumer _ | .flush _ | .clear => .isTrue trivial

instance (queue : BlockDeque α) (action : Action α) : Decidable (queue.ClearsServed action) :=
  match action with
  | .clear => inferInstanceAs (Decidable (queue.condProducer.asleep ≠ [] →
      queue.capacity ≤ queue.condProducer.notified.length))
  | .pushBack _ _ | .pushFront _ _ | .pop _ _ | .popTimed _ _ | .wakeProducer _ _ _
  | .wakeConsumer _ _ _ _ | .rouseProducer _ | .rouseConsumer _ | .flush _ | .close
  | .closeProducers | .closeConsumers => .isTrue trivial

/-- The runs in which no wake-up is lost. -/
def Serves (queue : BlockDeque α) (action : Action α) : Prop :=
  queue.Untimed action ∧ queue.ClearsServed action

instance (queue : BlockDeque α) (action : Action α) : Decidable (queue.Serves action) :=
  inferInstanceAs (Decidable (queue.Untimed action ∧ queue.ClearsServed action))

/-- Nobody sleeps beside a free slot or a queued item with no thread on its way to it. -/
def NoLostWakeUp (queue : BlockDeque α) : Prop :=
  (queue.deq.length < queue.capacity → queue.condProducer.notified = [] →
      queue.condProducer.asleep = []) ∧
    (queue.deq ≠ [] → queue.condConsumer.notified = [] → queue.condConsumer.asleep = [])

structure Served (queue : BlockDeque α) : Prop where
  isOpen : queue.isClose = false
  untimed : ∀ consumer ∈ queue.condConsumer.members, consumer.timed = false
  producers : queue.condProducer.Covered (queue.capacity - queue.deq.length) 0
  consumers : queue.condConsumer.Covered queue.deq.length 0

theorem Served.noLostWakeUp {queue : BlockDeque α} (served : queue.Served) : queue.NoLostWakeUp := by
  constructor
  · intro room
    exact served.producers.awake (Nat.sub_pos_of_lt room)
  · intro queued
    exact served.consumers.awake (List.length_pos_iff.mpr queued)

/-! ## One pass -/

theorem pushPass_served {producer : Producer α} {pick : ℕ} {queue : BlockDeque α}
    (isOpen : queue.isClose = false)
    (untimed : ∀ consumer ∈ queue.condConsumer.members, consumer.timed = false)
    (producers : queue.condProducer.Covered (queue.capacity - queue.deq.length - 1) 0)
    (consumers : queue.condConsumer.Covered queue.deq.length 0)
    (picks : queue.condConsumer.Picks pick) : (queue.pushPass producer pick).Served := by
  rw [pushPass]
  split_ifs with isFull
  · have none : queue.capacity - queue.deq.length = 0 :=
      Nat.sub_eq_zero_of_le (of_decide_eq_true isFull)
    refine ⟨isOpen, untimed, ?_, consumers⟩
    show (queue.condProducer.wait producer).Covered (queue.capacity - queue.deq.length) 0
    rw [none]
    exact covered_zero _ _
  · refine ⟨isOpen, fun consumer inside => ?_, ?_, ?_⟩
    · exact untimed consumer ((members_notifyOne pick _).mem_iff.mp inside)
    · show queue.condProducer.Covered (queue.capacity - (queue.insert producer).deq.length) 0
      rw [length_insert]
      exact producers
    · show (queue.condConsumer.notifyOne pick).Covered (queue.insert producer).deq.length 0
      rw [length_insert]
      exact .notifyOne (consumers.shift (by omega)) picks

theorem popPass_served {consumer : Consumer α} {pick : ℕ} {queue : BlockDeque α}
    (isOpen : queue.isClose = false) (untimed : consumer.timed = false)
    (others : ∀ other ∈ queue.condConsumer.members, other.timed = false)
    (producers : queue.condProducer.Covered (queue.capacity - queue.deq.length) 0)
    (consumers : queue.condConsumer.Covered (queue.deq.length - 1) 0)
    (picks : queue.condProducer.Picks pick) : (queue.popPass consumer pick).Served := by
  rw [popPass]
  split
  · rename_i none
    refine ⟨isOpen, fun other inside => ?_, producers, ?_⟩
    · rcases List.mem_cons.mp ((members_wait consumer _).mem_iff.mp inside) with rfl | old
      · exact untimed
      · exact others other old
    · show (queue.condConsumer.wait consumer).Covered queue.deq.length 0
      rw [none]
      exact covered_zero _ _
  · rename_i front rest queued
    rw [queued] at producers consumers
    refine ⟨isOpen, others, .notifyOne (producers.shift ?_) picks, consumers⟩
    rw [List.length_cons]
    show queue.capacity - rest.length + 0 ≤ queue.capacity - (rest.length + 1) + (0 + 1)
    omega

/-! ## The steps -/

theorem Served.step {action : Action α} {queue : BlockDeque α} (served : queue.Served)
    (admits : queue.Admits action) (untimed : queue.Untimed action)
    (clears : queue.ClearsServed action) : (queue.step action).Served := by
  have push (producer : Producer α) (pick : ℕ) (picks : queue.condConsumer.Picks pick) :
      (queue.pushPass producer pick).Served :=
    pushPass_served served.isOpen served.untimed
      (served.producers.shift (Nat.sub_le _ _)) served.consumers picks
  cases action with
  | pushBack item pick => exact push _ pick admits
  | pushFront item pick => exact push _ pick admits
  | pop item pick =>
    exact popPass_served served.isOpen rfl served.untimed served.producers
      (served.consumers.shift (Nat.sub_le _ _)) admits
  | popTimed | close | closeProducers | closeConsumers => exact untimed.elim
  | wakeProducer how index pick =>
    obtain ⟨inside, picks⟩ := admits
    simp only [BlockDeque.step, List.getElem?_eq_getElem inside]
    exact pushPass_served served.isOpen served.untimed (served.producers.resume how index)
      served.consumers picks
  | wakeConsumer how index timedOut pick =>
    obtain ⟨inside, picks⟩ := admits
    have split := members_resume (List.getElem?_eq_getElem inside)
    have plain := served.untimed _ (split.mem_iff.mpr List.mem_cons_self)
    simp only [BlockDeque.step, List.getElem?_eq_getElem inside, popWoken, plain, Bool.false_and,
      Bool.false_eq_true, if_false, served.isOpen]
    refine popPass_served rfl plain (fun other there => ?_) served.producers
      (served.consumers.resume how index) picks
    exact served.untimed other (split.mem_iff.mpr (List.mem_cons_of_mem _ there))
  | rouseProducer index =>
    exact ⟨served.isOpen, served.untimed, served.producers.rouse index, served.consumers⟩
  | rouseConsumer index =>
    refine ⟨served.isOpen, fun other inside => ?_, served.producers, served.consumers.rouse index⟩
    exact served.untimed other ((members_rouse index _).mem_iff.mp inside)
  | flush pick =>
    refine ⟨served.isOpen, fun other inside => ?_, served.producers, ?_⟩
    · exact served.untimed other ((members_notifyOne pick _).mem_iff.mp inside)
    · exact .notifyOne (served.consumers.shift (Nat.le_succ _)) admits
  | clear => exact ⟨served.isOpen, served.untimed, clears, covered_zero _ _⟩

theorem new_served (maxCapacity : ℕ) : (new α maxCapacity).Served where
  isOpen := rfl
  untimed consumer inside := by cases inside
  producers := covered_empty _ _
  consumers := covered_empty _ _

/-- In runs of pushes, `pop`s, `flush`es and `clear`s in which no `clear` leaves sleeping producers
with more free slots than producers on their way, no wake-up is lost. -/
theorem noLostWakeUp_of_serves {queue : BlockDeque α}
    (reached : ((machine α maxCapacity).restrict Serves).Reachable queue) :
    queue.NoLostWakeUp := by
  have served : queue.Served := by
    apply reached.invariant
    · rintro start rfl
      exact new_served maxCapacity
    · rintro source action target served ⟨⟨admits, rfl⟩, untimed, clears⟩
      exact served.step admits untimed clears
  exact served.noLostWakeUp

/-- The condition is exact: after another `clear` the producers on their way can fill their slots and
leave one free beside a sleeper. -/
theorem lost_of_clear {queue : BlockDeque α} (asleep : queue.condProducer.asleep ≠ [])
    (few : queue.deq.length + queue.condProducer.notified.length < queue.capacity) :
    ∃ target, ((machine α maxCapacity).restrict Untimed).Path queue target ∧
      ¬ target.NoLostWakeUp := by
  induction onTheWay : queue.condProducer.notified generalizing queue with
  | nil =>
    refine ⟨queue, .refl queue, fun served => asleep (served.1 ?_ onTheWay)⟩
    exact (Nat.le_add_right _ _).trans_lt few
  | cons producer rest ih =>
    rw [onTheWay, List.length_cons] at few
    have room : queue.full = false := decide_eq_false (by omega)
    have admits : queue.Admits (.wakeProducer .notified 0 0) := by
      refine ⟨?_, id⟩
      show 0 < queue.condProducer.notified.length
      rw [onTheWay]
      exact Nat.succ_pos _
    have inserted : queue.step (.wakeProducer .notified 0 0) =
        { queue.insert producer with
          condProducer := queue.condProducer.resume .notified 0
          condConsumer := queue.condConsumer.notifyOne 0 } := by
      have isRoom (cond : CondVar (Producer α)) :
          full { queue with condProducer := cond } = false := room
      simp only [BlockDeque.step, woken, onTheWay, List.getElem?_cons_zero, pushPass, isRoom,
        Bool.false_eq_true, if_false]
      rfl
    have grown : (queue.step (.wakeProducer .notified 0 0)).deq.length = queue.deq.length + 1 := by
      rw [inserted]
      exact length_insert producer queue
    have fewer : (queue.step (.wakeProducer .notified 0 0)).condProducer.notified = rest := by
      rw [inserted]
      simp only [resume, onTheWay, List.eraseIdx_cons_zero]
    have capacity : (queue.step (.wakeProducer .notified 0 0)).capacity = queue.capacity := by
      rw [inserted]
      rfl
    obtain ⟨target, path, lost⟩ := ih (by rw [inserted]; exact asleep)
      (by rw [grown, fewer, capacity]; omega) fewer
    exact ⟨target, .trans (.single ⟨⟨admits, rfl⟩, trivial⟩) path, lost⟩

/-- The deque is full, a producer waits, and the deque is cleared. -/
private def cleared : BlockDeque ℕ :=
  List.foldl step (new ℕ 1) [.pushBack 7 0, .pushBack 8 0, .clear]

theorem not_noLostWakeUp_clear :
    ¬ ∀ queue, ((machine ℕ 1).restrict Untimed).Reachable queue → queue.NoLostWakeUp := by
  intro always
  have reached : ((machine ℕ 1).restrict Untimed).Reachable cleared :=
    reachable_run (by decide +kernel)
  have lost := (always cleared reached).1 (by decide +kernel) rfl
  exact absurd lost (List.cons_ne_nil _ _)

/-- The same, but the producer has been notified when the deque is cleared. -/
private def servedClear : BlockDeque ℕ :=
  List.foldl step (new ℕ 1) [.pushBack 7 0, .pushBack 8 0, .pop 0 0, .clear]

private theorem servedClear_reachable : ((machine ℕ 1).restrict Serves).Reachable servedClear :=
  reachable_run (by decide +kernel)

theorem noLostWakeUp_servedClear : servedClear.condProducer.notified.length = 1 ∧
    servedClear.NoLostWakeUp :=
  ⟨rfl, noLostWakeUp_of_serves servedClear_reachable⟩

end BlockDeque

end XWebServer
