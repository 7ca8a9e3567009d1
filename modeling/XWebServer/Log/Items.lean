import Mathlib.Data.List.Range
import XWebServer.Log.BlockDeque

/-! # What becomes of the items of a `BlockDeque`

Every pushed item is in one of three places, once: handed to a `pop`, dropped, or in the deque.
`Conserved` says so and is kept by every step; in runs without `push_front` and drops the first and
the last place are in the order of the pushes.
-/

namespace XWebServer

open Transition System CondVar
open scoped List

namespace BlockDeque

variable {α : Type} {maxCapacity : ℕ}

/-- The items handed out, dropped, and in the deque. -/
def places (queue : BlockDeque α) : List (Item α) :=
  queue.popped ++ queue.dropped.map (·.1) ++ queue.deq

structure Conserved (maxCapacity : ℕ) (queue : BlockDeque α) : Prop where
  capacity : queue.capacity = maxCapacity
  size : queue.deq.length ≤ maxCapacity
  serials : (queue.places.map (·.serial)).Perm (List.range queue.pushed.length)
  values : ∀ item ∈ queue.places, queue.pushed[item.serial]? = some item.value
  dropped : ∀ entry ∈ queue.dropped, entry.1.serial < entry.2
  handed : (queue.returns.filter (·.success)).map (·.after) = queue.popped.map (·.value)
  kept : ∀ call ∈ queue.returns, call.success = false → call.after = call.before

theorem new_conserved (maxCapacity : ℕ) : (new α maxCapacity).Conserved maxCapacity where
  capacity := rfl
  size := Nat.zero_le _
  serials := .refl _
  values item inside := by cases inside
  dropped entry inside := by cases inside
  handed := rfl
  kept call inside := by cases inside

/-- The threads in the waits, and whether the deque is closed, play no part. -/
theorem Conserved.conds {queue : BlockDeque α} (conserved : queue.Conserved maxCapacity)
    (isClose : Bool) (condConsumer : CondVar (Consumer α)) (condProducer : CondVar (Producer α))
    (closingProducers closingConsumers : ℕ) :
    Conserved maxCapacity { queue with
      isClose, condConsumer, condProducer, closingProducers, closingConsumers } :=
  ⟨conserved.capacity, conserved.size, conserved.serials, conserved.values, conserved.dropped,
    conserved.handed, conserved.kept⟩

theorem places_insert (producer : Producer α) (queue : BlockDeque α) :
    (queue.insert producer).places.Perm (⟨queue.pushed.length, producer.item⟩ :: queue.places) := by
  obtain ⟨item, front⟩ := producer
  cases front with
  | false =>
    simp only [places, insert, Bool.false_eq_true, if_false, ← List.append_assoc]
    exact List.perm_append_singleton _ _
  | true =>
    simp only [places, insert, if_true]
    exact List.perm_middle

theorem Conserved.insert {queue : BlockDeque α} (conserved : queue.Conserved maxCapacity)
    (room : queue.full = false) (producer : Producer α) :
    (queue.insert producer).Conserved maxCapacity where
  capacity := conserved.capacity
  size := by
    simp only [full, decide_eq_false_iff_not, conserved.capacity] at room
    rw [length_insert]
    omega
  serials := by
    apply ((places_insert producer queue).map _).trans
    simp only [BlockDeque.insert, List.length_append, List.length_singleton, List.range_succ,
      List.map_cons]
    exact (conserved.serials.cons _).trans (List.perm_append_singleton _ _).symm
  values item inside := by
    simp only [BlockDeque.insert]
    rcases List.mem_cons.mp ((places_insert producer queue).mem_iff.mp inside) with rfl | old
    · exact List.getElem?_concat_length
    · have found := conserved.values item old
      have before : item.serial < queue.pushed.length := (List.getElem?_eq_some_iff.mp found).1
      rw [List.getElem?_append_left before, found]
  dropped := conserved.dropped
  handed := conserved.handed
  kept := conserved.kept

theorem Conserved.pushPass {queue : BlockDeque α} (conserved : queue.Conserved maxCapacity)
    (producer : Producer α) (pick : ℕ) : (queue.pushPass producer pick).Conserved maxCapacity := by
  rw [BlockDeque.pushPass]
  split_ifs with isFull
  · exact conserved.conds _ _ _ _ _
  · exact (conserved.insert (Bool.not_eq_true _ ▸ isFull) producer).conds _ _ _ _ _

theorem Conserved.giveUp {queue : BlockDeque α} (conserved : queue.Conserved maxCapacity)
    (consumer : Consumer α) : (queue.giveUp consumer).Conserved maxCapacity where
  capacity := conserved.capacity
  size := conserved.size
  serials := conserved.serials
  values := conserved.values
  dropped := conserved.dropped
  handed := by
    refine .trans ?_ conserved.handed
    simp [BlockDeque.giveUp]
  kept call inside failed := by
    rcases List.mem_append.mp inside with old | new
    · exact conserved.kept call old failed
    · rw [List.mem_singleton.mp new]

theorem Conserved.popPass {queue : BlockDeque α} (conserved : queue.Conserved maxCapacity)
    (consumer : Consumer α) (pick : ℕ) : (queue.popPass consumer pick).Conserved maxCapacity := by
  rw [BlockDeque.popPass]
  split
  · exact conserved.conds _ _ _ _ _
  · rename_i front rest queued
    have size := conserved.size
    have serials := conserved.serials
    have values := conserved.values
    have moved : queue.popped ++ [front] ++ queue.dropped.map (·.1) ++ rest ~ queue.places := by
      simp only [places, queued, List.append_assoc, List.singleton_append]
      refine .append_left _ ?_
      exact List.perm_middle.symm
    rw [queued, List.length_cons] at size
    refine ⟨conserved.capacity, Nat.le_of_succ_le size, ?_, ?_, conserved.dropped, ?_, ?_⟩
    · exact (moved.map _).trans serials
    · intro item inside
      exact values item (moved.mem_iff.mp inside)
    · simp only [List.filter_append, List.map_append, conserved.handed]
      rfl
    · intro call inside failed
      rcases List.mem_append.mp inside with old | new
      · exact conserved.kept call old failed
      · rw [List.mem_singleton.mp new] at failed
        cases failed

theorem Conserved.popWoken {queue : BlockDeque α} (conserved : queue.Conserved maxCapacity)
    (consumer : Consumer α) (timedOut : Bool) (pick : ℕ) :
    (queue.popWoken consumer timedOut pick).Conserved maxCapacity := by
  rw [BlockDeque.popWoken]
  split_ifs
  · exact conserved.giveUp consumer
  · exact conserved.giveUp consumer
  · exact conserved.popPass consumer pick

theorem Conserved.clear {queue : BlockDeque α} (conserved : queue.Conserved maxCapacity) :
    queue.clear.Conserved maxCapacity := by
  have moved : queue.clear.places = queue.places := by
    simp [places, BlockDeque.clear, Function.comp_def]
  refine ⟨conserved.capacity, Nat.zero_le _, ?_, ?_, ?_, conserved.handed, conserved.kept⟩
  · rw [moved]
    exact conserved.serials
  · rw [moved]
    exact conserved.values
  · intro entry inside
    rcases List.mem_append.mp inside with old | new
    · exact conserved.dropped entry old
    · obtain ⟨item, queued, rfl⟩ := List.mem_map.mp new
      have found := conserved.values item (List.mem_append_right _ queued)
      exact (List.getElem?_eq_some_iff.mp found).1

theorem Conserved.step {action : Action α} {queue : BlockDeque α}
    (conserved : queue.Conserved maxCapacity) : (queue.step action).Conserved maxCapacity := by
  cases action with
  | pushBack item pick => exact conserved.pushPass _ pick
  | pushFront item pick => exact conserved.pushPass _ pick
  | pop item pick => exact conserved.popPass _ pick
  | popTimed item pick => exact conserved.popPass _ pick
  | wakeProducer how index pick =>
    simp only [BlockDeque.step]
    split
    · exact conserved
    · exact (conserved.conds _ _ _ _ _).pushPass _ pick
  | wakeConsumer how index timedOut pick =>
    simp only [BlockDeque.step]
    split
    · exact conserved
    · exact (conserved.conds _ _ _ _ _).popWoken _ timedOut pick
  | clear => exact conserved.clear
  | close => exact conserved.clear.conds _ _ _ _ _
  | rouseProducer | rouseConsumer | flush | closeProducers | closeConsumers =>
    exact conserved.conds _ _ _ _ _

theorem reachable_conserved {queue : BlockDeque α}
    (reached : (machine α maxCapacity).Reachable queue) : queue.Conserved maxCapacity := by
  apply reached.invariant
  · rintro start rfl
    exact new_conserved maxCapacity
  · rintro source action target conserved ⟨_, rfl⟩
    exact conserved.step

/-! ## What a `pop` does -/

/-- The steps of a `pop`. -/
def Action.pops : Action α → Bool
  | .pop _ _ | .popTimed _ _ | .wakeConsumer _ _ _ _ => true
  | _ => false

/-- What a step of a `pop` does: it hands out the front item and returns true, or it waits or returns
false, and then the deque and the caller's variable stay as they are. -/
inductive Popped (queue target : BlockDeque α) : Prop
  | took (call : Return α) (front : Item α) (queued : queue.deq = front :: target.deq)
      (returned : target.returns = queue.returns ++ [call]) (success : call.success = true)
      (handed : call.after = front.value)
  | waits (same : target.deq = queue.deq) (returned : target.returns = queue.returns)
  | failed (call : Return α) (same : target.deq = queue.deq)
      (returned : target.returns = queue.returns ++ [call]) (failure : call.success = false)
      (kept : call.after = call.before)

theorem popPass_popped (consumer : Consumer α) (pick : ℕ) (queue : BlockDeque α) :
    Popped queue (queue.popPass consumer pick) := by
  rw [popPass]
  split
  · exact .waits rfl rfl
  · rename_i front rest queued
    exact .took _ front queued rfl rfl rfl

theorem popWoken_popped (consumer : Consumer α) (timedOut : Bool) (pick : ℕ)
    (queue : BlockDeque α) : Popped queue (queue.popWoken consumer timedOut pick) := by
  rw [popWoken]
  split_ifs
  · exact .failed _ rfl rfl rfl rfl
  · exact .failed _ rfl rfl rfl rfl
  · exact popPass_popped consumer pick queue

theorem step_popped {action : Action α} (pops : action.pops = true) (queue : BlockDeque α) :
    Popped queue (queue.step action) := by
  cases action with
  | pop item pick => exact popPass_popped _ pick queue
  | popTimed item pick => exact popPass_popped _ pick queue
  | wakeConsumer how index timedOut pick =>
    simp only [step]
    split
    · exact .waits rfl rfl
    · rename_i consumer _
      rcases popWoken_popped consumer timedOut pick
        { queue with condConsumer := queue.condConsumer.resume how index } with
        ⟨call, front, queued, returned, success, handed⟩ | ⟨same, returned⟩ |
          ⟨call, same, returned, failure, kept⟩
      · exact .took call front queued returned success handed
      · exact .waits same returned
      · exact .failed call same returned failure kept
  | pushBack | pushFront | wakeProducer | rouseProducer | rouseConsumer | flush | clear | close |
    closeProducers | closeConsumers => cases pops

/-! ## What a push does -/

/-- The push that gets the lock in a step. -/
def pushing (queue : BlockDeque α) : Action α → Option (Producer α)
  | .pushBack item _ => some ⟨item, false⟩
  | .pushFront item _ => some ⟨item, true⟩
  | .wakeProducer how index _ => (queue.condProducer.woken how)[index]?
  | _ => none

/-- What a push does with the lock: it inserts its item at its end of the deque, or, when the deque is
full, it waits and the deque stays as it is. -/
inductive Pushed (producer : Producer α) (queue target : BlockDeque α) : Prop
  | inserted (item : Item α) (room : queue.full = false)
      (made : item = ⟨queue.pushed.length, producer.item⟩)
      (pushed : target.pushed = queue.pushed ++ [producer.item])
      (placed : target.deq = if producer.front then item :: queue.deq else queue.deq ++ [item])
  | waits (isFull : queue.full = true) (pushed : target.pushed = queue.pushed)
      (same : target.deq = queue.deq)
      (asleep : target.condProducer.asleep = queue.condProducer.asleep ++ [producer])

theorem pushPass_pushed (producer : Producer α) (pick : ℕ) (queue : BlockDeque α) :
    Pushed producer queue (queue.pushPass producer pick) := by
  rw [pushPass]
  split_ifs with isFull
  · exact .waits isFull rfl rfl rfl
  · exact .inserted _ (Bool.eq_false_of_not_eq_true isFull) rfl rfl rfl

theorem step_pushed {action : Action α} {producer : Producer α} {queue : BlockDeque α}
    (found : queue.pushing action = some producer) :
    Pushed producer queue (queue.step action) := by
  cases action with
  | pushBack item pick =>
    cases found
    exact pushPass_pushed _ pick queue
  | pushFront item pick =>
    cases found
    exact pushPass_pushed _ pick queue
  | wakeProducer how index pick =>
    change (queue.condProducer.woken how)[index]? = some producer at found
    simp only [step, found]
    rcases pushPass_pushed producer pick
      { queue with condProducer := queue.condProducer.resume how index } with
      ⟨item, room, made, pushed, placed⟩ | ⟨isFull, pushed, same, asleep⟩
    · exact .inserted item room made pushed placed
    · exact .waits isFull pushed same
        (asleep.trans (congrArg (· ++ [producer]) (asleep_resume how index _)))
  | pop | popTimed | wakeConsumer | rouseProducer | rouseConsumer | flush | clear | close |
    closeProducers | closeConsumers => cases found

/-! ## First in, first out -/

/-- No `push_front`, no `clear` and no `Close`. -/
def PushesBack (_ : BlockDeque α) : Action α → Prop
  | .pushFront _ _ | .clear | .close => False
  | _ => True

structure InOrder (queue : BlockDeque α) : Prop where
  backs : ∀ producer ∈ queue.condProducer.members, producer.front = false
  dropped : queue.dropped = []
  serials : (queue.popped ++ queue.deq).map (·.serial) = List.range queue.pushed.length
  values : (queue.popped ++ queue.deq).map (·.value) = queue.pushed

theorem InOrder.conds {queue : BlockDeque α} (inOrder : queue.InOrder)
    (condConsumer : CondVar (Consumer α)) {condProducer : CondVar (Producer α)}
    (closingProducers closingConsumers : ℕ)
    (backs : ∀ producer ∈ condProducer.members, producer.front = false) :
    InOrder { queue with condConsumer, condProducer, closingProducers, closingConsumers } :=
  ⟨backs, inOrder.dropped, inOrder.serials, inOrder.values⟩

theorem InOrder.pushPass {producer : Producer α} {queue : BlockDeque α} (inOrder : queue.InOrder)
    (back : producer.front = false) (pick : ℕ) : (queue.pushPass producer pick).InOrder := by
  rw [BlockDeque.pushPass]
  split_ifs
  · refine inOrder.conds _ _ _ fun other inside => ?_
    rcases List.mem_cons.mp ((members_wait producer _).mem_iff.mp inside) with rfl | old
    · exact back
    · exact inOrder.backs other old
  · refine ⟨inOrder.backs, inOrder.dropped, ?_, ?_⟩
    · simp only [insert, back, Bool.false_eq_true, if_false, ← List.append_assoc, List.map_append,
        List.length_append, List.length_singleton, List.range_succ, List.map_cons, List.map_nil]
      rw [← List.map_append, inOrder.serials]
    · simp only [insert, back, Bool.false_eq_true, if_false, ← List.append_assoc, List.map_append,
        List.map_cons, List.map_nil]
      rw [← List.map_append, inOrder.values]

theorem InOrder.popPass {queue : BlockDeque α} (inOrder : queue.InOrder) (consumer : Consumer α)
    (pick : ℕ) : (queue.popPass consumer pick).InOrder := by
  rw [BlockDeque.popPass]
  split
  · exact inOrder.conds _ _ _ inOrder.backs
  · rename_i front rest queued
    have serials := inOrder.serials
    have values := inOrder.values
    rw [queued, List.append_cons] at serials values
    refine ⟨fun other inside => ?_, inOrder.dropped, serials, values⟩
    exact inOrder.backs other ((members_notifyOne pick _).mem_iff.mp inside)

theorem InOrder.popWoken {queue : BlockDeque α} (inOrder : queue.InOrder) (consumer : Consumer α)
    (timedOut : Bool) (pick : ℕ) : (queue.popWoken consumer timedOut pick).InOrder := by
  rw [BlockDeque.popWoken]
  split_ifs
  · exact ⟨inOrder.backs, inOrder.dropped, inOrder.serials, inOrder.values⟩
  · exact ⟨inOrder.backs, inOrder.dropped, inOrder.serials, inOrder.values⟩
  · exact inOrder.popPass consumer pick

theorem InOrder.step {action : Action α} {queue : BlockDeque α} (inOrder : queue.InOrder)
    (back : queue.PushesBack action) : (queue.step action).InOrder := by
  cases action with
  | pushBack item pick => exact inOrder.pushPass rfl pick
  | pushFront | clear | close => exact back.elim
  | pop item pick => exact inOrder.popPass _ pick
  | popTimed item pick => exact inOrder.popPass _ pick
  | wakeProducer how index pick =>
    simp only [BlockDeque.step]
    split
    · exact inOrder
    · rename_i producer found
      have split := members_resume found
      refine (inOrder.conds _ _ _ fun other inside => ?_).pushPass ?_ pick
      · exact inOrder.backs other (split.mem_iff.mpr (List.mem_cons_of_mem _ inside))
      · exact inOrder.backs producer (split.mem_iff.mpr List.mem_cons_self)
  | wakeConsumer how index timedOut pick =>
    simp only [BlockDeque.step]
    split
    · exact inOrder
    · exact (inOrder.conds _ _ _ inOrder.backs).popWoken _ timedOut pick
  | rouseProducer index =>
    refine inOrder.conds _ _ _ fun other inside => ?_
    exact inOrder.backs other ((members_rouse index _).mem_iff.mp inside)
  | closeProducers =>
    refine inOrder.conds _ _ _ fun other inside => ?_
    exact inOrder.backs other ((members_notifyAll _).mem_iff.mp inside)
  | rouseConsumer | flush | closeConsumers => exact inOrder.conds _ _ _ inOrder.backs

theorem reachable_inOrder {queue : BlockDeque α}
    (reached : ((machine α maxCapacity).restrict PushesBack).Reachable queue) : queue.InOrder := by
  apply reached.invariant
  · rintro start rfl
    refine ⟨fun producer inside => ?_, rfl, rfl, rfl⟩
    cases inside
  · rintro source action target inOrder ⟨⟨_, rfl⟩, back⟩
    exact inOrder.step back

/-! ## Every run -/

/-- In every reachable state the deque is within its capacity and every item pushed is in one place,
once and with its value; what was dropped had been pushed before; what `pop`s returned is what was
handed out. Without `push_front`, `clear` and `Close` the items handed out and then those in the deque
are those pushed, in order. A `pop` that returns false changes neither the deque nor its caller's
variable; a push that gets the lock inserts its item or, when the deque is full, waits. -/
theorem loses_nothing {queue : BlockDeque α} (reached : (machine α maxCapacity).Reachable queue) :
    queue.deq.length ≤ maxCapacity ∧
      (queue.places.map (·.serial)).Perm (List.range queue.pushed.length) ∧
      (∀ item ∈ queue.places, queue.pushed[item.serial]? = some item.value) ∧
      (∀ entry ∈ queue.dropped, entry.1.serial < entry.2) ∧
      (queue.returns.filter (·.success)).map (·.after) = queue.popped.map (·.value) ∧
      (((machine α maxCapacity).restrict PushesBack).Reachable queue →
        (queue.popped ++ queue.deq).map (·.serial) = List.range queue.pushed.length ∧
          (queue.popped ++ queue.deq).map (·.value) = queue.pushed) ∧
      (∀ call ∈ queue.returns, call.success = false → call.after = call.before) ∧
      (∀ action target, action.pops = true → (machine α maxCapacity).Step queue action target →
        Popped queue target) ∧
      ∀ action target producer, (machine α maxCapacity).Step queue action target →
        queue.pushing action = some producer → Pushed producer queue target := by
  have conserved := reachable_conserved reached
  refine ⟨conserved.size, conserved.serials, conserved.values, conserved.dropped, conserved.handed,
    ?_, conserved.kept, ?_, ?_⟩
  · intro back
    have inOrder := reachable_inOrder back
    exact ⟨inOrder.serials, inOrder.values⟩
  · rintro action target pops ⟨_, rfl⟩
    exact step_popped pops queue
  · rintro action target producer ⟨_, rfl⟩ found
    exact step_pushed found

/-- Two items pushed into a deque of capacity one, the second by a producer that waited. -/
private def passedOn : BlockDeque ℕ :=
  List.foldl step (new ℕ 1)
    [.pushBack 7 0, .pushBack 8 0, .pop 0 0, .wakeProducer .notified 0 0, .popTimed 0 0]

private theorem passedOn_along : Along step Admits (new ℕ 1)
    [.pushBack 7 0, .pushBack 8 0, .pop 0 0, .wakeProducer .notified 0 0, .popTimed 0 0] := by
  decide +kernel

private theorem passedOn_reachable : (machine ℕ 1).Reachable passedOn :=
  .run passedOn_along (fun _ _ admits => ⟨admits, rfl⟩) (.init rfl)

theorem loses_nothing_passedOn : passedOn.pushed = [7, 8] ∧ passedOn.popped.map (·.value) = [7, 8] ∧
    (passedOn.places.map (·.serial)).Perm (List.range passedOn.pushed.length) := by
  refine ⟨by decide +kernel, by decide +kernel, ?_⟩
  exact (loses_nothing passedOn_reachable).2.1

end BlockDeque

end XWebServer
