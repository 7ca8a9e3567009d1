import XWebServer.Basic
import XWebServer.Lib.CondVar
import XWebServer.Lib.Transition

/-! # The class `BlockDeque`

A bounded deque under one mutex. What a thread does between taking the lock and giving it up, by
returning or by waiting, is one step; so are a spurious wake-up and each `notify_all` of `Close`,
which come after its critical section. A call that waits is an entry of a condition variable, with
what it needs when it has the lock again. Any number of calls may be under way.

The serial numbers of the items and the fields from `pushed` on are records: what was pushed in the
order of the lock, handed to a `pop`, dropped (with the number of pushes before), and returned by
`pop`. No step depends on them.
-/

namespace XWebServer

open Transition System CondVar

/-- An item in the deque; `serial` counts the items pushed before it. -/
structure Item (α : Type) where
  serial : ℕ
  value : α
deriving DecidableEq, Repr

/-- A call of `push_front` or `push_back`. -/
structure Producer (α : Type) where
  item : α
  front : Bool

/-- A call of one of the two `pop`s; `item` is what the caller's variable holds. -/
structure Consumer (α : Type) where
  item : α
  timed : Bool

/-- A `pop` that has returned, with the caller's variable before and after. -/
structure Return (α : Type) where
  before : α
  after : α
  success : Bool

structure BlockDeque (α : Type) where
  deq : List (Item α)
  capacity : ℕ
  isClose : Bool
  condConsumer : CondVar (Consumer α)
  condProducer : CondVar (Producer α)
  /-- the calls of `Close` before their `notify_all` on `condProducer` -/
  closingProducers : ℕ
  /-- the calls of `Close` between their two `notify_all`s -/
  closingConsumers : ℕ
  pushed : List α
  popped : List (Item α)
  dropped : List (Item α × ℕ)
  returns : List (Return α)

namespace BlockDeque

variable {α : Type}

/-- The constructor. -/
def new (α : Type) (maxCapacity : ℕ) : BlockDeque α where
  deq := []
  capacity := maxCapacity
  isClose := false
  condConsumer := .empty
  condProducer := .empty
  closingProducers := 0
  closingConsumers := 0
  pushed := []
  popped := []
  dropped := []
  returns := []

def full (queue : BlockDeque α) : Bool := queue.capacity ≤ queue.deq.length

/-! ## Producers -/

def insert (producer : Producer α) (queue : BlockDeque α) : BlockDeque α :=
  let item : Item α := ⟨queue.pushed.length, producer.item⟩
  { queue with
    deq := if producer.front then item :: queue.deq else queue.deq ++ [item]
    pushed := queue.pushed ++ [producer.item] }

theorem length_insert (producer : Producer α) (queue : BlockDeque α) :
    (queue.insert producer).deq.length = queue.deq.length + 1 := by
  obtain ⟨item, front⟩ := producer
  cases front with
  | false => exact List.length_append
  | true => rfl

/-- A pass through the loop of a push: it waits, or it inserts its item and returns. -/
def pushPass (producer : Producer α) (pick : ℕ) (queue : BlockDeque α) : BlockDeque α :=
  if queue.full then { queue with condProducer := queue.condProducer.wait producer }
  else { queue.insert producer with condConsumer := queue.condConsumer.notifyOne pick }

def pushBack (item : α) : ℕ → BlockDeque α → BlockDeque α := pushPass ⟨item, false⟩

def pushFront (item : α) : ℕ → BlockDeque α → BlockDeque α := pushPass ⟨item, true⟩

/-! ## Consumers -/

/-- A pass through the loop of a `pop`: it waits, or it takes the front item and returns true. -/
def popPass (consumer : Consumer α) (pick : ℕ) (queue : BlockDeque α) : BlockDeque α :=
  match queue.deq with
  | [] => { queue with condConsumer := queue.condConsumer.wait consumer }
  | front :: rest => { queue with
      deq := rest
      condProducer := queue.condProducer.notifyOne pick
      popped := queue.popped ++ [front]
      returns := queue.returns ++ [⟨consumer.item, front.value, true⟩] }

/-- A `pop` returns false. -/
def giveUp (consumer : Consumer α) (queue : BlockDeque α) : BlockDeque α :=
  { queue with returns := queue.returns ++ [⟨consumer.item, consumer.item, false⟩] }

/-- A `pop` after its wait. A timed wait may report a timeout whatever ended it. -/
def popWoken (consumer : Consumer α) (timedOut : Bool) (pick : ℕ) (queue : BlockDeque α) :
    BlockDeque α :=
  if consumer.timed && timedOut then queue.giveUp consumer
  else if queue.isClose then queue.giveUp consumer
  else queue.popPass consumer pick

def pop (item : α) : ℕ → BlockDeque α → BlockDeque α := popPass ⟨item, false⟩

/-- The `pop` with a timeout. -/
def popTimed (item : α) : ℕ → BlockDeque α → BlockDeque α := popPass ⟨item, true⟩

/-! ## The other operations -/

def flush (pick : ℕ) (queue : BlockDeque α) : BlockDeque α :=
  { queue with condConsumer := queue.condConsumer.notifyOne pick }

def clear (queue : BlockDeque α) : BlockDeque α :=
  { queue with
    deq := []
    dropped := queue.dropped ++ queue.deq.map fun item => (item, queue.pushed.length) }

/-- The critical section of `Close`. -/
def close (queue : BlockDeque α) : BlockDeque α :=
  { queue.clear with isClose := true, closingProducers := queue.closingProducers + 1 }

def closeProducers (queue : BlockDeque α) : BlockDeque α :=
  { queue with
    condProducer := queue.condProducer.notifyAll
    closingProducers := queue.closingProducers - 1
    closingConsumers := queue.closingConsumers + 1 }

def closeConsumers (queue : BlockDeque α) : BlockDeque α :=
  { queue with
    condConsumer := queue.condConsumer.notifyAll
    closingConsumers := queue.closingConsumers - 1 }

/-! ## The machine -/

/-- Each `pick` is the position of the sleeper that a `notify_one` of the step wakes. -/
inductive Action (α : Type) where
  | pushBack (item : α) (pick : ℕ)
  | pushFront (item : α) (pick : ℕ)
  | pop (item : α) (pick : ℕ)
  | popTimed (item : α) (pick : ℕ)
  | wakeProducer (how : Woken) (index pick : ℕ)
  | wakeConsumer (how : Woken) (index : ℕ) (timedOut : Bool) (pick : ℕ)
  | rouseProducer (index : ℕ)
  | rouseConsumer (index : ℕ)
  | flush (pick : ℕ)
  | clear
  | close
  | closeProducers
  | closeConsumers

def Admits (queue : BlockDeque α) : Action α → Prop
  | .pushBack _ pick | .pushFront _ pick | .flush pick => queue.condConsumer.Picks pick
  | .pop _ pick | .popTimed _ pick => queue.condProducer.Picks pick
  | .wakeProducer how index pick =>
      index < (queue.condProducer.woken how).length ∧ queue.condConsumer.Picks pick
  | .wakeConsumer how index _ pick =>
      index < (queue.condConsumer.woken how).length ∧ queue.condProducer.Picks pick
  | .rouseProducer index => index < queue.condProducer.asleep.length
  | .rouseConsumer index => index < queue.condConsumer.asleep.length
  | .clear | .close => True
  | .closeProducers => 0 < queue.closingProducers
  | .closeConsumers => 0 < queue.closingConsumers

instance (queue : BlockDeque α) (action : Action α) : Decidable (queue.Admits action) :=
  match action with
  | .pushBack _ pick | .pushFront _ pick | .flush pick =>
      inferInstanceAs (Decidable (queue.condConsumer.Picks pick))
  | .pop _ pick | .popTimed _ pick => inferInstanceAs (Decidable (queue.condProducer.Picks pick))
  | .wakeProducer how index pick =>
      inferInstanceAs (Decidable
        (index < (queue.condProducer.woken how).length ∧ queue.condConsumer.Picks pick))
  | .wakeConsumer how index _ pick =>
      inferInstanceAs (Decidable
        (index < (queue.condConsumer.woken how).length ∧ queue.condProducer.Picks pick))
  | .rouseProducer index => inferInstanceAs (Decidable (index < queue.condProducer.asleep.length))
  | .rouseConsumer index => inferInstanceAs (Decidable (index < queue.condConsumer.asleep.length))
  | .clear | .close => .isTrue trivial
  | .closeProducers => inferInstanceAs (Decidable (0 < queue.closingProducers))
  | .closeConsumers => inferInstanceAs (Decidable (0 < queue.closingConsumers))

def step (queue : BlockDeque α) : Action α → BlockDeque α
  | .pushBack item pick => queue.pushBack item pick
  | .pushFront item pick => queue.pushFront item pick
  | .pop item pick => queue.pop item pick
  | .popTimed item pick => queue.popTimed item pick
  | .wakeProducer how index pick =>
      match (queue.condProducer.woken how)[index]? with
      | none => queue
      | some producer =>
          pushPass producer pick { queue with condProducer := queue.condProducer.resume how index }
  | .wakeConsumer how index timedOut pick =>
      match (queue.condConsumer.woken how)[index]? with
      | none => queue
      | some consumer => popWoken consumer timedOut pick
          { queue with condConsumer := queue.condConsumer.resume how index }
  | .rouseProducer index => { queue with condProducer := queue.condProducer.rouse index }
  | .rouseConsumer index => { queue with condConsumer := queue.condConsumer.rouse index }
  | .flush pick => queue.flush pick
  | .clear => queue.clear
  | .close => queue.close
  | .closeProducers => queue.closeProducers
  | .closeConsumers => queue.closeConsumers

def machine (α : Type) (maxCapacity : ℕ) : System (BlockDeque α) (Action α) where
  Init queue := queue = new α maxCapacity
  Step source action target := source.Admits action ∧ source.step action = target

/-- A run from the constructor whose steps are admitted and pass a guard. -/
theorem reachable_run {guard : BlockDeque α → Action α → Prop} {maxCapacity : ℕ}
    {actions : List (Action α)}
    (along : Along step (fun queue action => queue.Admits action ∧ guard queue action)
      (new α maxCapacity) actions) :
    ((machine α maxCapacity).restrict guard).Reachable (actions.foldl step (new α maxCapacity)) :=
  .run along (fun _ _ passes => ⟨⟨passes.1, rfl⟩, passes.2⟩) (.init rfl)

end BlockDeque

end XWebServer
