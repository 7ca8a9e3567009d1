import XWebServer.Log.LogOrder
import XWebServer.Log.Rotation

/-! # A full deque blocks nobody

The answer of `full()` is acted on inside the critical section of `mtx_` it was asked in. Only the holder
of `mtx_` pushes, and the flush thread only makes room, so a deque that was not full still is not when the
line is pushed. Nobody ever waits in `push_back`, and whoever holds `mtx_` can go on and give it up.
-/

namespace XWebServer

open Transition System CondVar

namespace BlockDeque

variable {α : Type}

theorem condProducer_popPass {queue : BlockDeque α} (nobody : queue.condProducer = .empty)
    (consumer : Consumer α) (pick : ℕ) : (queue.popPass consumer pick).condProducer = .empty := by
  rw [popPass]
  split
  · exact nobody
  · dsimp only
    rw [nobody]
    exact notifyOne_of_awake rfl pick

theorem condProducer_wakeConsumer {queue : BlockDeque α} (nobody : queue.condProducer = .empty)
    (how : Woken) (index pick : ℕ) :
    (queue.step (.wakeConsumer how index false pick)).condProducer = .empty := by
  simp only [step]
  split
  · exact nobody
  · rw [popWoken, Bool.and_false, if_neg Bool.false_ne_true]
    split_ifs
    · exact nobody
    · apply condProducer_popPass
      exact nobody

theorem condProducer_pushBack {queue : BlockDeque α} (room : queue.full = false) (item : α)
    (pick : ℕ) : (queue.pushBack item pick).condProducer = queue.condProducer := by
  simp only [pushBack, pushPass, room, Bool.false_eq_true, if_false, insert]

end BlockDeque

namespace Logger

variable {isAsync : Bool} {maxCapacity : ℕ} {date : Date}

/-! ## Who holds `mtx_` -/

/-- The threads at a position that holds `mtx_` are its holder. -/
def Held (threads : ℕ → Position) (mtx : Option Owner) : Prop :=
  ∀ id, (threads id).holds = true ↔ mtx = some (.thread id)

theorem Held.keep {threads : ℕ → Position} {mtx : Option Owner} (held : Held threads mtx) {id : ℕ}
    {position : Position} (same : position.holds = (threads id).holds) :
    Held (Function.update threads id position) mtx := by
  intro other
  rcases eq_or_ne other id with rfl | ne
  · rw [Function.update_self, same, held]
  · rw [Function.update_of_ne ne, held]

theorem Held.take {threads : ℕ → Position} (held : Held threads none) {id : ℕ} {position : Position}
    (holds : position.holds = true) :
    Held (Function.update threads id position) (some (.thread id)) := by
  intro other
  rcases eq_or_ne other id with rfl | ne
  · rw [Function.update_self]
    exact iff_of_true holds rfl
  · rw [Function.update_of_ne ne, held other]
    exact iff_of_false (by simp) (by simpa using ne.symm)

theorem Held.give {threads : ℕ → Position} {mtx : Option Owner} (held : Held threads mtx) {id : ℕ}
    {position : Position} (holder : (threads id).holds = true) (gives : position.holds = false) :
    Held (Function.update threads id position) none := by
  intro other
  rcases eq_or_ne other id with rfl | ne
  · rw [Function.update_self, gives]
    simp
  · rw [Function.update_of_ne ne, held other, (held id).mp holder]
    simpa using ne.symm

/-- The flush thread takes `mtx_` or gives it up. -/
theorem Held.flusher {threads : ℕ → Position} {mtx mtx' : Option Owner} (held : Held threads mtx)
    (before : ∀ id, mtx ≠ some (.thread id)) (after : ∀ id, mtx' ≠ some (.thread id)) :
    Held threads mtx' :=
  fun id => (held id).trans (iff_of_false (before id) (after id))

/-! ## The invariant -/

structure Roomy (log : Logger) : Prop where
  held : Held log.threads log.mtx
  flusher : log.flusher = .holding ↔ log.mtx = some .flusher
  isOpen : log.deque.isClose = false
  producers : log.deque.condProducer = .empty
  room : ∀ id line, log.threads id = .passing line false → log.deque.full = false
  awake : ∀ id line, log.threads id ≠ .waiting line

theorem start_roomy : (start isAsync maxCapacity date).Roomy where
  held id := by simp [start, Position.holds]
  flusher := by simp [start]
  isOpen := rfl
  producers := rfl
  room id line stage := by cases stage
  awake id line stage := by cases stage

/-- Only the holder is at the end of its section. -/
theorem Roomy.holder {log : Logger} (roomy : log.Roomy) {id other : ℕ} {line : LogLine} {direct : Bool}
    (stage : log.threads id = .passing line direct) (holds : (log.threads other).holds = true) :
    other = id := by
  have first := (roomy.held id).mp (by rw [stage]; rfl)
  have second := (roomy.held other).mp holds
  rw [first] at second
  cases second
  rfl

/-- With a thread in its section the flush thread is not in one. -/
theorem Roomy.notFlusher {log : Logger} (roomy : log.Roomy) {id : ℕ}
    (holds : (log.threads id).holds = true) : log.flusher ≠ .holding := by
  intro holding
  have owner := roomy.flusher.mp holding
  rw [(roomy.held id).mp holds] at owner
  cases owner

/-- The thread that moves is at its new position, and the others are where they were. -/
theorem position_put {id other : ℕ} {position found : Position} {log : Logger}
    (stage : (log.put id position).threads other = found) :
    (other = id ∧ position = found) ∨ (other ≠ id ∧ log.threads other = found) := by
  change Function.update log.threads id position other = found at stage
  rcases eq_or_ne other id with rfl | ne
  · rw [Function.update_self] at stage
    exact Or.inl ⟨rfl, stage⟩
  · rw [Function.update_of_ne ne] at stage
    exact Or.inr ⟨ne, stage⟩

/-- A thread moves to a position that does not push. -/
theorem Roomy.put {log : Logger} (roomy : log.Roomy) {id : ℕ} {position : Position}
    {mtx : Option Owner} (held : Held (Function.update log.threads id position) mtx)
    (flusher : log.flusher = .holding ↔ mtx = some .flusher)
    (notPassing : ∀ line, position ≠ .passing line false) (notWaiting : ∀ line, position ≠ .waiting line) :
    ({ log with mtx := mtx }.put id position).Roomy where
  held := held
  flusher := flusher
  isOpen := roomy.isOpen
  producers := roomy.producers
  room other line stage := by
    rcases position_put stage with ⟨_, same⟩ | ⟨_, stage⟩
    · exact absurd same (notPassing line)
    · exact roomy.room other line stage
  awake other line stage := by
    rcases position_put stage with ⟨_, same⟩ | ⟨_, stage⟩
    · exact notWaiting line same
    · exact roomy.awake other line stage

/-- It goes on without `mtx_`. -/
theorem Roomy.put_free {log : Logger} (roomy : log.Roomy) {id : ℕ} {position : Position}
    (before : (log.threads id).holds = false) (after : position.holds = false) :
    (log.put id position).Roomy := by
  apply roomy.put (roomy.held.keep (after.trans before.symm)) roomy.flusher
  · rintro line rfl
    cases after
  · rintro line rfl
    cases after

/-- What happens outside the invariant's fields. -/
theorem Roomy.congr {log other : Logger} (roomy : log.Roomy) (threads : other.threads = log.threads)
    (mtx : other.mtx = log.mtx) (flusher : other.flusher = log.flusher)
    (deque : other.deque = log.deque) : other.Roomy where
  held := by rw [threads, mtx]; exact roomy.held
  flusher := by rw [flusher, mtx]; exact roomy.flusher
  isOpen := by rw [deque]; exact roomy.isOpen
  producers := by rw [deque]; exact roomy.producers
  room id line stage := by rw [deque]; exact roomy.room id line (threads ▸ stage)
  awake id line stage := roomy.awake id line (threads ▸ stage)

/-- The deque changes, but stays open, without waiting producers, and with room where it had some. -/
theorem Roomy.withDeque {log : Logger} (roomy : log.Roomy) {deque : BlockDeque LogLine}
    (isOpen : deque.isClose = log.deque.isClose) (producers : deque.condProducer = .empty)
    (room : log.deque.full = false → deque.full = false) : { log with deque }.Roomy where
  held := roomy.held
  flusher := roomy.flusher
  isOpen := isOpen.trans roomy.isOpen
  producers := producers
  room id line stage := room (roomy.room id line stage)
  awake := roomy.awake

/-- `flush` wakes the flush thread at most. -/
theorem flush_eq (log : Logger) (pick : ℕ) :
    ∃ deque, log.flush pick = { log with deque } ∧ deque.deq = log.deque.deq ∧
      deque.isClose = log.deque.isClose ∧ deque.condProducer = log.deque.condProducer ∧
      deque.full = log.deque.full := by
  rw [flush]
  split_ifs
  · exact ⟨_, rfl, rfl, rfl, rfl, rfl⟩
  · exact ⟨log.deque, rfl, rfl, rfl, rfl, rfl⟩

theorem Roomy.flush {log : Logger} (roomy : log.Roomy) (pick : ℕ) : (log.flush pick).Roomy := by
  obtain ⟨deque, flushed, _, isOpen, producers, full⟩ := log.flush_eq pick
  rw [flushed]
  exact roomy.withDeque isOpen (producers.trans roomy.producers) full.trans

theorem Roomy.reopen {log : Logger} (roomy : log.Roomy) {id pick : ℕ} {call : LogCall} {newFile : Bytes}
    (stage : log.threads id = .closing call newFile) : (log.reopen id call newFile pick).Roomy := by
  have holder : (log.threads id).holds = true := by
    rw [stage]
    rfl
  obtain ⟨deque, flushed, _, isOpen, producers, full⟩ := log.flush_eq pick
  have quiet := roomy.withDeque isOpen (producers.trans roomy.producers) full.trans
  have held : Held (Function.update log.threads id (.entering call)) none := roomy.held.give holder rfl
  have moved := quiet.put held (iff_of_false (roomy.notFlusher holder) (by simp)) (by simp) (by simp)
  rw [Logger.reopen, flushed]
  exact moved.congr rfl rfl rfl rfl

theorem Roomy.enter {log : Logger} (roomy : log.Roomy) {id : ℕ} {call : LogCall}
    (free : log.mtx = none) : (log.enter id call).Roomy where
  held := (free ▸ roomy.held).take rfl
  flusher := roomy.flusher.trans (by rw [free]; simp [Logger.enter, Logger.put])
  isOpen := roomy.isOpen
  producers := roomy.producers
  room other line stage := by
    rcases position_put stage with ⟨_, same⟩ | ⟨_, stage⟩
    · cases asked : log.deque.full with
      | false => exact asked
      | true =>
        rw [Position.passing.injEq, asked] at same
        simp at same
    · exact roomy.room other line stage
  awake other line stage := by
    rcases position_put stage with ⟨_, same⟩ | ⟨_, stage⟩
    · cases same
    · exact roomy.awake other line stage

theorem Roomy.pass {log : Logger} (roomy : log.Roomy) {id pick : ℕ} {line : LogLine} {direct : Bool}
    (stage : log.threads id = .passing line direct) : (log.pass id line direct pick).Roomy := by
  have holder : (log.threads id).holds = true := by
    rw [stage]
    rfl
  have notFlusher := roomy.notFlusher holder
  have held : Held (Function.update log.threads id .idle) none := roomy.held.give holder rfl
  have left := roomy.put held (iff_of_false notFlusher (by simp)) (by simp) (by simp)
  cases direct with
  | true => exact left.congr rfl rfl rfl rfl
  | false =>
    have room := roomy.room id line stage
    have isOpen := BlockDeque.isClose_pushBack room line pick
    have producers := BlockDeque.condProducer_pushBack room line pick
    rw [Logger.pass, if_neg Bool.false_ne_true, pushed, if_neg (by rw [room]; decide)]
    refine ⟨left.held, left.flusher, isOpen.trans roomy.isOpen, producers.trans roomy.producers, ?_,
      left.awake⟩
    intro other found passing
    rcases position_put passing with ⟨_, same⟩ | ⟨ne, passing⟩
    · cases same
    · have holds : (log.threads other).holds = true := by
        rw [show log.threads other = .passing found false from passing]
        rfl
      exact absurd (roomy.holder stage holds) ne

/-- A pop, or the end of the wait in one. -/
theorem Roomy.popped {log : Logger} (roomy : log.Roomy) {deque : BlockDeque LogLine}
    (passed : BlockDeque.PassedOn log.deque deque) (producers : deque.condProducer = .empty)
    (away : log.flusher ≠ .holding) : (log.popped deque).Roomy := by
  have changed := roomy.withDeque passed.isClose producers passed.full
  have free : log.mtx ≠ some .flusher := fun owner => away (roomy.flusher.mpr owner)
  rw [Logger.popped]
  split
  · exact ⟨changed.held, iff_of_false (by simp) free, changed.isOpen, changed.producers, changed.room,
      changed.awake⟩
  · exact ⟨changed.held, iff_of_false (by simp) free, changed.isOpen, changed.producers, changed.room,
      changed.awake⟩

theorem Roomy.lock {log : Logger} (roomy : log.Roomy) (free : log.mtx = none) :
    { log with mtx := some .flusher, flusher := .holding }.Roomy where
  held := roomy.held.flusher (by simp [free]) (by simp)
  flusher := iff_of_true rfl rfl
  isOpen := roomy.isOpen
  producers := roomy.producers
  room := roomy.room
  awake := roomy.awake

theorem Roomy.writeOut {log : Logger} (roomy : log.Roomy) (holding : log.flusher = .holding) :
    log.writeOut.Roomy where
  held := roomy.held.flusher (by simp [roomy.flusher.mp holding]) (by simp [Logger.writeOut])
  flusher := iff_of_false (by simp [Logger.writeOut]) (by simp [Logger.writeOut])
  isOpen := roomy.isOpen
  producers := roomy.producers
  room := roomy.room
  awake := roomy.awake

theorem Roomy.begin {log : Logger} (roomy : log.Roomy) {id : ℕ} {call : LogCall}
    (stage : log.threads id = .idle) : (log.begin id call).Roomy := by
  have moved : ({ log with latest := call.time.toDate } : Logger).Roomy := roomy.congr rfl rfl rfl rfl
  apply moved.put_free
  · change (log.threads id).holds = false
    rw [stage]
    rfl
  · rfl

theorem Roomy.name {log : Logger} (roomy : log.Roomy) {id : ℕ} {call : LogCall}
    (stage : log.threads id = .naming call) : (log.name id call).Roomy := by
  have before : (log.threads id).holds = false := by
    rw [stage]
    rfl
  rw [Logger.name]
  split_ifs
  · have moved : ({ log with toDay := call.time.mday, lineCount := 0 } : Logger).Roomy :=
      roomy.congr rfl rfl rfl rfl
    exact moved.put_free before rfl
  · exact roomy.put_free before rfl

/-- What every step keeps. -/
theorem Roomy.move {log next : Logger} {action : Action} (roomy : log.Roomy)
    (moves : log.Moves action next) : next.Roomy := by
  cases moves with
  | call stage => exact roomy.begin stage
  | check stage =>
    rw [Logger.check]
    split_ifs
    · exact roomy.put_free (by rw [stage]; rfl) rfl
    · exact roomy.put_free (by rw [stage]; rfl) rfl
  | touch stage => exact roomy.put_free (by rw [stage]; rfl) rfl
  | name stage => exact roomy.name stage
  | relock stage free =>
    apply roomy.put ((free ▸ roomy.held).take rfl)
    · exact roomy.flusher.trans (by rw [free]; simp)
    · simp
    · simp
  | reopen stage => exact roomy.reopen stage
  | enter stage free => exact roomy.enter free
  | pass stage => exact roomy.pass stage
  | resume stage => exact absurd stage (roomy.awake _ _)
  | pop _ idle =>
    apply roomy.popped (BlockDeque.popPass_passedOn _ _ _)
    · exact BlockDeque.condProducer_popPass roomy.producers _ _
    · rw [idle]
      decide
  | wake waits admits =>
    apply roomy.popped (BlockDeque.wakeConsumer_passedOn roomy.isOpen admits)
    · exact BlockDeque.condProducer_wakeConsumer roomy.producers _ _ _
    · rw [waits]
      decide
  | rouseProducer =>
    refine roomy.withDeque rfl ?_ id
    change log.deque.condProducer.rouse _ = _
    rw [roomy.producers]
    exact rouse_of_awake rfl _
  | rouseConsumer => exact roomy.withDeque rfl roomy.producers id
  | lock waits free => exact roomy.lock free
  | writeOut holding => exact roomy.writeOut holding
  | flush => exact roomy.flush _

theorem roomy_of_reachable {log : Logger}
    (reached : (machine isAsync maxCapacity date).Reachable log) : log.Roomy := by
  apply Reachable.invariant _ _ reached
  · rintro _ rfl
    exact start_roomy
  · rintro source action _ roomy ⟨admits, rfl⟩
    exact roomy.move (moves_of_admits admits)

/-! ## No deadlock -/

/-- No thread ever waits in `push_back`, where it would hold `mtx_`. So the flush thread never waits for
`mtx_` with a line in hand while the holder waits for it to make room, and whoever holds `mtx_` can take
a step that gives it up. -/
theorem no_deadlock {log : Logger} (reached : (machine isAsync maxCapacity date).Reachable log) :
    (∀ id line, log.threads id ≠ .waiting line) ∧ log.deque.condProducer.asleep = [] ∧
    (¬ (log.flusher = .writing ∧ ∃ id line, log.mtx = some (.thread id) ∧
      log.threads id = .waiting line)) ∧
    ∀ owner, log.mtx = some owner → ∃ action, log.Admits action ∧ (log.step action).mtx = none := by
  have roomy := roomy_of_reachable reached
  refine ⟨roomy.awake, by rw [roomy.producers]; rfl, ?_, ?_⟩
  · rintro ⟨_, id, line, _, stage⟩
    exact roomy.awake id line stage
  · intro owner owns
    cases owner with
    | flusher =>
      have holding := roomy.flusher.mpr owns
      exact ⟨.writeOut, holding, rfl⟩
    | thread id =>
      have holds := (roomy.held id).mpr owns
      cases stage : log.threads id with
      | closing call newFile =>
        refine ⟨.reopen id 0, ?_, ?_⟩
        · simp only [Admits, stage]
          exact picks_zero _
        · simp only [step, stage]
          rfl
      | passing line direct =>
        refine ⟨.pass id 0, ?_, ?_⟩
        · simp only [Admits, stage]
          exact picks_zero _
        · simp only [step, stage]
          cases direct with
          | true => rfl
          | false =>
            rw [Logger.pass, if_neg Bool.false_ne_true, pushed,
              if_neg (by rw [roomy.room id line stage]; decide)]
            rfl
      | waiting line => exact absurd stage (roomy.awake id line)
      | idle | called | rotating | naming | reopening | entering =>
        rw [stage] at holds
        cases holds

/-- A thread logs a line, which the flush thread pops, and another thread is about to push. -/
def busyRun : List Action :=
  [.call 0 LogBuffer.shortCall, .check 0, .enter 0, .pass 0 0, .pop 0,
    .call 1 LogBuffer.shortCall, .check 1, .enter 1]

theorem busyRun_reachable :
    (machine true 1 .february).Reachable (busyRun.foldl step (start true 1 .february)) := by
  have along : Along step Admits (start true 1 .february) busyRun :=
    ⟨trivial, trivial, rfl, picks_zero _, ⟨rfl, rfl, picks_zero _⟩, trivial, trivial, rfl, trivial⟩
  exact .run along (fun _ _ admits => ⟨admits, rfl⟩) (.init rfl)

/-- The flush thread has a line in hand and waits for `mtx_`, which the other thread holds, and that thread
can go on. -/
theorem no_deadlock_busy :
    (busyRun.foldl step (start true 1 .february)).flusher = .writing ∧
    (busyRun.foldl step (start true 1 .february)).mtx = some (.thread 1) ∧
    ∃ action, (busyRun.foldl step (start true 1 .february)).Admits action ∧
      ((busyRun.foldl step (start true 1 .february)).step action).mtx = none :=
  ⟨rfl, rfl, (no_deadlock busyRun_reachable).2.2.2 (.thread 1) rfl⟩

end Logger

end XWebServer
