import XWebServer.Log.Log

/-! # The order of the lines

A line goes through the deque, or straight to the file when `write` found the deque full. `Ordered`
says that the lines in the file, on their way there and in the deque are those of the critical
sections, and that the only lines out of order are the direct ones, which come before lines that were
still in the deque or with the flush thread.
-/

namespace XWebServer

open Transition System CondVar
open scoped List

/-- In order, or a line that went straight to the file before one that went through the deque. -/
def Line.Before (first second : Line) : Prop :=
  first.serial < second.serial ∨ (first.direct = true ∧ second.direct = false)

namespace BlockDeque

variable {α : Type}

theorem deq_pushBack {queue : BlockDeque α} (room : queue.full = false) (item : α) (pick : ℕ) :
    (queue.pushBack item pick).deq = queue.deq ++ [⟨queue.pushed.length, item⟩] := by
  simp only [pushBack, pushPass, room, Bool.false_eq_true, if_false, insert]

theorem isClose_pushBack {queue : BlockDeque α} (room : queue.full = false) (item : α) (pick : ℕ) :
    (queue.pushBack item pick).isClose = queue.isClose := by
  simp only [pushBack, pushPass, room, Bool.false_eq_true, if_false, insert]

/-- What a pass of `pop` keeps of the deque. -/
structure PassedOn (queue target : BlockDeque α) : Prop where
  deq : target.deq = queue.deq.tail
  isClose : target.isClose = queue.isClose
  capacity : target.capacity = queue.capacity

/-- A pop leaves room where there was some. -/
theorem PassedOn.full {queue target : BlockDeque α} (passed : PassedOn queue target)
    (room : queue.full = false) : target.full = false := by
  rw [BlockDeque.full, decide_eq_false_iff_not] at room ⊢
  rw [passed.capacity, passed.deq, List.length_tail]
  omega

theorem popPass_passedOn (consumer : Consumer α) (pick : ℕ) (queue : BlockDeque α) :
    PassedOn queue (queue.popPass consumer pick) := by
  rw [popPass]
  split
  · rename_i none
    exact ⟨by rw [none]; rfl, rfl, rfl⟩
  · rename_i front rest queued
    exact ⟨by rw [queued]; rfl, rfl, rfl⟩

theorem wakeConsumer_passedOn {how : Woken} {index pick : ℕ} {queue : BlockDeque α}
    (isOpen : queue.isClose = false) (admits : queue.Admits (.wakeConsumer how index false pick)) :
    PassedOn queue (queue.step (.wakeConsumer how index false pick)) := by
  have passed (consumer : Consumer α) : PassedOn queue (popWoken consumer false pick
      { queue with condConsumer := queue.condConsumer.resume how index }) := by
    obtain ⟨deq, isClose, capacity⟩ := popPass_passedOn consumer pick
      { queue with condConsumer := queue.condConsumer.resume how index }
    rw [popWoken, Bool.and_false, if_neg Bool.false_ne_true, if_neg (by rw [isOpen]; decide)]
    exact ⟨deq, isClose, capacity⟩
  simp only [step, List.getElem?_eq_getElem admits.1]
  exact passed _

end BlockDeque

namespace Log

variable {maxCapacity : ℕ}

/-! ## Composing -/

theorem content_print {size : ℕ} {text : Bytes} {buff next : ByteBuffer}
    (fits : print size text buff = some next) : next.content = buff.content ++ text := by
  rw [print] at fits
  split_ifs at fits with room
  cases fits
  exact ByteBuffer.content_put ..

theorem content_compose {message : Message} {buff next : ByteBuffer}
    (fits : compose message buff = some next) : next.content = buff.content ++ line message := by
  simp only [compose, Option.bind_eq_bind, Option.bind_eq_some_iff, Option.some.injEq] at fits
  obtain ⟨stamped, stamp, printed, text, rfl⟩ := fits
  simp only [ByteBuffer.content_append, content_print text, appendLogLevelTitle,
    content_print stamp, line, List.append_assoc]

/-! ## The invariant -/

structure Ordered (log : Log) : Prop where
  perm : log.lines.Perm log.sections
  serials : log.sections.map (·.serial) = List.range log.sections.length
  before : log.lines.Pairwise Line.Before
  queued : ∀ line ∈ log.held ++ log.deque.deq.map (·.value), line.direct = false
  texts : log.sections.map (·.text) = log.messages.map line
  isOpen : log.deque.isClose = false
  empty : log.writer = none → log.buff.content = []
  composed : ∀ message direct, log.writer = some (message, direct) → log.buff.content = line message
  room : ∀ message, log.writer = some (message, false) → log.deque.full = false

theorem start_ordered (maxCapacity : ℕ) : (start maxCapacity).Ordered where
  perm := .refl _
  serials := rfl
  before := .nil
  queued line inside := by cases inside
  texts := rfl
  isOpen := rfl
  empty _ := ByteBuffer.content_new 1024
  composed message direct inSection := by cases inSection
  room message inSection := by cases inSection

/-- The lines are numbered by their critical sections. -/
theorem Ordered.serial_lt {log : Log} (ordered : log.Ordered) {line : Line}
    (inside : line ∈ log.lines) : line.serial < log.sections.length := by
  have numbered : line.serial ∈ log.sections.map (·.serial) :=
    List.mem_map_of_mem (ordered.perm.mem_iff.mp inside)
  rw [ordered.serials] at numbered
  exact List.mem_range.mp numbered

theorem Ordered.enter {message : Message} {buff : ByteBuffer} {log : Log} (ordered : log.Ordered)
    (free : log.writer = none) (composed : compose message log.buff = some buff) :
    (log.enter message buff).Ordered where
  perm := ordered.perm
  serials := ordered.serials
  before := ordered.before
  queued := ordered.queued
  texts := ordered.texts
  isOpen := ordered.isOpen
  empty inSection := by cases inSection
  composed other direct inSection := by
    cases inSection
    rw [Log.enter, content_compose composed, ordered.empty free, List.nil_append]
  room other inSection := (Prod.mk.inj (Option.some.inj inSection)).2

/-- The line a critical section hands on. -/
def newLine (direct : Bool) (log : Log) : Line := ⟨log.buff.content, log.sections.length, direct⟩

theorem Ordered.before_newLine {log : Log} (ordered : log.Ordered) (direct : Bool) {line : Line}
    (inside : line ∈ log.lines) : line.Before (log.newLine direct) :=
  .inl (ordered.serial_lt inside)

/-- A direct line comes before the lines that are still on their way. -/
theorem Ordered.leave_direct {log : Log} (ordered : log.Ordered) (message : Message) (pick : ℕ) :
    (log.leave message true pick).lines.Perm (log.leave message true pick).sections ∧
      (log.leave message true pick).lines.Pairwise Line.Before := by
  have lines : (log.leave message true pick).lines =
      log.file ++ log.newLine true :: (log.held ++ log.deque.deq.map (·.value)) := by
    show log.file ++ [log.newLine true] ++ log.held ++ log.deque.deq.map (·.value) = _
    simp only [List.append_assoc, List.cons_append, List.nil_append]
  have before := ordered.before
  rw [Log.lines, List.append_assoc, List.pairwise_append] at before
  obtain ⟨written, waiting, across⟩ := before
  rw [lines]
  constructor
  · calc
      _ ~ log.newLine true :: (log.file ++ (log.held ++ log.deque.deq.map (·.value))) :=
        List.perm_middle
      _ ~ log.newLine true :: log.sections := by
        rw [← List.append_assoc]
        exact ordered.perm.cons _
      _ ~ log.sections ++ [log.newLine true] := (List.perm_append_singleton _ _).symm
  · rw [List.pairwise_append, List.pairwise_cons]
    refine ⟨written, ⟨fun line inside => .inr ⟨rfl, ordered.queued line inside⟩, waiting⟩, ?_⟩
    intro line inFile other inside
    rcases List.mem_cons.mp inside with rfl | old
    · apply ordered.before_newLine true
      exact List.mem_append_left _ (List.mem_append_left _ inFile)
    · exact across line inFile other old

/-- A line that goes through the deque comes last. -/
theorem Ordered.leave_queued {log : Log} (ordered : log.Ordered) (room : log.deque.full = false)
    (message : Message) (pick : ℕ) :
    (log.leave message false pick).lines.Perm (log.leave message false pick).sections ∧
      (log.leave message false pick).lines.Pairwise Line.Before := by
  have lines : (log.leave message false pick).lines = log.lines ++ [log.newLine false] := by
    simp only [Log.lines, Log.leave, Bool.false_eq_true, if_false, held, newLine,
      BlockDeque.deq_pushBack room, List.map_append, List.map_cons, List.map_nil, List.append_assoc]
  rw [lines]
  constructor
  · exact ordered.perm.append_right _
  · rw [List.pairwise_append]
    refine ⟨ordered.before, List.pairwise_singleton _ _, ?_⟩
    intro line inside other isNew
    rw [List.mem_singleton.mp isNew]
    exact ordered.before_newLine false inside

theorem Ordered.leave {message : Message} {direct : Bool} {pick : ℕ} {log : Log}
    (ordered : log.Ordered) (inSection : log.writer = some (message, direct)) :
    (log.leave message direct pick).Ordered := by
  have content := ordered.composed message direct inSection
  have serials : (log.leave message direct pick).sections.map (·.serial) =
      List.range (log.leave message direct pick).sections.length := by
    simp only [Log.leave, List.map_append, ordered.serials, List.length_append,
      List.length_singleton, List.range_succ, List.map_cons, List.map_nil]
  have texts : (log.leave message direct pick).sections.map (·.text) =
      (log.leave message direct pick).messages.map line := by
    simp only [Log.leave, List.map_append, ordered.texts, List.map_cons, List.map_nil, content]
  cases direct with
  | true =>
    obtain ⟨perm, before⟩ := ordered.leave_direct message pick
    exact
      { perm, serials, before, texts
        queued := ordered.queued
        isOpen := ordered.isOpen
        empty := fun _ => ByteBuffer.content_retrieveAll _
        composed := fun _ _ inSection => by cases inSection
        room := fun _ inSection => by cases inSection }
  | false =>
    have room := ordered.room message inSection
    obtain ⟨perm, before⟩ := ordered.leave_queued room message pick
    refine
      { perm, serials, before, texts
        queued := fun line inside => ?_
        isOpen := (BlockDeque.isClose_pushBack room _ pick).trans ordered.isOpen
        empty := fun _ => ByteBuffer.content_retrieveAll _
        composed := fun _ _ inSection => by cases inSection
        room := fun _ inSection => by cases inSection }
    have lines : (log.leave message false pick).deque.deq.map (·.value) =
        log.deque.deq.map (·.value) ++ [log.newLine false] := by
      simp only [Log.leave, Bool.false_eq_true, if_false, newLine, BlockDeque.deq_pushBack room,
        List.map_append, List.map_cons, List.map_nil]
    rw [lines, ← List.append_assoc] at inside
    rcases List.mem_append.mp inside with old | new
    · exact ordered.queued line old
    · rw [List.mem_singleton.mp new]
      rfl

/-! ## The flush thread -/

/-- A change of the deque that keeps its items, or of the flush thread's whereabouts. -/
theorem Ordered.congr {log log' : Log} (ordered : log.Ordered)
    (lines : log'.lines = log.lines)
    (queued : ∀ line ∈ log'.held ++ log'.deque.deq.map (·.value), line.direct = false)
    (isOpen : log'.deque.isClose = false)
    (room : log.deque.full = false → log'.deque.full = false)
    (buff : log'.buff = log.buff) (writer : log'.writer = log.writer)
    (messages : log'.messages = log.messages) (sections : log'.sections = log.sections) :
    log'.Ordered where
  perm := by
    rw [lines, sections]
    exact ordered.perm
  serials := by
    rw [sections]
    exact ordered.serials
  before := by
    rw [lines]
    exact ordered.before
  queued := queued
  texts := by
    rw [sections, messages]
    exact ordered.texts
  isOpen := isOpen
  empty := by
    rw [writer, buff]
    exact ordered.empty
  composed := by
    rw [writer, buff]
    exact ordered.composed
  room message := by
    rw [writer]
    exact fun inSection => room (ordered.room message inSection)

/-- The flush thread's pass of `pop` moves the front line on. -/
theorem Ordered.popped {deque : BlockDeque Line} {log : Log} (ordered : log.Ordered)
    (waiting : log.flusher ≠ .writing) (passed : BlockDeque.PassedOn log.deque deque) :
    (log.popped deque).Ordered := by
  have none : log.held = [] := by
    rw [held]
    split
    · contradiction
    · rfl
    · rfl
  have room : log.deque.full = false → deque.full = false := passed.full
  have isOpen := passed.isClose.trans ordered.isOpen
  have lines : log.lines = log.file ++ log.deque.deq.map (·.value) := by
    rw [Log.lines, none, List.append_nil]
  have queued := ordered.queued
  rw [none, List.nil_append] at queued
  rw [Log.popped]
  cases inDeque : log.deque.deq with
  | nil =>
    have empty : deque.deq = [] := by rw [passed.deq, inDeque, List.tail_nil]
    refine ordered.congr ?_ ?_ isOpen room rfl rfl rfl rfl
    · rw [lines, inDeque]
      simp only [Log.lines, held, empty, List.append_nil]
    · simp [held, empty]
  | cons front rest =>
    have left : deque.deq = rest := by rw [passed.deq, inDeque, List.tail_cons]
    rw [inDeque] at queued
    refine ordered.congr ?_ ?_ isOpen room rfl rfl rfl rfl
    · rw [lines, inDeque]
      simp only [Log.lines, held, left, List.map_cons, List.append_assoc, List.singleton_append]
    · simp only [held, left, List.singleton_append]
      exact queued

theorem Ordered.writeOut {log : Log} (ordered : log.Ordered) (writing : log.flusher = .writing) :
    log.writeOut.Ordered := by
  refine ordered.congr ?_ (fun line inside => ?_) ordered.isOpen id rfl rfl rfl rfl
  · simp only [lines, Log.writeOut, held, writing, List.append_nil]
  · exact ordered.queued line (List.mem_append_right _ inside)

theorem Ordered.step {action : Action} {log : Log} (ordered : log.Ordered)
    (admits : log.Admits action) : (log.step action).Ordered := by
  cases action with
  | enter message =>
    obtain ⟨buff, composed⟩ := Option.isSome_iff_exists.mp admits.2
    simp only [Log.step, composed]
    exact ordered.enter (Option.isNone_iff_eq_none.mp admits.1) composed
  | leave pick =>
    simp only [Log.step]
    split
    · rename_i inSection
      exact ordered.leave inSection
    · exact ordered
  | pop pick =>
    refine ordered.popped ?_ (BlockDeque.popPass_passedOn _ pick log.deque)
    rw [admits.1]
    exact Flusher.noConfusion
  | wake how index pick =>
    refine ordered.popped ?_ (BlockDeque.wakeConsumer_passedOn ordered.isOpen admits.2)
    rw [admits.1]
    exact Flusher.noConfusion
  | rouse index =>
    exact ordered.congr rfl ordered.queued ordered.isOpen id rfl rfl rfl rfl
  | writeOut => exact ordered.writeOut admits.1
  | flush pick =>
    exact ordered.congr rfl ordered.queued ordered.isOpen id rfl rfl rfl rfl

theorem reachable_ordered {log : Log} (reached : (machine maxCapacity).Reachable log) :
    log.Ordered := by
  apply reached.invariant
  · rintro start rfl
    exact start_ordered maxCapacity
  · rintro source action target ordered ⟨admits, rfl⟩
    exact ordered.step admits

/-! ## Every run -/

/-- Lines that all went through the deque are in the order of their sections. -/
theorem Ordered.in_order {log : Log} (ordered : log.Ordered)
    (room : ∀ line ∈ log.sections, line.direct = false) : log.lines = log.sections := by
  have numbered : log.sections.Pairwise Line.Before := by
    have sorted : (log.sections.map (·.serial)).Pairwise (· < ·) := by
      rw [ordered.serials]
      exact List.pairwise_lt_range
    exact (List.pairwise_map.mp sorted).imp .inl
  refine List.Perm.eq_of_pairwise ?_ ordered.before numbered ordered.perm
  intro first second inFirst inSecond before after
  have queued := room first (ordered.perm.mem_iff.mp inFirst)
  have queued' := room second inSecond
  rcases before with lt | ⟨direct, _⟩
  · rcases after with gt | ⟨direct, _⟩
    · exact absurd gt (Nat.lt_asymm lt)
    · rw [queued'] at direct
      cases direct
  · rw [queued] at direct
    cases direct

/-- In every state of every run the lines in the file, then the one the flush thread holds, then those
in the deque are the messages of the critical sections of `write` with none lost or doubled, and two of
them are out of order only where the first was written directly and the second was still on its way
through the deque. They are in order when no section found the deque full, and a section that did not
find it full does not wait in `push_back`. -/
theorem lines_of_sections {log : Log} (reached : (machine maxCapacity).Reachable log) :
    log.sections.map (·.text) = log.messages.map line ∧
      log.sections.map (·.serial) = List.range log.sections.length ∧
      log.lines.Perm log.sections ∧ log.lines.Pairwise Line.Before ∧
      ((∀ line ∈ log.sections, line.direct = false) → log.lines = log.sections) ∧
      ∀ message, log.writer = some (message, false) → log.deque.full = false := by
  have ordered := reachable_ordered reached
  exact ⟨ordered.texts, ordered.serials, ordered.perm, ordered.before, ordered.in_order, ordered.room⟩

/-- A message of the server's. -/
private def starting : Message :=
  ⟨1, ascii "2024-05-01 12:00:00.000000 ", ascii "========== Server start =========="⟩

private theorem compose_starting :
    ∃ buff, compose starting (.new 1024) = some buff ∧ buff.retrieveAll = .new 1024 := by
  have size : (compose starting (.new 1024)).map (·.storage.length) = some 1024 := by
    decide +kernel
  obtain ⟨buff, composed, length⟩ := Option.map_eq_some_iff.mp size
  refine ⟨buff, composed, ?_⟩
  unfold ByteBuffer.retrieveAll ByteBuffer.new Buffer.retrieveAll Buffer.new
  simp only [length]

/-- A whole section of `write`. -/
private theorem reachable_write {buff : ByteBuffer} {log : Log}
    (reached : (machine maxCapacity).Reachable log) (free : log.writer = none)
    (composed : compose starting log.buff = some buff) :
    (machine maxCapacity).Reachable
      ((log.enter starting buff).leave starting log.deque.full 0) := by
  have fits : (compose starting log.buff).isSome = true := by
    rw [composed]
    rfl
  have enters : (machine maxCapacity).Step log (.enter starting) (log.enter starting buff) :=
    ⟨⟨Option.isNone_iff_eq_none.mpr free, fits⟩, by simp only [step, composed]⟩
  have leaves : (machine maxCapacity).Step (log.enter starting buff) (.leave 0)
      ((log.enter starting buff).leave starting log.deque.full 0) :=
    ⟨fun room => ⟨room, id⟩, rfl⟩
  exact .step (.step reached enters) leaves

/-- After as many sections as the deque has room for, with the flush thread yet to pop. -/
private theorem exists_filled {sections : ℕ} (small : sections ≤ maxCapacity) :
    ∃ log, (machine maxCapacity).Reachable log ∧ log.writer = none ∧ log.held = [] ∧
      log.file = [] ∧ log.buff = .new 1024 ∧ log.deque.capacity = maxCapacity ∧
      log.deque.deq.length = sections := by
  induction sections with
  | zero => exact ⟨start maxCapacity, .init rfl, rfl, rfl, rfl, rfl, rfl, rfl⟩
  | succ sections ih =>
    obtain ⟨log, reached, free, held, file, buff, capacity, size⟩ := ih (Nat.le_of_succ_le small)
    obtain ⟨composed, fits, emptied⟩ := compose_starting
    have room : log.deque.full = false := decide_eq_false (by omega)
    have written := reachable_write reached free (by rw [buff, fits])
    rw [room] at written
    refine ⟨_, written, rfl, held, file, emptied, ?_, ?_⟩
    · show (log.deque.pushBack _ 0).capacity = maxCapacity
      simp only [BlockDeque.pushBack, BlockDeque.pushPass, room, Bool.false_eq_true, if_false,
        BlockDeque.insert, capacity]
    · show (log.deque.pushBack _ 0).deq.length = sections + 1
      rw [BlockDeque.deq_pushBack room, List.length_append, size, List.length_singleton]

/-- A thousand lines wait in the deque when the next is written straight to the file. -/
theorem not_in_order_full : ¬ ∀ log, (machine 1000).Reachable log → log.lines = log.sections := by
  intro always
  obtain ⟨log, reached, free, held, file, buff, capacity, size⟩ := exists_filled (le_refl 1000)
  obtain ⟨composed, fits, _⟩ := compose_starting
  have isFull : log.deque.full = true := decide_eq_true (by omega)
  have written := reachable_write reached free (by rw [buff, fits])
  rw [isFull] at written
  have count : log.sections.length = 1000 := by
    rw [← always log reached, lines, file, held, List.nil_append, List.nil_append, List.length_map,
      size]
  have first : ((((log.enter starting composed).leave starting true 0).lines).map (·.serial)).head? =
      some 1000 := by
    show ((log.file ++ [(log.enter starting composed).newLine true] ++ log.held ++
      log.deque.deq.map (·.value)).map (·.serial)).head? = some 1000
    rw [file, ← count]
    rfl
  rw [always _ written, (reachable_ordered written).serials, List.head?_range] at first
  split_ifs at first
  cases first

/-- One line in the file and the next in the deque. -/
private def running : Log :=
  List.foldl step (start 1000)
    [.enter starting, .leave 0, .pop 0, .writeOut, .enter starting, .leave 0]

private theorem running_along : Along step Admits (start 1000)
    [.enter starting, .leave 0, .pop 0, .writeOut, .enter starting, .leave 0] := by
  decide +kernel

private theorem running_reachable : (machine 1000).Reachable running :=
  .run running_along (fun _ _ admits => ⟨admits, rfl⟩) (.init rfl)

theorem lines_of_sections_running : running.lines.map (·.serial) = [0, 1] ∧
    running.lines.Perm running.sections := by
  refine ⟨by decide +kernel, ?_⟩
  exact (lines_of_sections running_reachable).2.2.1

end Log

end XWebServer
