import XWebServer.Buffer.ByteBuffer
import XWebServer.Log.BlockDeque

/-! # The class `Log` in asynchronous mode

Threads in `write`, one at a time under `mtx_`, and the flush thread in `AsyncWrite_`. `write` asks
whether the deque is full in one step and acts on the answer in a later one, since the flush thread may
pop in between; both are inside one critical section of `mtx_`. The clock, the format and its arguments
give the text of a message, which fits in the buffer.

There is no change of day, rotation or shutdown here. `file` holds the string of each `fputs`; the serial
number and the route of a line, `messages` and `sections` are records, in the order of the critical
sections.
-/

namespace XWebServer

open Transition System CondVar

/-- A call of `write`: its time stamp and its formatted text. -/
structure Message where
  level : ℤ
  stamp : Bytes
  text : Bytes

/-- What a critical section of `write` hands on; `serial` counts the sections before it, and `direct`
says that it found the deque full. -/
structure Line where
  text : Bytes
  serial : ℕ
  direct : Bool
deriving DecidableEq, Repr

/-- Where the flush thread is in its loop. -/
inductive Flusher where
  /-- about to call `pop` -/
  | idle
  /-- in the wait of `pop` -/
  | popping
  /-- about to write the line it has popped -/
  | writing
deriving DecidableEq, Repr

structure Log where
  buff : ByteBuffer
  deque : BlockDeque Line
  /-- the message of the thread in `write`'s critical section, and whether it found the deque full -/
  writer : Option (Message × Bool)
  flusher : Flusher
  /-- the flush thread's variable -/
  str : Line
  file : List Line
  messages : List Message
  sections : List Line

namespace Log

/-! ## Composing a line -/

def levelTitle : ℤ → Bytes
  | 0 => ascii "[debug]: "
  | 1 => ascii "[info] : "
  | 2 => ascii "[warn] : "
  | 3 => ascii "[error]: "
  | _ => ascii "[info] : "

def appendLogLevelTitle (level : ℤ) (buff : ByteBuffer) : ByteBuffer := buff.append (levelTitle level)

/-- `snprintf` of at most `size` bytes at `BeginWrite()` and then `HasWritten`, for a text that fits
there with its terminator. -/
def print (size : ℕ) (text : Bytes) (buff : ByteBuffer) : Option ByteBuffer :=
  if fits : text.length < size ∧ buff.writePos + text.length < buff.storage.length then
    some (buff.put text fits.2.le)
  else none

/-- What `write` puts into the buffer. -/
def compose (message : Message) (buff : ByteBuffer) : Option ByteBuffer := do
  let stamped ← print 128 message.stamp buff
  let titled := appendLogLevelTitle message.level stamped
  let printed ← print (titled.storage.length - titled.writePos) message.text titled
  some (printed.append [10, 0])

/-- The text of a line, with the terminator that the deque's strings carry too. -/
def line (message : Message) : Bytes :=
  message.stamp ++ levelTitle message.level ++ message.text ++ [10, 0]

/-! ## The threads -/

def start (maxCapacity : ℕ) : Log where
  buff := .new 1024
  deque := .new Line maxCapacity
  writer := none
  flusher := .idle
  str := ⟨[], 0, false⟩
  file := []
  messages := []
  sections := []

/-- `write` takes `mtx_`, composes its line, and asks whether the deque is full. -/
def enter (message : Message) (buff : ByteBuffer) (log : Log) : Log :=
  { log with buff, writer := some (message, log.deque.full) }

/-- `write` hands its line on, empties the buffer and gives `mtx_` up. -/
def leave (message : Message) (direct : Bool) (pick : ℕ) (log : Log) : Log :=
  let line : Line := ⟨log.buff.content, log.sections.length, direct⟩
  { log with
    deque := if direct then log.deque else log.deque.pushBack line pick
    file := if direct then log.file ++ [line] else log.file
    buff := log.buff.retrieveAll
    writer := none
    messages := log.messages ++ [message]
    sections := log.sections ++ [line] }

/-- What a pass of `pop` is for the flush thread: it waits, or it has a line. -/
def popped (deque : BlockDeque Line) (log : Log) : Log :=
  match log.deque.deq with
  | [] => { log with deque, flusher := .popping }
  | front :: _ => { log with deque, str := front.value, flusher := .writing }

/-- The flush thread takes `mtx_` and writes its line. -/
def writeOut (log : Log) : Log := { log with file := log.file ++ [log.str], flusher := .idle }

inductive Action where
  | enter (message : Message)
  | leave (pick : ℕ)
  | pop (pick : ℕ)
  /-- the flush thread's wait is over and it has the deque's lock again -/
  | wake (how : Woken) (index pick : ℕ)
  | rouse (index : ℕ)
  | writeOut
  /-- `Log::flush` -/
  | flush (pick : ℕ)

/-- When a step can be taken. A `push_back` that found the deque full would wait inside `write`;
`leave` asks that it does not, and `Ordered.room` shows that it never does. -/
def Admits (log : Log) : Action → Prop
  | .enter message => log.writer.isNone = true ∧ (compose message log.buff).isSome = true
  | .leave pick =>
      match log.writer with
      | none => False
      | some (_, direct) =>
          direct = false → log.deque.full = false ∧ log.deque.condConsumer.Picks pick
  | .pop pick => log.flusher = .idle ∧ log.deque.Admits (.pop log.str pick)
  | .wake how index pick => log.flusher = .popping ∧
      log.deque.Admits (.wakeConsumer how index false pick)
  | .rouse index => log.deque.Admits (.rouseConsumer index)
  | .writeOut => log.flusher = .writing ∧ log.writer.isNone = true
  | .flush pick => log.deque.Admits (.flush pick)

instance (log : Log) (action : Action) : Decidable (log.Admits action) :=
  match action with
  | .enter message => inferInstanceAs
      (Decidable (log.writer.isNone = true ∧ (compose message log.buff).isSome = true))
  | .leave pick =>
      match found : log.writer with
      | none => .isFalse (by simp only [Admits, found, not_false_eq_true])
      | some (_, direct) => decidable_of_iff
          (direct = false → log.deque.full = false ∧ log.deque.condConsumer.Picks pick)
          (by simp only [Admits, found])
  | .pop pick => inferInstanceAs
      (Decidable (log.flusher = .idle ∧ log.deque.Admits (.pop log.str pick)))
  | .wake how index pick => inferInstanceAs
      (Decidable (log.flusher = .popping ∧ log.deque.Admits (.wakeConsumer how index false pick)))
  | .rouse index => inferInstanceAs (Decidable (log.deque.Admits (.rouseConsumer index)))
  | .writeOut => inferInstanceAs (Decidable (log.flusher = .writing ∧ log.writer.isNone = true))
  | .flush pick => inferInstanceAs (Decidable (log.deque.Admits (.flush pick)))

def step (log : Log) : Action → Log
  | .enter message =>
      match compose message log.buff with
      | some buff => log.enter message buff
      | none => log
  | .leave pick =>
      match log.writer with
      | some (message, direct) => log.leave message direct pick
      | none => log
  | .pop pick => log.popped (log.deque.pop log.str pick)
  | .wake how index pick => log.popped (log.deque.step (.wakeConsumer how index false pick))
  | .rouse index => { log with deque := log.deque.step (.rouseConsumer index) }
  | .writeOut => log.writeOut
  | .flush pick => { log with deque := log.deque.flush pick }

/-- The log whose deque has the given capacity; `init` gives it the default of 1000. -/
def machine (maxCapacity : ℕ) : System Log Action where
  Init log := log = start maxCapacity
  Step source action target := source.Admits action ∧ source.step action = target

/-- The line popped and not yet written. -/
def held (log : Log) : List Line :=
  match log.flusher with
  | .writing => [log.str]
  | .idle | .popping => []

/-- The lines in the file, the line on its way there, and the lines in the deque. -/
def lines (log : Log) : List Line := log.file ++ log.held ++ log.deque.deq.map (·.value)

end Log

end XWebServer
