import XWebServer.Log.BlockDeque
import XWebServer.Log.LogBuffer
import Mathlib.Logic.Function.Basic

/-! # The class `Log` with its rotation

Any number of threads in `write`, and the flush thread in `AsyncWrite_`, lock by lock. A thread reads
`toDay_` and `lineCount_` without `mtx_`, may then take it, give it up and take it again to open another
file, and takes it once more to compose its line and hand it on. The test of `full()` and `push_back` are
two critical sections of the deque's own lock, so they are two steps.

What becomes of a line's text is the subject of `LogBuffer`. Here a line is its call. A file that cannot
be opened ends the process and is left out. The index of a line, `accepted`, `written` and `latest` are
records: the calls in the order of their critical sections, the `fputs` with the name of the open file,
and the date of the latest call.
-/

namespace XWebServer

open Transition System CondVar

/-- A line; `index` counts the lines of its date before it. -/
structure LogLine where
  call : LogCall
  index : ℕ

def LogLine.date (line : LogLine) : Date := line.call.time.toDate

/-- The empty string that the flush thread's variable holds at first. -/
def LogLine.empty : LogLine := ⟨⟨0, Date.february.midnight, [], Nat.two_pow_pos 31⟩, 0⟩

/-- Where a thread is in `write`. -/
inductive Position where
  | idle
  /-- it has its time, and is about to look at the day and the count -/
  | called (call : LogCall)
  /-- they ask for another file -/
  | rotating (call : LogCall)
  /-- it has taken `mtx_` and given it up -/
  | naming (call : LogCall)
  | reopening (call : LogCall) (newFile : Bytes)
  /-- it holds `mtx_` to change the file -/
  | closing (call : LogCall) (newFile : Bytes)
  | entering (call : LogCall)
  /-- it holds `mtx_`, has composed its line and asked whether the deque is full -/
  | passing (line : LogLine) (direct : Bool)
  /-- it holds `mtx_`, in the wait of `push_back` -/
  | waiting (line : LogLine)

/-- Whether the thread holds `mtx_`. -/
def Position.holds : Position → Bool
  | .closing _ _ | .passing _ _ | .waiting _ => true
  | .idle | .called _ | .rotating _ | .naming _ | .reopening _ _ | .entering _ => false

/-- Where the flush thread is in its loop. -/
inductive Logger.Flusher where
  | idle
  /-- in the wait of `pop` -/
  | popping
  /-- it has popped a line and is about to take `mtx_` -/
  | writing
  /-- it has `mtx_` -/
  | holding
deriving DecidableEq

/-- Who holds `mtx_`. -/
inductive Owner where
  | thread (id : ℕ)
  | flusher
deriving DecidableEq

structure Logger where
  isAsync : Bool
  deque : BlockDeque LogLine
  toDay : ℕ
  lineCount : ℤ
  /-- the name of the open file -/
  fp : Bytes
  mtx : Option Owner
  threads : ℕ → Position
  flusher : Logger.Flusher
  str : LogLine
  accepted : List LogLine
  written : List (Bytes × LogLine)
  latest : Date

namespace Logger

/-- `MAX_LINES`. -/
def maxLines : ℕ := 50000

/-- After `init`. The deque has the capacity of its default, 1000, whatever `init` is told. -/
def start (isAsync : Bool) (maxCapacity : ℕ) (date : Date) : Logger where
  isAsync := isAsync
  deque := .new LogLine maxCapacity
  toDay := date.mday
  lineCount := 0
  fp := initFile date
  mtx := none
  threads _ := .idle
  flusher := .idle
  str := .empty
  accepted := []
  written := []
  latest := date

def put (id : ℕ) (position : Position) (log : Logger) : Logger :=
  { log with threads := Function.update log.threads id position }

/-! ## A thread in `write` -/

def begin (id : ℕ) (call : LogCall) (log : Logger) : Logger :=
  { log with latest := call.time.toDate }.put id (.called call)

/-- The day or the count asks for another file. -/
def asksForFile (call : LogCall) (log : Logger) : Bool :=
  log.toDay != call.time.mday || (log.lineCount != 0 && log.lineCount.tmod maxLines == 0)

def check (id : ℕ) (call : LogCall) (log : Logger) : Logger :=
  log.put id (if log.asksForFile call then .rotating call else .entering call)

/-- Between the two times `mtx_` is held. -/
def name (id : ℕ) (call : LogCall) (log : Logger) : Logger :=
  if log.toDay ≠ call.time.mday then
    { log with toDay := call.time.mday, lineCount := 0 }.put id
      (.reopening call (dayFile call.time.toDate))
  else log.put id (.reopening call (partFile call.time.toDate (log.lineCount.tdiv maxLines)))

def flush (pick : ℕ) (log : Logger) : Logger :=
  if log.isAsync then { log with deque := log.deque.flush pick } else log

def reopen (id : ℕ) (call : LogCall) (newFile : Bytes) (pick : ℕ) (log : Logger) : Logger :=
  { log.flush pick with fp := newFile, mtx := none }.put id (.entering call)

/-- `n + 1` on `int`. -/
def increment (n : ℤ) : ℤ := (BitVec.ofInt 32 (n + 1)).toInt

/-- The lines of a date so far. -/
def linesOf (date : Date) (log : Logger) : List LogLine := log.accepted.filter (·.date = date)

/-- The last critical section of `write`, up to the answer of `full()`. -/
def enter (id : ℕ) (call : LogCall) (log : Logger) : Logger :=
  let line : LogLine := ⟨call, (log.linesOf call.time.toDate).length⟩
  { log with
    mtx := some (.thread id)
    lineCount := increment log.lineCount
    accepted := log.accepted ++ [line] }.put id (.passing line (!(log.isAsync && !log.deque.full)))

/-- A pass of `push_back`, which ends the critical section or waits inside it. -/
def pushed (id : ℕ) (line : LogLine) (deque : BlockDeque LogLine) (log : Logger) : Logger :=
  if log.deque.full then { log with deque }.put id (.waiting line)
  else { log with deque, mtx := none }.put id .idle

/-- The rest of the section: the line goes to the deque, or to the file. -/
def pass (id : ℕ) (line : LogLine) (direct : Bool) (pick : ℕ) (log : Logger) : Logger :=
  if direct then
    { log with written := log.written ++ [(log.fp, line)], mtx := none }.put id .idle
  else log.pushed id line (log.deque.pushBack line pick)

/-! ## The flush thread -/

/-- What a pass of `pop` is for the flush thread: it waits, or it has a line. -/
def popped (deque : BlockDeque LogLine) (log : Logger) : Logger :=
  match log.deque.deq with
  | [] => { log with deque, flusher := .popping }
  | front :: _ => { log with deque, str := front.value, flusher := .writing }

def writeOut (log : Logger) : Logger :=
  { log with written := log.written ++ [(log.fp, log.str)], mtx := none, flusher := .idle }

/-! ## The machine -/

inductive Action where
  | call (id : ℕ) (call : LogCall)
  | check (id : ℕ)
  /-- `mtx_` is taken and given up at once -/
  | touch (id : ℕ)
  | name (id : ℕ)
  | relock (id : ℕ)
  | reopen (id pick : ℕ)
  | enter (id : ℕ)
  | pass (id pick : ℕ)
  /-- the thread's wait in `push_back` is over and it has the deque's lock again -/
  | resume (id : ℕ) (how : Woken) (index pick : ℕ)
  | pop (pick : ℕ)
  /-- the same for the flush thread -/
  | wake (how : Woken) (index pick : ℕ)
  | rouseProducer (index : ℕ)
  | rouseConsumer (index : ℕ)
  | lock
  | writeOut
  /-- `Log::flush`, called by any thread after its `write` -/
  | flush (pick : ℕ)

def Admits (log : Logger) : Action → Prop
  | .call id _ => match log.threads id with
      | .idle => True
      | _ => False
  | .check id => match log.threads id with
      | .called _ => True
      | _ => False
  | .touch id => match log.threads id with
      | .rotating _ => log.mtx = none
      | _ => False
  | .name id => match log.threads id with
      | .naming _ => True
      | _ => False
  | .relock id => match log.threads id with
      | .reopening _ _ => log.mtx = none
      | _ => False
  | .reopen id pick => match log.threads id with
      | .closing _ _ => log.deque.condConsumer.Picks pick
      | _ => False
  | .enter id => match log.threads id with
      | .entering _ => log.mtx = none
      | _ => False
  | .pass id pick => match log.threads id with
      | .passing _ _ => log.deque.condConsumer.Picks pick
      | _ => False
  | .resume id how index pick => match log.threads id with
      | .waiting _ => log.deque.Admits (.wakeProducer how index pick)
      | _ => False
  | .pop pick => log.isAsync = true ∧ log.flusher = .idle ∧ log.deque.Admits (.pop log.str pick)
  | .wake how index pick =>
      log.flusher = .popping ∧ log.deque.Admits (.wakeConsumer how index false pick)
  | .rouseProducer index => log.deque.Admits (.rouseProducer index)
  | .rouseConsumer index => log.deque.Admits (.rouseConsumer index)
  | .lock => log.flusher = .writing ∧ log.mtx = none
  | .writeOut => log.flusher = .holding
  | .flush pick => log.deque.condConsumer.Picks pick

def step (log : Logger) : Action → Logger
  | .call id call => log.begin id call
  | .check id => match log.threads id with
      | .called call => log.check id call
      | _ => log
  | .touch id => match log.threads id with
      | .rotating call => log.put id (.naming call)
      | _ => log
  | .name id => match log.threads id with
      | .naming call => log.name id call
      | _ => log
  | .relock id => match log.threads id with
      | .reopening call newFile =>
          { log with mtx := some (.thread id) }.put id (.closing call newFile)
      | _ => log
  | .reopen id pick => match log.threads id with
      | .closing call newFile => log.reopen id call newFile pick
      | _ => log
  | .enter id => match log.threads id with
      | .entering call => log.enter id call
      | _ => log
  | .pass id pick => match log.threads id with
      | .passing line direct => log.pass id line direct pick
      | _ => log
  | .resume id how index pick => match log.threads id with
      | .waiting line => log.pushed id line (log.deque.step (.wakeProducer how index pick))
      | _ => log
  | .pop pick => log.popped (log.deque.pop log.str pick)
  | .wake how index pick => log.popped (log.deque.step (.wakeConsumer how index false pick))
  | .rouseProducer index => { log with deque := log.deque.step (.rouseProducer index) }
  | .rouseConsumer index => { log with deque := log.deque.step (.rouseConsumer index) }
  | .lock => { log with mtx := some .flusher, flusher := .holding }
  | .writeOut => log.writeOut
  | .flush pick => log.flush pick

def machine (isAsync : Bool) (maxCapacity : ℕ) (date : Date) : System Logger Action where
  Init log := log = start isAsync maxCapacity date
  Step source action target := source.Admits action ∧ source.step action = target

/-! ## What a step can do -/

/-- The steps, with what they need and what they do. -/
inductive Moves (log : Logger) : Action → Logger → Prop
  | call {id : ℕ} {call : LogCall} (stage : log.threads id = .idle) :
      Moves log (.call id call) (log.begin id call)
  | check {id : ℕ} {call : LogCall} (stage : log.threads id = .called call) :
      Moves log (.check id) (log.check id call)
  | touch {id : ℕ} {call : LogCall} (stage : log.threads id = .rotating call) (free : log.mtx = none) :
      Moves log (.touch id) (log.put id (.naming call))
  | name {id : ℕ} {call : LogCall} (stage : log.threads id = .naming call) :
      Moves log (.name id) (log.name id call)
  | relock {id : ℕ} {call : LogCall} {newFile : Bytes} (stage : log.threads id = .reopening call newFile)
      (free : log.mtx = none) :
      Moves log (.relock id) ({ log with mtx := some (.thread id) }.put id (.closing call newFile))
  | reopen {id pick : ℕ} {call : LogCall} {newFile : Bytes}
      (stage : log.threads id = .closing call newFile) :
      Moves log (.reopen id pick) (log.reopen id call newFile pick)
  | enter {id : ℕ} {call : LogCall} (stage : log.threads id = .entering call) (free : log.mtx = none) :
      Moves log (.enter id) (log.enter id call)
  | pass {id pick : ℕ} {line : LogLine} {direct : Bool} (stage : log.threads id = .passing line direct) :
      Moves log (.pass id pick) (log.pass id line direct pick)
  | resume {id : ℕ} {how : Woken} {index pick : ℕ} {line : LogLine}
      (stage : log.threads id = .waiting line) :
      Moves log (.resume id how index pick)
        (log.pushed id line (log.deque.step (.wakeProducer how index pick)))
  | pop {pick : ℕ} (async : log.isAsync = true) (idle : log.flusher = .idle) :
      Moves log (.pop pick) (log.popped (log.deque.pop log.str pick))
  | wake {how : Woken} {index pick : ℕ} (waits : log.flusher = .popping)
      (admits : log.deque.Admits (.wakeConsumer how index false pick)) :
      Moves log (.wake how index pick)
        (log.popped (log.deque.step (.wakeConsumer how index false pick)))
  | rouseProducer {index : ℕ} :
      Moves log (.rouseProducer index) { log with deque := log.deque.step (.rouseProducer index) }
  | rouseConsumer {index : ℕ} :
      Moves log (.rouseConsumer index) { log with deque := log.deque.step (.rouseConsumer index) }
  | lock (waits : log.flusher = .writing) (free : log.mtx = none) :
      Moves log .lock { log with mtx := some .flusher, flusher := .holding }
  | writeOut (holds : log.flusher = .holding) : Moves log .writeOut log.writeOut
  | flush {pick : ℕ} : Moves log (.flush pick) (log.flush pick)

theorem moves_of_admits {log : Logger} {action : Action} (admits : log.Admits action) :
    Moves log action (log.step action) := by
  cases action with
  | call id call =>
    simp only [Admits, step] at admits ⊢
    split at admits
    · exact .call ‹_›
    · exact admits.elim
  | check id =>
    simp only [Admits, step] at admits ⊢
    split at admits
    · exact .check ‹_›
    · exact admits.elim
  | touch id =>
    simp only [Admits, step] at admits ⊢
    split at admits
    · exact .touch ‹_› admits
    · exact admits.elim
  | name id =>
    simp only [Admits, step] at admits ⊢
    split at admits
    · exact .name ‹_›
    · exact admits.elim
  | relock id =>
    simp only [Admits, step] at admits ⊢
    split at admits
    · exact .relock ‹_› admits
    · exact admits.elim
  | reopen id pick =>
    simp only [Admits, step] at admits ⊢
    split at admits
    · exact .reopen ‹_›
    · exact admits.elim
  | enter id =>
    simp only [Admits, step] at admits ⊢
    split at admits
    · exact .enter ‹_› admits
    · exact admits.elim
  | pass id pick =>
    simp only [Admits, step] at admits ⊢
    split at admits
    · exact .pass ‹_›
    · exact admits.elim
  | resume id how index pick =>
    simp only [Admits, step] at admits ⊢
    split at admits
    · exact .resume ‹_›
    · exact admits.elim
  | pop pick => exact .pop admits.1 admits.2.1
  | wake how index pick => exact .wake admits.1 admits.2
  | rouseProducer index => exact .rouseProducer
  | rouseConsumer index => exact .rouseConsumer
  | lock => exact .lock admits.1 admits.2
  | writeOut => exact .writeOut admits
  | flush pick => exact .flush

end Logger

end XWebServer
