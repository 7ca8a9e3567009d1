import XWebServer.Log.Whole

/-! # The end of the log

The destructor waits until the deque is empty, closes it, and joins the flush thread, so when it closes
the file every line has been written. But `pop` looks at `isClose_` only after a wait: if the flush thread
is not in its wait when `Close` notifies, it never ends, and the destructor never returns.

No thread is in `write` any more, so the two threads are the only ones. `joinable` is true of a thread
that nobody has joined.
-/

namespace XWebServer

open Transition System CondVar
open scoped List

namespace Logger

/-! ## The destructor -/

/-- Where `~Log` is. -/
inductive Stage where
  /-- about to ask whether the deque is empty -/
  | checking
  | flushing
  | closing
  | notifyingProducers
  | notifyingConsumers
  | joining
  /-- about to take `mtx_` for the file -/
  | locking
  | done
deriving DecidableEq

/-- The loop has found the deque empty. -/
def Stage.drained : Stage → Bool
  | .checking | .flushing => false
  | .closing | .notifyingProducers | .notifyingConsumers | .joining | .locking | .done => true

/-- The flush thread has been joined, if there is one. -/
def Stage.joined : Stage → Bool
  | .locking | .done => true
  | .checking | .flushing | .closing | .notifyingProducers | .notifyingConsumers | .joining => false

/-- `Close` has been in its critical section. -/
def Stage.closed : Stage → Bool
  | .notifyingProducers | .notifyingConsumers | .joining | .locking | .done => true
  | .checking | .flushing | .closing => false

/-- The log while `~Log` runs; no thread is in `write`. `ended` says whether the flush thread has left
its loop. -/
structure Destructor where
  log : Logger
  stage : Stage
  ended : Bool

namespace Destructor

/-- Without a flush thread only the file is left. -/
def begin (log : Logger) : Destructor := ⟨log, if log.isAsync then .checking else .locking, false⟩

inductive Action where
  | empty
  | flush (pick : ℕ)
  | close
  | closeProducers
  | closeConsumers
  | join
  | closeFile (pick : ℕ)
  /-- the flush thread -/
  | pop (pick : ℕ)
  | wake (how : Woken) (index pick : ℕ)
  | rouse (index : ℕ)
  | lock
  | writeOut

def Admits (destructor : Destructor) : Action → Prop
  | .empty => destructor.stage = .checking
  | .flush pick => destructor.stage = .flushing ∧ destructor.log.deque.condConsumer.Picks pick
  | .close => destructor.stage = .closing
  | .closeProducers => destructor.stage = .notifyingProducers
  | .closeConsumers => destructor.stage = .notifyingConsumers
  | .join => destructor.stage = .joining ∧ destructor.ended = true
  | .closeFile pick => destructor.stage = .locking ∧ destructor.log.mtx = none ∧
      destructor.log.deque.condConsumer.Picks pick
  | .pop pick => destructor.ended = false ∧ destructor.log.Admits (.pop pick)
  | .wake how index pick => destructor.ended = false ∧ destructor.log.Admits (.wake how index pick)
  | .rouse index => destructor.log.Admits (.rouseConsumer index)
  | .lock => destructor.log.Admits .lock
  | .writeOut => destructor.log.Admits .writeOut

/-- The deque's part of a step. -/
def withDeque (deque : BlockDeque LogLine) (destructor : Destructor) : Destructor :=
  { destructor with log := { destructor.log with deque } }

/-- A `pop` after its wait; one that finds the deque closed returns false, and the loop ends. -/
def wake (how : Woken) (index pick : ℕ) (destructor : Destructor) : Destructor :=
  if destructor.log.deque.isClose then
    { log := { destructor.log with
        deque := destructor.log.deque.step (.wakeConsumer how index false pick)
        flusher := .idle }
      stage := destructor.stage
      ended := true }
  else { destructor with log := destructor.log.step (.wake how index pick) }

def step (destructor : Destructor) : Action → Destructor
  | .empty =>
      { destructor with stage := if destructor.log.deque.deq.isEmpty then .closing else .flushing }
  | .flush pick =>
      { destructor.withDeque (destructor.log.deque.flush pick) with stage := .checking }
  | .close => { destructor.withDeque destructor.log.deque.close with stage := .notifyingProducers }
  | .closeProducers =>
      { destructor.withDeque destructor.log.deque.closeProducers with stage := .notifyingConsumers }
  | .closeConsumers => { destructor.withDeque destructor.log.deque.closeConsumers with stage := .joining }
  | .join => { destructor with stage := .locking }
  | .closeFile pick => { destructor with log := destructor.log.flush pick, stage := .done }
  | .pop pick => { destructor with log := destructor.log.step (.pop pick) }
  | .wake how index pick => destructor.wake how index pick
  | .rouse index => { destructor with log := destructor.log.step (.rouseConsumer index) }
  | .lock => { destructor with log := destructor.log.step .lock }
  | .writeOut => { destructor with log := destructor.log.step .writeOut }

def machine (log : Logger) : System Destructor Action where
  Init destructor := destructor = begin log
  Step source action target := source.Admits action ∧ source.step action = target

end Destructor

/-- What the files will hold when the lines on their way are written to the open one. -/
def eventual (log : Logger) : List (Bytes × LogLine) :=
  log.written ++ log.inFlight.map fun line => (log.fp, line)

namespace Destructor

/-- What holds while the destructor of `log` runs. -/
structure Sound (log : Logger) (destructor : Destructor) : Prop where
  eventual : destructor.log.eventual = log.eventual
  accepted : destructor.log.accepted = log.accepted
  isAsync : destructor.log.isAsync = log.isAsync
  sync : log.isAsync = false → destructor.stage.joined = true ∧ destructor.log.flusher = .idle ∧
    destructor.log.deque.deq = []
  free : destructor.log.mtx = none ∨ destructor.log.flusher = .holding
  waits : destructor.log.deque.condConsumer.members.length =
    if destructor.log.flusher = .popping then 1 else 0
  drained : destructor.stage.drained = true → destructor.log.deque.deq = []
  isClose : log.isAsync = true → destructor.log.deque.isClose = destructor.stage.closed
  ended : destructor.ended = true → destructor.log.flusher = .idle ∧ destructor.stage.drained = true
  joined : destructor.stage.joined = true → log.isAsync = true → destructor.ended = true

theorem begin_sound {log : Logger} (roomy : log.Roomy) (whole : log.Whole)
    (idle : ∀ id, log.threads id = .idle) : Sound log (begin log) where
  eventual := rfl
  accepted := rfl
  isAsync := rfl
  sync off := by
    refine ⟨?_, whole.sync off⟩
    simp only [begin, off, Bool.false_eq_true, if_false, Stage.joined]
  free := by
    cases owner : log.mtx with
    | none => exact .inl owner
    | some holder =>
      cases holder with
      | flusher => exact .inr (roomy.flusher.mpr owner)
      | thread id =>
        have holds := (roomy.held id).mpr owner
        rw [idle id] at holds
        cases holds
  waits := whole.waits
  drained passed := by
    cases on : log.isAsync with
    | true =>
      simp only [begin, on, if_true, Stage.drained] at passed
      cases passed
    | false => exact (whole.sync on).2
  isClose on := by
    simp only [begin, on, if_true, Stage.closed]
    exact roomy.isOpen
  ended isEnded := by cases isEnded
  joined passed on := by
    simp only [begin, on, if_true, Stage.joined] at passed
    cases passed

/-- A `pop` has a line in hand, or waits. -/
theorem popped_cases (log : Logger) (deque : BlockDeque LogLine) :
    (log.deque.deq = [] ∧ log.popped deque = { log with deque, flusher := .popping }) ∨
      ∃ front rest, log.deque.deq = front :: rest ∧
        log.popped deque = { log with deque, str := front.value, flusher := .writing } := by
  rw [popped]
  split
  · exact .inl ⟨‹_›, rfl⟩
  · exact .inr ⟨_, _, ‹_›, rfl⟩

variable {log : Logger} {destructor : Destructor}

/-- The flush thread pops, in a deque that may be closed. -/
theorem Sound.popped (sound : Sound log destructor) (on : log.isAsync = true)
    (notEnded : destructor.ended = false) (hand : destructor.log.inHand = [])
    (free : destructor.log.mtx = none) {deque : BlockDeque LogLine}
    (passed : BlockDeque.PassedOn destructor.log.deque deque)
    (waits : deque.condConsumer.members.length = if destructor.log.deque.deq = [] then 1 else 0) :
    Sound log { destructor with log := destructor.log.popped deque } := by
  have eventual := sound.eventual
  rw [Logger.eventual, inFlight, hand, List.nil_append] at eventual
  have off : log.isAsync ≠ false := by rw [on]; decide
  rcases popped_cases destructor.log deque with ⟨none, moved⟩ | ⟨front, rest, queued, moved⟩
  · have still : deque.deq = [] := by rw [passed.deq, none]; rfl
    rw [moved]
    refine ⟨?_, sound.accepted, sound.isAsync, fun isOff => absurd isOff off, .inl free, ?_,
      fun _ => still, fun on => passed.isClose.trans (sound.isClose on), fun isEnded => ?_, sound.joined⟩
    · rw [none] at eventual
      rw [← eventual, Logger.eventual, inFlight, inHand, still]
      rfl
    · rw [waits, if_pos none]
      rfl
    · rw [notEnded] at isEnded
      cases isEnded
  · have behind : deque.deq = rest := by rw [passed.deq, queued]; rfl
    rw [moved]
    refine ⟨?_, sound.accepted, sound.isAsync, fun isOff => absurd isOff off, .inl free, ?_,
      fun drained => ?_, fun on => passed.isClose.trans (sound.isClose on), fun isEnded => ?_, sound.joined⟩
    · rw [queued] at eventual
      rw [← eventual, Logger.eventual, inFlight, inHand, behind]
      rfl
    · rw [waits, if_neg (by rw [queued]; exact List.cons_ne_nil _ _)]
      rfl
    · have none := sound.drained drained
      rw [queued] at none
      cases none
    · rw [notEnded] at isEnded
      cases isEnded

/-- The deque changes, but for its lines and the number of consumers. -/
theorem Sound.withDeque (sound : Sound log destructor) {deque : BlockDeque LogLine} {stage : Stage}
    (deq : deque.deq = destructor.log.deque.deq)
    (members : deque.condConsumer.members ~ destructor.log.deque.condConsumer.members)
    (drained : stage.drained = true → deque.deq = [])
    (later : destructor.stage.drained = true → stage.drained = true)
    (isClose : log.isAsync = true → deque.isClose = stage.closed)
    (joined : stage.joined = destructor.stage.joined) :
    Sound log { destructor.withDeque deque with stage } where
  eventual := by
    rw [← sound.eventual, Logger.eventual, Logger.eventual, inFlight, inFlight, inHand, inHand]
    simp only [Destructor.withDeque, deq]
  accepted := sound.accepted
  isAsync := sound.isAsync
  sync off := by
    obtain ⟨before, idle, none⟩ := sound.sync off
    exact ⟨joined.trans before, idle, deq.trans none⟩
  free := sound.free
  waits := members.length_eq.trans sound.waits
  drained := drained
  isClose := isClose
  ended isEnded := ⟨(sound.ended isEnded).1, later (sound.ended isEnded).2⟩
  joined passed := sound.joined (joined.symm.trans passed)

/-- The stages of the destructor belong to a log with a flush thread, but for the last two. -/
theorem Sound.async (sound : Sound log destructor) (early : destructor.stage.joined = false) :
    log.isAsync = true := by
  by_contra off
  rw [(sound.sync (by simpa using off)).1] at early
  cases early

/-- A `pop` that finds the deque closed returns false. -/
theorem Sound.leave (sound : Sound log destructor) {how : Woken} {index pick : ℕ}
    (admits : destructor.Admits (.wake how index pick)) (closed : destructor.log.deque.isClose = true) :
    Sound log (destructor.wake how index pick) := by
  obtain ⟨_, popping, admits⟩ := admits
  have on : log.isAsync = true := by
    by_contra off
    have idle := (sound.sync (by simpa using off)).2.1
    rw [popping] at idle
    cases idle
  have isOff : log.isAsync ≠ false := by rw [on]; decide
  have shut : destructor.stage.closed = true := (sound.isClose on).symm.trans closed
  have drained : destructor.stage.drained = true := by
    cases stage : destructor.stage <;> rw [stage] at shut <;> first | rfl | cases shut
  have free : destructor.log.mtx = none :=
    sound.free.resolve_right (by rw [popping]; decide)
  have found := List.getElem?_eq_getElem admits.1
  have fewer := (members_resume found).length_eq
  have eventual := sound.eventual
  have waits := sound.waits
  rw [popping, if_pos rfl] at waits
  rw [List.length_cons, waits] at fewer
  rw [Logger.eventual, inFlight, inHand, popping] at eventual
  rw [Destructor.wake, if_pos closed]
  simp only [BlockDeque.step, found, BlockDeque.popWoken, Bool.and_false, Bool.false_eq_true, if_false,
    closed, if_true]
  exact ⟨eventual, sound.accepted, sound.isAsync, fun off => absurd off isOff, .inl free,
    (Nat.succ.inj fewer).symm, sound.drained, fun _ => shut.symm, fun _ => ⟨rfl, drained⟩,
    fun _ _ => rfl⟩

/-- The flush thread takes `mtx_`, or writes its line and gives it up. -/
theorem Sound.lock (sound : Sound log destructor) (waits : destructor.log.flusher = .writing) :
    Sound log { destructor with log := destructor.log.step .lock } where
  eventual := by
    rw [← sound.eventual, Logger.eventual, Logger.eventual, inFlight, inFlight, inHand, inHand, waits]
    rfl
  accepted := sound.accepted
  isAsync := sound.isAsync
  sync off := by
    have idle := (sound.sync off).2.1
    rw [waits] at idle
    cases idle
  free := .inr rfl
  waits := by
    have waiting := sound.waits
    rw [waits] at waiting
    exact waiting
  drained := sound.drained
  isClose := sound.isClose
  ended isEnded := by
    have idle := (sound.ended isEnded).1
    rw [waits] at idle
    cases idle
  joined := sound.joined

theorem Sound.writeOut (sound : Sound log destructor) (holding : destructor.log.flusher = .holding) :
    Sound log { destructor with log := destructor.log.step .writeOut } where
  eventual := by
    rw [← sound.eventual, Logger.eventual, Logger.eventual, inFlight, inFlight, inHand, inHand, holding]
    change _ ++ [(destructor.log.fp, destructor.log.str)] ++ _ = _ ++ List.map _ (_ :: _)
    rw [List.map_cons, List.append_assoc, List.singleton_append]
    rfl
  accepted := sound.accepted
  isAsync := sound.isAsync
  sync off := by
    have idle := (sound.sync off).2.1
    rw [holding] at idle
    cases idle
  free := .inl rfl
  waits := by
    have waits := sound.waits
    rw [holding] at waits
    exact waits
  drained := sound.drained
  isClose := sound.isClose
  ended isEnded := by
    have idle := (sound.ended isEnded).1
    rw [holding] at idle
    cases idle
  joined := sound.joined

theorem Sound.step (sound : Sound log destructor) {action : Action}
    (admits : destructor.Admits action) : Sound log (destructor.step action) := by
  obtain ⟨inner, stage, ended⟩ := destructor
  cases action with
  | empty =>
    obtain rfl : stage = .checking := admits
    have on := sound.async rfl
    change Sound log ⟨inner, if inner.deque.deq.isEmpty then .closing else .flushing, ended⟩
    cases none : inner.deque.deq.isEmpty with
    | true =>
      have empty : inner.deque.deq = [] := List.isEmpty_iff.mp none
      exact sound.withDeque rfl (.refl _) (fun _ => empty) (fun _ => rfl) sound.isClose rfl
    | false => exact sound.withDeque rfl (.refl _) (fun passed => by cases passed) id sound.isClose rfl
  | flush pick =>
    obtain ⟨rfl, _⟩ : stage = .flushing ∧ _ := admits
    exact sound.withDeque rfl (members_notifyOne pick _) (fun passed => by cases passed) id sound.isClose rfl
  | close =>
    obtain rfl : stage = .closing := admits
    have none : inner.deque.deq = [] := sound.drained rfl
    exact sound.withDeque none.symm (.refl _) (fun _ => rfl) (fun _ => rfl) (fun _ => rfl) rfl
  | closeProducers =>
    obtain rfl : stage = .notifyingProducers := admits
    exact sound.withDeque rfl (.refl _) sound.drained id sound.isClose rfl
  | closeConsumers =>
    obtain rfl : stage = .notifyingConsumers := admits
    exact sound.withDeque rfl (members_notifyAll _) sound.drained id sound.isClose rfl
  | join =>
    obtain ⟨rfl, isEnded⟩ : stage = .joining ∧ ended = true := admits
    have on := sound.async rfl
    exact ⟨sound.eventual, sound.accepted, sound.isAsync, fun off => absurd (on.symm.trans off) (by decide),
      sound.free, sound.waits, sound.drained, sound.isClose, sound.ended, fun _ _ => isEnded⟩
  | closeFile pick =>
    obtain ⟨rfl, _, _⟩ : stage = .locking ∧ _ ∧ _ := admits
    change Sound log { log := inner.flush pick, stage := .done, ended }
    rw [Logger.flush]
    split_ifs
    · exact sound.withDeque rfl (members_notifyOne pick _) sound.drained id sound.isClose rfl
    · exact sound.withDeque rfl (.refl _) sound.drained id sound.isClose rfl
  | pop pick =>
    obtain ⟨notEnded, async, idle, _⟩ := admits
    have hand : inner.inHand = [] := by rw [inHand, show inner.flusher = _ from idle]
    have free := sound.free.resolve_right (by rw [show inner.flusher = _ from idle]; decide)
    have waits := sound.waits
    rw [if_neg (by rw [show inner.flusher = _ from idle]; decide)] at waits
    refine sound.popped (sound.isAsync.symm.trans async) notEnded hand free
      (BlockDeque.popPass_passedOn _ _ _) ?_
    refine (BlockDeque.consumers_popPass ..).trans ?_
    exact (congrArg (· + _) waits).trans (Nat.zero_add _)
  | wake how index pick =>
    change Sound log (wake how index pick ⟨inner, stage, ended⟩)
    cases closed : inner.deque.isClose with
    | true => exact sound.leave admits closed
    | false =>
      rw [wake, if_neg (by rw [closed]; decide)]
      obtain ⟨notEnded, popping, woken⟩ := admits
      have popping : inner.flusher = .popping := popping
      have hand : inner.inHand = [] := by rw [inHand, popping]
      have free := sound.free.resolve_right (by rw [show inner.flusher = _ from popping]; decide)
      have on : log.isAsync = true := by
        by_contra off
        have idle : inner.flusher = .idle := (sound.sync (by simpa using off)).2.1
        rw [popping] at idle
        cases idle
      have waits : inner.deque.condConsumer.members.length = _ := sound.waits
      have after := BlockDeque.consumers_wakeConsumer closed woken
      rw [if_pos (show inner.flusher = .popping from popping)] at waits
      refine sound.popped on notEnded hand free (BlockDeque.wakeConsumer_passedOn closed woken) ?_
      change (inner.deque.step _).condConsumer.members.length = if inner.deque.deq = [] then 1 else 0
      omega
  | rouse index => exact sound.withDeque rfl (members_rouse index _) sound.drained id sound.isClose rfl
  | lock => exact sound.lock admits.1
  | writeOut => exact sound.writeOut admits

theorem sound_of_reachable (roomy : log.Roomy) (whole : log.Whole)
    (idle : ∀ id, log.threads id = .idle) (reached : (machine log).Reachable destructor) :
    Sound log destructor := by
  apply reached.invariant
  · rintro _ rfl
    exact begin_sound roomy whole idle
  · rintro source action _ sound ⟨admits, rfl⟩
    exact sound.step admits

/-! ## No line is lost -/

private def popRun : List Logger.Action := lineRun LogBuffer.shortCall ++ [.pop 0]

/-- The flush thread has the only line in hand. -/
private def inHandLog : Logger := popRun.foldl Logger.step (start true 1 .february)

private theorem inHandLog_reachable : (Logger.machine true 1 .february).Reachable inHandLog := by
  have line : Along Logger.step Logger.Admits (start true 1 .february) popRun :=
    ⟨trivial, trivial, rfl, picks_zero _, ⟨rfl, rfl, picks_zero _⟩, trivial⟩
  exact .run line (fun _ _ admits => ⟨admits, rfl⟩) (.init rfl)

private theorem inHandLog_quiet : ∀ id, inHandLog.threads id = .idle
  | 0 => rfl
  | _ + 1 => rfl

/-- When the flush thread is joined nobody is in a wait and nothing is on its way. -/
theorem Sound.settled (sound : Sound log destructor) (joined : destructor.stage.joined = true) :
    destructor.log.flusher = .idle ∧ destructor.log.inFlight = [] := by
  have idle : destructor.log.flusher = .idle := by
    cases on : log.isAsync with
    | true => exact (sound.ended (sound.joined joined on)).1
    | false => exact (sound.sync on).2.1
  have drained : destructor.stage.drained = true := by
    cases stage : destructor.stage <;> rw [stage] at joined <;> first | rfl | cases joined
  refine ⟨idle, ?_⟩
  rw [inFlight, inHand, idle, sound.drained drained]
  rfl

/-- A log that no thread is writing to, destroyed in any order of the two threads' steps: when the
destructor is through, the open file has got the lines that were on their way, in their order and nothing
else, each line ever composed has been written once, and the flush thread does not touch the file again. -/
theorem nothing_lost {isAsync : Bool} {maxCapacity : ℕ} {date : Date}
    (reached : (Logger.machine isAsync maxCapacity date).Reachable log)
    (idle : ∀ id, log.threads id = .idle) (destroyed : (machine log).Reachable destructor)
    (done : destructor.stage = .done) :
    destructor.log.written = log.written ++ log.inFlight.map (fun line => (log.fp, line)) ∧
      destructor.log.written.map Prod.snd ~ log.accepted ∧ ∀ action, ¬ destructor.Admits action := by
  have whole := whole_of_reachable reached
  have sound := sound_of_reachable (roomy_of_reachable reached) whole idle destroyed
  have joined : destructor.stage.joined = true := by rw [done]; rfl
  obtain ⟨rests, settled⟩ := sound.settled joined
  have written : destructor.log.written = log.eventual := by
    rw [← sound.eventual, Logger.eventual, settled, List.map_nil, List.append_nil]
  refine ⟨written, ?_, fun action admits => ?_⟩
  · have nothing : log.composing = [] := by
      rw [composing]
      split
      · rw [idle]
        rfl
      · rfl
      · rfl
    have kept := whole.kept
    rw [nothing, List.append_nil] at kept
    have named : (log.inFlight.map fun line => (log.fp, line)).map Prod.snd = log.inFlight := by
      rw [List.map_map]
      exact List.map_id _
    rwa [written, Logger.eventual, List.map_append, named]
  · have nobody : destructor.log.deque.condConsumer.members = [] := by
      apply List.length_eq_zero_iff.mp
      rw [sound.waits, if_neg (by rw [rests]; decide)]
    cases action with
    | empty | close | closeProducers | closeConsumers => cases done.symm.trans admits
    | flush | join | closeFile => cases done.symm.trans admits.1
    | pop pick =>
      obtain ⟨goesOn, async, _⟩ := admits
      rw [sound.joined joined (sound.isAsync.symm.trans async)] at goesOn
      cases goesOn
    | wake how index pick => cases rests.symm.trans admits.2.1
    | rouse index =>
      have asleep : destructor.log.deque.condConsumer.asleep = [] :=
        (List.append_eq_nil_iff.mp (List.append_eq_nil_iff.mp nobody).1).1
      have inside : index < destructor.log.deque.condConsumer.asleep.length := admits
      rw [asleep] at inside
      exact absurd inside (Nat.not_lt_zero _)
    | lock => cases rests.symm.trans admits.1
    | writeOut => cases rests.symm.trans admits

private def wholeRun : List Action :=
  [.lock, .writeOut, .pop 0, .empty, .close, .closeProducers, .closeConsumers, .wake .notified 0 0, .join,
    .closeFile 0]

/-- The flush thread writes the line it has in hand, and waits when the deque is closed. -/
theorem nothing_lost_inHand : (wholeRun.foldl step (begin inHandLog)).log.written =
    [(initFile .february, ⟨LogBuffer.shortCall, 0⟩)] := by
  have along : Along step Admits (begin inHandLog) wholeRun :=
    ⟨⟨rfl, rfl⟩, rfl, ⟨rfl, rfl, rfl, picks_zero _⟩, rfl, rfl, rfl, rfl,
      ⟨rfl, rfl, Nat.one_pos, picks_zero _⟩, ⟨rfl, rfl⟩, ⟨rfl, rfl, picks_zero _⟩, trivial⟩
  have destroyed : (machine inHandLog).Reachable (wholeRun.foldl step (begin inHandLog)) :=
    .run along (fun _ _ admits => ⟨admits, rfl⟩) (.init rfl)
  exact (nothing_lost inHandLog_reachable inHandLog_quiet destroyed rfl).1

/-! ## Whether it returns -/

/-- The flush thread has left its loop, or will when it has the lock of the deque. -/
structure Saved (log : Logger) (destructor : Destructor) : Prop where
  sound : Sound log destructor
  async : log.isAsync = true
  late : destructor.stage = .joining ∨ destructor.stage.joined = true
  leaves : destructor.ended = true ∨
    (destructor.log.flusher = .popping ∧ destructor.log.deque.condConsumer.asleep = [])

/-- The flush thread is not in its wait, or sleeps in it with nobody to notify it. -/
structure Hung (log : Logger) (destructor : Destructor) : Prop where
  sound : Sound log destructor
  joining : destructor.stage = .joining
  goesOn : destructor.ended = false
  notified : destructor.log.deque.condConsumer.notified = []
  roused : destructor.log.deque.condConsumer.roused = []

/-- What the two threads still have to do. -/
def rank (destructor : Destructor) : ℕ :=
  (if destructor.ended then 0 else 1) + match destructor.stage with
    | .joining => 2
    | .locking => 1
    | .checking | .flushing | .closing | .notifyingProducers | .notifyingConsumers | .done => 0

theorem Saved.step (saved : Saved log destructor) {action : Action}
    (admits : destructor.Admits action) :
    Saved log (destructor.step action) ∧ (destructor.step action).rank < destructor.rank := by
  have sound := saved.sound.step admits
  have late := saved.late
  obtain ⟨inner, stage, ended⟩ := destructor
  have away (found : Stage) (early : found ≠ .joining ∧ found.joined = false) : stage ≠ found := by
    rintro rfl
    rcases late with joining | joined
    · exact early.1 joining
    · exact Bool.false_ne_true (early.2.symm.trans joined)
  cases action with
  | empty => exact absurd admits (away .checking ⟨by decide, rfl⟩)
  | flush pick => exact absurd admits.1 (away .flushing ⟨by decide, rfl⟩)
  | close => exact absurd admits (away .closing ⟨by decide, rfl⟩)
  | closeProducers => exact absurd admits (away .notifyingProducers ⟨by decide, rfl⟩)
  | closeConsumers => exact absurd admits (away .notifyingConsumers ⟨by decide, rfl⟩)
  | join =>
    obtain ⟨rfl, isEnded⟩ : stage = .joining ∧ ended = true := admits
    exact ⟨⟨sound, saved.async, .inr rfl, .inl isEnded⟩, Nat.lt_succ_self _⟩
  | closeFile pick =>
    obtain ⟨rfl, _, _⟩ : stage = .locking ∧ _ ∧ _ := admits
    have isEnded : ended = true := saved.sound.joined rfl saved.async
    exact ⟨⟨sound, saved.async, .inr rfl, .inl isEnded⟩, Nat.lt_succ_self _⟩
  | pop pick =>
    obtain ⟨goesOn, _, idle, _⟩ := admits
    rcases saved.leaves with isEnded | ⟨popping, _⟩
    · cases goesOn.symm.trans isEnded
    · cases idle.symm.trans popping
  | wake how index pick =>
    obtain ⟨rfl, _⟩ : ended = false ∧ _ := admits
    have closed : inner.deque.isClose = true := by
      refine (saved.sound.isClose saved.async).trans ?_
      rcases late with rfl | joined
      · rfl
      · cases stage <;> first | rfl | cases joined
    have moved : Destructor.step ⟨inner, stage, false⟩ (.wake how index pick) =
        { log := { inner with
            deque := inner.deque.step (.wakeConsumer how index false pick)
            flusher := .idle }
          stage
          ended := true } := if_pos closed
    rw [moved] at sound ⊢
    refine ⟨⟨sound, saved.async, late, .inl rfl⟩, ?_⟩
    simp only [rank, if_true, Bool.false_eq_true, if_false]
    omega
  | rouse index =>
    have inside : index < inner.deque.condConsumer.asleep.length := admits
    have nobody : inner.deque.condConsumer.asleep = [] := by
      rcases saved.leaves with isEnded | ⟨_, asleep⟩
      · have waits : inner.deque.condConsumer.members.length = _ := saved.sound.waits
        rw [if_neg (by rw [(saved.sound.ended isEnded).1]; decide), List.length_eq_zero_iff] at waits
        exact (List.append_eq_nil_iff.mp (List.append_eq_nil_iff.mp waits).1).1
      · exact asleep
    rw [nobody] at inside
    exact absurd inside (Nat.not_lt_zero _)
  | lock =>
    have writing : inner.flusher = .writing := admits.1
    rcases saved.leaves with isEnded | ⟨popping, _⟩
    · cases (saved.sound.ended isEnded).1.symm.trans writing
    · cases popping.symm.trans writing
  | writeOut =>
    have holding : inner.flusher = .holding := admits
    rcases saved.leaves with isEnded | ⟨popping, _⟩
    · cases (saved.sound.ended isEnded).1.symm.trans holding
    · cases popping.symm.trans holding

/-- One of the two can go on, until the file is closed. -/
theorem Saved.goes_on (saved : Saved log destructor) :
    destructor.stage = .done ∨ ∃ action, destructor.Admits action := by
  have sound := saved.sound
  rcases saved.late with joining | joined
  · right
    rcases saved.leaves with isEnded | ⟨popping, asleep⟩
    · exact ⟨.join, joining, isEnded⟩
    · have goesOn : destructor.ended = false := by
        cases isEnded : destructor.ended with
        | false => rfl
        | true => cases popping.symm.trans (sound.ended isEnded).1
      have waits := sound.waits
      rw [popping, if_pos rfl, members, asleep, List.nil_append, List.length_append] at waits
      have woken : ∃ how, 0 < (destructor.log.deque.condConsumer.woken how).length := by
        rcases Nat.eq_zero_or_pos destructor.log.deque.condConsumer.notified.length with none | some
        · exact ⟨.roused, show 0 < destructor.log.deque.condConsumer.roused.length by omega⟩
        · exact ⟨.notified, some⟩
      obtain ⟨how, inside⟩ := woken
      exact ⟨.wake how 0 0, goesOn, popping, inside, picks_zero _⟩
  · cases stage : destructor.stage with
    | done => exact .inl rfl
    | locking =>
      have idle := (sound.settled joined).1
      have free := sound.free.resolve_right (by rw [idle]; decide)
      exact .inr ⟨.closeFile 0, stage, free, picks_zero _⟩
    | _ =>
      rw [stage] at joined
      cases joined

theorem Hung.step (hung : Hung log destructor) {action : Action} (admits : destructor.Admits action)
    (noRouse : ∀ index, action ≠ .rouse index) : Hung log (destructor.step action) := by
  have sound := hung.sound.step admits
  obtain ⟨inner, stage, ended⟩ := destructor
  obtain rfl : stage = .joining := hung.joining
  cases action with
  | empty | close | closeProducers | closeConsumers => cases admits
  | flush | closeFile => cases admits.1
  | join => cases hung.goesOn.symm.trans admits.2
  | rouse index => exact absurd rfl (noRouse index)
  | pop pick =>
    have none : inner.deque.deq = [] := hung.sound.drained rfl
    have moved : (inner.popped (inner.deque.pop inner.str pick)) = { inner with
        deque := { inner.deque with condConsumer := inner.deque.condConsumer.wait ⟨inner.str, false⟩ }
        flusher := .popping } := by
      simp only [Logger.popped, BlockDeque.pop, BlockDeque.popPass, none]
    have moved : Destructor.step ⟨inner, .joining, ended⟩ (.pop pick) = ⟨_, .joining, ended⟩ :=
      congrArg (Destructor.mk · .joining ended) moved
    rw [moved] at sound ⊢
    exact ⟨sound, rfl, hung.goesOn, hung.notified, hung.roused⟩
  | wake how index pick =>
    obtain ⟨_, _, inside, _⟩ := admits
    have nobody : (inner.deque.condConsumer.woken how).length = 0 := by
      cases how with
      | notified => exact List.length_eq_zero_iff.mpr hung.notified
      | roused => exact List.length_eq_zero_iff.mpr hung.roused
    have inside : index < (inner.deque.condConsumer.woken how).length := inside
    rw [nobody] at inside
    exact absurd inside (Nat.not_lt_zero _)
  | lock => exact ⟨sound, rfl, hung.goesOn, hung.notified, hung.roused⟩
  | writeOut => exact ⟨sound, rfl, hung.goesOn, hung.notified, hung.roused⟩

/-- When `Close` notifies the consumers it is decided whether the destructor returns. If the flush thread
is in its wait, or has ended, at most three steps are left in any order, and none is stuck before the file
is closed. If it is on its way to its next `pop`, the destructor is in `join` in every run from here, short
of a spurious wake-up. -/
theorem returns_of_waiting {isAsync : Bool} {maxCapacity : ℕ} {date : Date}
    (reached : (Logger.machine isAsync maxCapacity date).Reachable log)
    (idle : ∀ id, log.threads id = .idle) (destroyed : (machine log).Reachable destructor)
    (notifies : destructor.stage = .notifyingConsumers) :
    (destructor.ended = true ∨ destructor.log.flusher = .popping →
      ∀ steps last, (machine log).Steps (destructor.step .closeConsumers) steps last →
        steps ≤ 3 ∧ (last.stage = .done ∨ ∃ action, last.Admits action)) ∧
      (¬ (destructor.ended = true ∨ destructor.log.flusher = .popping) →
        ∀ last, ((machine log).restrict fun _ action => ∀ index, action ≠ .rouse index).Path
          (destructor.step .closeConsumers) last → last.stage = .joining) := by
  have sound := sound_of_reachable (roomy_of_reachable reached) (whole_of_reachable reached) idle destroyed
  have after : Sound log (destructor.step .closeConsumers) := sound.step notifies
  have async : log.isAsync = true := sound.async (by rw [notifies]; rfl)
  constructor
  · intro waits steps last run
    have saved : Saved log (destructor.step .closeConsumers) :=
      ⟨after, async, .inl rfl, waits.imp id fun popping => ⟨popping, rfl⟩⟩
    have lowers (source : Destructor) (action : Action) (target : Destructor)
        (saved : Saved log source) (step : (machine log).Step source action target) :
        Saved log target ∧ target.rank < source.rank := by
      obtain ⟨admits, rfl⟩ := step
      exact saved.step admits
    obtain ⟨saved, bound⟩ := run.ranked lowers saved
    have three : (destructor.step .closeConsumers).rank ≤ 3 := by
      change (if destructor.ended then 0 else 1) + 2 ≤ 3
      split_ifs
      · exact Nat.le_succ _
      · exact le_rfl
    exact ⟨by omega, saved.goes_on⟩
  · intro away last run
    obtain ⟨notEnded, notPopping⟩ := not_or.mp away
    have goesOn : destructor.ended = false := Bool.eq_false_of_not_eq_true notEnded
    have nobody : destructor.log.deque.condConsumer.members = [] := by
      rw [← List.length_eq_zero_iff, sound.waits, if_neg notPopping]
    rw [members, List.append_eq_nil_iff, List.append_eq_nil_iff] at nobody
    have notified : destructor.log.deque.condConsumer.notified ++
        destructor.log.deque.condConsumer.asleep = [] := by rw [nobody.1.1, nobody.1.2]; rfl
    have hung : Hung log (destructor.step .closeConsumers) :=
      ⟨after, rfl, goesOn, notified, nobody.2⟩
    refine (run.invariant (fun source action target hung step => ?_) hung).joining
    obtain ⟨⟨admits, rfl⟩, noRouse⟩ := step
    exact hung.step admits noRouse

/-- The flush thread waits for a line. -/
private def waitingLog : Logger := (start true 1 .february).step (.pop 0)

private def closing (log : Logger) : Destructor :=
  [.empty, .close, .closeProducers].foldl step (begin log)

private theorem closing_reachable {log : Logger} (async : log.isAsync = true)
    (empty : log.deque.deq = []) : (machine log).Reachable (closing log) := by
  have starts : begin log = ⟨log, .checking, false⟩ := by rw [begin, async]; rfl
  have first : (machine log).Reachable ⟨log, .checking, false⟩ := .init starts.symm
  have finds : (machine log).Step ⟨log, .checking, false⟩ .empty ⟨log, .closing, false⟩ :=
    ⟨rfl, by simp only [step, empty, List.isEmpty_nil, if_true]⟩
  have second : (machine log).Reachable ⟨log, .closing, false⟩ := .step first finds
  have closes : (machine log).Step ⟨log, .closing, false⟩ .close (step ⟨log, .closing, false⟩ .close) :=
    ⟨rfl, rfl⟩
  have third := Reachable.step second closes
  have same : closing log = ((Destructor.mk log .closing false).step .close).step .closeProducers := by
    simp only [closing, starts, List.foldl_cons, List.foldl_nil, step, empty, List.isEmpty_nil, if_true]
  have notifies : (machine log).Step (step ⟨log, .closing, false⟩ .close) .closeProducers
    ((step ⟨log, .closing, false⟩ .close).step .closeProducers) := ⟨rfl, rfl⟩
  rw [same]
  exact .step third notifies

/-- The destructor closes the deque while the flush thread has the last line in hand, and waits for ever;
had the thread been in its wait, it would return. -/
theorem returns_of_waiting_inHand :
    (∀ last, ((machine inHandLog).restrict fun _ action => ∀ index, action ≠ .rouse index).Path
      ((closing inHandLog).step .closeConsumers) last → last.stage = .joining) ∧
    ∀ steps last, (machine waitingLog).Steps ((closing waitingLog).step .closeConsumers) steps last →
      steps ≤ 3 ∧ (last.stage = .done ∨ ∃ action, last.Admits action) := by
  have reached : (Logger.machine true 1 .february).Reachable waitingLog :=
    .step (.init rfl) (show (Logger.machine true 1 .february).Step _ (.pop 0) _ from
      ⟨⟨rfl, rfl, picks_zero _⟩, rfl⟩)
  refine ⟨(returns_of_waiting inHandLog_reachable inHandLog_quiet (closing_reachable rfl rfl) rfl).2
    (by decide), ?_⟩
  exact (returns_of_waiting reached (fun _ => rfl) (closing_reachable rfl rfl) rfl).1 (.inr rfl)

end Destructor

end Logger

end XWebServer
