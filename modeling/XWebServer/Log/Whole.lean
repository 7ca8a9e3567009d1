import XWebServer.Log.Filing

/-! # Where the lines are

In every run, with any number of threads in `write` and across changes of the file, each composed line is
in one place: in a file, with the flush thread, in the deque, or with the thread that holds `mtx_`. The
flush thread is the only consumer of the deque.
-/

namespace XWebServer

open Transition System CondVar
open scoped List

namespace BlockDeque

variable {α : Type}

/-- A pass of `pop` that waits is a consumer more. -/
theorem consumers_popPass (consumer : Consumer α) (pick : ℕ) (queue : BlockDeque α) :
    (queue.popPass consumer pick).condConsumer.members.length =
      queue.condConsumer.members.length + if queue.deq = [] then 1 else 0 := by
  rw [popPass]
  split
  · rename_i none
    rw [if_pos none, (members_wait consumer queue.condConsumer).length_eq, List.length_cons]
  · rename_i front rest queued
    rw [if_neg (by rw [queued]; exact List.cons_ne_nil _ _)]
    rfl

/-- A consumer that is woken leaves its wait, and waits again if there is nothing. -/
theorem consumers_wakeConsumer {how : Woken} {index pick : ℕ} {queue : BlockDeque α}
    (isOpen : queue.isClose = false) (admits : queue.Admits (.wakeConsumer how index false pick)) :
    (queue.step (.wakeConsumer how index false pick)).condConsumer.members.length + 1 =
      queue.condConsumer.members.length + if queue.deq = [] then 1 else 0 := by
  have found := List.getElem?_eq_getElem admits.1
  have fewer := (members_resume found).length_eq
  rw [List.length_cons] at fewer
  simp only [step, found]
  rw [popWoken, Bool.and_false, if_neg Bool.false_ne_true, if_neg (by rw [isOpen]; decide),
    consumers_popPass]
  dsimp only
  omega

end BlockDeque

namespace Logger

variable {isAsync : Bool} {maxCapacity : ℕ} {date : Date}

/-- The line of the thread that holds `mtx_`, when it has composed one. -/
def composing (log : Logger) : List LogLine :=
  match log.mtx with
  | some (.thread id) => (log.threads id).composed
  | some .flusher | none => []

/-- Each line is in one place, and the flush thread is the only consumer. -/
structure Whole (log : Logger) : Prop where
  kept : log.written.map Prod.snd ++ log.composing ++ log.inFlight ~ log.accepted
  sync : log.isAsync = false → log.flusher = .idle ∧ log.deque.deq = []
  queues : ∀ id line, log.threads id = .passing line false → log.isAsync = true
  waits : log.deque.condConsumer.members.length = if log.flusher = .popping then 1 else 0

theorem start_whole : (start isAsync maxCapacity date).Whole where
  kept := .refl _
  sync _ := ⟨rfl, rfl⟩
  queues id line stage := by cases stage
  waits := rfl

/-- A thread that does not hold `mtx_` goes on without it. -/
theorem composing_put_free {log : Logger} (roomy : log.Roomy) {id : ℕ} {position : Position}
    (before : (log.threads id).holds = false) : (log.put id position).composing = log.composing := by
  simp only [composing, put]
  split
  · rename_i other owner
    have apart : other ≠ id := by
      rintro rfl
      rw [(roomy.held other).mpr owner] at before
      cases before
    rw [Function.update_of_ne apart]
  · rfl
  · rfl

/-- What neither moves a line nor touches the consumers. -/
theorem Whole.congr {log other : Logger} (whole : log.Whole) (isAsync : other.isAsync = log.isAsync)
    (queues : ∀ id line, other.threads id = .passing line false → log.threads id = .passing line false)
    (written : other.written = log.written) (accepted : other.accepted = log.accepted)
    (composing : other.composing = log.composing) (flusher : other.flusher = log.flusher)
    (str : other.str = log.str) (deq : other.deque.deq = log.deque.deq)
    (members : other.deque.condConsumer.members ~ log.deque.condConsumer.members) : other.Whole where
  kept := by
    have kept := whole.kept
    rwa [inFlight, inHand, written, accepted, composing, flusher, str, deq]
  sync := by
    rw [isAsync, flusher, deq]
    exact whole.sync
  queues id line stage := isAsync.trans (whole.queues id line (queues id line stage))
  waits := by rw [members.length_eq, flusher, whole.waits]

/-- A thread moves to a position that does not push. -/
theorem queues_put {log : Logger} {id : ℕ} {position : Position}
    (notPassing : ∀ line, position ≠ .passing line false) (other : ℕ) (line : LogLine)
    (stage : (log.put id position).threads other = .passing line false) :
    log.threads other = .passing line false := by
  rcases position_put stage with ⟨_, same⟩ | ⟨_, stage⟩
  · exact absurd same (notPassing line)
  · exact stage

theorem Whole.put_free {log : Logger} (whole : log.Whole) (roomy : log.Roomy) {id : ℕ}
    {position : Position} (before : (log.threads id).holds = false) (after : position.holds = false) :
    (log.put id position).Whole := by
  have notPassing (line : LogLine) : position ≠ .passing line false := by
    rintro rfl
    cases after
  exact whole.congr rfl (queues_put notPassing) rfl rfl (composing_put_free roomy before) rfl rfl rfl
    (.refl _)

/-- `flush` wakes the flush thread at most. -/
theorem Whole.flush {log : Logger} (whole : log.Whole) (pick : ℕ) : (log.flush pick).Whole := by
  rw [Logger.flush]
  split_ifs
  · exact whole.congr rfl (fun _ _ stage => stage) rfl rfl rfl rfl rfl rfl (members_notifyOne pick _)
  · exact whole

theorem composing_of {log : Logger} {id : ℕ} (owner : log.mtx = some (.thread id)) :
    log.composing = (log.threads id).composed := by
  simp only [composing, owner]

theorem Whole.reopen {log : Logger} (whole : log.Whole) (roomy : log.Roomy) {id : ℕ} {call : LogCall}
    {newFile : Bytes} (stage : log.threads id = .closing call newFile) (pick : ℕ) :
    (log.reopen id call newFile pick).Whole := by
  have owner := (roomy.held id).mp (by rw [stage]; rfl)
  have flushed := whole.flush pick
  have nothing : (log.flush pick).composing = [] := by
    rw [Logger.flush]
    split_ifs <;> exact (composing_of owner).trans (by rw [stage]; rfl)
  have quiet : ({ log.flush pick with fp := newFile, mtx := none } : Logger).Whole :=
    flushed.congr rfl (fun _ _ stage => stage) rfl rfl (by rw [nothing]; rfl) rfl rfl rfl (.refl _)
  exact quiet.congr rfl (queues_put (by simp)) rfl rfl rfl rfl rfl rfl (.refl _)

/-- A line is composed. -/
theorem Whole.enter {log : Logger} (whole : log.Whole) (free : log.mtx = none) (id : ℕ)
    (call : LogCall) : (log.enter id call).Whole where
  kept := by
    have kept := whole.kept
    have nothing : log.composing = [] := by rw [composing, free]
    have here : (log.enter id call).composing = [⟨call, (log.linesOf call.time.toDate).length⟩] := by
      refine (composing_of rfl).trans ?_
      simp only [Logger.enter, put, Function.update_self, Position.composed]
    rw [nothing, List.append_nil] at kept
    rw [here]
    change log.written.map Prod.snd ++ [_] ++ log.inFlight ~ log.accepted ++ [_]
    rw [List.append_assoc]
    apply (List.perm_append_comm.append_left _).trans
    rw [← List.append_assoc]
    exact kept.append_right _
  sync := whole.sync
  queues other line stage := by
    rcases position_put stage with ⟨_, same⟩ | ⟨_, stage⟩
    · have queues := (Position.passing.injEq ..).mp same
      simp only [Bool.not_eq_false', Bool.and_eq_true] at queues
      exact queues.2.1
    · exact whole.queues other line stage
  waits := whole.waits

/-- It goes to the deque, or to the file. -/
theorem Whole.pass {log : Logger} (whole : log.Whole) (roomy : log.Roomy) {id : ℕ} {line : LogLine}
    {direct : Bool} (stage : log.threads id = .passing line direct) (pick : ℕ) :
    (log.pass id line direct pick).Whole := by
  have owner := (roomy.held id).mp (by rw [stage]; rfl)
  have kept := whole.kept
  have here : log.composing = [line] := (composing_of owner).trans (by rw [stage]; rfl)
  have queues (other : ℕ) (found : LogLine)
      (stage : (log.put id .idle).threads other = .passing found false) : log.isAsync = true :=
    whole.queues other found (queues_put (by simp) other found stage)
  rw [here] at kept
  cases direct with
  | true =>
    refine ⟨?_, whole.sync, queues, whole.waits⟩
    change (log.written ++ [(log.fp, line)]).map Prod.snd ++ [] ++ log.inFlight ~ _
    rwa [List.map_append, List.append_nil]
  | false =>
    have room := roomy.room id line stage
    have isOff : log.isAsync ≠ false := by rw [whole.queues id line stage]; decide
    obtain ⟨deque, passed, queued⟩ := pass_of_room room id line pick
    have consumers : deque.condConsumer.members ~ log.deque.condConsumer.members := by
      have same : deque = log.deque.pushBack line pick := by
        have other := passed
        rw [Logger.pass, if_neg Bool.false_ne_true, pushed, if_neg (by rw [room]; decide)] at other
        exact (congrArg Logger.deque other).symm
      rw [same]
      simp only [BlockDeque.pushBack, BlockDeque.pushPass, room, Bool.false_eq_true, if_false]
      exact members_notifyOne pick _
    rw [passed]
    refine ⟨?_, fun off => absurd off isOff, queues, consumers.length_eq.trans whole.waits⟩
    have flight : ({ log with deque, mtx := none }.put id .idle : Logger).inFlight =
        log.inFlight ++ [line] := by
      rw [inFlight, inFlight, List.append_assoc, ← queued]
      rfl
    rw [flight]
    change log.written.map Prod.snd ++ [] ++ (log.inFlight ++ [line]) ~ _
    rw [List.append_nil]
    rw [List.append_assoc] at kept
    exact (List.perm_append_comm.append_left _).trans kept

/-- The flush thread takes the front line, or waits. -/
theorem Whole.popped {log : Logger} (whole : log.Whole) (async : log.isAsync = true)
    (free : log.inHand = []) {deque : BlockDeque LogLine} (rest : deque.deq = log.deque.deq.tail)
    (waits : deque.condConsumer.members.length = if log.deque.deq = [] then 1 else 0) :
    (log.popped deque).Whole := by
  have kept := whole.kept
  have on : log.isAsync ≠ false := by rw [async]; decide
  rw [inFlight, free, List.nil_append] at kept
  rw [Logger.popped]
  split
  · rename_i none
    refine ⟨?_, fun off => absurd off on, whole.queues, ?_⟩
    · rw [none] at kept
      change _ ++ _ ++ ([] ++ deque.deq.map (·.value)) ~ _
      rw [rest, none]
      exact kept
    · rw [waits, if_pos none]
      rfl
  · rename_i front back queued
    refine ⟨?_, fun off => absurd off on, whole.queues, ?_⟩
    · rw [queued] at kept
      change _ ++ _ ++ ([front.value] ++ deque.deq.map (·.value)) ~ _
      rw [rest, queued]
      exact kept
    · rw [waits, if_neg (by rw [queued]; exact List.cons_ne_nil _ _)]
      rfl

theorem Whole.lock {log : Logger} (whole : log.Whole) (free : log.mtx = none)
    (waits : log.flusher = .writing) :
    ({ log with mtx := some .flusher, flusher := .holding } : Logger).Whole where
  kept := by
    have kept := whole.kept
    rw [composing, free, inFlight, inHand, waits] at kept
    exact kept
  sync off := by
    have idle := (whole.sync off).1
    rw [waits] at idle
    cases idle
  queues := whole.queues
  waits := by
    rw [whole.waits, waits]
    rfl

theorem Whole.writeOut {log : Logger} (whole : log.Whole) (roomy : log.Roomy)
    (holding : log.flusher = .holding) : log.writeOut.Whole where
  kept := by
    have kept := whole.kept
    rw [composing, roomy.flusher.mp holding, inFlight, inHand, holding] at kept
    change (log.written ++ [(log.fp, log.str)]).map Prod.snd ++ [] ++ ([] ++ _) ~ _
    rw [List.map_append, List.append_nil, List.nil_append, List.append_assoc]
    rw [List.append_nil] at kept
    exact kept
  sync off := by
    have idle := (whole.sync off).1
    rw [holding] at idle
    cases idle
  queues := whole.queues
  waits := by
    have waits := whole.waits
    rw [holding] at waits
    exact waits

/-- What every step keeps. -/
theorem Whole.move {log next : Logger} {action : Action} (whole : log.Whole) (roomy : log.Roomy)
    (moves : log.Moves action next) : next.Whole := by
  cases moves with
  | @call id call stage =>
    have later : ({ log with latest := call.time.toDate } : Logger).Whole :=
      whole.congr rfl (fun _ _ stage => stage) rfl rfl rfl rfl rfl rfl (.refl _)
    exact later.put_free (roomy.congr rfl rfl rfl rfl)
      (show (log.threads id).holds = false by rw [stage]; rfl) rfl
  | check stage =>
    rw [Logger.check]
    split_ifs
    · exact whole.put_free roomy (by rw [stage]; rfl) rfl
    · exact whole.put_free roomy (by rw [stage]; rfl) rfl
  | touch stage => exact whole.put_free roomy (by rw [stage]; rfl) rfl
  | @name id call stage =>
    have before : (log.threads id).holds = false := by rw [stage]; rfl
    have reset : ({ log with toDay := call.time.mday, lineCount := 0 } : Logger).Whole :=
      whole.congr rfl (fun _ _ stage => stage) rfl rfl rfl rfl rfl rfl (.refl _)
    rw [Logger.name]
    split_ifs
    · exact reset.put_free (roomy.congr rfl rfl rfl rfl) before rfl
    · exact whole.put_free roomy before rfl
  | @relock id call newFile stage free =>
    have nothing : log.composing = [] := by rw [composing, free]
    refine whole.congr rfl (queues_put (by simp)) rfl rfl ?_ rfl rfl rfl (.refl _)
    rw [nothing]
    refine (composing_of rfl).trans ?_
    simp only [put, Function.update_self, Position.composed]
  | reopen stage => exact whole.reopen roomy stage _
  | enter stage free => exact whole.enter free _ _
  | pass stage => exact whole.pass roomy stage _
  | resume stage => exact absurd stage (roomy.awake _ _)
  | pop async idle =>
    have free : log.inHand = [] := by rw [inHand, idle]
    refine whole.popped async free (BlockDeque.popPass_passedOn _ _ _).deq ?_
    have waits := whole.waits
    rw [idle] at waits
    rw [BlockDeque.pop, BlockDeque.consumers_popPass, waits]
    exact Nat.zero_add _
  | wake popping admits =>
    have free : log.inHand = [] := by rw [inHand, popping]
    have async : log.isAsync = true := by
      by_contra off
      have idle := (whole.sync (by simpa using off)).1
      rw [popping] at idle
      cases idle
    refine whole.popped async free (BlockDeque.wakeConsumer_passedOn roomy.isOpen admits).deq ?_
    have waits := whole.waits
    have after := BlockDeque.consumers_wakeConsumer roomy.isOpen admits
    rw [popping, if_pos rfl] at waits
    omega
  | rouseProducer => exact whole.congr rfl (fun _ _ stage => stage) rfl rfl rfl rfl rfl rfl (.refl _)
  | rouseConsumer =>
    exact whole.congr rfl (fun _ _ stage => stage) rfl rfl rfl rfl rfl rfl (members_rouse _ _)
  | lock waits free => exact whole.lock free waits
  | writeOut holding => exact whole.writeOut roomy holding
  | flush => exact whole.flush _

theorem whole_of_reachable {log : Logger}
    (reached : (machine isAsync maxCapacity date).Reachable log) : log.Whole := by
  have both : log.Roomy ∧ log.Whole := by
    apply reached.invariant
    · rintro _ rfl
      exact ⟨start_roomy, start_whole⟩
    · rintro source action _ ⟨roomy, whole⟩ ⟨admits, rfl⟩
      have moves := moves_of_admits admits
      exact ⟨roomy.move moves, whole.move roomy moves⟩
  exact both.2

end Logger

end XWebServer
