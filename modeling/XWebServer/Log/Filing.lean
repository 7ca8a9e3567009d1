import XWebServer.Lib.Numbering
import XWebServer.Log.QueueRoom

/-! # Which file a line gets into

A change of file is decided from the day of the month, and a line that is still queued goes to whatever
file is open when the flush thread comes to it. So, with calls one after the other and no date going back,
every line gets into the file of its date and part as long as a message with the day of month of `toDay_`
is one of the open file's date, nothing is on its way when the file changes, and the counter stays an `int`.
-/

namespace XWebServer

open Transition System CondVar Numbering
open scoped List

/-- The file a line belongs into: the parts of a date have `MAX_LINES` lines. -/
def LogLine.file (line : LogLine) : Bytes := Logger.fileName line.date (line.index / Logger.maxLines)

/-- The line a thread has composed and not yet handed on. -/
def Position.composed : Position → List LogLine
  | .passing line _ | .waiting line => [line]
  | .idle | .called _ | .rotating _ | .naming _ | .reopening _ _ | .closing _ _ | .entering _ => []

namespace Logger

variable {isAsync : Bool} {maxCapacity : ℕ} {date : Date}

/-- The line the flush thread has in hand. -/
def inHand (log : Logger) : List LogLine :=
  match log.flusher with
  | .writing | .holding => [log.str]
  | .idle | .popping => []

/-- The lines handed on and not yet written. -/
def inFlight (log : Logger) : List LogLine := log.inHand ++ log.deque.deq.map (·.value)

/-- Every line is in the right file, the lines of a date are numbered from 0, none is lost, and no file has
more than `MAX_LINES` lines. -/
structure Filed (log : Logger) : Prop where
  written : ∀ file line, (file, line) ∈ log.written → file = line.file
  numbered : Numbered LogLine.date LogLine.index log.accepted
  kept : (∀ id, log.threads id = .idle) → log.inFlight = [] →
    (log.written.map Prod.snd).Perm log.accepted
  limit : ∀ file, log.written.countP (·.1 = file) ≤ maxLines

/-- Calls come one after the other, and dates do not go back. -/
def Sequential (log : Logger) : Action → Prop
  | .call _ call => (∀ id, log.threads id = .idle) ∧ log.latest ≤ call.time.toDate
  | _ => True

/-- When the decisions of a step are right: the day of month tells the date of the open file from that of
the message, nothing is on its way to the file that is closed, and the counter does not overflow. -/
def Keeps (log : Logger) : Action → Prop
  | .check id => ∀ call, log.threads id = .called call → log.toDay = call.time.mday →
      ∃ part, log.fp = fileName call.time.toDate part
  | .reopen _ _ => log.inFlight = []
  | .enter _ => log.lineCount + 1 < 2 ^ 31
  | _ => True

/-! ## The invariant -/

/-- What the position of the thread in `write` says about the open file, the latest date, and the date and
count of the lines that `toDay_` and `lineCount_` stand for. -/
def Stands (fp : Bytes) (latest day : Date) (count : ℕ) : Position → Prop
  | .idle => fp = fileName day ((count - 1) / maxLines)
  | .called call => fp = fileName day ((count - 1) / maxLines) ∧ call.time.toDate = latest
  | .rotating call | .naming call => call.time.toDate = latest ∧
      (day.mday = call.time.mday → call.time.toDate = day ∧ count / maxLines ≠ 0)
  | .reopening call newFile | .closing call newFile =>
      call.time.toDate = day ∧ newFile = fileName day (count / maxLines)
  | .entering call => call.time.toDate = day ∧ fp = fileName day (count / maxLines)
  | .passing line _ => line.file = fp ∧ fp = fileName day ((count - 1) / maxLines)
  | .waiting _ => False

/-- The log, with one thread at a position in `write` and the others idle. -/
structure Filing (log : Logger) (id : ℕ) (position : Position) (day : Date) (count : ℕ) : Prop where
  stage : log.threads id = position
  others : ∀ other, other ≠ id → log.threads other = .idle
  toDay : log.toDay = day.mday
  lineCount : log.lineCount = count
  lines : (log.linesOf day).length = count
  small : count < 2 ^ 31
  days : ∀ line ∈ log.accepted, line.date ≤ day
  latest : day ≤ log.latest
  numbered : Numbered LogLine.date LogLine.index log.accepted
  written : ∀ file line, (file, line) ∈ log.written → file = line.file
  waiting : ∀ line ∈ log.inFlight, line.file = log.fp
  perm : (log.written.map Prod.snd ++ position.composed ++ log.inFlight).Perm log.accepted
  stands : Stands log.fp log.latest day count position

theorem start_filing (id : ℕ) : (start isAsync maxCapacity date).Filing id .idle date 0 where
  stage := rfl
  others _ _ := rfl
  toDay := rfl
  lineCount := rfl
  lines := rfl
  small := by decide
  days line member := absurd member List.not_mem_nil
  latest := le_rfl
  numbered := numbered_nil
  written file line member := absurd member List.not_mem_nil
  waiting line member := absurd member List.not_mem_nil
  perm := .refl _
  stands := initFile_eq date

section Steps

variable {log : Logger} {id : ℕ} {position : Position} {day : Date} {count : ℕ} {call : LogCall}

/-- The thread in `write` moves on, and with it at most lines that are on their way. -/
theorem Filing.goes {other : Logger} {next : Position} (filing : log.Filing id position day count)
    (threads : other.threads = Function.update log.threads id next) (toDay : other.toDay = log.toDay)
    (lineCount : other.lineCount = log.lineCount) (accepted : other.accepted = log.accepted)
    (latest : other.latest = log.latest)
    (written : ∀ file line, (file, line) ∈ other.written → file = line.file)
    (waiting : ∀ line ∈ other.inFlight, line.file = other.fp)
    (perm : (other.written.map Prod.snd ++ next.composed ++ other.inFlight).Perm log.accepted)
    (stands : Stands other.fp log.latest day count next) : other.Filing id next day count where
  stage := by rw [threads, Function.update_self]
  others away ne := by rw [threads, Function.update_of_ne ne, filing.others away ne]
  toDay := by rw [toDay, filing.toDay]
  lineCount := by rw [lineCount, filing.lineCount]
  lines := by rw [linesOf, accepted]; exact filing.lines
  small := filing.small
  days := by rw [accepted]; exact filing.days
  latest := by rw [latest]; exact filing.latest
  numbered := by rw [accepted]; exact filing.numbered
  written := written
  waiting := waiting
  perm := by rw [accepted]; exact perm
  stands := by rw [latest]; exact stands

/-- What leaves the fields of the invariant alone, and the lines on their way. -/
theorem Filing.congr {other : Logger} (filing : log.Filing id position day count)
    (threads : other.threads = log.threads) (toDay : other.toDay = log.toDay)
    (lineCount : other.lineCount = log.lineCount) (fp : other.fp = log.fp)
    (accepted : other.accepted = log.accepted) (written : other.written = log.written)
    (latest : other.latest = log.latest) (flight : other.inFlight = log.inFlight) :
    other.Filing id position day count := by
  refine filing.goes ?_ toDay lineCount accepted latest ?_ ?_ ?_ ?_
  · rw [threads, ← filing.stage, Function.update_eq_self]
  · rw [written]
    exact filing.written
  · rw [flight, fp]
    exact filing.waiting
  · rw [written, flight]
    exact filing.perm
  · rw [fp]
    exact filing.stands

/-- It moves with the line it has composed. -/
theorem Filing.put (filing : log.Filing id position day count) {next : Position}
    (composed : next.composed = position.composed)
    (stands : Stands log.fp log.latest day count next) : (log.put id next).Filing id next day count := by
  refine filing.goes rfl rfl rfl rfl rfl filing.written filing.waiting ?_ stands
  rw [composed]
  exact filing.perm

/-- With all threads idle any of them is the one. -/
theorem Filing.anyone (filing : log.Filing id position day count) (idle : ∀ id, log.threads id = .idle)
    (other : ℕ) : log.Filing other .idle day count := by
  have here : position = .idle := filing.stage.symm.trans (idle id)
  subst here
  exact { filing with stage := idle other, others := fun id _ => idle id }

theorem Filing.begin (filing : log.Filing id .idle day count) {call : LogCall}
    (later : log.latest ≤ call.time.toDate) : (log.begin id call).Filing id (.called call) day count := by
  have moved : ({ log with latest := call.time.toDate } : Logger).Filing id .idle day count :=
    { filing with latest := filing.latest.trans later }
  exact moved.put rfl ⟨filing.stands, rfl⟩

/-- What the two fields say. -/
theorem Filing.asksForFile_iff (filing : log.Filing id position day count) (call : LogCall) :
    log.asksForFile call = true ↔
      day.mday ≠ call.time.mday ∨ (count ≠ 0 ∧ count % maxLines = 0) := by
  rw [asksForFile, filing.toDay, filing.lineCount, ← Int.ofNat_tmod]
  simp only [Bool.or_eq_true, Bool.and_eq_true, bne_iff_ne, beq_iff_eq, ne_eq, Int.natCast_eq_zero]

theorem Filing.check (filing : log.Filing id (.called call) day count)
    (tells : log.toDay = call.time.mday → ∃ part, log.fp = fileName call.time.toDate part) :
    ∃ next, (log.check id call).Filing id next day count := by
  obtain ⟨fp, now⟩ := filing.stands
  have same (mday : day.mday = call.time.mday) : call.time.toDate = day := by
    obtain ⟨part, name⟩ := tells (filing.toDay.trans mday)
    exact (fileName_inj (name.symm.trans fp)).1
  have asks := filing.asksForFile_iff call
  rw [Logger.check]
  split_ifs with answer
  · refine ⟨_, filing.put rfl ⟨now, fun mday => ⟨same mday, ?_⟩⟩⟩
    obtain ⟨some, whole⟩ := (asks.mp answer).resolve_left (not_not_intro mday)
    rw [maxLines] at whole ⊢
    omega
  · rw [asks, not_or, not_not] at answer
    refine ⟨_, filing.put rfl ⟨same answer.1, ?_⟩⟩
    have part : (count - 1) / maxLines = count / maxLines := by
      have notFull := answer.2
      rw [maxLines] at notFull ⊢
      omega
    rw [← part]
    exact fp

/-- The name is that of the next line's file. -/
theorem Filing.name (filing : log.Filing id (.naming call) day count) :
    ∃ newFile day count, (log.name id call).Filing id (.reopening call newFile) day count := by
  obtain ⟨now, same⟩ := filing.stands
  rw [Logger.name, filing.toDay]
  split_ifs with changes
  · refine ⟨dayFile call.time.toDate, call.time.toDate, 0, ?_⟩
    have later : day ≤ call.time.toDate := by
      rw [now]
      exact filing.latest
    have none : log.linesOf call.time.toDate = [] := by
      rw [linesOf, List.filter_eq_nil_iff]
      intro line member
      rw [decide_eq_true_eq]
      intro today
      have back : call.time.toDate ≤ day := today ▸ filing.days line member
      exact changes (congrArg Date.mday (le_antisymm later back))
    exact
      { stage := Function.update_self ..
        others := fun other ne => (Function.update_of_ne ne ..).trans (filing.others other ne)
        toDay := rfl
        lineCount := rfl
        lines := congrArg List.length none
        small := by decide
        days := fun line member => (filing.days line member).trans later
        latest := now.le
        numbered := filing.numbered
        written := filing.written
        waiting := filing.waiting
        perm := filing.perm
        stands := ⟨rfl, dayFile_eq _⟩ }
  · obtain ⟨today, some⟩ := same (not_not.mp changes)
    refine ⟨_, day, count, filing.put rfl ⟨today, ?_⟩⟩
    rw [filing.lineCount, ← Int.ofNat_tdiv, partFile_eq _ some, today]
    have small := filing.small
    rw [maxLines]
    omega

theorem Filing.withDeque (filing : log.Filing id position day count) {deque : BlockDeque LogLine}
    (same : deque.deq = log.deque.deq) : ({ log with deque } : Logger).Filing id position day count := by
  refine filing.congr rfl rfl rfl rfl rfl rfl rfl ?_
  rw [inFlight, inFlight, same]
  rfl

/-- The new file gets none of the old one's lines. -/
theorem Filing.reopen {newFile : Bytes} (filing : log.Filing id (.closing call newFile) day count)
    (settled : log.inFlight = []) (pick : ℕ) :
    (log.reopen id call newFile pick).Filing id (.entering call) day count := by
  obtain ⟨today, name⟩ := filing.stands
  obtain ⟨deque, flushed, same, _⟩ := log.flush_eq pick
  have quiet := filing.withDeque same
  have empty : ({ log with deque } : Logger).inFlight = [] := by
    rw [← settled, inFlight, inFlight, same]
    rfl
  rw [Logger.reopen, flushed]
  exact quiet.goes rfl rfl rfl rfl rfl filing.written
    (fun line member => absurd (empty ▸ member) List.not_mem_nil) quiet.perm ⟨today, name⟩

theorem increment_eq {n : ℕ} (small : (n : ℤ) + 1 < 2 ^ 31) : increment n = (n + 1 : ℕ) := by
  rw [increment, BitVec.toInt_ofInt_eq_self (by decide) (by omega) (by omega)]
  rfl

/-- The new line is numbered next, and belongs into the open file. -/
theorem Filing.enter (filing : log.Filing id (.entering call) day count)
    (small : log.lineCount + 1 < 2 ^ 31) :
    ∃ line direct, (log.enter id call).Filing id (.passing line direct) day (count + 1) := by
  obtain ⟨today, name⟩ := filing.stands
  rw [filing.lineCount] at small
  refine ⟨⟨call, (log.linesOf call.time.toDate).length⟩, !(log.isAsync && !log.deque.full), ?_⟩
  have index : (log.linesOf call.time.toDate).length = count := by rw [today, filing.lines]
  have own (line : LogLine) (today : line.date = day) : [line].filter (·.date = day) = [line] :=
    List.filter_cons_of_pos (decide_eq_true today)
  exact
    { stage := Function.update_self ..
      others := fun other ne => (Function.update_of_ne ne ..).trans (filing.others other ne)
      toDay := filing.toDay
      lineCount := by
        change increment log.lineCount = _
        rw [filing.lineCount, increment_eq small]
      lines := by
        change ((log.accepted ++ [_]).filter _).length = _
        rw [List.filter_append, List.length_append, own ⟨call, _⟩ today]
        exact congrArg (· + 1) filing.lines
      small := by omega
      days := by
        intro line member
        rcases List.mem_append.mp member with before | last
        · exact filing.days line before
        · rw [List.mem_singleton.mp last]
          exact today.le
      latest := filing.latest
      numbered := filing.numbered.concat rfl
      written := filing.written
      waiting := filing.waiting
      perm := by
        have before := filing.perm
        rw [Position.composed, List.append_nil] at before
        rw [Position.composed, List.append_assoc]
        apply (List.perm_append_comm.append_left _).trans
        rw [← List.append_assoc]
        exact before.append_right _
      stands := by
        have part : (count + 1 - 1) / maxLines = count / maxLines := by rw [Nat.add_sub_cancel]
        refine ⟨?_, name.trans (by rw [part])⟩
        change fileName call.time.toDate (_ / maxLines) = log.fp
        rw [index, name, today] }

/-- It is the turn of the thread that is in `write`. -/
theorem Filing.turn (filing : log.Filing id position day count) {other : ℕ} {found : Position}
    (stage : log.threads other = found) (busy : found ≠ .idle) : log.Filing other found day count := by
  rcases eq_or_ne other id with rfl | ne
  · obtain rfl : position = found := filing.stage.symm.trans stage
    exact filing
  · exact absurd (stage.symm.trans (filing.others other ne)) busy

/-- A line of the open file is put there. -/
theorem Filing.puts (filing : log.Filing id position day count) {line : LogLine}
    (own : line.file = log.fp) :
    ∀ file other, (file, other) ∈ log.written ++ [(log.fp, line)] → file = other.file := by
  intro file other member
  rcases List.mem_append.mp member with before | last
  · exact filing.written file other before
  · obtain ⟨rfl, rfl⟩ := Prod.mk.inj (List.mem_singleton.mp last)
    exact own.symm

/-- A deque with room takes the line. -/
theorem pass_of_room (room : log.deque.full = false) (id : ℕ) (line : LogLine) (pick : ℕ) :
    ∃ deque, log.pass id line false pick = { log with deque, mtx := none }.put id .idle ∧
      deque.deq.map (·.value) = log.deque.deq.map (·.value) ++ [line] := by
  refine ⟨log.deque.pushBack line pick, ?_, ?_⟩
  · rw [Logger.pass, if_neg Bool.false_ne_true, pushed, if_neg (by rw [room]; decide)]
  · rw [BlockDeque.deq_pushBack room, List.map_append]
    rfl

/-- The line is handed on. -/
theorem Filing.pass {line : LogLine} {direct : Bool}
    (filing : log.Filing id (.passing line direct) day count)
    (room : direct = false → log.deque.full = false) (pick : ℕ) :
    (log.pass id line direct pick).Filing id .idle day count := by
  obtain ⟨own, name⟩ := filing.stands
  have perm := filing.perm
  cases direct with
  | true =>
    refine filing.goes rfl rfl rfl rfl rfl (filing.puts own) filing.waiting ?_ name
    change ((log.written ++ [(log.fp, line)]).map Prod.snd ++ [] ++ log.inFlight).Perm _
    rw [List.map_append, List.append_nil]
    exact perm
  | false =>
    obtain ⟨deque, pushed, queued⟩ := pass_of_room (room rfl) id line pick
    have flight : ({ log with deque, mtx := none }.put id .idle : Logger).inFlight =
        log.inFlight ++ [line] := by
      rw [inFlight, inFlight, List.append_assoc, ← queued]
      rfl
    rw [pushed]
    refine filing.goes rfl rfl rfl rfl rfl filing.written ?_ ?_ name
    · intro other member
      rw [flight] at member
      rcases List.mem_append.mp member with before | last
      · exact filing.waiting other before
      · rw [List.mem_singleton.mp last]
        exact own
    · rw [flight, Position.composed, List.append_nil]
      rw [Position.composed, List.append_assoc] at perm
      exact (List.perm_append_comm.append_left _).trans perm

/-- The flush thread takes the front line in hand, if there is one. -/
theorem Filing.popped (filing : log.Filing id position day count) (free : log.inHand = [])
    {deque : BlockDeque LogLine} (rest : deque.deq = log.deque.deq.tail) :
    (log.popped deque).Filing id position day count := by
  have before : log.inFlight = log.deque.deq.map (·.value) := by rw [inFlight, free, List.nil_append]
  rw [Logger.popped]
  split
  · rename_i none
    refine filing.congr rfl rfl rfl rfl rfl rfl rfl ?_
    rw [before, inFlight, rest, none]
    rfl
  · rename_i front back queued
    refine filing.congr rfl rfl rfl rfl rfl rfl rfl ?_
    rw [before, inFlight, rest, queued]
    rfl

theorem Filing.lock (filing : log.Filing id position day count) (waits : log.flusher = .writing) :
    ({ log with mtx := some .flusher, flusher := .holding } : Logger).Filing id position day count := by
  refine filing.congr rfl rfl rfl rfl rfl rfl rfl ?_
  rw [inFlight, inFlight, inHand, inHand, waits]

theorem Filing.writeOut (filing : log.Filing id position day count) (holding : log.flusher = .holding) :
    log.writeOut.Filing id position day count := by
  have flight : log.inFlight = log.str :: log.writeOut.inFlight := by
    rw [inFlight, inHand, holding]
    rfl
  have own : log.str.file = log.fp := filing.waiting log.str (by rw [flight]; exact List.mem_cons_self)
  have swap : (log.str :: (position.composed ++ log.writeOut.inFlight)).Perm
      (position.composed ++ log.str :: log.writeOut.inFlight) := List.perm_middle.symm
  exact
    { filing with
      written := filing.puts own
      waiting := fun line member => filing.waiting line (by rw [flight]; exact .tail _ member)
      perm := by
        have perm := filing.perm
        rw [flight, List.append_assoc] at perm
        change ((log.written ++ [(log.fp, log.str)]).map Prod.snd ++ _ ++ _).Perm _
        rw [List.map_append, List.append_assoc, List.append_assoc]
        exact (swap.append_left _).trans perm }

/-- Whether the thread moves or another, or the flush thread. -/
theorem Filing.move {action : Action} {next : Logger} (filing : log.Filing id position day count)
    (roomy : log.Roomy) (moves : log.Moves action next) (sequential : log.Sequential action)
    (keeps : log.Keeps action) : ∃ id position day count, next.Filing id position day count := by
  cases moves with
  | call stage => exact ⟨_, _, _, _, (filing.anyone sequential.1 _).begin sequential.2⟩
  | check stage =>
    obtain ⟨position, next⟩ := (filing.turn stage (by simp)).check (keeps _ stage)
    exact ⟨_, position, _, _, next⟩
  | touch stage _ =>
    have turn := filing.turn stage (by simp)
    exact ⟨_, _, _, _, turn.put rfl turn.stands⟩
  | name stage =>
    obtain ⟨newFile, day, count, next⟩ := (filing.turn stage (by simp)).name
    exact ⟨_, _, day, count, next⟩
  | @relock id call newFile stage _ =>
    have turn := filing.turn stage (by simp)
    have taken : ({ log with mtx := some (.thread id) } : Logger).Filing id (.reopening call newFile) day
        count := turn.congr rfl rfl rfl rfl rfl rfl rfl rfl
    exact ⟨_, _, _, _, taken.put rfl turn.stands⟩
  | reopen stage => exact ⟨_, _, _, _, (filing.turn stage (by simp)).reopen keeps _⟩
  | enter stage _ =>
    obtain ⟨line, direct, next⟩ := (filing.turn stage (by simp)).enter keeps
    exact ⟨_, _, _, _, next⟩
  | @pass id _ line direct stage =>
    have room : direct = false → log.deque.full = false := by
      rintro rfl
      exact roomy.room id line stage
    exact ⟨_, _, _, _, (filing.turn stage (by simp)).pass room _⟩
  | resume stage => exact absurd stage (roomy.awake _ _)
  | pop _ idle =>
    have free : log.inHand = [] := by rw [inHand, idle]
    exact ⟨_, _, _, _, filing.popped free (BlockDeque.popPass_passedOn _ _ _).deq⟩
  | wake waits admits =>
    have free : log.inHand = [] := by rw [inHand, waits]
    exact ⟨_, _, _, _, filing.popped free (BlockDeque.wakeConsumer_passedOn roomy.isOpen admits).deq⟩
  | rouseProducer => exact ⟨_, _, _, _, filing.withDeque rfl⟩
  | rouseConsumer => exact ⟨_, _, _, _, filing.withDeque rfl⟩
  | lock waits _ => exact ⟨_, _, _, _, filing.lock waits⟩
  | writeOut holding => exact ⟨_, _, _, _, filing.writeOut holding⟩
  | @flush pick =>
    obtain ⟨deque, flushed, same, _⟩ := log.flush_eq pick
    rw [flushed]
    exact ⟨_, _, _, _, filing.withDeque same⟩

end Steps

theorem filing_of_reachable {log : Logger}
    (reached : ((machine isAsync maxCapacity date).restrict
      (fun log action => log.Sequential action ∧ log.Keeps action)).Reachable log) :
    ∃ id position day count, log.Filing id position day count := by
  apply Reachable.guarded_invariant (fun _ => roomy_of_reachable) _ _ reached
  · rintro _ rfl
    exact ⟨0, _, _, _, start_filing 0⟩
  · rintro source action _ roomy ⟨id, position, day, count, filing⟩ ⟨sequential, keeps⟩ ⟨admits, rfl⟩
    exact filing.move roomy (moves_of_admits admits) sequential keeps

/-! ## The files -/

section Files

variable {log : Logger} {id : ℕ} {position : Position} {day : Date} {count : ℕ}

/-- The lines of a file are of one part of a date, and that part is numbered. -/
theorem Filing.limit (filing : log.Filing id position day count) (file : Bytes) :
    log.written.countP (·.1 = file) ≤ maxLines := by
  rcases Nat.eq_zero_or_pos (log.written.countP (·.1 = file)) with none | some
  · rw [none]
    exact Nat.zero_le _
  · obtain ⟨⟨found, first⟩, member, same⟩ := List.countP_pos_iff.mp some
    obtain rfl : found = file := of_decide_eq_true same
    have name := filing.written found first member
    let inPart (line : LogLine) : Bool :=
      line.date = first.date ∧ line.index / maxLines = first.index / maxLines
    have whole : (log.written.map Prod.snd).countP inPart ≤ log.accepted.countP inPart := by
      rw [← filing.perm.countP_eq, List.append_assoc, List.countP_append]
      exact Nat.le_add_right _ _
    calc log.written.countP (·.1 = found)
        ≤ log.written.countP (inPart ∘ Prod.snd) := by
          apply List.countP_mono_left
          rintro ⟨file, line⟩ written same
          have here : file = found := of_decide_eq_true same
          have here : line.file = first.file := by
            rw [← filing.written file line written, here, name]
          exact decide_eq_true (fileName_inj here)
      _ = (log.written.map Prod.snd).countP inPart := List.countP_map.symm
      _ ≤ log.accepted.countP inPart := whole
      _ ≤ maxLines := filing.numbered.part_le first.date _ (by decide)

theorem Filing.filed (filing : log.Filing id position day count) : log.Filed where
  written := filing.written
  numbered := filing.numbered
  kept idle settled := by
    have perm := (filing.anyone idle id).perm
    rwa [settled, Position.composed, List.append_nil, List.append_nil] at perm
  limit := filing.limit

end Files

/-- In every run that keeps to the conditions every line is in the file of its date and part. -/
theorem filed_of_reachable {log : Logger}
    (reached : ((machine isAsync maxCapacity date).restrict
      (fun log action => log.Sequential action ∧ log.Keeps action)).Reachable log) : log.Filed := by
  obtain ⟨_, _, _, _, filing⟩ := filing_of_reachable reached
  exact filing.filed

/-- One thread logs a line, without another file. -/
def lineRun (call : LogCall) : List Action := [.call 0 call, .check 0, .enter 0, .pass 0 0]

/-- The flush thread then writes it. -/
def fileRun : List Action := lineRun LogBuffer.shortCall ++ [.pop 0, .lock, .writeOut]

/-- A call on the same day of the next month. -/
def marchCall : LogCall := { LogBuffer.shortCall with time := Date.march.midnight }

/-- A call two months on, on another day of the month. -/
def aprilCall : LogCall := { LogBuffer.shortCall with time := Date.april.midnight }

/-- It sleeps, and the deque is empty, when the next call opens another file; then it writes that line. -/
private def crossing : List Action :=
  fileRun ++ [.pop 0, .call 0 aprilCall, .check 0, .touch 0, .name 0, .relock 0, .reopen 0 0, .enter 0,
    .pass 0 0, .wake .notified 0 0, .lock, .writeOut]

/-- Each line goes through the deque into the file of its date. -/
theorem filed_of_reachable_crossing : (crossing.foldl step (start true 1 .february)).Filed ∧
    (crossing.foldl step (start true 1 .february)).written =
      [(initFile .february, ⟨LogBuffer.shortCall, 0⟩), (dayFile .april, ⟨aprilCall, 0⟩)] := by
  have tells (call : LogCall) (stage : Position.called LogBuffer.shortCall = .called call) :
      ∃ part, initFile .february = fileName call.time.toDate part := by
    cases stage
    exact ⟨0, initFile_eq .february⟩
  have other (call : LogCall) (stage : Position.called aprilCall = .called call) :
      5 ≠ call.time.mday := by
    cases stage
    decide
  have idle (id : ℕ) : (fileRun.foldl step (start true 1 .february)).threads id = .idle := by
    rcases eq_or_ne id 0 with rfl | away
    · rfl
    · exact (Function.update_of_ne away _ _).trans ((Function.update_of_ne away _ _).trans
        ((Function.update_of_ne away _ _).trans (Function.update_of_ne away _ _)))
  have small : (0 : ℤ) + 1 < 2 ^ 31 := by decide
  have along : Along step
      (fun log action => log.Admits action ∧ log.Sequential action ∧ log.Keeps action)
      (start true 1 .february) crossing :=
    ⟨⟨trivial, ⟨fun _ => rfl, le_rfl⟩, trivial⟩, ⟨trivial, trivial, fun call stage _ => tells call stage⟩,
      ⟨rfl, trivial, small⟩, ⟨picks_zero _, trivial, trivial⟩,
      ⟨⟨rfl, rfl, picks_zero _⟩, trivial, trivial⟩, ⟨⟨rfl, rfl⟩, trivial, trivial⟩,
      ⟨rfl, trivial, trivial⟩, ⟨⟨rfl, rfl, picks_zero _⟩, trivial, trivial⟩,
      ⟨trivial, ⟨fun id => idle id, by decide⟩, trivial⟩,
      ⟨trivial, trivial, fun call stage same => absurd same (other call stage)⟩,
      ⟨rfl, trivial, trivial⟩, ⟨trivial, trivial, trivial⟩, ⟨rfl, trivial, trivial⟩,
      ⟨picks_zero _, trivial, rfl⟩, ⟨rfl, trivial, small⟩, ⟨picks_zero _, trivial, trivial⟩,
      ⟨⟨rfl, Nat.one_pos, picks_zero _⟩, trivial, trivial⟩, ⟨⟨rfl, rfl⟩, trivial, trivial⟩,
      ⟨rfl, trivial, trivial⟩, trivial⟩
  exact ⟨filed_of_reachable (.run along (fun _ _ passes => ⟨⟨passes.1, rfl⟩, passes.2⟩) (.init rfl)), rfl⟩

/-- Without the conditions a line of March gets into a file of February. -/
theorem not_forall_filed : ¬ ∀ (isAsync : Bool) (maxCapacity : ℕ) (date : Date) (log : Logger),
    ((machine isAsync maxCapacity date).restrict Sequential).Reachable log → log.Filed := by
  intro filed
  have along : Along step (fun log action => log.Admits action ∧ log.Sequential action)
      (start false 1 .february) (lineRun marchCall) :=
    ⟨⟨trivial, fun _ => rfl, by decide⟩, ⟨trivial, trivial⟩, ⟨rfl, trivial⟩, ⟨picks_zero _, trivial⟩,
      trivial⟩
  have reached : ((machine false 1 .february).restrict Sequential).Reachable
      ((lineRun marchCall).foldl step (start false 1 .february)) :=
    .run along (fun _ _ passes => ⟨⟨passes.1, rfl⟩, passes.2⟩) (.init rfl)
  have there := (filed _ _ _ _ reached).written (initFile .february) ⟨marchCall, 0⟩
    (List.mem_singleton.mpr rfl)
  have march : fileName .february 0 = fileName .march 0 := (initFile_eq .february).symm.trans there
  exact absurd (fileName_inj march).1 (by decide)

end Logger

end XWebServer
