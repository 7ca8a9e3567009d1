import XWebServer.Http.Vectors

/-! # Two clients of one connection object

`trace` is everything a client of an initialised object can see: the bytes sent, the values of
`ToWriteBytes`, and what each task decides. Two objects that went through `Init` differ in what `Init`
leaves alone. Of that only the lengths in `iov` are ever read before they are overwritten; `Matched` is
the relation that then holds between the objects from one task to the next.
-/

namespace XWebServer

namespace HttpConn

open HttpRequest HttpResponse Slice

/-- A task for the connection, with the answers of the kernel. -/
inductive Event where
  | readable (outcomes : List ReadvOutcome)
  | writable (outcomes : List WriteOutcome)
deriving DecidableEq, Repr

/-- What one task shows: the bytes sent, `ToWriteBytes` after `Write` and after `Process` if they ran, and
the decision. -/
structure Seen where
  sent : Bytes
  afterWrite : Option ℤ
  afterProcess : Option ℤ
  decision : Decision
deriving DecidableEq, Repr

section

variable (isET : Bool) (host : Host)

def reactRead (outcomes : List ReadvOutcome) (conn : HttpConn) : Except Fault (Seen × HttpConn) := do
  let (decision, next) ← conn.onRead isET host outcomes
  .ok (⟨[], none, if decision = .close then none else some next.toWriteBytes, decision⟩, next)

def reactWrite (outcomes : List WriteOutcome) (conn : HttpConn) : Except Fault (Seen × HttpConn) := do
  let written ← conn.write isET outcomes
  let (decision, next) ← conn.onWrite isET host outcomes
  .ok (⟨written.sent, some written.conn.toWriteBytes,
    if written.verdict = .nextRequest then some next.toWriteBytes else none, decision⟩, next)

/-- The tasks of a connection as far as it is armed for them, and how the last of them ends it. -/
def trace : Decision → List Event → HttpConn → List (Except Fault Seen)
  | .armIn, .readable outcomes :: rest, conn =>
      match reactRead isET host outcomes conn with
      | .error fault => [.error fault]
      | .ok (seen, next) => .ok seen :: trace seen.decision rest next
  | .armOut, .writable outcomes :: rest, conn =>
      match reactWrite isET host outcomes conn with
      | .error fault => [.error fault]
      | .ok (seen, next) => .ok seen :: trace seen.decision rest next
  | _, _, _ => []

/-- What `Read` returns, and the bytes it takes in. -/
def arrival : List ReadvOutcome → Returned × Bytes
  | [] => (⟨-1, some .eagain⟩, [])
  | .error errno :: _ => (⟨-1, some errno⟩, [])
  | .data bytes :: rest =>
      if bytes = [] then (⟨0, none⟩, [])
      else if isET then ((arrival rest).1, bytes ++ (arrival rest).2)
      else (⟨bytes.length, none⟩, bytes)

end

/-- `Read` returns the same on every connection and changes the read buffer only. -/
theorem read_arrival (isET : Bool) (outcomes : List ReadvOutcome) (conn : HttpConn) :
    ∃ buff : ByteBuffer, conn.read isET outcomes =
        ((arrival isET outcomes).1, { conn with readBuff := buff }) ∧
      buff.content = conn.readBuff.content ++ (arrival isET outcomes).2 := by
  induction outcomes generalizing conn with
  | nil => exact ⟨conn.readBuff, rfl, (List.append_nil _).symm⟩
  | cons outcome rest ih =>
    cases outcome with
    | error errno => exact ⟨conn.readBuff, rfl, (List.append_nil _).symm⟩
    | data bytes =>
      have content := conn.readBuff.content_receive bytes
      rw [read, arrival]
      split_ifs with none edge
      · subst none
        exact ⟨_, rfl, content⟩
      · obtain ⟨buff, run, more⟩ := ih { conn with readBuff := conn.readBuff.receive bytes }
        refine ⟨buff, run, ?_⟩
        rw [more, content, List.append_assoc]
      · exact ⟨_, rfl, content⟩

/-! ## The relation -/

/-- The same bytes to read and to write. -/
structure Alike (first second : HttpConn) : Prop where
  readBuff : first.readBuff.content = second.readBuff.content
  writeBuff : first.writeBuff.content = second.writeBuff.content

/-- And vectors of the same lengths. -/
structure Level (first second : HttpConn) : Prop extends Alike first second where
  iov0 : first.iov0.len = second.iov0.len
  iov1 : first.iov1.len = second.iov1.len

/-- And everything that a response being sent depends on. -/
structure Twin (first second : HttpConn) : Prop extends Level first second where
  request : first.request = second.request
  iovCnt : first.iovCnt = second.iovCnt
  first_exact : first.Exact
  second_exact : second.Exact
  file : first.iovCnt = 2 → first.iov1.base = second.iov1.base ∧ first.fileBytes = second.fileBytes

/-- What is needed between two objects to go on alike, by what they are armed for. -/
def Matched : Decision → HttpConn → HttpConn → Prop
  | .armIn, first, second => Level first second
  | .armOut, first, second => Twin first second
  | .close, _, _ => True

theorem Level.toWriteBytes {first second : HttpConn} (level : Level first second) :
    first.toWriteBytes = second.toWriteBytes := by
  unfold HttpConn.toWriteBytes
  rw [level.iov0, level.iov1]

theorem Twin.offered {first second : HttpConn} (twin : Twin first second) :
    first.offered = second.offered := by
  rw [HttpConn.offered, HttpConn.offered, twin.iov0, twin.iov1, twin.iovCnt]

theorem Twin.gather {first second : HttpConn} (twin : Twin first second) :
    first.gather = second.gather := by
  rw [twin.first_exact.gather_eq, twin.second_exact.gather_eq, twin.writeBuff, ← twin.iovCnt]
  split_ifs with count
  · rw [(twin.file count).1, (twin.file count).2, twin.iov1]
  · rfl

/-- Accepted bytes keep twins twins. -/
theorem Twin.advance {first second : HttpConn} (twin : Twin first second) (len : ℕ) :
    ∃ firstNext secondNext, first.advance len = .ok firstNext ∧
      second.advance len = .ok secondNext ∧ Twin firstNext secondNext := by
  obtain ⟨firstNext, firstMoved, firstKeeps, firstExact, firstContent, firstHead, firstSecond⟩ :=
    twin.first_exact.advance len
  obtain ⟨secondNext, secondMoved, secondKeeps, secondExact, secondContent, secondHead, secondSecond⟩ :=
    twin.second_exact.advance len
  refine ⟨firstNext, secondNext, firstMoved, secondMoved, ⟨⟨⟨?_, ?_⟩, ?_, ?_⟩, ?_, ?_, firstExact,
    secondExact, fun count => ⟨?_, ?_⟩⟩⟩
  · rw [firstKeeps.readBuff, secondKeeps.readBuff, twin.readBuff]
  · rw [firstContent, secondContent, twin.writeBuff]
  · rw [firstHead, secondHead, twin.iov0]
  · rw [firstSecond, secondSecond, twin.iov0, twin.iov1]
    split_ifs
    · rfl
    · exact twin.iov1
  · rw [firstKeeps.request, secondKeeps.request, twin.request]
  · rw [firstKeeps.iovCnt, secondKeeps.iovCnt, twin.iovCnt]
  · have base := (twin.file (firstKeeps.iovCnt ▸ count)).1
    rw [firstSecond, secondSecond, twin.iov0]
    split_ifs
    · rw [base]
    · exact base
  · rw [fileBytes, fileBytes, firstKeeps.response, secondKeeps.response]
    exact (twin.file (firstKeeps.iovCnt ▸ count)).2

/-- `Write` shows the same on twins and leaves twins. -/
theorem Twin.write {first second : HttpConn} (twin : Twin first second) (isET : Bool)
    (outcomes : List WriteOutcome) :
    ∃ firstWritten secondWritten, first.write isET outcomes = .ok firstWritten ∧
      second.write isET outcomes = .ok secondWritten ∧
      firstWritten.returned = secondWritten.returned ∧ firstWritten.sent = secondWritten.sent ∧
      Twin firstWritten.conn secondWritten.conn := by
  induction outcomes generalizing first second with
  | nil => exact ⟨_, _, rfl, rfl, rfl, rfl, twin⟩
  | cons outcome rest ih =>
    cases outcome with
    | error errno => exact ⟨_, _, rfl, rfl, rfl, rfl, twin⟩
    | accepted count =>
      rw [HttpConn.write, HttpConn.write]
      simp only [← twin.offered, ← twin.gather, ← twin.iov0, ← twin.iov1]
      split_ifs with none done
      · exact ⟨_, _, rfl, rfl, rfl, rfl, twin⟩
      · exact ⟨_, _, rfl, rfl, rfl, rfl, twin⟩
      · obtain ⟨firstNext, secondNext, firstMoved, secondMoved, next⟩ :=
          twin.advance (min count first.offered)
        simp only [firstMoved, secondMoved, ← next.toWriteBytes]
        split_ifs with more
        · obtain ⟨firstWritten, secondWritten, firstRun, secondRun, returned, sent, last⟩ := ih next
          rw [firstRun, secondRun]
          exact ⟨_, _, rfl, rfl, returned, by dsimp only; rw [sent], last⟩
        · exact ⟨_, _, rfl, rfl, rfl, rfl, next⟩

/-! ## The tasks -/

/-- The same bytes arriving keep the relation. -/
theorem Alike.received {first second : HttpConn} (alike : Alike first second)
    {firstBuff secondBuff : ByteBuffer} {bytes : Bytes}
    (firstContent : firstBuff.content = first.readBuff.content ++ bytes)
    (secondContent : secondBuff.content = second.readBuff.content ++ bytes) :
    Alike { first with readBuff := firstBuff } { second with readBuff := secondBuff } where
  readBuff := by rw [firstContent, secondContent, alike.readBuff]
  writeBuff := alike.writeBuff

/-- The same response prepared on both objects makes them twins, if the second vector agreed before or is
overwritten. -/
theorem Prepares.twin {first second firstNext secondNext : HttpConn} {made : Answer}
    (alike : Alike first second) (prepared : Prepares first made firstNext)
    (secondPrepared : Prepares second made secondNext)
    (settled : made.file = none → first.iov1.len = second.iov1.len) : Twin firstNext secondNext := by
  have text : firstNext.writeBuff.content = secondNext.writeBuff.content := by
    rw [prepared.writeBuff, secondPrepared.writeBuff, alike.writeBuff]
  have head : firstNext.iov0.len = secondNext.iov0.len := by
    rw [prepared.iov0, secondPrepared.iov0]
    dsimp only
    rw [← ByteBuffer.content_length, ← ByteBuffer.content_length, text]
  have left : firstNext.readBuff.content = secondNext.readBuff.content := by
    rw [prepared.readBuff, secondPrepared.readBuff, alike.readBuff]
  have request : firstNext.request = secondNext.request := by
    rw [prepared.request, secondPrepared.request, alike.readBuff]
  cases file : made.file with
  | none =>
    obtain ⟨firstCount, firstOld⟩ := prepared.noFile file
    obtain ⟨secondCount, secondOld⟩ := secondPrepared.noFile file
    refine ⟨⟨⟨left, text⟩, head, ?_⟩, request, ?_, prepared.exact, secondPrepared.exact, ?_⟩
    · rw [firstOld, secondOld, settled file]
    · rw [firstCount, secondCount]
    · intro count
      exact absurd (firstCount.symm.trans count) (by decide)
  | some bytes =>
    obtain ⟨firstCount, firstVector, firstBytes⟩ := prepared.withFile bytes file
    obtain ⟨secondCount, secondVector, secondBytes⟩ := secondPrepared.withFile bytes file
    refine ⟨⟨⟨left, text⟩, head, ?_⟩, request, ?_, prepared.exact, secondPrepared.exact, ?_⟩
    · rw [firstVector, secondVector]
    · rw [firstCount, secondCount]
    · intro _
      exact ⟨by rw [firstVector, secondVector], by rw [firstBytes, secondBytes]⟩

/-- `Process` on the same readable bytes crashes on both objects, or prepares the same response; after it
the objects are twins if the second vector agreed before or has been overwritten. -/
theorem Alike.process {first second : HttpConn} (alike : Alike first second)
    (some : first.readBuff.content ≠ []) (host : Host) :
    (first.process host = .error .badMapping ∧ second.process host = .error .badMapping) ∨
      ∃ firstNext secondNext, first.process host = .ok (true, firstNext) ∧
        second.process host = .ok (true, secondNext) ∧
        (first.iov1.len = second.iov1.len ∨ host.Opens (requestPath first.readBuff.content) →
          Twin firstNext secondNext) := by
  have secondSome : second.readBuff.content ≠ [] := alike.readBuff ▸ some
  rcases process_cases some host with ⟨fails, crash⟩ | ⟨maps, made, firstNext, response, run, prepared⟩
  · rcases process_cases secondSome host with ⟨_, again⟩ | ⟨maps, _⟩
    · exact Or.inl ⟨crash, again⟩
    · exact absurd (alike.readBuff ▸ fails) maps
  · rcases process_cases secondSome host with ⟨fails, _⟩ |
      ⟨_, other, secondNext, same, again, secondPrepared⟩
    · exact absurd (alike.readBuff ▸ fails) maps
    · rw [← alike.readBuff] at same
      obtain rfl := Except.ok.inj (response.symm.trans same)
      refine Or.inr ⟨firstNext, secondNext, run, again, fun settled => ?_⟩
      refine prepared.twin alike secondPrepared fun file => settled.resolve_right fun opens => ?_
      rw [← (parse_init some).2] at opens
      have mapped := answer_file opens response
      rw [file] at mapped
      cases mapped

/-- Both tasks crash alike, or show the same and leave matched objects. -/
def Agree (first second : Except Fault (Seen × HttpConn)) : Prop :=
  (∃ fault, first = .error fault ∧ second = .error fault) ∨
    ∃ seen firstNext secondNext, first = .ok (seen, firstNext) ∧ second = .ok (seen, secondNext) ∧
      Matched seen.decision firstNext secondNext

/-- `OnProcess` on level objects crashes on both, or arms both alike. -/
theorem Level.onProcess {first second : HttpConn} (level : Level first second) (host : Host) :
    (∃ fault, first.onProcess host = .error fault ∧ second.onProcess host = .error fault) ∨
      ∃ decision firstNext secondNext, first.onProcess host = .ok (decision, firstNext) ∧
        second.onProcess host = .ok (decision, secondNext) ∧ Level firstNext secondNext ∧
        decision ≠ .close ∧ Matched decision firstNext secondNext := by
  unfold HttpConn.onProcess
  by_cases empty : first.readBuff.content = []
  · have secondEmpty : second.readBuff.content = [] := level.readBuff ▸ empty
    rw [process_empty empty, process_empty secondEmpty]
    exact Or.inr ⟨.armIn, _, _, rfl, rfl, ⟨⟨level.readBuff, level.writeBuff⟩, level.iov0, level.iov1⟩,
      by decide, ⟨⟨level.readBuff, level.writeBuff⟩, level.iov0, level.iov1⟩⟩
  · rcases level.toAlike.process empty host with ⟨crash, again⟩ |
      ⟨firstNext, secondNext, run, again, twins⟩
    · rw [crash, again]
      exact Or.inl ⟨_, rfl, rfl⟩
    · rw [run, again]
      have twin := twins (Or.inl level.iov1)
      exact Or.inr ⟨.armOut, _, _, rfl, rfl, twin.toLevel, by decide, twin⟩

/-- `Read` failed, so `OnRead` closes the connection. -/
def Returned.Failed (returned : Returned) : Prop :=
  returned.len ≤ 0 ∧ returned.errno ≠ some .eagain

instance (returned : Returned) : Decidable returned.Failed := inferInstanceAs (Decidable (_ ∧ _))

theorem onRead_eq (isET : Bool) (host : Host) (outcomes : List ReadvOutcome) (conn : HttpConn) :
    ∃ buff : ByteBuffer, buff.content = conn.readBuff.content ++ (arrival isET outcomes).2 ∧
      conn.onRead isET host outcomes =
        if (arrival isET outcomes).1.Failed then .ok (.close, { conn with readBuff := buff })
        else onProcess host { conn with readBuff := buff } := by
  obtain ⟨buff, run, content⟩ := read_arrival isET outcomes conn
  refine ⟨buff, content, ?_⟩
  rw [onRead, run]
  rfl

/-- A readable event shows the same on level objects. -/
theorem Level.reactRead {first second : HttpConn} (level : Level first second) (isET : Bool)
    (host : Host) (outcomes : List ReadvOutcome) :
    Agree (reactRead isET host outcomes first) (reactRead isET host outcomes second) := by
  obtain ⟨firstBuff, firstContent, firstRun⟩ := onRead_eq isET host outcomes first
  obtain ⟨secondBuff, secondContent, secondRun⟩ := onRead_eq isET host outcomes second
  have arrived : Level { first with readBuff := firstBuff } { second with readBuff := secondBuff } :=
    ⟨level.toAlike.received firstContent secondContent, level.iov0, level.iov1⟩
  unfold HttpConn.reactRead
  rw [firstRun, secondRun]
  split_ifs with failed
  · exact Or.inr ⟨⟨[], none, none, .close⟩, _, _, rfl, rfl, trivial⟩
  · rcases arrived.onProcess host with ⟨fault, crash, again⟩ |
      ⟨decision, firstNext, secondNext, run, again, next, stays, matched⟩
    · exact Or.inl ⟨fault, by rw [crash]; rfl, by rw [again]; rfl⟩
    · refine Or.inr ⟨⟨[], none, some firstNext.toWriteBytes, decision⟩, firstNext, secondNext, ?_, ?_,
        matched⟩
      · rw [run]
        simp only [ok_bind, if_neg stays]
      · rw [again, next.toWriteBytes]
        simp only [ok_bind, if_neg stays]

/-- A readable event that leaves bytes to read shows the same on objects whose second vectors agree or are
overwritten. -/
theorem Alike.reactRead_some {first second : HttpConn} (alike : Alike first second) (isET : Bool)
    (host : Host) {outcomes : List ReadvOutcome}
    (some : first.readBuff.content ++ (arrival isET outcomes).2 ≠ [])
    (settled : first.iov1.len = second.iov1.len ∨
      host.Opens (requestPath (first.readBuff.content ++ (arrival isET outcomes).2))) :
    Agree (HttpConn.reactRead isET host outcomes first)
      (HttpConn.reactRead isET host outcomes second) := by
  obtain ⟨firstBuff, firstContent, firstRun⟩ := onRead_eq isET host outcomes first
  obtain ⟨secondBuff, secondContent, secondRun⟩ := onRead_eq isET host outcomes second
  have arrived := alike.received firstContent secondContent
  rw [← firstContent] at some settled
  unfold HttpConn.reactRead
  rw [firstRun, secondRun]
  split_ifs with failed
  · exact Or.inr ⟨⟨[], none, none, .close⟩, _, _, rfl, rfl, trivial⟩
  · rcases arrived.process some host with ⟨crash, again⟩ | ⟨firstNext, secondNext, run, again, twins⟩
    · refine Or.inl ⟨.badMapping, ?_, ?_⟩
      · rw [HttpConn.onProcess, crash]
        rfl
      · rw [HttpConn.onProcess, again]
        rfl
    · have twin := twins settled
      refine Or.inr ⟨⟨[], none, Option.some firstNext.toWriteBytes, .armOut⟩, firstNext, secondNext, ?_,
        ?_, twin⟩
      · rw [HttpConn.onProcess, run]
        rfl
      · rw [HttpConn.onProcess, again, twin.toLevel.toWriteBytes]
        rfl

theorem verdict_eq {first second : Written} (returned : first.returned = second.returned)
    (twin : Twin first.conn second.conn) : first.verdict = second.verdict := by
  unfold Written.verdict isKeepAlive
  rw [twin.toLevel.toWriteBytes, returned, twin.request]

/-- A writable event once `Write` has returned. -/
def afterWrite (host : Host) (written : Written) : Except Fault (Seen × HttpConn) :=
  let seen (after : Option ℤ) (decision : Decision) : Seen :=
    ⟨written.sent, some written.conn.toWriteBytes, after, decision⟩
  match written.verdict with
  | .rearm => .ok (seen none .armOut, written.conn)
  | .close => .ok (seen none .close, written.conn)
  | .nextRequest =>
      match written.conn.onProcess host with
      | .error fault => .error fault
      | .ok (decision, next) => .ok (seen (some next.toWriteBytes) decision, next)

theorem reactWrite_eq {isET : Bool} {host : Host} {outcomes : List WriteOutcome} {conn : HttpConn}
    {written : Written} (run : conn.write isET outcomes = .ok written) :
    reactWrite isET host outcomes conn = afterWrite host written := by
  unfold reactWrite onWrite afterWrite
  simp only [run, ok_bind]
  cases ended : written.verdict with
  | rearm => rfl
  | close => rfl
  | nextRequest =>
    dsimp only
    cases written.conn.onProcess host with
    | error fault => rfl
    | ok result => rfl

/-- A writable event shows the same on twins. -/
theorem Twin.reactWrite {first second : HttpConn} (twin : Twin first second) (isET : Bool)
    (host : Host) (outcomes : List WriteOutcome) :
    Agree (HttpConn.reactWrite isET host outcomes first)
      (HttpConn.reactWrite isET host outcomes second) := by
  obtain ⟨firstWritten, secondWritten, firstRun, secondRun, returned, sent, next⟩ :=
    twin.write isET outcomes
  have verdict := verdict_eq returned next
  have bytes := next.toLevel.toWriteBytes
  rw [reactWrite_eq firstRun, reactWrite_eq secondRun]
  unfold afterWrite
  rw [← verdict, ← sent, ← bytes]
  cases firstWritten.verdict with
  | rearm => exact Or.inr ⟨_, _, _, rfl, rfl, next⟩
  | close => exact Or.inr ⟨_, _, _, rfl, rfl, trivial⟩
  | nextRequest =>
    rcases next.toLevel.onProcess host with ⟨fault, crash, again⟩ |
      ⟨decision, firstLast, secondLast, run, again, last, _, matched⟩
    · rw [crash, again]
      exact Or.inl ⟨fault, rfl, rfl⟩
    · rw [run, again]
      dsimp only
      rw [← last.toWriteBytes]
      exact Or.inr ⟨_, _, _, rfl, rfl, matched⟩

/-- Matched objects show the same from there on. -/
theorem trace_eq_of_matched (isET : Bool) (host : Host) (events : List Event) {armed : Decision}
    {first second : HttpConn} (matched : Matched armed first second) :
    trace isET host armed events first = trace isET host armed events second := by
  induction events generalizing armed first second with
  | nil => cases armed <;> rfl
  | cons event rest ih =>
    have go : ∀ {one two : Except Fault (Seen × HttpConn)}, Agree one two →
        (match one with
          | .error fault => [Except.error fault]
          | .ok (seen, next) => Except.ok seen :: trace isET host seen.decision rest next) =
        (match two with
          | .error fault => [Except.error fault]
          | .ok (seen, next) => Except.ok seen :: trace isET host seen.decision rest next) := by
      rintro _ _ (⟨fault, rfl, rfl⟩ | ⟨seen, firstNext, secondNext, rfl, rfl, next⟩)
      · rfl
      · exact congrArg _ (ih next)
    cases armed with
    | close => cases event <;> rfl
    | armIn =>
      cases event with
      | writable => rfl
      | readable outcomes => exact go (Level.reactRead matched isET host outcomes)
    | armOut =>
      cases event with
      | readable => rfl
      | writable outcomes => exact go (Twin.reactWrite matched isET host outcomes)

/-- The first task reads no stale length that differs: it fails, or both lengths agree, or bytes arrive
and the second length agrees or is overwritten, because the path they name opens. -/
def Harmless (isET : Bool) (host : Host) (first second : HttpConn) : List Event → Prop
  | .readable outcomes :: _ =>
      (arrival isET outcomes).1.Failed ∨
        (first.iov0.len = second.iov0.len ∧ first.iov1.len = second.iov1.len) ∨
        ((arrival isET outcomes).2 ≠ [] ∧ (first.iov1.len = second.iov1.len ∨
          host.Opens (requestPath (arrival isET outcomes).2)))
  | _ => True

/-- Two objects with any histories show their next clients the same in every run whose first task reads
no stale length that differs. -/
theorem trace_eq_of_harmless (isET : Bool) (host : Host) (sockFd : ℤ)
    (first second firstStart secondStart : HttpConn) (firstInit : first.init sockFd = .ok firstStart)
    (secondInit : second.init sockFd = .ok secondStart) (events : List Event)
    (harmless : Harmless isET host first second events) :
    trace isET host .armIn events firstStart = trace isET host .armIn events secondStart := by
  have started : ∀ {conn start : HttpConn}, conn.init sockFd = .ok start →
      start.readBuff.content = [] ∧ start.writeBuff.content = [] ∧
        start.iov0 = conn.iov0 ∧ start.iov1 = conn.iov1 := by
    intro conn start run
    unfold HttpConn.init assert at run
    split_ifs at run
    · cases run
      exact ⟨ByteBuffer.content_retrieveAll _, ByteBuffer.content_retrieveAll _, rfl, rfl⟩
    · cases run
  obtain ⟨firstRead, firstWrite, firstHead, firstFile⟩ := started firstInit
  obtain ⟨secondRead, secondWrite, secondHead, secondFile⟩ := started secondInit
  have alike : Alike firstStart secondStart :=
    ⟨by rw [firstRead, secondRead], by rw [firstWrite, secondWrite]⟩
  rcases events with _ | ⟨outcomes | outcomes, rest⟩
  · rfl
  · -- the first task: either it fails, or `Process` runs on level objects or on readable bytes
    have agree : Agree (reactRead isET host outcomes firstStart)
        (reactRead isET host outcomes secondStart) := by
      rcases harmless with failed | ⟨head, file⟩ | ⟨some, settled⟩
      · obtain ⟨_, _, firstRun⟩ := onRead_eq isET host outcomes firstStart
        obtain ⟨_, _, secondRun⟩ := onRead_eq isET host outcomes secondStart
        unfold HttpConn.reactRead
        rw [firstRun, secondRun, if_pos failed, if_pos failed]
        exact Or.inr ⟨⟨[], none, none, .close⟩, _, _, rfl, rfl, trivial⟩
      · have level : Level firstStart secondStart :=
          ⟨alike, by rw [firstHead, secondHead, head], by rw [firstFile, secondFile, file]⟩
        exact level.reactRead isET host outcomes
      · exact alike.reactRead_some isET host (by rw [firstRead, List.nil_append]; exact some)
          (by rw [firstRead, List.nil_append, firstFile, secondFile]; exact settled)
    unfold trace
    rcases agree with ⟨fault, crash, again⟩ | ⟨seen, firstNext, secondNext, run, again, matched⟩
    · rw [crash, again]
    · rw [run, again]
      exact congrArg _ (trace_eq_of_matched isET host rest matched)
  · rfl

/-- Two objects that were never used, with different garbage in `iovCnt` and in the bases. -/
theorem trace_eq_unused :
    trace true bareHost .armIn [.readable [.data (ascii "x")], .writable [.accepted 300]]
        { new 0 ⟨0, 0⟩ ⟨0, 0⟩ with
          sockFd := 5, readBuff := (ByteBuffer.new 1024).retrieveAll,
          writeBuff := (ByteBuffer.new 1024).retrieveAll, isClose := false } =
      trace true bareHost .armIn [.readable [.data (ascii "x")], .writable [.accepted 300]]
        { new 9 ⟨7, 0⟩ ⟨8, 0⟩ with
          sockFd := 5, readBuff := (ByteBuffer.new 1024).retrieveAll,
          writeBuff := (ByteBuffer.new 1024).retrieveAll, isClose := false } :=
  trace_eq_of_harmless true bareHost 5 (new 0 ⟨0, 0⟩ ⟨0, 0⟩) (new 9 ⟨7, 0⟩ ⟨8, 0⟩) _ _ rfl rfl _
    (Or.inr (Or.inl ⟨rfl, rfl⟩))

/-- A host with one file of three bytes, which the path `/f` names. -/
def fileHost : Host where
  cwd := bareHost.cwd
  cwd_name := bareHost.cwd_name
  files name :=
    if name = ascii "/srv/resources//f" then some ⟨.regular, [1, 2, 3], true, true⟩ else none

/-- An object whose client asked for that file and went away two bytes before its end. -/
def abandoned : HttpConn :=
  let history : Except Fault HttpConn := do
    let start ← (new 0 ⟨0, 0⟩ ⟨0, 0⟩).init 5
    let (_, ready) ← start.onRead true fileHost [.data (ascii "GET /f HTTP/1.1\r\n\r\n")]
    let (_, broken) ← ready.onWrite true fileHost [.accepted 84, .error .other]
    .ok broken.close
  history.toOption.getD (new 0 ⟨0, 0⟩ ⟨0, 0⟩)

/-- The next client of that object gets an error page, and `ToWriteBytes` counts the two bytes of the file
that were never sent, which it does not on an object that was never used. -/
theorem trace_differs_after_abandoned :
    ¬ ∀ (isET : Bool) (host : Host) (sockFd : ℤ) (first second firstStart secondStart : HttpConn),
      first.init sockFd = .ok firstStart → second.init sockFd = .ok secondStart →
        ∀ events, trace isET host .armIn events firstStart = trace isET host .armIn events secondStart := by
  intro same
  have equal := same true fileHost 5 abandoned (new 0 ⟨0, 0⟩ ⟨0, 0⟩) _ _ rfl rfl
    [.readable [.data (ascii "x")]]
  revert equal
  decide +kernel

end HttpConn

end XWebServer
