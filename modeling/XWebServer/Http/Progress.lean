import XWebServer.Http.Framing
import Mathlib.Logic.Relation

/-! # Answering without input comes to an end

A request that keeps its connection has a header field, so its request line had a CRLF and was taken out
of the buffer. Each response of the cycle but the last therefore consumes something, and the cycle ends.
-/

namespace XWebServer

namespace HttpRequest

/-- What the loop leaves is a part of what it found. -/
theorem scan_length_le (fuel : ℕ) (req : HttpRequest) (input : Bytes) :
    (scan fuel req input).2.2.length ≤ input.length := by
  induction fuel generalizing req input with
  | zero => exact le_rfl
  | succ fuel ih =>
    rw [scan]
    split_ifs with stop
    · exact le_rfl
    · cases req.parseLine (cutLine input).1 input.length with
      | none => exact le_rfl
      | some next =>
        rcases cut : cutLine input with ⟨line, _ | after⟩
        · exact le_rfl
        · have shorter := length_of_cutLine cut
          have rest := ih next after
          dsimp only
          omega

/-- A request line alone sets no header field. -/
theorem parseRequestLine_header {req next : HttpRequest} {line : Bytes}
    (step : req.parseRequestLine line = some next) : next.header = req.header := by
  rw [parseRequestLine] at step
  split at step
  · cases step
    rfl
  · cases step

theorem isKeepAlive_of_header {req : HttpRequest} (none : ∀ name, req.header name = none) :
    req.isKeepAlive = false := by
  rw [isKeepAlive, none]

/-- A request that keeps the connection has consumed its request line at least. -/
theorem parse_progress {input : Bytes} (keeps : (parse init input).2.1.isKeepAlive = true) :
    (parse init input).2.2.length < input.length := by
  have nothing : init.isKeepAlive = false := isKeepAlive_of_header fun _ => rfl
  by_cases empty : input = []
  · subst empty
    rw [show (parse init []).2.1 = init from rfl, nothing] at keeps
    cases keeps
  · rw [parse_first empty] at keeps ⊢
    cases step : init.parseRequestLine (cutLine input).1 with
    | none =>
      simp only [step, nothing, Bool.false_eq_true] at keeps
    | some next =>
      rcases cut : cutLine input with ⟨line, _ | after⟩
      · have fields : next.header = init.header := parseRequestLine_header step
        have closes : next.parsePath.isKeepAlive = false :=
          isKeepAlive_of_header fun name => congrFun fields name
        rw [cut] at step
        simp only [cut, step, closes, Bool.false_eq_true] at keeps
      · have shorter := length_of_cutLine cut
        have rest := scan_length_le after.length next.parsePath after
        simp only
        change (scan after.length next.parsePath after).2.2.length < input.length
        omega

/-- The loop of `ParseRequest` stops by itself: more passes than there are readable bytes change
nothing. -/
theorem parseLoop_fuel {fuel : ℕ} {req : HttpRequest} {buff : ByteBuffer}
    (enough : buff.readableBytes ≤ fuel) :
    parseLoop fuel req buff = parseLoop buff.readableBytes req buff := by
  induction fuel using Nat.strong_induction_on generalizing req buff with
  | _ fuel ih =>
    cases fuel with
    | zero => rw [Nat.le_zero.mp enough]
    | succ fuel =>
      cases size : buff.readableBytes with
      | zero => simp [parseLoop, size]
      | succ smaller =>
        rw [parseLoop, parseLoop, size]
        cases req.parseLine (cutLine buff.content).1 (smaller + 1) with
        | none => rfl
        | some next =>
          rcases cut : cutLine buff.content with ⟨line, _ | after⟩
          · rfl
          · have length := length_of_cutLine cut
            rw [buff.content_length] at length
            obtain ⟨rest, retrieved, content, _⟩ :=
              ByteBuffer.retrieve_ok (show line.length + 2 ≤ buff.readableBytes by omega)
            have left : rest.readableBytes = buff.readableBytes - (line.length + 2) := by
              rw [← rest.content_length, content, List.length_drop, buff.content_length]
            simp only [ByteBuffer.retrieveUntil_eq, retrieved, ok_bind]
            rw [ih fuel (by omega) (by omega), ← ih smaller (by omega) (by omega)]

end HttpRequest

namespace HttpConn

open HttpRequest

/-- A response on a kept connection has consumed input. -/
theorem process_progress {host : Host} {conn next : HttpConn}
    (run : conn.process host = .ok (true, next)) (keeps : next.isKeepAlive = true) :
    next.readBuff.readableBytes < conn.readBuff.readableBytes := by
  obtain ⟨_, _, made, _, prepared⟩ := prepares_of_process run
  rw [isKeepAlive, prepared.request] at keeps
  rw [← next.readBuff.content_length, ← conn.readBuff.content_length, prepared.readBuff]
  exact parse_progress keeps

/-- The cycle goes on only with a kept connection. -/
theorem Written.keeps_of_nextRequest {written : Written} (goesOn : written.verdict = .nextRequest) :
    written.conn.isKeepAlive = true := by
  rw [Written.verdict] at goesOn
  split_ifs at goesOn with complete keeps
  exact keeps

/-- The whole response to `conn` is written and `Process` runs again, on `later`. -/
def Continues (isET : Bool) (host : Host) (conn later : HttpConn) : Prop :=
  ∃ next written, conn.process host = .ok (true, next) ∧ next.writeAll isET = .ok written ∧
    written.verdict = .nextRequest ∧ written.conn = later

/-- `Process` returns on the connection and on every one the cycle comes to without new input. -/
def Returns (isET : Bool) (host : Host) (conn : HttpConn) : Prop :=
  ∀ later, Relation.ReflTransGen (Continues isET host) conn later →
    ∃ result, later.process host = .ok result

/-- Every cycle ends, with at most as many responses as there were readable bytes. -/
theorem serves_bounded {isET : Bool} {host : Host} {conn : HttpConn}
    (returns : Returns isET host conn) :
    ∃ exchanges, Serves isET host conn exchanges ∧
      exchanges.length ≤ conn.readBuff.readableBytes := by
  induction length : conn.readBuff.readableBytes using Nat.strong_induction_on generalizing conn with
  | _ bytes ih =>
    by_cases empty : conn.readBuff.content = []
    · exact ⟨[], .idle (process_empty empty host), Nat.zero_le _⟩
    · have positive : 0 < bytes := by
        rw [← length, ← conn.readBuff.content_length]
        exact List.length_pos_iff.mpr empty
      rcases process_cases empty host with ⟨_, fails⟩ | ⟨_, made, next, _, run, prepared⟩
      · obtain ⟨_, run⟩ := returns conn .refl
        rw [fails] at run
        cases run
      · obtain ⟨written, writes, keeps, notRearm⟩ := writeAll_ok prepared.head isET
        cases verdict : written.verdict with
        | rearm => exact absurd verdict notRearm
        | close => exact ⟨_, .last run writes verdict, positive⟩
        | nextRequest =>
          have kept : next.isKeepAlive = true := by
            rw [isKeepAlive, ← keeps.request]
            exact Written.keeps_of_nextRequest verdict
          have progress := process_progress run kept
          rw [← keeps.readBuff, length] at progress
          have continues : Continues isET host conn written.conn :=
            ⟨next, written, run, writes, verdict, rfl⟩
          obtain ⟨exchanges, serves, few⟩ :=
            ih _ progress (fun later goes => returns later (.head continues goes)) rfl
          exact ⟨_, .next run writes verdict serves, few.trans_lt progress⟩

/-- The cycle takes one course. -/
theorem Serves.unique {isET : Bool} {host : Host} {conn : HttpConn} {first second : List Exchange}
    (serves : Serves isET host conn first) (again : Serves isET host conn second) : first = second := by
  induction serves generalizing second with
  | idle waits =>
    cases again with
    | idle => rfl
    | last prepares => cases waits.symm.trans prepares
    | next prepares => cases waits.symm.trans prepares
  | last prepares writes closes =>
    cases again with
    | idle waits => cases waits.symm.trans prepares
    | last other =>
      cases prepares.symm.trans other
      rfl
    | next other writesOther goesOn =>
      cases prepares.symm.trans other
      cases writes.symm.trans writesOther
      cases closes.symm.trans goesOn
  | next prepares writes goesOn serves ih =>
    cases again with
    | idle waits => cases waits.symm.trans prepares
    | last other writesOther closes =>
      cases prepares.symm.trans other
      cases writes.symm.trans writesOther
      cases closes.symm.trans goesOn
    | next other writesOther _ servesOther =>
      cases prepares.symm.trans other
      cases writes.symm.trans writesOther
      rw [ih servesOther]

/-- A response on a kept connection has consumed input. So where `Process` returns, the cycle of `Process`,
the whole response and the next `Process` ends without new input, with the connection closed or waiting
for input. The loop of `ParseRequest` stops by itself. -/
theorem serves_ends (host : Host) (conn : HttpConn) :
    (∀ next, conn.process host = .ok (true, next) → next.isKeepAlive = true →
      next.readBuff.readableBytes < conn.readBuff.readableBytes) ∧
    (∀ isET, Returns isET host conn → ∃ exchanges, Serves isET host conn exchanges ∧
      exchanges.length ≤ conn.readBuff.readableBytes ∧
      ∀ other, Serves isET host conn other → other = exchanges) ∧
    ∀ (req : HttpRequest) (buff : ByteBuffer), (∃ result, req.parseRequest buff = .ok result) ∧
      ∀ fuel, buff.readableBytes ≤ fuel →
        parseLoop fuel req buff = parseLoop buff.readableBytes req buff := by
  refine ⟨fun next => process_progress, ?_, ?_⟩
  · intro isET returns
    obtain ⟨exchanges, serves, few⟩ := serves_bounded returns
    exact ⟨exchanges, serves, few, fun other again => again.unique serves⟩
  · intro req buff
    obtain ⟨left, run, _⟩ := parseRequest_eq req buff
    exact ⟨⟨_, run⟩, fun fuel => parseLoop_fuel⟩

/-- On a host without files `Process` returns everywhere. -/
theorem returns_bareHost (isET : Bool) (conn : HttpConn) : Returns isET bareHost conn := by
  intro later _
  by_cases empty : later.readBuff.content = []
  · exact ⟨_, process_empty empty bareHost⟩
  · rcases process_cases empty bareHost with ⟨⟨_, opened, _⟩, _⟩ | ⟨_, _, _, _, run, _⟩
    · cases opened
    · exact ⟨_, run⟩

/-- Of two requests that keep the connection, in the buffer of a fresh one, the first response has consumed
input, and the cycle ends. -/
theorem serves_ends_pipeline :
    (∃ next, (fresh (keepAliveRequest.bytes ++ keepAliveRequest.bytes)).process bareHost =
        .ok (true, next) ∧ next.isKeepAlive = true ∧
      next.readBuff.readableBytes <
        (fresh (keepAliveRequest.bytes ++ keepAliveRequest.bytes)).readBuff.readableBytes) ∧
    ∃ exchanges, Serves true bareHost (fresh (keepAliveRequest.bytes ++ keepAliveRequest.bytes))
      exchanges := by
  obtain ⟨progress, ends, _⟩ :=
    serves_ends bareHost (fresh (keepAliveRequest.bytes ++ keepAliveRequest.bytes))
  obtain ⟨exchanges, serves, _⟩ := ends true (returns_bareHost true _)
  obtain ⟨made, next, _, run, prepared⟩ :=
    process_bareHost (show keepAliveRequest.bytes ++ keepAliveRequest.bytes ≠ [] by decide)
  have keeps : next.isKeepAlive = true := by
    rw [isKeepAlive, prepared.request, fresh_content]
    decide
  exact ⟨⟨next, run, keeps, progress next run keeps⟩, exchanges, serves⟩

end HttpConn

end XWebServer
