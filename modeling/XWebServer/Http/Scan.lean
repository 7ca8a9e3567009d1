import XWebServer.Http.Request

/-! # What `ParseRequest` does to the byte queue

`scan` is the line loop on the readable bytes alone. `parseRequest_eq` says that the loop on the buffer
is `scan` on its content, that no assertion of `RetrieveUntil` fails, and that the fuel suffices. The
rest reads off `scan` what the connection needs: a request line decides the outcome and the path, and a
head of header lines is consumed line by line.
-/

namespace XWebServer

open Regex

namespace HttpRequest

/-- The line loop on the readable bytes: the answer, the request, and the bytes left. -/
def scan : ℕ → HttpRequest → Bytes → Bool × HttpRequest × Bytes
  | 0, req, input => (true, req, input)
  | fuel + 1, req, input =>
      if input = [] ∨ req.state = .finish then (true, req, input)
      else
        match req.parseLine (cutLine input).1 input.length with
        | none => (false, req, input)
        | some next =>
            match cutLine input with
            | (_, none) => (true, next, input)
            | (_, some after) => scan fuel next after

/-- `ParseRequest` on the readable bytes. -/
def parse (req : HttpRequest) (input : Bytes) : Bool × HttpRequest × Bytes :=
  if input = [] then (false, req, input) else scan input.length req input

theorem eq_of_cutLine {input line after : Bytes} (found : cutLine input = (line, some after)) :
    input = line ++ 13 :: 10 :: after := by
  have split := Lines.eq_of_cut_some (congrArg Prod.snd found)
  rwa [show (Lines.cut 13 10 input).1 = line from congrArg Prod.fst found] at split

theorem length_of_cutLine {input line after : Bytes} (found : cutLine input = (line, some after)) :
    input.length = line.length + 2 + after.length := by
  rw [eq_of_cutLine found, List.length_append, List.length_cons, List.length_cons]
  omega

/-- The loop on a buffer is the loop on its content, and its assertions hold. -/
theorem parseLoop_eq (fuel : ℕ) (req : HttpRequest) (buff : ByteBuffer) :
    ∃ next : ByteBuffer, parseLoop fuel req buff =
        .ok ((scan fuel req buff.content).1, (scan fuel req buff.content).2.1, next) ∧
      next.content = (scan fuel req buff.content).2.2 := by
  induction fuel generalizing req buff with
  | zero => exact ⟨buff, rfl, rfl⟩
  | succ fuel ih =>
    have length := buff.content_length
    have empty : buff.readableBytes = 0 ∨ req.state = .finish ↔
        buff.content = [] ∨ req.state = .finish := by
      rw [← length, List.length_eq_zero_iff]
    rw [parseLoop, scan]
    by_cases stop : buff.content = [] ∨ req.state = .finish
    · rw [if_pos (empty.mpr stop), if_pos stop]
      exact ⟨buff, rfl, rfl⟩
    · rw [if_neg (mt empty.mp stop), if_neg stop, ← length]
      rcases cut : cutLine buff.content with ⟨line, _ | after⟩
      · cases step : req.parseLine line buff.content.length with
        | none => exact ⟨buff, rfl, rfl⟩
        | some next => exact ⟨buff, rfl, rfl⟩
      · cases step : req.parseLine line buff.content.length with
        | none => exact ⟨buff, rfl, rfl⟩
        | some next =>
          have size := length_of_cutLine cut
          have inside : line.length + 2 ≤ buff.readableBytes := by omega
          obtain ⟨rest, retrieved, content, _⟩ := ByteBuffer.retrieve_ok inside
          have left : rest.content = after := by
            rw [content, eq_of_cutLine cut, show line ++ 13 :: 10 :: after = (line ++ [13, 10]) ++ after
              by simp]
            exact List.drop_left' (by simp)
          obtain ⟨last, run, lastContent⟩ := ih next rest
          rw [left] at run lastContent
          refine ⟨last, ?_, lastContent⟩
          simp only [ByteBuffer.retrieveUntil_eq, retrieved]
          exact run

/-- `ParseRequest` on a buffer is `parse` on its content. -/
theorem parseRequest_eq (req : HttpRequest) (buff : ByteBuffer) :
    ∃ next : ByteBuffer, req.parseRequest buff =
        .ok ((parse req buff.content).1, (parse req buff.content).2.1, next) ∧
      next.content = (parse req buff.content).2.2 := by
  have length := buff.content_length
  rw [parseRequest, parse]
  by_cases empty : buff.content = []
  · rw [if_pos empty, if_pos (by rw [← length, empty]; rfl)]
    exact ⟨buff, rfl, rfl⟩
  · have some : ¬ buff.readableBytes = 0 := by
      rw [← length, List.length_eq_zero_iff]
      exact empty
    rw [if_neg empty, if_neg some, length]
    exact parseLoop_eq _ _ _

/-! ## More fuel changes nothing -/

/-- The loop stops by itself within as many passes as there are bytes. -/
theorem scan_fuel {fuel : ℕ} {req : HttpRequest} {input : Bytes} (enough : input.length ≤ fuel) :
    scan fuel req input = scan input.length req input := by
  induction fuel using Nat.strong_induction_on generalizing req input with
  | _ fuel ih =>
    cases fuel with
    | zero => rw [Nat.le_zero.mp enough]
    | succ fuel =>
      cases size : input.length with
      | zero =>
        obtain rfl := List.length_eq_zero_iff.mp size
        simp [scan]
      | succ smaller =>
        rw [scan, scan]
        rcases cut : cutLine input with ⟨line, _ | after⟩
        · rfl
        · have shorter := length_of_cutLine cut
          have tail : ∀ next, scan fuel next after = scan smaller next after := by
            intro next
            rw [ih fuel (by omega) (by omega), ← ih smaller (by omega) (by omega)]
          simp only [tail]

/-- The loop with as much fuel as there are bytes. -/
def loop (req : HttpRequest) (input : Bytes) : Bool × HttpRequest × Bytes :=
  scan input.length req input

theorem parse_eq_loop {input : Bytes} (some : input ≠ []) (req : HttpRequest) :
    parse req input = loop req input := if_neg some

/-- The loop stops at the end of the request. -/
theorem loop_finish {req : HttpRequest} (done : req.state = .finish) (input : Bytes) :
    loop req input = (true, req, input) := by
  rw [loop]
  cases input with
  | nil => rfl
  | cons => rw [List.length_cons, scan, if_pos (Or.inr done)]

/-- One pass, and the loop on what is behind the line. -/
theorem loop_pass {req : HttpRequest} {input : Bytes} (nonempty : input ≠ [])
    (going : req.state ≠ .finish) :
    loop req input =
      match req.parseLine (cutLine input).1 input.length with
      | none => (false, req, input)
      | some next =>
          match cutLine input with
          | (_, none) => (true, next, input)
          | (_, some after) => loop next after := by
  obtain ⟨head, rest, rfl⟩ := List.exists_cons_of_ne_nil nonempty
  rw [loop, List.length_cons, scan, if_neg (not_or.mpr ⟨nonempty, going⟩), List.length_cons]
  rcases cut : cutLine (head :: rest) with ⟨line, _ | after⟩
  · rfl
  · have shorter := length_of_cutLine cut
    rw [List.length_cons] at shorter
    have tail : ∀ next, scan rest.length next after = loop next after :=
      fun next => scan_fuel (by omega)
    simp only [tail]

/-! ## The request line decides the outcome and the path -/

/-- Header and body lines leave method, path and version alone. -/
theorem parseLine_path {req next : HttpRequest} {line : Bytes} {readable : ℕ}
    (past : req.state ≠ .requestLine) (step : req.parseLine line readable = some next) :
    next.state ≠ .requestLine ∧ next.path = req.path := by
  rw [parseLine] at step
  cases state : req.state with
  | requestLine => exact absurd state past
  | headers =>
    simp only [state, Option.some.injEq] at step
    subst step
    have kept : (req.parseHeader line).state ≠ .requestLine ∧
        (req.parseHeader line).path = req.path := by
      rw [parseHeader]
      split
      · exact ⟨past, rfl⟩
      · exact ⟨by simp, rfl⟩
    split
    · exact ⟨by simp, kept.2⟩
    · exact kept
  | body =>
    simp only [state, Option.some.injEq] at step
    subst step
    exact ⟨by simp [parseBody], rfl⟩
  | finish =>
    simp only [state, Option.some.injEq] at step
    subst step
    exact ⟨past, rfl⟩

/-- Past the request line the loop succeeds and keeps the path. -/
theorem scan_path {fuel : ℕ} {req : HttpRequest} {input : Bytes} (past : req.state ≠ .requestLine) :
    (scan fuel req input).1 = true ∧ (scan fuel req input).2.1.path = req.path := by
  induction fuel generalizing req input with
  | zero => exact ⟨rfl, rfl⟩
  | succ fuel ih =>
    rw [scan]
    split_ifs with stop
    · exact ⟨rfl, rfl⟩
    · cases step : req.parseLine (cutLine input).1 input.length with
      | none =>
        rw [parseLine] at step
        cases state : req.state <;> simp [state] at step past
      | some next =>
        have kept := parseLine_path past step
        rcases cutLine input with ⟨line, _ | after⟩
        · exact ⟨rfl, kept.2⟩
        · exact ⟨(ih kept.1).1, (ih kept.1).2.trans kept.2⟩

/-- The path of a first line that is a request line. -/
def linePath? (line : Bytes) : Option Bytes := (init.parseRequestLine line).map (·.path)

/-- The path `ParseRequest` leaves: the rewritten path of the first line, and the empty path when the
first line is no request line. -/
def requestPath (input : Bytes) : Bytes :=
  match linePath? (cutLine input).1 with
  | some path => rewritePath path
  | none => []

theorem parseRequestLine_state {req next : HttpRequest} {line : Bytes}
    (step : req.parseRequestLine line = some next) : next.state = .headers := by
  rw [parseRequestLine] at step
  split at step
  · cases step
    rfl
  · cases step

/-- The first pass of a freshly initialised object. -/
theorem parse_first {input : Bytes} (nonempty : input ≠ []) :
    parse init input =
      match init.parseRequestLine (cutLine input).1 with
      | none => (false, init, input)
      | some next =>
          match cutLine input with
          | (_, none) => (true, next.parsePath, input)
          | (_, some after) => loop next.parsePath after := by
  have start : init.parseLine (cutLine input).1 input.length =
      (init.parseRequestLine (cutLine input).1).map parsePath := rfl
  rw [parse_eq_loop nonempty, loop_pass nonempty (by simp [init]), start]
  cases init.parseRequestLine (cutLine input).1 <;> rfl

/-- A non-empty input is accepted exactly when its first line is a request line, and that line alone
decides the path. -/
theorem parse_init {input : Bytes} (some : input ≠ []) :
    (parse init input).1 = (linePath? (cutLine input).1).isSome ∧
      (parse init input).2.1.path = requestPath input := by
  rw [parse_first some, requestPath, linePath?]
  cases step : init.parseRequestLine (cutLine input).1 with
  | none => exact ⟨rfl, rfl⟩
  | some next =>
    have past : next.parsePath.state ≠ .requestLine := by
      change next.state ≠ _
      rw [parseRequestLine_state step]
      simp
    simp only [Option.map_some, Option.isSome_some]
    rcases cutLine input with ⟨line, _ | after⟩
    · exact ⟨rfl, rfl⟩
    · exact scan_path past

/-- A rejected input leaves the request as it was. -/
theorem parse_rejected {input : Bytes} (rejected : (parse init input).1 = false) :
    (parse init input).2.1 = init := by
  by_cases empty : input = []
  · rw [empty]
    rfl
  · rw [(parse_init empty).1, linePath?, Option.isSome_map, Option.isSome_eq_false_iff,
      Option.isNone_iff_eq_none] at rejected
    rw [parse_first empty, rejected]

/-! ## Passes in a known state -/

/-- A line that ends in CRLF is consumed with it, and the loop goes on behind. -/
theorem loop_line {req next : HttpRequest} {line after : Bytes} (free : 13 ∉ line)
    (going : req.state ≠ .finish)
    (step : req.parseLine line (line ++ 13 :: 10 :: after).length = some next) :
    loop req (line ++ 13 :: 10 :: after) = loop next after := by
  have cut : cutLine (line ++ 13 :: 10 :: after) = (line, some after) := Lines.cut_append free after
  rw [loop_pass (by simp) going]
  simp only [cut, step]

/-- In the body state the loop takes one line for the body and stops behind it, or in front of it when
it has no CRLF. -/
theorem loop_body {req : HttpRequest} (state : req.state = .body) {input : Bytes} (some : input ≠ []) :
    loop req input =
      (true, req.parseBody (cutLine input).1, (cutLine input).2.getD input) := by
  have step : req.parseLine (cutLine input).1 input.length =
      Option.some (req.parseBody (cutLine input).1) := by
    rw [parseLine]
    simp only [state]
  rw [loop_pass some (by simp [state]), step]
  rcases cutLine input with ⟨line, _ | after⟩
  · rfl
  · exact loop_finish rfl after

end HttpRequest

end XWebServer
