import XWebServer.Http.Scan

/-! # Well-formed requests

`RequestHead` is a request line and header lines that say what they seem to say; its bytes end with the
empty line. `loop_bytes` follows `ParseRequest` through them: they are consumed line by line, and what
lies behind the empty line decides whether the request ends there or goes on with a body.
-/

namespace XWebServer

open Regex

namespace HttpRequest

/-! ## The two patterns on well-formed lines -/

theorem literal_rejects {next : List Bytes → Bytes → Option (List Bytes)} {first char : UInt8}
    {word rest : Bytes} (differs : char ≠ first) :
    (Pattern.literal (first :: word)).run (char :: rest) next = none := by
  simp [Pattern.run, List.isPrefixOf, differs.symm]

private theorem takeWhile_append_stop {cls : UInt8 → Bool} {word : Bytes}
    (all : ∀ char ∈ word, cls char = true) {stop : UInt8} (stops : cls stop = false) (rest : Bytes) :
    (word ++ stop :: rest).takeWhile cls = word ∧
      (word ++ stop :: rest).dropWhile cls = stop :: rest := by
  constructor
  · rw [List.takeWhile_append_of_pos all]
    simp [stops]
  · rw [List.dropWhile_append_of_pos all]
    simp [stops]

/-- A captured class followed by a separator outside the class takes everything up to it. -/
theorem run_group_until {cls : UInt8 → Bool} {word : Bytes} {stop : UInt8}
    (all : ∀ char ∈ word, cls char = true) (stops : cls stop = false) (more rest : Bytes)
    (tail : Pattern UInt8) (next : List Bytes → Bytes → Option (List Bytes)) :
    (Pattern.seq (.group (.many cls)) (.seq (.literal (stop :: more)) tail)).run
        (word ++ stop :: (more ++ rest)) next =
      tail.run rest fun captures rest => next (word :: captures) rest := by
  have split := takeWhile_append_stop all stops (more ++ rest)
  rw [Pattern.run, run_group_many, split.1, split.2]
  · simp [Pattern.run, List.isPrefixOf]
  · intro captures char rest member
    have differs : char ≠ stop := by
      rintro rfl
      rw [stops] at member
      cases member
    rw [Pattern.run]
    exact literal_rejects differs

/-- The request line is split at its spaces. -/
theorem requestLinePattern_matches {method path version : Bytes} (methodOk : 32 ∉ method)
    (pathOk : 32 ∉ path) (versionOk : 32 ∉ version) :
    requestLinePattern.matches? (method ++ ascii " " ++ path ++ ascii " HTTP/" ++ version) =
      some [method, path, version] := by
  have class_of : ∀ {word : Bytes}, 32 ∉ word → ∀ char ∈ word, notSpace char = true := by
    intro word free char member
    have differs : char ≠ 32 := fun same => free (same ▸ member)
    simpa [notSpace] using differs
  have line : method ++ ascii " " ++ path ++ ascii " HTTP/" ++ version =
      method ++ 32 :: ([] ++ (path ++ 32 :: ([72, 84, 84, 80, 47] ++ version))) := by
    simp [ascii]
  have all := List.all_eq_true.mpr (class_of versionOk)
  have final := run_group_many_end notSpace version
  rw [if_pos all, Pattern.matches?, run_group_many fun _ _ _ _ => rfl] at final
  rw [line, requestLinePattern, Pattern.matches?, show ascii " " = [32] from rfl,
    show ascii " HTTP/" = 32 :: [72, 84, 84, 80, 47] from rfl,
    run_group_until (class_of methodOk) rfl, run_group_until (class_of pathOk) rfl,
    run_group_many fun _ _ _ _ => rfl]
  have stop : (version.dropWhile notSpace).isEmpty = true := by
    rw [List.dropWhile_eq_nil_iff.mpr (class_of versionOk)]
    rfl
  rw [if_pos stop, List.takeWhile_eq_self_iff.mpr (class_of versionOk)]

/-- The text of a header line without the one space the pattern skips. -/
def dropSpace : Bytes → Bytes
  | 32 :: rest => rest
  | text => text

/-- A header line is split at its first colon. -/
theorem headerPattern_matches {name text : Bytes} (nameOk : 58 ∉ name) (textOk : 13 ∉ text ∧ 10 ∉ text) :
    headerPattern.matches? (name ++ ascii ":" ++ text) = some [name, dropSpace text] := by
  have nameClass : ∀ char ∈ name, notColon char = true := by
    intro char member
    have differs : char ≠ 58 := fun same => nameOk (same ▸ member)
    simpa [notColon] using differs
  have textClass : ∀ rest : Bytes, rest ⊆ text → rest.all notNewline = true := by
    intro rest part
    refine List.all_eq_true.mpr fun char member => ?_
    have notReturn : char ≠ 13 := fun same => textOk.1 (same ▸ part member)
    have notFeed : char ≠ 10 := fun same => textOk.2 (same ▸ part member)
    simp [notNewline, notReturn, notFeed]
  have final : ∀ rest : Bytes, rest ⊆ text →
      (Pattern.group (.many notNewline)).run rest
        (fun captures rest => if rest.isEmpty then some (name :: captures) else none) =
        some [name, rest] := by
    intro rest part
    have members := List.all_eq_true.mp (textClass rest part)
    rw [run_group_many fun _ _ _ _ => rfl, List.dropWhile_eq_nil_iff.mpr members,
      List.takeWhile_eq_self_iff.mpr members]
    rfl
  have line : name ++ ascii ":" ++ text = name ++ 58 :: ([] ++ text) := by simp [ascii]
  rw [line, headerPattern, Pattern.matches?, show ascii ":" = [58] from rfl,
    run_group_until nameClass rfl, Pattern.run]
  cases text with
  | nil => exact final [] (List.Subset.refl _)
  | cons head rest =>
    have whole := final (head :: rest) (List.Subset.refl _)
    have tail := final rest (List.subset_cons_self ..)
    by_cases space : head = 32
    · subst space
      exact run_optional_take tail
    · rw [run_optional_skip space, dropSpace]
      · exact whole
      · intro _ same
        exact space (List.cons.inj same).1

/-! ## Heads -/

end HttpRequest

/-- A header field as it stands on its line: the name, and the text behind the colon. -/
structure HeaderField where
  name : Bytes
  text : Bytes
  noColon : 58 ∉ name
  name_line : 13 ∉ name ∧ 10 ∉ name
  text_line : 13 ∉ text ∧ 10 ∉ text

namespace HeaderField

def line (field : HeaderField) : Bytes := field.name ++ ascii ":" ++ field.text

theorem line_free (field : HeaderField) : 13 ∉ field.line := by
  simp [line, ascii, field.name_line.1, field.text_line.1]

end HeaderField

/-- A request line whose three words hold no space and no line end, and header fields. -/
structure RequestHead where
  method : Bytes
  target : Bytes
  version : Bytes
  fields : List HeaderField
  method_word : 32 ∉ method ∧ 13 ∉ method ∧ 10 ∉ method
  target_word : 32 ∉ target ∧ 13 ∉ target ∧ 10 ∉ target
  version_word : 32 ∉ version ∧ 13 ∉ version ∧ 10 ∉ version

namespace RequestHead

open HttpRequest

def requestLine (head : RequestHead) : Bytes :=
  head.method ++ ascii " " ++ head.target ++ ascii " HTTP/" ++ head.version

/-- The header lines, each with its CRLF, and the empty line. -/
def fieldBytes (fields : List HeaderField) : Bytes :=
  fields.flatMap (fun field => field.line ++ [13, 10]) ++ [13, 10]

/-- What the client sends. -/
def bytes (head : RequestHead) : Bytes := head.requestLine ++ 13 :: 10 :: fieldBytes head.fields

/-- The request object once the request line and these fields are read. -/
def readFields (start : HttpRequest) (fields : List HeaderField) : HttpRequest :=
  fields.foldl (fun req field =>
    { req with header := Function.update req.header field.name (some (dropSpace field.text)) }) start

/-- The request object at the empty line. -/
def request (head : RequestHead) : HttpRequest :=
  readFields (parsePath { init with
    method := head.method, path := head.target, version := head.version, state := .headers })
    head.fields

theorem requestLine_free (head : RequestHead) : 13 ∉ head.requestLine := by
  simp [requestLine, ascii, head.method_word.2.1, head.target_word.2.1, head.version_word.2.1]

/-- At the empty line the state becomes `BODY`, and `FINISH` when nothing else is readable. -/
theorem parseLine_empty {req : HttpRequest} (state : req.state = .headers) (readable : ℕ) :
    req.parseLine [] readable =
      some { req with state := if readable ≤ 2 then .finish else .body } := by
  have empty : headerPattern.matches? [] = none := by decide
  unfold parseLine parseHeader
  simp only [state, empty]
  split_ifs <;> rfl

/-- The header lines are consumed one by one, and the empty line after them. -/
theorem loop_fields {start : HttpRequest} (state : start.state = .headers) (fields : List HeaderField)
    (rest : Bytes) :
    loop start (fieldBytes fields ++ rest) =
      loop { readFields start fields with state := if rest = [] then .finish else .body } rest := by
  induction fields generalizing start with
  | nil =>
    have length : ([] ++ 13 :: 10 :: rest : Bytes).length ≤ 2 ↔ rest = [] := by
      rw [← List.length_eq_zero_iff]
      simp
    have step := parseLine_empty state ([] ++ 13 :: 10 :: rest : Bytes).length
    simp only [length] at step
    exact loop_line (List.not_mem_nil) (by simp [state]) step
  | cons field fields ih =>
    have step : start.parseLine field.line
        (field.line ++ 13 :: 10 :: (fieldBytes fields ++ rest)).length = some
          { start with
            header := Function.update start.header field.name (some (dropSpace field.text)) } := by
      have read := headerPattern_matches field.noColon field.text_line
      have long : ¬ (field.line ++ 13 :: 10 :: (fieldBytes fields ++ rest)).length ≤ 2 := by
        simp only [fieldBytes, List.length_append, List.length_cons]
        omega
      unfold parseLine parseHeader
      simp only [state, HeaderField.line, read]
      exact congrArg some (if_neg long)
    have line : fieldBytes (field :: fields) ++ rest =
        field.line ++ 13 :: 10 :: (fieldBytes fields ++ rest) := by
      simp [fieldBytes]
    rw [line, loop_line field.line_free (by simp [state]) step]
    exact ih state

/-- `ParseRequest` reads a head to its end, and then what follows it. -/
theorem loop_bytes (head : RequestHead) (rest : Bytes) :
    parse init (head.bytes ++ rest) =
      loop { head.request with state := if rest = [] then .finish else .body } rest := by
  have some : head.bytes ++ rest ≠ [] := by simp [bytes]
  have split : head.bytes ++ rest =
      head.requestLine ++ 13 :: 10 :: (fieldBytes head.fields ++ rest) := by simp [bytes]
  have step : init.parseLine head.requestLine
      (head.requestLine ++ 13 :: 10 :: (fieldBytes head.fields ++ rest)).length = Option.some
        (parsePath { init with
          method := head.method, path := head.target, version := head.version, state := .headers }) := by
    have read := requestLinePattern_matches head.method_word.1 head.target_word.1 head.version_word.1
    unfold parseLine parseRequestLine
    simp only [init, requestLine, read, Option.map_some]
  rw [parse_eq_loop some, split, loop_line head.requestLine_free (by simp [init]) step]
  exact loop_fields rfl head.fields rest

/-- The path that decides about the file is the rewritten target. -/
theorem requestPath_bytes (head : RequestHead) (rest : Bytes) :
    requestPath (head.bytes ++ rest) = rewritePath head.target := by
  have split : head.bytes ++ rest =
      head.requestLine ++ 13 :: 10 :: (fieldBytes head.fields ++ rest) := by simp [bytes]
  have cut : cutLine (head.bytes ++ rest) = (head.requestLine, some (fieldBytes head.fields ++ rest)) := by
    rw [split]
    exact Lines.cut_append head.requestLine_free _
  have path : linePath? head.requestLine = some head.target := by
    have read := requestLinePattern_matches head.method_word.1 head.target_word.1 head.version_word.1
    rw [linePath?, parseRequestLine, requestLine, read]
    rfl
  rw [requestPath, cut]
  simp only [path]

/-- With nothing behind it a head is consumed whole. -/
theorem parse_bytes (head : RequestHead) :
    parse init head.bytes = (true, { head.request with state := .finish }, []) := by
  have whole := head.loop_bytes []
  rw [List.append_nil, if_pos rfl] at whole
  rw [whole, loop_finish rfl]

/-- With anything behind it, the next line is consumed as its body. -/
theorem parse_append (head : RequestHead) {rest : Bytes} (some : rest ≠ []) :
    parse init (head.bytes ++ rest) =
      (true, parseBody { head.request with state := .body } (cutLine rest).1,
        (cutLine rest).2.getD rest) := by
  rw [head.loop_bytes, if_neg some, loop_body rfl some]

end RequestHead

/-- `GET /a HTTP/1.1` and no field. -/
def bareRequest : RequestHead where
  method := ascii "GET"
  target := ascii "/a"
  version := ascii "1.1"
  fields := []
  method_word := by decide
  target_word := by decide
  version_word := by decide

end XWebServer
