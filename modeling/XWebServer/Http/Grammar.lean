import XWebServer.Http.Scan

/-! # The heads that `ParseRequest` should accept, and the inputs that it does accept

A complete head is a request line, header lines and an empty line, each ended by CRLF. The loop reports
failure at the request line only: a line that is no header ends the header part without an error, and
so does the end of the input. `accepts_iff` is what this comes to, and `accepts_iff_completeHead` says
for which inputs it is the grammar.
-/

namespace XWebServer

namespace HttpRequest

def IsRequestLine (line : Bytes) : Prop := (requestLinePattern.matches? line).isSome

def IsHeaderLine (line : Bytes) : Prop := (headerPattern.matches? line).isSome

instance (line : Bytes) : Decidable (IsRequestLine line) := inferInstanceAs (Decidable (_ = true))

instance (line : Bytes) : Decidable (IsHeaderLine line) := inferInstanceAs (Decidable (_ = true))

/-- The input begins with a request line, header lines and an empty line, each ended by CRLF. -/
def CompleteHead (input : Bytes) : Prop :=
  ∃ first fields rest, Lines.head 13 10 input = some (first :: fields, rest) ∧
    IsRequestLine first ∧ ∀ field ∈ fields, IsHeaderLine field

/-- `ParseRequest` on a freshly initialised object returns `true`. -/
def Accepts (buff : ByteBuffer) : Prop := ∃ req left, init.parseRequest buff = .ok (true, req, left)

/-- A request line begins the input, but no empty line follows it, or a line before the first empty one
is no header line. -/
def BreaksOff (input : Bytes) : Prop :=
  IsRequestLine (cutLine input).1 ∧ ∀ lines rest, Lines.head 13 10 input = some (lines, rest) →
    ∃ line ∈ lines.tail, ¬ IsHeaderLine line

/-! ## What is accepted -/

theorem linePath?_isSome_iff (line : Bytes) : (linePath? line).isSome ↔ IsRequestLine line := by
  unfold linePath? parseRequestLine IsRequestLine
  cases found : requestLinePattern.matches? line with
  | none => simp
  | some captures =>
    have length : captures.length = 3 := Regex.Pattern.length_of_matches? found
    obtain ⟨method, path, version, rfl⟩ := List.length_eq_three.mp length
    simp

/-- The request line alone decides. -/
theorem accepts_iff {buff : ByteBuffer} (some : buff.content ≠ []) :
    Accepts buff ↔ IsRequestLine (cutLine buff.content).1 := by
  obtain ⟨left, run, _⟩ := parseRequest_eq init buff
  rw [← linePath?_isSome_iff, ← (parse_init some).1]
  constructor
  · rintro ⟨req, other, accepted⟩
    exact congrArg Prod.fst (Except.ok.inj (run.symm.trans accepted))
  · intro parsed
    exact ⟨_, left, by rw [run, parsed]⟩

/-! ## What is a complete head -/

theorem not_isRequestLine_nil : ¬ IsRequestLine [] := by decide

/-- A complete head is a request line with a head in which all further lines are header lines. -/
theorem completeHead_iff (input : Bytes) :
    CompleteHead input ↔ IsRequestLine (cutLine input).1 ∧
      ∃ lines rest, Lines.head 13 10 input = some (lines, rest) ∧
        ∀ line ∈ lines.tail, IsHeaderLine line := by
  constructor
  · rintro ⟨first, fields, rest, found, request, headers⟩
    have same : first = (cutLine input).1 := Lines.headD_of_head found
    exact ⟨same ▸ request, _, rest, found, headers⟩
  · rintro ⟨request, lines, rest, found, headers⟩
    rw [show (cutLine input).1 = lines.headD [] from (Lines.headD_of_head found).symm] at request
    cases lines with
    | nil => exact absurd request not_isRequestLine_nil
    | cons first fields => exact ⟨first, fields, rest, found, request, headers⟩

/-- An input whose first line is a request line has a complete head unless it breaks off. -/
theorem completeHead_iff_not_breaksOff {input : Bytes} (request : IsRequestLine (cutLine input).1) :
    CompleteHead input ↔ ¬ BreaksOff input := by
  rw [completeHead_iff, and_iff_right request, BreaksOff, and_iff_right request]
  push Not
  rfl

/-- Every input with a complete head is accepted. -/
theorem accepts_of_completeHead {buff : ByteBuffer} (some : buff.content ≠ [])
    (complete : CompleteHead buff.content) : Accepts buff :=
  (accepts_iff some).mpr ((completeHead_iff _).mp complete).1

/-- Being accepted and having a complete head are the same exactly where the head does not break off
behind a request line. -/
theorem accepts_iff_completeHead (buff : ByteBuffer) (some : buff.content ≠ []) :
    (Accepts buff ↔ CompleteHead buff.content) ↔ ¬ BreaksOff buff.content := by
  constructor
  · intro agree broken
    have complete := agree.mp ((accepts_iff some).mpr broken.1)
    exact (completeHead_iff_not_breaksOff broken.1).mp complete broken
  · intro unbroken
    refine ⟨fun accepted => ?_, accepts_of_completeHead some⟩
    exact (completeHead_iff_not_breaksOff ((accepts_iff some).mp accepted)).mpr unbroken

/-- A buffer that has received a request line, one field and the empty line. -/
def completeBuffer : ByteBuffer :=
  (ByteBuffer.new 1024).receive (ascii "GET / HTTP/1.1\r\nHost: a\r\n\r\n")

theorem accepts_iff_completeHead_field :
    Accepts completeBuffer ↔ CompleteHead completeBuffer.content := by
  have content : completeBuffer.content = ascii "GET / HTTP/1.1\r\nHost: a\r\n\r\n" :=
    ByteBuffer.content_receive ..
  have nonempty : completeBuffer.content ≠ [] := by
    rw [content]
    decide
  apply (accepts_iff_completeHead completeBuffer nonempty).mpr
  rw [content]
  rintro ⟨_, broken⟩
  obtain ⟨line, member, none⟩ :=
    broken [ascii "GET / HTTP/1.1", ascii "Host: a"] [] (by decide +kernel)
  obtain rfl : line = ascii "Host: a" := by simpa using member
  exact none (by decide)

/-- A request line without its CRLF is accepted. -/
theorem not_accepts_iff_completeHead_cut :
    ¬ ∀ buff : ByteBuffer, buff.content ≠ [] → (Accepts buff ↔ CompleteHead buff.content) := by
  intro agree
  let buff := (ByteBuffer.new 1024).receive (ascii "GET / HTTP/1.1")
  have content : buff.content = ascii "GET / HTTP/1.1" := ByteBuffer.content_receive ..
  have nonempty : buff.content ≠ [] := by
    rw [content]
    decide
  have accepted : Accepts buff := by
    rw [accepts_iff nonempty, content]
    decide
  obtain ⟨_, _, _, found, _⟩ := (agree buff nonempty).mp accepted
  have short : Lines.head 13 10 (ascii "GET / HTTP/1.1") = none := by decide +kernel
  rw [content, short] at found
  cases found

end HttpRequest

end XWebServer
