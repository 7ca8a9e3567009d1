import XWebServer.Http.Message

/-! # What becomes of a request body

Behind the empty line `ParseRequest` takes one line for the body, without regard to the length that a
header field announces. A body without CRLF is taken over but stays in the buffer; of one with a CRLF
only the part before it is taken over, and what follows stays.
-/

namespace XWebServer

/-- A field of the head announces a body of this length. -/
def RequestHead.Declares (head : RequestHead) (length : ℕ) : Prop :=
  ∃ field ∈ head.fields, field.name = ascii "Content-Length" ∧
    field.text = ascii " " ++ ascii (toString length)

namespace HttpRequest

/-- `ParseRequest` on a freshly initialised object takes the body over and leaves nothing readable. -/
def ExtractsBody (buff : ByteBuffer) (body : Bytes) : Prop :=
  ∃ req left, init.parseRequest buff = .ok (true, req, left) ∧ req.body = body ∧ left.content = []

/-- `m_body` is the first line of the body, and only a CRLF behind it is consumed with it. -/
theorem parseRequest_body {head : RequestHead} {body : Bytes} (nonempty : body ≠ [])
    {buff : ByteBuffer} (holds : buff.content = head.bytes ++ body) :
    ∃ req left, init.parseRequest buff = .ok (true, req, left) ∧ req.body = (cutLine body).1 ∧
      left.content = (cutLine body).2.getD body := by
  obtain ⟨left, run, content⟩ := parseRequest_eq init buff
  rw [holds, head.parse_append nonempty] at run content
  exact ⟨_, left, run, rfl, content⟩

/-- No cut of a non-empty input gives the whole of it and leaves nothing. -/
theorem cutLine_incomplete {input : Bytes} (nonempty : input ≠ [])
    (whole : (cutLine input).1 = input) : (cutLine input).2.getD input ≠ [] := by
  rcases cut : cutLine input with ⟨line, _ | after⟩
  · exact nonempty
  · have length := length_of_cutLine cut
    obtain rfl : line = input := by rw [← whole, cut]
    omega

/-- No body is extracted, whatever the head announces. -/
theorem not_extractsBody {head : RequestHead} {body : Bytes} (nonempty : body ≠ [])
    {buff : ByteBuffer} (holds : buff.content = head.bytes ++ body) : ¬ ExtractsBody buff body := by
  rintro ⟨req, left, run, whole, consumed⟩
  obtain ⟨other, rest, again, line, content⟩ := parseRequest_body nonempty holds
  obtain ⟨_, same⟩ := Prod.mk.inj (Except.ok.inj (run.symm.trans again))
  obtain ⟨rfl, rfl⟩ := Prod.mk.inj same
  exact cutLine_incomplete nonempty (line.symm.trans whole) (content.symm.trans consumed)

def lengthField : HeaderField where
  name := ascii "Content-Length"
  text := ascii " 3"
  noColon := by decide
  name_line := by decide
  text_line := by decide

/-- A form that announces the three bytes of its body. -/
def formRequest : RequestHead :=
  { bareRequest with method := ascii "POST", method_word := by decide, fields := [lengthField] }

/-- A buffer that has received the form. -/
def formBuffer : ByteBuffer := (ByteBuffer.new 1024).receive (formRequest.bytes ++ ascii "a=b")

theorem not_extractsBody_form : formBuffer.content = formRequest.bytes ++ ascii "a=b" ∧
    ¬ ExtractsBody formBuffer (ascii "a=b") := by
  have holds : formBuffer.content = formRequest.bytes ++ ascii "a=b" := ByteBuffer.content_receive ..
  exact ⟨holds, not_extractsBody (by decide) holds⟩

/-- The three bytes of the form stay in the buffer. -/
theorem not_forall_extractsBody :
    ¬ ∀ (head : RequestHead) (body : Bytes) (buff : ByteBuffer), head.Declares body.length →
      body ≠ [] → buff.content = head.bytes ++ body → ExtractsBody buff body := by
  intro extracts
  have declares : formRequest.Declares (ascii "a=b").length :=
    ⟨_, List.mem_singleton_self _, rfl, by decide⟩
  have holds : formBuffer.content = formRequest.bytes ++ ascii "a=b" := ByteBuffer.content_receive ..
  obtain ⟨req, left, run, whole, consumed⟩ :=
    extracts formRequest (ascii "a=b") formBuffer declares (by decide) holds
  obtain ⟨other, rest, again, _, content⟩ :=
    parseRequest_body (show ascii "a=b" ≠ [] by decide) holds
  obtain ⟨_, same⟩ := Prod.mk.inj (Except.ok.inj (run.symm.trans again))
  obtain ⟨rfl, rfl⟩ := Prod.mk.inj same
  rw [content] at consumed
  revert consumed
  decide

end HttpRequest

end XWebServer
