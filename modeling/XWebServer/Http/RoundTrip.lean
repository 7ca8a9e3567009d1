import XWebServer.Http.Message

/-! # Reading back a request that was written down

`render` writes a request without a body, with one space behind the colon of each header.
`ParseRequest` on a buffer that holds it gives back its parts. A repeated name keeps its last value,
so the header table is the list of headers looked up from its end.
-/

namespace XWebServer

/-- A word of the request line. -/
def IsWord (word : Bytes) : Prop := 32 ∉ word ∧ 13 ∉ word ∧ 10 ∉ word

instance (word : Bytes) : Decidable (IsWord word) := inferInstanceAs (Decidable (_ ∧ _ ∧ _))

/-- A header name without a colon, and neither part with a line end. -/
structure IsHeader (header : Bytes × Bytes) : Prop where
  noColon : 58 ∉ header.1
  name_line : 13 ∉ header.1 ∧ 10 ∉ header.1
  value_line : 13 ∉ header.2 ∧ 10 ∉ header.2

/-- The header as it stands on its line. -/
def HeaderField.ofHeader (header : Bytes × Bytes) (proper : IsHeader header) : HeaderField where
  name := header.1
  text := 32 :: header.2
  noColon := proper.noColon
  name_line := proper.name_line
  text_line := by
    simp only [List.mem_cons, not_or]
    exact ⟨⟨by decide, proper.value_line.1⟩, by decide, proper.value_line.2⟩

namespace HttpRequest

/-- The header lines, each with its CRLF. -/
def renderHeaders (headers : List (Bytes × Bytes)) : Bytes :=
  headers.flatMap fun header => header.1 ++ ascii ": " ++ header.2 ++ ascii "\r\n"

/-- The bytes of a request without a body. -/
def render (method path version : Bytes) (headers : List (Bytes × Bytes)) : Bytes :=
  method ++ ascii " " ++ path ++ ascii " HTTP/" ++ version ++ ascii "\r\n" ++
    renderHeaders headers ++ ascii "\r\n"

/-- The header table that a list of headers stands for. -/
def headerTable (headers : List (Bytes × Bytes)) (name : Bytes) : Option Bytes :=
  headers.reverse.lookup name

/-- One more header at the end replaces what was there for its name. -/
theorem headerTable_cons (header : Bytes × Bytes) (headers : List (Bytes × Bytes)) (name : Bytes) :
    headerTable (header :: headers) name =
      (headerTable headers name).or (if name = header.1 then some header.2 else none) := by
  have last : List.lookup name [header] = if name = header.1 then some header.2 else none := by
    rw [← Prod.mk.eta (p := header), List.lookup_singleton]
    simp only [beq_iff_eq]
  rw [headerTable, List.reverse_cons, List.lookup_append, last, headerTable]

theorem fieldBytes_ofHeader {headers : List (Bytes × Bytes)}
    (proper : ∀ header ∈ headers, IsHeader header) :
    RequestHead.fieldBytes (headers.pmap HeaderField.ofHeader proper) =
      renderHeaders headers ++ ascii "\r\n" := by
  induction headers with
  | nil => rfl
  | cons header headers ih =>
    have rest := ih fun other member => proper other (List.mem_cons_of_mem _ member)
    have line : (HeaderField.ofHeader header (proper header List.mem_cons_self)).line ++ [13, 10] =
        header.1 ++ ascii ": " ++ header.2 ++ ascii "\r\n" := by
      simp [HeaderField.line, HeaderField.ofHeader, ascii]
    rw [RequestHead.fieldBytes] at rest ⊢
    rw [List.pmap_cons, List.flatMap_cons, List.append_assoc, rest, line, renderHeaders, renderHeaders,
      List.flatMap_cons, ← List.append_assoc]

/-- Reading the headers one by one puts their table in front of what was there. -/
theorem readFields_ofHeader {headers : List (Bytes × Bytes)}
    (proper : ∀ header ∈ headers, IsHeader header) (start : HttpRequest) :
    RequestHead.readFields start (headers.pmap HeaderField.ofHeader proper) =
      { start with header := fun name => (headerTable headers name).or (start.header name) } := by
  induction headers generalizing start with
  | nil => rfl
  | cons header headers ih =>
    have step : ∀ name, Function.update start.header header.1 (some header.2) name =
        (if name = header.1 then some header.2 else none).or (start.header name) := by
      intro name
      by_cases same : name = header.1
      · rw [same, Function.update_self, if_pos rfl, Option.some_or]
      · rw [Function.update_of_ne same, if_neg same, Option.none_or]
    rw [List.pmap_cons]
    apply (ih (fun other member => proper other (List.mem_cons_of_mem _ member)) _).trans
    congr 1
    funext name
    rw [headerTable_cons, Option.or_assoc]
    exact congrArg _ (step name)

/-- A freshly initialised object reads back every request that was written down, without a fault. -/
theorem parseRequest_render (method path version : Bytes) (headers : List (Bytes × Bytes))
    (methodOk : IsWord method) (pathOk : IsWord path) (versionOk : IsWord version)
    (headersOk : ∀ header ∈ headers, IsHeader header) (buff : ByteBuffer)
    (holds : buff.content = render method path version headers) :
    ∃ req left, init.parseRequest buff = .ok (true, req, left) ∧
      req.method = method ∧ req.version = version ∧ req.path = rewritePath path ∧
      (∀ name, req.header name = headerTable headers name) ∧ req.state = .finish ∧
      left.content = [] := by
  let head : RequestHead :=
    ⟨method, path, version, headers.pmap HeaderField.ofHeader headersOk, methodOk, pathOk, versionOk⟩
  have bytes : buff.content = head.bytes := by
    rw [holds, RequestHead.bytes, fieldBytes_ofHeader headersOk, render, RequestHead.requestLine]
    simp [head, ascii]
  have request : head.request = { parsePath { init with
      method := method, path := path, version := version, state := .headers } with
        header := fun name => (headerTable headers name).or none } :=
    readFields_ofHeader headersOk _
  obtain ⟨left, run, consumed⟩ := parseRequest_eq init buff
  rw [bytes, head.parse_bytes] at run consumed
  refine ⟨_, left, run, ?_, ?_, ?_, fun name => ?_, rfl, consumed⟩
  · rw [request]
    rfl
  · rw [request]
    rfl
  · rw [request]
    rfl
  · rw [request]
    exact Option.or_none ..

/-- A repeated name, an empty name with a value of spaces and colons, and an empty value. -/
theorem parseRequest_render_repeated :
    ∃ req left, init.parseRequest ((ByteBuffer.new 1024).receive
        (render (ascii "GET") (ascii "/login") (ascii "1.1")
          [(ascii "a", ascii "x"), ([], ascii " b: c"), (ascii "a", [])])) = .ok (true, req, left) ∧
      req.method = ascii "GET" ∧ req.version = ascii "1.1" ∧
      req.path = rewritePath (ascii "/login") ∧
      (∀ name, req.header name =
        headerTable [(ascii "a", ascii "x"), ([], ascii " b: c"), (ascii "a", [])] name) ∧
      req.state = .finish ∧ left.content = [] := by
  refine parseRequest_render _ _ _ _ (by decide) (by decide) (by decide) ?_ _
    (ByteBuffer.content_receive ..)
  intro header member
  simp only [List.mem_cons, List.not_mem_nil, or_false] at member
  rcases member with rfl | rfl | rfl <;> exact ⟨by decide, by decide, by decide⟩

end HttpRequest

end XWebServer
