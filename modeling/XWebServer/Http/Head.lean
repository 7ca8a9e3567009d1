import XWebServer.Http.Answer
import XWebServer.Lib.Lines

/-! # The head that `MakeResponse` writes

`headLines` is the head of a response as lines, and `makeResponse_made` says that this is what is
appended: the lines, the empty line, and behind it either an error page of the announced length or
nothing, and then a file of that length is mapped.
-/

namespace XWebServer

namespace HttpResponse

/-! ## Lines -/

def statusLine (code : ℤ) : Bytes :=
  ascii "HTTP/1.1 " ++ ascii (toString code) ++ ascii " " ++ (codeStatus.lookup code).getD []

/-- A kept connection is announced by two lines. -/
def connectionLines (isKeepAlive : Bool) : List Bytes :=
  if isKeepAlive then [ascii "Connection: keep-alive", ascii "keep-alive: max=6, timeout=120"]
  else [ascii "Connection: close"]

def lengthLine (length : ℕ) : Bytes := ascii "Content-length: " ++ ascii (toString length)

/-- The head of a response with a body of this length. -/
def headLines (code : ℤ) (isKeepAlive : Bool) (fileType : Bytes) (length : ℕ) : List Bytes :=
  [statusLine code] ++ connectionLines isKeepAlive ++
    [ascii "Content-type: " ++ fileType, lengthLine length]

theorem mem_of_lookup {α β : Type} [BEq α] [LawfulBEq α] {entries : List (α × β)} {key : α} {value : β}
    (found : entries.lookup key = some value) : (key, value) ∈ entries := by
  obtain ⟨before, after, rfl, _⟩ := List.lookup_eq_some_iff.mp found
  simp

theorem digits_free (length : ℕ) : 13 ∉ ascii (toString length) := by
  intro member
  obtain ⟨char, digit, same⟩ := List.mem_map.mp member
  have digits : (toString length).toList = Nat.toDigits 10 length := Nat.toList_repr
  have range : 48 ≤ char.toNat ∧ char.toNat ≤ 57 := by
    have isDigit := Nat.isDigit_of_mem_toDigits (by decide) (by decide) (digits ▸ digit)
    simpa [Char.isDigit, UInt32.le_iff_toNat_le] using isDigit
  have value := congrArg UInt8.toNat same
  rw [UInt8.toNat_ofNat', show (13 : UInt8).toNat = 13 from rfl] at value
  omega

theorem statusLine_free {code : ℤ} (known : (codeStatus.lookup code).isSome) : 13 ∉ statusLine code := by
  have all : ∀ entry ∈ codeStatus, 13 ∉ statusLine entry.1 := by decide +kernel
  obtain ⟨status, found⟩ := Option.isSome_iff_exists.mp known
  exact all (code, status) (mem_of_lookup found)

/-- The default type is one of the table as well. -/
theorem getFileType_mem (resp : HttpResponse) : ∃ suffix, (suffix, resp.getFileType) ∈ suffixType := by
  rw [getFileType]
  cases found : (fromLast 46 resp.path).bind (List.lookup · suffixType) with
  | none => exact ⟨ascii ".txt", by decide +kernel⟩
  | some fileType =>
    obtain ⟨suffix, _, typed⟩ := Option.bind_eq_some_iff.mp found
    exact ⟨suffix, mem_of_lookup typed⟩

theorem getFileType_free (resp : HttpResponse) : 13 ∉ resp.getFileType := by
  have all : ∀ entry ∈ suffixType, 13 ∉ entry.2 := by decide +kernel
  obtain ⟨suffix, listed⟩ := resp.getFileType_mem
  exact all _ listed

/-- The lines of a head are not empty and hold no line end. -/
theorem headLines_proper {code : ℤ} (known : (codeStatus.lookup code).isSome) (isKeepAlive : Bool)
    (resp : HttpResponse) (length : ℕ) :
    ∀ line ∈ headLines code isKeepAlive resp.getFileType length, line ≠ [] ∧ 13 ∉ line := by
  have status : statusLine code ≠ [] := by simp [statusLine, ascii]
  have connection : ∀ line ∈ connectionLines isKeepAlive, line ≠ [] ∧ 13 ∉ line := by
    cases isKeepAlive <;> decide
  have type : 13 ∉ ascii "Content-type: " ++ resp.getFileType := by
    rw [List.mem_append, not_or]
    exact ⟨by decide, resp.getFileType_free⟩
  have size : 13 ∉ lengthLine length := by
    rw [lengthLine, List.mem_append, not_or]
    exact ⟨by decide, digits_free length⟩
  intro line member
  simp only [headLines, List.mem_append, List.mem_cons, List.not_mem_nil, or_false] at member
  rcases member with (rfl | listed) | rfl | rfl
  · exact ⟨status, statusLine_free known⟩
  · exact connection line listed
  · exact ⟨by simp [ascii], type⟩
  · exact ⟨by simp [lengthLine, ascii], size⟩

/-! ## What each part appends -/

/-- The code is in the table once the status line is written, and it is the code that is written. -/
theorem addStateLine_line (resp : HttpResponse) (buff : ByteBuffer) :
    (codeStatus.lookup (resp.addStateLine buff).1.resCode).isSome ∧
      (resp.addStateLine buff).2.content =
        buff.content ++ (statusLine (resp.addStateLine buff).1.resCode ++ [13, 10]) := by
  have bad : codeStatus.lookup 400 = some (ascii "Bad Request") := rfl
  unfold addStateLine statusLine
  cases found : codeStatus.lookup resp.resCode with
  | none => simp [bad, ascii]
  | some status => simp [found, ascii]

/-- A code of the table is written as it is. -/
theorem addStateLine_resCode {resp : HttpResponse} (known : (codeStatus.lookup resp.resCode).isSome)
    (buff : ByteBuffer) : (resp.addStateLine buff).1.resCode = resp.resCode := by
  obtain ⟨status, found⟩ := Option.isSome_iff_exists.mp known
  rw [addStateLine]
  rw [found]

theorem addHeader_lines (resp : HttpResponse) (buff : ByteBuffer) :
    (resp.addHeader buff).content = buff.content ++
      (connectionLines resp.isKeepAlive ++ [ascii "Content-type: " ++ resp.getFileType]).flatMap
        (· ++ [13, 10]) := by
  unfold addHeader connectionLines
  cases resp.isKeepAlive <;> simp [ascii]

/-- The page is as long as the line in front of it says, and it begins with `<`. -/
theorem errorContent_page (resp : HttpResponse) (buff : ByteBuffer) (message : Bytes) :
    ∃ page : Bytes, (resp.errorContent buff message).content =
      buff.content ++ (lengthLine page.length ++ [13, 10, 13, 10]) ++ page ∧
      page.head? = some 60 := by
  rw [errorContent]
  exact ⟨_, by simp only [ByteBuffer.content_append]; rfl, rfl⟩

/-- How a response has its body: as a page behind the head, or as a mapped file of the length that
`FileLen()` returns. -/
inductive Carries (resp : HttpResponse) (head : ℕ → Bytes) (text body : Bytes) : Prop
  | page (noFile : resp.mmFile = none) (whole : text = head body.length ++ body)
  | file {mapping : Mapping} (mapped : resp.mmFile = some mapping) (bytes : mapping.bytes = body)
      (size : resp.mmFileStat.size = body.length) (nonempty : 0 < body.length)
      (whole : text = head body.length)

/-- The name opens a node that does not begin with the bytes taken for a failed mapping. -/
def OpensFor (resp : HttpResponse) (files : FileSystem) : Prop :=
  ∃ node, files.openFile resp.fileName = some node ∧ node.content.take 4 ≠ [255, 255, 255, 255]

/-- What `AddContent` leaves when it returns. -/
theorem AddsContent.made {resp made : HttpResponse} {files : FileSystem} {buff out : ByteBuffer}
    (adds : AddsContent resp files buff (.ok (made, out))) (unmapped : resp.mmFile = none)
    (sized : ∀ node, files.openFile resp.fileName = some node →
      resp.mmFileStat.size = node.content.length) :
    made.resCode = resp.resCode ∧ made.isKeepAlive = resp.isKeepAlive ∧ made.path = resp.path ∧
      (made.mmFile.isSome ↔ resp.OpensFor files) ∧
      ∃ body, Carries made (fun length => buff.content ++ (lengthLine length ++ [13, 10, 13, 10]))
        out.content body ∧ (made.mmFile = none → body.head? = some 60) := by
  cases adds with
  | absent opened =>
    obtain ⟨page, content, start⟩ := resp.errorContent_page buff (ascii "File NotFound!")
    refine ⟨rfl, rfl, rfl, ?_, page, .page unmapped content, fun _ => start⟩
    simp [unmapped, OpensFor, opened]
  | discarded opened maps failure calls =>
    obtain ⟨page, content, start⟩ :=
      (resp.withCalls calls).errorContent_page buff (ascii "File NotFound!")
    refine ⟨rfl, rfl, rfl, ?_, page, .page unmapped content, fun _ => start⟩
    simp [withCalls, unmapped, OpensFor, opened, failure]
  | @mapped node opened maps sound addr calls =>
    have positive : 0 < node.content.length :=
      List.length_pos_iff.mpr fun none => maps (Or.inl none)
    refine ⟨rfl, rfl, rfl, ?_, node.content, .file rfl rfl (sized node opened) positive ?_, nofun⟩
    · simp [OpensFor, opened, sound]
    · rw [ByteBuffer.content_append]
      simp [lengthLine, ascii]

/-! ## The whole response -/

/-- What `MakeResponse` leaves in the response object and in the buffer. -/
structure Made (resp : HttpResponse) (files : FileSystem) (buff : ByteBuffer) (made : HttpResponse)
    (out : ByteBuffer) : Prop where
  known : (codeStatus.lookup made.resCode).isSome
  code : (codeStatus.lookup (resp.decideStatus files).resCode).isSome →
    made.resCode = (resp.decideStatus files).resCode
  keepAlive : made.isKeepAlive = resp.isKeepAlive
  file : made.mmFile.isSome ↔ resp.OpensFor files
  carries : ∃ body, Carries made (fun length => buff.content ++ Lines.join 13 10
    (headLines made.resCode made.isKeepAlive made.getFileType length)) out.content body

/-- A response without a mapped file has a page for its body. -/
theorem makeResponse_page {resp made : HttpResponse} (unmapped : resp.mmFile = none)
    {files : FileSystem} {buff out : ByteBuffer}
    (success : resp.makeResponse files buff = .ok (made, out)) :
    Made resp files buff made out ∧ ∃ body, Carries made (fun length => buff.content ++
      Lines.join 13 10 (headLines made.resCode made.isKeepAlive made.getFileType length))
        out.content body ∧ (made.mmFile = none → body.head? = some 60) := by
  have adds := resp.makeResponse_adds files buff
  rw [success] at adds
  obtain ⟨known, line⟩ := (resp.decideStatus files).addStateLine_line buff
  have name := resp.stated_fileName files buff
  have sized : ∀ node, files.openFile ((resp.decideStatus files).addStateLine buff).1.fileName =
      some node → ((resp.decideStatus files).addStateLine buff).1.mmFileStat.size =
        node.content.length := fun node opened => stated_size buff (name ▸ opened)
  have kept : ((resp.decideStatus files).addStateLine buff).1.mmFile = none ∧
      ((resp.decideStatus files).addStateLine buff).1.isKeepAlive = resp.isKeepAlive := by
    obtain ⟨code, stated⟩ := resp.stated_eq files buff
    rw [stated]
    exact ⟨unmapped, rfl⟩
  obtain ⟨code, keepAlive, path, opens, body, carries, page⟩ := adds.made kept.1 sized
  have type : made.getFileType = ((resp.decideStatus files).addStateLine buff).1.getFileType := by
    rw [getFileType, path, getFileType]
  have front : (fun length => (((resp.decideStatus files).addStateLine buff).1.addHeader
      ((resp.decideStatus files).addStateLine buff).2).content ++
        (lengthLine length ++ [13, 10, 13, 10])) = fun length => buff.content ++ Lines.join 13 10
          (headLines made.resCode made.isKeepAlive made.getFileType length) := by
    funext length
    rw [addHeader_lines, line, code, keepAlive, type]
    simp [Lines.join, headLines]
  rw [front] at carries
  refine ⟨⟨code ▸ known, fun decidedKnown => ?_, keepAlive.trans kept.2, ?_, body, carries⟩,
    body, carries, page⟩
  · exact code.trans (addStateLine_resCode decidedKnown buff)
  · rw [opens, OpensFor, name, OpensFor]

theorem makeResponse_made {resp made : HttpResponse} (unmapped : resp.mmFile = none)
    {files : FileSystem} {buff out : ByteBuffer}
    (success : resp.makeResponse files buff = .ok (made, out)) : Made resp files buff made out :=
  (makeResponse_page unmapped success).1

end HttpResponse

end XWebServer
