import XWebServer.Http.Process

/-! # Files that go out behind an error status

The status is decided from `stat`, and `AddContent` opens and maps without looking at it. So a file that
the server can open goes out although the status line says 403, or 400 after a rejected request line.
`withholds_iff` says exactly when this happens.
-/

namespace XWebServer

namespace HttpConn

open HttpRequest HttpResponse

/-- When the status is not 200, `File()` is null and only the write buffer is queued. -/
def Withholds (host : Host) (conn : HttpConn) : Prop :=
  ∀ next, conn.process host = .ok (true, next) → next.response.resCode ≠ 200 →
    next.response.mmFile = none ∧ next.iovCnt = 1

/-- The path of the input names a regular file with content that opens and does not begin like a failed
mapping, and the request line is rejected or others may not read the file. -/
def Discloses (host : Host) (input : Bytes) : Prop :=
  input ≠ [] ∧ ∃ node, host.files.openFile (host.fileName (requestPath input)) = some node ∧
    ¬ (node.content = [] ∨ node.kind ≠ .regular) ∧ node.content.take 4 ≠ [255, 255, 255, 255] ∧
    (linePath? (cutLine input).1 = none ∨ node.othersRead = false)

/-- The code for a regular file. -/
theorem decideStatus_regular {resp : HttpResponse} {files : FileSystem} {node : Node}
    (opened : files.openFile resp.fileName = some node) (regular : node.kind = .regular)
    (set : resp.resCode ≠ -1) :
    (resp.decideStatus files).resCode = if node.othersRead then resp.resCode else 403 := by
  rw [decideStatus]
  rw [stat_of_openFile opened]
  cases readable : node.othersRead <;> simp [Node.stat, regular, readable, set]

/-- The status of a response to a request for a regular file that opens. -/
theorem resCode_of_process {conn next : HttpConn} {host : Host} {node : Node}
    (run : conn.process host = .ok (true, next))
    (opened : host.files.openFile (host.fileName (requestPath conn.readBuff.content)) = some node)
    (regular : node.kind = .regular) :
    next.response.resCode = 200 ↔
      ¬ (linePath? (cutLine conn.readBuff.content).1 = none ∨ node.othersRead = false) := by
  obtain ⟨some, _⟩ := prepares_of_process run
  obtain ⟨accepted, path⟩ := parse_init some
  obtain ⟨response, _⟩ := made_of_process run
  have started : (startedFor host conn).resCode =
      if (linePath? (cutLine conn.readBuff.content).1).isSome then 200 else 400 := by
    rw [← accepted]
    rfl
  have name : (startedFor host conn).fileName =
      host.fileName (requestPath conn.readBuff.content) := by
    rw [← path]
    rfl
  have decided := decideStatus_regular (name ▸ opened) regular (by rw [started]; split_ifs <;> simp)
  have code := response.code
  rw [decided, started] at code
  cases readable : node.othersRead <;>
    cases line : linePath? (cutLine conn.readBuff.content).1 <;>
    simp only [readable, line, Option.isSome_none, Option.isSome_some, if_true, if_false,
      Bool.false_eq_true] at code <;>
    rw [code (by decide)] <;> simp

/-- A file is mapped for a prepared response exactly when its name opens something that does not begin
like a failed mapping. -/
theorem mmFile_of_process {conn next : HttpConn} {host : Host}
    (run : conn.process host = .ok (true, next)) :
    next.response.mmFile.isSome ↔ host.Opens (requestPath conn.readBuff.content) := by
  obtain ⟨some, _⟩ := prepares_of_process run
  rw [(made_of_process run).1.file, ← (parse_init some).2]
  rfl

theorem not_withholds_of_discloses {host : Host} {conn : HttpConn}
    (discloses : Discloses host conn.readBuff.content) : ¬ Withholds host conn := by
  obtain ⟨some, node, opened, maps, sound, hidden⟩ := discloses
  intro withholds
  rcases process_cases some host with ⟨⟨other, found, fails⟩, _⟩ | ⟨_, _, next, _, run, _⟩
  · obtain rfl := Option.some.inj (opened.symm.trans found)
    exact maps fails
  · have regular : node.kind = .regular := not_not.mp (not_or.mp maps).2
    have code : next.response.resCode ≠ 200 := fun ok =>
      (resCode_of_process run opened regular).mp ok hidden
    have mapped := (mmFile_of_process run).mpr ⟨node, opened, sound⟩
    rw [(withholds next run code).1] at mapped
    cases mapped

/-- No file goes out behind another status than 200 unless the input discloses one. -/
theorem withholds_iff (host : Host) (conn : HttpConn) :
    Withholds host conn ↔ ¬ Discloses host conn.readBuff.content := by
  refine ⟨fun withholds discloses => not_withholds_of_discloses discloses withholds, ?_⟩
  intro safe next run code
  obtain ⟨some, mappable, _⟩ := prepares_of_process run
  obtain ⟨_, _, points⟩ := made_of_process run
  have noFile : next.response.mmFile = none := by
    by_contra mapped
    obtain ⟨node, opened, sound⟩ :=
      (mmFile_of_process run).mp (Option.isSome_iff_ne_none.mpr mapped)
    have maps : ¬ (node.content = [] ∨ node.kind ≠ .regular) := fun fails =>
      mappable ⟨node, opened, fails⟩
    have hidden := mt (resCode_of_process run opened (not_not.mp (not_or.mp maps).2)).mpr code
    exact safe ⟨some, node, opened, maps, sound, not_not.mp hidden⟩
  exact ⟨noFile, points.page noFile⟩

/-- A host with one file, which the server can open and others may not read. -/
def secretHost : Host where
  cwd := bareHost.cwd
  cwd_name := bareHost.cwd_name
  files name :=
    if name = ascii "/srv/resources//a" then some ⟨.regular, ascii "secret", false, true⟩ else none

/-- A forbidden file is sent behind the status 403. -/
theorem not_withholds_forbidden : ¬ ∀ (host : Host) (conn : HttpConn), Withholds host conn := by
  intro withholds
  let input := ascii "GET /a HTTP/1.1\r\n\r\n"
  refine not_withholds_of_discloses ?_ (withholds secretHost (fresh input))
  rw [fresh_content]
  refine ⟨by decide, ⟨.regular, ascii "secret", false, true⟩, by decide +kernel, ?_, ?_, Or.inr rfl⟩
  · decide
  · decide

end HttpConn

end XWebServer
