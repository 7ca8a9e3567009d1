import XWebServer.Http.ContentLength
import XWebServer.Http.Disclosure

/-! # Whether a file goes out as it is

A regular file that others may read, that opens, and that an accepted request names, should go out whole
behind the status 200. `AddContent` judges the mapping by the first four bytes it shows, so a file that
begins with four bytes 255 gives way to the error page, and an empty file, for which there is no
mapping, takes the process down. `faithful_iff` says that these are the only files that do not go out.
-/

namespace XWebServer

namespace HttpConn

open HttpRequest HttpResponse

/-- The response that `Process` puts behind what the write buffer held is read as the status 200, the
length of the file, and its bytes. -/
def Faithful (host : Host) (conn : HttpConn) (node : Node) : Prop :=
  ∃ next, conn.process host = .ok (true, next) ∧ next.response.resCode = 200 ∧
    Lines.head 13 10 (next.gather.drop conn.writeBuff.content.length) =
      some (next.announcement node.content.length, node.content)

/-- The body is the mapped file, or else a page. -/
theorem body_of_process {conn next : HttpConn} {host : Host}
    (run : conn.process host = .ok (true, next)) :
    ∃ body, next.gather = conn.writeBuff.content ++
        (Lines.join 13 10 (next.announcement body.length) ++ body) ∧
      (next.response.mmFile.isSome → next.fileBytes = body) ∧
      (next.response.mmFile = none → body.head? = some 60) := by
  obtain ⟨body, offers, place, page⟩ := appended_of_process run
  refine ⟨body, offers, fun mapped => ?_, page⟩
  cases place with
  | writeBuff count noFile held =>
    rw [noFile] at mapped
    cases mapped
  | file count held bytes => exact bytes

theorem openFile_of_openable {files : FileSystem} {name : Bytes} {node : Node}
    (found : files name = some node) (openable : node.openable = true) :
    files.openFile name = some node := by
  rw [FileSystem.openFile, found, Option.filter_some, openable, if_pos rfl]

/-- The mapped file is the one that the path names. -/
theorem fileBytes_of_process {conn next : HttpConn} {host : Host} {node : Node}
    (run : conn.process host = .ok (true, next))
    (opened : host.files.openFile (host.fileName (requestPath conn.readBuff.content)) = some node)
    (mapped : next.response.mmFile.isSome) : next.fileBytes = node.content := by
  obtain ⟨some, maps, _⟩ := prepares_of_process run
  obtain ⟨success, _⟩ := makeResponse_of_process run
  have name : (startedFor host conn).fileName =
      host.fileName (requestPath conn.readBuff.content) := by
    rw [← (parse_init some).2]
    rfl
  rcases makeResponse_cases (show (startedFor host conn).mmFile = none from rfl) host.files
    conn.writeBuff with
    ⟨absent, _⟩ | ⟨other, found, ⟨_, crash⟩ | ⟨whole, made, again, size, bytes, _⟩⟩
  · rw [name, opened] at absent
    cases absent
  · cases crash.symm.trans success
  · rw [name, opened] at found
    obtain rfl := Option.some.inj found
    obtain rfl := Except.ok.inj (again.symm.trans success)
    obtain ⟨mapping, recorded⟩ := Option.isSome_iff_exists.mp mapped
    have positive : 0 < node.content.length :=
      List.length_pos_iff.mpr fun none => whole (Or.inl none)
    rw [fileBytes, recorded]
    apply bytes mapping
    rw [file?, size, if_pos positive, recorded]

/-- A file that goes out as it is has been mapped, and the mapping has not been taken for a failure. -/
theorem Faithful.sound {host : Host} {conn : HttpConn} {node : Node}
    (faithful : Faithful host conn node)
    (opened : host.files.openFile (host.fileName (requestPath conn.readBuff.content)) = some node) :
    node.content ≠ [] ∧ node.content.take 4 ≠ [255, 255, 255, 255] := by
  obtain ⟨next, run, _, read⟩ := faithful
  obtain ⟨_, maps, _⟩ := prepares_of_process run
  refine ⟨fun empty => maps ⟨node, opened, .inl empty⟩, fun failure => ?_⟩
  -- without a mapping the body is a page, and a page does not begin as the file does
  have unmapped : next.response.mmFile = none := by
    rw [← Option.not_isSome_iff_eq_none, mmFile_of_process run]
    rintro ⟨other, again, sound⟩
    obtain rfl := Option.some.inj (opened.symm.trans again)
    exact sound failure
  obtain ⟨body, offers, _, page⟩ := body_of_process run
  rw [offers, List.drop_left, head_announcement run] at read
  obtain ⟨_, rfl⟩ := Prod.mk.inj (Option.some.inj read)
  have start := page unmapped
  have first : (node.content.take 4).head? = node.content.head? := by
    rw [List.head?_take, if_neg (by decide)]
  rw [← first, failure] at start
  revert start
  decide

section Served

variable {host : Host} {conn : HttpConn} {node : Node}
  (accepted : (parse .init conn.readBuff.content).1 = true)
  (found : host.files (host.fileName (requestPath conn.readBuff.content)) = some node)
  (regular : node.kind = .regular) (readable : node.othersRead = true)
  (openable : node.openable = true)

include accepted found regular readable openable

/-- What is mapped, and not taken for a failure, goes out behind the status 200. -/
theorem process_serves (nonempty : node.content ≠ [])
    (sound : node.content.take 4 ≠ [255, 255, 255, 255]) :
    ∃ next, conn.process host = .ok (true, next) ∧ next.response.resCode = 200 ∧
      next.gather = conn.writeBuff.content ++
        (Lines.join 13 10 (next.announcement node.content.length) ++ node.content) := by
  have some : conn.readBuff.content ≠ [] := by
    intro empty
    rw [empty] at accepted
    cases accepted
  have opened := openFile_of_openable found openable
  rcases process_cases some host with ⟨⟨other, again, fails⟩, _⟩ | ⟨_, _, next, _, run, _⟩
  · obtain rfl := Option.some.inj (opened.symm.trans again)
    rcases fails with empty | irregular
    · exact absurd empty nonempty
    · exact absurd regular irregular
  · have mapped := (mmFile_of_process run).mpr ⟨node, opened, sound⟩
    have line : linePath? (cutLine conn.readBuff.content).1 ≠ none := by
      rw [← Option.isSome_iff_ne_none, ← (parse_init some).1]
      exact accepted
    obtain ⟨body, offers, file, _⟩ := body_of_process run
    obtain rfl : node.content = body := by
      rw [← file mapped, fileBytes_of_process run opened mapped]
    refine ⟨next, run, (resCode_of_process run opened regular).mpr ?_, offers⟩
    rintro (none | hidden)
    · exact line none
    · rw [readable] at hidden
      cases hidden

/-- A regular file that others may read and that an accepted request names goes out as it is exactly
when it is not empty and does not begin with four bytes 255. -/
theorem faithful_iff :
    Faithful host conn node ↔
      node.content ≠ [] ∧ node.content.take 4 ≠ [255, 255, 255, 255] := by
  refine ⟨fun faithful => faithful.sound (openFile_of_openable found openable), ?_⟩
  rintro ⟨nonempty, sound⟩
  obtain ⟨next, run, code, offers⟩ :=
    process_serves accepted found regular readable openable nonempty sound
  refine ⟨next, run, code, ?_⟩
  rw [offers, List.drop_left]
  exact head_announcement run _ _

end Served

/-- A host with one file that everyone may read. -/
def publicHost (content : Bytes) : Host where
  cwd := bareHost.cwd
  cwd_name := bareHost.cwd_name
  files name :=
    if name = ascii "/srv/resources//a" then some ⟨.regular, content, true, true⟩ else none

/-- A request for this file. -/
def fileRequest : Bytes := ascii "GET /a HTTP/1.1\r\n\r\n"

theorem fileRequest_accepted : (parse .init (fresh fileRequest).readBuff.content).1 = true := by
  rw [fresh_content]
  decide +kernel

theorem publicHost_found (content : Bytes) :
    (publicHost content).files ((publicHost content).fileName
      (requestPath (fresh fileRequest).readBuff.content)) = some ⟨.regular, content, true, true⟩ := by
  have name : bareHost.fileName (requestPath fileRequest) = ascii "/srv/resources//a" := by
    decide +kernel
  have listed (other : Bytes) (same : other = ascii "/srv/resources//a") :
      (publicHost content).files other = some ⟨.regular, content, true, true⟩ := if_pos same
  rw [fresh_content]
  exact listed _ name

theorem faithful_hello :
    Faithful (publicHost (ascii "hello")) (fresh fileRequest) ⟨.regular, ascii "hello", true, true⟩ := by
  apply (faithful_iff fileRequest_accepted (publicHost_found _) rfl rfl rfl).mpr
  exact ⟨by decide, by decide⟩

/-- A file of four bytes 255 gives way to the error page. -/
theorem not_forall_faithful : ¬ ∀ (host : Host) (conn : HttpConn) (node : Node),
    (parse .init conn.readBuff.content).1 = true →
      host.files (host.fileName (requestPath conn.readBuff.content)) = some node →
        node.kind = .regular → node.othersRead = true → node.openable = true →
          Faithful host conn node := by
  intro faithful
  have found := publicHost_found [255, 255, 255, 255]
  obtain ⟨_, sound⟩ := (faithful _ _ _ fileRequest_accepted found rfl rfl rfl).sound
    (openFile_of_openable found rfl)
  exact sound rfl

end HttpConn

end XWebServer
