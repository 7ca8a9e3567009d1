import XWebServer.Http.Confinement
import XWebServer.Http.ContentLength

/-! # The status of a rejected request

`Process` passes the code 400 for a rejected request, and `MakeResponse` puts its own in place of it when
`stat` finds no file under the path. A failed parse leaves the empty path, under which `stat` finds
`srcDir` itself, so the status line says 404 whenever `srcDir` is a directory.
-/

namespace XWebServer

namespace HttpConn

open HttpRequest HttpResponse

/-- The status line that `Process` appends to the write buffer, also where `AddContent` does not get past
the mapping of the file. -/
def statusAppended (host : Host) (conn : HttpConn) : Option Bytes :=
  if conn.readBuff.readableBytes = 0 then none
  else
    match startResponse host { conn with request := .init } with
    | .error _ => none
    | .ok (conn, started) =>
        some (((started.decideStatus host.files).addStateLine conn.writeBuff).2.content.drop
          conn.writeBuff.content.length)

/-- What the status line should be for a request that `ParseRequest` rejects. -/
def ReportsBadRequest (host : Host) (conn : HttpConn) : Prop :=
  statusAppended host conn = some (ascii "HTTP/1.1 400 Bad Request\r\n")

/-- The code on the status line. -/
def statusCode (host : Host) (conn : HttpConn) : ℤ :=
  (((startedFor host conn).decideStatus host.files).addStateLine conn.writeBuff).1.resCode

theorem statusAppended_eq {conn : HttpConn} (nonempty : conn.readBuff.content ≠ []) (host : Host) :
    statusAppended host conn = some (statusLine (statusCode host conn) ++ [13, 10]) := by
  have readable : ¬ conn.readBuff.readableBytes = 0 := by
    rw [← conn.readBuff.content_length, List.length_eq_zero_iff]
    exact nonempty
  obtain ⟨left, _, started⟩ :=
    startResponse_ok (show { conn with request := HttpRequest.init }.request = .init from rfl) host
  obtain ⟨_, line⟩ := ((startedFor host conn).decideStatus host.files).addStateLine_line conn.writeBuff
  rw [statusAppended, if_neg readable, started]
  apply congrArg Option.some
  apply (congrArg (List.drop conn.writeBuff.content.length) line).trans
  exact List.drop_left

/-- A known code stays known. -/
theorem decideStatus_known {resp : HttpResponse} (known : (codeStatus.lookup resp.resCode).isSome)
    (files : FileSystem) : (codeStatus.lookup (resp.decideStatus files).resCode).isSome := by
  rw [decideStatus]
  cases files.stat resp.fileName with
  | none => rfl
  | some stat =>
    dsimp only
    split_ifs
    · rfl
    · rfl
    · exact known
    · rfl

theorem startedFor_known (host : Host) (conn : HttpConn) :
    (codeStatus.lookup (startedFor host conn).resCode).isSome := by
  rw [startedFor]
  dsimp only
  split_ifs
  · rfl
  · rfl

theorem statusCode_eq (host : Host) (conn : HttpConn) :
    statusCode host conn = ((startedFor host conn).decideStatus host.files).resCode :=
  addStateLine_resCode (decideStatus_known (startedFor_known host conn) host.files) conn.writeBuff

/-- When `Process` returns, the status line is what it has put first behind the old content. -/
theorem statusAppended_of_process {conn next : HttpConn} {host : Host}
    (run : conn.process host = .ok (true, next)) : ∃ line, statusAppended host conn = some line ∧
      conn.writeBuff.content ++ line <+: next.writeBuff.content := by
  obtain ⟨nonempty, _⟩ := prepares_of_process run
  obtain ⟨made, _⟩ := made_of_process run
  refine ⟨_, statusAppended_eq nonempty host, ?_⟩
  have code : next.response.resCode = statusCode host conn := by
    rw [statusCode_eq, made.code (decideStatus_known (startedFor_known host conn) host.files)]
  obtain ⟨body, carries⟩ := made.carries
  rw [← code]
  cases carries with
  | page noFile whole =>
    rw [whole]
    simp [Lines.join, headLines]
  | file mapped bytes size nonempty whole =>
    rw [whole]
    simp [Lines.join, headLines]

/-- With `srcDir` a directory, every rejected request is reported as a file that is not there. -/
theorem statusAppended_rejected {host : Host} {conn : HttpConn} (nonempty : conn.readBuff.content ≠ [])
    (rejected : (parse .init conn.readBuff.content).1 = false) {node : Node}
    (found : host.files host.srcDir = some node) (directory : node.kind = .directory) :
    statusAppended host conn = some (ascii "HTTP/1.1 404 Not Found\r\n") := by
  have path : (startedFor host conn).path = [] := by
    change (parse .init conn.readBuff.content).2.1.path = []
    rw [parse_rejected rejected]
    rfl
  have name : (startedFor host conn).fileName = host.srcDir := by
    have whole := host.fileName_eq []
    rw [show cString [] = [] from rfl, List.append_nil] at whole
    rw [HttpResponse.fileName, path]
    exact whole
  have missing : ((startedFor host conn).decideStatus host.files).resCode = 404 := by
    rw [decideStatus, name]
    simp [FileSystem.stat, found, Node.stat, directory]
  rw [statusAppended_eq nonempty, statusCode_eq, missing]
  decide

/-- With `srcDir` a directory, no rejected request is reported as a bad request: when `Process` returns, the
answer in the write buffer starts with the status 404. -/
theorem not_reportsBadRequest {host : Host} {conn : HttpConn} {node : Node}
    (found : host.files host.srcDir = some node) (directory : node.kind = .directory)
    (rejected : ∃ req left, HttpRequest.init.parseRequest conn.readBuff = .ok (false, req, left)) :
    ¬ ReportsBadRequest host conn ∧ ∀ next, conn.process host = .ok (true, next) →
      conn.writeBuff.content ++ ascii "HTTP/1.1 404 Not Found\r\n" <+: next.writeBuff.content := by
  obtain ⟨req, left, run⟩ := rejected
  obtain ⟨_, same, _⟩ := parseRequest_eq .init conn.readBuff
  have failed : (parse .init conn.readBuff.content).1 = false :=
    congrArg Prod.fst (Except.ok.inj (same.symm.trans run))
  constructor
  · rw [ReportsBadRequest]
    by_cases empty : conn.readBuff.content = []
    · have none : conn.readBuff.readableBytes = 0 := by
        rw [← conn.readBuff.content_length, empty]
        rfl
      rw [statusAppended, if_pos none]
      simp
    · rw [statusAppended_rejected empty failed found directory]
      decide
  · intro next answered
    obtain ⟨nonempty, _⟩ := prepares_of_process answered
    obtain ⟨line, appended, starts⟩ := statusAppended_of_process answered
    rw [statusAppended_rejected nonempty failed found directory] at appended
    cases appended
    exact starts

/-- A host whose `srcDir` the server may search and not read. -/
def closedHost : Host where
  cwd := bareHost.cwd
  cwd_name := bareHost.cwd_name
  files name :=
    if name = ascii "/srv/resources/" then some ⟨.directory, [], true, false⟩ else none

theorem closedHost_found : closedHost.files closedHost.srcDir = some ⟨.directory, [], true, false⟩ := by
  decide

theorem garbage_failed : (parse .init (fresh (ascii "x")).readBuff.content).1 = false := by
  rw [fresh_content]
  decide +kernel

theorem garbage_rejected :
    ∃ req left, HttpRequest.init.parseRequest (fresh (ascii "x")).readBuff = .ok (false, req, left) := by
  obtain ⟨left, run, _⟩ := parseRequest_eq .init (fresh (ascii "x")).readBuff
  exact ⟨_, left, by rw [run, garbage_failed]⟩

theorem not_reportsBadRequest_garbage : ¬ ReportsBadRequest closedHost (fresh (ascii "x")) ∧
    ∃ next, (fresh (ascii "x")).process closedHost = .ok (true, next) ∧
      ascii "HTTP/1.1 404 Not Found\r\n" <+: next.writeBuff.content := by
  have returns : ((fresh (ascii "x")).process closedHost).map (·.1) = .ok true := by decide +kernel
  obtain ⟨⟨_, next⟩, run, rfl⟩ := map_ok returns
  obtain ⟨wrong, starts⟩ := not_reportsBadRequest closedHost_found rfl garbage_rejected
  exact ⟨wrong, next, run, starts next run⟩

/-- One line that is no request line is answered with the status 404. -/
theorem not_forall_reportsBadRequest : ¬ ∀ (host : Host) (conn : HttpConn) (node : Node),
    host.files host.srcDir = some node → node.kind = .directory →
      (∃ req left, HttpRequest.init.parseRequest conn.readBuff = .ok (false, req, left)) →
        ReportsBadRequest host conn := by
  intro reports
  have wrong := reports closedHost (fresh (ascii "x")) _ closedHost_found rfl garbage_rejected
  have nonempty : (fresh (ascii "x")).readBuff.content ≠ [] := by
    rw [fresh_content]
    decide
  rw [ReportsBadRequest, statusAppended_rejected nonempty garbage_failed closedHost_found rfl] at wrong
  revert wrong
  decide

end HttpConn

end XWebServer
