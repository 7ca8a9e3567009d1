import XWebServer.Http.Delivery

/-! # How a client finds the end of a response

The bytes that `Process` offers are read the way a client reads them: lines up to the first empty one,
then the body. The lines are the `announcement`, the announced length is the length of what follows, and
the connection line agrees with the flag that `OnWrite` looks at once the response has been sent.
-/

namespace XWebServer

namespace HttpConn

open HttpRequest HttpResponse Slice

/-- The head of a response on this connection, with a body of the given length. -/
def announcement (conn : HttpConn) (length : ℕ) : List Bytes :=
  headLines conn.response.resCode conn.isKeepAlive conn.response.getFileType length

/-- The body lies in the write buffer behind the head, or it is the mapped file, and not both. -/
inductive BodyPlace (conn : HttpConn) (head body : Bytes) : Prop
  | writeBuff (count : conn.iovCnt = 1) (noFile : conn.response.mmFile = none)
      (held : conn.writeBuff.content = head ++ body)
  | file (count : conn.iovCnt = 2) (held : conn.writeBuff.content = head)
      (mapped : conn.fileBytes = body)

/-- The response object gets the keep-alive flag of the request, also when the request is rejected. -/
theorem startedFor_isKeepAlive (host : Host) (conn : HttpConn) :
    (startedFor host conn).isKeepAlive = (parse .init conn.readBuff.content).2.1.isKeepAlive := by
  change ((parse .init conn.readBuff.content).1 &&
    (parse .init conn.readBuff.content).2.1.isKeepAlive) = _
  cases parsed : (parse .init conn.readBuff.content).1 with
  | true => rfl
  | false =>
    rw [parse_rejected parsed]
    rfl

/-- What is offered is the head and then the body, wherever the body lies. -/
theorem BodyPlace.gather {conn : HttpConn} {head body : Bytes} (place : BodyPlace conn head body)
    (exact : conn.Exact) (whole : conn.iovCnt = 2 → conn.iov1 = ⟨0, conn.fileBytes.length⟩) :
    conn.gather = head ++ body := by
  rw [exact.gather_eq]
  cases place with
  | writeBuff count noFile held => rw [count, if_neg (by decide), List.append_nil, held]
  | file count held mapped =>
    rw [if_pos count, whole count, Nat.zero_add, slice_whole, held, mapped]

/-- The body that was made is the one the vectors point at. -/
theorem Points.bodyPlace {conn : HttpConn} {head : ℕ → Bytes} {body : Bytes} (points : conn.Points)
    (carries : Carries conn.response head conn.writeBuff.content body) :
    BodyPlace conn (head body.length) body ∧
      (conn.iovCnt = 2 → conn.iov1 = ⟨0, conn.fileBytes.length⟩) := by
  cases carries with
  | page noFile whole =>
    have count := points.page noFile
    refine ⟨.writeBuff count noFile whole, fun second => ?_⟩
    cases count.symm.trans second
  | file mapped bytes size nonempty whole =>
    have present : conn.response.mmFile.isSome := by rw [mapped, Option.isSome_some]
    obtain ⟨count, second⟩ := points.file present (by rw [size]; exact nonempty)
    have content : conn.fileBytes = body := by rw [fileBytes, mapped, ← bytes]; rfl
    exact ⟨.file count whole content, fun _ => by rw [second, size, content]⟩

/-- A prepared response is offered behind what the write buffer held before: its head, and then its
body, which is a page when no file is mapped. -/
theorem appended_of_process {conn next : HttpConn} {host : Host}
    (run : conn.process host = .ok (true, next)) :
    ∃ body, next.gather = conn.writeBuff.content ++
        (Lines.join 13 10 (next.announcement body.length) ++ body) ∧
      BodyPlace next (conn.writeBuff.content ++ Lines.join 13 10 (next.announcement body.length))
        body ∧ (next.response.mmFile = none → body.head? = some 60) := by
  obtain ⟨_, _, made, _, prepared⟩ := prepares_of_process run
  obtain ⟨success, request, points⟩ := makeResponse_of_process run
  obtain ⟨response, body, carries, page⟩ := makeResponse_page rfl success
  have keepAlive : next.response.isKeepAlive = next.isKeepAlive := by
    rw [response.keepAlive, startedFor_isKeepAlive, isKeepAlive, request]
  rw [keepAlive] at carries
  obtain ⟨place, whole⟩ := points.bodyPlace carries
  refine ⟨body, ?_, place, page⟩
  rw [place.gather prepared.exact whole, List.append_assoc]
  rfl

/-- The lines of an announcement are read back. -/
theorem head_announcement {conn next : HttpConn} {host : Host}
    (run : conn.process host = .ok (true, next)) (length : ℕ) (body : Bytes) :
    Lines.head 13 10 (Lines.join 13 10 (next.announcement length) ++ body) =
      some (next.announcement length, body) :=
  Lines.head_join (headLines_proper (made_of_process run).1.known _ _ _) body

/-- A prepared response reads as its head and a body of the announced length. -/
theorem gather_of_process {conn next : HttpConn} {host : Host} (empty : conn.writeBuff.content = [])
    (run : conn.process host = .ok (true, next)) :
    ∃ body, Lines.head 13 10 next.gather = some (next.announcement body.length, body) ∧
      BodyPlace next (Lines.join 13 10 (next.announcement body.length)) body := by
  obtain ⟨body, offers, place, _⟩ := appended_of_process run
  rw [empty, List.nil_append] at offers place
  refine ⟨body, ?_, place⟩
  rw [offers]
  exact head_announcement run _ body

/-- The calls of `OnWrite` leave the request alone. -/
theorem Delivering.keeps {isET : Bool} {start conn : HttpConn} {outcomes rest : List WriteOutcome}
    {sent : Bytes} (delivering : Delivering isET start outcomes sent conn rest) : Keeps start conn := by
  induction delivering with
  | start => exact .refl start
  | again before writes rearms ih => exact ih.trans (write_keeps writes)

/-- A response prepared on an empty write buffer is read as a status line, the connection lines, the
content type, one content length, and a body of that length in one place. The flag in the connection
lines is the one `OnWrite` finds after any number of writes. -/
theorem process_contentLength (host : Host) (conn next : HttpConn)
    (empty : conn.writeBuff.content = []) (run : conn.process host = .ok (true, next)) :
    ∃ body, Lines.head 13 10 next.gather = some (next.announcement body.length, body) ∧
      BodyPlace next (Lines.join 13 10 (next.announcement body.length)) body ∧
      ∀ (isET : Bool) (outcomes rest : List WriteOutcome) (sent : Bytes) (last : HttpConn)
        (written : Written), Delivering isET next outcomes sent last rest →
          last.write isET rest = .ok written → written.conn.isKeepAlive = next.isKeepAlive := by
  obtain ⟨body, read, place⟩ := gather_of_process empty run
  refine ⟨body, read, place, ?_⟩
  intro isET outcomes rest sent last written delivering writes
  have kept := delivering.keeps.trans (write_keeps writes)
  rw [isKeepAlive, kept.request, isKeepAlive]

/-- A kept connection asks for a file that is not there. -/
def keptRequest : Bytes := ascii "GET /a HTTP/1.1\r\nConnection: keep-alive\r\n\r\n"

theorem process_contentLength_kept :
    ∃ next, (fresh keptRequest).process bareHost = .ok (true, next) ∧
      ∃ body, Lines.head 13 10 next.gather = some (next.announcement body.length, body) ∧
        BodyPlace next (Lines.join 13 10 (next.announcement body.length)) body := by
  obtain ⟨_, next, _, run, _⟩ := process_bareHost (show keptRequest ≠ [] by decide)
  obtain ⟨body, read, place, _⟩ :=
    process_contentLength bareHost (fresh keptRequest) next (ByteBuffer.content_new _) run
  exact ⟨next, run, body, read, place⟩

/-- The head of a response on a kept connection has a fifth line. -/
theorem not_four_lines_kept :
    ¬ ∀ (host : Host) (conn next : HttpConn), conn.writeBuff.content = [] →
      conn.process host = .ok (true, next) → ∃ status connection type length body,
        Lines.head 13 10 next.gather = some ([status, connection, type, length], body) := by
  intro four
  obtain ⟨_, next, _, run, _⟩ := process_bareHost (show keptRequest ≠ [] by decide)
  obtain ⟨_, _, _, _, _, fewer⟩ :=
    four bareHost (fresh keptRequest) next (ByteBuffer.content_new _) run
  obtain ⟨body, read, _⟩ := gather_of_process (ByteBuffer.content_new _) run
  have kept : next.isKeepAlive = true := by
    rw [isKeepAlive, (made_of_process run).2.1, fresh_content]
    decide +kernel
  rw [announcement, kept, fewer] at read
  have lengths := congrArg (fun found => found.map (·.1.length)) read
  cases lengths

end HttpConn

end XWebServer
