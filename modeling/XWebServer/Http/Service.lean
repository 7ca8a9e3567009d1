import XWebServer.Http.BadRequest
import XWebServer.Http.Client
import XWebServer.Http.Faithful
import XWebServer.Http.Framing

/-! # What a client gets that asks for one file at a time

`respond` is the response to a well-formed request as a function of the host: the status from the file
under the path, the connection lines from the request, and the file or the error page. A client whose
requests arrive whole and one by one reads exactly these responses, in the order of its requests, until
the connection is closed.
-/

namespace XWebServer

open Transition System

namespace HttpResponse

/-- The page of `ErrorContent`: its text for the status is always the one of 400. -/
def errorPage (code : ℤ) : Bytes :=
  ascii "<html><title>Error</title>" ++ ascii "<body bgcolor=\"ffffff\">" ++
    ascii (toString code) ++ ascii " : " ++ ascii "Bad Request" ++ ascii "\n" ++
    ascii "<p>" ++ ascii "File NotFound!" ++ ascii "</p>" ++
    ascii "<hr><em>XWebServer</em></body></html>"

theorem errorContent_errorPage (resp : HttpResponse) (buff : ByteBuffer) :
    (resp.errorContent buff (ascii "File NotFound!")).content = buff.content ++
      (lengthLine (errorPage resp.resCode).length ++ [13, 10, 13, 10]) ++ errorPage resp.resCode := by
  have never : (codeStatus.lookup (if resp.resCode = 1 then 1 else 0)).isSome = false := by
    split_ifs <;> rfl
  rw [errorContent, never]
  simp only [ByteBuffer.content_append, if_neg Bool.false_ne_true]
  rfl

theorem AddsContent.page {resp made : HttpResponse} {files : FileSystem} {buff out : ByteBuffer}
    (adds : AddsContent resp files buff (.ok (made, out))) (noFile : made.mmFile = none) :
    out.content = buff.content ++ (lengthLine (errorPage resp.resCode).length ++ [13, 10, 13, 10]) ++
      errorPage resp.resCode := by
  cases adds with
  | absent opened => exact errorContent_errorPage _ _
  | discarded opened maps failure calls => exact errorContent_errorPage _ _
  | mapped opened maps sound addr calls => cases noFile

/-- Without a mapped file the response is its head and the error page of its status. -/
theorem makeResponse_errorPage {resp made : HttpResponse} (unmapped : resp.mmFile = none)
    {files : FileSystem} {buff out : ByteBuffer}
    (success : resp.makeResponse files buff = .ok (made, out)) (noFile : made.mmFile = none) :
    out.content = buff.content ++ (Lines.join 13 10 (headLines made.resCode made.isKeepAlive
      made.getFileType (errorPage made.resCode).length) ++ errorPage made.resCode) := by
  have adds := resp.makeResponse_adds files buff
  rw [success] at adds
  obtain ⟨_, line⟩ := (resp.decideStatus files).addStateLine_line buff
  have name := resp.stated_fileName files buff
  have sized : ∀ node, files.openFile ((resp.decideStatus files).addStateLine buff).1.fileName =
      some node → ((resp.decideStatus files).addStateLine buff).1.mmFileStat.size =
        node.content.length := fun node opened => stated_size buff (name ▸ opened)
  have kept : ((resp.decideStatus files).addStateLine buff).1.mmFile = none := by
    obtain ⟨code, stated⟩ := resp.stated_eq files buff
    rw [stated]
    exact unmapped
  obtain ⟨code, keepAlive, path, _⟩ := adds.made kept sized
  have type : made.getFileType = ((resp.decideStatus files).addStateLine buff).1.getFileType := by
    rw [getFileType, path, getFileType]
  rw [adds.page noFile, addHeader_lines, line, code, keepAlive, type]
  simp [Lines.join, headLines]

theorem AddsContent.path {resp made : HttpResponse} {files : FileSystem} {buff out : ByteBuffer}
    (adds : AddsContent resp files buff (.ok (made, out))) : made.path = resp.path := by
  cases adds <;> rfl

theorem makeResponse_path {resp made : HttpResponse} {files : FileSystem} {buff out : ByteBuffer}
    (success : resp.makeResponse files buff = .ok (made, out)) : made.path = resp.path := by
  have adds := resp.makeResponse_adds files buff
  rw [success] at adds
  obtain ⟨code, stated⟩ := resp.stated_eq files buff
  rw [adds.path, stated]

/-- `GetFileType` looks at the path only. -/
def typeOf (path : Bytes) : Bytes := getFileType { new with path }

end HttpResponse

/-- The status for the path of an accepted request. -/
def Host.code (host : Host) (path : Bytes) : ℤ :=
  match host.files (host.fileName path) with
  | none => 404
  | some node => if node.kind = .directory then 404 else if node.othersRead then 200 else 403

/-- What `AddContent` gives out for a path, when it returns. -/
def Host.body (host : Host) (path : Bytes) : Bytes :=
  match host.files.openFile (host.fileName path) with
  | none => HttpResponse.errorPage (host.code path)
  | some node =>
      if node.content.take 4 = [255, 255, 255, 255] then HttpResponse.errorPage (host.code path)
      else node.content

/-- The response to a well-formed request. -/
def Host.respond (host : Host) (head : RequestHead) : Received where
  lines := HttpResponse.headLines (host.code (HttpRequest.rewritePath head.target))
    head.request.isKeepAlive (HttpResponse.typeOf (HttpRequest.rewritePath head.target))
    (host.body (HttpRequest.rewritePath head.target)).length
  body := host.body (HttpRequest.rewritePath head.target)

/-! ## Requests in a row -/

namespace RequestHead

end RequestHead

namespace HttpConn

open HttpRequest HttpResponse

/-! ## One response -/

theorem code_of_process {conn next : HttpConn} {host : Host}
    (run : conn.process host = .ok (true, next)) (accepted : (parse .init conn.readBuff.content).1 = true) :
    next.response.resCode = host.code (requestPath conn.readBuff.content) := by
  obtain ⟨some, _⟩ := prepares_of_process run
  obtain ⟨_, path⟩ := parse_init some
  have decided := (made_of_process run).1.code
    (decideStatus_known (startedFor_known host conn) host.files)
  have started : (startedFor host conn).resCode = 200 := by rw [startedFor, accepted, if_pos rfl]
  have name : (startedFor host conn).fileName = host.fileName (requestPath conn.readBuff.content) := by
    rw [← path]
    rfl
  rw [decided, decideStatus, name, FileSystem.stat, Host.code]
  cases host.files (host.fileName (requestPath conn.readBuff.content)) with
  | none => rfl
  | some node =>
    cases kind : node.kind <;> cases readable : node.othersRead <;>
      simp [Node.stat, kind, readable, started]

/-- A response is the head for its status, the flag of the request and the type of the path, and the body
that the host gives out for the path. -/
theorem gather_of_accepted {conn next : HttpConn} {host : Host} (empty : conn.writeBuff.content = [])
    (run : conn.process host = .ok (true, next)) (accepted : (parse .init conn.readBuff.content).1 = true) :
    Lines.head 13 10 next.gather =
      some (headLines (host.code (requestPath conn.readBuff.content))
        (parse .init conn.readBuff.content).2.1.isKeepAlive (typeOf (requestPath conn.readBuff.content))
        (host.body (requestPath conn.readBuff.content)).length,
        host.body (requestPath conn.readBuff.content)) := by
  obtain ⟨some, maps, _⟩ := prepares_of_process run
  obtain ⟨success, request, _⟩ := makeResponse_of_process run
  have code := code_of_process run accepted
  have lines (length : ℕ) : next.announcement length =
      headLines (host.code (requestPath conn.readBuff.content))
        (parse .init conn.readBuff.content).2.1.isKeepAlive (typeOf (requestPath conn.readBuff.content))
        length := by
    have path : next.response.path = requestPath conn.readBuff.content := by
      rw [makeResponse_path success, ← (parse_init some).2]
      rfl
    rw [announcement, code, isKeepAlive, request, getFileType, path]
    rfl
  rw [← lines]
  obtain ⟨body, read, place⟩ := gather_of_process empty run
  suffices same : body = host.body (requestPath conn.readBuff.content) by rw [read, same]
  have opens := mmFile_of_process run
  cases place with
  | writeBuff count unmapped held =>
    rw [unmapped, Option.isSome_none, Bool.false_eq_true, false_iff] at opens
    have page : host.body (requestPath conn.readBuff.content) = errorPage next.response.resCode := by
      rw [Host.body, code]
      split
      · rfl
      · rename_i node opened
        split_ifs with failure
        · rfl
        · exact absurd ⟨node, opened, failure⟩ opens
    have keepAlive : next.response.isKeepAlive = next.isKeepAlive := by
      rw [(made_of_process run).1.keepAlive, startedFor_isKeepAlive, isKeepAlive, request]
    have made := makeResponse_errorPage (show (startedFor host conn).mmFile = none from rfl) success
      unmapped
    rw [empty, List.nil_append, keepAlive, held] at made
    have again := head_announcement run body.length body
    rw [made] at again
    obtain ⟨_, same⟩ := Prod.mk.inj (Option.some.inj
      ((head_announcement run (errorPage next.response.resCode).length _).symm.trans again))
    rw [page, same]
  | file count held mapped =>
    obtain ⟨_, _, points⟩ := makeResponse_of_process run
    have isMapped : next.response.mmFile.isSome := by
      rw [Option.isSome_iff_ne_none]
      intro unmapped
      cases count.symm.trans (points.page unmapped)
    obtain ⟨node, opened, sound⟩ := opens.mp isMapped
    rw [← mapped, fileBytes_of_process run opened isMapped, Host.body, opened]
    dsimp only
    rw [if_neg sound]

/-- A response to a well-formed request is what the host responds. -/
theorem Reply.Right.responds {reply : Reply} (right : reply.Right) {head : RequestHead}
    (asks : reply.request = head.bytes) :
    Client.readMessage reply.response = some (reply.host.respond head, []) := by
  obtain ⟨conn, next, request, empty, run, _, response⟩ := right
  have parsed := head.parse_bytes
  rw [← asks, ← request] at parsed
  have path : requestPath conn.readBuff.content = rewritePath head.target := by
    have bytes := head.requestPath_bytes []
    rwa [List.append_nil, ← asks, ← request] at bytes
  have read := gather_of_accepted empty run (by rw [parsed])
  rw [response, path, parsed] at read
  apply Client.readMessage_of
  · rw [List.append_nil]
    exact read
  · exact Client.contentLength_headLines _ _ _ _

namespace Conversation

/-! ## One request at a time -/

/-- What a read finds is one whole request, or nothing. -/
def Polite (isET : Bool) : Event → Prop
  | .readable outcomes =>
      (arrival isET outcomes).2 = [] ∨ ∃ head : RequestHead, (arrival isET outcomes).2 = head.bytes
  | .writable _ => True

/-- The requests that came in, each with its reply but perhaps the last. -/
structure Asked (talk : Conversation) (heads : List RequestHead) : Prop where
  received : talk.received = heads.flatMap (·.bytes)
  asks : List.Forall₂ (fun head reply => reply.request = head.bytes) (heads.take talk.replies.length)
    talk.replies
  idle : talk.waits ≠ .close → talk.conn.readBuff.content = [] ∧ heads.length = talk.replies.length

/-- The connection is closed with a request unanswered, or without. -/
theorem Asked.closed {talk : Conversation} {heads : List RequestHead} (asked : talk.Asked heads)
    (whole : heads.length = talk.replies.length) (conn : HttpConn) {came : Bytes}
    (polite : came = [] ∨ ∃ head : RequestHead, came = head.bytes) :
    ∃ heads, Asked ⟨conn, .close, talk.received ++ came, talk.sent, talk.replies⟩ heads := by
  rcases polite with rfl | ⟨head, rfl⟩
  · refine ⟨heads, ?_, asked.asks, fun opened => absurd rfl opened⟩
    dsimp only
    rw [List.append_nil, asked.received]
  · refine ⟨heads ++ [head], ?_, ?_, fun opened => absurd rfl opened⟩
    · dsimp only
      rw [asked.received, List.flatMap_append, List.flatMap_singleton]
    · have asks := asked.asks
      rw [← whole, List.take_length] at asks
      dsimp only
      rw [← whole, List.take_left]
      exact asks

/-- A request is answered. -/
theorem Asked.answered {talk : Conversation} {heads : List RequestHead} (asked : talk.Asked heads)
    (whole : heads.length = talk.replies.length) {conn : HttpConn} (head : RequestHead) {reply : Reply}
    (asks : reply.request = head.bytes) (consumed : conn.readBuff.content = []) :
    Asked ⟨conn, .armOut, talk.received ++ head.bytes, talk.sent, talk.replies ++ [reply]⟩
      (heads ++ [head]) := by
  have before := asked.asks
  rw [← whole, List.take_length] at before
  have lengths : (heads ++ [head]).length = (talk.replies ++ [reply]).length := by
    rw [List.length_append, List.length_append, whole, List.length_singleton, List.length_singleton]
  refine ⟨?_, ?_, fun _ => ⟨consumed, lengths⟩⟩
  · dsimp only
    rw [asked.received, List.flatMap_append, List.flatMap_singleton]
  · dsimp only
    rw [← lengths, List.take_length]
    exact List.rel_append before (.cons asks .nil)

theorem Asked.takeIn {talk next : Conversation} {heads : List RequestHead} (asked : talk.Asked heads)
    (waits : talk.waits = .armIn) {isET : Bool} {host : Host} {outcomes : List ReadvOutcome}
    (polite : Polite isET (.readable outcomes)) (run : talk.takeIn isET host outcomes = .ok next) :
    ∃ heads, next.Asked heads := by
  obtain ⟨nothing, whole⟩ := asked.idle (by rw [waits]; decide)
  obtain ⟨⟨decision, conn⟩, task, run⟩ := bind_ok run
  obtain ⟨buff, content, steps⟩ := onRead_eq isET host outcomes talk.conn
  rw [nothing, List.nil_append] at content
  obtain rfl := Except.ok.inj run
  rw [nothing, List.nil_append]
  rw [steps] at task
  split_ifs at task with failed
  · obtain ⟨rfl, rfl⟩ := Prod.mk.inj (Except.ok.inj task)
    rw [prepared, if_neg (by decide), List.append_nil]
    exact asked.closed whole _ polite
  · rcases onProcess_cases task with ⟨rfl, none, rfl⟩ | ⟨rfl, success⟩
    · -- nothing has come
      have empty : (arrival isET outcomes).2 = [] := content.symm.trans none
      rw [prepared, if_neg (by decide), List.append_nil, empty, List.append_nil]
      exact ⟨heads, asked.received, asked.asks, fun _ => ⟨none, whole⟩⟩
    · obtain ⟨some, _, made, _, prepares⟩ := prepares_of_process success
      have came : (arrival isET outcomes).2 ≠ [] := content ▸ some
      obtain ⟨head, bytes⟩ := polite.resolve_left came
      have consumed : conn.readBuff.content = [] := by
        rw [prepares.readBuff, content, bytes, head.parse_bytes]
      rw [prepared, if_pos rfl, bytes]
      exact ⟨_, asked.answered whole head rfl consumed⟩

/-- What leaves the requests and the replies alone. -/
theorem Asked.same {talk next : Conversation} {heads : List RequestHead} (asked : talk.Asked heads)
    (whole : heads.length = talk.replies.length) (received : next.received = talk.received)
    (replies : next.replies = talk.replies) (left : next.conn.readBuff.content = []) :
    next.Asked heads := by
  refine ⟨received.trans asked.received, ?_, fun _ => ⟨left, by rw [replies, whole]⟩⟩
  rw [replies]
  exact asked.asks

theorem Asked.giveOut {talk next : Conversation} {heads : List RequestHead} (asked : talk.Asked heads)
    (waits : talk.waits = .armOut) {isET : Bool} {host : Host} {outcomes : List WriteOutcome}
    (run : talk.giveOut isET host outcomes = .ok next) : next.Asked heads := by
  obtain ⟨nothing, whole⟩ := asked.idle (by rw [waits]; decide)
  obtain ⟨written, writes, run⟩ := bind_ok run
  obtain ⟨⟨decision, conn⟩, task, run⟩ := bind_ok run
  obtain rfl := Except.ok.inj run
  obtain ⟨other, again, task⟩ := bind_ok task
  obtain rfl := Except.ok.inj (writes.symm.trans again)
  have left : written.conn.readBuff.content = [] := by rw [(write_keeps writes).readBuff, nothing]
  cases verdict : written.verdict with
  | nextRequest =>
    rw [verdict] at task
    rcases onProcess_cases task with ⟨rfl, none, rfl⟩ | ⟨rfl, success⟩
    · exact asked.same whole rfl (List.append_nil _) none
    · exact absurd left (prepares_of_process success).1
  | rearm =>
    rw [verdict] at task
    obtain ⟨rfl, rfl⟩ := Prod.mk.inj (Except.ok.inj task)
    exact asked.same whole rfl (List.append_nil _) left
  | close =>
    rw [verdict] at task
    obtain ⟨rfl, rfl⟩ := Prod.mk.inj (Except.ok.inj task)
    exact asked.same whole rfl (List.append_nil _) left

end Conversation

end HttpConn

end XWebServer
