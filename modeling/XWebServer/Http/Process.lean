import XWebServer.Http.Answer
import XWebServer.Http.Conn
import XWebServer.Http.Head
import XWebServer.Http.Scan

/-! # What `Process` prepares

With nothing readable `Process` only resets the request. Otherwise it parses what is readable, and
either the mapping of the file crashes the process or a response is prepared. `Prepares` lists what the
prepared connection holds; only the second vector can keep its old value.
-/

namespace XWebServer

namespace HttpConn

open HttpRequest HttpResponse

/-- A fresh object whose vectors happen to be zero, once these bytes have arrived. -/
def fresh (input : Bytes) : HttpConn :=
  { new 0 ⟨0, 0⟩ ⟨0, 0⟩ with readBuff := (ByteBuffer.new 1024).receive input }

@[simp] theorem fresh_content (input : Bytes) : (fresh input).readBuff.content = input :=
  ByteBuffer.content_receive ..

/-- The response to these readable bytes. -/
def responseTo (host : Host) (input : Bytes) : Except Fault Answer :=
  let (parsed, request, _) := parse .init input
  answer host request.path (parsed && request.isKeepAlive) (if parsed then 200 else 400)

/-- The connection after `Process` has prepared a response to the readable bytes. -/
structure Prepares (conn : HttpConn) (made : Answer) (next : HttpConn) : Prop where
  sockFd : next.sockFd = conn.sockFd
  isClose : next.isClose = conn.isClose
  request : next.request = (parse .init conn.readBuff.content).2.1
  readBuff : next.readBuff.content = (parse .init conn.readBuff.content).2.2
  writeBuff : next.writeBuff.content = conn.writeBuff.content ++ made.text
  iov0 : next.iov0 = ⟨next.writeBuff.readPos, next.writeBuff.readableBytes⟩
  noFile : made.file = none → next.iovCnt = 1 ∧ next.iov1 = conn.iov1
  withFile : ∀ bytes, made.file = some bytes →
    next.iovCnt = 2 ∧ next.iov1 = ⟨0, bytes.length⟩ ∧ next.fileBytes = bytes

theorem mmFile_of_file? {resp : HttpResponse} {mapping : Mapping} (found : resp.file? = some mapping) :
    resp.mmFile = some mapping := by
  unfold HttpResponse.file? at found
  split_ifs at found
  exact found

/-- The vectors after a response whose mapping, if any, is as long as the length noted for it. -/
private theorem prepares_of_parts {conn : HttpConn} {ok : Bool} {request : HttpRequest} {bytes : Bytes}
    {readBuff writeBuff : ByteBuffer} {response : HttpResponse} {made : Answer}
    (parsed : parse .init conn.readBuff.content = (ok, request, bytes))
    (left : readBuff.content = bytes)
    (text : writeBuff.content = conn.writeBuff.content ++ made.text)
    (file : response.file?.map (·.bytes) = made.file)
    (size : ∀ mapping, response.file? = some mapping →
      mapping.bytes.length = response.mmFileStat.size) :
    Prepares conn made (pointVectors { conn with request, readBuff, response, writeBuff }) := by
  cases found : response.file? with
  | none =>
    rw [found] at file
    refine ⟨?_, ?_, ?_, ?_, ?_, ?_, ?_, ?_⟩ <;> simp only [pointVectors, found, parsed]
    · exact left
    · exact text
    · exact fun _ => ⟨trivial, trivial⟩
    · intro bytes mapped
      cases file.trans mapped
  | some mapping =>
    rw [found] at file
    refine ⟨?_, ?_, ?_, ?_, ?_, ?_, ?_, ?_⟩ <;> simp only [pointVectors, found, parsed]
    · exact left
    · exact text
    · intro absent
      cases file.trans absent
    · intro bytes mapped
      obtain rfl : mapping.bytes = bytes := Option.some.inj (file.trans mapped)
      refine ⟨trivial, by rw [size mapping found], ?_⟩
      rw [fileBytes, mmFile_of_file? found]
      rfl

/-- With nothing readable no response is prepared. -/
theorem process_empty {conn : HttpConn} (empty : conn.readBuff.content = []) (host : Host) :
    conn.process host = .ok (false, { conn with request := .init }) := by
  have none : conn.readBuff.readableBytes = 0 := by
    rw [← conn.readBuff.content_length, empty]
    rfl
  rw [process]
  exact if_pos none

/-- The response object that `Process` sets up for the readable bytes. -/
def startedFor (host : Host) (conn : HttpConn) : HttpResponse where
  resCode := if (parse .init conn.readBuff.content).1 then 200 else 400
  isKeepAlive := (parse .init conn.readBuff.content).1 &&
    (parse .init conn.readBuff.content).2.1.isKeepAlive
  path := (parse .init conn.readBuff.content).2.1.path
  srcDir := host.srcDir
  mmFile := none
  mmFileStat := .zero
  calls := conn.response.unmapFile.calls

/-- The parse of the readable bytes and the response object set up for it. -/
theorem startResponse_ok {conn : HttpConn} (start : conn.request = .init) (host : Host) :
    ∃ left : ByteBuffer, left.content = (parse .init conn.readBuff.content).2.2 ∧
      conn.startResponse host = .ok
        ({ conn with request := (parse .init conn.readBuff.content).2.1, readBuff := left },
          startedFor host conn) := by
  obtain ⟨left, run, content⟩ := parseRequest_eq .init conn.readBuff
  refine ⟨left, content, ?_⟩
  rw [startResponse, start, startedFor]
  cases ok : (parse .init conn.readBuff.content).1 with
  | true =>
    simp only [run, ok, init_ok, ok_bind]
    rfl
  | false =>
    simp only [run, ok, init_ok, ok_bind]
    rfl

/-- With something readable `Process` is `MakeResponse` on that object, and then the vectors. -/
theorem process_eq {conn : HttpConn} (some : conn.readBuff.content ≠ []) (host : Host) :
    ∃ readBuff : ByteBuffer, readBuff.content = (parse .init conn.readBuff.content).2.2 ∧
      conn.process host =
        ((startedFor host conn).makeResponse host.files conn.writeBuff).bind fun made =>
          .ok (true, pointVectors { conn with
            request := (parse .init conn.readBuff.content).2.1
            readBuff
            response := made.1
            writeBuff := made.2 }) := by
  have readable : ¬ conn.readBuff.readableBytes = 0 := by
    rw [← conn.readBuff.content_length, List.length_eq_zero_iff]
    exact some
  obtain ⟨left, leftContent, started⟩ :=
    startResponse_ok (show { conn with request := HttpRequest.init }.request = .init from rfl) host
  refine ⟨left, leftContent, ?_⟩
  rw [process, if_neg readable]
  simp only [started, ok_bind]
  rfl

/-- The answer to the readable bytes is what `MakeResponse` appends and records. -/
theorem answered_of_makeResponse {host : Host} {conn : HttpConn} {response : HttpResponse}
    {writeBuff : ByteBuffer}
    (success : (startedFor host conn).makeResponse host.files conn.writeBuff =
      .ok (response, writeBuff)) :
    ∃ made : Answer, responseTo host conn.readBuff.content = .ok made ∧
      writeBuff.content = conn.writeBuff.content ++ made.text ∧
      response.file?.map (·.bytes) = made.file := by
  have made := makeResponse_outcome host (startedFor host conn).path (startedFor host conn).isKeepAlive
    (startedFor host conn).resCode conn.response.unmapFile.calls conn.writeBuff
  change ((startedFor host conn).makeResponse host.files conn.writeBuff).map outcome =
    (responseTo host conn.readBuff.content).map _ at made
  rw [success] at made
  obtain ⟨answer, result, behind⟩ := map_ok made.symm
  exact ⟨answer, result, (congrArg Answer.text behind).symm, (congrArg Answer.file behind).symm⟩

/-- With something readable a response is prepared, unless the mapping of its file crashes. -/
theorem process_cases {conn : HttpConn} (some : conn.readBuff.content ≠ []) (host : Host) :
    (host.Unmappable (requestPath conn.readBuff.content) ∧ conn.process host = .error .badMapping) ∨
      (¬ host.Unmappable (requestPath conn.readBuff.content) ∧
        ∃ made next, responseTo host conn.readBuff.content = .ok made ∧
          conn.process host = .ok (true, next) ∧ Prepares conn made next) := by
  obtain ⟨readBuff, left, steps⟩ := process_eq some host
  obtain ⟨_, path⟩ := parse_init some
  rw [← path]
  rcases makeResponse_cases (show (startedFor host conn).mmFile = none from rfl) host.files
    conn.writeBuff with
    ⟨absent, ⟨resp, buff⟩, success, noFile⟩ | ⟨node, opened, ⟨fails, crash⟩ |
      ⟨maps, ⟨resp, buff⟩, success, size, bytesOf, _⟩⟩
  · obtain ⟨made, response, text, file⟩ := answered_of_makeResponse success
    refine Or.inr ⟨?_, made, _, response, by rw [steps, success]; rfl, ?_⟩
    · rintro ⟨node, opened, _⟩
      cases absent.symm.trans opened
    · refine prepares_of_parts rfl left text file fun mapping found => ?_
      cases noFile.symm.trans found
  · refine Or.inl ⟨⟨node, opened, fails⟩, ?_⟩
    rw [steps, crash]
    rfl
  · obtain ⟨made, response, text, file⟩ := answered_of_makeResponse success
    refine Or.inr ⟨?_, made, _, response, by rw [steps, success]; rfl, ?_⟩
    · rintro ⟨other, found, fails⟩
      obtain rfl := Option.some.inj (opened.symm.trans found)
      exact maps fails
    · refine prepares_of_parts rfl left text file fun mapping found => ?_
      rw [bytesOf mapping found]
      exact size.symm

/-- A response is prepared only for readable bytes, and it is the response to them. -/
theorem prepares_of_process {conn next : HttpConn} {host : Host}
    (run : conn.process host = .ok (true, next)) :
    conn.readBuff.content ≠ [] ∧ ¬ host.Unmappable (requestPath conn.readBuff.content) ∧
      ∃ made, responseTo host conn.readBuff.content = .ok made ∧ Prepares conn made next := by
  have some : conn.readBuff.content ≠ [] := by
    intro empty
    cases (process_empty empty host).symm.trans run
  rcases process_cases some host with ⟨_, crash⟩ | ⟨maps, made, other, response, again, prepared⟩
  · cases crash.symm.trans run
  · obtain ⟨_, rfl⟩ := Prod.mk.inj (Except.ok.inj (again.symm.trans run))
    exact ⟨some, maps, made, response, prepared⟩

/-- A host without files crashes on nothing. -/
theorem process_bareHost {input : Bytes} (some : input ≠ []) :
    ∃ made next, responseTo bareHost input = .ok made ∧
      (fresh input).process bareHost = .ok (true, next) ∧ Prepares (fresh input) made next := by
  rw [← fresh_content input] at some
  rcases process_cases some bareHost with ⟨⟨_, opened, _⟩, _⟩ | ⟨_, made, next, response, run⟩
  · cases opened
  · rw [fresh_content] at response
    exact ⟨made, next, response, run⟩

/-! ## The response object behind the vectors -/

@[simp] theorem pointVectors_response (conn : HttpConn) :
    (pointVectors conn).response = conn.response := by
  rw [pointVectors]
  dsimp only
  cases conn.response.file? <;> rfl

@[simp] theorem pointVectors_request (conn : HttpConn) :
    (pointVectors conn).request = conn.request := by
  rw [pointVectors]
  dsimp only
  cases conn.response.file? <;> rfl

@[simp] theorem pointVectors_writeBuff (conn : HttpConn) :
    (pointVectors conn).writeBuff = conn.writeBuff := by
  rw [pointVectors]
  dsimp only
  cases conn.response.file? <;> rfl

/-- The vectors of a connection with a prepared response: one for the write buffer, and a second one
for the mapped file if there is one. -/
structure Points (conn : HttpConn) : Prop where
  page : conn.response.mmFile = none → conn.iovCnt = 1
  file : conn.response.mmFile.isSome → 0 < conn.response.mmFileStat.size →
    conn.iovCnt = 2 ∧ conn.iov1 = ⟨0, conn.response.mmFileStat.size⟩

theorem pointVectors_points (conn : HttpConn) : Points (pointVectors conn) := by
  refine ⟨fun noFile => ?_, fun mapped positive => ?_⟩
  · rw [pointVectors_response] at noFile
    simp [pointVectors, HttpResponse.file?, noFile]
  · rw [pointVectors_response] at mapped positive
    obtain ⟨mapping, mapped⟩ := Option.isSome_iff_exists.mp mapped
    simp [pointVectors, HttpResponse.file?, mapped, positive]

/-- A prepared response is what `MakeResponse` leaves, with vectors that point at it. -/
theorem makeResponse_of_process {conn next : HttpConn} {host : Host}
    (run : conn.process host = .ok (true, next)) :
    (startedFor host conn).makeResponse host.files conn.writeBuff =
        .ok (next.response, next.writeBuff) ∧
      next.request = (parse .init conn.readBuff.content).2.1 ∧ next.Points := by
  obtain ⟨some, _⟩ := prepares_of_process run
  obtain ⟨readBuff, _, steps⟩ := process_eq some host
  obtain ⟨⟨response, writeBuff⟩, success, same⟩ := bind_ok (steps.symm.trans run)
  obtain ⟨_, rfl⟩ := Prod.mk.inj (Except.ok.inj same)
  refine ⟨?_, pointVectors_request _, pointVectors_points _⟩
  rw [pointVectors_response, pointVectors_writeBuff]
  exact success

/-- The response object of a prepared response is made from the readable bytes, and the vectors point
at what it holds. -/
theorem made_of_process {conn next : HttpConn} {host : Host}
    (run : conn.process host = .ok (true, next)) :
    Made (startedFor host conn) host.files conn.writeBuff next.response next.writeBuff ∧
      next.request = (parse .init conn.readBuff.content).2.1 ∧ next.Points := by
  obtain ⟨success, rest⟩ := makeResponse_of_process run
  exact ⟨makeResponse_made rfl success, rest⟩

end HttpConn

end XWebServer
