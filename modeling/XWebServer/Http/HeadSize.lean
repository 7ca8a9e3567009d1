import XWebServer.Http.ContentLength

/-! # How long the text of a response is

The head and the error pages are short. Where every file is shorter than `2 ^ 31` bytes, a prepared
response is so short that the sum of its two vectors stays below `2 ^ 32`, where `ToWriteBytes` is 0 for
nothing but an empty response.
-/

namespace XWebServer

/-- Every file that opens is shorter than `2 ^ 31` bytes. -/
def Host.Modest (host : Host) : Prop :=
  ∀ name node, host.files.openFile name = some node → node.content.length < 2 ^ 31

theorem bareHost_modest : bareHost.Modest := fun _ _ opened => by cases opened

namespace HttpResponse

theorem length_ascii (literal : String) : (ascii literal).length = literal.length := by
  rw [ascii, List.length_map, String.length_toList]

theorem lengthLine_short {length : ℕ} (small : length < 2 ^ 31) : (lengthLine length).length ≤ 26 := by
  have digits : (toString length).length ≤ 10 :=
    (Nat.length_repr_le_iff (by decide)).mpr (small.trans (by decide))
  have text : (ascii "Content-length: ").length = 16 := by decide
  rw [lengthLine, List.length_append, length_ascii (toString length), text]
  omega

theorem getFileType_short (resp : HttpResponse) : resp.getFileType.length ≤ 21 := by
  have types : ∀ entry ∈ suffixType, entry.2.length ≤ 21 := by decide +kernel
  obtain ⟨suffix, listed⟩ := resp.getFileType_mem
  exact types _ listed

theorem statusLine_short {code : ℤ} (known : (codeStatus.lookup code).isSome) :
    (statusLine code).length ≤ 24 := by
  have all : ∀ entry ∈ codeStatus, (statusLine entry.1).length ≤ 24 := by decide +kernel
  obtain ⟨status, found⟩ := Option.isSome_iff_exists.mp known
  exact all (code, status) (mem_of_lookup found)

/-- An error page with its `Content-length` line. -/
theorem errorContent_short {resp : HttpResponse} (known : (codeStatus.lookup resp.resCode).isSome)
    (buff : ByteBuffer) :
    (resp.errorContent buff (ascii "File NotFound!")).content.length ≤ buff.content.length + 200 := by
  have all : ∀ entry ∈ codeStatus, ({ new with resCode := entry.1 }.errorContent (.new 0)
      (ascii "File NotFound!")).content.length ≤ 200 := by decide +kernel
  obtain ⟨status, found⟩ := Option.isSome_iff_exists.mp known
  have page := all (resp.resCode, status) (mem_of_lookup found)
  rw [errorContent_content, List.length_append]
  exact Nat.add_le_add_left page _

/-- The status line and the header lines. -/
theorem addHeader_short (resp : HttpResponse) (buff : ByteBuffer) :
    ((resp.addStateLine buff).1.addHeader (resp.addStateLine buff).2).content.length ≤
      buff.content.length + 130 := by
  obtain ⟨known, line⟩ := resp.addStateLine_line buff
  have status := statusLine_short known
  have type := (resp.addStateLine buff).1.getFileType_short
  have text : (ascii "Content-type: ").length = 14 := by decide
  have connection : ((connectionLines (resp.addStateLine buff).1.isKeepAlive).flatMap
      (· ++ [13, 10])).length ≤ 60 := by
    cases (resp.addStateLine buff).1.isKeepAlive <;> decide
  rw [addHeader_lines, line, List.flatMap_append, List.flatMap_singleton]
  simp only [List.length_append, List.length_cons, List.length_nil]
  omega

theorem makeResponse_short {resp made : HttpResponse} {files : FileSystem} {buff out : ByteBuffer}
    (run : resp.makeResponse files buff = .ok (made, out))
    (modest : ∀ node, files.openFile resp.fileName = some node → node.content.length < 2 ^ 31) :
    out.content.length ≤ buff.content.length + 400 := by
  have adds := resp.makeResponse_adds files buff
  rw [run] at adds
  have head := (resp.decideStatus files).addHeader_short buff
  have name := resp.stated_fileName files buff
  obtain ⟨known, _⟩ := (resp.decideStatus files).addStateLine_line buff
  cases adds with
  | absent opened =>
    have page := errorContent_short known (((resp.decideStatus files).addStateLine buff).1.addHeader
      ((resp.decideStatus files).addStateLine buff).2)
    omega
  | discarded opened maps failure calls =>
    have listed : (codeStatus.lookup (((resp.decideStatus files).addStateLine buff).1.withCalls
      calls).resCode).isSome := known
    have page := errorContent_short listed
      (((resp.decideStatus files).addStateLine buff).1.addHeader
        ((resp.decideStatus files).addStateLine buff).2)
    omega
  | @mapped node opened maps sound addr calls =>
    rw [name] at opened
    have line := lengthLine_short (modest node opened)
    rw [lengthLine, List.length_append] at line
    have ends : (ascii "\r\n\r\n").length = 4 := by decide
    simp only [ByteBuffer.content_append, List.length_append]
    omega

end HttpResponse

namespace HttpConn

open HttpRequest HttpResponse

/-- The mapped file of a prepared response on a modest host. -/
theorem file_short {host : Host} {conn next : HttpConn} {made : Answer} {bytes : Bytes}
    (modest : host.Modest) (run : conn.process host = .ok (true, next))
    (response : responseTo host conn.readBuff.content = .ok made) (file : made.file = some bytes) :
    bytes.length < 2 ^ 31 := by
  obtain ⟨success, _, _⟩ := makeResponse_of_process run
  obtain ⟨other, again, _, mapped⟩ := answered_of_makeResponse success
  obtain rfl := Except.ok.inj (response.symm.trans again)
  rw [file, Option.map_eq_some_iff] at mapped
  obtain ⟨mapping, found, rfl⟩ := mapped
  rcases makeResponse_cases (show (startedFor host conn).mmFile = none from rfl) host.files
    conn.writeBuff with
    ⟨_, pair, again, none⟩ | ⟨node, opened, ⟨_, crash⟩ | ⟨_, pair, again, _, content, _⟩⟩
  · obtain rfl := Except.ok.inj (success.symm.trans again)
    cases none.symm.trans found
  · cases crash.symm.trans success
  · obtain rfl := Except.ok.inj (success.symm.trans again)
    rw [content mapping found]
    exact modest _ node opened

/-- On a modest host a response prepared with a modest second vector leaves modest vectors. -/
theorem process_short {host : Host} {conn next : HttpConn} (modest : host.Modest)
    (empty : conn.writeBuff.content = []) (second : conn.iov1.len < 2 ^ 31)
    (run : conn.process host = .ok (true, next)) :
    next.iov0.len ≤ 400 ∧ next.iov1.len < 2 ^ 31 := by
  obtain ⟨success, _, _⟩ := makeResponse_of_process run
  obtain ⟨_, _, made, response, prepared⟩ := prepares_of_process run
  have text := makeResponse_short success fun node opened => modest _ node opened
  rw [empty, List.length_nil, Nat.zero_add, ByteBuffer.content_length] at text
  refine ⟨by rwa [prepared.iov0], ?_⟩
  cases file : made.file with
  | none => rwa [(prepared.noFile file).2]
  | some bytes =>
    rw [(prepared.withFile bytes file).2.1]
    exact file_short modest run response file

end HttpConn

end XWebServer
