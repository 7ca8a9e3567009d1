import XWebServer.Buffer.ByteBuffer
import XWebServer.Http.Files

/-! # The class `HttpResponse`

The status decision, the head, the mapped file or the error page. `calls` records the calls on files in
the order they are made; the address of a mapping is the place of its `mmap` in that record.
-/

namespace XWebServer

/-- A call on a file that leaves something behind or takes it away. -/
inductive FileCall where
  | opened
  | closed
  | mapped (len : ℕ)
  | unmapped (addr len : ℕ)
deriving DecidableEq, Repr

/-- What `mmFile` points to. -/
structure Mapping where
  addr : ℕ
  bytes : Bytes
deriving DecidableEq, Repr

structure HttpResponse where
  resCode : ℤ
  isKeepAlive : Bool
  path : Bytes
  srcDir : Bytes
  mmFile : Option Mapping
  mmFileStat : FileStat
  calls : List FileCall
deriving DecidableEq, Repr

namespace HttpResponse

/-- `SUFFIX_TYPE`. -/
def suffixType : List (Bytes × Bytes) :=
  [(ascii ".html", ascii "text/html"), (ascii ".xml", ascii "text/xml"),
    (ascii ".xhtml", ascii "application/xhtml+xml"), (ascii ".txt", ascii "text/plain"),
    (ascii ".rtf", ascii "application/rtf"), (ascii ".pdf", ascii "application/pdf"),
    (ascii ".word", ascii "application/nsword"), (ascii ".png", ascii "image/png"),
    (ascii ".gif", ascii "image/gif"), (ascii ".jpg", ascii "image/jpeg"),
    (ascii ".jpeg", ascii "image/jpeg"), (ascii ".au", ascii "audio/basic"),
    (ascii ".mpeg", ascii "video/mpeg"), (ascii ".mpg", ascii "video/mpeg"),
    (ascii ".avi", ascii "video/x-msvideo"), (ascii ".gz", ascii "application/x-gzip"),
    (ascii ".tar", ascii "application/x-tar"), (ascii ".css", ascii "text/css "),
    (ascii ".js", ascii "text/javascript ")]

/-- `CODE_STATUS`. -/
def codeStatus : List (ℤ × Bytes) :=
  [(200, ascii "OK"), (400, ascii "Bad Request"), (403, ascii "Forbidden"), (404, ascii "Not Found")]

def new : HttpResponse := ⟨-1, false, [], [], none, .zero, []⟩

def unmapFile (resp : HttpResponse) : HttpResponse :=
  match resp.mmFile with
  | none => resp
  | some mapping =>
      { resp with
        mmFile := none
        calls := resp.calls ++ [.unmapped mapping.addr resp.mmFileStat.size] }

def init (resp : HttpResponse) (srcDir path : Bytes) (isKeepAlive : Bool) (code : ℤ) :
    Except Fault HttpResponse := do
  assert (srcDir ≠ [])
  .ok ⟨code, isKeepAlive, path, srcDir, none, .zero, resp.unmapFile.calls⟩

/-- `File()` and `FileLen()` together: the mapped file, when there is one of positive length. -/
def file? (resp : HttpResponse) : Option Mapping :=
  if 0 < resp.mmFileStat.size then resp.mmFile else none

/-- The name handed to `stat` and `open`. -/
def fileName (resp : HttpResponse) : Bytes := cString (resp.srcDir ++ resp.path)

/-- The part of a string from the last occurrence of a character on. -/
def fromLast (char : UInt8) : Bytes → Option Bytes
  | [] => none
  | head :: rest => (fromLast char rest).or (if head = char then some (head :: rest) else none)

def getFileType (resp : HttpResponse) : Bytes :=
  ((fromLast 46 resp.path).bind (List.lookup · suffixType)).getD (ascii "text/plain")

def addStateLine (resp : HttpResponse) (buff : ByteBuffer) : HttpResponse × ByteBuffer :=
  let (next, status) : HttpResponse × Bytes :=
    match List.lookup resp.resCode codeStatus with
    | some status => (resp, status)
    | none => ({ resp with resCode := 400 }, ascii "Bad Request")
  (next, buff.append
    (ascii "HTTP/1.1 " ++ ascii (toString next.resCode) ++ ascii " " ++ status ++ ascii "\r\n"))

def addHeader (resp : HttpResponse) (buff : ByteBuffer) : ByteBuffer :=
  let connection :=
    if resp.isKeepAlive then
      ((buff.append (ascii "Connection: ")).append (ascii "keep-alive\r\n")).append
        (ascii "keep-alive: max=6, timeout=120\r\n")
    else (buff.append (ascii "Connection: ")).append (ascii "close\r\n")
  connection.append (ascii "Content-type: " ++ resp.getFileType ++ ascii "\r\n")

/-- `count(res_code == 1)` asks for code 0 or 1, neither of which is in the table. -/
def errorContent (resp : HttpResponse) (buff : ByteBuffer) (message : Bytes) : ByteBuffer :=
  let status :=
    if (List.lookup (if resp.resCode = 1 then 1 else 0) codeStatus).isSome then
      (List.lookup resp.resCode codeStatus).getD []
    else ascii "Bad Request"
  let body := ascii "<html><title>Error</title>" ++ ascii "<body bgcolor=\"ffffff\">" ++
    ascii (toString resp.resCode) ++ ascii " : " ++ status ++ ascii "\n" ++
    ascii "<p>" ++ message ++ ascii "</p>" ++ ascii "<hr><em>XWebServer</em></body></html>"
  (buff.append (ascii "Content-length: " ++ ascii (toString body.length) ++ ascii "\r\n\r\n")).append
    body

def record (resp : HttpResponse) (call : FileCall) : HttpResponse :=
  { resp with calls := resp.calls ++ [call] }

/-- `*mmRet == -1` compares the first four bytes of the mapping; on a failed `mmap` it reads through
the pointer that stands for the failure. -/
def addContent (resp : HttpResponse) (files : FileSystem) (buff : ByteBuffer) :
    Except Fault (HttpResponse × ByteBuffer) :=
  match files.openFile resp.fileName with
  | none => .ok (resp, resp.errorContent buff (ascii "File NotFound!"))
  | some node =>
      let opened := resp.record .opened
      match node.mmap opened.mmFileStat.size with
      | none => .error .badMapping
      | some bytes =>
          let mapped := opened.record (.mapped opened.mmFileStat.size)
          if bytes.take 4 = [255, 255, 255, 255] then
            .ok (mapped, mapped.errorContent buff (ascii "File NotFound!"))
          else
            let closed := mapped.record .closed
            .ok ({ closed with mmFile := some ⟨opened.calls.length, bytes⟩ },
              buff.append (ascii "Content-length: " ++ ascii (toString closed.mmFileStat.size) ++
                ascii "\r\n\r\n"))

/-- The status decision of `MakeResponse`. -/
def decideStatus (resp : HttpResponse) (files : FileSystem) : HttpResponse :=
  match files.stat resp.fileName with
  | none => { resp with resCode := 404 }
  | some stat =>
      let found := { resp with mmFileStat := stat }
      if stat.isDirectory then { found with resCode := 404 }
      else if ¬ stat.othersRead then { found with resCode := 403 }
      else if found.resCode = -1 then { found with resCode := 200 }
      else found

def makeResponse (resp : HttpResponse) (files : FileSystem) (buff : ByteBuffer) :
    Except Fault (HttpResponse × ByteBuffer) :=
  let (stated, line) := (resp.decideStatus files).addStateLine buff
  stated.addContent files (stated.addHeader line)

end HttpResponse

end XWebServer
