import XWebServer.Http.Request
import XWebServer.Http.Response

/-! # The class `HttpConn` and the tasks that drive it

The member functions, and then the three functions of the server that run on one connection. System
calls are inputs: a list of outcomes is what the kernel answers to the calls in turn, and it answers
`EAGAIN` once the list is used up. A single call moves fewer than `2 ^ 31` bytes, so the `int` that
holds its result loses nothing. A call that does not come back has no outcome: a `writev` that raises
`SIGPIPE`, or a match that uses up the stack, ends the process, which is `Fault.killed` in the server.
-/

namespace XWebServer

open Slice

/-- A vector of `iov`. The base is an index into the storage of `writeBuff` for the first one and an
offset into the mapped file for the second. -/
structure Iovec where
  base : ℕ
  len : ℕ
deriving DecidableEq, Repr

structure HttpConn where
  sockFd : ℤ
  isClose : Bool
  iovCnt : ℕ
  iov0 : Iovec
  iov1 : Iovec
  readBuff : ByteBuffer
  writeBuff : ByteBuffer
  request : HttpRequest
  response : HttpResponse

namespace HttpConn

/-- The constructor, which leaves `iovCnt` and `iov` as they were in memory. -/
def new (iovCnt : ℕ) (iov0 iov1 : Iovec) : HttpConn :=
  ⟨-1, true, iovCnt, iov0, iov1, .new 1024, .new 1024, .init, .new⟩

def init (conn : HttpConn) (sockFd : ℤ) : Except Fault HttpConn := do
  assert (0 < sockFd)
  .ok { conn with
    sockFd := sockFd
    writeBuff := conn.writeBuff.retrieveAll
    readBuff := conn.readBuff.retrieveAll
    isClose := false }

/-- The result of `Read` or `Write` and the error number saved with it. -/
structure Returned where
  len : ℤ
  errno : Option Errno
deriving DecidableEq, Repr

def read (isET : Bool) : List ReadvOutcome → HttpConn → Returned × HttpConn
  | [], conn => (⟨-1, some .eagain⟩, conn)
  | .error errno :: _, conn => (⟨-1, some errno⟩, conn)
  | .data bytes :: rest, conn =>
      let next := { conn with readBuff := conn.readBuff.receive bytes }
      if bytes = [] then (⟨0, none⟩, next)
      else if isET then read isET rest next
      else (⟨bytes.length, none⟩, next)

/-- The sum of two lengths as the `int` it is returned as. -/
def toWriteBytes (conn : HttpConn) : ℤ :=
  (BitVec.ofNat 32 (sizeAdd conn.iov0.len conn.iov1.len)).toInt

def isKeepAlive (conn : HttpConn) : Bool := conn.request.isKeepAlive

/-- The bytes of the mapped file, if any. -/
def fileBytes (conn : HttpConn) : Bytes := (conn.response.mmFile.map (·.bytes)).getD []

/-- The bytes the first `iovCnt` vectors offer to `writev`. -/
def gather (conn : HttpConn) : Bytes :=
  slice conn.writeBuff.storage conn.iov0.base (conn.iov0.base + conn.iov0.len) ++
    if conn.iovCnt = 2 then slice conn.fileBytes conn.iov1.base (conn.iov1.base + conn.iov1.len)
    else []

/-- The number of bytes they offer. -/
def offered (conn : HttpConn) : ℕ := conn.iov0.len + if conn.iovCnt = 2 then conn.iov1.len else 0

/-- Move the vectors past `len` accepted bytes. -/
def advance (conn : HttpConn) (len : ℕ) : Except Fault HttpConn :=
  if conn.iov0.len < len then
    let beyond := len - conn.iov0.len
    .ok { conn with
      iov1 := ⟨conn.iov1.base + beyond, sizeSub conn.iov1.len beyond⟩
      writeBuff := if conn.iov0.len = 0 then conn.writeBuff else conn.writeBuff.retrieveAll
      iov0 := ⟨conn.iov0.base, 0⟩ }
  else do
    .ok { conn with
      iov0 := ⟨conn.iov0.base + len, conn.iov0.len - len⟩
      writeBuff := ← conn.writeBuff.retrieve len }

/-- What a call of `Write` leaves: its result, the connection, the bytes accepted, and the outcomes
not used. -/
structure Written where
  returned : Returned
  conn : HttpConn
  sent : Bytes
  unused : List WriteOutcome

def write (isET : Bool) : List WriteOutcome → HttpConn → Except Fault Written
  | [], conn => .ok ⟨⟨-1, some .eagain⟩, conn, [], []⟩
  | .error errno :: rest, conn => .ok ⟨⟨-1, some errno⟩, conn, [], rest⟩
  | .accepted count :: rest, conn =>
      let len := min count conn.offered
      let sent := conn.gather.take len
      if len = 0 then .ok ⟨⟨0, none⟩, conn, sent, rest⟩
      else if sizeAdd conn.iov0.len conn.iov1.len = 0 then .ok ⟨⟨len, none⟩, conn, sent, rest⟩
      else
        match conn.advance len with
        | .error fault => .error fault
        | .ok next =>
            if isET ∨ 10240 < next.toWriteBytes then
              (write isET rest next).map fun more => { more with sent := sent ++ more.sent }
            else .ok ⟨⟨len, none⟩, next, sent, rest⟩

/-- The end of `Process`: the vectors point at the write buffer and at the mapped file. -/
def pointVectors (conn : HttpConn) : HttpConn :=
  let conn := { conn with
    iov0 := ⟨conn.writeBuff.readPos, conn.writeBuff.readableBytes⟩
    iovCnt := 1 }
  match conn.response.file? with
  | some _ => { conn with iov1 := ⟨0, conn.response.mmFileStat.size⟩, iovCnt := 2 }
  | none => conn

/-- `Process` up to `response.Init`: the request is parsed and the response object set up. -/
def startResponse (host : Host) (conn : HttpConn) : Except Fault (HttpConn × HttpResponse) := do
  let (parsed, request, readBuff) ← conn.request.parseRequest conn.readBuff
  let started ←
    if parsed then conn.response.init host.srcDir request.path request.isKeepAlive 200
    else conn.response.init host.srcDir request.path false 400
  .ok ({ conn with request, readBuff }, started)

def process (host : Host) (conn : HttpConn) : Except Fault (Bool × HttpConn) :=
  let conn := { conn with request := .init }
  if conn.readBuff.readableBytes = 0 then .ok (false, conn)
  else do
    let (conn, started) ← conn.startResponse host
    let (response, writeBuff) ← started.makeResponse host.files conn.writeBuff
    .ok (true, pointVectors { conn with response, writeBuff })

/-- The part of `Close` that concerns the object; the descriptor is closed, and the connection no
longer counted, when `isClose` was false. -/
def close (conn : HttpConn) : HttpConn :=
  { conn with response := conn.response.unmapFile, isClose := true }

/-! ## The tasks -/

/-- How a task hands the connection back: armed for input, armed for output, or to be closed. -/
inductive Decision where
  | armIn
  | armOut
  | close
deriving DecidableEq, Repr

def onProcess (host : Host) (conn : HttpConn) : Except Fault (Decision × HttpConn) :=
  (conn.process host).map fun (ready, next) => (if ready then .armOut else .armIn, next)

def onRead (isET : Bool) (host : Host) (outcomes : List ReadvOutcome) (conn : HttpConn) :
    Except Fault (Decision × HttpConn) :=
  let (returned, next) := conn.read isET outcomes
  if returned.len ≤ 0 ∧ returned.errno ≠ some .eagain then .ok (.close, next)
  else next.onProcess host

/-- What `OnWrite` does after `Write`. -/
inductive Verdict where
  | nextRequest
  | rearm
  | close
deriving DecidableEq, Repr

def Written.verdict (written : Written) : Verdict :=
  if written.conn.toWriteBytes = 0 then
    if written.conn.isKeepAlive then .nextRequest else .close
  else if written.returned.len < 0 then
    if written.returned.errno = some .eagain then .rearm else .close
  else .close

/-- When each `writev` comes back. -/
def onWrite (isET : Bool) (host : Host) (outcomes : List WriteOutcome) (conn : HttpConn) :
    Except Fault (Decision × HttpConn) := do
  let written ← conn.write isET outcomes
  match written.verdict with
  | .nextRequest => written.conn.onProcess host
  | .rearm => .ok (.armOut, written.conn)
  | .close => .ok (.close, written.conn)

end HttpConn

end XWebServer
