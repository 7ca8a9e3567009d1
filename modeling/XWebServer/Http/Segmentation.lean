import XWebServer.Http.Message
import XWebServer.Http.Vectors

/-! # Requests that arrive in pieces

A request may arrive over several calls of `OnRead`. `Process` resets the parser each time and prepares a
response for any readable byte, so the outcome is independent of the cuts only where there are none.
-/

namespace XWebServer

namespace HttpConn

open HttpRequest

/-- What `readv` reports while one piece is there: the piece, and then that nothing is left. -/
def delivery (chunk : Bytes) : List ReadvOutcome := [.data chunk, .error .eagain]

/-- Successive calls of `OnRead`, one for each piece, and what each of them decides. -/
def arrivals (isET : Bool) (host : Host) :
    List Bytes → HttpConn → Except Fault (List Decision × HttpConn)
  | [], conn => .ok ([], conn)
  | chunk :: rest, conn => do
      let (decision, next) ← conn.onRead isET host (delivery chunk)
      let (decisions, last) ← arrivals isET host rest next
      .ok (decision :: decisions, last)

end HttpConn

end XWebServer
