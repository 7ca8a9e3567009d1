import XWebServer.Buffer.ByteBuffer
import XWebServer.Lib.Lines
import XWebServer.Lib.Regex
import Mathlib.Logic.Function.Basic

/-! # The class `HttpRequest`: the line loop and its four states

`parseRequest` works on the connection's read buffer as the source does: it looks for CRLF, lets the
state decide what a line means, and retrieves the line with its CRLF. The two patterns are the source's
regular expressions; their anchors are implied by a match of the whole line.
-/

namespace XWebServer

open Regex

/-- `PARSE_STATE`. -/
inductive ParseState where
  | requestLine
  | headers
  | body
  | finish
deriving DecidableEq, Repr

structure HttpRequest where
  state : ParseState
  method : Bytes
  path : Bytes
  version : Bytes
  body : Bytes
  header : Bytes → Option Bytes
  post : Bytes → Option Bytes

namespace HttpRequest

/-- `DEFAULT_HTML`. -/
def defaultHtml : List Bytes :=
  [ascii "/index", ascii "/register", ascii "/login", ascii "/welcome", ascii "/video",
    ascii "/picture"]

/-- `[^ ]`. -/
def notSpace (char : UInt8) : Bool := char != 32

/-- `[^:]`. -/
def notColon (char : UInt8) : Bool := char != 58

/-- `.`, which in ECMAScript matches no line terminator. -/
def notNewline (char : UInt8) : Bool := char != 10 && char != 13

/-- `^([^ ]*) ([^ ]*) HTTP/([^ ]*)$`. -/
def requestLinePattern : Pattern UInt8 :=
  .seq (.group (.many notSpace)) (.seq (.literal (ascii " ")) (.seq (.group (.many notSpace))
    (.seq (.literal (ascii " HTTP/")) (.group (.many notSpace)))))

/-- `^([^:]*): ?(.*)$`. -/
def headerPattern : Pattern UInt8 :=
  .seq (.group (.many notColon)) (.seq (.literal (ascii ":")) (.seq (.optional 32)
    (.group (.many notNewline))))

/-- What `Init` leaves in any object. -/
def init : HttpRequest where
  state := .requestLine
  method := []
  path := []
  version := []
  body := []
  header _ := none
  post _ := none

/-- The path `ParsePath` puts in place of the one parsed. -/
def rewritePath (path : Bytes) : Bytes :=
  if path = ascii "/" then ascii "/index.html"
  else if path ∈ defaultHtml then path ++ ascii ".html"
  else path

def parsePath (req : HttpRequest) : HttpRequest := { req with path := rewritePath req.path }

/-- The request after a line that matches, and nothing after one that does not. -/
def parseRequestLine (req : HttpRequest) (line : Bytes) : Option HttpRequest :=
  match requestLinePattern.matches? line with
  | some [method, path, version] =>
      some { req with method := method, path := path, version := version, state := .headers }
  | _ => none

def parseHeader (req : HttpRequest) (line : Bytes) : HttpRequest :=
  match headerPattern.matches? line with
  | some [name, value] => { req with header := Function.update req.header name (some value) }
  | _ => { req with state := .body }

/-- The body of `ParsePost` is commented out. -/
def parsePost (req : HttpRequest) : HttpRequest := req

def parseBody (req : HttpRequest) (line : Bytes) : HttpRequest :=
  { parsePost { req with body := line } with state := .finish }

/-- The `switch` of the loop. `readable` is `ReadableBytes()` before the line is retrieved; the
result is missing where the source returns `false`. -/
def parseLine (req : HttpRequest) (line : Bytes) (readable : ℕ) : Option HttpRequest :=
  match req.state with
  | .requestLine => (req.parseRequestLine line).map parsePath
  | .headers =>
      let next := req.parseHeader line
      some (if readable ≤ 2 then { next with state := .finish } else next)
  | .body => some (req.parseBody line)
  | .finish => some req

/-- The first line of a byte string, and what follows its CRLF if it has one. -/
abbrev cutLine (input : Bytes) : Bytes × Option Bytes := Lines.cut 13 10 input

/-- The `while` loop. Every pass that goes on retrieves at least the two bytes of a CRLF, so the
number of readable bytes is enough fuel (`parseLoop_eq`). -/
def parseLoop : ℕ → HttpRequest → ByteBuffer → Except Fault (Bool × HttpRequest × ByteBuffer)
  | 0, req, buff => .ok (true, req, buff)
  | fuel + 1, req, buff =>
      if buff.readableBytes = 0 ∨ req.state = .finish then .ok (true, req, buff)
      else
        match req.parseLine (cutLine buff.content).1 buff.readableBytes with
        | none => .ok (false, req, buff)
        | some next =>
            match cutLine buff.content with
            | (_, none) => .ok (true, next, buff)
            | (line, some _) => do
                parseLoop fuel next (← buff.retrieveUntil (buff.readPos + (line.length + 2)))

def parseRequest (req : HttpRequest) (buff : ByteBuffer) :
    Except Fault (Bool × HttpRequest × ByteBuffer) :=
  if buff.readableBytes = 0 then .ok (false, req, buff)
  else parseLoop buff.readableBytes req buff

def isKeepAlive (req : HttpRequest) : Bool :=
  match req.header (ascii "Connection") with
  | some value => value = ascii "keep-alive" && req.version = ascii "1.1"
  | none => false

end HttpRequest

end XWebServer
