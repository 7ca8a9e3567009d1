import XWebServer.Http.Message
import XWebServer.Http.Vectors

/-! # Requests that lie one behind the other

`Serves` is the server's cycle on bytes that have already arrived: `Process`, the whole response
accepted, and `OnWrite` going on to the next request as long as the connection is kept alive. The end of
a request is recognised by nothing being readable behind its empty line. Where something is, the first
line of the next request is taken for a body, so the cycle is right exactly for at most one request.
-/

namespace XWebServer

namespace HttpConn

open HttpRequest

/-- One pass of the cycle: the readable bytes before and after `ParseRequest`, and the response. -/
structure Exchange where
  before : Bytes
  after : Bytes
  response : Bytes
deriving DecidableEq, Repr

def exchange (conn next : HttpConn) : Exchange :=
  ⟨conn.readBuff.content, next.readBuff.content, next.gather⟩

/-- `Write` when the socket takes everything offered, and then has nothing more to take. -/
def writeAll (isET : Bool) (conn : HttpConn) : Except Fault Written :=
  conn.write isET [.accepted conn.offered, .accepted 0]

/-- The cycle without new input, and the exchanges it makes. -/
inductive Serves (isET : Bool) (host : Host) : HttpConn → List Exchange → Prop
  | idle {conn next : HttpConn} (waits : conn.process host = .ok (false, next)) :
      Serves isET host conn []
  | last {conn next : HttpConn} {written : Written} (prepares : conn.process host = .ok (true, next))
      (writes : next.writeAll isET = .ok written) (closes : written.verdict = .close) :
      Serves isET host conn [exchange conn next]
  | next {conn next : HttpConn} {written : Written} {rest : List Exchange}
      (prepares : conn.process host = .ok (true, next))
      (writes : next.writeAll isET = .ok written) (goesOn : written.verdict = .nextRequest)
      (serves : Serves isET host written.conn rest) :
      Serves isET host conn (exchange conn next :: rest)

/-- The response to a request that lies alone in the buffer of a fresh connection. -/
def RespondsAlone (host : Host) (head : RequestHead) (response : Bytes) : Prop :=
  ∃ next, (fresh head.bytes).process host = .ok (true, next) ∧ next.gather = response

/-- The requests are answered one by one, each as it would be alone, and each parse consumes the bytes
of its own request. -/
def Framed (host : Host) (requests : List RequestHead) : Prop :=
  ∀ (isET : Bool) (conn : HttpConn), conn.readBuff.content = requests.flatMap (·.bytes) →
    conn.writeBuff.content = [] →
      ∃ exchanges, Serves isET host conn exchanges ∧
        List.Forall₂ (fun head made => made.before = head.bytes ++ made.after ∧
          RespondsAlone host head made.response) requests exchanges

/-- A socket that takes everything is never asked to go on with the same response. -/
theorem writeAll_ok {conn : HttpConn} (head : conn.Head) (isET : Bool) :
    ∃ written, conn.writeAll isET = .ok written ∧ Keeps conn written.conn ∧
      written.verdict ≠ .rearm := by
  have notRearm : ∀ written : Written, 0 ≤ written.returned.len → written.verdict ≠ .rearm := by
    intro written done
    rw [Written.verdict, if_neg (Int.not_lt.mpr done)]
    split_ifs <;> simp
  have second : ∀ next : HttpConn, next.write isET [.accepted 0] = .ok ⟨⟨0, none⟩, next, [], []⟩ := by
    intro next
    simp [write]
  rw [writeAll, write]
  split_ifs with none done
  · exact ⟨_, rfl, .refl conn, notRearm _ (Int.le_refl 0)⟩
  · exact ⟨_, rfl, .refl conn, notRearm _ (Int.natCast_nonneg _)⟩
  · obtain ⟨next, moved, _⟩ := advance_ok head (min conn.offered conn.offered)
    have keeps := advance_keeps moved
    simp only [moved, second]
    split_ifs with more
    · exact ⟨_, rfl, keeps, notRearm _ (Int.le_refl 0)⟩
    · exact ⟨_, rfl, keeps, notRearm _ (Int.natCast_nonneg _)⟩

/-- Input whose file does not crash the process is answered, the same way on every connection that has
written all of its last response. -/
theorem answered_of_mappable {host : Host} {input : Bytes} (some : input ≠ [])
    (maps : ¬ host.Unmappable (requestPath input)) {conn : HttpConn}
    (content : conn.readBuff.content = input) (idle : conn.writeBuff.content = []) :
    ∃ made next, responseTo host input = .ok made ∧ conn.process host = .ok (true, next) ∧
      Prepares conn made next ∧ next.gather = made.bytes := by
  rw [← content] at some maps ⊢
  rcases process_cases some host with ⟨fails, _⟩ | ⟨_, made, next, response, run, prepared⟩
  · exact absurd fails maps
  · exact ⟨made, next, response, run, prepared, prepared.gather idle⟩

/-- One request alone is framed unless its file crashes the process. -/
theorem framed_singleton_iff (host : Host) (head : RequestHead) :
    Framed host [head] ↔ ¬ host.Unmappable (rewritePath head.target) := by
  have path : requestPath head.bytes = rewritePath head.target := by
    have general := head.requestPath_bytes []
    rwa [List.append_nil] at general
  have one : [head].flatMap (·.bytes) = head.bytes := by simp
  constructor
  · intro framed
    obtain ⟨exchanges, serves, agree⟩ := framed false (fresh head.bytes)
      ((fresh_content _).trans one.symm) (ByteBuffer.content_new _)
    rw [← path, ← fresh_content head.bytes]
    cases serves with
    | idle => cases agree
    | last prepares => exact (prepares_of_process prepares).2.1
    | next prepares => exact (prepares_of_process prepares).2.1
  · intro maps isET conn input empty
    rw [one] at input
    have some : head.bytes ≠ [] := by simp [RequestHead.bytes]
    rw [← path] at maps
    obtain ⟨made, next, response, run, prepared, gathered⟩ := answered_of_mappable some maps input empty
    have alone : RespondsAlone host head next.gather := by
      obtain ⟨other, last, same, again, _, alike⟩ :=
        answered_of_mappable some maps (fresh_content _) (ByteBuffer.content_new _)
      refine ⟨last, again, ?_⟩
      rw [alike, gathered, Except.ok.inj (same.symm.trans response)]
    have consumed : next.readBuff.content = [] := by
      rw [prepared.readBuff, input, head.parse_bytes]
    have agrees : List.Forall₂ (fun head made => made.before = head.bytes ++ made.after ∧
        RespondsAlone host head made.response) [head] [exchange conn next] := by
      refine .cons ⟨?_, alone⟩ .nil
      change conn.readBuff.content = head.bytes ++ next.readBuff.content
      rw [input, consumed, List.append_nil]
    obtain ⟨written, writes, keeps, notRearm⟩ := writeAll_ok prepared.head isET
    cases verdict : written.verdict with
    | rearm => exact absurd verdict notRearm
    | close => exact ⟨_, .last run writes verdict, agrees⟩
    | nextRequest =>
      have drained : written.conn.readBuff.content = [] := by rw [keeps.readBuff, consumed]
      exact ⟨_, .next run writes verdict (.idle (process_empty drained host)), agrees⟩

/-- The first request takes the request line of the second for its body. -/
theorem not_framed (host : Host) (first second : RequestHead) (rest : List RequestHead) :
    ¬ Framed host (first :: second :: rest) := by
  intro framed
  let input := (first :: second :: rest).flatMap (·.bytes)
  let behind := RequestHead.fieldBytes second.fields ++ rest.flatMap (·.bytes)
  have split : input = first.bytes ++ (second.requestLine ++ 13 :: 10 :: behind) := by
    simp [input, behind, RequestHead.bytes]
  obtain ⟨exchanges, serves, agree⟩ := framed false (fresh input) (fresh_content input)
    (ByteBuffer.content_new _)
  have consumed : ∀ next, (fresh input).process host = .ok (true, next) →
      next.readBuff.content = behind := by
    intro next run
    obtain ⟨_, _, made, _, prepared⟩ := prepares_of_process run
    have cut : cutLine (second.requestLine ++ 13 :: 10 :: behind) = (second.requestLine, some behind) :=
      Lines.cut_append second.requestLine_free behind
    rw [prepared.readBuff, fresh_content, split, first.parse_append (by simp), cut]
    rfl
  have wrong : ∀ next, (fresh input).process host = .ok (true, next) →
      (exchange (fresh input) next).before ≠ first.bytes ++ (exchange (fresh input) next).after := by
    intro next run same
    change (fresh input).readBuff.content = first.bytes ++ next.readBuff.content at same
    rw [fresh_content, consumed next run, split] at same
    have lengths := congrArg List.length (List.append_cancel_left same)
    rw [List.length_append, List.length_cons, List.length_cons] at lengths
    omega
  cases serves with
  | idle => cases agree
  | last prepares =>
    cases agree with
    | cons head => exact wrong _ prepares head.1
  | next prepares =>
    cases agree with
    | cons head => exact wrong _ prepares head.1

/-- Requests that lie in the buffer are framed right exactly when there is at most one of them, and its
target does not name something that opens but cannot be mapped. -/
theorem framed_iff (host : Host) (requests : List RequestHead) :
    Framed host requests ↔
      requests = [] ∨ ∃ head, requests = [head] ∧ ¬ host.Unmappable (rewritePath head.target) := by
  rcases requests with _ | ⟨first, _ | ⟨second, rest⟩⟩
  · refine iff_of_true (fun isET conn input _ => ⟨[], ?_, .nil⟩) (Or.inl rfl)
    exact .idle (process_empty input host)
  · rw [framed_singleton_iff]
    simp
  · exact iff_of_false (not_framed host first second rest) (by simp)

/-- `GET /a` with `Connection: keep-alive`, version 1.1. -/
def keepAliveRequest : RequestHead :=
  { bareRequest with
    fields := [⟨ascii "Connection", ascii " keep-alive", by decide, by decide, by decide⟩] }

/-- Two such requests in the buffer are not framed. -/
theorem not_framed_pipeline :
    ¬ ∀ (host : Host) (requests : List RequestHead),
      (∀ head ∈ requests.dropLast, head.request.isKeepAlive = true) → Framed host requests := by
  intro framed
  refine not_framed bareHost keepAliveRequest keepAliveRequest [] (framed bareHost _ ?_)
  intro head member
  rw [List.dropLast_cons_cons, List.dropLast_singleton, List.mem_singleton] at member
  subst member
  decide

end HttpConn

end XWebServer
