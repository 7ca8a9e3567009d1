import XWebServer.Http.Ending
import XWebServer.Http.Service
import XWebServer.Webbench.Understood

/-! # `webbench` against the server

`benchcore` asks again and again until the alarm goes off, reads each answer up to the end of the
connection, and counts. Its requests never keep the connection, so each conversation with the server is
one request and one response, and the end of the connection is the end of the response. What the counters
then say is what the server has sent, as far as an `int` can hold it.
-/

namespace XWebServer

open Transition System HttpRequest

namespace Webbench

/-- What `Socket` comes to. -/
inductive Connection where
  | failed
  | connected
deriving DecidableEq, Repr

/-- A pass of the loop that reads the answer: the alarm has gone off, or what `read` returns. It returns
no bytes at the end of the connection. -/
inductive Poll where
  | expired
  | data (bytes : Bytes)
  | error
deriving DecidableEq, Repr

/-- What the system answers to one pass of the outer loop. -/
structure Attempt where
  connection : Connection
  written : ℤ
  shutdown : Bool
  polls : List Poll
  closed : Bool

/-- The counters. -/
structure Tally where
  speed : ℤ
  failed : ℤ
  bytes : ℤ
deriving DecidableEq, Repr

/-- What an `int` holds of a number. -/
def int (n : ℤ) : ℤ := n.bmod (2 ^ 32)

/-- `a + b` on `int`. The language leaves open what an overflow does; the counter wraps around. -/
def intAdd (a b : ℤ) : ℤ := int (a + b)

/-- The inner loop: whether it ends without an error, and the counter of the bytes; missing where it waits
for the system. -/
def drain : List Poll → ℤ → Option (Bool × ℤ)
  | [], _ => none
  | .expired :: _, bytes => some (true, bytes)
  | .error :: _, bytes => some (false, bytes)
  | .data chunk :: rest, bytes =>
      if chunk = [] then some (true, bytes) else drain rest (intAdd bytes chunk.length)

def Tally.fail (tally : Tally) : Tally := { tally with failed := intAdd tally.failed 1 }

/-- One pass of the outer loop. -/
def pass (http10 : Fin 3) (force : Bool) (rlen : ℕ) (attempt : Attempt) (tally : Tally) : Option Tally :=
  match attempt.connection with
  | .failed => some tally.fail
  | .connected =>
      if attempt.written ≠ rlen then some tally.fail
      else if http10.val = 0 ∧ attempt.shutdown = false then some tally.fail
      else do
        let (read, bytes) ← if force then some (true, tally.bytes) else drain attempt.polls tally.bytes
        let tally := { tally with bytes }
        if read = true ∧ attempt.closed = true then
          some { tally with speed := intAdd tally.speed 1 }
        else some tally.fail

/-- The outer loop. The alarm goes off behind the last attempt, and takes back one failure. -/
def benchcore (http10 : Fin 3) (force : Bool) (rlen : ℕ) : List Attempt → Tally → Option Tally
  | [], tally =>
      some (if 0 < tally.failed then { tally with failed := tally.failed - 1 } else tally)
  | attempt :: rest, tally => do benchcore http10 force rlen rest (← pass http10 force rlen attempt tally)

end Webbench

/-! ## One request that does not keep the connection -/

namespace HttpConn

namespace Conversation

/-- A read finds the whole request, or nothing, and does not fail. -/
def Brings (request : Bytes) : Event → Prop
  | .readable outcomes =>
      ¬ (arrival true outcomes).1.Failed ∧
        ((arrival true outcomes).2 = [] ∨ (arrival true outcomes).2 = request)
  | .writable _ => True

/-- The conversations, on modest hosts and over a socket that works, with a client that sends nothing
but this request. -/
def singleTalks (start : HttpConn) (request : Bytes) : System Conversation Turn :=
  (talks true start).restrict fun _ turn =>
    turn.host.Modest ∧ turn.event.Works ∧ Brings request turn.event

/-- The request has not come yet, or it has its one reply and the server reads no further. -/
inductive Single (request : Bytes) (talk : Conversation) : Prop where
  | waiting (waits : talk.waits = .armIn) (replies : talk.replies = []) (received : talk.received = [])
  | answered {reply : Reply} (waits : talk.waits ≠ .armIn) (replies : talk.replies = [reply])
      (received : talk.received = request) (asks : reply.request = request)

variable {head : RequestHead}

theorem Single.takeIn {talk next : Conversation} (single : talk.Single head.bytes)
    (nothing : talk.conn.readBuff.content = []) (waits : talk.waits = .armIn) {host : Host}
    {outcomes : List ReadvOutcome} (brings : Brings head.bytes (.readable outcomes))
    (run : talk.takeIn true host outcomes = .ok next) :
    next.conn.readBuff.content = [] ∧ next.Single head.bytes := by
  obtain ⟨replies, received⟩ : talk.replies = [] ∧ talk.received = [] := by
    cases single with
    | waiting _ replies received => exact ⟨replies, received⟩
    | answered other => exact absurd waits other
  obtain ⟨works, brought⟩ := brings
  obtain ⟨⟨decision, conn⟩, task, run⟩ := bind_ok run
  obtain ⟨buff, content, steps⟩ := onRead_eq true host outcomes talk.conn
  rw [nothing, List.nil_append] at content
  obtain rfl := Except.ok.inj run
  rw [nothing, List.nil_append, replies, received, List.nil_append, List.nil_append]
  rw [steps, if_neg works] at task
  rcases onProcess_cases task with ⟨rfl, none, rfl⟩ | ⟨rfl, success⟩
  · have empty : (arrival true outcomes).2 = [] := content.symm.trans none
    exact ⟨none, .waiting rfl rfl empty⟩
  · obtain ⟨some, _, _, _, prepares⟩ := prepares_of_process success
    have came : (arrival true outcomes).2 = head.bytes := brought.resolve_left (content ▸ some)
    have consumed : conn.readBuff.content = [] := by
      rw [prepares.readBuff, content, came, head.parse_bytes]
    exact ⟨consumed, .answered (show Decision.armOut ≠ .armIn by decide) rfl came came⟩

/-- A reply to a request that does not keep the connection is the last thing the server does. -/
theorem Single.giveOut {talk next : Conversation} (single : talk.Single head.bytes)
    (nothing : talk.conn.readBuff.content = []) (waits : talk.waits = .armOut)
    (once : head.request.isKeepAlive = false) (ready : next.Ready) {host : Host}
    {outcomes : List WriteOutcome} (run : talk.giveOut true host outcomes = .ok next) :
    next.conn.readBuff.content = [] ∧ next.Single head.bytes := by
  obtain ⟨reply, replies, received, asks⟩ : ∃ reply, talk.replies = [reply] ∧
      talk.received = head.bytes ∧ reply.request = head.bytes := by
    cases single with
    | waiting other => cases other.symm.trans waits
    | answered _ replies received asks => exact ⟨_, replies, received, asks⟩
  have stays : next.conn.readBuff.content = [] ∧ next.replies = [reply] ∧ next.received = head.bytes := by
    obtain ⟨written, writes, run⟩ := bind_ok run
    obtain ⟨⟨decision, conn⟩, task, run⟩ := bind_ok run
    obtain rfl := Except.ok.inj run
    obtain ⟨other, again, task⟩ := bind_ok task
    obtain rfl := Except.ok.inj (writes.symm.trans again)
    have left : written.conn.readBuff.content = [] := by rw [(write_keeps writes).readBuff, nothing]
    rw [replies, received]
    cases verdict : written.verdict with
    | nextRequest =>
      rw [verdict] at task
      rcases onProcess_cases task with ⟨rfl, none, rfl⟩ | ⟨rfl, success⟩
      · exact ⟨none, rfl, rfl⟩
      · exact absurd left (prepares_of_process success).1
    | rearm =>
      rw [verdict] at task
      obtain ⟨rfl, rfl⟩ := Prod.mk.inj (Except.ok.inj task)
      exact ⟨left, rfl, rfl⟩
    | close =>
      rw [verdict] at task
      obtain ⟨rfl, rfl⟩ := Prod.mk.inj (Except.ok.inj task)
      exact ⟨left, rfl, rfl⟩
  obtain ⟨left, same, got⟩ := stays
  refine ⟨left, .answered (fun idle => ?_) same got asks⟩
  have keeps := (ready.idle idle).1.2 reply (by rw [same]; exact List.mem_singleton_self _)
  rw [Reply.keeps, asks, head.parse_bytes] at keeps
  cases once.symm.trans keeps

theorem single_of_reachable {object conn : HttpConn} {sockFd : ℤ} (init : object.init sockFd = .ok conn)
    (second : object.iov1.len < 2 ^ 31) (once : head.request.isKeepAlive = false) {talk : Conversation}
    (reached : (singleTalks conn head.bytes).Reachable talk) :
    talk.Ready ∧ talk.conn.readBuff.content = [] ∧ talk.Single head.bytes := by
  have ready {talk : Conversation} (reached : (singleTalks conn head.bytes).Reachable talk) :
      talk.Ready := by
    have modest : (modestTalks true conn).Reachable talk := reached.weaken fun _ _ guard => guard.1
    exact ready_of_modest init second modest
  refine ⟨ready reached, ?_⟩
  induction reached with
  | init start =>
    obtain rfl := start
    obtain ⟨_, _, init⟩ := bind_ok init
    obtain rfl := Except.ok.inj init
    exact ⟨ByteBuffer.content_retrieveAll _, .waiting rfl rfl rfl⟩
  | step before move ih =>
    obtain ⟨nothing, single⟩ := ih
    have after := ready (before.step move)
    obtain ⟨⟨awaits, run⟩, _, _, brings⟩ := move
    rcases awaits.waits with ⟨waits, outcomes, event⟩ | ⟨waits, outcomes, event⟩
    · rw [Conversation.turn, event] at run
      rw [event] at brings
      exact single.takeIn nothing waits brings run
    · rw [Conversation.turn, event] at run
      exact single.giveOut nothing waits once after run

theorem read_of_closed {object conn : HttpConn} {sockFd : ℤ} (init : object.init sockFd = .ok conn)
    (second : object.iov1.len < 2 ^ 31) (once : head.request.isKeepAlive = false) {talk : Conversation}
    (reached : (singleTalks conn head.bytes).Reachable talk) (closed : talk.waits = .close) :
    ∃ reply, talk.replies = [reply] ∧ Client.read talk.sent = ([reply.host.respond head], []) := by
  obtain ⟨ready, _, single⟩ := single_of_reachable init second once reached
  have working : (workingTalks conn).Reachable talk :=
    reached.weaken fun _ _ guard => ⟨guard.1, guard.2.1⟩
  have sent : talk.sent = talk.responses := (whole_of_working init second working).2 closed
  cases single with
  | waiting waits => cases waits.symm.trans closed
  | @answered reply _ replies _ asks =>
    have right : reply.Right := ready.right reply (by rw [replies]; exact List.mem_singleton_self _)
    have reads : List.Forall₂ Client.reader.Reads [reply.response] [reply.host.respond head] :=
      .cons (right.responds asks) .nil
    refine ⟨reply, replies, ?_⟩
    rw [sent, responses, replies, List.flatMap_def]
    exact Reader.readAll_flatten reads

/-- In edge-triggered mode, on modest hosts, on an object whose second vector was below `2 ^ 31` bytes and over
a socket that works, a client that sends one request which does not keep the connection: the server sends
nothing before the request and a front of one response after it, it waits for no more input, and it closes the
connection only behind the whole of what it responds. -/
theorem single_request {object conn : HttpConn} {sockFd : ℤ} (init : object.init sockFd = .ok conn)
    (second : object.iov1.len < 2 ^ 31) (once : head.request.isKeepAlive = false) {talk : Conversation}
    (reached : (singleTalks conn head.bytes).Reachable talk) :
    (talk.received = [] ∧ talk.sent = [] ∧ talk.waits = .armIn) ∨
      (talk.received = head.bytes ∧ talk.waits ≠ .armIn ∧ ∃ reply, talk.replies = [reply] ∧
        talk.sent <+: reply.response ∧
        Client.readMessage reply.response = some (reply.host.respond head, []) ∧
        (talk.waits = .close → Client.read talk.sent = ([reply.host.respond head], []))) := by
  obtain ⟨ready, _, single⟩ := single_of_reachable init second once reached
  cases single with
  | waiting waits replies received =>
    have sent := (ready.idle waits).1.1
    rw [responses, replies] at sent
    exact .inl ⟨received, sent, waits⟩
  | @answered reply waits replies received asks =>
    have right : reply.Right := ready.right reply (by rw [replies]; exact List.mem_singleton_self _)
    have front := ready.toIntact.front
    rw [responses, replies, List.flatMap_singleton] at front
    refine .inr ⟨received, waits, reply, replies, front, right.responds asks, fun closed => ?_⟩
    obtain ⟨other, same, read⟩ := read_of_closed init second once reached closed
    obtain rfl := List.singleton_inj.mp (replies.symm.trans same)
    exact read

/-- The request of `webbench -2 http://localhost/a`. -/
def benchRequest : RequestHead :=
  Webbench.plainGet.head (show 13 ∉ ascii "localhost" ∧ 10 ∉ ascii "localhost" by decide)
    (show IsWord (ascii "/a") by decide)

/-- The request has come. -/
def requested : Conversation :=
  (opening firstClient).next true ⟨bareHost, .readable [.data benchRequest.bytes]⟩

/-- The response has gone out in two pieces. -/
def released : Conversation :=
  (requested.next true ⟨bareHost, .writable [.accepted 9]⟩).next true
    ⟨bareHost, .writable [.accepted 1000]⟩

theorem released_reachable : (singleTalks firstClient benchRequest.bytes).Reachable released := by
  have first : (singleTalks firstClient benchRequest.bytes).Reachable (opening firstClient) := .init rfl
  have accepts (count : ℕ) (some : 0 < count) : Event.Works (.writable [.accepted count]) := by
    intro outcome member
    rw [List.mem_singleton.mp member]
    exact some
  have second : (singleTalks firstClient benchRequest.bytes).Reachable requested :=
    next_reachable first ⟨bareHost, .readable [.data benchRequest.bytes]⟩
      ⟨bareHost_modest, trivial, by decide +kernel, .inr (by decide +kernel)⟩ trivial (by decide +kernel)
  have third := next_reachable second ⟨bareHost, .writable [.accepted 9]⟩
    ⟨bareHost_modest, accepts 9 (by decide), trivial⟩ (by decide +kernel) (by decide +kernel)
  exact next_reachable third ⟨bareHost, .writable [.accepted 1000]⟩
    ⟨bareHost_modest, accepts 1000 (by decide), trivial⟩ (by decide +kernel) (by decide +kernel)

theorem single_request_released : released.waits = .close ∧
    ((released.received = [] ∧ released.sent = [] ∧ released.waits = .armIn) ∨
      (released.received = benchRequest.bytes ∧ released.waits ≠ .armIn ∧
        ∃ reply, released.replies = [reply] ∧ released.sent <+: reply.response ∧
          Client.readMessage reply.response = some (reply.host.respond benchRequest, []) ∧
          (released.waits = .close →
            Client.read released.sent = ([reply.host.respond benchRequest], [])))) :=
  ⟨by decide +kernel, single_request firstClient_init (by decide) Webbench.isKeepAlive_head
    released_reachable⟩

end Conversation

end HttpConn

/-! ## The counters -/

namespace Webbench

open HttpConn HttpConn.Conversation

/-- The attempt connects, writes the whole request and closes its socket. -/
structure Attempt.Asks (attempt : Attempt) (request : Bytes) : Prop where
  connected : attempt.connection = .connected
  written : attempt.written = request.length
  closed : attempt.closed = true

/-- The attempt is answered in this conversation: it reads what the server sends, in pieces, and then the
end of the connection. -/
structure Serves (request : Bytes) (talk : Conversation) (attempt : Attempt) : Prop where
  asks : attempt.Asks request
  talks : ∃ (object conn : HttpConn) (sockFd : ℤ), object.init sockFd = .ok conn ∧
    object.iov1.len < 2 ^ 31 ∧ (singleTalks conn request).Reachable talk
  closed : talk.waits = .close
  pieces : ∃ chunks : List Bytes, [] ∉ chunks ∧ chunks.flatten = talk.sent ∧
    attempt.polls = chunks.map .data ++ [.data []]

/-- A run against the server: every attempt is answered, until the alarm goes off between two attempts,
between two reads, or in a read; with `-f` no answer is read. The numbers are those of the attempts that
end without an error and of the bytes read. -/
inductive Served (force : Bool) (request : Bytes) : List Conversation → List Attempt → ℕ → ℕ → Prop where
  | idle : Served force request [] [] 0 0
  | unread {attempt : Attempt} {talks : List Conversation} {attempts : List Attempt} {speed bytes : ℕ}
      (forced : force = true) (asks : attempt.Asks request)
      (others : Served force request talks attempts speed bytes) :
      Served force request talks (attempt :: attempts) (speed + 1) bytes
  | expired {attempt : Attempt} {chunks : List Bytes} {rest : List Poll} (reads : force = false)
      (asks : attempt.Asks request) (some : [] ∉ chunks)
      (polls : attempt.polls = chunks.map .data ++ .expired :: rest) :
      Served force request [] [attempt] 1 chunks.flatten.length
  | interrupted {attempt : Attempt} {chunks : List Bytes} {rest : List Poll} (reads : force = false)
      (asks : attempt.Asks request) (some : [] ∉ chunks)
      (polls : attempt.polls = chunks.map .data ++ .error :: rest) :
      Served force request [] [attempt] 0 chunks.flatten.length
  | answered {talk : Conversation} {attempt : Attempt} {talks : List Conversation}
      {attempts : List Attempt} {speed bytes : ℕ} (reads : force = false)
      (serves : Serves request talk attempt) (others : Served force request talks attempts speed bytes) :
      Served force request (talk :: talks) (attempt :: attempts) (speed + 1) (talk.sent.length + bytes)

theorem int_of_lt {n : ℕ} (fits : n < 2 ^ 31) : int n = n :=
  Int.bmod_eq_of_le (by omega) (by omega)

/-- A counter that has wrapped around still counts. -/
theorem intAdd_int (a b : ℤ) : intAdd (int a) b = int (a + b) := Int.bmod_add_bmod

/-- The inner loop adds what it reads. -/
theorem drain_chunks {chunks : List Bytes} (some : [] ∉ chunks) (rest : List Poll) (bytes : ℤ) :
    drain (chunks.map .data ++ rest) (int bytes) = drain rest (int (bytes + chunks.flatten.length)) := by
  induction chunks generalizing bytes with
  | nil => simp
  | cons chunk chunks ih =>
    obtain ⟨first, others⟩ := not_or.mp (List.mem_cons.not.mp some)
    rw [List.map_cons, List.cons_append, drain, if_neg (Ne.symm first), intAdd_int, ih others,
      List.flatten_cons, List.length_append, Nat.cast_add, add_assoc]

section

variable {http10 : Fin 3} {force : Bool} {request : Bytes} {attempt : Attempt}

/-- With a version, a pass that has sent the request reads the answer, if it does, and counts. -/
theorem pass_of_asks (versioned : http10 ≠ 0) (asks : attempt.Asks request) (tally : Tally) :
    pass http10 force request.length attempt tally =
      (if force then some (true, tally.bytes) else drain attempt.polls tally.bytes).map fun result =>
        if result.1 = true then ⟨intAdd tally.speed 1, tally.failed, result.2⟩
        else Tally.fail ⟨tally.speed, tally.failed, result.2⟩ := by
  rw [pass, asks.connected]
  dsimp only
  rw [if_neg (not_not.mpr asks.written), if_neg fun both => versioned (Fin.ext both.1)]
  rw [asks.closed]
  cases force with
  | true => rfl
  | false =>
    cases drain attempt.polls tally.bytes with
    | none => rfl
    | some result =>
      obtain ⟨read, bytes⟩ := result
      cases read <;> rfl

/-- A run adds the attempts that end without an error and the bytes read. No failure is counted but that of
the last read, which is taken back. -/
theorem benchcore_of_served {talks : List Conversation} {attempts : List Attempt} {speed bytes : ℕ}
    (versioned : http10 ≠ 0) (served : Served force request talks attempts speed bytes)
    (speed' bytes' : ℤ) :
    benchcore http10 force request.length attempts ⟨int speed', 0, int bytes'⟩ =
      some ⟨int (speed' + speed), 0, int (bytes' + bytes)⟩ := by
  induction served generalizing speed' bytes' with
  | idle => simp [benchcore]
  | unread forced asks others ih =>
    rw [benchcore, pass_of_asks versioned asks, if_pos forced, Option.map_some, Option.bind_eq_bind,
      Option.bind_some, if_pos rfl, intAdd_int, ih]
    push_cast
    rw [add_assoc, add_comm 1]
  | expired reads asks some polls =>
    rw [benchcore, pass_of_asks versioned asks, reads, polls, if_neg Bool.false_ne_true,
      drain_chunks some, drain, Option.map_some, if_pos rfl, intAdd_int]
    rfl
  | interrupted reads asks some polls =>
    rw [benchcore, pass_of_asks versioned asks, reads, polls, if_neg Bool.false_ne_true,
      drain_chunks some, drain, Option.map_some, if_neg Bool.false_ne_true, Nat.cast_zero, add_zero]
    rfl
  | @answered talk attempt talks attempts speed bytes reads serves others ih =>
    obtain ⟨chunks, some, sent, polls⟩ := serves.pieces
    rw [benchcore, pass_of_asks versioned serves.asks, polls, if_neg (by rw [reads]; decide),
      drain_chunks some, drain, if_pos rfl, Option.map_some, if_pos rfl, intAdd_int, sent,
      Option.bind_eq_bind, Option.bind_some, ih]
    push_cast
    rw [add_assoc, add_comm 1, add_assoc]

end

theorem serves_of_mem {force : Bool} {request : Bytes} {talks : List Conversation}
    {attempts : List Attempt} {speed bytes : ℕ} (served : Served force request talks attempts speed bytes) :
    ∀ talk ∈ talks, ∃ attempt, Serves request talk attempt := by
  induction served with
  | idle => simp
  | unread _ _ _ ih => exact ih
  | expired => simp
  | interrupted => simp
  | answered _ serves others ih => exact List.forall_mem_cons.mpr ⟨⟨_, serves⟩, ih⟩

/-- A benchmark of the server with a request of `build_request` that has a version, on hosts whose files are
shorter than `2 ^ 31` bytes and objects whose second vector was: every attempt that the server has finished
got one response, the one to this request, and `benchcore` reports the attempts and the bytes as an `int`
holds them, and no failure, also when the alarm breaks the last attempt off. With `-f` it reads nothing. -/
theorem benchmark_reports (options : Options) {url : Bytes} (string : 0 ∉ url) (word : IsWord url)
    {start : ℕ} (accepted : options.checkUrl url = .ok start) {built : Built}
    (run : buildRequest options url = .ok built) (versioned : built.http10 ≠ 0) {request : Bytes}
    (holds : CString.value built.request = some request) {force : Bool} {talks : List Conversation}
    {attempts : List Attempt} {speed bytes : ℕ} (served : Served force request talks attempts speed bytes) :
    (∃ head : RequestHead, head.bytes = request ∧ head.method = options.method.name ∧
      head.target = options.target url start ∧
      ∀ talk ∈ talks, ∃ reply, talk.replies = [reply] ∧
        Client.read talk.sent = ([reply.host.respond head], [])) ∧
    benchcore built.http10 force request.length attempts ⟨0, 0, 0⟩ = some ⟨int speed, 0, int bytes⟩ := by
  obtain ⟨version, held⟩ := built_of_run options string accepted run
  obtain rfl := Option.some.inj (holds.symm.trans held.value)
  have asked : IsWord (options.target url start) := word_subset word (target_subset options url start)
  have named : IsWord (hostName (authority url start)) := word_subset word (hostName_subset url start)
  let head := options.head named.2 asked
  have bytes_eq : head.bytes = _ := bytes_head (version ▸ versioned)
  have answers : ∀ talk ∈ talks, ∃ reply, talk.replies = [reply] ∧
      Client.read talk.sent = ([reply.host.respond head], []) := by
    intro talk member
    obtain ⟨attempt, serves⟩ := serves_of_mem served talk member
    obtain ⟨object, conn, sockFd, init, second, reached⟩ := serves.talks
    rw [← bytes_eq] at reached
    exact read_of_closed init second isKeepAlive_head reached serves.closed
  refine ⟨⟨head, bytes_eq, rfl, rfl, answers⟩, ?_⟩
  have counted := benchcore_of_served versioned served 0 0
  rw [zero_add, zero_add] at counted
  exact counted

/-- The answer in two pieces, and a second one of which the alarm leaves five bytes. -/
def answeredAttempt : Attempt where
  connection := .connected
  written := benchRequest.bytes.length
  shutdown := true
  polls := [.data (released.sent.take 100), .data (released.sent.drop 100), .data []]
  closed := true

def brokenAttempt : Attempt :=
  { answeredAttempt with polls := [.data (ascii "HTTP/"), .error] }

theorem benchmark_reports_two : ∃ built,
    buildRequest plainGet (ascii "http://localhost/a") = .ok built ∧
      CString.value built.request = some benchRequest.bytes ∧
      benchcore built.http10 false benchRequest.bytes.length [answeredAttempt, brokenAttempt]
          ⟨0, 0, 0⟩ =
        some ⟨1, 0, ↑(released.sent.length + 5)⟩ := by
  have string : 0 ∉ ascii "http://localhost/a" := by decide
  have accepted : plainGet.checkUrl (ascii "http://localhost/a") = .ok 7 := by decide
  obtain ⟨built, run, version, _, held⟩ :=
    (buildRequest_direct plainGet string accepted rfl).1 (by decide)
  have holds : CString.value built.request = some benchRequest.bytes := by
    rw [held.value, benchRequest, bytes_head (by decide)]
    rfl
  have serves : Serves benchRequest.bytes released answeredAttempt := by
    refine ⟨⟨rfl, rfl, rfl⟩, ⟨_, firstClient, 5, firstClient_init, by decide, released_reachable⟩,
      by decide +kernel, [released.sent.take 100, released.sent.drop 100], by decide +kernel, ?_, rfl⟩
    simp
  have broken : brokenAttempt.Asks benchRequest.bytes := ⟨rfl, rfl, rfl⟩
  have served : Served false benchRequest.bytes [released] [answeredAttempt, brokenAttempt] (0 + 1)
      (released.sent.length + 5) :=
    .answered rfl serves (@Served.interrupted _ _ _ [ascii "HTTP/"] _ rfl broken (by decide) rfl)
  have reports := (benchmark_reports plainGet string (by decide) accepted run (by rw [version]; decide) holds
    served).2
  rw [int_of_lt (by decide), int_of_lt (by decide +kernel)] at reports
  exact ⟨built, run, holds, reports⟩

end Webbench

end XWebServer
