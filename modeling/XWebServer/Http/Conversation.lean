import XWebServer.Http.HeadSize
import XWebServer.Http.Isolation
import XWebServer.Http.Progress
import XWebServer.Http.Transfer
import XWebServer.Lib.Transition

/-! # A conversation

What goes over one socket from `Init` on: the tasks run one after the other, each for the event that the
last one armed the descriptor for, and whatever the socket answers. The record holds what has been taken
from the socket, what has been given to it, and the responses in the order they were prepared. `Intact`
says how the three belong together: the bytes that came in are the requests, one behind the other, and
the unread rest; the bytes that went out are the responses, one behind the other, up to the unsent rest.
-/

namespace XWebServer

open Transition System

namespace HttpConn

open HttpRequest

/-- A response: the host it was made on, the readable bytes it answers, those its request has left, and
what the vectors then offered. -/
structure Reply where
  host : Host
  request : Bytes
  unread : Bytes
  response : Bytes

namespace Reply

/-- The readable bytes that the request took. -/
def consumed (reply : Reply) : Bytes :=
  reply.request.take (reply.request.length - reply.unread.length)

/-- The request keeps the connection. -/
def keeps (reply : Reply) : Bool := (parse .init reply.request).2.1.isKeepAlive

/-- `Process` on these readable bytes and an empty write buffer prepares this response. -/
def Right (reply : Reply) : Prop :=
  ∃ conn next : HttpConn, conn.readBuff.content = reply.request ∧ conn.writeBuff.content = [] ∧
    conn.process reply.host = .ok (true, next) ∧ next.readBuff.content = reply.unread ∧
    next.gather = reply.response

end Reply

/-- A connection with its past. `waits` is how the last task handed it back. -/
structure Conversation where
  conn : HttpConn
  waits : Decision
  received : Bytes
  sent : Bytes
  replies : List Reply

/-- An event for the connection, and the host that its task finds. -/
structure Turn where
  host : Host
  event : Event

namespace Conversation

def opening (conn : HttpConn) : Conversation := ⟨conn, .armIn, [], [], []⟩

/-- The bytes of all responses. -/
def responses (talk : Conversation) : Bytes := talk.replies.flatMap (·.response)

/-- What a task has prepared when it hands the connection back for output. -/
def prepared (host : Host) (request : Bytes) (decision : Decision) (next : HttpConn) : List Reply :=
  if decision = .armOut then [⟨host, request, next.readBuff.content, next.gather⟩] else []

def takeIn (isET : Bool) (host : Host) (outcomes : List ReadvOutcome) (talk : Conversation) :
    Except Fault Conversation := do
  let (decision, next) ← talk.conn.onRead isET host outcomes
  let came := (arrival isET outcomes).2
  .ok {
    conn := next
    waits := decision
    received := talk.received ++ came
    sent := talk.sent
    replies := talk.replies ++ prepared host (talk.conn.readBuff.content ++ came) decision next }

def giveOut (isET : Bool) (host : Host) (outcomes : List WriteOutcome) (talk : Conversation) :
    Except Fault Conversation := do
  let written ← talk.conn.write isET outcomes
  let (decision, next) ← talk.conn.onWrite isET host outcomes
  .ok {
    conn := next
    waits := decision
    received := talk.received
    sent := talk.sent ++ written.sent
    replies := talk.replies ++
      if written.verdict = .nextRequest then prepared host written.conn.readBuff.content decision next
      else [] }

/-- The task for an event. -/
def turn (isET : Bool) (turn : Turn) (talk : Conversation) : Except Fault Conversation :=
  match turn.event with
  | .readable outcomes => talk.takeIn isET turn.host outcomes
  | .writable outcomes => talk.giveOut isET turn.host outcomes

/-- The descriptor is armed for the event. -/
def Awaits : Decision → Event → Prop
  | .armIn, .readable _ => True
  | .armOut, .writable _ => True
  | _, _ => False

instance (decision : Decision) (event : Event) : Decidable (Awaits decision event) := by
  cases decision <;> cases event <;> unfold Awaits <;> infer_instance

/-- The conversation after a task that comes to its end. -/
def next (isET : Bool) (turn : Turn) (talk : Conversation) : Conversation :=
  (talk.turn isET turn).toOption.getD talk

/-- The conversations of a connection that `Init` has left like this. -/
def talks (isET : Bool) (start : HttpConn) : System Conversation Turn where
  Init talk := talk = opening start
  Step source turn target := Awaits source.waits turn.event ∧ source.turn isET turn = .ok target

/-- The conversations on modest hosts: every file that opens is shorter than `2 ^ 31` bytes. -/
def modestTalks (isET : Bool) (start : HttpConn) : System Conversation Turn :=
  (talks isET start).restrict fun _ turn => turn.host.Modest

/-- What has gone out, by what the connection waits for: for input, all responses, each to a request
that keeps the connection; for output, all but what the vectors offer; at the end, a front of them. -/
def Sent : Decision → Conversation → Prop
  | .armIn, talk => talk.sent = talk.responses ∧ ∀ reply ∈ talk.replies, reply.keeps = true
  | .armOut, talk => talk.sent ++ talk.conn.gather = talk.responses
  | .close, talk => talk.sent <+: talk.responses

/-- What came in and what went out fit the responses. -/
structure Intact (talk : Conversation) : Prop where
  received : talk.received = talk.replies.flatMap (·.consumed) ++ talk.conn.readBuff.content
  sent : Sent talk.waits talk
  right : ∀ reply ∈ talk.replies, reply.Right
  kept : ∀ reply ∈ talk.replies.dropLast, reply.keeps = true

/-- The connection can do what it waits for. -/
def Able : Decision → Conversation → Prop
  | .armIn, talk => talk.conn.writeBuff.content = []
  | .armOut, talk => talk.conn.Remaining ∧ talk.conn.iov0.len ≤ 400 ∧
      ∃ reply, talk.replies.getLast? = some reply ∧ reply.keeps = talk.conn.isKeepAlive
  | .close, _ => True

structure Ready (talk : Conversation) : Prop extends Intact talk where
  able : Able talk.waits talk
  second : talk.conn.iov1.len < 2 ^ 31

end Conversation

end HttpConn

namespace HttpRequest

/-- What the line loop leaves are the last of the bytes. -/
theorem scan_suffix (fuel : ℕ) (req : HttpRequest) (input : Bytes) :
    (scan fuel req input).2.2 <:+ input := by
  induction fuel generalizing req input with
  | zero => exact List.suffix_refl _
  | succ fuel ih =>
    rw [scan]
    split_ifs with stop
    · exact List.suffix_refl _
    · cases req.parseLine (cutLine input).1 input.length with
      | none => exact List.suffix_refl _
      | some next =>
        rcases cut : cutLine input with ⟨line, _ | after⟩
        · exact List.suffix_refl _
        · apply (ih next after).trans
          rw [eq_of_cutLine cut]
          exact ⟨line ++ [13, 10], by simp⟩

theorem parse_suffix (req : HttpRequest) (input : Bytes) : (parse req input).2.2 <:+ input := by
  rw [parse]
  split_ifs
  · exact List.suffix_refl _
  · exact scan_suffix _ _ _

end HttpRequest

namespace HttpConn

open HttpRequest

/-! ## What the tasks do -/

/-- A request consumes the front of the readable bytes. -/
theorem Reply.Right.consumed_append {reply : Reply} (right : reply.Right) :
    reply.consumed ++ reply.unread = reply.request := by
  obtain ⟨conn, next, request, _, run, unread, _⟩ := right
  obtain ⟨_, _, made, _, prepares⟩ := prepares_of_process run
  have left : reply.unread = (parse .init reply.request).2.2 := by
    rw [← unread, prepares.readBuff, request]
  obtain ⟨front, split⟩ := parse_suffix .init reply.request
  rw [← left] at split
  rw [Reply.consumed, ← split]
  simp

theorem onProcess_cases {host : Host} {conn next : HttpConn} {decision : Decision}
    (run : conn.onProcess host = .ok (decision, next)) :
    (decision = .armIn ∧ conn.readBuff.content = [] ∧ next = { conn with request := .init }) ∨
      (decision = .armOut ∧ conn.process host = .ok (true, next)) := by
  by_cases empty : conn.readBuff.content = []
  · rw [onProcess, process_empty empty host] at run
    cases run
    exact .inl ⟨rfl, empty, rfl⟩
  · rcases process_cases empty host with ⟨_, crash⟩ | ⟨_, _, ready, _, success, _⟩
    · rw [onProcess, crash] at run
      cases run
    · rw [onProcess, success] at run
      cases run
      exact .inr ⟨rfl, success⟩

/-- A task that hands the connection back for output keeps the flag of the request it answers. -/
theorem isKeepAlive_of_process {host : Host} {conn next : HttpConn}
    (run : conn.process host = .ok (true, next)) :
    next.isKeepAlive = (parse .init conn.readBuff.content).2.1.isKeepAlive := by
  obtain ⟨_, request, _⟩ := makeResponse_of_process run
  rw [isKeepAlive, request]

/-- Both vectors only get shorter. -/
theorem Remaining.shrinks {conn : HttpConn} (remaining : conn.Remaining) {isET : Bool}
    {outcomes : List WriteOutcome} {written : Written}
    (run : conn.write isET outcomes = .ok written) :
    written.conn.iov0.len ≤ conn.iov0.len ∧ written.conn.iov1.len ≤ conn.iov1.len := by
  induction outcomes generalizing conn written with
  | nil =>
    cases run
    exact ⟨le_rfl, le_rfl⟩
  | cons outcome rest ih =>
    cases outcome with
    | error errno =>
      cases run
      exact ⟨le_rfl, le_rfl⟩
    | accepted count =>
      rw [HttpConn.write] at run
      split_ifs at run with none done
      · cases run
        exact ⟨le_rfl, le_rfl⟩
      · cases run
        exact ⟨le_rfl, le_rfl⟩
      · have inside := Nat.min_le_right count conn.offered
        obtain ⟨next, moved, _, nextRemaining, _⟩ := remaining.advance inside
        obtain ⟨other, again, _, _, _, head, second⟩ :=
          remaining.toExact.advance (min count conn.offered)
        obtain rfl := Except.ok.inj (moved.symm.trans again)
        have shorter : next.iov0.len ≤ conn.iov0.len ∧ next.iov1.len ≤ conn.iov1.len := by
          refine ⟨by omega, ?_⟩
          rw [second]
          split_ifs with beyond
          · have sum := remaining.sum
            rw [sizeSub_eq (beyond_le inside beyond).2 (by omega)]
            exact Nat.sub_le _ _
          · exact le_rfl
        simp only [moved] at run
        split_ifs at run
        · obtain ⟨last, further, rfl⟩ := map_ok run
          obtain ⟨first, last⟩ := ih nextRemaining further
          exact ⟨first.trans shorter.1, last.trans shorter.2⟩
        · cases run
          exact shorter

/-- Below `2 ^ 32` bytes the test for completion fails while anything is left. -/
theorem toWriteBytes_eq_zero {conn : HttpConn} (small : conn.iov0.len + conn.iov1.len < 2 ^ 32)
    (complete : conn.toWriteBytes = 0) : conn.iov0.len = 0 ∧ conn.iov1.len = 0 := by
  rw [toWriteBytes, sizeAdd_eq (by omega), ← BitVec.toInt_zero, BitVec.toInt_inj, BitVec.toNat_eq,
    BitVec.toNat_ofNat, BitVec.toNat_zero, Nat.mod_eq_of_lt small] at complete
  omega

/-- With both vectors used up nothing is offered. -/
theorem Exact.drained {conn : HttpConn} (exact : conn.Exact) (first : conn.iov0.len = 0)
    (second : conn.iov1.len = 0) : conn.gather = [] ∧ conn.writeBuff.content = [] := by
  have none : conn.writeBuff.content = [] := by
    rw [← List.length_eq_zero_iff, ByteBuffer.content_length, ← exact.head_len, first]
  refine ⟨?_, none⟩
  rw [exact.gather_eq, none, second, Nat.add_zero, Slice.slice_self, ite_self, List.append_nil]

/-! ## Every task keeps a conversation ready -/

namespace Conversation

theorem Ready.idle {talk : Conversation} (ready : talk.Ready) (waits : talk.waits = .armIn) :
    (talk.sent = talk.responses ∧ ∀ reply ∈ talk.replies, reply.keeps = true) ∧
      talk.conn.writeBuff.content = [] := by
  have sent := ready.sent
  have able := ready.able
  rw [waits] at sent able
  exact ⟨sent, able⟩

theorem Ready.busy {talk : Conversation} (ready : talk.Ready) (waits : talk.waits = .armOut) :
    talk.sent ++ talk.conn.gather = talk.responses ∧ Able .armOut talk := by
  have sent := ready.sent
  have able := ready.able
  rw [waits] at sent able
  exact ⟨sent, able⟩

/-- Bytes arrive on an idle connection. -/
theorem Ready.arrived {talk : Conversation} (ready : talk.Ready) (waits : talk.waits = .armIn)
    {buff : ByteBuffer} {came : Bytes} (content : buff.content = talk.conn.readBuff.content ++ came) :
    Ready ⟨{ talk.conn with readBuff := buff }, .armIn, talk.received ++ came, talk.sent,
      talk.replies⟩ := by
  obtain ⟨sent, empty⟩ := ready.idle waits
  refine ⟨⟨?_, sent, ready.right, ready.kept⟩, empty, ready.second⟩
  dsimp only
  rw [ready.received, content, List.append_assoc]

/-- `OnProcess` on an idle connection leaves it idle, or prepares one response. -/
theorem Ready.process {talk : Conversation} (ready : talk.Ready) (waits : talk.waits = .armIn)
    {host : Host} (modest : host.Modest) {decision : Decision} {next : HttpConn}
    (run : talk.conn.onProcess host = .ok (decision, next)) :
    Ready ⟨next, decision, talk.received, talk.sent,
      talk.replies ++ prepared host talk.conn.readBuff.content decision next⟩ := by
  obtain ⟨⟨sent, keep⟩, empty⟩ := ready.idle waits
  rcases onProcess_cases run with ⟨rfl, none, rfl⟩ | ⟨rfl, success⟩
  · have same : talk.replies ++ prepared host talk.conn.readBuff.content .armIn
        { talk.conn with request := .init } = talk.replies := List.append_nil _
    rw [same]
    exact ⟨⟨ready.received, ⟨sent, keep⟩, ready.right, ready.kept⟩, empty, ready.second⟩
  · let reply : Reply := ⟨host, talk.conn.readBuff.content, next.readBuff.content, next.gather⟩
    have right : reply.Right := ⟨talk.conn, next, rfl, empty, success, rfl, rfl⟩
    obtain ⟨_, _, made, _, prepares⟩ := prepares_of_process success
    obtain ⟨short, second⟩ := process_short modest empty ready.second success
    change Ready ⟨next, .armOut, talk.received, talk.sent, talk.replies ++ [reply]⟩
    refine ⟨⟨?_, ?_, ?_, ?_⟩, ⟨prepares.remaining (by omega), short, reply, ?_, ?_⟩, second⟩
    · rw [ready.received, List.flatMap_append, List.flatMap_singleton, List.append_assoc,
        right.consumed_append]
    · rw [Sent, responses, List.flatMap_append, List.flatMap_singleton, sent]
      rfl
    · intro other member
      rcases List.mem_append.mp member with before | last
      · exact ready.right other before
      · rwa [List.mem_singleton.mp last]
    · rw [List.dropLast_concat]
      exact keep
    · exact List.getLast?_concat ..
    · rw [isKeepAlive_of_process success]
      rfl

theorem Ready.takeIn {talk next : Conversation} (ready : talk.Ready) (waits : talk.waits = .armIn)
    {isET : Bool} {host : Host} (modest : host.Modest) {outcomes : List ReadvOutcome}
    (run : talk.takeIn isET host outcomes = .ok next) : next.Ready := by
  obtain ⟨⟨decision, conn⟩, task, run⟩ := bind_ok run
  obtain ⟨buff, content, steps⟩ := onRead_eq isET host outcomes talk.conn
  have arrived := ready.arrived waits content
  obtain rfl := Except.ok.inj run
  rw [steps] at task
  split_ifs at task with failed
  · obtain ⟨rfl, rfl⟩ := Prod.mk.inj (Except.ok.inj task)
    have same : talk.replies ++ prepared host (talk.conn.readBuff.content ++
        (arrival isET outcomes).2) .close { talk.conn with readBuff := buff } = talk.replies :=
      List.append_nil _
    rw [same]
    refine ⟨⟨arrived.received, ?_, ready.right, ready.kept⟩, trivial, ready.second⟩
    rw [Sent, (ready.idle waits).1.1]
    exact List.prefix_refl _
  · have done := arrived.process rfl modest task
    rw [content] at done
    exact done

/-- The last `Write` of a response leaves the connection idle. -/
theorem Ready.finished {talk : Conversation} (ready : talk.Ready) (waits : talk.waits = .armOut)
    {isET : Bool} {outcomes : List WriteOutcome} {written : Written}
    (run : talk.conn.write isET outcomes = .ok written) (goesOn : written.verdict = .nextRequest) :
    Ready ⟨written.conn, .armIn, talk.received, talk.sent ++ written.sent, talk.replies⟩ := by
  obtain ⟨sent, remaining, short, last, isLast, keepsLast⟩ := ready.busy waits
  have second := ready.second
  obtain ⟨other, _, again, keeps, left, front, _⟩ := remaining.write isET outcomes
  obtain rfl := Except.ok.inj (run.symm.trans again)
  obtain ⟨firstLess, secondLess⟩ := remaining.shrinks run
  have complete : written.conn.toWriteBytes = 0 := by
    rw [Written.verdict] at goesOn
    split_ifs at goesOn with complete
    exact complete
  obtain ⟨firstNone, secondNone⟩ := toWriteBytes_eq_zero (by omega) complete
  obtain ⟨nothing, empty⟩ := left.toExact.drained firstNone secondNone
  have flag := Written.keeps_of_nextRequest goesOn
  rw [nothing, List.append_nil] at front
  refine ⟨⟨?_, ⟨?_, fun reply member => ?_⟩, ready.right, ready.kept⟩, empty, by dsimp only; omega⟩
  · rw [ready.received, keeps.readBuff]
  · rw [← front] at sent
    exact sent
  · -- the last request is the one whose flag `OnWrite` has looked at
    rw [isKeepAlive, keeps.request] at flag
    rw [isKeepAlive] at keepsLast
    rw [← List.dropLast_append_getLast? last isLast, List.mem_append, List.mem_singleton] at member
    rcases member with before | rfl
    · exact ready.kept reply before
    · rw [keepsLast, flag]

theorem Ready.giveOut {talk next : Conversation} (ready : talk.Ready) (waits : talk.waits = .armOut)
    {isET : Bool} {host : Host} (modest : host.Modest) {outcomes : List WriteOutcome}
    (run : talk.giveOut isET host outcomes = .ok next) : next.Ready := by
  obtain ⟨written, writes, run⟩ := bind_ok run
  obtain ⟨⟨decision, conn⟩, task, run⟩ := bind_ok run
  obtain rfl := Except.ok.inj run
  obtain ⟨other, again, task⟩ := bind_ok task
  obtain rfl := Except.ok.inj (writes.symm.trans again)
  obtain ⟨sent, remaining, short, last, isLast, keepsLast⟩ := ready.busy waits
  obtain ⟨other, _, again, keeps, left, front, _⟩ := remaining.write isET outcomes
  obtain rfl := Except.ok.inj (writes.symm.trans again)
  obtain ⟨firstLess, secondLess⟩ := remaining.shrinks writes
  have second := secondLess.trans_lt ready.second
  have received : talk.received = talk.replies.flatMap (·.consumed) ++
    written.conn.readBuff.content := by rw [ready.received, keeps.readBuff]
  rw [← front, ← List.append_assoc] at sent
  cases verdict : written.verdict with
  | nextRequest =>
    rw [verdict] at task
    have done := (ready.finished waits writes verdict).process rfl modest task
    rw [if_pos rfl]
    exact done
  | rearm =>
    rw [verdict] at task
    obtain ⟨rfl, rfl⟩ := Prod.mk.inj (Except.ok.inj task)
    rw [if_neg (by decide), List.append_nil]
    refine ⟨⟨received, sent, ready.right, ready.kept⟩,
      ⟨left, firstLess.trans short, last, isLast, ?_⟩, second⟩
    rw [keepsLast, isKeepAlive, isKeepAlive, keeps.request]
  | close =>
    rw [verdict] at task
    obtain ⟨rfl, rfl⟩ := Prod.mk.inj (Except.ok.inj task)
    rw [if_neg (by decide), List.append_nil]
    exact ⟨⟨received, ⟨_, sent⟩, ready.right, ready.kept⟩, trivial, second⟩

/-- A task runs only for what the connection waits for. -/
theorem Awaits.waits {decision : Decision} {event : Event} (awaits : Awaits decision event) :
    (decision = .armIn ∧ ∃ outcomes, event = .readable outcomes) ∨
      (decision = .armOut ∧ ∃ outcomes, event = .writable outcomes) := by
  cases decision <;> cases event <;> simp_all [Awaits]

theorem Ready.turn {talk next : Conversation} (ready : talk.Ready) {isET : Bool} {turn : Turn}
    (modest : turn.host.Modest) (awaits : Awaits talk.waits turn.event)
    (run : talk.turn isET turn = .ok next) : next.Ready := by
  rcases awaits.waits with ⟨waits, outcomes, event⟩ | ⟨waits, outcomes, event⟩
  · rw [Conversation.turn, event] at run
    exact ready.takeIn waits modest run
  · rw [Conversation.turn, event] at run
    exact ready.giveOut waits modest run

/-- What `Init` leaves: nothing to read and nothing to write. -/
theorem opening_ready {object conn : HttpConn} {sockFd : ℤ} (init : object.init sockFd = .ok conn)
    (second : object.iov1.len < 2 ^ 31) : (opening conn).Ready := by
  obtain ⟨_, _, init⟩ := bind_ok init
  obtain rfl := Except.ok.inj init
  have nothing : object.readBuff.retrieveAll.content = [] := ByteBuffer.content_retrieveAll _
  have empty : object.writeBuff.retrieveAll.content = [] := ByteBuffer.content_retrieveAll _
  refine ⟨⟨nothing.symm, ⟨rfl, ?_⟩, ?_, ?_⟩, empty, second⟩
  all_goals
    intro reply member
    cases member

theorem ready_of_modest {isET : Bool} {object conn : HttpConn} {sockFd : ℤ}
    (init : object.init sockFd = .ok conn) (second : object.iov1.len < 2 ^ 31) {talk : Conversation}
    (reached : (modestTalks isET conn).Reachable talk) : talk.Ready := by
  refine reached.invariant ?_ fun source turn target ready move => ?_
  · rintro _ rfl
    exact opening_ready init second
  · obtain ⟨⟨awaits, run⟩, modest⟩ := move
    exact ready.turn modest awaits run

theorem turn_next {isET : Bool} {turn : Turn} {talk : Conversation}
    (completes : (talk.turn isET turn).isOk = true) : talk.turn isET turn = .ok (talk.next isET turn) := by
  rw [next]
  cases outcome : talk.turn isET turn with
  | error fault =>
    rw [outcome] at completes
    cases completes
  | ok target => rfl

theorem next_reachable {isET : Bool} {guard : Turn → Prop} {start : HttpConn} {talk : Conversation}
    (reached : ((talks isET start).restrict fun _ turn => guard turn).Reachable talk)
    (turn : Turn) (allowed : guard turn) (awaits : Awaits talk.waits turn.event)
    (completes : (talk.turn isET turn).isOk = true) :
    ((talks isET start).restrict fun _ turn => guard turn).Reachable (talk.next isET turn) := by
  have step : ((talks isET start).restrict fun _ turn => guard turn).Step talk turn
    (talk.next isET turn) := ⟨⟨awaits, turn_next completes⟩, allowed⟩
  exact .step reached step

/-- In every conversation on modest hosts and on an object that `Init` has just set up, whose second vector
was below `2 ^ 31` bytes, over any events, in either mode and with whatever the socket answers, the requests
make up what came in and the responses what goes out. -/
theorem talks_intact {isET : Bool} {object conn : HttpConn} {sockFd : ℤ}
    (init : object.init sockFd = .ok conn) (second : object.iov1.len < 2 ^ 31) {talk : Conversation}
    (reached : (modestTalks isET conn).Reachable talk) : talk.Intact :=
  (ready_of_modest init second reached).toIntact

/-- A new object on the descriptor 5. -/
def firstClient : HttpConn :=
  { new 0 ⟨0, 0⟩ ⟨0, 0⟩ with
    sockFd := 5
    isClose := false
    readBuff := (new 0 ⟨0, 0⟩ ⟨0, 0⟩).readBuff.retrieveAll
    writeBuff := (new 0 ⟨0, 0⟩ ⟨0, 0⟩).writeBuff.retrieveAll }

theorem firstClient_init : (new 0 ⟨0, 0⟩ ⟨0, 0⟩).init 5 = .ok firstClient := rfl

private def asked : Conversation :=
  (opening firstClient).next true ⟨bareHost, .readable [.data keptRequest]⟩

private def halfSent : Conversation := asked.next true ⟨bareHost, .writable [.accepted 100]⟩

/-- A kept connection whose client has asked once and read the answer in two pieces. -/
def answered : Conversation := halfSent.next true ⟨bareHost, .writable [.accepted 1000, .accepted 0]⟩

theorem answered_reachable : (modestTalks true firstClient).Reachable answered := by
  have first : (modestTalks true firstClient).Reachable (opening firstClient) := .init rfl
  have second := next_reachable first ⟨bareHost, .readable [.data keptRequest]⟩ bareHost_modest trivial
    (by decide +kernel)
  have third := next_reachable second ⟨bareHost, .writable [.accepted 100]⟩ bareHost_modest
    (by decide +kernel) (by decide +kernel)
  exact next_reachable third ⟨bareHost, .writable [.accepted 1000, .accepted 0]⟩ bareHost_modest
    (by decide +kernel) (by decide +kernel)

theorem answered_intact : answered.waits = .armIn ∧ answered.replies.length = 1 ∧ answered.Intact :=
  ⟨by decide +kernel, by decide +kernel,
    talks_intact firstClient_init (by decide) answered_reachable⟩

end Conversation

end HttpConn

end XWebServer
