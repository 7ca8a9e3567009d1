import XWebServer.Http.Client

/-! # How a conversation ends

In edge-triggered mode `Write` goes on until the vectors are used up or `writev` fails, so `OnWrite`
closes a connection only behind a whole response. As long as the socket does not fail, everything that
was prepared has gone out when a task closes the connection, and the client reads all of it. Until then,
every call in which the socket takes a byte brings the response nearer to its end.
-/

namespace XWebServer

open Transition System

/-- `writev` fails only with `EAGAIN`, and takes a byte where it is offered one. -/
def WriteOutcome.Works : WriteOutcome → Prop
  | .accepted count => 0 < count
  | .error errno => errno = .eagain

namespace HttpConn

def Event.Works : Event → Prop
  | .readable _ => True
  | .writable outcomes => ∀ outcome ∈ outcomes, outcome.Works

/-- On such a socket a call of `Write` uses the vectors up or ends with `EAGAIN`. -/
theorem Remaining.write_edge {conn : HttpConn} (remaining : conn.Remaining)
    {outcomes : List WriteOutcome} (works : ∀ outcome ∈ outcomes, outcome.Works) {written : Written}
    (run : conn.write true outcomes = .ok written) :
    written.conn.offered = 0 ∨ written.returned = ⟨-1, some .eagain⟩ := by
  induction outcomes generalizing conn written with
  | nil =>
    cases run
    exact .inr rfl
  | cons outcome rest ih =>
    obtain ⟨first, others⟩ := List.forall_mem_cons.mp works
    cases outcome with
    | error errno =>
      obtain rfl : errno = .eagain := first
      cases run
      exact .inr rfl
    | accepted count =>
      have positive : 0 < count := first
      by_cases none : min count conn.offered = 0
      · rw [HttpConn.write, if_pos none] at run
        obtain rfl := Except.ok.inj run
        exact .inl (by dsimp only; omega)
      · obtain ⟨next, left, _, _, _, _, pass⟩ := remaining.write_pass none true rest
        rw [pass, if_pos (.inl rfl)] at run
        obtain ⟨further, more, rfl⟩ := map_ok run
        have ends := ih left others more
        exact ends

theorem Remaining.gather_length {conn : HttpConn} (remaining : conn.Remaining) :
    conn.gather.length = conn.offered := remaining.toExact.gather_length remaining.file

/-- So the connection is closed only when nothing is left. -/
theorem Remaining.closes_whole {conn : HttpConn} (remaining : conn.Remaining)
    (small : conn.iov0.len + conn.iov1.len < 2 ^ 32) {outcomes : List WriteOutcome}
    (works : ∀ outcome ∈ outcomes, outcome.Works) {written : Written}
    (run : conn.write true outcomes = .ok written) (closes : written.verdict = .close) :
    written.conn.gather = [] := by
  obtain ⟨other, _, again, _, left, _⟩ := remaining.write true outcomes
  obtain rfl := Except.ok.inj (run.symm.trans again)
  obtain ⟨first, second⟩ := remaining.shrinks run
  rcases remaining.write_edge works run with none | waits
  · rw [← List.length_eq_zero_iff, left.gather_length, none]
  · by_cases complete : written.conn.toWriteBytes = 0
    · obtain ⟨firstNone, secondNone⟩ := toWriteBytes_eq_zero (by omega) complete
      exact (left.toExact.drained firstNone secondNone).1
    · rw [Written.verdict, if_neg complete, waits, if_pos (by decide), if_pos rfl] at closes
      cases closes

namespace Conversation

/-- Closed with everything sent. -/
def Whole (talk : Conversation) : Prop := talk.waits = .close → talk.sent = talk.responses

theorem Ready.whole_takeIn {talk next : Conversation} (ready : talk.Ready) (waits : talk.waits = .armIn)
    {isET : Bool} {host : Host} {outcomes : List ReadvOutcome}
    (run : talk.takeIn isET host outcomes = .ok next) : next.Whole := by
  obtain ⟨⟨decision, conn⟩, task, run⟩ := bind_ok run
  obtain rfl := Except.ok.inj run
  intro closed
  obtain rfl : decision = .close := closed
  change talk.sent = Conversation.responses ⟨_, _, _, _, talk.replies ++ []⟩
  rw [List.append_nil]
  exact (ready.idle waits).1.1

theorem Ready.whole_giveOut {talk next : Conversation} (ready : talk.Ready)
    (waits : talk.waits = .armOut) {host : Host} {outcomes : List WriteOutcome}
    (works : ∀ outcome ∈ outcomes, outcome.Works)
    (run : talk.giveOut true host outcomes = .ok next) : next.Whole := by
  obtain ⟨written, writes, run⟩ := bind_ok run
  obtain ⟨⟨decision, conn⟩, task, run⟩ := bind_ok run
  obtain rfl := Except.ok.inj run
  obtain ⟨other, again, task⟩ := bind_ok task
  obtain rfl := Except.ok.inj (writes.symm.trans again)
  obtain ⟨sent, remaining, short, _⟩ := ready.busy waits
  have second := ready.second
  intro closed
  obtain rfl : decision = .close := closed
  cases verdict : written.verdict with
  | nextRequest =>
    rw [verdict] at task
    rcases onProcess_cases task with ⟨impossible, _⟩ | ⟨impossible, _⟩ <;> cases impossible
  | rearm =>
    rw [verdict] at task
    cases task
  | close =>
    have nothing := remaining.closes_whole (by omega) works writes verdict
    obtain ⟨other, _, again, _, _, front, _⟩ := remaining.write true outcomes
    obtain rfl := Except.ok.inj (writes.symm.trans again)
    rw [nothing, List.append_nil] at front
    change talk.sent ++ written.sent = Conversation.responses ⟨_, _, _, _, talk.replies ++ []⟩
    rw [List.append_nil, front]
    exact sent

theorem Ready.whole_turn {talk next : Conversation} (ready : talk.Ready) {turn : Turn}
    (works : turn.event.Works) (awaits : Awaits talk.waits turn.event)
    (run : talk.turn true turn = .ok next) : next.Whole := by
  rcases awaits.waits with ⟨waits, outcomes, event⟩ | ⟨waits, outcomes, event⟩
  · rw [Conversation.turn, event] at run
    exact ready.whole_takeIn waits run
  · rw [Conversation.turn, event] at run
    rw [event] at works
    exact ready.whole_giveOut waits works run

/-- The conversations in edge-triggered mode over a socket that works. -/
def workingTalks (start : HttpConn) : System Conversation Turn :=
  (talks true start).restrict fun _ turn => turn.host.Modest ∧ turn.event.Works

theorem whole_of_working {object conn : HttpConn} {sockFd : ℤ} (init : object.init sockFd = .ok conn)
    (second : object.iov1.len < 2 ^ 31) {talk : Conversation}
    (reached : (workingTalks conn).Reachable talk) : talk.Ready ∧ talk.Whole := by
  have ready (talk : Conversation) (reached : (workingTalks conn).Reachable talk) : talk.Ready := by
    have modest : (modestTalks true conn).Reachable talk := reached.weaken fun _ _ guard => guard.1
    exact ready_of_modest init second modest
  refine ⟨ready _ reached, ?_⟩
  cases reached with
  | init start =>
    obtain rfl := start
    intro impossible
    cases impossible
  | step before move =>
    obtain ⟨⟨awaits, run⟩, _, works⟩ := move
    exact (ready _ before).whole_turn works awaits run

/-- In edge-triggered mode, on modest hosts, on an object whose second vector was below `2 ^ 31` bytes and over
a socket that works, no task closes a connection behind a part of a response: all responses have gone out, and
the client reads every one of them. -/
theorem closed_whole {object conn : HttpConn} {sockFd : ℤ} (init : object.init sockFd = .ok conn)
    (second : object.iov1.len < 2 ^ 31) {talk : Conversation}
    (reached : (workingTalks conn).Reachable talk) (closed : talk.waits = .close) :
    talk.sent = talk.responses ∧ ∃ messages, Client.read talk.sent = (messages, []) ∧
      List.Forall₂ Reply.Means talk.replies messages := by
  obtain ⟨ready, whole⟩ := whole_of_working init second reached
  have sent := whole closed
  refine ⟨sent, ?_⟩
  obtain ⟨messages, means⟩ := ready.toIntact.messages
  refine ⟨messages, ?_, means⟩
  have reads : List.Forall₂ Client.reader.Reads (talk.replies.map (·.response)) messages := by
    rw [List.forall₂_map_left_iff]
    exact means.imp fun reply message same => same.reads
  rw [sent, responses, List.flatMap_def]
  exact Reader.readAll_flatten reads

/-! ## Progress -/

/-- Calls of `OnWrite`, on modest hosts, in which the socket takes a byte, and which all belong to the same
response. -/
inductive Resumed (isET : Bool) (start : Conversation) : ℕ → Conversation → Prop
  | start : Resumed isET start 0 start
  | again {calls count : ℕ} {talk next : Conversation} {host : Host} {rest : List WriteOutcome}
      (before : Resumed isET start calls talk) (modest : host.Modest) (positive : 0 < count)
      (run : talk.giveOut isET host (.accepted count :: rest) = .ok next)
      (waits : next.waits = .armOut) (same : next.replies.length = talk.replies.length) :
      Resumed isET start (calls + 1) next

/-- A call that comes back for the same response has sent a byte. -/
theorem Ready.sends {talk next : Conversation} (ready : talk.Ready) (waits : talk.waits = .armOut)
    {isET : Bool} {host : Host} {count : ℕ} {rest : List WriteOutcome} (positive : 0 < count)
    (run : talk.giveOut isET host (.accepted count :: rest) = .ok next) (again : next.waits = .armOut)
    (same : next.replies.length = talk.replies.length) :
    next.replies = talk.replies ∧ talk.sent.length < next.sent.length := by
  obtain ⟨written, writes, run⟩ := bind_ok run
  obtain ⟨⟨decision, conn⟩, task, run⟩ := bind_ok run
  obtain rfl := Except.ok.inj run
  obtain ⟨other, twice, task⟩ := bind_ok task
  obtain rfl := Except.ok.inj (writes.symm.trans twice)
  obtain ⟨_, remaining, _⟩ := ready.busy waits
  obtain rfl : decision = .armOut := again
  -- the same response: `Write` has asked to be called again
  have rearms : written.verdict = .rearm := by
    cases verdict : written.verdict with
    | nextRequest =>
      simp only [verdict, if_true, prepared, List.length_append, List.length_singleton] at same
      omega
    | rearm => rfl
    | close =>
      rw [verdict] at task
      cases task
  refine ⟨by dsimp only; rw [rearms, if_neg (by decide), List.append_nil], ?_⟩
  dsimp only
  rw [List.length_append]
  suffices some : 0 < written.sent.length by omega
  by_cases none : min count talk.conn.offered = 0
  · rw [HttpConn.write, if_pos none] at writes
    obtain rfl := Except.ok.inj writes
    rw [Written.verdict] at rearms
    split_ifs at rearms with _ _ negative
    exact absurd (show (0 : ℤ) < 0 from negative) (lt_irrefl 0)
  · obtain ⟨_, _, _, _, front, _, pass⟩ := remaining.write_pass none isET rest
    have taken : 0 < (talk.conn.gather.take (min count talk.conn.offered)).length := by
      rw [List.length_take, remaining.gather_length]
      omega
    rw [pass] at writes
    split_ifs at writes
    · obtain ⟨further, _, rfl⟩ := map_ok writes
      dsimp only
      rw [List.length_append]
      omega
    · obtain rfl := Except.ok.inj writes
      exact taken

theorem resumed_ready {isET : Bool} {start talk : Conversation} {calls : ℕ} (ready : start.Ready)
    (waits : start.waits = .armOut) (resumed : Resumed isET start calls talk) :
    talk.Ready ∧ talk.waits = .armOut ∧ talk.replies = start.replies ∧
      start.sent.length + calls ≤ talk.sent.length := by
  induction resumed with
  | start => exact ⟨ready, waits, rfl, le_rfl⟩
  | again before modest positive run waits same ih =>
    obtain ⟨ready, armed, replies, sent⟩ := ih
    obtain ⟨kept, more⟩ := ready.sends armed positive run waits same
    exact ⟨ready.giveOut armed modest run, waits, kept.trans replies, by omega⟩

/-- However little the socket takes at a time, on modest hosts and on an object whose second vector was below
`2 ^ 31` bytes, a response is through after as many calls as it has bytes left: no conversation comes back for
the same response for ever. -/
theorem response_ends {isET : Bool} {object conn : HttpConn} {sockFd : ℤ}
    (init : object.init sockFd = .ok conn) (second : object.iov1.len < 2 ^ 31)
    {start talk : Conversation} (reached : (modestTalks isET conn).Reachable start)
    (waits : start.waits = .armOut) {calls : ℕ} (resumed : Resumed isET start calls talk) :
    start.sent.length + calls ≤ start.responses.length := by
  obtain ⟨ready, _, replies, sent⟩ := resumed_ready (ready_of_modest init second reached) waits resumed
  have front := ready.toIntact.front.length_le
  rw [responses, replies] at front
  exact sent.trans front

private def hurried : Conversation :=
  (opening firstClient).next true ⟨bareHost, .readable [.data (ascii "GET /a HTTP/1.1\r\n\r\n")]⟩

private def trickled : Conversation := hurried.next true ⟨bareHost, .writable [.accepted 1]⟩

private def dismissed : Conversation := trickled.next true ⟨bareHost, .writable [.accepted 1000]⟩

private theorem trickled_reachable : (workingTalks firstClient).Reachable hurried ∧
    (workingTalks firstClient).Reachable trickled := by
  have first : (workingTalks firstClient).Reachable (opening firstClient) := .init rfl
  have second : (workingTalks firstClient).Reachable hurried :=
    next_reachable first ⟨bareHost, .readable [.data (ascii "GET /a HTTP/1.1\r\n\r\n")]⟩
      ⟨bareHost_modest, trivial⟩ trivial (by decide +kernel)
  refine ⟨second, next_reachable second ⟨bareHost, .writable [.accepted 1]⟩ ⟨bareHost_modest, ?_⟩
    (by decide +kernel) (by decide +kernel)⟩
  intro outcome member
  rw [List.mem_singleton.mp member]
  exact Nat.one_pos

/-- A request that does not keep the connection, answered in two pieces. -/
theorem closed_whole_dismissed : dismissed.waits = .close ∧ dismissed.sent = dismissed.responses ∧
    ∃ messages, Client.read dismissed.sent = (messages, []) ∧
      List.Forall₂ Reply.Means dismissed.replies messages := by
  have works : Event.Works (.writable [.accepted 1000]) := by
    intro outcome member
    rw [List.mem_singleton.mp member]
    exact Nat.succ_pos 999
  have reached : (workingTalks firstClient).Reachable dismissed :=
    next_reachable trickled_reachable.2 ⟨bareHost, .writable [.accepted 1000]⟩ ⟨bareHost_modest, works⟩
      (by decide +kernel) (by decide +kernel)
  have closed : dismissed.waits = .close := by decide +kernel
  exact ⟨closed, closed_whole firstClient_init (by decide) reached closed⟩

theorem response_ends_trickled : hurried.sent.length + 1 ≤ hurried.responses.length := by
  have reached : (modestTalks true firstClient).Reachable hurried :=
    trickled_reachable.1.weaken fun _ _ guard => guard.1
  have completes : (hurried.turn true ⟨bareHost, .writable [.accepted 1]⟩).isOk = true := by
    decide +kernel
  have run := turn_next completes
  rw [Conversation.turn] at run
  exact response_ends firstClient_init (by decide) reached (by decide +kernel)
    (.again .start bareHost_modest Nat.one_pos run (by decide +kernel)
      (by decide +kernel))

end Conversation

end HttpConn

end XWebServer
