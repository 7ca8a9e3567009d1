import XWebServer.Http.Vectors

/-! # What the tasks leave alone

A task reads, writes and prepares responses, but the descriptor and `m_isClose` of its object change
only in `Init` and `Close`.
-/

namespace XWebServer

namespace HttpConn

/-- The same descriptor, open or closed as before. -/
structure SameClient (conn next : HttpConn) : Prop where
  sockFd : next.sockFd = conn.sockFd
  isClose : next.isClose = conn.isClose

theorem SameClient.refl (conn : HttpConn) : SameClient conn conn := ⟨rfl, rfl⟩

theorem SameClient.trans {first second third : HttpConn} (left : SameClient first second)
    (right : SameClient second third) : SameClient first third :=
  ⟨right.sockFd.trans left.sockFd, right.isClose.trans left.isClose⟩

/-- `Read` changes the read buffer only. -/
theorem read_only (isET : Bool) (outcomes : List ReadvOutcome) (conn : HttpConn) :
    ∃ buff, (conn.read isET outcomes).2 = { conn with readBuff := buff } := by
  induction outcomes generalizing conn with
  | nil => exact ⟨conn.readBuff, rfl⟩
  | cons outcome rest ih =>
    cases outcome with
    | error errno => exact ⟨conn.readBuff, rfl⟩
    | data bytes =>
      rw [read]
      split_ifs
      · exact ⟨_, rfl⟩
      · exact ih { conn with readBuff := conn.readBuff.receive bytes }
      · exact ⟨_, rfl⟩

theorem read_same (isET : Bool) (outcomes : List ReadvOutcome) (conn : HttpConn) :
    SameClient conn (conn.read isET outcomes).2 := by
  obtain ⟨buff, same⟩ := read_only isET outcomes conn
  rw [same]
  exact ⟨rfl, rfl⟩

theorem write_same {isET : Bool} {outcomes : List WriteOutcome} {conn : HttpConn} {written : Written}
    (run : conn.write isET outcomes = .ok written) : SameClient conn written.conn :=
  ⟨(write_keeps run).sockFd, (write_keeps run).isClose⟩

theorem onProcess_same {host : Host} {conn next : HttpConn} {decision : Decision}
    (run : conn.onProcess host = .ok (decision, next)) : SameClient conn next := by
  rw [onProcess] at run
  by_cases none : conn.readBuff.content = []
  · rw [process_empty none host] at run
    cases run
    exact ⟨rfl, rfl⟩
  · rcases process_cases none host with ⟨_, crash⟩ | ⟨_, made, ready, _, prepared, prepares⟩
    · rw [crash] at run
      cases run
    · rw [prepared] at run
      cases run
      exact ⟨prepares.sockFd, prepares.isClose⟩

theorem onRead_same {isET : Bool} {host : Host} {outcomes : List ReadvOutcome}
    {conn next : HttpConn} {decision : Decision}
    (run : conn.onRead isET host outcomes = .ok (decision, next)) : SameClient conn next := by
  have same := read_same isET outcomes conn
  rw [onRead] at run
  dsimp only at run
  split_ifs at run
  · cases run
    exact same
  · exact same.trans (onProcess_same run)

theorem onWrite_same {isET : Bool} {host : Host} {outcomes : List WriteOutcome}
    {conn next : HttpConn} {decision : Decision}
    (run : conn.onWrite isET host outcomes = .ok (decision, next)) : SameClient conn next := by
  obtain ⟨written, success, run⟩ := bind_ok run
  have same := write_same success
  cases verdict : written.verdict with
  | nextRequest =>
    rw [verdict] at run
    exact same.trans (onProcess_same run)
  | rearm =>
    rw [verdict] at run
    cases run
    exact same
  | close =>
    rw [verdict] at run
    cases run
    exact same

end HttpConn

end XWebServer
