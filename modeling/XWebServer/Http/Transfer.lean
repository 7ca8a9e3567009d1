import XWebServer.Http.Delivery

/-! # The bytes that go out, in order and once

`Writing` is any number of calls of `Write` after `Process`, each in either mode and with any outcomes
of `writev`. Between two calls, and so between two passes of the loop, the bytes accepted so far and the
two vectors make up the response. Here the response may be of any size that `size_t` can count.
-/

namespace XWebServer

namespace HttpConn

open Slice

/-- Calls of `Write`, with the bytes accepted so far and the connection after the last one. -/
inductive Writing (start : HttpConn) : Bytes → HttpConn → Prop
  | start : Writing start [] start
  | write {sent : Bytes} {conn : HttpConn} {isET : Bool} {outcomes : List WriteOutcome}
      {written : Written} (before : Writing start sent conn)
      (run : conn.write isET outcomes = .ok written) :
      Writing start (sent ++ written.sent) written.conn

/-- The bytes that calls of `writev` accept, by what they return. -/
def accepted : List WriteOutcome → ℕ
  | [] => 0
  | .accepted count :: rest => count + accepted rest
  | .error _ :: rest => accepted rest

/-- A call of `Write` sends the front of what is left, as many bytes as `writev` accepts in it. Each pass
but the last sends a byte, so there are at most as many as there are bytes, and one more. -/
theorem Remaining.write {conn : HttpConn} (remaining : conn.Remaining) (isET : Bool)
    (outcomes : List WriteOutcome) :
    ∃ written used, conn.write isET outcomes = .ok written ∧ Keeps conn written.conn ∧
      written.conn.Remaining ∧ written.sent ++ written.conn.gather = conn.gather ∧
      outcomes = used ++ written.unused ∧ used.length ≤ conn.offered + 1 ∧
      written.sent.length = min (accepted used) conn.offered := by
  induction outcomes generalizing conn with
  | nil => exact ⟨_, [], rfl, .refl conn, remaining, rfl, rfl, Nat.zero_le _, (Nat.zero_min _).symm⟩
  | cons outcome rest ih =>
    cases outcome with
    | error errno =>
      exact ⟨_, [.error errno], rfl, .refl conn, remaining, rfl, rfl, Nat.le_add_left _ _,
        (Nat.zero_min _).symm⟩
    | accepted count =>
      by_cases none : min count conn.offered = 0
      · rw [HttpConn.write, if_pos none]
        refine ⟨_, [.accepted count], rfl, .refl conn, remaining, by simp [none], rfl,
          Nat.le_add_left _ _, ?_⟩
        simp [accepted, none]
      · have length : (conn.gather.take (min count conn.offered)).length = min count conn.offered := by
          rw [List.length_take, remaining.gather_length remaining.file]
          omega
        obtain ⟨next, nextRemaining, keeps, _, front, offered, pass⟩ :=
          remaining.write_pass none isET rest
        rw [pass]
        split_ifs
        · obtain ⟨written, used, run, kept, last, sent, split, passes, counts⟩ := ih nextRemaining
          refine ⟨{ written with sent := conn.gather.take (min count conn.offered) ++ written.sent },
            .accepted count :: used, by rw [run]; rfl, keeps.trans kept, last, ?_, ?_, ?_, ?_⟩
          · rw [List.append_assoc, sent, front]
          · rw [split]
            rfl
          · simp only [List.length_cons]
            omega
          · rw [List.length_append, length, counts, accepted]
            omega
        · refine ⟨_, [.accepted count], rfl, keeps, nextRemaining, front, rfl, Nat.le_add_left _ _, ?_⟩
          rw [length]
          rfl

/-- Between two calls the bytes accepted and the bytes left are the response. -/
theorem Writing.remaining {start : HttpConn} (remaining : start.Remaining) {sent : Bytes}
    {now : HttpConn} (writing : Writing start sent now) :
    Keeps start now ∧ now.Remaining ∧ sent ++ now.gather = start.gather := by
  induction writing with
  | start => exact ⟨.refl start, remaining, rfl⟩
  | @write sent conn isET outcomes written before run ih =>
    obtain ⟨kept, left, front⟩ := ih
    obtain ⟨other, _, again, keeps, further, sends, _⟩ := left.write isET outcomes
    obtain rfl := Except.ok.inj (again.symm.trans run)
    exact ⟨kept.trans keeps, further, by rw [List.append_assoc, sends, front]⟩

/-- The vectors that `Process` prepares offer the write buffer and the mapped file. -/
theorem Prepares.gather_eq {conn next : HttpConn} {made : Answer}
    (prepared : Prepares conn made next) :
    next.gather = next.writeBuff.content ++ if next.iovCnt = 2 then next.fileBytes else [] := by
  rw [prepared.exact.gather_eq]
  congr 1
  split_ifs with count
  · rw [prepared.mapped count, Nat.zero_add, slice_whole]
  · rfl

/-- However `writev` answers over any number of calls of `Write`, the bytes accepted, the first vector
and, where it is offered, the second one are the head and the file in order. The first vector is what
the write buffer still holds, the second one ends where the file does, no length goes below zero, and
the next call returns, having sent as many bytes as `writev` accepted in it. -/
theorem write_in_order {host : Host} {conn next : HttpConn}
    (prepares : conn.process host = .ok (true, next))
    (sum : next.iov0.len + next.iov1.len < 2 ^ 64) {sent : Bytes} {now : HttpConn}
    (writing : Writing next sent now) :
    sent ++ now.gather =
        next.writeBuff.content ++ (if next.iovCnt = 2 then next.fileBytes else []) ∧
      now.Exact ∧
      (now.iovCnt = 2 → now.iov1.base + now.iov1.len = now.fileBytes.length) ∧
      (∀ len, len ≤ now.offered → now.iov0.len < len →
        now.iovCnt = 2 ∧ len - now.iov0.len ≤ now.iov1.len) ∧
      ∀ isET outcomes, ∃ written used, now.write isET outcomes = .ok written ∧
        outcomes = used ++ written.unused ∧ used.length ≤ now.offered + 1 ∧
        written.sent.length = min (accepted used) now.offered := by
  obtain ⟨_, _, made, _, prepared⟩ := prepares_of_process prepares
  obtain ⟨_, remaining, front⟩ := writing.remaining (prepared.remaining sum)
  refine ⟨?_, remaining.toExact, remaining.file, fun len => beyond_le, fun isET outcomes => ?_⟩
  · rw [front, prepared.gather_eq]
  · obtain ⟨written, used, run, _, _, _, counts⟩ := remaining.write isET outcomes
    exact ⟨written, used, run, counts⟩

/-- The error page, when the socket takes 100 bytes of it first. -/
theorem write_in_order_page : ∃ next sent now,
    (fresh (ascii "x")).process bareHost = .ok (true, next) ∧ Writing next sent now ∧
      sent ++ now.gather =
        next.writeBuff.content ++ (if next.iovCnt = 2 then next.fileBytes else []) := by
  obtain ⟨next, run, coherent, length⟩ := error_page
  have total := coherent.offered_eq
  have size := coherent.gather_length
  have sum : next.iov0.len + next.iov1.len < 2 ^ 64 := by omega
  obtain ⟨written, writes, _⟩ := write_ok (Nat.le_of_eq coherent.head_len) false [.accepted 100]
  have writing : Writing next ([] ++ written.sent) written.conn := .write .start writes
  obtain ⟨order, _⟩ := write_in_order run sum writing
  exact ⟨next, _, written.conn, run, writing, order⟩

end HttpConn

end XWebServer
