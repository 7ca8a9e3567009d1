import XWebServer.Http.Process

/-! # The vectors and `Write`

`Head` is the relation between the first vector and the write buffer that `Process` sets up and `Write`
keeps: the vector never claims more than the buffer holds, so `Retrieve` does not abort.
-/

namespace XWebServer

open Slice

/-- All bytes of a response, in the order they are sent. -/
def Answer.bytes (answer : Answer) : Bytes := answer.text ++ answer.file.getD []

namespace HttpConn

/-- The readable bytes of the write buffer cover the first vector. -/
def Head (conn : HttpConn) : Prop := conn.iov0.len ≤ conn.writeBuff.readableBytes

theorem Prepares.head {conn next : HttpConn} {made : Answer} (prepared : Prepares conn made next) :
    next.Head := by
  rw [Head, prepared.iov0]

/-- What `Write` leaves alone. -/
structure Keeps (conn next : HttpConn) : Prop where
  readBuff : next.readBuff = conn.readBuff
  request : next.request = conn.request
  response : next.response = conn.response
  iovCnt : next.iovCnt = conn.iovCnt
  sockFd : next.sockFd = conn.sockFd
  isClose : next.isClose = conn.isClose

theorem Keeps.refl (conn : HttpConn) : Keeps conn conn := ⟨rfl, rfl, rfl, rfl, rfl, rfl⟩

theorem Keeps.trans {first second third : HttpConn} (left : Keeps first second)
    (right : Keeps second third) : Keeps first third :=
  ⟨right.1.trans left.1, right.2.trans left.2, right.3.trans left.3, right.4.trans left.4,
    right.5.trans left.5, right.6.trans left.6⟩

theorem advance_keeps {conn next : HttpConn} {len : ℕ} (moved : conn.advance len = .ok next) :
    Keeps conn next := by
  rw [advance] at moved
  by_cases beyond : conn.iov0.len < len
  · rw [if_pos beyond] at moved
    cases moved
    exact ⟨rfl, rfl, rfl, rfl, rfl, rfl⟩
  · rw [if_neg beyond] at moved
    obtain ⟨buffer, _, moved⟩ := bind_ok moved
    cases moved
    exact ⟨rfl, rfl, rfl, rfl, rfl, rfl⟩

theorem write_keeps {isET : Bool} {outcomes : List WriteOutcome} {conn : HttpConn} {written : Written}
    (run : conn.write isET outcomes = .ok written) : Keeps conn written.conn := by
  induction outcomes generalizing conn written with
  | nil =>
    cases run
    exact .refl conn
  | cons outcome rest ih =>
    cases outcome with
    | error errno =>
      cases run
      exact .refl conn
    | accepted count =>
      rw [write] at run
      split_ifs at run with none done
      · cases run
        exact .refl conn
      · cases run
        exact .refl conn
      · cases moved : conn.advance (min count conn.offered) with
        | error fault =>
          rw [moved] at run
          cases run
        | ok next =>
          have keeps := advance_keeps moved
          simp only [moved] at run
          split_ifs at run with more
          · obtain ⟨last, further, rfl⟩ := map_ok run
            have kept : Keeps next last.conn := ih further
            exact keeps.trans kept
          · cases run
            exact keeps

/-- One accepted count moves the vectors without a fault and keeps the head covered. -/
theorem advance_ok {conn : HttpConn} (head : conn.Head) (len : ℕ) :
    ∃ next, conn.advance len = .ok next ∧ next.Head := by
  rw [advance]
  by_cases beyond : conn.iov0.len < len
  · rw [if_pos beyond]
    exact ⟨_, rfl, Nat.zero_le _⟩
  · rw [if_neg beyond]
    have inside : len ≤ conn.writeBuff.readableBytes := Nat.le_trans (Nat.not_lt.mp beyond) head
    obtain ⟨rest, retrieved, content, _⟩ := ByteBuffer.retrieve_ok inside
    rw [retrieved]
    refine ⟨_, rfl, ?_⟩
    unfold Head at head ⊢
    have length := congrArg List.length content
    rw [List.length_drop, ByteBuffer.content_length, ByteBuffer.content_length] at length
    dsimp only
    omega

/-- `Write` runs without a fault on a covered head. -/
theorem write_ok {conn : HttpConn} (head : conn.Head) (isET : Bool) (outcomes : List WriteOutcome) :
    ∃ written, conn.write isET outcomes = .ok written ∧ written.conn.Head := by
  induction outcomes generalizing conn with
  | nil => exact ⟨_, rfl, head⟩
  | cons outcome rest ih =>
    cases outcome with
    | error errno => exact ⟨_, rfl, head⟩
    | accepted count =>
      rw [write]
      split_ifs with none done
      · exact ⟨_, rfl, head⟩
      · exact ⟨_, rfl, head⟩
      · obtain ⟨next, moved, nextHead⟩ := advance_ok head (min count conn.offered)
        simp only [moved]
        split_ifs with more
        · obtain ⟨written, run, last⟩ := ih nextHead
          refine ⟨{ written with sent := conn.gather.take (min count conn.offered) ++ written.sent },
            ?_, last⟩
          rw [run]
          rfl
        · exact ⟨_, rfl, nextHead⟩

/-! ## The first vector is the write buffer -/

/-- The first vector is the readable part of the write buffer. -/
structure Exact (conn : HttpConn) : Prop where
  head : slice conn.writeBuff.storage conn.iov0.base (conn.iov0.base + conn.iov0.len) =
    conn.writeBuff.content
  head_len : conn.iov0.len = conn.writeBuff.readableBytes

theorem Prepares.exact {conn next : HttpConn} {made : Answer} (prepared : Prepares conn made next) :
    next.Exact := by
  have position : next.writeBuff.readPos + next.writeBuff.readableBytes = next.writeBuff.writePos := by
    have := next.writeBuff.read_le
    rw [ByteBuffer.readableBytes]
    omega
  refine ⟨?_, by rw [prepared.iov0]⟩
  rw [prepared.iov0, position]
  rfl

theorem Exact.gather_eq {conn : HttpConn} (exact : conn.Exact) :
    conn.gather = conn.writeBuff.content ++
      if conn.iovCnt = 2 then slice conn.fileBytes conn.iov1.base (conn.iov1.base + conn.iov1.len)
      else [] := by
  rw [gather, exact.head]

/-- `offered` counts what is offered when the second vector stays inside the mapped file. -/
theorem Exact.gather_length {conn : HttpConn} (exact : conn.Exact)
    (file : conn.iovCnt = 2 → conn.iov1.base + conn.iov1.len = conn.fileBytes.length) :
    conn.gather.length = conn.offered := by
  rw [offered, exact.gather_eq, List.length_append, ByteBuffer.content_length, exact.head_len]
  congr 1
  split_ifs with count
  · rw [length_slice (Nat.le_of_eq (file count)), Nat.add_sub_cancel_left]
  · rfl

/-- What is offered after `Process` on an empty write buffer is the whole response. -/
theorem Prepares.gather {conn next : HttpConn} {made : Answer} (prepared : Prepares conn made next)
    (empty : conn.writeBuff.content = []) : next.gather = made.bytes := by
  have text : next.writeBuff.content = made.text := by rw [prepared.writeBuff, empty, List.nil_append]
  rw [prepared.exact.gather_eq, text, Answer.bytes]
  congr 1
  cases file : made.file with
  | none => rw [(prepared.noFile file).1, if_neg (by decide), Option.getD_none]
  | some bytes =>
    obtain ⟨count, second, mapped⟩ := prepared.withFile bytes file
    rw [count, if_pos rfl, second, mapped, Nat.zero_add, slice_whole, Option.getD_some]

/-- Accepted bytes leave the front of the write buffer, and what is beyond it leaves the front of the
second vector. -/
theorem Exact.advance {conn : HttpConn} (exact : conn.Exact) (len : ℕ) :
    ∃ next, conn.advance len = .ok next ∧ Keeps conn next ∧ next.Exact ∧
      next.writeBuff.content = conn.writeBuff.content.drop len ∧
      next.iov0.len = conn.iov0.len - len ∧
      next.iov1 = if conn.iov0.len < len then
        ⟨conn.iov1.base + (len - conn.iov0.len), sizeSub conn.iov1.len (len - conn.iov0.len)⟩
        else conn.iov1 := by
  have length : conn.writeBuff.content.length = conn.iov0.len := by
    rw [ByteBuffer.content_length, exact.head_len]
  rw [HttpConn.advance]
  by_cases beyond : conn.iov0.len < len
  · rw [if_pos beyond, if_pos beyond]
    have none : conn.writeBuff.content.drop len = [] := by
      rw [List.drop_eq_nil_iff, length]
      omega
    refine ⟨_, rfl, ⟨rfl, rfl, rfl, rfl, rfl, rfl⟩, ⟨?_, ?_⟩, ?_, ?_, rfl⟩
    · split_ifs with empty
      · rw [← exact.head, empty]
      · rw [ByteBuffer.content_retrieveAll]
        exact slice_self _ _
    · split_ifs with empty
      · rw [← exact.head_len, empty]
      · rfl
    · rw [none]
      split_ifs with empty
      · rw [← List.length_eq_zero_iff, length, empty]
      · exact ByteBuffer.content_retrieveAll _
    · dsimp only
      omega
  · rw [if_neg beyond, if_neg beyond]
    have room : len ≤ conn.writeBuff.readableBytes := by
      rw [← exact.head_len]
      omega
    obtain ⟨rest, retrieved, content, storage, _⟩ := ByteBuffer.retrieve_ok room
    have readable : rest.readableBytes = conn.writeBuff.readableBytes - len := by
      rw [← ByteBuffer.content_length, content, List.length_drop, ByteBuffer.content_length]
    have position : conn.iov0.base + len + (conn.iov0.len - len) = conn.iov0.base + conn.iov0.len := by
      omega
    simp only [retrieved, ok_bind]
    refine ⟨_, rfl, ⟨rfl, rfl, rfl, rfl, rfl, rfl⟩, ⟨?_, ?_⟩, content, rfl, rfl⟩
    · rw [storage, content, position, slice_add_left, exact.head]
    · rw [readable, ← exact.head_len]

/-! ## What is left of a response -/

/-- The first vector is the readable part of the write buffer, the second one is the end of the mapped
file if `writev` is given it, and the two lengths add up on `size_t`. -/
structure Remaining (conn : HttpConn) : Prop extends Exact conn where
  file : conn.iovCnt = 2 → conn.iov1.base + conn.iov1.len = conn.fileBytes.length
  sum : conn.iov0.len + conn.iov1.len < 2 ^ 64

/-- A second vector that is offered is the whole mapped file. -/
theorem Prepares.mapped {conn next : HttpConn} {made : Answer} (prepared : Prepares conn made next)
    (count : next.iovCnt = 2) : next.iov1 = ⟨0, next.fileBytes.length⟩ := by
  cases file : made.file with
  | none => exact absurd ((prepared.noFile file).1.symm.trans count) (by decide)
  | some bytes =>
    obtain ⟨_, second, mapped⟩ := prepared.withFile bytes file
    rw [second, mapped]

theorem Prepares.ends {conn next : HttpConn} {made : Answer} (prepared : Prepares conn made next)
    (count : next.iovCnt = 2) : next.iov1.base + next.iov1.len = next.fileBytes.length := by
  rw [prepared.mapped count, Nat.zero_add]

theorem Prepares.remaining {conn next : HttpConn} {made : Answer} (prepared : Prepares conn made next)
    (sum : next.iov0.len + next.iov1.len < 2 ^ 64) : next.Remaining :=
  ⟨prepared.exact, prepared.ends, sum⟩

/-- What `writev` accepts beyond the first vector it has taken from the second one. -/
theorem beyond_le {conn : HttpConn} {len : ℕ} (inside : len ≤ conn.offered)
    (beyond : conn.iov0.len < len) : conn.iovCnt = 2 ∧ len - conn.iov0.len ≤ conn.iov1.len := by
  rw [offered] at inside
  split_ifs at inside with count
  · exact ⟨count, by omega⟩
  · omega

/-- Accepted bytes leave the front of what is offered, and nothing else changes. -/
theorem Remaining.advance {conn : HttpConn} (remaining : conn.Remaining) {len : ℕ}
    (inside : len ≤ conn.offered) :
    ∃ next, conn.advance len = .ok next ∧ Keeps conn next ∧ next.Remaining ∧
      (conn.iovCnt ≠ 2 → next.iov1 = conn.iov1) ∧
      next.gather = conn.gather.drop len ∧ next.offered = conn.offered - len := by
  obtain ⟨next, moved, keeps, exact, content, headLen, second⟩ := remaining.toExact.advance len
  have sum := remaining.sum
  have fileKept : next.fileBytes = conn.fileBytes := by rw [fileBytes, keeps.response, fileBytes]
  have length : conn.writeBuff.content.length = conn.iov0.len := by
    rw [ByteBuffer.content_length, remaining.head_len]
  refine ⟨next, moved, keeps, ?_⟩
  by_cases beyond : conn.iov0.len < len
  · obtain ⟨count, le⟩ := beyond_le inside beyond
    rw [if_pos beyond, sizeSub_eq le (by omega)] at second
    have offers : conn.offered = conn.iov0.len + conn.iov1.len := by rw [offered, if_pos count]
    have file := remaining.file count
    have position : conn.iov1.base + (len - conn.iov0.len) +
        (conn.iov1.len - (len - conn.iov0.len)) = conn.iov1.base + conn.iov1.len := by omega
    refine ⟨⟨exact, fun _ => ?_, ?_⟩, fun one => absurd count one, ?_, ?_⟩
    · rw [second, fileKept]
      exact position.trans file
    · rw [headLen, second]
      dsimp only
      omega
    · rw [exact.gather_eq, remaining.gather_eq, keeps.iovCnt, if_pos count, if_pos count, content,
        fileKept, second, List.drop_append, length]
      dsimp only
      rw [position, slice_add_left]
    · rw [offered, keeps.iovCnt, if_pos count, headLen, second, offers]
      dsimp only
      omega
  · rw [if_neg beyond] at second
    refine ⟨⟨exact, fun count => ?_, ?_⟩, fun _ => second, ?_, ?_⟩
    · rw [second, fileKept]
      exact remaining.file (keeps.iovCnt ▸ count)
    · rw [headLen, second]
      omega
    · rw [exact.gather_eq, remaining.gather_eq, keeps.iovCnt, content, fileKept, second,
        List.drop_append_of_le_length (by omega)]
    · rw [offered, keeps.iovCnt, headLen, second, offered]
      omega

/-- A pass of the loop in which `writev` accepts something: the vectors move, and the loop goes on or
ends with the count for its result. -/
theorem Remaining.write_pass {conn : HttpConn} (remaining : conn.Remaining) {count : ℕ}
    (some : min count conn.offered ≠ 0) (isET : Bool) (rest : List WriteOutcome) :
    ∃ next, next.Remaining ∧ Keeps conn next ∧ (conn.iovCnt ≠ 2 → next.iov1 = conn.iov1) ∧
      conn.gather.take (min count conn.offered) ++ next.gather = conn.gather ∧
      next.offered = conn.offered - count ∧
      conn.write isET (.accepted count :: rest) =
        if isET ∨ 10240 < next.toWriteBytes then (next.write isET rest).map fun more =>
          { more with sent := conn.gather.take (min count conn.offered) ++ more.sent }
        else .ok ⟨⟨(min count conn.offered : ℕ), none⟩, next,
          conn.gather.take (min count conn.offered), rest⟩ := by
  obtain ⟨next, moved, keeps, nextRemaining, second, gather, offered⟩ :=
    remaining.advance (Nat.min_le_right count conn.offered)
  have bytes : ¬ sizeAdd conn.iov0.len conn.iov1.len = 0 := by
    have offers : conn.offered ≤ conn.iov0.len + conn.iov1.len := by
      rw [HttpConn.offered]
      split_ifs <;> omega
    rw [sizeAdd_eq remaining.sum]
    omega
  refine ⟨next, nextRemaining, keeps, second, ?_, by omega, ?_⟩
  · rw [gather, List.take_append_drop]
  · simp only [write, if_neg some, if_neg bytes, moved]

/-! ## Responses without a stale second vector -/

/-- The second vector is the rest of the mapped file, or empty when there is none. -/
structure Coherent (conn : HttpConn) : Prop extends Exact conn where
  file : conn.iovCnt = 2 → conn.iov1.base + conn.iov1.len = conn.fileBytes.length
  noFile : conn.iovCnt ≠ 2 → conn.iov1.len = 0

/-- `Process` leaves coherent vectors when the second one was empty. -/
theorem Prepares.coherent {conn next : HttpConn} {made : Answer} (prepared : Prepares conn made next)
    (empty : conn.iov1.len = 0) : next.Coherent := by
  refine ⟨prepared.exact, prepared.ends, fun count => ?_⟩
  cases file : made.file with
  | none => rw [(prepared.noFile file).2, empty]
  | some bytes => exact absurd (prepared.withFile bytes file).1 count

theorem Coherent.gather_length {conn : HttpConn} (coherent : conn.Coherent) :
    conn.gather.length = conn.offered :=
  coherent.toExact.gather_length coherent.file

/-- The lengths of a coherent connection add up to what is offered. -/
theorem Coherent.offered_eq {conn : HttpConn} (coherent : conn.Coherent) :
    conn.offered = conn.iov0.len + conn.iov1.len := by
  rw [offered]
  split_ifs with count
  · rfl
  · rw [coherent.noFile count]

theorem Coherent.remaining {conn : HttpConn} (coherent : conn.Coherent)
    (small : conn.offered < 2 ^ 64) : conn.Remaining :=
  ⟨coherent.toExact, coherent.file, by rwa [← coherent.offered_eq]⟩

/-- Below `2 ^ 31` bytes `ToWriteBytes` is exact. -/
theorem Coherent.toWriteBytes_eq {conn : HttpConn} (coherent : conn.Coherent)
    (small : conn.offered < 2 ^ 31) : conn.toWriteBytes = conn.offered := by
  have total := coherent.offered_eq
  have sum := sizeAdd_eq (show conn.iov0.len + conn.iov1.len < 2 ^ 64 by omega)
  have low : -((2 ^ 32 : ℕ) : ℤ) ≤ (conn.offered : ℤ) * 2 := by omega
  have high : (conn.offered : ℤ) * 2 < ((2 ^ 32 : ℕ) : ℤ) := by omega
  rw [toWriteBytes, sum, ← total, BitVec.toInt_ofNat']
  exact Int.bmod_eq_of_le_mul_two low high

theorem Coherent.write_pass {conn : HttpConn} (coherent : conn.Coherent)
    (small : conn.offered < 2 ^ 64) {count : ℕ} (some : min count conn.offered ≠ 0) (isET : Bool)
    (rest : List WriteOutcome) :
    ∃ next, next.Coherent ∧
      conn.gather.take (min count conn.offered) ++ next.gather = conn.gather ∧
      next.offered = conn.offered - count ∧
      conn.write isET (.accepted count :: rest) =
        if isET ∨ 10240 < next.toWriteBytes then (next.write isET rest).map fun more =>
          { more with sent := conn.gather.take (min count conn.offered) ++ more.sent }
        else .ok ⟨⟨(min count conn.offered : ℕ), none⟩, next,
          conn.gather.take (min count conn.offered), rest⟩ := by
  obtain ⟨next, remaining, keeps, second, gather, offered, pass⟩ :=
    (coherent.remaining small).write_pass some isET rest
  refine ⟨next, ⟨remaining.toExact, remaining.file, fun count => ?_⟩, gather, offered, pass⟩
  have one : conn.iovCnt ≠ 2 := keeps.iovCnt ▸ count
  rw [second one, coherent.noFile one]

end HttpConn

end XWebServer
