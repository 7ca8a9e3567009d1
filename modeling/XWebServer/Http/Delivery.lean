import XWebServer.Http.Vectors

/-! # Whether a response is delivered whole

A response goes out over several calls of `OnWrite`, each of which goes on where the last one stopped.
`stalls` is the case that goes wrong in level-triggered mode: `Write` leaves its loop with at most 10240
bytes to go although the last `writev` succeeded, and `OnWrite`, which looks for `EAGAIN`, closes.
-/

namespace XWebServer

namespace HttpConn

/-- Some write leaves between 1 and 10240 of the bytes that were left, and no error came before. -/
def Stalls : ℕ → List WriteOutcome → Prop
  | _, [] => False
  | left, .error .eagain :: rest => 0 < left ∧ Stalls left rest
  | _, .error .other :: _ => False
  | left, .accepted count :: rest =>
      0 < left - count ∧ (left - count ≤ 10240 ∨ Stalls (left - count) rest)

instance : ∀ (left : ℕ) (outcomes : List WriteOutcome), Decidable (Stalls left outcomes)
  | _, [] => .isFalse id
  | left, .error .eagain :: rest =>
      have := instDecidableStalls left rest
      inferInstanceAs (Decidable (_ ∧ _))
  | _, .error .other :: _ => .isFalse id
  | left, .accepted count :: rest =>
      have := instDecidableStalls (left - count) rest
      inferInstanceAs (Decidable (_ ∧ _))

/-- The calls of `OnWrite` that ask to be called again, from the prepared connection on: the bytes sent,
the connection, and the outcomes still to come. -/
inductive Delivering (isET : Bool) (start : HttpConn) (outcomes : List WriteOutcome) :
    Bytes → HttpConn → List WriteOutcome → Prop
  | start : Delivering isET start outcomes [] start outcomes
  | again {sent : Bytes} {conn : HttpConn} {rest : List WriteOutcome} {written : Written}
      (before : Delivering isET start outcomes sent conn rest)
      (writes : conn.write isET rest = .ok written) (rearms : written.verdict = .rearm) :
      Delivering isET start outcomes (sent ++ written.sent) written.conn written.unused

/-- `OnWrite` ends with the response only when all of it was sent or `writev` failed for good. -/
def Delivers (isET : Bool) (start : HttpConn) (outcomes : List WriteOutcome) : Prop :=
  ∀ sent conn rest, Delivering isET start outcomes sent conn rest →
    ∃ written, conn.write isET rest = .ok written ∧
      (written.verdict ≠ .rearm →
        sent ++ written.sent = start.gather ∨ written.returned = ⟨-1, some .other⟩)

/-- How a call of `Write` ends: with nothing left, with an error, with `EAGAIN`, or, in level-triggered
mode only, with a successful `writev` that left too little for another pass. -/
inductive WriteEnd (isET : Bool) (written : Written) : Prop
  | complete (none : written.conn.offered = 0)
  | failed (more : 0 < written.conn.offered) (error : written.returned = ⟨-1, some .other⟩)
  | waiting (more : 0 < written.conn.offered) (error : written.returned = ⟨-1, some .eagain⟩)
  | short (level : isET = false) (more : 0 < written.conn.offered) (positive : 0 < written.returned.len)

/-- What a call of `Write` does: it sends the front of what is offered, ends in one of the four ways, and
in level-triggered mode the outcomes stall exactly when it ends short or what is still to come stalls. -/
structure Sends (isET : Bool) (conn : HttpConn) (outcomes : List WriteOutcome) (written : Written) :
    Prop where
  coherent : written.conn.Coherent
  fewer : written.conn.offered ≤ conn.offered
  sent : written.sent ++ written.conn.gather = conn.gather
  unused : written.unused <:+ outcomes.tail
  ends : WriteEnd isET written
  stalls : isET = false → (Stalls conn.offered outcomes ↔
    0 < written.conn.offered ∧ (0 < written.returned.len ∨
      written.returned = ⟨-1, some .eagain⟩ ∧ Stalls written.conn.offered written.unused))

/-- `writev` answers with an error. -/
theorem Sends.error {conn : HttpConn} (coherent : conn.Coherent) (isET : Bool) (errno : Errno)
    (rest : List WriteOutcome) :
    Sends isET conn (.error errno :: rest) ⟨⟨-1, some errno⟩, conn, [], rest⟩ := by
  refine ⟨coherent, Nat.le_refl _, rfl, List.suffix_refl _, ?_, fun _ => ?_⟩
  · rcases Nat.eq_zero_or_pos conn.offered with none | more
    · exact .complete none
    · cases errno with
      | eagain => exact .waiting more rfl
      | other => exact .failed more rfl
  · cases errno with
    | eagain => simp [Stalls]
    | other => simp [Stalls]

/-- `writev` takes bytes and the loop goes on. -/
theorem Sends.more {isET : Bool} {conn next : HttpConn} {count : ℕ} {rest : List WriteOutcome}
    {written : Written}
    (front : conn.gather.take (min count conn.offered) ++ next.gather = conn.gather)
    (left : next.offered = conn.offered - count) (large : isET = false → 10240 < next.offered)
    (further : Sends isET next rest written) :
    Sends isET conn (.accepted count :: rest)
      { written with sent := conn.gather.take (min count conn.offered) ++ written.sent } := by
  refine ⟨further.coherent, Nat.le_trans further.fewer (by omega), ?_,
    further.unused.trans (List.tail_suffix rest), ?_, fun level => ?_⟩
  · rw [List.append_assoc, further.sent, front]
  · cases further.ends with
    | complete none => exact .complete none
    | failed more error => exact .failed more error
    | waiting more error => exact .waiting more error
    | short level more positive => exact .short level more positive
  · have := large level
    rw [Stalls, ← left, ← further.stalls level]
    constructor
    · rintro ⟨_, few | stall⟩
      · omega
      · exact stall
    · exact fun stall => ⟨by omega, .inr stall⟩

/-- `writev` takes bytes and the loop ends, with few left. -/
theorem Sends.last {isET : Bool} {conn next : HttpConn} {count : ℕ} (coherent : next.Coherent)
    (front : conn.gather.take (min count conn.offered) ++ next.gather = conn.gather)
    (left : next.offered = conn.offered - count) (level : isET = false)
    (few : next.offered ≤ 10240) (taken : 0 < min count conn.offered) (rest : List WriteOutcome) :
    Sends isET conn (.accepted count :: rest)
      ⟨⟨(min count conn.offered : ℕ), none⟩, next, conn.gather.take (min count conn.offered), rest⟩ := by
  have positive : 0 < ((min count conn.offered : ℕ) : ℤ) := Int.natCast_pos.mpr taken
  refine ⟨coherent, by dsimp only; omega, front, List.suffix_refl _, ?_, fun _ => ?_⟩
  · rcases Nat.eq_zero_or_pos next.offered with none | more
    · exact .complete none
    · exact .short level more positive
  · rw [Stalls, ← left]
    simp only [few, positive, true_or, and_true]

theorem write_sends {conn : HttpConn} (coherent : conn.Coherent) (small : conn.offered < 2 ^ 31)
    (isET : Bool) {outcomes : List WriteOutcome}
    (positive : ∀ count, WriteOutcome.accepted count ∈ outcomes → 0 < count) :
    ∃ written, conn.write isET outcomes = .ok written ∧ Sends isET conn outcomes written := by
  induction outcomes generalizing conn with
  | nil =>
    refine ⟨_, rfl, coherent, Nat.le_refl _, rfl, List.suffix_refl _, ?_, fun _ => by simp [Stalls]⟩
    rcases Nat.eq_zero_or_pos conn.offered with none | more
    · exact .complete none
    · exact .waiting more rfl
  | cons outcome rest ih =>
    cases outcome with
    | error errno => exact ⟨_, rfl, .error coherent isET errno rest⟩
    | accepted count =>
      have counted := positive count List.mem_cons_self
      by_cases none : min count conn.offered = 0
      · have empty : conn.offered = 0 := by omega
        rw [write, if_pos none]
        refine ⟨_, rfl, coherent, Nat.le_refl _, ?_, List.suffix_refl _, .complete empty, fun _ => ?_⟩
        · simp [none]
        · simp [Stalls, empty]
      · obtain ⟨next, nextCoherent, front, left, pass⟩ :=
          coherent.write_pass (by omega) none isET rest
        rw [pass, nextCoherent.toWriteBytes_eq (by omega)]
        split_ifs with goesOn
        · obtain ⟨written, run, further⟩ :=
            ih nextCoherent (by omega) fun count member => positive count (List.mem_cons_of_mem _ member)
          refine ⟨_, by rw [run]; rfl, further.more front left fun level => ?_⟩
          rw [level] at goesOn
          simp only [Bool.false_eq_true, false_or] at goesOn
          omega
        · obtain ⟨level, few⟩ := not_or.mp goesOn
          exact ⟨_, rfl, .last nextCoherent front left (Bool.eq_false_iff.mpr level) (by omega)
            (by omega) rest⟩

/-- `OnWrite` asks to be called again exactly when `Write` ended with `EAGAIN`. -/
theorem verdict_rearm_iff {isET : Bool} {written : Written} (coherent : written.conn.Coherent)
    (small : written.conn.offered < 2 ^ 31) (ends : WriteEnd isET written) :
    written.verdict = .rearm ↔
      0 < written.conn.offered ∧ written.returned = ⟨-1, some .eagain⟩ := by
  have bytes := coherent.toWriteBytes_eq small
  rw [Written.verdict, bytes]
  cases ends with
  | complete none =>
    rw [none, if_pos (by rfl)]
    split_ifs <;> simp
  | failed more error =>
    rw [if_neg (by omega), error]
    simp
  | waiting more error =>
    rw [if_neg (by omega), error]
    simp [more]
  | short level more positive =>
    have notFailed : written.returned ≠ ⟨-1, some .eagain⟩ := by
      intro same
      rw [same] at positive
      exact absurd positive (by decide)
    rw [if_neg (by omega), if_neg (by omega)]
    simp [notFailed]

/-- What holds from one call to the next: the bytes sent are the front of the response, and whether the
outcomes stall does not change. -/
theorem Delivering.invariant {isET : Bool} {start : HttpConn} {outcomes : List WriteOutcome}
    (coherent : start.Coherent) (small : start.offered < 2 ^ 31)
    (positive : ∀ count, WriteOutcome.accepted count ∈ outcomes → 0 < count)
    {sent : Bytes} {conn : HttpConn} {rest : List WriteOutcome}
    (delivering : Delivering isET start outcomes sent conn rest) :
    conn.Coherent ∧ conn.offered < 2 ^ 31 ∧ sent ++ conn.gather = start.gather ∧ rest <:+ outcomes ∧
      (isET = false → (Stalls start.offered outcomes ↔ Stalls conn.offered rest)) := by
  induction delivering with
  | start => exact ⟨coherent, small, rfl, List.suffix_refl _, fun _ => Iff.rfl⟩
  | @again sent conn rest written before writes rearms ih =>
    obtain ⟨connCoherent, connSmall, front, part, same⟩ := ih
    obtain ⟨other, run, sends⟩ :=
      write_sends connCoherent connSmall isET fun count member => positive count (part.subset member)
    obtain rfl := Except.ok.inj (writes.symm.trans run)
    have nextSmall := Nat.lt_of_le_of_lt sends.fewer connSmall
    obtain ⟨more, error⟩ := (verdict_rearm_iff sends.coherent nextSmall sends.ends).mp rearms
    refine ⟨sends.coherent, nextSmall, ?_, (sends.unused.trans (List.tail_suffix _)).trans part, ?_⟩
    · rw [List.append_assoc, sends.sent, front]
    · intro level
      rw [same level, sends.stalls level, error]
      simp [more]

/-- Outcomes that stall lead to a call that closes the connection with bytes still to send. -/
theorem not_delivers_of_stalls {start : HttpConn} {outcomes : List WriteOutcome}
    (coherent : start.Coherent) (small : start.offered < 2 ^ 31)
    (positive : ∀ count, WriteOutcome.accepted count ∈ outcomes → 0 < count)
    (delivers : Delivers false start outcomes) {sent : Bytes} {conn : HttpConn}
    {rest : List WriteOutcome} (delivering : Delivering false start outcomes sent conn rest) :
    ¬ Stalls conn.offered rest := by
  induction size : rest.length using Nat.strong_induction_on generalizing sent conn rest with
  | _ length ih =>
    intro stall
    obtain ⟨connCoherent, connSmall, front, part, _⟩ := delivering.invariant coherent small positive
    obtain ⟨written, run, sends⟩ :=
      write_sends connCoherent connSmall false fun count member => positive count (part.subset member)
    have verdict :=
      verdict_rearm_iff sends.coherent (Nat.lt_of_le_of_lt sends.fewer connSmall) sends.ends
    obtain ⟨more, positive | ⟨error, again⟩⟩ := (sends.stalls rfl).mp stall
    · -- the last `writev` succeeded, so the connection is closed
      have notRearm : written.verdict ≠ .rearm := by
        intro rearms
        rw [(verdict.mp rearms).2] at positive
        exact absurd positive (by decide)
      obtain ⟨other, again, ends⟩ := delivers sent conn rest delivering
      obtain rfl := Except.ok.inj (run.symm.trans again)
      rcases ends notRearm with whole | error
      · rw [← front, ← sends.sent] at whole
        have lengths := congrArg List.length whole
        simp only [List.length_append, sends.coherent.gather_length] at lengths
        omega
      · rw [error] at positive
        exact absurd positive (by decide)
    · have shorter : written.unused.length < length := by
        have bound := sends.unused.length_le
        rw [List.length_tail] at bound
        have nonempty : rest ≠ [] := by
          rintro rfl
          exact stall
        have := List.length_pos_iff.mpr nonempty
        omega
      exact ih _ shorter (delivering.again run (verdict.mpr ⟨more, error⟩)) rfl again

/-- A response of fewer than `2 ^ 31` bytes, prepared when the second vector was empty, is delivered
whole exactly in edge-triggered mode, and in level-triggered mode when the outcomes do not stall. -/
theorem delivers_iff (isET : Bool) (host : Host) (conn next : HttpConn)
    (prepares : conn.process host = .ok (true, next)) (empty : conn.iov1.len = 0)
    (small : next.gather.length < 2 ^ 31) (outcomes : List WriteOutcome)
    (positive : ∀ count, WriteOutcome.accepted count ∈ outcomes → 0 < count) :
    Delivers isET next outcomes ↔ isET = true ∨ ¬ Stalls next.gather.length outcomes := by
  obtain ⟨_, _, made, _, prepared⟩ := prepares_of_process prepares
  have coherent := prepared.coherent empty
  rw [coherent.gather_length] at small ⊢
  constructor
  · intro delivers
    cases isET with
    | true => exact Or.inl rfl
    | false => exact Or.inr (not_delivers_of_stalls coherent small positive delivers .start)
  · intro condition sent middle rest delivering
    obtain ⟨middleCoherent, middleSmall, front, part, same⟩ :=
      delivering.invariant coherent small positive
    obtain ⟨written, run, sends⟩ :=
      write_sends middleCoherent middleSmall isET fun count member => positive count (part.subset member)
    have moved := sends.sent
    refine ⟨written, run, fun ended => ?_⟩
    cases sends.ends with
    | complete none =>
      have length := sends.coherent.gather_length
      rw [none, List.length_eq_zero_iff] at length
      rw [length, List.append_nil] at moved
      exact Or.inl (by rw [moved, front])
    | failed more error => exact Or.inr error
    | waiting more error =>
      have small := Nat.lt_of_le_of_lt sends.fewer middleSmall
      exact absurd ((verdict_rearm_iff sends.coherent small sends.ends).mpr ⟨more, error⟩) ended
    | short level more positive =>
      have stall := (same level).mpr ((sends.stalls level).mpr ⟨more, Or.inl positive⟩)
      rcases condition with edge | smooth
      · cases level.symm.trans edge
      · exact absurd stall smooth

/-- The error page for a malformed request, on a host without files. -/
theorem error_page : ∃ next, (fresh (ascii "x")).process bareHost = .ok (true, next) ∧
    next.Coherent ∧ next.gather.length = 217 := by
  have length : (responseTo bareHost (ascii "x")).map (·.bytes.length) = .ok 217 := by decide +kernel
  obtain ⟨made, next, response, run, prepared⟩ :=
    process_bareHost (show ascii "x" ≠ [] by decide)
  rw [response] at length
  refine ⟨next, run, prepared.coherent rfl, ?_⟩
  rw [prepared.gather (ByteBuffer.content_new _)]
  exact Except.ok.inj length

/-- The error page goes out whole in edge-triggered mode although the socket takes it in three parts and
is full before each of them but the first; in level-triggered mode when a full socket then takes it at
once. -/
theorem delivers_error_page :
    ∃ next, (fresh (ascii "x")).process bareHost = .ok (true, next) ∧
      Delivers true next [.accepted 100, .error .eagain, .accepted 50, .error .eagain, .accepted 67] ∧
      Delivers false next [.error .eagain, .accepted 217] := by
  obtain ⟨next, run, _, length⟩ := error_page
  have small : next.gather.length < 2 ^ 31 := by omega
  refine ⟨next, run, ?_, ?_⟩
  · exact (delivers_iff true bareHost _ next run rfl small _ (by simp)).mpr (Or.inl rfl)
  · refine (delivers_iff false bareHost _ next run rfl small _ (by simp)).mpr (Or.inr ?_)
    rw [length]
    decide

/-- In level-triggered mode a socket that takes 100 bytes of the error page first never gets the rest. -/
theorem not_delivers_partial :
    ¬ ∀ (isET : Bool) (host : Host) (conn next : HttpConn), conn.process host = .ok (true, next) →
      conn.iov1.len = 0 → next.gather.length < 2 ^ 31 → ∀ outcomes : List WriteOutcome,
        (∀ count, WriteOutcome.accepted count ∈ outcomes → 0 < count) →
          Delivers isET next outcomes := by
  intro delivers
  obtain ⟨next, run, coherent, length⟩ := error_page
  have positive : ∀ count, WriteOutcome.accepted count ∈ [WriteOutcome.accepted 100] → 0 < count := by
    simp
  have small : next.offered < 2 ^ 31 := by rw [← coherent.gather_length]; omega
  refine not_delivers_of_stalls coherent small positive
    (delivers false bareHost _ next run rfl (by omega) _ positive) .start ?_
  rw [← coherent.gather_length, length]
  decide

end HttpConn

end XWebServer
