import XWebServer.Http.Delivery
import XWebServer.Http.Faithful

/-! # Whether the end of a response is recognised

`ToWriteBytes()` adds two lengths on `size_t` and returns the sum as an `int`, so it is 0 for every
multiple of `2 ^ 32`. In edge-triggered mode `Write` stops wherever `writev` stops accepting, and
`Wraps` says that it stops with such a multiple left.
-/

namespace XWebServer

namespace HttpConn

/-- In edge-triggered mode a call of `Write` ends with a positive multiple of `2 ^ 32` bytes left. -/
def Wraps : ℕ → List WriteOutcome → Prop
  | left, [] => 0 < left ∧ 2 ^ 32 ∣ left
  | left, .error .eagain :: rest => 0 < left ∧ (2 ^ 32 ∣ left ∨ Wraps left rest)
  | left, .error .other :: _ => 0 < left ∧ 2 ^ 32 ∣ left
  | left, .accepted count :: rest =>
      if min count left = 0 then 0 < left ∧ 2 ^ 32 ∣ left else Wraps (left - count) rest

/-- After each call of `Write` the test for completion succeeds exactly when all of it was sent. -/
def TellsCompletion (start : HttpConn) (outcomes : List WriteOutcome) : Prop :=
  ∀ sent conn rest, Delivering true start outcomes sent conn rest →
    ∃ written, conn.write true rest = .ok written ∧
      (written.conn.toWriteBytes = 0 ↔ sent ++ written.sent = start.gather)

theorem Coherent.toWriteBytes_eq_zero_iff {conn : HttpConn} (coherent : conn.Coherent)
    (small : conn.offered < 2 ^ 64) : conn.toWriteBytes = 0 ↔ 2 ^ 32 ∣ conn.offered := by
  have total := coherent.offered_eq
  rw [toWriteBytes, sizeAdd_eq (by omega), ← total, ← BitVec.toInt_zero, BitVec.toInt_inj,
    BitVec.toNat_eq, BitVec.toNat_ofNat, BitVec.toNat_zero]
  exact (Nat.dvd_iff_mod_eq_zero ..).symm

/-- What a call of `Write` does in edge-triggered mode, and whether it or a later one wraps. -/
structure Stops (conn : HttpConn) (outcomes : List WriteOutcome) (written : Written) : Prop where
  coherent : written.conn.Coherent
  fewer : written.conn.offered ≤ conn.offered
  sent : written.sent ++ written.conn.gather = conn.gather
  unused : written.unused <:+ outcomes.tail
  waits : written.returned.errno = some .eagain → written.returned.len < 0
  wraps : Wraps conn.offered outcomes ↔ 0 < written.conn.offered ∧
    (2 ^ 32 ∣ written.conn.offered ∨
      written.returned.errno = some .eagain ∧ Wraps written.conn.offered written.unused)

theorem write_stops {conn : HttpConn} (coherent : conn.Coherent) (small : conn.offered < 2 ^ 64)
    (outcomes : List WriteOutcome) :
    ∃ written, conn.write true outcomes = .ok written ∧ Stops conn outcomes written := by
  induction outcomes generalizing conn with
  | nil =>
    refine ⟨_, rfl, coherent, Nat.le_refl _, rfl, List.suffix_refl _, fun _ => by simp, ?_⟩
    simp [Wraps]
  | cons outcome rest ih =>
    cases outcome with
    | error errno =>
      refine ⟨_, rfl, coherent, Nat.le_refl _, rfl, List.suffix_refl _, fun _ => by simp, ?_⟩
      cases errno with
      | eagain => simp [Wraps]
      | other => simp [Wraps]
    | accepted count =>
      by_cases none : min count conn.offered = 0
      · rw [HttpConn.write, if_pos none]
        refine ⟨_, rfl, coherent, Nat.le_refl _, by simp [none], List.suffix_refl _, ?_, ?_⟩
        · intro waits
          cases waits
        · simp [Wraps, none]
      · obtain ⟨next, nextCoherent, front, left, pass⟩ := coherent.write_pass small none true rest
        obtain ⟨written, run, stops⟩ := ih nextCoherent (by omega)
        refine ⟨{ written with sent := conn.gather.take (min count conn.offered) ++ written.sent },
          ?_, stops.coherent, stops.fewer.trans (by omega), ?_,
          stops.unused.trans (List.tail_suffix rest), stops.waits, ?_⟩
        · rw [pass, if_pos (.inl rfl), run]
          rfl
        · rw [List.append_assoc, stops.sent, front]
        · rw [Wraps, if_neg none, ← left]
          exact stops.wraps

/-- `OnWrite` asks to be called again when the test for completion fails behind `EAGAIN`. -/
theorem Stops.rearm_iff {conn : HttpConn} {outcomes : List WriteOutcome} {written : Written}
    (stops : Stops conn outcomes written) (small : conn.offered < 2 ^ 64) :
    written.verdict = .rearm ↔
      ¬ 2 ^ 32 ∣ written.conn.offered ∧ written.returned.errno = some .eagain := by
  have waits := stops.waits
  rw [Written.verdict]
  rw [← stops.coherent.toWriteBytes_eq_zero_iff (stops.fewer.trans_lt small)]
  split_ifs <;> simp_all

/-- What holds from one call to the next: the bytes sent are the front of the response, and whether a
call wraps does not change. -/
theorem Delivering.edge {start : HttpConn} {outcomes : List WriteOutcome} (coherent : start.Coherent)
    (small : start.offered < 2 ^ 64) {sent : Bytes} {conn : HttpConn} {rest : List WriteOutcome}
    (delivering : Delivering true start outcomes sent conn rest) :
    conn.Coherent ∧ conn.offered < 2 ^ 64 ∧ sent ++ conn.gather = start.gather ∧
      (Wraps start.offered outcomes ↔ Wraps conn.offered rest) := by
  induction delivering with
  | start => exact ⟨coherent, small, rfl, Iff.rfl⟩
  | @again sent conn rest written before writes rearms ih =>
    obtain ⟨connCoherent, connSmall, front, same⟩ := ih
    obtain ⟨other, run, stops⟩ := write_stops connCoherent connSmall rest
    obtain rfl := Except.ok.inj (writes.symm.trans run)
    obtain ⟨exact, error⟩ := (stops.rearm_iff connSmall).mp rearms
    have more : 0 < written.conn.offered := by
      rcases Nat.eq_zero_or_pos written.conn.offered with none | more
      · exact absurd (none ▸ Nat.dvd_zero _) exact
      · exact more
    refine ⟨stops.coherent, stops.fewer.trans_lt connSmall, ?_, ?_⟩
    · rw [List.append_assoc, stops.sent, front]
    · rw [same, stops.wraps]
      simp only [more, exact, error, true_and, false_or]

/-- After a call everything was sent exactly when nothing is left. -/
theorem Stops.sent_iff {conn : HttpConn} {outcomes : List WriteOutcome} {written : Written}
    (stops : Stops conn outcomes written) {front : Bytes} {start : HttpConn}
    (prior : front ++ conn.gather = start.gather) :
    front ++ written.sent = start.gather ↔ written.conn.offered = 0 := by
  rw [← prior, ← stops.sent, List.append_cancel_left_eq, List.self_eq_append_right,
    ← List.length_eq_zero_iff, stops.coherent.gather_length]

/-- A call that wraps, now or later, leads to one where the test is wrong. -/
theorem not_wraps_of_tellsCompletion {start : HttpConn} {outcomes : List WriteOutcome}
    (coherent : start.Coherent) (small : start.offered < 2 ^ 64)
    (tells : TellsCompletion start outcomes) {sent : Bytes} {conn : HttpConn}
    {rest : List WriteOutcome} (delivering : Delivering true start outcomes sent conn rest) :
    ¬ Wraps conn.offered rest := by
  induction size : rest.length using Nat.strong_induction_on generalizing sent conn rest with
  | _ length ih =>
    intro wraps
    obtain ⟨connCoherent, connSmall, front, _⟩ := delivering.edge coherent small
    obtain ⟨written, run, stops⟩ := write_stops connCoherent connSmall rest
    obtain ⟨other, again, test⟩ := tells sent conn rest delivering
    obtain rfl := Except.ok.inj (run.symm.trans again)
    rw [stops.sent_iff front,
      stops.coherent.toWriteBytes_eq_zero_iff (stops.fewer.trans_lt connSmall)] at test
    obtain ⟨more, multiple | ⟨error, later⟩⟩ := stops.wraps.mp wraps
    · exact more.ne' (test.mp multiple)
    · have exact : ¬ 2 ^ 32 ∣ written.conn.offered := fun multiple => more.ne' (test.mp multiple)
      cases rest with
      | nil =>
        cases run
        exact exact wraps.2
      | cons outcome rest =>
        have shorter := stops.unused.length_le
        rw [List.tail_cons] at shorter
        rw [List.length_cons] at size
        exact ih _ (by omega)
          (delivering.again run ((stops.rearm_iff connSmall).mpr ⟨exact, error⟩)) rfl later

/-- The test for completion is right in every call for a response exactly when no call ends with a
positive multiple of `2 ^ 32` bytes left. -/
theorem tellsCompletion_iff {host : Host} {conn next : HttpConn}
    (prepares : conn.process host = .ok (true, next)) (empty : conn.iov1.len = 0)
    (fits : next.gather.length < 2 ^ 64) (outcomes : List WriteOutcome) :
    TellsCompletion next outcomes ↔ ¬ Wraps next.gather.length outcomes := by
  obtain ⟨_, _, made, _, prepared⟩ := prepares_of_process prepares
  have coherent := prepared.coherent empty
  rw [coherent.gather_length] at fits ⊢
  constructor
  · intro tells
    exact not_wraps_of_tellsCompletion coherent fits tells .start
  · intro exact sent now rest delivering
    obtain ⟨nowCoherent, nowSmall, front, same⟩ := delivering.edge coherent fits
    obtain ⟨written, run, stops⟩ := write_stops nowCoherent nowSmall rest
    refine ⟨written, run, ?_⟩
    rw [stops.sent_iff front,
      stops.coherent.toWriteBytes_eq_zero_iff (stops.fewer.trans_lt nowSmall)]
    refine ⟨fun multiple => ?_, fun none => none ▸ Nat.dvd_zero _⟩
    by_contra more
    exact exact (same.mpr (stops.wraps.mpr ⟨Nat.pos_of_ne_zero more, .inl multiple⟩))

/-- The error page goes out in two pieces. -/
theorem tellsCompletion_page : ∃ next, (fresh (ascii "x")).process bareHost = .ok (true, next) ∧
    TellsCompletion next [.accepted 100, .error .eagain, .accepted 117] := by
  obtain ⟨next, run, _, length⟩ := error_page
  refine ⟨next, run, (tellsCompletion_iff run rfl (by omega) _).mpr ?_⟩
  rw [length]
  simp [Wraps]

/-- The head for a file of `2 ^ 32` bytes is short. -/
theorem announcement_short {conn : HttpConn} (code : conn.response.resCode = 200) :
    (Lines.join 13 10 (conn.announcement (2 ^ 32))).length < 2 ^ 32 := by
  have types : ∀ entry ∈ HttpResponse.suffixType, entry.2.length ≤ 21 := by decide +kernel
  obtain ⟨suffix, listed⟩ := conn.response.getFileType_mem
  have type : conn.response.getFileType.length ≤ 21 := types _ listed
  have status : (HttpResponse.statusLine 200).length = 15 := by decide
  have size : (HttpResponse.lengthLine (2 ^ 32)).length = 26 := by decide +kernel
  have connection : ((HttpResponse.connectionLines conn.isKeepAlive).flatMap
      fun line : List UInt8 => line ++ [13, 10]).length ≤ 60 := by
    cases conn.isKeepAlive <;> decide
  rw [announcement, code, HttpResponse.headLines, Lines.join]
  simp only [List.flatMap_append, List.flatMap_cons, List.flatMap_nil, List.length_append,
    List.length_cons, List.length_nil] at connection ⊢
  have text : (ascii "Content-type: ").length = 14 := by decide
  omega

/-- A response whose head the socket takes, and nothing of the `2 ^ 32` bytes behind it. -/
theorem not_tellsCompletion {content : Bytes} (size : content.length = 2 ^ 32)
    (sound : content.take 4 ≠ [255, 255, 255, 255]) :
    ∃ next accepted, (fresh fileRequest).process (publicHost content) = .ok (true, next) ∧
      next.gather.length < 2 ^ 64 ∧ ¬ TellsCompletion next [.accepted accepted] := by
  have nonempty : content ≠ [] := by
    rintro rfl
    cases size
  obtain ⟨next, run, code, offers⟩ := process_serves fileRequest_accepted (publicHost_found content)
    rfl rfl rfl nonempty sound
  have blank : (fresh fileRequest).writeBuff.content = [] := ByteBuffer.content_new _
  have length := congrArg List.length offers
  rw [blank, List.nil_append, List.length_append, size] at length
  have short := announcement_short code
  have fits : next.gather.length < 2 ^ 64 := by omega
  refine ⟨next, (Lines.join 13 10 (next.announcement (2 ^ 32))).length, run, fits, fun tells => ?_⟩
  obtain ⟨_, _, made, _, prepared⟩ := prepares_of_process run
  have coherent := prepared.coherent rfl
  rw [coherent.gather_length] at length fits
  apply not_wraps_of_tellsCompletion coherent fits tells .start
  have positive : 0 < (Lines.join 13 10 (next.announcement (2 ^ 32))).length := by
    simp [Lines.join]
  rw [length, Wraps, if_neg (by omega), Nat.add_sub_cancel_left]
  exact ⟨by decide, Nat.dvd_refl _⟩

/-- A file of `2 ^ 32` bytes 0 of which nothing is sent passes for sent. -/
theorem not_forall_tellsCompletion : ¬ ∀ (host : Host) (conn next : HttpConn),
    conn.process host = .ok (true, next) → conn.iov1.len = 0 → next.gather.length < 2 ^ 64 →
      ∀ outcomes, TellsCompletion next outcomes := by
  intro tells
  have size : (List.replicate (2 ^ 32) (0 : UInt8)).length = 2 ^ 32 := List.length_replicate
  have sound : (List.replicate (2 ^ 32) (0 : UInt8)).take 4 ≠ [255, 255, 255, 255] := by
    rw [List.take_replicate]
    decide
  obtain ⟨next, accepted, run, fits, wrong⟩ := not_tellsCompletion size sound
  exact wrong (tells _ _ next run rfl fits _)

end HttpConn

end XWebServer
