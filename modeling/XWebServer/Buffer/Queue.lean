import XWebServer.Buffer.Buffer
import XWebServer.Lib.Transition

/-! # `Buffer` refines a byte queue

The abstract state is the queue of bytes, and `Op.effect` says what an operation does to it and which
bytes it hands out. A run pairs the concrete buffer with the queue. The one way to leave the
refinement is a request whose new vector size wraps around `size_t` (`Op.NoWrap` excludes it): the
vector then shrinks below the write position, or the closing assertion of `EnsureWriteable` fails.
-/

namespace XWebServer

open Slice Transition

namespace Buffer

/-- The calls a client makes. `hasWritten` stores its bytes at `BeginWrite()` before announcing them,
and `retrieveUntil` names its end by the distance from `Peek()`. -/
inductive Op where
  | append (bytes : Bytes)
  | ensureWriteable (len : ℕ)
  | hasWritten (bytes : Bytes)
  | retrieve (len : ℕ)
  | retrieveUntil (offset : ℕ)
  | retrieveAll
  | retrieveAllToStr
  | readFd (outcome : ReadvOutcome)
  | writeFd (outcome : WriteOutcome)
deriving DecidableEq, Repr

/-- A call and the bytes it hands to the client or the descriptor. -/
def exec (b : Buffer) : Op → Except Fault (Buffer × Bytes)
  | .append bytes => do .ok (← b.append bytes, [])
  | .ensureWriteable len => do .ok (← b.ensureWriteable len, [])
  | .hasWritten bytes => do .ok ((← b.store b.writePos bytes).hasWritten bytes.length, [])
  | .retrieve len => do .ok (← b.retrieve len, [])
  | .retrieveUntil offset => do .ok (← b.retrieveUntil (b.readPos + offset), [])
  | .retrieveAll => .ok (b.retrieveAll, [])
  | .retrieveAllToStr => .ok (b.retrieveAllToStr.2, b.retrieveAllToStr.1)
  | .readFd outcome => do .ok (← b.readFd outcome, [])
  | .writeFd outcome => .ok ((b.writeFd outcome).2, (b.writeFd outcome).1)

/-- The queue after a call, and the bytes handed out. -/
def Op.effect (queue : Bytes) : Op → Bytes × Bytes
  | .append bytes => (queue ++ bytes, [])
  | .ensureWriteable _ => (queue, [])
  | .hasWritten bytes => (queue ++ bytes, [])
  | .retrieve len => (queue.drop len, [])
  | .retrieveUntil offset => (queue.drop offset, [])
  | .retrieveAll => ([], [])
  | .retrieveAllToStr => ([], queue)
  | .readFd (.data bytes) => (queue ++ bytes, [])
  | .readFd (.error _) => (queue, [])
  | .writeFd (.accepted count) => (queue.drop count, queue.take count)
  | .writeFd (.error _) => (queue, [])

/-- The bounds a client must respect: those asserted, the free space for `HasWritten`, and for
`write` that it accepts at most what it is offered. -/
def Op.Allowed (b : Buffer) : Op → Prop
  | .hasWritten bytes => bytes.length ≤ b.writableBytes
  | .retrieve len => len ≤ b.readableBytes
  | .retrieveUntil offset => offset ≤ b.readableBytes
  | .writeFd (.accepted count) => count ≤ b.readableBytes
  | _ => True

/-- The vector size a call may compute stays below `2 ^ 64`, or is not needed. -/
def Op.NoWrap (b : Buffer) : Op → Prop
  | .append bytes => b.Fits bytes.length
  | .ensureWriteable len => b.Fits len
  | .readFd (.data bytes) => b.SpillFits bytes
  | _ => True

/-- A buffer and the queue it should hold. -/
abbrev Paired := Buffer × Bytes

/-- Runs of allowed calls from an empty buffer. -/
def system (initBuffSize : ℕ) : System Paired Op where
  Init state := state = (new initBuffSize, [])
  Step source op target :=
    op.Allowed source.1 ∧ (∃ out, source.1.exec op = .ok (target.1, out)) ∧
      target.2 = (op.effect source.2).1

/-- The positions are in order and inside the vector, and what lies between them is the queue. -/
structure Holds (b : Buffer) (queue : Bytes) : Prop where
  read_le : b.readPos ≤ b.writePos
  write_le : b.writePos ≤ b.storage.length
  content_eq : b.content = queue

/-- A state is as the queue says, and the call does on it what the queue says, with no failed
assertion and no write outside the vector. -/
def Faithful (state : Paired) (op : Op) : Prop :=
  Holds state.1 state.2 ∧ ∃ next, state.1.exec op = .ok (next, (op.effect state.2).2) ∧
    Holds next (op.effect state.2).1

/-- The refinement relation of a run. -/
def Refines (state : Paired) : Prop := state.1.Wf ∧ state.1.content = state.2

theorem Refines.holds {state : Paired} (refines : Refines state) : Holds state.1 state.2 :=
  ⟨refines.1.read_le, refines.1.write_le, refines.2⟩

/-- `Retrieve`, as a call of the queue. -/
private theorem exec_retrieve {b : Buffer} (wf : b.Wf) {len : ℕ} (inside : len ≤ b.readableBytes) :
    ∃ next, b.exec (.retrieve len) = .ok (next, []) ∧ next.Wf ∧ next.content = b.content.drop len := by
  obtain ⟨next, run, nextWf, content⟩ := wf.retrieve inside
  exact ⟨next, by simp [exec, run], nextWf, content⟩

private theorem exec_hasWritten {b : Buffer} (wf : b.Wf) {bytes : Bytes}
    (room : bytes.length ≤ b.writableBytes) :
    ∃ next, b.exec (.hasWritten bytes) = .ok (next, []) ∧ next.Wf ∧
      next.content = b.content ++ bytes := by
  rw [wf.writable_eq] at room
  obtain ⟨written, run, nextWf, content, _⟩ := wf.store_hasWritten room
  exact ⟨_, by simp [exec, run], nextWf, content⟩

/-- `write` hands out a prefix of the content and drops it. -/
private theorem exec_writeFd {b : Buffer} (wf : b.Wf) {count : ℕ} (inside : count ≤ b.readableBytes) :
    ∃ next, b.exec (.writeFd (.accepted count)) = .ok (next, b.content.take count) ∧ next.Wf ∧
      next.content = b.content.drop count := by
  obtain ⟨next, run, nextWf, content⟩ := wf.retrieve inside
  rw [Buffer.retrieve, assert_of inside] at run
  obtain rfl := Except.ok.inj run
  refine ⟨_, ?_, nextWf, content⟩
  rw [wf.readable_eq] at inside
  have := wf.read_le
  have front : slice b.storage b.readPos (b.readPos + count) = b.content.take count :=
    slice_add_right b.storage (by omega)
  rw [exec, writeFd, front]

/-- One allowed call whose sizes do not wrap succeeds and does what the queue says. -/
theorem Refines.exec {state : Paired} (refines : Refines state) {op : Op}
    (allowed : op.Allowed state.1) (noWrap : op.NoWrap state.1) :
    ∃ next, state.1.exec op = .ok (next, (op.effect state.2).2) ∧
      Refines (next, (op.effect state.2).1) := by
  obtain ⟨b, queue⟩ := state
  obtain ⟨wf, content⟩ := refines
  dsimp only at wf content allowed noWrap ⊢
  subst content
  cases op with
  | append bytes =>
    obtain ⟨next, run, nextWf, extended⟩ := wf.append noWrap
    exact ⟨next, by simp [Buffer.exec, run, Op.effect], nextWf, extended⟩
  | ensureWriteable len =>
    obtain ⟨next, run, nextWf, same, _⟩ := wf.ensureWriteable noWrap
    exact ⟨next, by simp [Buffer.exec, run, Op.effect], nextWf, same⟩
  | hasWritten bytes =>
    obtain ⟨next, run, nextWf, extended⟩ := exec_hasWritten wf allowed
    exact ⟨next, run, nextWf, extended⟩
  | retrieve len =>
    obtain ⟨next, run, nextWf, dropped⟩ := exec_retrieve wf allowed
    exact ⟨next, run, nextWf, dropped⟩
  | retrieveUntil offset =>
    obtain ⟨next, run, nextWf, dropped⟩ := exec_retrieve wf allowed
    have same : b.retrieveUntil (b.readPos + offset) = b.retrieve offset := by
      rw [Buffer.retrieveUntil, assert_of (Nat.le_add_right ..), Nat.add_sub_cancel_left]
      rfl
    refine ⟨next, ?_, nextWf, dropped⟩
    simp only [Buffer.exec, same] at run ⊢
    exact run
  | retrieveAll => exact ⟨_, rfl, wf.retrieveAll, content_retrieveAll b⟩
  | retrieveAllToStr => exact ⟨_, rfl, wf.retrieveAll, content_retrieveAll b⟩
  | readFd outcome =>
    cases outcome with
    | error errno => exact ⟨b, rfl, wf, rfl⟩
    | data bytes =>
      obtain ⟨next, run, nextWf, extended⟩ := wf.readFd noWrap
      exact ⟨next, by simp [Buffer.exec, run, Op.effect], nextWf, extended⟩
  | writeFd outcome =>
    cases outcome with
    | error errno => exact ⟨b, rfl, wf, rfl⟩
    | accepted count =>
      obtain ⟨next, run, nextWf, dropped⟩ := exec_writeFd wf allowed
      exact ⟨next, run, nextWf, dropped⟩

/-- The relation holds throughout every run in which no computed size wraps. -/
theorem refines_of_reachable {initBuffSize : ℕ} (int : initBuffSize < 2 ^ 31) {state : Paired}
    (reached : ((system initBuffSize).restrict fun source op => op.NoWrap source.1).Reachable state) :
    Refines state := by
  apply reached.invariant
  · rintro start rfl
    exact ⟨new_wf (by omega), content_new _⟩
  · rintro source op target refines ⟨⟨allowed, ⟨out, run⟩, queue⟩, noWrap⟩
    obtain ⟨next, expected, kept⟩ := refines.exec allowed noWrap
    rw [expected] at run
    obtain ⟨rfl, rfl⟩ := Prod.mk.inj (Except.ok.inj run)
    rw [← queue] at kept
    exact kept

/-- A request whose size wraps fails the closing assertion or leaves the vector too short. -/
theorem Wf.ensureWriteable_wraps {b : Buffer} (wf : b.Wf) {len : ℕ} (wraps : ¬ b.Fits len) :
    b.ensureWriteable len = .error .assertion ∨
      ∃ next, b.ensureWriteable len = .ok next ∧ next.writePos = b.writePos ∧
        next.storage.length < next.writePos := by
  have writable := wf.writable_eq
  have := wf.read_le
  have := wf.write_le
  have := wf.small
  obtain ⟨short, large⟩ := not_or.mp wraps
  let size := sizeAdd (sizeAdd b.writePos len) 1
  let next : Buffer := { b with storage := resize b.storage size 0 }
  have length : next.storage.length = size := length_resize ..
  have made : b.makeSpace len = .ok next := by
    rw [makeSpace, wf.free_eq, if_pos (by omega)]
  have lacking : b.writableBytes < len := by omega
  have run : b.ensureWriteable len = (do assert (len ≤ next.writableBytes); Except.ok next) := by
    simp only [Buffer.ensureWriteable, if_pos lacking, made]
    rfl
  have room : next.writableBytes = sizeSub size b.writePos := by rw [Buffer.writableBytes, length]
  by_cases enough : len ≤ next.writableBytes
  · refine Or.inr ⟨next, by rw [run, assert_of enough]; rfl, rfl, ?_⟩
    rw [length]
    change size < b.writePos
    simp only [room, size, sizeSub, sizeAdd] at enough ⊢
    omega
  · apply Or.inl
    rw [run, assert, if_neg enough]
    rfl

/-- `Append` of more than the wrapped size can hold does not return. -/
theorem Wf.append_wraps {b : Buffer} (wf : b.Wf) {bytes : Bytes} (wraps : ¬ b.Fits bytes.length) :
    ∃ fault, b.append bytes = .error fault := by
  rcases wf.ensureWriteable_wraps wraps with failed | ⟨next, made, position, short⟩
  · exact ⟨.assertion, by simp only [Buffer.append, failed, error_bind]⟩
  · have some : bytes ≠ [] := by
      rintro rfl
      exact wraps (Or.inl (Nat.zero_le _))
    have outside : next.store next.writePos bytes = .error .outOfRange :=
      if_neg (not_or.mpr ⟨some, by omega⟩)
    exact ⟨.outOfRange, by simp only [Buffer.append, made, outside, ok_bind, error_bind]⟩

/-- A read whose spill makes the size wrap does not return either. -/
theorem Wf.readFd_wraps {b : Buffer} (wf : b.Wf) {bytes : Bytes} (wraps : ¬ b.SpillFits bytes) :
    ∃ fault, b.readFd (.data bytes) = .error fault := by
  obtain ⟨large, spill⟩ := not_or.mp wraps
  have writable := wf.writable_eq
  have := wf.write_le
  have front : b.writePos + (bytes.take b.writableBytes).length ≤ b.storage.length := by
    rw [List.length_take]
    omega
  have size : (overwrite b.storage b.writePos (bytes.take b.writableBytes)).length = b.storage.length :=
    length_overwrite front
  let full : Buffer := ⟨overwrite b.storage b.writePos (bytes.take b.writableBytes), b.readPos,
    (overwrite b.storage b.writePos (bytes.take b.writableBytes)).length⟩
  have fullWf : full.Wf := by
    have := wf.read_le
    have := wf.small
    exact ⟨by dsimp only [full]; omega, le_rfl, by dsimp only [full]; omega⟩
  have fullWraps : ¬ full.Fits (bytes.drop b.writableBytes).length := by
    rw [List.length_drop]
    simpa only [Fits, full, size] using spill
  obtain ⟨fault, failed⟩ := fullWf.append_wraps fullWraps
  refine ⟨fault, ?_⟩
  simp only [Buffer.readFd, store_ok front, ok_bind, if_neg large]
  exact failed

/-- In every run whose earlier calls did not wrap, the next allowed call is faithful to the queue
exactly when its own sizes do not wrap. -/
theorem faithful_iff_noWrap (initBuffSize : ℕ) (int : initBuffSize < 2 ^ 31) (state : Paired)
    (reached : ((system initBuffSize).restrict fun source op => op.NoWrap source.1).Reachable state)
    (op : Op) (allowed : op.Allowed state.1) : Faithful state op ↔ op.NoWrap state.1 := by
  have refines := refines_of_reachable int reached
  constructor
  · rintro ⟨_, next, run, holds⟩
    by_contra wraps
    cases op with
    | append bytes =>
      obtain ⟨fault, failed⟩ := refines.1.append_wraps wraps
      simp [Buffer.exec, failed] at run
    | ensureWriteable len =>
      rcases refines.1.ensureWriteable_wraps wraps with failed | ⟨short, made, _, outside⟩
      · simp [Buffer.exec, failed] at run
      · simp only [Buffer.exec, made, ok_bind] at run
        obtain ⟨rfl, _⟩ := Prod.mk.inj (Except.ok.inj run)
        exact absurd holds.write_le (Nat.not_le.mpr outside)
    | readFd outcome =>
      cases outcome with
      | error errno => exact wraps trivial
      | data bytes =>
        obtain ⟨fault, failed⟩ := refines.1.readFd_wraps wraps
        simp [Buffer.exec, failed] at run
    | hasWritten | retrieve | retrieveUntil | retrieveAll | retrieveAllToStr | writeFd =>
      exact wraps trivial
  · intro noWrap
    obtain ⟨next, run, kept⟩ := refines.exec allowed noWrap
    exact ⟨refines.holds, next, run, kept.holds⟩

/-- The runs whose sizes do not wrap. -/
private abbrev fitting (initBuffSize : ℕ) : System Paired Op :=
  (system initBuffSize).restrict fun source op => op.NoWrap source.1

/-- Three bytes in a vector of four and two taken out; two more are moved to the front, three more make the
vector longer, and a read of three spills. -/
private def spilled : Paired := (⟨[3, 4, 5, 6, 7, 8, 9, 10, 11, 0], 0, 9⟩, [3, 4, 5, 6, 7, 8, 9, 10, 11])

private theorem spilled_reachable : (fitting 4).Reachable spilled := by
  have first : (fitting 4).Reachable (new 4, []) := .init rfl
  have filled : (fitting 4).Step (new 4, []) (.append [1, 2, 3]) (⟨[1, 2, 3, 0], 0, 3⟩, [1, 2, 3]) :=
    ⟨⟨trivial, ⟨[], by decide +kernel⟩, rfl⟩, .inr (by decide)⟩
  have taken : (fitting 4).Step (⟨[1, 2, 3, 0], 0, 3⟩, [1, 2, 3]) (.retrieve 2)
      (⟨[1, 2, 3, 0], 2, 3⟩, [3]) :=
    ⟨⟨show 2 ≤ 3 by decide, ⟨[], by decide +kernel⟩, rfl⟩, trivial⟩
  have moved : (fitting 4).Step (⟨[1, 2, 3, 0], 2, 3⟩, [3]) (.append [4, 5])
      (⟨[3, 4, 5, 0], 0, 3⟩, [3, 4, 5]) :=
    ⟨⟨trivial, ⟨[], by decide +kernel⟩, rfl⟩, .inr (by decide)⟩
  have grown : (fitting 4).Step (⟨[3, 4, 5, 0], 0, 3⟩, [3, 4, 5]) (.append [6, 7, 8])
      (⟨[3, 4, 5, 6, 7, 8, 0], 0, 6⟩, [3, 4, 5, 6, 7, 8]) :=
    ⟨⟨trivial, ⟨[], by decide +kernel⟩, rfl⟩, .inr (by decide)⟩
  have read : (fitting 4).Step (⟨[3, 4, 5, 6, 7, 8, 0], 0, 6⟩, [3, 4, 5, 6, 7, 8])
      (.readFd (.data [9, 10, 11])) spilled :=
    ⟨⟨trivial, ⟨[], by decide +kernel⟩, rfl⟩, .inr (.inr (by decide))⟩
  exact ((((first.step filled).step taken).step moved).step grown).step read

/-- There the next bytes are taken out as the queue says, and a request whose size wraps is not served. -/
theorem faithful_spilled : Faithful spilled (.writeFd (.accepted 4)) ∧
    ¬ Faithful spilled (.ensureWriteable (2 ^ 64 - 1)) := by
  have wraps : ¬ Fits spilled.1 (2 ^ 64 - 1) := by decide
  exact ⟨(faithful_iff_noWrap 4 (by decide) _ spilled_reachable (.writeFd (.accepted 4))
      (show 4 ≤ spilled.1.readableBytes by decide)).mpr trivial,
    (faithful_iff_noWrap 4 (by decide) _ spilled_reachable (.ensureWriteable (2 ^ 64 - 1)) trivial).not.mpr
      wraps⟩

/-- Not every allowed call of a reachable state is faithful to the queue: `EnsureWriteable(SIZE_MAX)`
on a fresh buffer resizes the vector to 0 and fails the assertion. -/
theorem not_always_faithful :
    ¬ ∀ state op, (system 1024).Reachable state → Op.Allowed state.1 op → Faithful state op := by
  intro always
  obtain ⟨_, next, run, _⟩ :=
    always (new 1024, []) (.ensureWriteable (2 ^ 64 - 1)) (.init rfl) trivial
  have failed : (new 1024).ensureWriteable (2 ^ 64 - 1) = .error .assertion := by decide +kernel
  simp only [exec, failed, error_bind, reduceCtorEq] at run

end Buffer

end XWebServer
