import XWebServer.Basic
import XWebServer.Lib.Slice

/-! # The class `Buffer`, operation by operation

The vector, the two positions, and every member function with its assertions and its `size_t`
arithmetic. `HasWritten` is unchecked, as in the source, so a `Buffer` value need not be well formed;
`Buffer.Wf` is the condition the other operations rely on, and `ByteBuffer` is the type that carries it.
-/

namespace XWebServer

open Slice

/-- What a `readv` answers: the bytes it delivered (none at end of file), or an error. -/
inductive ReadvOutcome where
  | data (bytes : Bytes)
  | error (errno : Errno)
deriving DecidableEq, Repr

/-- What a `write` or `writev` answers, when it comes back: how many bytes it accepted, or an error. -/
inductive WriteOutcome where
  | accepted (count : ℕ)
  | error (errno : Errno)
deriving DecidableEq, Repr

structure Buffer where
  storage : Bytes
  readPos : ℕ
  writePos : ℕ
deriving DecidableEq, Repr

namespace Buffer

/-- `Buffer(int initBuffSize)`. -/
def new (initBuffSize : ℕ) : Buffer := ⟨List.replicate initBuffSize 0, 0, 0⟩

def readableBytes (b : Buffer) : ℕ := sizeSub b.writePos b.readPos

def writableBytes (b : Buffer) : ℕ := sizeSub b.storage.length b.writePos

def prependableBytes (b : Buffer) : ℕ := b.readPos

/-- The bytes between `Peek()` and `BeginWriteConst()`. -/
def content (b : Buffer) : Bytes := slice b.storage b.readPos b.writePos

def retrieve (b : Buffer) (len : ℕ) : Except Fault Buffer := do
  assert (len ≤ b.readableBytes)
  .ok { b with readPos := sizeAdd b.readPos len }

/-- The argument is the index `end` points to. -/
def retrieveUntil (b : Buffer) (endPos : ℕ) : Except Fault Buffer := do
  assert (b.readPos ≤ endPos)
  b.retrieve (endPos - b.readPos)

def retrieveAll (b : Buffer) : Buffer := ⟨List.replicate b.storage.length 0, 0, 0⟩

def retrieveAllToStr (b : Buffer) : Bytes × Buffer := (b.content, b.retrieveAll)

def hasWritten (b : Buffer) (len : ℕ) : Buffer := { b with writePos := sizeAdd b.writePos len }

/-- Store bytes from an index of the vector on. -/
def store (b : Buffer) (pos : ℕ) (bytes : Bytes) : Except Fault Buffer :=
  if bytes = [] ∨ pos + bytes.length ≤ b.storage.length then
    .ok { b with storage := overwrite b.storage pos bytes }
  else .error .outOfRange

def makeSpace (b : Buffer) (len : ℕ) : Except Fault Buffer :=
  if sizeAdd b.writableBytes b.prependableBytes < len then
    .ok { b with storage := resize b.storage (sizeAdd (sizeAdd b.writePos len) 1) 0 }
  else do
    let readable := b.readableBytes
    let moved ← b.store 0 b.content
    let next : Buffer := { moved with readPos := 0, writePos := sizeAdd 0 readable }
    assert (readable = next.readableBytes)
    .ok next

def ensureWriteable (b : Buffer) (len : ℕ) : Except Fault Buffer := do
  let next ← if b.writableBytes < len then b.makeSpace len else .ok b
  assert (len ≤ next.writableBytes)
  .ok next

/-- All forms of `Append`: the bytes come from storage outside the buffer. -/
def append (b : Buffer) (bytes : Bytes) : Except Fault Buffer := do
  let roomy ← b.ensureWriteable bytes.length
  let written ← roomy.store roomy.writePos bytes
  .ok (written.hasWritten bytes.length)

/-- `readv` fills the writable tail first and then a 65535-byte array on the stack, from which the
spilled bytes are appended. -/
def readFd (b : Buffer) : ReadvOutcome → Except Fault Buffer
  | .error _ => .ok b
  | .data bytes => do
      let writable := b.writableBytes
      let filled ← b.store b.writePos (bytes.take writable)
      if bytes.length ≤ writable then
        .ok { filled with writePos := sizeAdd filled.writePos bytes.length }
      else append { filled with writePos := filled.storage.length } (bytes.drop writable)

/-- `write` of the readable bytes, of which the descriptor accepts the first `count`. -/
def writeFd (b : Buffer) : WriteOutcome → Bytes × Buffer
  | .error _ => ([], b)
  | .accepted count =>
      (slice b.storage b.readPos (b.readPos + count), { b with readPos := sizeAdd b.readPos count })

/-- The positions are ordered and inside the vector, whose size is a `size_t`. -/
structure Wf (b : Buffer) : Prop where
  read_le : b.readPos ≤ b.writePos
  write_le : b.writePos ≤ b.storage.length
  small : b.storage.length < 2 ^ 64

/-- Room for `len` bytes can be made: the free bytes suffice, or the new size does not wrap. -/
def Fits (b : Buffer) (len : ℕ) : Prop :=
  len ≤ b.storage.length - b.writePos + b.readPos ∨ b.writePos + len + 1 < 2 ^ 64

instance (b : Buffer) (len : ℕ) : Decidable (b.Fits len) := inferInstanceAs (Decidable (_ ∨ _))

theorem new_wf {size : ℕ} (small : size < 2 ^ 64) : (new size).Wf where
  read_le := le_rfl
  write_le := Nat.zero_le _
  small := by simpa only [new, List.length_replicate] using small

@[simp] theorem content_new (size : ℕ) : (new size).content = [] := slice_self _ _

@[simp] theorem content_retrieveAll (b : Buffer) : b.retrieveAll.content = [] := slice_self _ _

theorem Wf.retrieveAll {b : Buffer} (wf : b.Wf) : b.retrieveAll.Wf where
  read_le := le_rfl
  write_le := Nat.zero_le _
  small := by simpa only [Buffer.retrieveAll, List.length_replicate] using wf.small

theorem Wf.readable_eq {b : Buffer} (wf : b.Wf) : b.readableBytes = b.writePos - b.readPos :=
  sizeSub_eq wf.read_le (by have := wf.write_le; have := wf.small; omega)

theorem Wf.writable_eq {b : Buffer} (wf : b.Wf) :
    b.writableBytes = b.storage.length - b.writePos := sizeSub_eq wf.write_le wf.small

theorem Wf.content_length {b : Buffer} (wf : b.Wf) : b.content.length = b.readableBytes := by
  rw [wf.readable_eq, content, length_slice wf.write_le]

/-- A write inside the vector succeeds. -/
theorem store_ok {b : Buffer} {pos : ℕ} {bytes : Bytes}
    (inside : pos + bytes.length ≤ b.storage.length) :
    b.store pos bytes = .ok { b with storage := overwrite b.storage pos bytes } :=
  if_pos (Or.inr inside)

/-- `Retrieve` of what is readable drops a prefix of the content. -/
theorem Wf.retrieve {b : Buffer} (wf : b.Wf) {len : ℕ} (inside : len ≤ b.readableBytes) :
    ∃ next, b.retrieve len = .ok next ∧ next.Wf ∧ next.content = b.content.drop len := by
  have room := wf.readable_eq
  have := wf.read_le
  have := wf.write_le
  have := wf.small
  have advance : sizeAdd b.readPos len = b.readPos + len := sizeAdd_eq (by omega)
  refine ⟨{ b with readPos := b.readPos + len }, ?_, ?_, ?_⟩
  · simp only [Buffer.retrieve, assert_of inside, advance]
    rfl
  · exact ⟨by dsimp only; omega, wf.write_le, wf.small⟩
  · exact slice_add_left ..

/-- The free bytes, which `MakeSpace` compares with the bytes asked for. -/
theorem Wf.free_eq {b : Buffer} (wf : b.Wf) :
    sizeAdd b.writableBytes b.prependableBytes = b.storage.length - b.writePos + b.readPos := by
  have := wf.read_le
  have := wf.write_le
  have := wf.small
  rw [wf.writable_eq, prependableBytes, sizeAdd_eq (by omega)]

/-- `MakeSpace` with enough free bytes moves the content to the front of the vector. -/
theorem Wf.makeSpace_front {b : Buffer} (wf : b.Wf) {len : ℕ}
    (free : len ≤ b.storage.length - b.writePos + b.readPos) :
    b.makeSpace len = .ok ⟨overwrite b.storage 0 b.content, 0, b.writePos - b.readPos⟩ := by
  have readable := wf.readable_eq
  have length := wf.content_length
  have := wf.write_le
  have := wf.small
  have inside : 0 + b.content.length ≤ b.storage.length := by omega
  have position : sizeAdd 0 b.readableBytes = b.writePos - b.readPos := by
    rw [readable, sizeAdd_eq (by omega), Nat.zero_add]
  let next : Buffer := ⟨overwrite b.storage 0 b.content, 0, b.writePos - b.readPos⟩
  have size : next.storage.length = b.storage.length := length_overwrite inside
  have nextWf : next.Wf := ⟨Nat.zero_le _, by rw [size]; dsimp only [next]; omega, by omega⟩
  have kept : b.readableBytes = next.readableBytes := by
    rw [readable, nextWf.readable_eq]
    rfl
  simp only [makeSpace, wf.free_eq, if_neg (Nat.not_lt.mpr free), store_ok inside, position]
  change (do assert (b.readableBytes = next.readableBytes); Except.ok next) = _
  rw [assert_of kept]
  rfl

/-- `MakeSpace` with too few free bytes makes the vector longer. -/
theorem Wf.makeSpace_longer {b : Buffer} (wf : b.Wf) {len : ℕ}
    (short : b.storage.length - b.writePos + b.readPos < len)
    (small : b.writePos + len + 1 < 2 ^ 64) :
    b.makeSpace len = .ok { b with storage := resize b.storage (b.writePos + len + 1) 0 } := by
  have target : sizeAdd (sizeAdd b.writePos len) 1 = b.writePos + len + 1 := by
    rw [sizeAdd_eq (show b.writePos + len < 2 ^ 64 by omega), sizeAdd_eq small]
  rw [makeSpace, wf.free_eq, if_pos short, target]

/-- Compaction keeps the content. -/
theorem Wf.makeSpace_compact {b : Buffer} (wf : b.Wf) {len : ℕ}
    (free : len ≤ b.storage.length - b.writePos + b.readPos) :
    ∃ next, b.makeSpace len = .ok next ∧ next.Wf ∧ next.content = b.content ∧
      len ≤ next.storage.length - next.writePos := by
  have length := wf.content_length.trans wf.readable_eq
  have := wf.read_le
  have := wf.write_le
  have := wf.small
  have inside : 0 + b.content.length ≤ b.storage.length := by omega
  have size : (overwrite b.storage 0 b.content).length = b.storage.length := length_overwrite inside
  refine ⟨_, wf.makeSpace_front free, ⟨Nat.zero_le _, ?_, ?_⟩, ?_, ?_⟩
  · rw [size]
    dsimp only
    omega
  · rw [size]
    exact wf.small
  · change slice (overwrite b.storage 0 b.content) 0 (b.writePos - b.readPos) = b.content
    rw [← length, ← Nat.zero_add b.content.length]
    exact slice_overwrite_same inside
  · rw [size]
    dsimp only
    omega

/-- Growing leaves the content where it is. -/
theorem Wf.makeSpace_grow {b : Buffer} (wf : b.Wf) {len : ℕ}
    (short : b.storage.length - b.writePos + b.readPos < len)
    (small : b.writePos + len + 1 < 2 ^ 64) :
    ∃ next, b.makeSpace len = .ok next ∧ next.Wf ∧ next.content = b.content ∧
      len ≤ next.storage.length - next.writePos := by
  have := wf.write_le
  refine ⟨_, wf.makeSpace_longer short small, ⟨wf.read_le, ?_, ?_⟩, ?_, ?_⟩
  · rw [length_resize]
    dsimp only
    omega
  · rw [length_resize]
    exact small
  · exact slice_resize 0 wf.write_le (by omega)
  · rw [length_resize]
    dsimp only
    omega

/-- `EnsureWriteable` of bytes that fit behind the content does nothing. -/
theorem Wf.ensureWriteable_enough {b : Buffer} (wf : b.Wf) {len : ℕ}
    (enough : len ≤ b.storage.length - b.writePos) : b.ensureWriteable len = .ok b := by
  have room : len ≤ b.writableBytes := by rw [wf.writable_eq]; exact enough
  simp only [Buffer.ensureWriteable, if_neg (Nat.not_lt.mpr room), ok_bind, assert_of room]

/-- Otherwise it is `MakeSpace`, and its assertion holds if that made the room. -/
theorem Wf.ensureWriteable_made {b next : Buffer} (wf : b.Wf) {len : ℕ}
    (lacking : b.storage.length - b.writePos < len) (made : b.makeSpace len = .ok next)
    (nextWf : next.Wf) (room : len ≤ next.storage.length - next.writePos) :
    b.ensureWriteable len = .ok next := by
  have short : b.writableBytes < len := by rw [wf.writable_eq]; exact lacking
  have enough : len ≤ next.writableBytes := by rw [nextWf.writable_eq]; exact room
  simp only [Buffer.ensureWriteable, if_pos short, made, ok_bind, assert_of enough]

/-- `EnsureWriteable` keeps the content and makes the room asked for; its assertion holds. -/
theorem Wf.ensureWriteable {b : Buffer} (wf : b.Wf) {len : ℕ} (fits : b.Fits len) :
    ∃ next, b.ensureWriteable len = .ok next ∧ next.Wf ∧ next.content = b.content ∧
      len ≤ next.storage.length - next.writePos := by
  rcases Nat.lt_or_ge (b.storage.length - b.writePos) len with lacking | enough
  · have made : ∃ next, b.makeSpace len = .ok next ∧ next.Wf ∧ next.content = b.content ∧
        len ≤ next.storage.length - next.writePos := by
      rcases Nat.lt_or_ge (b.storage.length - b.writePos + b.readPos) len with short | free
      · exact wf.makeSpace_grow short (fits.resolve_left (Nat.not_le.mpr short))
      · exact wf.makeSpace_compact free
    obtain ⟨next, run, nextWf, same, room⟩ := made
    exact ⟨next, wf.ensureWriteable_made lacking run nextWf room, nextWf, same, room⟩
  · exact ⟨b, wf.ensureWriteable_enough enough, wf, rfl, enough⟩

/-- Storing at the write position and advancing it extends the content. -/
theorem Wf.store_hasWritten {b : Buffer} (wf : b.Wf) {bytes : Bytes}
    (room : bytes.length ≤ b.storage.length - b.writePos) :
    ∃ next, b.store b.writePos bytes = .ok next ∧ (next.hasWritten bytes.length).Wf ∧
      (next.hasWritten bytes.length).content = b.content ++ bytes ∧
      next.storage.length = b.storage.length ∧
      (next.hasWritten bytes.length).writePos = b.writePos + bytes.length := by
  have := wf.read_le
  have := wf.write_le
  have := wf.small
  have inside : b.writePos + bytes.length ≤ b.storage.length := by omega
  have advance : sizeAdd b.writePos bytes.length = b.writePos + bytes.length := sizeAdd_eq (by omega)
  have size : (overwrite b.storage b.writePos bytes).length = b.storage.length :=
    length_overwrite inside
  refine ⟨_, store_ok inside, ⟨?_, ?_, ?_⟩, ?_, size, advance⟩
  · change b.readPos ≤ sizeAdd b.writePos bytes.length
    omega
  · change sizeAdd b.writePos bytes.length ≤ (overwrite b.storage b.writePos bytes).length
    omega
  · change (overwrite b.storage b.writePos bytes).length < 2 ^ 64
    omega
  · change slice (overwrite b.storage b.writePos bytes) b.readPos (sizeAdd b.writePos bytes.length) = _
    rw [advance, ← slice_append _ wf.read_le (Nat.le_add_right ..),
      slice_overwrite_before wf.write_le le_rfl, slice_overwrite_same inside]
    rfl

/-- `Append` extends the content by the bytes given. -/
theorem Wf.append {b : Buffer} (wf : b.Wf) {bytes : Bytes} (fits : b.Fits bytes.length) :
    ∃ next, b.append bytes = .ok next ∧ next.Wf ∧ next.content = b.content ++ bytes := by
  obtain ⟨roomy, made, roomyWf, same, room⟩ := wf.ensureWriteable fits
  obtain ⟨written, stored, writtenWf, extended, _⟩ := roomyWf.store_hasWritten room
  refine ⟨written.hasWritten bytes.length, ?_, writtenWf, by rw [extended, same]⟩
  simp only [Buffer.append, made, ok_bind, stored]

/-- The bytes a read spills over the end of the vector must fit after the vector is full. -/
def SpillFits (b : Buffer) (bytes : Bytes) : Prop :=
  bytes.length ≤ b.writableBytes ∨
    Fits { b with writePos := b.storage.length } (bytes.length - b.writableBytes)

instance (b : Buffer) (bytes : Bytes) : Decidable (b.SpillFits bytes) :=
  inferInstanceAs (Decidable (_ ∨ _))

/-- `ReadFd` extends the content by the bytes `readv` delivered, wherever it put them. -/
theorem Wf.readFd {b : Buffer} (wf : b.Wf) {bytes : Bytes} (fits : b.SpillFits bytes) :
    ∃ next, b.readFd (.data bytes) = .ok next ∧ next.Wf ∧ next.content = b.content ++ bytes := by
  have writable := wf.writable_eq
  have := wf.write_le
  have front : (bytes.take b.writableBytes).length ≤ b.storage.length - b.writePos := by
    rw [List.length_take]
    omega
  obtain ⟨filled, stored, filledWf, extended, size, position⟩ := wf.store_hasWritten front
  by_cases small : bytes.length ≤ b.writableBytes
  · have all : bytes.take b.writableBytes = bytes := List.take_of_length_le small
    rw [all] at stored filledWf extended
    refine ⟨filled.hasWritten bytes.length, ?_, filledWf, extended⟩
    simp only [Buffer.readFd, all, stored, ok_bind, if_pos small]
    rfl
  · -- the tail of the vector is full, and the rest is appended from the stack array
    have full : (bytes.take b.writableBytes).length = b.storage.length - b.writePos := by
      rw [List.length_take]
      omega
    have same : filled.hasWritten (bytes.take b.writableBytes).length =
        { filled with writePos := filled.storage.length } := by
      rw [← show (filled.hasWritten (bytes.take b.writableBytes).length).writePos =
        filled.storage.length by omega]
      rfl
    rw [same] at filledWf extended
    have spillLength : (bytes.drop b.writableBytes).length = bytes.length - b.writableBytes :=
      List.length_drop
    have readPos : filled.readPos = b.readPos := by
      have inside : b.writePos + (bytes.take b.writableBytes).length ≤ b.storage.length := by omega
      rw [store_ok inside] at stored
      obtain rfl := Except.ok.inj stored
      rfl
    have spill : Fits { filled with writePos := filled.storage.length }
        (bytes.drop b.writableBytes).length := by
      have fit := fits.resolve_left small
      rw [spillLength]
      simpa only [Fits, size, readPos] using fit
    obtain ⟨next, appended, nextWf, content⟩ := filledWf.append spill
    refine ⟨next, ?_, nextWf, ?_⟩
    · simp only [Buffer.readFd, stored, ok_bind, if_neg small]
      exact appended
    · rw [content, extended, List.append_assoc, List.take_append_drop]

end Buffer

end XWebServer
