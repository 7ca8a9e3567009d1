import XWebServer.Buffer.Buffer

/-! # Well-formed buffers

`ByteBuffer` carries the order of its positions, so its operations need no check of it, and it idealises
`size_t` by the natural numbers: a connection's buffers never come near `2 ^ 64` bytes. The theorems
`append_toBuffer`, `receive_toBuffer` and `retrieve_toBuffer` say that this is what the operations of
`Buffer` do as long as no size wraps.
-/

namespace XWebServer

open Slice

/-- A buffer whose positions are in order and inside its vector. -/
structure ByteBuffer extends Buffer where
  read_le : readPos ≤ writePos
  write_le : writePos ≤ storage.length

namespace ByteBuffer

/-- `Buffer()` with its default size. -/
def new (initBuffSize : ℕ) : ByteBuffer := ⟨.new initBuffSize, le_rfl, Nat.zero_le _⟩

/-- The readable bytes. -/
abbrev content (b : ByteBuffer) : Bytes := b.toBuffer.content

def readableBytes (b : ByteBuffer) : ℕ := b.writePos - b.readPos

@[simp] theorem content_new (size : ℕ) : (new size).content = [] := Buffer.content_new size

theorem content_length (b : ByteBuffer) : b.content.length = b.readableBytes :=
  length_slice b.write_le

def retrieveAll (b : ByteBuffer) : ByteBuffer := ⟨b.toBuffer.retrieveAll, le_rfl, Nat.zero_le _⟩

@[simp] theorem content_retrieveAll (b : ByteBuffer) : b.retrieveAll.content = [] :=
  Buffer.content_retrieveAll b.toBuffer

/-- `Retrieve`, with its assertion. -/
def retrieve (b : ByteBuffer) (len : ℕ) : Except Fault ByteBuffer :=
  if inside : len ≤ b.readableBytes then
    .ok ⟨{ b.toBuffer with readPos := b.readPos + len },
      by unfold readableBytes at inside; have := b.read_le; dsimp only; omega, b.write_le⟩
  else .error .assertion

theorem retrieve_ok {b : ByteBuffer} {len : ℕ} (inside : len ≤ b.readableBytes) :
    ∃ next, b.retrieve len = .ok next ∧ next.content = b.content.drop len ∧
      next.storage = b.storage ∧ next.readPos = b.readPos + len ∧ next.writePos = b.writePos :=
  ⟨_, dif_pos inside, slice_add_left .., rfl, rfl, rfl⟩

theorem retrieve_toBuffer (b : ByteBuffer) (small : b.storage.length < 2 ^ 64) (len : ℕ) :
    b.toBuffer.retrieve len = (b.retrieve len).map (·.toBuffer) := by
  have wf : b.toBuffer.Wf := ⟨b.read_le, b.write_le, small⟩
  have := b.read_le
  have := b.write_le
  have readable := wf.readable_eq
  unfold retrieve Buffer.retrieve readableBytes
  by_cases inside : len ≤ b.writePos - b.readPos
  · rw [dif_pos inside, assert_of (by rw [readable]; exact inside)]
    rw [sizeAdd_eq (by omega)]
    rfl
  · rw [dif_neg inside, assert, if_neg (by rw [readable]; exact inside)]
    rfl

/-- `RetrieveUntil`, where `endPos` is the index `end` points to. -/
def retrieveUntil (b : ByteBuffer) (endPos : ℕ) : Except Fault ByteBuffer := do
  assert (b.readPos ≤ endPos)
  b.retrieve (endPos - b.readPos)

theorem retrieveUntil_eq (b : ByteBuffer) (len : ℕ) :
    b.retrieveUntil (b.readPos + len) = b.retrieve len := by
  rw [retrieveUntil, assert_of (Nat.le_add_right ..), Nat.add_sub_cancel_left]
  rfl

/-- Store bytes at the write position, where there is room. -/
def put (b : ByteBuffer) (bytes : Bytes) (room : b.writePos + bytes.length ≤ b.storage.length) :
    ByteBuffer where
  storage := overwrite b.storage b.writePos bytes
  readPos := b.readPos
  writePos := b.writePos + bytes.length
  read_le := Nat.le_trans b.read_le (Nat.le_add_right ..)
  write_le := by rw [length_overwrite room]; exact room

theorem content_put (b : ByteBuffer) (bytes : Bytes)
    (room : b.writePos + bytes.length ≤ b.storage.length) :
    (b.put bytes room).content = b.content ++ bytes := by
  change slice (overwrite b.storage b.writePos bytes) b.readPos (b.writePos + bytes.length) = _
  rw [← slice_append _ b.read_le (Nat.le_add_right ..), slice_overwrite_before b.write_le le_rfl,
    slice_overwrite_same room]
  rfl

/-- The branch of `MakeSpace` that moves the content to the front. -/
def compact (b : ByteBuffer) : ByteBuffer where
  storage := overwrite b.storage 0 b.content
  readPos := 0
  writePos := b.readableBytes
  read_le := Nat.zero_le _
  write_le := by
    have length := b.content_length
    have := b.write_le
    rw [length_overwrite (by unfold readableBytes at length; omega)]
    rw [readableBytes]
    omega

theorem content_compact (b : ByteBuffer) : b.compact.content = b.content := by
  have length := b.content_length
  have := b.write_le
  have inside : 0 + b.content.length ≤ b.storage.length := by unfold readableBytes at length; omega
  change slice (overwrite b.storage 0 b.content) 0 b.readableBytes = _
  rw [← length, ← Nat.zero_add b.content.length]
  exact slice_overwrite_same inside

theorem compact_length (b : ByteBuffer) : b.compact.storage.length = b.storage.length := by
  have length := b.content_length
  have := b.write_le
  exact length_overwrite (by unfold readableBytes at length; omega)

/-- The branch of `MakeSpace` that makes the vector longer. -/
def grow (b : ByteBuffer) (size : ℕ) (longer : b.storage.length ≤ size) : ByteBuffer where
  storage := resize b.storage size 0
  readPos := b.readPos
  writePos := b.writePos
  read_le := b.read_le
  write_le := by rw [length_resize]; exact Nat.le_trans b.write_le longer

theorem content_grow (b : ByteBuffer) (size : ℕ) (longer : b.storage.length ≤ size) :
    (b.grow size longer).content = b.content := slice_resize 0 b.write_le longer

/-- `Append`: in place, after compaction, or after growing. -/
def append (b : ByteBuffer) (bytes : Bytes) : ByteBuffer :=
  if room : b.writePos + bytes.length ≤ b.storage.length then b.put bytes room
  else if free : b.readableBytes + bytes.length ≤ b.storage.length then
    b.compact.put bytes (by rw [compact_length]; exact free)
  else
    have longer : b.storage.length ≤ b.writePos + bytes.length + 1 := by omega
    (b.grow (b.writePos + bytes.length + 1) longer).put bytes
      (by change b.writePos + bytes.length ≤ (resize ..).length; rw [length_resize]; omega)

/-- `Append` extends the content. -/
@[simp] theorem content_append (b : ByteBuffer) (bytes : Bytes) :
    (b.append bytes).content = b.content ++ bytes := by
  rw [append]
  split_ifs with room free
  · exact content_put ..
  · rw [content_put, content_compact]
  · rw [content_put, content_grow]

/-- `Buffer::Append` is a `put` into the buffer that `EnsureWriteable` answers with. -/
theorem append_of_ensureWriteable {b next : ByteBuffer} {bytes : Bytes}
    (made : b.toBuffer.ensureWriteable bytes.length = .ok next.toBuffer)
    (small : next.storage.length < 2 ^ 64)
    (room : next.writePos + bytes.length ≤ next.storage.length) :
    b.toBuffer.append bytes = .ok (next.put bytes room).toBuffer := by
  simp only [Buffer.append, made, ok_bind, Buffer.store_ok room, Buffer.hasWritten]
  rw [sizeAdd_eq (show next.writePos + bytes.length < 2 ^ 64 by omega)]
  rfl

/-- As long as the new size does not wrap, `Buffer::Append` is `ByteBuffer.append`. -/
theorem append_toBuffer (b : ByteBuffer) (bytes : Bytes)
    (small : b.storage.length + bytes.length + 1 < 2 ^ 64) :
    b.toBuffer.append bytes = .ok (b.append bytes).toBuffer := by
  have wf : b.toBuffer.Wf := ⟨b.read_le, b.write_le, by omega⟩
  have := b.read_le
  have := b.write_le
  rw [append]
  split_ifs with room free
  · exact append_of_ensureWriteable (wf.ensureWriteable_enough (by omega)) (by omega) room
  · have compactRoom : b.compact.writePos + bytes.length ≤ b.compact.storage.length := by
      rw [compact_length]
      exact free
    have compactSmall : b.compact.storage.length < 2 ^ 64 := by rw [compact_length]; omega
    have compactWf : b.compact.toBuffer.Wf := ⟨b.compact.read_le, b.compact.write_le, compactSmall⟩
    have made : b.toBuffer.makeSpace bytes.length = .ok b.compact.toBuffer :=
      wf.makeSpace_front (by unfold readableBytes at free; omega)
    exact append_of_ensureWriteable
      (wf.ensureWriteable_made (by omega) made compactWf (by omega)) compactSmall compactRoom
  · have longer : b.storage.length ≤ b.writePos + bytes.length + 1 := by omega
    have length : (b.grow _ longer).storage.length = b.writePos + bytes.length + 1 :=
      length_resize ..
    have grownSmall : (b.grow _ longer).storage.length < 2 ^ 64 := by omega
    have grownRoom : (b.grow _ longer).writePos + bytes.length ≤ (b.grow _ longer).storage.length := by
      change b.writePos + _ ≤ _
      omega
    have grownWf : (b.grow _ longer).toBuffer.Wf :=
      ⟨(b.grow _ longer).read_le, (b.grow _ longer).write_le, grownSmall⟩
    have made : b.toBuffer.makeSpace bytes.length = .ok (b.grow _ longer).toBuffer :=
      wf.makeSpace_longer (by unfold readableBytes at free; omega) (by omega)
    exact append_of_ensureWriteable
      (wf.ensureWriteable_made (by omega) made grownWf (by omega)) grownSmall grownRoom

/-- `ReadFd` of delivered bytes: fill the tail of the vector, then append what spilled. -/
def receive (b : ByteBuffer) (bytes : Bytes) : ByteBuffer :=
  if room : b.writePos + bytes.length ≤ b.storage.length then b.put bytes room
  else
    have full : b.writePos + (bytes.take (b.storage.length - b.writePos)).length ≤ b.storage.length := by
      have := b.write_le
      rw [List.length_take]
      omega
    (b.put (bytes.take (b.storage.length - b.writePos)) full).append
      (bytes.drop (b.storage.length - b.writePos))

/-- `ReadFd` extends the content by the bytes delivered. -/
@[simp] theorem content_receive (b : ByteBuffer) (bytes : Bytes) :
    (b.receive bytes).content = b.content ++ bytes := by
  rw [receive]
  split_ifs with room
  · exact content_put ..
  · rw [content_append, content_put, List.append_assoc, List.take_append_drop]

/-- As long as the new size does not wrap, `Buffer::ReadFd` is `ByteBuffer.receive`. -/
theorem receive_toBuffer (b : ByteBuffer) (bytes : Bytes)
    (small : b.storage.length + bytes.length + 1 < 2 ^ 64) :
    b.toBuffer.readFd (.data bytes) = .ok (b.receive bytes).toBuffer := by
  have wf : b.toBuffer.Wf := ⟨b.read_le, b.write_le, by omega⟩
  have writable := wf.writable_eq
  have := b.write_le
  have front : b.writePos + (bytes.take (b.storage.length - b.writePos)).length ≤
      b.storage.length := by
    rw [List.length_take]
    omega
  simp only [Buffer.readFd, writable, Buffer.store_ok front, ok_bind]
  rw [receive]
  by_cases room : b.writePos + bytes.length ≤ b.storage.length
  · have all : bytes.take (b.storage.length - b.writePos) = bytes :=
      List.take_of_length_le (by omega)
    rw [dif_pos room, if_pos (by omega), all,
      sizeAdd_eq (show b.writePos + bytes.length < 2 ^ 64 by omega)]
    rfl
  · have taken : (bytes.take (b.storage.length - b.writePos)).length = b.storage.length - b.writePos := by
      rw [List.length_take]
      omega
    have size := length_overwrite front
    have position : b.writePos + (bytes.take (b.storage.length - b.writePos)).length =
        (overwrite b.storage b.writePos (bytes.take (b.storage.length - b.writePos))).length := by
      omega
    have same : (b.put _ front).toBuffer =
        ⟨overwrite b.storage b.writePos (bytes.take (b.storage.length - b.writePos)), b.readPos,
          (overwrite b.storage b.writePos (bytes.take (b.storage.length - b.writePos))).length⟩ :=
      congrArg (Buffer.mk _ b.readPos) position
    have spill := append_toBuffer (b.put _ front) (bytes.drop (b.storage.length - b.writePos)) (by
      change (overwrite ..).length + _ + 1 < _
      rw [size, List.length_drop]
      omega)
    rw [same] at spill
    rw [dif_neg room, if_neg (by omega)]
    exact spill

end ByteBuffer

end XWebServer
