import XWebServer.Http.Files
import XWebServer.Log.Log
import XWebServer.Log.Naming

/-! # The buffer of `Log::write`, step by step

`write` lets `snprintf` and `vsnprintf` store into the tail of the buffer, and passes the length they
return, which is that of the whole text, to the unchecked `HasWritten`. A text that does not fit with its
terminator leaves the terminator inside the line or the write position past the end, where `Append` no
longer makes space. Rotation does not touch the buffer and is left out, and `mtx_` makes the calls
successive.
-/

namespace XWebServer

open Transition System Slice

/-- `snprintf` at `BeginWrite()`: as much of the text as the size allows, and the terminator. -/
def Buffer.print (b : Buffer) (size : ℕ) (text : Bytes) : Except Fault Buffer :=
  if size = 0 then .ok b else b.store b.writePos (snprintf size text ++ [0])

/-- A call of `write`, with all that the format and its arguments give. -/
structure LogCall where
  level : ℤ
  time : Tm
  text : Bytes
  /-- the length is what `vsnprintf` returns -/
  text_lt : text.length < 2 ^ 31

/-- Where a call of `write` is. -/
inductive LogBuffer.Stage where
  | idle
  | begun (call : LogCall)
  | stampPrinted (call : LogCall)
  | stamped (call : LogCall)
  | titled (call : LogCall)
  | textPrinted (call : LogCall)
  | texted (call : LogCall)
  | closed (call : LogCall)
  /-- an assertion has failed, or a byte was written past the end -/
  | crashed

structure LogBuffer where
  buff : Buffer
  stage : LogBuffer.Stage
  /-- the line that a file gets for each call -/
  lines : List (LogCall × Bytes)

namespace LogBuffer

def proceed (log : LogBuffer) (run : Except Fault Buffer) (stage : Stage) : LogBuffer :=
  match run with
  | .ok buff => { log with buff, stage }
  | .error _ => { log with stage := .crashed }

/-- The line goes to the file from the buffer, or as a string through the deque. -/
def emit (log : LogBuffer) (call : LogCall) (direct : Bool) : LogBuffer :=
  if direct then
    { buff := log.buff.retrieveAll
      stage := .idle
      lines := log.lines ++ [(call, cString (log.buff.storage.drop log.buff.readPos))] }
  else
    { buff := log.buff.retrieveAllToStr.2.retrieveAll
      stage := .idle
      lines := log.lines ++ [(call, cString log.buff.retrieveAllToStr.1)] }

/-- The next operation of `write` on the buffer. -/
def next (direct : Bool) (log : LogBuffer) : LogBuffer :=
  match log.stage with
  | .idle | .crashed => log
  | .begun call => log.proceed (log.buff.print 128 call.time.stamp) (.stampPrinted call)
  | .stampPrinted call =>
      log.proceed (.ok (log.buff.hasWritten call.time.stamp.length)) (.stamped call)
  | .stamped call => log.proceed (log.buff.append (Log.levelTitle call.level)) (.titled call)
  | .titled call => log.proceed (log.buff.print log.buff.writableBytes call.text) (.textPrinted call)
  | .textPrinted call => log.proceed (.ok (log.buff.hasWritten call.text.length)) (.texted call)
  | .texted call => log.proceed (log.buff.append [10, 0]) (.closed call)
  | .closed call => log.emit call direct

inductive Action where
  | write (call : LogCall)
  | next (direct : Bool)

def Admits (log : LogBuffer) : Action → Prop
  | .write _ => log.stage = .idle
  | .next _ => log.stage ≠ .idle ∧ log.stage ≠ .crashed

def step (log : LogBuffer) : Action → LogBuffer
  | .write call => { log with stage := .begun call }
  | .next direct => log.next direct

/-- The buffer has its default size. -/
def start : LogBuffer := ⟨.new 1024, .idle, []⟩

def machine : System LogBuffer Action where
  Init log := log = start
  Step source action target := source.Admits action ∧ source.step action = target

end LogBuffer

/-! ## What a line should be -/

namespace LogCall

def head (call : LogCall) : Bytes := call.time.stamp ++ Log.levelTitle call.level

/-- The stamp, the title, the message, possibly cut short, and a newline. -/
def IsLine (call : LogCall) (line : Bytes) : Prop :=
  ∃ count, line = call.head ++ call.text.take count ++ [10]

/-- What is writable for the message in a buffer of this size. -/
def room (call : LogCall) (size : ℕ) : ℕ := size - call.head.length

/-- The message fits with its terminator and has no other in it. Or it is cut, by the missing room for a
terminator or by one of its own, right behind a newline of its own. -/
def Fits (call : LogCall) (size : ℕ) : Prop :=
  (call.text.length < call.room size ∧ 0 ∉ call.text) ∨
    (call.text.length ≤ call.room size ∧
      (cString (snprintf (call.room size) call.text)).getLast? = some 10)

/-- What lies in the buffer where the message should be. -/
def shown (call : LogCall) (size : ℕ) : Bytes :=
  (snprintf (call.room size) call.text ++ [0]).take call.text.length

/-- The line that the file gets. -/
def made (call : LogCall) (size : ℕ) : Bytes := cString (call.head ++ call.shown size ++ [10, 0])

theorem length_levelTitle (level : ℤ) : (Log.levelTitle level).length = 9 := by
  unfold Log.levelTitle
  split <;> rfl

theorem length_head (call : LogCall) : call.head.length = call.time.stamp.length + 9 := by
  rw [head, List.length_append, length_levelTitle]

theorem zero_notMem_head (call : LogCall) : 0 ∉ call.head := by
  rw [head, List.mem_append, not_or]
  refine ⟨call.time.zero_notMem_stamp, ?_⟩
  unfold Log.levelTitle
  split <;> decide

end LogCall

theorem cString_append_of_notMem {front : Bytes} (free : 0 ∉ front) (rest : Bytes) :
    cString (front ++ rest) = front ++ cString rest := by
  apply List.takeWhile_append_of_pos
  intro byte member
  rw [bne_iff_ne]
  rintro rfl
  exact free member

theorem cString_append_of_mem {front : Bytes} (ends : 0 ∈ front) (rest : Bytes) :
    cString (front ++ rest) = cString front := by
  obtain ⟨before, after, rfl, free⟩ := List.eq_append_cons_of_mem ends
  rw [List.append_assoc, List.cons_append, cString_append_of_notMem free,
    cString_append_of_notMem free]
  rfl

theorem cString_of_notMem {text : Bytes} (free : 0 ∉ text) : cString text = text := by
  have whole := cString_append_of_notMem free []
  rwa [List.append_nil, show cString [] = [] from rfl, List.append_nil] at whole

theorem cString_terminated (text : Bytes) : cString (text ++ [0]) = cString text := by
  by_cases ends : 0 ∈ text
  · exact cString_append_of_mem ends _
  · rw [cString_append_of_notMem ends, cString_of_notMem ends]
    exact List.append_nil text

namespace LogCall

/-- A piece of the message is cut right if it ends in a newline. -/
theorem isLine_iff {call : LogCall} {piece : Bytes} (part : piece <+: call.text) :
    call.IsLine (call.head ++ piece) ↔ piece.getLast? = some 10 := by
  constructor
  · rintro ⟨count, same⟩
    rw [List.append_assoc] at same
    rw [List.append_cancel_left same, List.getLast?_concat]
  · intro last
    have split : piece = piece.dropLast ++ [10] := by
      obtain ⟨front, rfl⟩ := List.getLast?_eq_some_iff.mp last
      rw [List.dropLast_concat]
    refine ⟨piece.dropLast.length, ?_⟩
    have cut : piece.dropLast = call.text.take piece.dropLast.length :=
      List.prefix_iff_eq_take.mp ((List.dropLast_prefix _).trans part)
    rw [← cut, List.append_assoc, ← split]

/-- Where the write position stays inside, the line comes out right exactly if the message fits. -/
theorem isLine_made_iff {call : LogCall} {size : ℕ} (roomy : 0 < call.room size)
    (inside : call.text.length ≤ call.room size) :
    call.IsLine (call.made size) ↔ call.Fits size := by
  rw [made, List.append_assoc, cString_append_of_notMem call.zero_notMem_head]
  have part : cString (snprintf (call.room size) call.text) <+: call.text :=
    (List.takeWhile_prefix _).trans (List.take_prefix _ _)
  rcases Nat.lt_or_eq_of_le inside with less | full
  · have whole : snprintf (call.room size) call.text = call.text := snprintf_eq less
    have shown : call.shown size = call.text := by
      rw [LogCall.shown, whole, List.take_left]
    rw [shown]
    by_cases ends : 0 ∈ call.text
    · rw [cString_append_of_mem ends, Fits, whole]
      rw [whole] at part
      rw [isLine_iff part]
      simp only [ends, not_true_eq_false, and_false, false_or, inside, true_and]
    · rw [cString_append_of_notMem ends]
      refine iff_of_true ⟨call.text.length, ?_⟩ (Or.inl ⟨less, ends⟩)
      rw [List.take_length, List.append_assoc]
      rfl
  · have length : (snprintf (call.room size) call.text ++ [0]).length = call.text.length := by
      rw [snprintf, List.length_append, List.length_take, List.length_singleton]
      omega
    have shown : call.shown size = snprintf (call.room size) call.text ++ [0] :=
      List.take_of_length_le length.le
    rw [shown, cString_append_of_mem (by simp), cString_terminated, isLine_iff part, Fits, full]
    simp only [lt_irrefl, false_and, le_refl, true_and, false_or]

end LogCall

/-! ## The operations -/

/-- The buffer has this line, and these bytes behind it, before the write position moves over them. -/
structure Holds (size : ℕ) (line tail : Bytes) (b : Buffer) : Prop where
  readPos : b.readPos = 0
  length : b.storage.length = size
  writePos : b.writePos = line.length
  content : b.content = line
  inside : line.length + tail.length ≤ size
  pending : slice b.storage b.writePos (b.writePos + tail.length) = tail
  small : size < 2 ^ 64

namespace Holds

variable {size : ℕ} {line tail : Bytes} {b : Buffer}

theorem wf (holds : Holds size line tail b) : b.Wf where
  read_le := by rw [holds.readPos]; exact Nat.zero_le _
  write_le := by
    have inside := holds.inside
    rw [holds.writePos, holds.length]
    omega
  small := by rw [holds.length]; exact holds.small

theorem writable (holds : Holds size line tail b) : b.writableBytes = size - line.length := by
  rw [holds.wf.writable_eq, holds.length, holds.writePos]

/-- An empty buffer. -/
theorem retrieveAll (holds : Holds size line tail b) : Holds size [] [] b.retrieveAll where
  readPos := rfl
  length := by rw [← holds.length]; exact List.length_replicate
  writePos := rfl
  content := Buffer.content_retrieveAll b
  inside := Nat.zero_le _
  pending := slice_self _ _
  small := holds.small

/-- Bytes stored behind the line, of which the first `count` will be read. -/
theorem store (holds : Holds size line tail b) {bytes : Bytes} (count : ℕ)
    (room : line.length + bytes.length ≤ size) :
    ∃ next, b.store b.writePos bytes = .ok next ∧ Holds size line (bytes.take count) next := by
  have inside : b.writePos + bytes.length ≤ b.storage.length := by
    rw [holds.writePos, holds.length]
    exact room
  have fewer : (bytes.take count).length ≤ bytes.length := List.length_take_le' _ _
  refine ⟨{ b with storage := overwrite b.storage b.writePos bytes }, Buffer.store_ok inside,
    holds.readPos, (length_overwrite inside).trans holds.length, holds.writePos, ?_, by omega, ?_,
    holds.small⟩
  · rw [← holds.content]
    exact slice_overwrite_before holds.wf.write_le le_rfl
  · rw [slice_add_right _ (Nat.add_le_add_left fewer b.writePos), slice_overwrite_same inside]
    exact (List.prefix_iff_eq_take.mp (List.take_prefix count bytes)).symm

/-- What a print leaves behind the line, as far as the text is long. -/
theorem print (holds : Holds size line tail b) (limit : ℕ) (text : Bytes) (some : 0 < limit)
    (room : line.length + (snprintf limit text ++ [0]).length ≤ size) :
    ∃ next, b.print limit text = .ok next ∧
      Holds size line ((snprintf limit text ++ [0]).take text.length) next := by
  rw [Buffer.print, if_neg some.ne']
  exact holds.store _ room

/-- `HasWritten` moves over the bytes. -/
theorem hasWritten (holds : Holds size line tail b) :
    Holds size (line ++ tail) [] (b.hasWritten tail.length) := by
  have inside := holds.inside
  have small := holds.small
  have moved : sizeAdd b.writePos tail.length = b.writePos + tail.length := by
    rw [holds.writePos]
    exact sizeAdd_eq (by omega)
  have length : (line ++ tail).length = line.length + tail.length := List.length_append
  refine ⟨holds.readPos, holds.length, ?_, ?_, length.trans_le inside, slice_self _ _, small⟩
  · rw [length, ← holds.writePos]
    exact moved
  · change slice b.storage b.readPos (sizeAdd b.writePos tail.length) = _
    rw [moved, ← slice_append _ holds.wf.read_le (Nat.le_add_right ..), holds.pending]
    exact congrArg (· ++ tail) holds.content

/-- `Append` after room was made. -/
theorem append_of_room {roomy : Buffer} {bytes : Bytes} (made : b.ensureWriteable bytes.length = .ok roomy)
    (holds : Holds size line [] roomy) (room : line.length + bytes.length ≤ size) :
    ∃ next, b.append bytes = .ok next ∧ Holds size (line ++ bytes) [] next := by
  obtain ⟨written, stored, after⟩ := holds.store bytes.length room
  rw [List.take_length] at after
  refine ⟨written.hasWritten bytes.length, ?_, after.hasWritten⟩
  rw [Buffer.append, made, ok_bind, stored]
  rfl

theorem append_room (holds : Holds size line [] b) (bytes : Bytes)
    (room : line.length + bytes.length ≤ size) :
    ∃ next, b.append bytes = .ok next ∧ Holds size (line ++ bytes) [] next := by
  refine append_of_room (holds.wf.ensureWriteable_enough ?_) holds room
  rw [holds.length, holds.writePos]
  omega

/-- `Append` to a buffer that has to grow. -/
theorem append_grow (holds : Holds size line [] b) (bytes : Bytes)
    (short : size < line.length + bytes.length) (small : line.length + bytes.length + 1 < 2 ^ 64) :
    ∃ next, b.append bytes = .ok next ∧
      Holds (line.length + bytes.length + 1) (line ++ bytes) [] next := by
  have inside := holds.inside
  have longer : b.makeSpace bytes.length = _ := holds.wf.makeSpace_longer
    (by rw [holds.length, holds.writePos, holds.readPos]; omega)
    (by rw [holds.writePos]; exact small)
  have target : b.writePos + bytes.length + 1 = line.length + bytes.length + 1 := by
    rw [holds.writePos]
  rw [target] at longer
  have grown : Holds (line.length + bytes.length + 1) line []
      { b with storage := resize b.storage (line.length + bytes.length + 1) 0 } := by
    refine ⟨holds.readPos, length_resize .., holds.writePos, ?_, ?_, slice_self _ _, small⟩
    · exact (slice_resize 0 holds.wf.write_le (by rw [holds.length]; omega)).trans holds.content
    · rw [List.length_nil]
      omega
  refine append_of_room (holds.wf.ensureWriteable_made ?_ longer grown.wf ?_) grown (by omega)
  · rw [holds.length, holds.writePos]
    omega
  · rw [grown.length, grown.writePos]
    omega

end Holds

/-! ## A call, from stage to stage -/

/-- The sizes the buffer takes on. -/
def Sized (size : ℕ) : Prop := 1024 ≤ size ∧ size < 2 ^ 32

namespace LogCall

theorem length_head_lt (call : LogCall) : call.head.length < 137 := by
  have stamp := call.time.length_stamp
  rw [length_head]
  omega

theorem room_pos (call : LogCall) {size : ℕ} (sized : Sized size) : 0 < call.room size := by
  have head := call.length_head_lt
  have large := sized.1
  rw [room]
  omega

theorem length_shown (call : LogCall) {size : ℕ} (roomy : 0 < call.room size) :
    (call.shown size).length = min call.text.length (call.room size) := by
  rw [shown, snprintf, List.length_take, List.length_append, List.length_take, List.length_singleton]
  omega

/-- The size after the line was closed. -/
def sizeAfter (call : LogCall) (size : ℕ) : ℕ :=
  if call.head.length + call.text.length + 2 ≤ size then size
  else call.head.length + call.text.length + 3

theorem sized_after (call : LogCall) {size : ℕ} (sized : Sized size) : Sized (call.sizeAfter size) := by
  have head := call.length_head_lt
  have text := call.text_lt
  obtain ⟨large, small⟩ := sized
  rw [sizeAfter]
  split_ifs <;> constructor <;> omega

end LogCall

namespace LogBuffer

/-- The buffer at each stage of a call that began with a buffer of this size. -/
def StageHolds (size : ℕ) : Stage → Buffer → Prop
  | .idle | .begun _ => Holds size [] []
  | .stampPrinted call => Holds size [] call.time.stamp
  | .stamped call => Holds size call.time.stamp []
  | .titled call => Holds size call.head []
  | .textPrinted call => Holds size call.head (call.shown size)
  | .texted call => Holds size (call.head ++ call.shown size) []
  | .closed call => Holds (call.sizeAfter size) (call.head ++ call.shown size ++ [10, 0]) []
  | .crashed => fun _ => False

/-- The call under way. -/
def Stage.call? : Stage → Option LogCall
  | .begun call | .stampPrinted call | .stamped call | .titled call | .textPrinted call | .texted call
  | .closed call => some call
  | .idle | .crashed => none

/-- The message is still to be printed. -/
def Stage.Printing : Stage → Prop
  | .begun _ | .stampPrinted _ | .stamped _ | .titled _ => True
  | .idle | .textPrinted _ | .texted _ | .closed _ | .crashed => False

/-- The buffer is as its stage says, for a call and a size at its begin that pass a test. -/
def At (P : LogCall → ℕ → Prop) (log : LogBuffer) : Prop :=
  ∃ size, Sized size ∧ (∀ call ∈ log.stage.call?, P call size) ∧ StageHolds size log.stage log.buff

/-- The stage a call goes on to. -/
def Stage.following : Stage → Stage
  | .begun call => .stampPrinted call
  | .stampPrinted call => .stamped call
  | .stamped call => .titled call
  | .titled call => .textPrinted call
  | .textPrinted call => .texted call
  | .texted call => .closed call
  | .closed _ | .idle => .idle
  | .crashed => .crashed

theorem zero_mem_closed (text : Bytes) : 0 ∈ text ++ [10, 0] :=
  List.mem_append_right _ (List.mem_cons_of_mem _ List.mem_cons_self)

/-- Either way the file gets what the buffer holds up to its terminator. -/
theorem emit_eq (log : LogBuffer) (call : LogCall) {size : ℕ} {line : Bytes} (direct : Bool)
    (holds : Holds size line [] log.buff) (ends : 0 ∈ line) :
    (log.emit call direct).stage = .idle ∧ Holds size [] [] (log.emit call direct).buff ∧
      (log.emit call direct).lines = log.lines ++ [(call, cString line)] := by
  cases direct with
  | false =>
    refine ⟨rfl, holds.retrieveAll.retrieveAll, ?_⟩
    rw [emit, if_neg Bool.false_ne_true, Buffer.retrieveAllToStr, holds.content]
  | true =>
    refine ⟨rfl, holds.retrieveAll, ?_⟩
    have content : log.buff.storage.take log.buff.writePos = line := by
      have slice := holds.content
      rwa [Buffer.content, Slice.slice, holds.readPos, List.drop_zero] at slice
    rw [emit, if_pos rfl, holds.readPos, List.drop_zero,
      ← List.take_append_drop log.buff.writePos log.buff.storage, content,
      cString_append_of_mem ends]

/-- Up to the printed text the buffer is as it should be, whatever the text. -/
theorem next_printing {size : ℕ} (sized : Sized size) {buff : Buffer} {stage : Stage}
    (lines : List (LogCall × Bytes)) (direct : Bool) (stands : StageHolds size stage buff)
    (early : stage.Printing) :
    ∃ after, next direct ⟨buff, stage, lines⟩ = ⟨after, stage.following, lines⟩ ∧
      StageHolds size stage.following after := by
  have large := sized.1
  cases stage with
  | begun call =>
    have holds : Holds size [] [] buff := stands
    have stamp : snprintf 128 call.time.stamp = call.time.stamp := snprintf_eq call.time.length_stamp
    have short := call.time.length_stamp
    obtain ⟨after, run, printed⟩ := holds.print 128 call.time.stamp (by decide) (by
      simp only [stamp, List.length_append, List.length_nil, List.length_singleton]
      omega)
    rw [stamp, List.take_left] at printed
    have moved : next direct ⟨buff, .begun call, lines⟩ =
      proceed ⟨buff, .begun call, lines⟩ (buff.print 128 call.time.stamp) (.stampPrinted call) := rfl
    rw [moved, run]
    exact ⟨after, rfl, printed⟩
  | stampPrinted call =>
    have holds : Holds size [] call.time.stamp buff := stands
    have stamped := holds.hasWritten
    rw [List.nil_append] at stamped
    exact ⟨buff.hasWritten call.time.stamp.length, rfl, stamped⟩
  | stamped call =>
    have holds : Holds size call.time.stamp [] buff := stands
    have short := call.time.length_stamp
    obtain ⟨after, run, titled⟩ := holds.append_room (Log.levelTitle call.level) (by
      rw [LogCall.length_levelTitle]
      omega)
    have moved : next direct ⟨buff, .stamped call, lines⟩ =
      proceed ⟨buff, .stamped call, lines⟩ (buff.append (Log.levelTitle call.level)) (.titled call) := rfl
    rw [moved, run]
    exact ⟨after, rfl, titled⟩
  | titled call =>
    have holds : Holds size call.head [] buff := stands
    have roomy := call.room_pos sized
    have writable : buff.writableBytes = call.room size := holds.writable
    obtain ⟨after, run, printed⟩ := holds.print (call.room size) call.text roomy (by
      rw [snprintf, List.length_append, List.length_take, List.length_singleton]
      rw [LogCall.room] at roomy ⊢
      omega)
    have moved : next direct ⟨buff, .titled call, lines⟩ =
      proceed ⟨buff, .titled call, lines⟩ (buff.print buff.writableBytes call.text)
        (.textPrinted call) := rfl
    rw [moved, writable, run]
    exact ⟨after, rfl, printed⟩
  | idle | textPrinted | texted | closed | crashed => exact early.elim

/-- From the printed text to the closed line it is so if the text has not pushed the write position past
the end. -/
theorem next_texted {size : ℕ} (sized : Sized size) {buff : Buffer} {call : LogCall}
    (lines : List (LogCall × Bytes)) (direct : Bool)
    (stands : StageHolds size (.texted call) buff) (inside : call.text.length ≤ call.room size) :
    ∃ after, next direct ⟨buff, .texted call, lines⟩ = ⟨after, .closed call, lines⟩ ∧
      StageHolds size (.closed call) after := by
  have holds : Holds size (call.head ++ call.shown size) [] buff := stands
  have length : (call.head ++ call.shown size).length = call.head.length + call.text.length := by
    rw [List.length_append, call.length_shown (call.room_pos sized), Nat.min_eq_left inside]
  have head := call.length_head_lt
  have text := call.text_lt
  have moved : next direct ⟨buff, .texted call, lines⟩ =
    proceed ⟨buff, .texted call, lines⟩ (buff.append [10, 0]) (.closed call) := rfl
  rw [moved, StageHolds, LogCall.sizeAfter]
  split_ifs with room
  · obtain ⟨after, run, closed⟩ := holds.append_room [10, 0] (by rw [length]; exact room)
    rw [run]
    exact ⟨after, rfl, closed⟩
  · obtain ⟨after, run, closed⟩ := holds.append_grow [10, 0] (by
      rw [length]
      exact Nat.lt_of_not_le room) (by
      rw [length, show [(10 : UInt8), 0].length = 2 from rfl]
      omega)
    rw [length] at closed
    rw [run]
    exact ⟨after, rfl, closed⟩

/-- A step of a call leads to the next stage and leaves the buffer as that stage says. -/
theorem at_next {P : LogCall → ℕ → Prop} {log : LogBuffer} (direct : Bool) (stands : log.At P)
    (inside : ∀ call size, ¬ log.stage.Printing → P call size → call.text.length ≤ call.room size) :
    (log.next direct).At P ∧ (log.next direct).stage = log.stage.following := by
  obtain ⟨buff, stage, lines⟩ := log
  obtain ⟨size, sized, passes, holds⟩ := stands
  cases stage with
  | idle => exact ⟨⟨size, sized, passes, holds⟩, rfl⟩
  | crashed => exact holds.elim
  | begun call | stampPrinted call | stamped call | titled call =>
    obtain ⟨after, moved, printed⟩ := next_printing sized lines direct holds trivial
    rw [moved]
    exact ⟨⟨size, sized, passes, printed⟩, rfl⟩
  | textPrinted call =>
    have printed : Holds size call.head (call.shown size) buff := holds
    have texted := printed.hasWritten
    rw [call.length_shown (call.room_pos sized),
      Nat.min_eq_left (inside call size (fun early => early) (passes call rfl))] at texted
    exact ⟨⟨size, sized, passes, texted⟩, rfl⟩
  | texted call =>
    obtain ⟨after, moved, closed⟩ := next_texted sized lines direct holds
      (inside call size (fun early => early) (passes call rfl))
    rw [moved]
    exact ⟨⟨size, sized, passes, closed⟩, rfl⟩
  | closed call =>
    obtain ⟨stage, empty, _⟩ := emit_eq ⟨buff, .closed call, lines⟩ call direct holds
      (zero_mem_closed _)
    have moved : next direct ⟨buff, .closed call, lines⟩ =
      emit ⟨buff, .closed call, lines⟩ call direct := rfl
    rw [moved]
    refine ⟨⟨call.sizeAfter size, call.sized_after sized, ?_, ?_⟩, stage⟩
    · rw [stage]
      exact fun _ none => absurd none (by simp [Stage.call?])
    · rw [stage]
      exact empty

/-- The last step of a call gives its line to the file. -/
theorem lines_next {P : LogCall → ℕ → Prop} {log : LogBuffer} {call : LogCall} (direct : Bool)
    (stands : log.At P) (closed : log.stage = .closed call) :
    ∃ size, Sized size ∧ P call size ∧
      (log.next direct).lines = log.lines ++ [(call, call.made size)] := by
  obtain ⟨buff, stage, lines⟩ := log
  obtain rfl : stage = .closed call := closed
  obtain ⟨size, sized, passes, holds⟩ := stands
  obtain ⟨_, _, emitted⟩ := emit_eq ⟨buff, .closed call, lines⟩ call direct holds
    (zero_mem_closed _)
  exact ⟨size, sized, passes call rfl, emitted⟩

/-- The other steps give it nothing. -/
theorem lines_next_of_open {log : LogBuffer} (direct : Bool)
    (goesOn : ∀ call, log.stage ≠ .closed call) : (log.next direct).lines = log.lines := by
  have proceeds (run : Except Fault Buffer) (stage : Stage) :
      (log.proceed run stage).lines = log.lines := by
    cases run <;> rfl
  rw [next]
  split
  · rfl
  · rfl
  · exact proceeds _ _
  · exact proceeds _ _
  · exact proceeds _ _
  · exact proceeds _ _
  · exact proceeds _ _
  · exact proceeds _ _
  · exact absurd ‹_› (goesOn _)

/-! ## Runs -/

/-- The positions are in order and inside, nothing was written outside, and every line is as it should
be. -/
structure Sound (log : LogBuffer) : Prop where
  alive : log.stage ≠ .crashed
  read_le : log.buff.readPos ≤ log.buff.writePos
  write_le : log.buff.writePos ≤ log.buff.storage.length
  lines : ∀ call line, (call, line) ∈ log.lines → call.IsLine line

/-- The message of a call that begins fits in the buffer as it is then. -/
def Guard (log : LogBuffer) : Action → Prop
  | .write call => call.Fits log.buff.storage.length
  | .next _ => True

theorem At.positions {P : LogCall → ℕ → Prop} {log : LogBuffer} (stands : log.At P) :
    log.stage ≠ .crashed ∧ log.buff.Wf ∧
      ∀ {size : ℕ}, log.stage = .idle → log.buff.storage.length = size → Sized size := by
  obtain ⟨size, sized, _, holds⟩ := stands
  obtain ⟨buff, stage, lines⟩ := log
  cases stage with
  | crashed => exact holds.elim
  | idle =>
    have empty : Holds size [] [] buff := holds
    refine ⟨by simp, empty.wf, ?_⟩
    rintro _ _ rfl
    rwa [empty.length]
  | begun | stampPrinted | stamped | titled | textPrinted | texted | closed =>
    refine ⟨by simp, Holds.wf holds, ?_⟩
    rintro _ idle
    cases idle

theorem start_at (P : LogCall → ℕ → Prop) : start.At P := by
  refine ⟨1024, ⟨le_rfl, by decide⟩, fun _ none => absurd none (by simp [start, Stage.call?]), ?_⟩
  exact ⟨rfl, List.length_replicate, rfl, Buffer.content_new 1024, Nat.zero_le _, slice_self _ _, by decide⟩

theorem At.begin {P : LogCall → ℕ → Prop} {log : LogBuffer} {call : LogCall} (stands : log.At P)
    (idle : log.stage = .idle) {Q : LogCall → ℕ → Prop} (test : Q call log.buff.storage.length) :
    (log.step (.write call)).At Q := by
  obtain ⟨buff, stage, lines⟩ := log
  obtain rfl : stage = .idle := idle
  obtain ⟨size, sized, _, holds⟩ := stands
  have empty : Holds size [] [] buff := holds
  refine ⟨size, sized, ?_, empty⟩
  intro other same
  cases same
  rwa [← empty.length]

theorem Fits.inside {call : LogCall} {size : ℕ} (fits : call.Fits size) :
    call.text.length ≤ call.room size := by
  rcases fits with ⟨less, _⟩ | ⟨le, _⟩
  · exact less.le
  · exact le

theorem isLine_concat {lines : List (LogCall × Bytes)} {call : LogCall} {line : Bytes}
    (before : ∀ call line, (call, line) ∈ lines → call.IsLine line) (last : call.IsLine line)
    (other : LogCall) (shown : Bytes) (member : (other, shown) ∈ lines ++ [(call, line)]) :
    other.IsLine shown := by
  rcases List.mem_append.mp member with early | late
  · exact before other shown early
  · obtain ⟨rfl, rfl⟩ := Prod.mk.inj (List.mem_singleton.mp late)
    exact last

/-- What every step of a run keeps, if the messages fit. -/
theorem step_sound {source target : LogBuffer} {action : Action} (stands : source.At LogCall.Fits)
    (lines : ∀ call line, (call, line) ∈ source.lines → call.IsLine line) (fits : source.Guard action)
    (move : machine.Step source action target) :
    target.At LogCall.Fits ∧ ∀ call line, (call, line) ∈ target.lines → call.IsLine line := by
  obtain ⟨admits, rfl⟩ := move
  cases action with
  | write call => exact ⟨stands.begin admits fits, lines⟩
  | next direct =>
    refine ⟨(at_next direct stands fun _ _ _ fits => Fits.inside fits).1, ?_⟩
    by_cases closed : ∃ call, source.stage = .closed call
    · obtain ⟨call, closed⟩ := closed
      obtain ⟨size, sized, fits, emitted⟩ := lines_next direct stands closed
      have line := (LogCall.isLine_made_iff (call.room_pos sized) (Fits.inside fits)).mpr fits
      rw [step, emitted]
      exact isLine_concat lines line
    · have same := lines_next_of_open direct fun call closes => closed ⟨call, closes⟩
      intro other line member
      exact lines other line (same ▸ member)

theorem sound_of_guarded {log : LogBuffer} (reached : (machine.restrict Guard).Reachable log) :
    log.At LogCall.Fits ∧ log.Sound := by
  have invariant : log.At LogCall.Fits ∧
      ∀ call line, (call, line) ∈ log.lines → call.IsLine line := by
    apply Reachable.invariant _ _ reached
    · rintro _ rfl
      exact ⟨start_at _, fun _ _ none => absurd none List.not_mem_nil⟩
    · rintro source action target ⟨stands, lines⟩ ⟨move, fits⟩
      exact step_sound stands lines fits move
  obtain ⟨stands, lines⟩ := invariant
  obtain ⟨alive, wf, _⟩ := stands.positions
  exact ⟨stands, alive, wf.read_le, wf.write_le, lines⟩

theorem step_next {log : LogBuffer} (busy : log.stage ≠ .idle) (alive : log.stage ≠ .crashed) :
    machine.Step log (.next true) (log.next true) := ⟨⟨busy, alive⟩, rfl⟩

theorem reachable_write {guard : LogBuffer → Action → Prop} {log : LogBuffer}
    (reached : (machine.restrict guard).Reachable log) (call : LogCall) (idle : log.stage = .idle)
    (passes : guard log (.write call)) :
    (machine.restrict guard).Reachable (log.step (.write call)) :=
  have move : machine.Step log (.write call) (log.step (.write call)) := ⟨idle, rfl⟩
  reached.step ⟨move, passes⟩

/-- A call under way goes on from stage to stage, as long as its message is not past the end. -/
theorem path_stages {P : LogCall → ℕ → Prop} (count : ℕ) {log : LogBuffer} (stands : log.At P)
    (goesOn : ∀ n < count, Stage.following^[n] log.stage ≠ .idle ∧
      ∀ call, Stage.following^[n] log.stage ≠ .closed call)
    (inside : ∀ n < count, ¬ (Stage.following^[n] log.stage).Printing →
      ∀ call size, P call size → call.text.length ≤ call.room size) :
    ∃ later, (machine.restrict Guard).Path log later ∧ later.At P ∧
      later.stage = Stage.following^[count] log.stage ∧ later.lines = log.lines := by
  induction count generalizing log with
  | zero => exact ⟨log, .refl log, stands, rfl, rfl⟩
  | succ count ih =>
    obtain ⟨busy, isOpen⟩ := goesOn 0 (Nat.succ_pos count)
    obtain ⟨nextStands, stage⟩ := at_next true stands fun call size late =>
      inside 0 (Nat.succ_pos count) late call size
    have move : machine.Step log (.next true) (log.next true) := step_next busy stands.positions.1
    have following (n : ℕ) : Stage.following^[n] (log.next true).stage =
        Stage.following^[n + 1] log.stage := by
      rw [stage, Function.iterate_succ_apply]
    obtain ⟨later, path, laterStands, last, lines⟩ := ih nextStands
      (fun n less => following n ▸ goesOn (n + 1) (Nat.succ_lt_succ less))
      (fun n less => following n ▸ inside (n + 1) (Nat.succ_lt_succ less))
    refine ⟨later, .trans (.single ⟨move, trivial⟩) path, laterStands, last.trans (following count), ?_⟩
    exact lines.trans (lines_next_of_open true isOpen)

/-- A call comes to where its message is printed. -/
theorem path_printed {P : LogCall → ℕ → Prop} {log : LogBuffer} {call : LogCall} (stands : log.At P)
    (begun : log.stage = .begun call) :
    ∃ later, (machine.restrict Guard).Path log later ∧ later.At P ∧
      later.stage = .textPrinted call ∧ later.lines = log.lines := by
  have early (n : ℕ) (less : n < 4) : (Stage.following^[n] log.stage).Printing ∧
      Stage.following^[n] log.stage ≠ .idle ∧
        ∀ call, Stage.following^[n] log.stage ≠ .closed call := by
    rw [begun]
    have cases : n = 0 ∨ n = 1 ∨ n = 2 ∨ n = 3 := by omega
    rcases cases with rfl | rfl | rfl | rfl <;> simp [Stage.following, Stage.Printing]
  obtain ⟨later, path, laterStands, stage, lines⟩ := path_stages 4 stands
    (fun n less => (early n less).2) (fun n less late => absurd (early n less).1 late)
  rw [begun] at stage
  exact ⟨later, path, laterStands, stage, lines⟩

/-- A call whose message was printed, and is not past the end, comes to its last step. -/
theorem path_closed {P : LogCall → ℕ → Prop} {log : LogBuffer} {call : LogCall} (stands : log.At P)
    (printed : log.stage = .textPrinted call)
    (inside : ∀ call size, P call size → call.text.length ≤ call.room size) :
    ∃ later, (machine.restrict Guard).Path log later ∧ later.At P ∧ later.stage = .closed call ∧
      later.lines = log.lines := by
  obtain ⟨later, path, laterStands, stage, lines⟩ := path_stages 2 stands (fun n less => by
    rw [printed]
    have cases : n = 0 ∨ n = 1 := by omega
    rcases cases with rfl | rfl <;> simp [Stage.following]) (fun _ _ _ => inside)
  rw [printed] at stage
  exact ⟨later, path, laterStands, stage, lines⟩

/-- A call whose message fits comes to its end and gives the file its line. -/
theorem path_written {log : LogBuffer} (reached : (machine.restrict Guard).Reachable log)
    (idle : log.stage = .idle) {call : LogCall} (fits : call.Fits log.buff.storage.length) :
    ∃ later line, (machine.restrict Guard).Path log later ∧ later.stage = .idle ∧
      later.lines = log.lines ++ [(call, line)] ∧ call.IsLine line := by
  have move : machine.Step log (.write call) (log.step (.write call)) := ⟨idle, rfl⟩
  have begun := (sound_of_guarded reached).1.begin idle (Q := LogCall.Fits) fits
  obtain ⟨first, before, stands, printed, lines₁⟩ := path_printed begun rfl
  obtain ⟨second, after, stands, closed, lines₂⟩ :=
    path_closed stands printed fun _ _ fits => Fits.inside fits
  have last : machine.Step second (.next true) (second.next true) :=
    step_next (by rw [closed]; simp) stands.positions.1
  have begins : (machine.restrict Guard).Path log (log.step (.write call)) := .single ⟨move, fits⟩
  have ends : (machine.restrict Guard).Path second (second.next true) := .single ⟨last, trivial⟩
  obtain ⟨size, sized, fits, emitted⟩ := lines_next true stands closed
  refine ⟨_, _, begins.trans ((before.trans after).trans ends), ?_, ?_,
    (LogCall.isLine_made_iff (call.room_pos sized) (Fits.inside fits)).mpr fits⟩
  · rw [(at_next true stands fun _ _ _ fits => Fits.inside fits).2, closed]
    rfl
  · rw [emitted, lines₂, lines₁]
    rfl

/-- A message that is longer than the room moves the write position past the end. -/
theorem unsound_of_long {log : LogBuffer} {call : LogCall} (direct : Bool)
    (stands : log.At fun call size => call.room size < call.text.length)
    (printed : log.stage = .textPrinted call) : ¬ (log.next direct).Sound := by
  obtain ⟨buff, stage, lines⟩ := log
  obtain rfl : stage = .textPrinted call := printed
  obtain ⟨size, sized, passes, holds⟩ := stands
  have holds : Holds size call.head (call.shown size) buff := holds
  have long : call.room size < call.text.length := passes call rfl
  have text := call.text_lt
  have head := call.length_head_lt
  have moved : sizeAdd buff.writePos call.text.length = call.head.length + call.text.length := by
    rw [holds.writePos]
    exact sizeAdd_eq (by omega)
  intro sound
  have inside : sizeAdd buff.writePos call.text.length ≤ buff.storage.length := sound.write_le
  rw [moved, holds.length] at inside
  rw [LogCall.room] at long
  omega

/-- One that is not, but does not fit, makes a bad line. -/
theorem unsound_of_cut {log : LogBuffer} {call : LogCall}
    (stands : log.At fun call size => call.text.length ≤ call.room size ∧ ¬ call.Fits size)
    (printed : log.stage = .textPrinted call) :
    ∃ later, machine.Path log later ∧ ¬ later.Sound := by
  obtain ⟨later, path, stands, closed, _⟩ := path_closed stands printed fun _ _ both => both.1
  have last : machine.Step later (.next true) (later.next true) :=
    step_next (by rw [closed]; simp) stands.positions.1
  refine ⟨_, path.of_restrict.trans (.single last), fun sound => ?_⟩
  obtain ⟨size, sized, ⟨within, cut⟩, emitted⟩ := lines_next true stands closed
  have line := sound.lines call (call.made size) (by
    rw [emitted]
    exact List.mem_append_right _ List.mem_cons_self)
  exact cut ((LogCall.isLine_made_iff (call.room_pos sized) within).mp line)

/-- In every run in which each message fits as it is logged, with its terminator and without another in
it (or is cut right behind a newline of its own), every step leaves the positions in order and inside the
buffer and every line as it should be, and the next message that fits gets its line. The first message
that does not fit leads to a state in which this is broken. -/
theorem sound_iff {log : LogBuffer} (reached : (machine.restrict Guard).Reachable log) :
    log.Sound ∧
      (∀ call, log.stage = .idle → ¬ call.Fits log.buff.storage.length →
        ∃ later, machine.Path (log.step (.write call)) later ∧ ¬ later.Sound) ∧
      ∀ call, log.stage = .idle → call.Fits log.buff.storage.length →
        ∃ later line, (machine.restrict Guard).Path log later ∧ later.stage = .idle ∧
          later.lines = log.lines ++ [(call, line)] ∧ call.IsLine line := by
  refine ⟨(sound_of_guarded reached).2, fun call idle misfit => ?_,
    fun call idle fits => path_written reached idle fits⟩
  have stands := (sound_of_guarded reached).1
  by_cases long : call.room log.buff.storage.length < call.text.length
  · obtain ⟨later, path, stands, printed, _⟩ := path_printed
      (stands.begin idle (Q := fun call size => call.room size < call.text.length) long) rfl
    obtain ⟨alive, _⟩ := stands.positions
    have busy : later.stage ≠ .idle := by
      rw [printed]
      simp
    exact ⟨_, path.of_restrict.trans (.single (step_next busy alive)),
      unsound_of_long true stands printed⟩
  · obtain ⟨later, path, stands, printed, _⟩ := path_printed (stands.begin idle
      (Q := fun call size => call.text.length ≤ call.room size ∧ ¬ call.Fits size)
      ⟨Nat.le_of_not_lt long, misfit⟩) rfl
    obtain ⟨last, rest, broken⟩ := unsound_of_cut stands printed
    exact ⟨last, path.of_restrict.trans rest, broken⟩

theorem start_length : start.buff.storage.length = 1024 := List.length_replicate

/-- A message of 2 bytes. -/
def shortCall : LogCall := ⟨1, Date.february.midnight, ascii "up", by decide⟩

/-- A message of 2000 bytes. -/
def longCall : LogCall :=
  ⟨1, Date.february.midnight, List.replicate 2000 97, by rw [List.length_replicate]; decide⟩

/-- A message of 3 bytes, one of which ends a string. -/
def cutCall : LogCall := ⟨1, Date.february.midnight, [97, 0, 98], by decide⟩

theorem shortCall_fits {size : ℕ} (sized : Sized size) : shortCall.Fits size := by
  have head := shortCall.length_head_lt
  have large := sized.1
  refine Or.inl ⟨?_, by decide⟩
  rw [LogCall.room, show shortCall.text.length = 2 from rfl]
  omega

theorem longCall_long (size : ℕ) (small : size ≤ 2000) : longCall.room size < longCall.text.length := by
  have head := longCall.length_head
  rw [LogCall.room, show longCall.text.length = 2000 from List.length_replicate]
  omega

theorem cutCall_cut {size : ℕ} (sized : Sized size) : ¬ cutCall.Fits size := by
  have head := cutCall.length_head_lt
  have large := sized.1
  have less : cutCall.text.length < cutCall.room size := by
    rw [LogCall.room, show cutCall.text.length = 3 from rfl]
    omega
  rw [LogCall.Fits, snprintf_eq less, not_or]
  exact ⟨fun fits => absurd fits.2 (by decide), fun fits => absurd fits.2 (by decide)⟩

/-- Two writes of the short message go well; a third message is cut by a byte of its own, and the long
one does not fit from the start. -/
theorem sound_iff_third : ∃ log : LogBuffer, log.Sound ∧ log.stage = .idle ∧
    log.lines.map (·.1) = [shortCall, shortCall] ∧
    (∃ later, machine.Path (log.step (.write cutCall)) later ∧ ¬ later.Sound) ∧
    ∃ later, machine.Path (start.step (.write longCall)) later ∧ ¬ later.Sound := by
  have started : (machine.restrict Guard).Reachable start := .init rfl
  have sized {log : LogBuffer} (reached : (machine.restrict Guard).Reachable log)
      (idle : log.stage = .idle) : Sized log.buff.storage.length :=
    (sound_of_guarded reached).1.positions.2.2 idle rfl
  obtain ⟨first, _, before, idle₁, lines₁, _⟩ :=
    (sound_iff started).2.2 shortCall rfl (shortCall_fits (sized started rfl))
  have reached₁ := started.path before
  obtain ⟨second, _, after, idle₂, lines₂, _⟩ :=
    (sound_iff reached₁).2.2 shortCall idle₁ (shortCall_fits (sized reached₁ idle₁))
  have reached₂ := reached₁.path after
  obtain ⟨sound, breaks, _⟩ := sound_iff reached₂
  refine ⟨second, sound, idle₂, ?_, breaks cutCall idle₂ (cutCall_cut (sized reached₂ idle₂)), ?_⟩
  · rw [lines₂, lines₁]
    rfl
  · apply (sound_iff started).2.1 longCall rfl
    intro fits
    rw [start_length] at fits
    exact absurd (Fits.inside fits) (Nat.not_le.mpr (longCall_long 1024 (by omega)))

/-- The long message breaks it from the start. -/
theorem not_forall_sound : ¬ ∀ log, machine.Reachable log → log.Sound := by
  intro sound
  have started : (machine.restrict fun _ _ => True).Reachable start := .init rfl
  have reached := (reachable_write started longCall rfl trivial).of_restrict
  have begun : (start.step (.write longCall)).At
      (fun call size => call.room size < call.text.length) :=
    (start_at fun _ _ => True).begin rfl (longCall_long _ (start_length.trans_le (by omega)))
  obtain ⟨later, path, stands, printed, _⟩ := path_printed begun rfl
  have busy : later.stage ≠ .idle := by
    rw [printed]
    simp
  exact unsound_of_long true stands printed
    (sound _ ((reached.path path.of_restrict).step (step_next busy stands.positions.1)))

end LogBuffer

end XWebServer
