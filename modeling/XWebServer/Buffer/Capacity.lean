import XWebServer.Buffer.Queue

/-! # How large a `Buffer` gets

`MakeSpace` resizes only when the free bytes before and behind the content do not suffice, so the front
part that a resize wastes is smaller than the bytes asked for. The vector is never more than twice as long
as the most bytes it has had to hold, if that is more than its first size; and no size wraps. Below `2 ^ 62` bytes
this stays under `max_size()`, so that `resize` throws only when there is no memory.
-/

namespace XWebServer

open Slice Transition System

namespace Buffer

/-- The bytes that the vector has to hold for a call, with those the client only reserves. -/
def Op.demand (queue : Bytes) : Op → ℕ
  | .ensureWriteable len => queue.length + len
  | op => (op.effect queue).1.length

/-- The vector gets no shorter, and no longer than it has to be for some bytes behind the content. -/
structure Grown (b next : Buffer) (len : ℕ) : Prop where
  longer : b.storage.length ≤ next.storage.length
  bound : next.storage.length ≤ max b.storage.length (b.writePos - b.readPos + 2 * len)

theorem grown_refl (b : Buffer) (len : ℕ) : Grown b b len := ⟨le_rfl, le_max_left ..⟩

/-- A resize is asked for only when the bytes already read are fewer than the new ones. -/
theorem Wf.ensureWriteable_grown {b next : Buffer} (wf : b.Wf) {len : ℕ} (fits : b.Fits len)
    (run : b.ensureWriteable len = .ok next) : Grown b next len := by
  have := wf.read_le
  have := wf.write_le
  rcases Nat.lt_or_ge (b.storage.length - b.writePos) len with lacking | enough
  · rcases Nat.lt_or_ge (b.storage.length - b.writePos + b.readPos) len with short | free
    · have small := fits.resolve_left (Nat.not_le.mpr short)
      obtain ⟨_, made, nextWf, _, room⟩ := wf.makeSpace_grow short small
      have same := wf.ensureWriteable_made lacking made nextWf room
      rw [wf.makeSpace_longer short small] at made
      rw [same] at run
      obtain rfl := Except.ok.inj (made.trans run)
      refine ⟨?_, le_max_of_le_right ?_⟩
      all_goals
        rw [length_resize]
        omega
    · obtain ⟨_, made, nextWf, _, room⟩ := wf.makeSpace_compact free
      have same := wf.ensureWriteable_made lacking made nextWf room
      rw [wf.makeSpace_front free] at made
      rw [same] at run
      obtain rfl := Except.ok.inj (made.trans run)
      have inside : 0 + b.content.length ≤ b.storage.length := by
        rw [wf.content_length, wf.readable_eq]
        omega
      have size : (overwrite b.storage 0 b.content).length = b.storage.length := length_overwrite inside
      exact ⟨size.ge, le_max_of_le_left size.le⟩
  · rw [wf.ensureWriteable_enough enough] at run
    obtain rfl := Except.ok.inj run
    exact grown_refl b len

theorem Wf.append_grown {b next : Buffer} (wf : b.Wf) {bytes : Bytes} (fits : b.Fits bytes.length)
    (run : b.append bytes = .ok next) : Grown b next bytes.length := by
  obtain ⟨roomy, made, roomyWf, _, room⟩ := wf.ensureWriteable fits
  obtain ⟨written, stored, _, _, size, _⟩ := roomyWf.store_hasWritten room
  have grown := wf.ensureWriteable_grown fits made
  simp only [Buffer.append, made, ok_bind, stored, Except.ok.injEq] at run
  obtain rfl := run
  exact ⟨grown.longer.trans size.ge, size.le.trans grown.bound⟩

/-- A read that spills appends to a vector that is full. -/
theorem Wf.readFd_grown {b next : Buffer} (wf : b.Wf) {bytes : Bytes} (fits : b.SpillFits bytes)
    (run : b.readFd (.data bytes) = .ok next) :
    b.storage.length ≤ next.storage.length ∧
      next.storage.length ≤ max b.storage.length (2 * (b.writePos - b.readPos + bytes.length)) := by
  have writable := wf.writable_eq
  have := wf.read_le
  have := wf.write_le
  have front : (bytes.take b.writableBytes).length ≤ b.storage.length - b.writePos := by
    rw [List.length_take]
    omega
  obtain ⟨filled, stored, filledWf, extended, size, position⟩ := wf.store_hasWritten front
  simp only [Buffer.readFd, stored, ok_bind] at run
  split_ifs at run with small
  · obtain rfl := Except.ok.inj run
    exact ⟨size.ge, le_max_of_le_left size.le⟩
  · have readPos : filled.readPos = b.readPos := by
      have inside : b.writePos + (bytes.take b.writableBytes).length ≤ b.storage.length := by omega
      rw [store_ok inside] at stored
      obtain rfl := Except.ok.inj stored
      rfl
    have full : (bytes.take b.writableBytes).length = b.storage.length - b.writePos := by
      rw [List.length_take]
      omega
    have same : filled.hasWritten (bytes.take b.writableBytes).length =
        { filled with writePos := filled.storage.length } := by
      rw [← show (filled.hasWritten (bytes.take b.writableBytes).length).writePos =
        filled.storage.length by omega]
      rfl
    rw [same] at filledWf
    have spill : Fits { filled with writePos := filled.storage.length }
        (bytes.drop b.writableBytes).length := by
      have fit := fits.resolve_left small
      rw [List.length_drop]
      simpa only [Fits, size, readPos] using fit
    have grown := filledWf.append_grown spill run
    have bound := grown.bound
    rw [List.length_drop] at bound
    dsimp only at bound
    rw [size, readPos] at bound
    refine ⟨size.ge.trans grown.longer, bound.trans ?_⟩
    rw [max_le_iff]
    constructor
    · exact le_max_left ..
    · apply le_max_of_le_right
      omega

/-- The vector after a call of a run whose demands are at most `most`. -/
def Bounded (initBuffSize most : ℕ) (b : Buffer) : Prop :=
  initBuffSize ≤ b.storage.length ∧ b.storage.length ≤ max initBuffSize (2 * most)

theorem Bounded.of_grown {initBuffSize most len : ℕ} {b next : Buffer}
    (bounded : Bounded initBuffSize most b) (grown : Grown b next len)
    (demand : b.writePos - b.readPos + len ≤ most) : Bounded initBuffSize most next := by
  refine ⟨bounded.1.trans grown.longer, grown.bound.trans (max_le bounded.2 ?_)⟩
  exact le_max_of_le_right (by omega)

theorem Bounded.congr {initBuffSize most : ℕ} {b next : Buffer} (bounded : Bounded initBuffSize most b)
    (same : next.storage.length = b.storage.length) : Bounded initBuffSize most next := by
  rw [Bounded, same]
  exact bounded

section

variable {initBuffSize most : ℕ} {state : Paired} {op : Op}

/-- Bytes that have to be held next to the content do not make a size wrap. -/
theorem Refines.fits (refines : Refines state) (small : most < 2 ^ 63) {len : ℕ}
    (demand : state.2.length + len ≤ most) : state.1.Fits len := by
  obtain ⟨wf, content⟩ := refines
  have readable := wf.content_length.trans wf.readable_eq
  have := wf.read_le
  have := wf.write_le
  rw [content] at readable
  rw [Fits]
  omega

theorem Refines.noWrap (refines : Refines state) (small : most < 2 ^ 63)
    (demand : op.demand state.2 ≤ most) : op.NoWrap state.1 := by
  have appended {bytes : Bytes} (demand : (state.2 ++ bytes).length ≤ most) :
      state.2.length + bytes.length ≤ most := by rwa [List.length_append] at demand
  cases op with
  | append bytes => exact refines.fits small (appended demand)
  | ensureWriteable len => exact refines.fits small demand
  | readFd outcome =>
    cases outcome with
    | error errno => trivial
    | data bytes =>
      have fits := appended demand
      obtain ⟨wf, content⟩ := refines
      have readable := wf.content_length.trans wf.readable_eq
      have writable := wf.writable_eq
      have := wf.read_le
      have := wf.write_le
      rw [content] at readable
      change _ ∨ Fits _ _
      rw [Fits, writable]
      dsimp only
      omega
  | hasWritten | retrieve | retrieveUntil | retrieveAll | retrieveAllToStr | writeFd => trivial

/-- What one call does to the size of the vector. -/
theorem Refines.bounded (refines : Refines state) (small : most < 2 ^ 63)
    (demand : op.demand state.2 ≤ most) (allowed : op.Allowed state.1)
    (bounded : Bounded initBuffSize most state.1) {next : Buffer} {out : Bytes}
    (run : state.1.exec op = .ok (next, out)) : Bounded initBuffSize most next := by
  have noWrap := refines.noWrap small demand
  obtain ⟨wf, content⟩ := refines
  have readable := wf.content_length.trans wf.readable_eq
  rw [content] at readable
  cases op with
  | append bytes =>
    obtain ⟨appended, made, ends⟩ := bind_ok run
    obtain ⟨rfl, _⟩ := Prod.mk.inj (Except.ok.inj ends)
    have demand : (state.2 ++ bytes).length ≤ most := demand
    rw [List.length_append, readable] at demand
    exact bounded.of_grown (wf.append_grown noWrap made) demand
  | ensureWriteable len =>
    obtain ⟨roomy, made, ends⟩ := bind_ok run
    obtain ⟨rfl, _⟩ := Prod.mk.inj (Except.ok.inj ends)
    have demand : state.2.length + len ≤ most := demand
    rw [readable] at demand
    exact bounded.of_grown (wf.ensureWriteable_grown noWrap made) demand
  | readFd outcome =>
    obtain ⟨received, made, ends⟩ := bind_ok run
    obtain ⟨rfl, _⟩ := Prod.mk.inj (Except.ok.inj ends)
    cases outcome with
    | error errno =>
      obtain rfl := Except.ok.inj made
      exact bounded
    | data bytes =>
      have demand : (state.2 ++ bytes).length ≤ most := demand
      rw [List.length_append, readable] at demand
      obtain ⟨longer, bound⟩ := wf.readFd_grown noWrap made
      refine ⟨bounded.1.trans longer, bound.trans (max_le bounded.2 ?_)⟩
      exact le_max_of_le_right (by omega)
  | hasWritten bytes =>
    obtain ⟨written, stored, ends⟩ := bind_ok run
    obtain ⟨rfl, _⟩ := Prod.mk.inj (Except.ok.inj ends)
    have room : bytes.length ≤ state.1.storage.length - state.1.writePos := by
      rw [← wf.writable_eq]
      exact allowed
    obtain ⟨other, same, _, _, size, _⟩ := wf.store_hasWritten room
    obtain rfl := Except.ok.inj (same.symm.trans stored)
    exact bounded.congr size
  | retrieve len =>
    obtain ⟨dropped, made, ends⟩ := bind_ok run
    obtain ⟨rfl, _⟩ := Prod.mk.inj (Except.ok.inj ends)
    obtain ⟨_, _, made⟩ := bind_ok made
    obtain rfl := Except.ok.inj made
    exact bounded
  | retrieveUntil offset =>
    obtain ⟨dropped, made, ends⟩ := bind_ok run
    obtain ⟨rfl, _⟩ := Prod.mk.inj (Except.ok.inj ends)
    obtain ⟨_, _, made⟩ := bind_ok made
    obtain ⟨_, _, made⟩ := bind_ok made
    obtain rfl := Except.ok.inj made
    exact bounded
  | retrieveAll | retrieveAllToStr =>
    obtain ⟨rfl, _⟩ := Prod.mk.inj (Except.ok.inj run)
    exact bounded.congr List.length_replicate
  | writeFd outcome =>
    obtain ⟨rfl, _⟩ := Prod.mk.inj (Except.ok.inj run)
    cases outcome with
    | error errno => exact bounded
    | accepted count => exact bounded

end

/-- A call never makes the vector shorter. -/
theorem Refines.longer {most : ℕ} {state : Paired} {op : Op} (refines : Refines state)
    (small : most < 2 ^ 63) (demand : op.demand state.2 ≤ most) (allowed : op.Allowed state.1)
    {next : Buffer} {out : Bytes} (run : state.1.exec op = .ok (next, out)) :
    state.1.storage.length ≤ next.storage.length := by
  have asItIs : Bounded state.1.storage.length most state.1 := ⟨le_rfl, le_max_left ..⟩
  exact (refines.bounded small demand allowed asItIs run).1

/-- The runs whose calls never ask for more bytes to be held. -/
def demanding (initBuffSize most : ℕ) : System Paired Op :=
  (system initBuffSize).restrict fun source op => op.demand source.2 ≤ most

/-- A call of such a run keeps the queue and the bound. -/
theorem Refines.demanding_step {initBuffSize most : ℕ} {source target : Paired} {op : Op}
    (refines : Refines source) (small : most < 2 ^ 63)
    (move : (demanding initBuffSize most).Step source op target) :
    Refines target ∧ source.1.storage.length ≤ target.1.storage.length ∧
      (Bounded initBuffSize most source.1 → Bounded initBuffSize most target.1) := by
  obtain ⟨⟨allowed, ⟨out, run⟩, queue⟩, demand⟩ := move
  obtain ⟨next, expected, kept⟩ := refines.exec allowed (refines.noWrap small demand)
  have longer := refines.longer small demand allowed run
  have bounded (before : Bounded initBuffSize most source.1) :=
    refines.bounded small demand allowed before run
  rw [expected] at run
  obtain ⟨rfl, rfl⟩ := Prod.mk.inj (Except.ok.inj run)
  rw [← queue] at kept
  exact ⟨kept, longer, bounded⟩

/-- In every run of allowed calls that never ask for more than `most` bytes to be held, the vector is at
most twice as long, or as it was at first, and as long as a vector can be; it never gets shorter, no size
wraps, and the next such call does what the queue says. -/
theorem capacity_of_demand {initBuffSize most : ℕ} (int : initBuffSize < 2 ^ 31) (small : most < 2 ^ 62)
    {state : Paired} (reached : (demanding initBuffSize most).Reachable state) :
    Bounded initBuffSize most state.1 ∧ state.1.storage.length < 2 ^ 63 ∧
      (∀ later, (demanding initBuffSize most).Path state later →
        state.1.storage.length ≤ later.1.storage.length) ∧
      ∀ op : Op, op.Allowed state.1 → op.demand state.2 ≤ most → Faithful state op := by
  have small' : most < 2 ^ 63 := by omega
  have kept : Refines state ∧ Bounded initBuffSize most state.1 := by
    refine reached.invariant (P := fun state => Refines state ∧ Bounded initBuffSize most state.1) ?_ ?_
    · rintro start rfl
      have size : (new initBuffSize).storage.length = initBuffSize := List.length_replicate
      exact ⟨⟨new_wf (by omega), content_new _⟩, size.ge, size.le.trans (le_max_left ..)⟩
    · rintro source op target ⟨refines, bounded⟩ move
      obtain ⟨after, _, keeps⟩ := refines.demanding_step small' move
      exact ⟨after, keeps bounded⟩
  obtain ⟨refines, bounded⟩ := kept
  have limit := bounded.2
  refine ⟨bounded, by omega, fun later path => ?_, fun op allowed demand => ?_⟩
  · refine (Path.relates (R := fun first last => first.1.storage.length ≤ last.1.storage.length)
      (fun _ => le_rfl) (fun _ _ _ => le_trans) ?_ refines path).2
    intro source op target refines move
    obtain ⟨after, longer, _⟩ := refines.demanding_step small' move
    exact ⟨after, longer⟩
  · obtain ⟨next, run, after⟩ := refines.exec allowed (refines.noWrap small' demand)
    exact ⟨refines.holds, next, run, after.holds⟩

/-- Three bytes in a vector of two: it becomes four long, and a read of three more may make it ten. -/
theorem capacity_of_demand_append : Bounded 2 6 ⟨[71, 69, 84, 0], 0, 3⟩ ∧
    Faithful (⟨[71, 69, 84, 0], 0, 3⟩, [71, 69, 84]) (.readFd (.data [32, 47, 32])) := by
  have first : (demanding 2 6).Reachable (new 2, []) := .init rfl
  have move : (demanding 2 6).Step (new 2, []) (.append [71, 69, 84])
      (⟨[71, 69, 84, 0], 0, 3⟩, [71, 69, 84]) :=
    ⟨⟨trivial, ⟨[], by decide +kernel⟩, rfl⟩, by decide⟩
  obtain ⟨bounded, _, _, faithful⟩ := capacity_of_demand (by decide) (by decide) (.step first move)
  exact ⟨bounded, faithful _ trivial (by decide)⟩

end Buffer

end XWebServer
