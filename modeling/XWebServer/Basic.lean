import Mathlib.Algebra.Order.Ring.Int

/-! # Bytes, `size_t` arithmetic, and the ways a run can break off

Byte strings are lists. Sizes are natural numbers below `2 ^ 64`, and the two operations that can
leave that range are the wrapping `sizeAdd` and `sizeSub`. A function of the source that can abort,
or reach an access the language leaves undefined, returns `Except Fault`.
-/

namespace XWebServer

abbrev Bytes := List UInt8

/-- The bytes of an ASCII string literal. -/
def ascii (literal : String) : Bytes := literal.toList.map fun char => UInt8.ofNat char.toNat

/-- The signals that can end the process inside a call. The source handles none. -/
inductive Signal where
  /-- `writev` finds that the peer is gone -/
  | pipe
  /-- `std::regex` recurses over a long line until the stack is used up -/
  | segv
deriving DecidableEq, Repr

/-- Why the process does not get past an operation. -/
inductive Fault where
  /-- a failed `assert` aborts -/
  | assertion
  /-- an index past the end of a vector -/
  | outOfRange
  /-- a read through the pointer a failed `mmap` returned -/
  | badMapping
  /-- a signal that nobody handles -/
  | killed (signal : Signal)
deriving DecidableEq, Repr

/-- The `errno` values the server tells apart. -/
inductive Errno where
  | eagain
  | other
deriving DecidableEq, Repr

def assert (condition : Prop) [Decidable condition] : Except Fault Unit :=
  if condition then .ok () else .error .assertion

@[simp] theorem assert_of {condition : Prop} [Decidable condition] (holds : condition) :
    assert condition = .ok () := if_pos holds

@[simp] theorem ok_bind {α β : Type} (value : α) (next : α → Except Fault β) :
    (Except.ok value >>= next) = next value := rfl

@[simp] theorem error_bind {α β : Type} (fault : Fault) (next : α → Except Fault β) :
    (Except.error fault >>= next) = .error fault := rfl

/-- A sequence that succeeds is made of parts that do. -/
theorem bind_ok {α β : Type} {first : Except Fault α} {next : α → Except Fault β} {result : β}
    (run : first >>= next = .ok result) : ∃ value, first = .ok value ∧ next value = .ok result := by
  cases first with
  | error fault => cases run
  | ok value => exact ⟨value, rfl, run⟩

theorem map_ok {α β : Type} {first : Except Fault α} {f : α → β} {result : β}
    (run : first.map f = .ok result) : ∃ value, first = .ok value ∧ f value = result := by
  cases first with
  | error fault => cases run
  | ok value => exact ⟨value, rfl, Except.ok.inj run⟩

/-- `a + b` on `size_t`. -/
def sizeAdd (a b : ℕ) : ℕ := (a + b) % 2 ^ 64

/-- `a - b` on `size_t`. -/
def sizeSub (a b : ℕ) : ℕ := (a + (2 ^ 64 - b % 2 ^ 64)) % 2 ^ 64

theorem sizeAdd_eq {a b : ℕ} (small : a + b < 2 ^ 64) : sizeAdd a b = a + b :=
  Nat.mod_eq_of_lt small

theorem sizeSub_eq {a b : ℕ} (le : b ≤ a) (small : a < 2 ^ 64) : sizeSub a b = a - b := by
  rw [sizeSub]
  omega

end XWebServer
