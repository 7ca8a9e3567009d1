import Mathlib.Data.List.Basic
import Mathlib.Data.List.Infix
import Mathlib.Tactic.TypeStar

/-! # Messages that tell their own end

A `Reader` takes one message off the front of a stream, and what it takes does not depend on what has
not come yet. Reading message after message then recovers any messages that were written one behind
the other, and of a stream that breaks off, those that are complete (`readAll_prefix`).
-/

/-- Takes a message off the front. -/
structure Reader (α M : Type*) where
  read : List α → Option (M × List α)
  shorter {input rest : List α} {message : M} : read input = some (message, rest) →
    rest.length < input.length
  more {input rest : List α} {message : M} (later : List α) :
    read input = some (message, rest) → read (input ++ later) = some (message, rest ++ later)

namespace Reader

variable {α M : Type*} (reader : Reader α M)

def readWithin : ℕ → List α → List M × List α
  | 0, input => ([], input)
  | fuel + 1, input =>
      match reader.read input with
      | none => ([], input)
      | some (message, rest) =>
          (message :: (readWithin fuel rest).1, (readWithin fuel rest).2)

/-- The messages at the front, and what follows the last of them. Each takes something, so the length
of the input is enough fuel (`readAll_eq`). -/
def readAll (input : List α) : List M × List α := reader.readWithin input.length input

variable {reader}

theorem read_nil : reader.read [] = none := by
  cases found : reader.read [] with
  | none => rfl
  | some pair => exact absurd (reader.shorter found) (Nat.not_lt_zero _)

/-- More fuel changes nothing. -/
theorem readWithin_eq {fuel : ℕ} {input : List α} (enough : input.length ≤ fuel) :
    reader.readWithin fuel input = reader.readAll input := by
  rw [readAll]
  induction fuel using Nat.strong_induction_on generalizing input with
  | _ fuel ih =>
    cases size : input.length with
    | zero =>
      obtain rfl := List.length_eq_zero_iff.mp size
      cases fuel with
      | zero => rfl
      | succ fuel => simp only [readWithin, read_nil]
    | succ smaller =>
      obtain ⟨fuel, rfl⟩ := Nat.exists_eq_succ_of_ne_zero (show fuel ≠ 0 by omega)
      rw [readWithin, readWithin]
      cases found : reader.read input with
      | none => rfl
      | some pair =>
        have shorter := reader.shorter found
        have tail : reader.readWithin fuel pair.2 = reader.readWithin smaller pair.2 :=
          (ih fuel (by omega) (by omega)).trans (ih smaller (by omega) (by omega)).symm
        simp only [tail]

theorem readAll_none {input : List α} (none : reader.read input = none) :
    reader.readAll input = ([], input) := by
  rw [readAll]
  cases input.length with
  | zero => rfl
  | succ fuel => rw [readWithin, none]

theorem readAll_some {input rest : List α} {message : M}
    (found : reader.read input = some (message, rest)) :
    reader.readAll input = (message :: (reader.readAll rest).1, (reader.readAll rest).2) := by
  have shorter := reader.shorter found
  obtain ⟨fuel, size⟩ := Nat.exists_eq_succ_of_ne_zero (show input.length ≠ 0 by omega)
  rw [readAll, size, readWithin, found]
  simp only
  rw [readWithin_eq (by omega)]

/-- The bytes of a message are read as that message, with nothing left. -/
def Reads (reader : Reader α M) (bytes : List α) (message : M) : Prop :=
  reader.read bytes = some (message, [])

/-- A part of a message is not read. -/
theorem Reads.read_part {bytes part : List α} {message : M} (reads : reader.Reads bytes message)
    (isPart : part <+: bytes) (proper : part ≠ bytes) : reader.read part = none := by
  obtain ⟨rest, rfl⟩ := isPart
  cases found : reader.read part with
  | none => rfl
  | some pair =>
    have whole := reader.more rest found
    rw [Reads] at reads
    rw [reads, Option.some.injEq, Prod.mk.injEq] at whole
    obtain ⟨_, none⟩ := List.append_eq_nil_iff.mp whole.2.symm
    rw [none, List.append_nil] at proper
    exact absurd rfl proper

/-- Messages written one behind the other are read back. -/
theorem readAll_flatten {texts : List (List α)} {messages : List M}
    (reads : List.Forall₂ reader.Reads texts messages) :
    reader.readAll texts.flatten = (messages, []) := by
  induction reads with
  | nil => exact readAll_none read_nil
  | @cons text message texts messages first others ih =>
    have further := reader.more texts.flatten first
    rw [List.nil_append] at further
    rw [List.flatten_cons, readAll_some further, ih]

/-- Of a front of messages written one behind the other, those that are complete are read, and nothing
of the next one. -/
theorem readAll_prefix {texts : List (List α)} {messages : List M}
    (reads : List.Forall₂ reader.Reads texts messages) {front : List α}
    (isFront : front <+: texts.flatten) :
    ∃ (done left : List (List α)) (rest : List α), texts = done ++ left ∧
      front = done.flatten ++ rest ∧ reader.readAll front = (messages.take done.length, rest) ∧
      (left = [] → rest = []) ∧
      ∀ next after, left = next :: after → rest <+: next ∧ rest ≠ next := by
  induction reads generalizing front with
  | nil =>
    obtain rfl : front = [] := List.prefix_nil.mp isFront
    refine ⟨[], [], [], rfl, rfl, readAll_none read_nil, fun _ => rfl, ?_⟩
    intro next after split
    cases split
  | @cons text message texts messages first others ih =>
    by_cases whole : text <+: front
    · obtain ⟨later, rfl⟩ := whole
      rw [List.flatten_cons, List.prefix_append_right_inj] at isFront
      obtain ⟨done, left, rest, split, front, found, ends, part⟩ := ih isFront
      have further := reader.more later first
      rw [List.nil_append] at further
      refine ⟨text :: done, left, rest, by rw [split, List.cons_append], ?_, ?_, ends, part⟩
      · rw [List.flatten_cons, List.append_assoc, ← front]
      · rw [readAll_some further, found, List.length_cons, List.take_succ_cons]
    · have part : front <+: text := by
        rw [List.flatten_cons] at isFront
        exact (List.prefix_or_prefix_of_prefix isFront (List.prefix_append ..)).resolve_right whole
      have proper : front ≠ text := fun same => whole (same ▸ List.prefix_refl _)
      refine ⟨[], text :: texts, front, rfl, rfl, readAll_none (first.read_part part proper), ?_, ?_⟩
      · intro none
        cases none
      · intro next after split
        obtain ⟨rfl, _⟩ := List.cons.inj split
        exact ⟨part, proper⟩

end Reader
