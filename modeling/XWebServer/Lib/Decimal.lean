import Mathlib.Algebra.Group.Nat.Defs
import Mathlib.Data.List.Basic
import Mathlib.Data.Nat.Basic
import Mathlib.Tactic.TypeStar

/-! # Decimal numerals as bytes

`padded width n` is the numeral of `n` with zeros in front up to the width, as `printf` writes it. Its
length is known, it has only digits, and the number can be read off it. `eq_of_append_cons` takes texts
apart at the first separator.
-/

namespace Decimal

/-- The ASCII code of a digit. -/
def digitByte (char : Char) : UInt8 := UInt8.ofNat char.toNat

/-- `%0<width>d` of a number that is not negative. -/
def padded (width n : ℕ) : List UInt8 :=
  List.replicate (width - (Nat.toDigits 10 n).length) 48 ++ (Nat.toDigits 10 n).map digitByte

/-- `%d`. -/
def numeral (n : ℤ) : List UInt8 := if n < 0 then 45 :: padded 0 n.natAbs else padded 0 n.natAbs

theorem digit_range {n : ℕ} {char : Char} (digit : char ∈ Nat.toDigits 10 n) :
    48 ≤ char.toNat ∧ char.toNat ≤ 57 := by
  have isDigit := Nat.isDigit_of_mem_toDigits (by decide) (by decide) digit
  simpa [Char.isDigit, UInt32.le_iff_toNat_le] using isDigit

theorem toNat_digitByte {char : Char} (range : 48 ≤ char.toNat ∧ char.toNat ≤ 57) :
    (digitByte char).toNat = char.toNat := by
  rw [digitByte, UInt8.toNat_ofNat']
  omega

/-- A numeral has only digits. -/
theorem mem_padded {width n : ℕ} {byte : UInt8} (member : byte ∈ padded width n) :
    48 ≤ byte.toNat ∧ byte.toNat ≤ 57 := by
  rcases List.mem_append.mp member with zero | digit
  · rw [List.eq_of_mem_replicate zero]
    decide
  · obtain ⟨char, found, rfl⟩ := List.mem_map.mp digit
    rw [toNat_digitByte (digit_range found)]
    exact digit_range found

theorem length_padded (width n : ℕ) :
    (padded width n).length = max width (Nat.toDigits 10 n).length := by
  rw [padded, List.length_append, List.length_replicate, List.length_map]
  omega

theorem length_padded_le {width digits n : ℕ} (some : 0 < digits) (small : n < 10 ^ digits) :
    (padded width n).length ≤ max width digits := by
  have few := (Nat.length_toDigits_le_iff (n := n) (show 1 < 10 by decide) some).mpr small
  rw [length_padded]
  omega

/-- A number that fits into the width fills it. -/
theorem length_padded_of_lt {width n : ℕ} (some : 0 < width) (small : n < 10 ^ width) :
    (padded width n).length = width := by
  have few : (padded width n).length ≤ max width width := length_padded_le some small
  have enough := length_padded width n
  omega

/-- The number of a numeral. -/
def value (numeral : List UInt8) : ℕ :=
  numeral.foldl (fun number byte => 10 * number + (byte.toNat - 48)) 0

theorem foldl_digits {chars : List Char} {number : ℕ}
    (range : ∀ char ∈ chars, 48 ≤ char.toNat ∧ char.toNat ≤ 57) :
    (chars.map digitByte).foldl (fun number byte => 10 * number + (byte.toNat - 48)) number =
      Nat.ofDigitChars 10 chars number := by
  induction chars generalizing number with
  | nil => simp
  | cons char chars ih =>
    rw [List.map_cons, List.foldl_cons, toNat_digitByte (range char List.mem_cons_self),
      ih fun other member => range other (List.mem_cons_of_mem _ member), Nat.ofDigitChars_cons]
    rfl

theorem value_padded (width n : ℕ) : value (padded width n) = n := by
  have zeros (count : ℕ) : (List.replicate count (48 : UInt8)).foldl
      (fun number byte => 10 * number + (byte.toNat - 48)) 0 = 0 := by
    induction count with
    | zero => rfl
    | succ count ih => rw [List.replicate_succ, List.foldl_cons]; exact ih
  rw [value, padded, List.foldl_append, zeros, foldl_digits fun _ => digit_range,
    Nat.ofDigitChars_ten_toDigits]

/-- Two numbers with one numeral are the same. -/
theorem padded_inj {width width' m n : ℕ} (same : padded width m = padded width' n) : m = n := by
  rw [← value_padded width m, same, value_padded]

/-- A byte that is no digit is in no numeral. -/
theorem notMem_padded {width n : ℕ} {byte : UInt8} (other : byte.toNat < 48 ∨ 57 < byte.toNat) :
    byte ∉ padded width n := by
  intro member
  have range := mem_padded member
  omega

/-- Texts are the same up to the first separator and after it. -/
theorem eq_of_append_cons {α : Type*} {mark : α} {front front' rest rest' : List α}
    (free : mark ∉ front) (free' : mark ∉ front')
    (same : front ++ mark :: rest = front' ++ mark :: rest') : front = front' ∧ rest = rest' := by
  induction front generalizing front' with
  | nil =>
    cases front' with
    | nil => exact ⟨rfl, (List.cons.inj same).2⟩
    | cons first front' => exact absurd (List.mem_cons.mpr (Or.inl (List.cons.inj same).1)) free'
  | cons first front ih =>
    cases front' with
    | nil => exact absurd (List.mem_cons.mpr (Or.inl (List.cons.inj same).1.symm)) free
    | cons first' front' =>
      obtain ⟨rfl, tail⟩ := List.cons.inj same
      obtain ⟨rfl, rests⟩ := ih (fun member => free (List.mem_cons_of_mem _ member))
        (fun member => free' (List.mem_cons_of_mem _ member)) tail
      exact ⟨rfl, rests⟩

end Decimal
