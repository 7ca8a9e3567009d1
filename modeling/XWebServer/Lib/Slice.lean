import Mathlib.Data.List.Basic
import Mathlib.Data.Nat.Basic
import Mathlib.Data.List.TakeDrop
import Mathlib.Tactic.TypeStar

/-! # Index ranges of a list and writes over them

`slice xs lo hi` is what lies at the indices from `lo` up to `hi`, and `overwrite xs pos ys` stores
`ys` at `pos`. The lemmas say how slices split, which slices a write leaves alone and which one it
determines.
-/

namespace Slice

variable {α : Type*}

/-- The elements at the indices `lo ≤ i < hi`. -/
def slice (xs : List α) (lo hi : ℕ) : List α := (xs.take hi).drop lo

/-- Replace the elements from `pos` on by `ys`. -/
def overwrite (xs : List α) (pos : ℕ) (ys : List α) : List α :=
  xs.take pos ++ ys ++ xs.drop (pos + ys.length)

/-- A vector's `resize`: cut or extend by the default value. -/
def resize (xs : List α) (size : ℕ) (fill : α) : List α :=
  xs.take size ++ List.replicate (size - xs.length) fill

theorem length_slice {xs : List α} {lo hi : ℕ} (inside : hi ≤ xs.length) :
    (slice xs lo hi).length = hi - lo := by
  simp only [slice, List.length_drop, List.length_take]
  omega

@[simp] theorem slice_self (xs : List α) (pos : ℕ) : slice xs pos pos = [] := by
  rw [slice, List.drop_eq_nil_iff, List.length_take]
  exact Nat.min_le_left ..

@[simp] theorem slice_whole (xs : List α) : slice xs 0 xs.length = xs := by simp [slice]

/-- Adjacent slices concatenate. -/
theorem slice_append (xs : List α) {lo mid hi : ℕ} (first : lo ≤ mid) (second : mid ≤ hi) :
    slice xs lo mid ++ slice xs mid hi = slice xs lo hi := by
  simp only [slice]
  have split : xs.take hi = xs.take mid ++ (xs.take hi).drop mid := by
    conv_lhs => rw [← List.take_append_drop mid (xs.take hi), List.take_take, Nat.min_eq_left second]
  conv_rhs => rw [split, List.drop_append]
  by_cases long : mid ≤ xs.length
  · have none : lo - (xs.take mid).length = 0 := by rw [List.length_take]; omega
    rw [none, List.drop_zero]
  · have short : (xs.take hi).drop mid = [] :=
      List.drop_eq_nil_iff.mpr (by rw [List.length_take]; omega)
    rw [short, List.drop_nil]

/-- Advancing the lower index drops a prefix. -/
theorem slice_add_left (xs : List α) (lo n hi : ℕ) :
    slice xs (lo + n) hi = (slice xs lo hi).drop n := by
  simp only [slice, List.drop_drop]

/-- Lowering the upper index keeps a prefix. -/
theorem slice_add_right (xs : List α) {lo n hi : ℕ} (inside : lo + n ≤ hi) :
    slice xs lo (lo + n) = (slice xs lo hi).take n := by
  simp only [slice]
  rw [List.take_drop, List.take_take, Nat.min_eq_left inside]

theorem length_overwrite {xs ys : List α} {pos : ℕ} (inside : pos + ys.length ≤ xs.length) :
    (overwrite xs pos ys).length = xs.length := by
  simp only [overwrite, List.length_append, List.length_take, List.length_drop]
  omega

/-- A write leaves everything before it alone. -/
theorem slice_overwrite_before {xs ys : List α} {lo hi pos : ℕ} (inside : pos ≤ xs.length)
    (before : hi ≤ pos) : slice (overwrite xs pos ys) lo hi = slice xs lo hi := by
  simp only [slice, overwrite, List.append_assoc]
  rw [List.take_append_of_le_length (by rw [List.length_take]; omega), List.take_take,
    Nat.min_eq_left before]

/-- A write determines the range it covers. -/
theorem slice_overwrite_same {xs ys : List α} {pos : ℕ} (inside : pos + ys.length ≤ xs.length) :
    slice (overwrite xs pos ys) pos (pos + ys.length) = ys := by
  have front : (xs.take pos).length = pos := by rw [List.length_take]; omega
  simp only [slice, overwrite]
  have whole : (xs.take pos ++ ys).length = pos + ys.length := by rw [List.length_append, front]
  rw [List.take_append_of_le_length (Nat.le_of_eq whole.symm),
    List.take_of_length_le (Nat.le_of_eq whole)]
  exact List.drop_left' front

theorem length_resize (xs : List α) (size : ℕ) (fill : α) :
    (resize xs size fill).length = size := by
  simp only [resize, List.length_append, List.length_take, List.length_replicate]
  omega

/-- Growing keeps everything that was there. -/
theorem slice_resize {xs : List α} {lo hi size : ℕ} (fill : α) (inside : hi ≤ xs.length)
    (grow : xs.length ≤ size) : slice (resize xs size fill) lo hi = slice xs lo hi := by
  simp only [slice, resize]
  rw [List.take_of_length_le grow, List.take_append_of_le_length inside]

end Slice
