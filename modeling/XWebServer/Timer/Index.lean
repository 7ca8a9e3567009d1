import Mathlib.Algebra.Order.Ring.Int
import XWebServer.Lib.HeapOrder
import XWebServer.Timer.HeapTimer

/-! # The index of the heap, and what a sift does

`Indexed` says that `ref` is the index of `heap`. A swap keeps it, so a sift leaves the same entries
with an exact index (`Rearranged`), and it restores the heap order of the deadlines by the lemmas of
`HeapOrder` about one swap.
-/

namespace XWebServer

namespace HeapTimer

open HeapOrder

variable {κ : Type}

/-- An id is mapped to `i` exactly when it is the id of the entry at `i`. -/
def Indexed (timer : HeapTimer κ) : Prop :=
  ∀ id i, timer.ref id = some i ↔ ∃ node, timer.heap[i]? = some node ∧ node.id = id

/-- The deadline at a position. -/
def key (timer : HeapTimer κ) (i : ℕ) : ℤ :=
  match timer.heap[i]? with
  | some node => node.expires
  | none => 0

/-- No entry's deadline is before its parent's. -/
def HeapOrdered (timer : HeapTimer κ) : Prop := Ordered timer.key timer.heap.size

theorem new_indexed : (new : HeapTimer κ).Indexed := by
  intro id i
  simp [new]

theorem new_heapOrdered : (new : HeapTimer κ).HeapOrdered := by
  intro i _ inside
  exact absurd inside (Nat.not_lt_zero i)

theorem key_of {timer : HeapTimer κ} {i : ℕ} {node : TimerNode κ}
    (found : timer.heap[i]? = some node) : timer.key i = node.expires := by
  simp only [key, found]

theorem exists_node {timer : HeapTimer κ} {i : ℕ} (inside : i < timer.heap.size) :
    ∃ node, timer.heap[i]? = some node :=
  ⟨timer.heap[i], Array.getElem?_eq_getElem inside⟩

theorem inside_of {timer : HeapTimer κ} {i : ℕ} {node : TimerNode κ}
    (found : timer.heap[i]? = some node) : i < timer.heap.size :=
  (Array.getElem?_eq_some_iff.mp found).1

/-- Two entries with one id are one entry. -/
theorem Indexed.unique {timer : HeapTimer κ} (indexed : timer.Indexed) {i j : ℕ}
    {left right : TimerNode κ} (atI : timer.heap[i]? = some left)
    (atJ : timer.heap[j]? = some right) (same : left.id = right.id) : i = j := by
  have toI := (indexed left.id i).mpr ⟨left, atI, rfl⟩
  have toJ := (indexed left.id j).mpr ⟨right, atJ, same.symm⟩
  rw [toI] at toJ
  exact Option.some.inj toJ

theorem Indexed.eq_of_mem {timer : HeapTimer κ} (indexed : timer.Indexed) {left right : TimerNode κ}
    (hasLeft : left ∈ timer.heap) (hasRight : right ∈ timer.heap) (same : left.id = right.id) :
    left = right := by
  obtain ⟨i, atI⟩ := Array.mem_iff_getElem?.mp hasLeft
  obtain ⟨j, atJ⟩ := Array.mem_iff_getElem?.mp hasRight
  rw [indexed.unique atI atJ same, atJ] at atI
  exact (Option.some.inj atI).symm

theorem before_eq {timer : HeapTimer κ} {i j : ℕ} (insideI : i < timer.heap.size)
    (insideJ : j < timer.heap.size) :
    timer.before i j = .ok (decide (timer.key i < timer.key j)) := by
  obtain ⟨left, atI⟩ := exists_node insideI
  obtain ⟨right, atJ⟩ := exists_node insideJ
  simp only [before, node, atI, atJ, key, ok_bind]

/-! ## A swap -/

/-- The same entries with an exact index. -/
structure Rearranged (timer timer' : HeapTimer κ) : Prop where
  size : timer'.heap.size = timer.heap.size
  indexed : timer'.Indexed
  mem : ∀ node, node ∈ timer'.heap ↔ node ∈ timer.heap

theorem Rearranged.refl {timer : HeapTimer κ} (indexed : timer.Indexed) :
    Rearranged timer timer :=
  ⟨rfl, indexed, fun _ => Iff.rfl⟩

theorem Rearranged.trans {first second third : HeapTimer κ} (left : Rearranged first second)
    (right : Rearranged second third) : Rearranged first third :=
  ⟨right.size.trans left.size, right.indexed, fun node => (right.mem node).trans (left.mem node)⟩

theorem getElem?_swap {heap : Array (TimerNode κ)} {i j : ℕ} (insideI : i < heap.size)
    (insideJ : j < heap.size) (k : ℕ) :
    (heap.swapIfInBounds i j)[k]? = heap[Equiv.swap i j k]? := by
  simp only [Array.swapIfInBounds, insideI, insideJ, dite_true, Array.getElem?_swap]
  by_cases atJ : j = k
  · rw [if_pos atJ, ← atJ, Equiv.swap_apply_right, Array.getElem?_eq_getElem insideI]
  · rw [if_neg atJ]
    by_cases atI : i = k
    · rw [if_pos atI, ← atI, Equiv.swap_apply_left, Array.getElem?_eq_getElem insideJ]
    · rw [if_neg atI, Equiv.swap_apply_of_ne_of_ne (Ne.symm atI) (Ne.symm atJ)]

/-- After a swap of two entries and of their places in the index, the index is exact. -/
theorem Indexed.swap {timer : HeapTimer κ} (indexed : timer.Indexed) {i j : ℕ}
    {left right : TimerNode κ} (atI : timer.heap[i]? = some left)
    (atJ : timer.heap[j]? = some right) :
    Indexed ⟨timer.heap.swapIfInBounds i j,
      Function.update (Function.update timer.ref right.id (some i)) left.id (some j)⟩ := by
  intro id k
  have refLeft := (indexed left.id i).mpr ⟨left, atI, rfl⟩
  have refRight := (indexed right.id j).mpr ⟨right, atJ, rfl⟩
  simp only [getElem?_swap (inside_of atI) (inside_of atJ)]
  rw [← indexed id]
  by_cases isLeft : id = left.id
  · rw [isLeft, Function.update_self, refLeft, Option.some_inj, Option.some_inj,
      ← Equiv.swap_apply_eq_iff, Equiv.swap_apply_left]
  · rw [Function.update_of_ne isLeft]
    by_cases isRight : id = right.id
    · rw [isRight, Function.update_self, refRight, Option.some_inj, Option.some_inj,
        ← Equiv.swap_apply_eq_iff, Equiv.swap_apply_right]
    · rw [Function.update_of_ne isRight]
      -- an id of neither entry is at neither position
      have notI : timer.ref id ≠ some i := fun found => by
        obtain ⟨node, there, same⟩ := (indexed id i).mp found
        rw [atI] at there
        exact isLeft (by rw [← same, Option.some.inj there])
      have notJ : timer.ref id ≠ some j := fun found => by
        obtain ⟨node, there, same⟩ := (indexed id j).mp found
        rw [atJ] at there
        exact isRight (by rw [← same, Option.some.inj there])
      rcases eq_or_ne k i with rfl | offI
      · rw [Equiv.swap_apply_left]
        exact iff_of_false notI notJ
      · rcases eq_or_ne k j with rfl | offJ
        · rw [Equiv.swap_apply_right]
          exact iff_of_false notJ notI
        · rw [Equiv.swap_apply_of_ne_of_ne offI offJ]

/-- A swap of two positions of the heap rearranges it and swaps their deadlines. -/
theorem swapNode_ok {timer : HeapTimer κ} (indexed : timer.Indexed) {i j : ℕ}
    (insideI : i < timer.heap.size) (insideJ : j < timer.heap.size) :
    ∃ timer', timer.swapNode i j = .ok timer' ∧ Rearranged timer timer' ∧
      (∀ k, timer'.heap[k]? = timer.heap[Equiv.swap i j k]?) ∧
      timer'.key = timer.key ∘ Equiv.swap i j := by
  obtain ⟨left, atI⟩ := exists_node insideI
  obtain ⟨right, atJ⟩ := exists_node insideJ
  have moved := getElem?_swap insideI insideJ
  refine ⟨_, by simp only [swapNode, atI, atJ], ⟨?_, indexed.swap atI atJ, ?_⟩, moved, ?_⟩
  · exact Array.size_swapIfInBounds
  · intro node
    simp only [Array.mem_iff_getElem?, moved]
    constructor
    · rintro ⟨k, found⟩
      exact ⟨_, found⟩
    · rintro ⟨k, found⟩
      exact ⟨Equiv.swap i j k, by rw [Equiv.swap_apply_self, found]⟩
  · funext k
    simp only [key, moved, Function.comp_apply]

end HeapTimer

end XWebServer
