import Mathlib.Data.Nat.Basic
import Mathlib.Data.Nat.Init
import Mathlib.Order.Lattice
import Mathlib.Logic.Equiv.Basic

/-! # Heap order under swaps

A binary heap is a family of keys `key : ℕ → τ` on the positions below a size. A sift is a chain of
swaps along one root path, and each lemma here is about one swap: what is out of order before it and
after it. `Hole` says that every pair off one position is in order, so the position may hold any key;
`Up` and `Down` add the half of the order that the upward and the downward sift keep.
-/

namespace HeapOrder

variable {τ : Type*} [LinearOrder τ]

/-- The position above `i`; position 0 has none, although `parent 0` is 0. -/
def parent (i : ℕ) : ℕ := (i - 1) / 2

theorem parent_lt {i : ℕ} (positive : 0 < i) : parent i < i := by
  rw [parent]
  omega

/-- The positions with parent `i` are `2 * i + 1` and `2 * i + 2`. -/
theorem parent_eq_iff {child i : ℕ} (positive : 0 < child) :
    parent child = i ↔ child = 2 * i + 1 ∨ child = 2 * i + 2 := by
  rw [parent]
  omega

/-- No key is below its parent's. -/
def Ordered (key : ℕ → τ) (size : ℕ) : Prop :=
  ∀ i, 0 < i → i < size → key (parent i) ≤ key i

/-- Everything off the hole is in order, and the hole's children are not below its parent. -/
structure Hole (key : ℕ → τ) (size hole : ℕ) : Prop where
  off : ∀ i, 0 < i → i < size → i ≠ hole → parent i ≠ hole → key (parent i) ≤ key i
  across : 0 < hole → ∀ i, 0 < i → i < size → parent i = hole → key (parent hole) ≤ key i

/-- A hole whose key is not above its children's: only its parent can be out of order. -/
structure Up (key : ℕ → τ) (size hole : ℕ) : Prop extends Hole key size hole where
  below : ∀ i, 0 < i → i < size → parent i = hole → key hole ≤ key i

/-- A hole whose key is not below its parent's: only its children can be out of order. -/
structure Down (key : ℕ → τ) (size hole : ℕ) : Prop extends Hole key size hole where
  above : 0 < hole → key (parent hole) ≤ key hole

/-- In an ordered heap the root is minimal. -/
theorem Ordered.root_le {key : ℕ → τ} {size : ℕ} (ordered : Ordered key size) {i : ℕ}
    (inside : i < size) : key 0 ≤ key i := by
  induction i using Nat.strong_induction_on with
  | _ i ih =>
    rcases Nat.eq_zero_or_pos i with rfl | positive
    · exact le_rfl
    · have up := parent_lt positive
      exact (ih _ up (by omega)).trans (ordered i positive inside)

/-- The same keys on the same or fewer positions are in order. -/
theorem Ordered.congr {key key' : ℕ → τ} {size size' : ℕ} (ordered : Ordered key size)
    (fewer : size' ≤ size) (same : ∀ i, i < size' → key' i = key i) : Ordered key' size' := by
  intro i positive inside
  have up := parent_lt positive
  rw [same i inside, same (parent i) (by omega)]
  exact ordered i positive (by omega)

/-- Changing one key of an ordered heap, on the same or fewer positions, leaves a hole there. -/
theorem Ordered.hole {key key' : ℕ → τ} {size size' hole : ℕ} (ordered : Ordered key size)
    (fewer : size' ≤ size) (same : ∀ i, i < size' → i ≠ hole → key' i = key i) :
    Hole key' size' hole where
  off i positive inside notHole notChild := by
    have up := parent_lt positive
    rw [same i inside notHole, same (parent i) (by omega) notChild]
    exact ordered i positive (by omega)
  across holePositive i positive inside child := by
    have up := parent_lt positive
    have upHole := parent_lt holePositive
    rw [same i inside (by omega), same (parent hole) (by omega) (by omega)]
    calc
      key (parent hole) ≤ key hole := ordered hole holePositive (by omega)
      _ = key (parent i) := by rw [child]
      _ ≤ key i := ordered i positive (by omega)

/-- A new last position can only be out of order with its parent. -/
theorem Ordered.up_of_push {key key' : ℕ → τ} {size : ℕ} (ordered : Ordered key size)
    (same : ∀ i, i < size → key' i = key i) : Up key' (size + 1) size where
  off i positive inside notLast _ := by
    have up := parent_lt positive
    rw [same i (by omega), same (parent i) (by omega)]
    exact ordered i positive (by omega)
  across _ i positive inside child := by
    have up := parent_lt positive
    omega
  below i positive inside child := by
    have up := parent_lt positive
    omega

/-- A changed key that is not below its parent's leaves only its children to repair. -/
theorem Ordered.down {key key' : ℕ → τ} {size hole : ℕ} (ordered : Ordered key size)
    (inside : hole < size) (same : ∀ i, i < size → i ≠ hole → key' i = key i)
    (above : 0 < hole → key (parent hole) ≤ key' hole) : Down key' size hole where
  toHole := ordered.hole le_rfl same
  above positive := by
    have up := parent_lt positive
    rw [same (parent hole) (by omega) (by omega)]
    exact above positive

/-- When no child is below the hole, only its parent can be out of order. -/
theorem Hole.up {key : ℕ → τ} {size hole : ℕ} (h : Hole key size hole)
    (below : ∀ i, 0 < i → i < size → parent i = hole → key hole ≤ key i) : Up key size hole :=
  ⟨h, below⟩

/-- The upward sift may stop where the parent is not above the hole, and at the root. -/
theorem Up.stop {key : ℕ → τ} {size hole : ℕ} (h : Up key size hole)
    (above : 0 < hole → key (parent hole) ≤ key hole) : Ordered key size := by
  intro i positive inside
  by_cases atHole : i = hole
  · subst atHole
    exact above positive
  · by_cases child : parent i = hole
    · rw [child]
      exact h.below i positive inside child
    · exact h.off i positive inside atHole child

/-- The downward sift may stop where no child is below the hole. -/
theorem Down.stop {key : ℕ → τ} {size hole : ℕ} (h : Down key size hole)
    (below : ∀ i, 0 < i → i < size → parent i = hole → key hole ≤ key i) : Ordered key size :=
  (h.toHole.up below).stop h.above

/-- One step of the upward sift: swapping with a parent that is not below moves the hole up. -/
theorem Up.swap {key : ℕ → τ} {size hole : ℕ} (h : Up key size hole) (positive : 0 < hole)
    (inside : hole < size) (le : key hole ≤ key (parent hole)) :
    Up (key ∘ Equiv.swap hole (parent hole)) size (parent hole) := by
  have up := parent_lt positive
  have atHole : (key ∘ Equiv.swap hole (parent hole)) hole = key (parent hole) := by simp
  have atParent : (key ∘ Equiv.swap hole (parent hole)) (parent hole) = key hole := by simp
  have elsewhere : ∀ i, i ≠ hole → i ≠ parent hole →
      (key ∘ Equiv.swap hole (parent hole)) i = key i := fun i notHole notParent => by
    simp [Equiv.swap_apply_of_ne_of_ne notHole notParent]
  -- the keys below the old parent, other than the hole's, were already not below it
  have sibling : ∀ i, 0 < i → i < size → i ≠ hole → parent i = parent hole →
      key (parent hole) ≤ key i := fun i iPositive iInside notHole same => by
    have step := h.off i iPositive iInside notHole (by omega)
    rwa [same] at step
  refine ⟨⟨?_, ?_⟩, ?_⟩
  · intro i iPositive iInside notParent notChild
    by_cases same : i = hole
    · exact absurd (same ▸ rfl) notChild
    · rw [elsewhere i same notParent]
      by_cases child : parent i = hole
      · rw [child, atHole]
        exact h.across positive i iPositive iInside child
      · rw [elsewhere (parent i) child notChild]
        exact h.off i iPositive iInside same child
  · intro parentPositive i iPositive iInside child
    have upTwo := parent_lt parentPositive
    have top : key (parent (parent hole)) ≤ key (parent hole) :=
      h.off (parent hole) parentPositive (by omega) (by omega) (by omega)
    rw [elsewhere (parent (parent hole)) (by omega) (by omega)]
    by_cases same : i = hole
    · rw [same, atHole]
      exact top
    · have upI := parent_lt iPositive
      rw [elsewhere i same (by omega)]
      exact top.trans (sibling i iPositive iInside same child)
  · intro i iPositive iInside child
    rw [atParent]
    by_cases same : i = hole
    · rw [same, atHole]
      exact le
    · have upI := parent_lt iPositive
      rw [elsewhere i same (by omega)]
      exact le.trans (sibling i iPositive iInside same child)

/-- One step of the downward sift: swapping with a least child moves the hole down. -/
theorem Hole.swap {key : ℕ → τ} {size hole child : ℕ} (h : Hole key size hole)
    (positive : 0 < child) (inside : child < size) (isChild : parent child = hole)
    (le : key child ≤ key hole)
    (least : ∀ i, 0 < i → i < size → parent i = hole → key child ≤ key i) :
    Down (key ∘ Equiv.swap hole child) size child := by
  have down := parent_lt positive
  have atHole : (key ∘ Equiv.swap hole child) hole = key child := by simp
  have atChild : (key ∘ Equiv.swap hole child) child = key hole := by simp
  have elsewhere : ∀ i, i ≠ hole → i ≠ child →
      (key ∘ Equiv.swap hole child) i = key i := fun i notHole notChild => by
    simp [Equiv.swap_apply_of_ne_of_ne notHole notChild]
  refine ⟨⟨?_, ?_⟩, ?_⟩
  · intro i iPositive iInside notChild notBelow
    have upI := parent_lt iPositive
    by_cases same : i = hole
    · subst same
      rw [atHole, elsewhere (parent i) (by omega) (by omega)]
      exact h.across iPositive child positive inside isChild
    · rw [elsewhere i same notChild]
      by_cases sibling : parent i = hole
      · rw [sibling, atHole]
        exact least i iPositive iInside sibling
      · rw [elsewhere (parent i) sibling notBelow]
        exact h.off i iPositive iInside same sibling
  · intro _ i iPositive iInside below
    have upI := parent_lt iPositive
    rw [isChild, atHole, elsewhere i (by omega) (by omega), ← below]
    exact h.off i iPositive iInside (by omega) (by omega)
  · intro _
    rw [isChild, atHole, atChild]
    exact le

end HeapOrder
