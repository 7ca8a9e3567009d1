import XWebServer.Timer.Index

/-! # What the sifts do

Both sifts rearrange the heap within the positions they are given. The upward sift restores the order when
only the parent of its start is out of order. The downward sift restores it when only children are; where
anything may be out of order at its start, it restores the order if it moves, and otherwise leaves a start
with no child below it, which is what `resift` hands to the upward sift.
-/

namespace XWebServer

namespace HeapTimer

open HeapOrder

variable {κ : Type}

/-- A rearrangement within the first `n` positions. -/
structure Sifted (timer : HeapTimer κ) (n : ℕ) (timer' : HeapTimer κ) : Prop
    extends Rearranged timer timer' where
  beyond : ∀ k, n ≤ k → timer'.heap[k]? = timer.heap[k]?

theorem Sifted.refl {timer : HeapTimer κ} (indexed : timer.Indexed) (n : ℕ) :
    Sifted timer n timer :=
  ⟨.refl indexed, fun _ _ => rfl⟩

theorem Sifted.trans {first second third : HeapTimer κ} {n : ℕ} (left : Sifted first n second)
    (right : Sifted second n third) : Sifted first n third :=
  ⟨left.toRearranged.trans right.toRearranged,
    fun k beyond => (right.beyond k beyond).trans (left.beyond k beyond)⟩

/-- One swap of a sift. -/
theorem swapNode_sifted {timer : HeapTimer κ} (indexed : timer.Indexed) {n i j : ℕ}
    (insideI : i < n) (insideJ : j < n) (within : n ≤ timer.heap.size) :
    ∃ timer', timer.swapNode i j = .ok timer' ∧ Sifted timer n timer' ∧
      timer'.key = timer.key ∘ Equiv.swap i j := by
  obtain ⟨timer', success, rearranged, slots, keys⟩ :=
    swapNode_ok indexed (insideI.trans_le within) (insideJ.trans_le within)
  refine ⟨timer', success, ⟨rearranged, fun k beyond => ?_⟩, keys⟩
  rw [slots, Equiv.swap_apply_of_ne_of_ne (by omega) (by omega)]

/-! ## Upwards -/

theorem siftupFrom_ok {wild : Except Fault Bool} {n i : ℕ} {timer timer' : HeapTimer κ}
    (indexed : timer.Indexed) (inside : i < n) (within : n ≤ timer.heap.size)
    (run : timer.siftupFrom wild i = .ok timer') :
    Sifted timer n timer' ∧ (Up timer.key n i → Ordered timer'.key n) := by
  induction i using Nat.strong_induction_on generalizing timer with
  | _ i ih =>
    rw [siftupFrom] at run
    by_cases root : i = 0
    · rw [if_pos root] at run
      obtain ⟨_, _, run⟩ := bind_ok run
      obtain ⟨_, _, run⟩ := bind_ok run
      cases run
      exact ⟨.refl indexed n, fun up => up.stop fun positive => by omega⟩
    · have positive : 0 < i := Nat.pos_of_ne_zero root
      have above : parent i < i := parent_lt positive
      have parentInside : parent i < n := above.trans inside
      rw [if_neg root] at run
      obtain ⟨stops, compared, run⟩ := bind_ok run
      rw [show (i - 1) / 2 = parent i from rfl] at compared run
      rw [before_eq (parentInside.trans_le within) (inside.trans_le within)] at compared
      cases compared
      by_cases stop : timer.key (parent i) < timer.key i
      · rw [if_pos (decide_eq_true stop)] at run
        cases run
        exact ⟨.refl indexed n, fun up => up.stop fun _ => stop.le⟩
      · rw [if_neg (by simpa using stop)] at run
        obtain ⟨next, swap, run⟩ := bind_ok run
        obtain ⟨swapped, success, sifted, keys⟩ :=
          swapNode_sifted indexed inside parentInside within
        rw [success] at swap
        cases swap
        obtain ⟨rest, restored⟩ :=
          ih (parent i) above sifted.indexed parentInside (by rwa [sifted.size]) run
        refine ⟨sifted.trans rest, fun up => restored ?_⟩
        rw [keys]
        exact up.swap positive inside (not_lt.mp stop)

theorem siftup_ok {wild : Except Fault Bool} {n i : ℕ} {timer timer' : HeapTimer κ}
    (indexed : timer.Indexed) (inside : i < n) (within : n ≤ timer.heap.size)
    (run : timer.siftup wild i = .ok timer') :
    Sifted timer n timer' ∧ (Up timer.key n i → Ordered timer'.key n) := by
  obtain ⟨_, _, run⟩ := bind_ok run
  exact siftupFrom_ok indexed inside within run

/-- An upward sift that ends at the root returns. -/
theorem siftupFrom_ends {n i : ℕ} {timer : HeapTimer κ} (indexed : timer.Indexed) (inside : i < n)
    (within : n ≤ timer.heap.size) : ∃ timer', timer.siftupFrom (.ok true) i = .ok timer' := by
  induction i using Nat.strong_induction_on generalizing timer with
  | _ i ih =>
    rw [siftupFrom]
    rcases Nat.eq_zero_or_pos i with rfl | positive
    · exact ⟨timer, rfl⟩
    · have above : parent i < i := parent_lt positive
      have parentInside : parent i < n := above.trans inside
      rw [if_neg positive.ne', show (i - 1) / 2 = parent i from rfl,
        before_eq (parentInside.trans_le within) (inside.trans_le within), ok_bind]
      split_ifs with stop
      · exact ⟨timer, rfl⟩
      · obtain ⟨swapped, success, sifted, _⟩ := swapNode_sifted indexed inside parentInside within
        rw [success, ok_bind]
        exact ih (parent i) above sifted.indexed parentInside (by rwa [sifted.size])

theorem siftup_ends {n i : ℕ} {timer : HeapTimer κ} (indexed : timer.Indexed) (inside : i < n)
    (within : n ≤ timer.heap.size) : ∃ timer', timer.siftup (.ok true) i = .ok timer' := by
  rw [siftup, assert_of (inside.trans_le within), ok_bind]
  exact siftupFrom_ends indexed inside within

/-! ## Downwards -/

/-- The child the downward sift compares with is one of least deadline. -/
theorem right_ok {timer : HeapTimer κ} {n i : ℕ} (within : n ≤ timer.heap.size)
    (children : i * 2 + 1 < n) :
    ∃ right child, timer.right n i = .ok right ∧ child = i * 2 + 1 + right.toNat ∧ child < n ∧
      parent child = i ∧
      ∀ other, 0 < other → other < n → parent other = i → timer.key child ≤ timer.key other := by
  by_cases two : i * 2 + 1 + 1 < n
  · by_cases lower : timer.key (i * 2 + 1 + 1) < timer.key (i * 2 + 1)
    · refine ⟨true, i * 2 + 1 + 1, ?_, rfl, two, by unfold parent; omega, ?_⟩
      · rw [right, if_pos two, before_eq (by omega) (by omega), decide_eq_true lower]
      · intro other positive _ child
        rcases (parent_eq_iff positive).mp child with rfl | rfl
        · rw [Nat.mul_comm 2 i]
          exact lower.le
        · rw [Nat.mul_comm 2 i]
    · refine ⟨false, i * 2 + 1, ?_, rfl, children, by unfold parent; omega, ?_⟩
      · rw [right, if_pos two, before_eq (by omega) (by omega), decide_eq_false lower]
      · intro other positive _ child
        rcases (parent_eq_iff positive).mp child with rfl | rfl
        · rw [Nat.mul_comm 2 i]
        · rw [Nat.mul_comm 2 i]
          exact not_lt.mp lower
  · refine ⟨false, i * 2 + 1, if_neg two, rfl, children, by unfold parent; omega, ?_⟩
    intro other positive below child
    rcases (parent_eq_iff positive).mp child with rfl | rfl
    · rw [Nat.mul_comm 2 i]
    · omega

/-- What the downward sift from `i` within the first `n` positions leaves, when it ends at `last`. -/
structure SiftedDown (timer : HeapTimer κ) (n i last : ℕ) (timer' : HeapTimer κ) : Prop
    extends Sifted timer n timer' where
  le : i ≤ last
  stays : last = i → timer' = timer ∧
    ∀ child, 0 < child → child < n → parent child = i → timer.key i ≤ timer.key child
  ordered : Down timer.key n i → Ordered timer'.key n
  moved : i < last → Hole timer.key n i → Ordered timer'.key n

theorem SiftedDown.refl {timer : HeapTimer κ} {n i : ℕ} (indexed : timer.Indexed)
    (below : ∀ child, 0 < child → child < n → parent child = i →
      timer.key i ≤ timer.key child) : SiftedDown timer n i i timer where
  toSifted := .refl indexed n
  le := le_rfl
  stays _ := ⟨rfl, below⟩
  ordered down := down.stop below
  moved moves := absurd moves (lt_irrefl i)

theorem siftdownFrom_ok {timer : HeapTimer κ} {n i : ℕ} (indexed : timer.Indexed)
    (inside : i < n) (within : n ≤ timer.heap.size) :
    ∃ last timer', timer.siftdownFrom n i = .ok (last, timer') ∧
      SiftedDown timer n i last timer' := by
  induction steps : n - i using Nat.strong_induction_on generalizing timer i with
  | _ _ ih =>
    rw [siftdownFrom]
    by_cases children : i * 2 + 1 < n
    · obtain ⟨right, child, compared, isChild, childInside, above, least⟩ :=
        right_ok within children
      have down : i < child := by omega
      have ordering := before_eq (inside.trans_le within) (childInside.trans_le within)
      rw [if_pos children]
      by_cases stop : timer.key i < timer.key child
      · refine ⟨i, timer, ?_, ?_⟩
        · simp only [compared, ← isChild, ordering, stop, decide_true, if_true, ok_bind]
        · refine .refl indexed fun other positive otherInside isOther => ?_
          exact stop.le.trans (least other positive otherInside isOther)
      · obtain ⟨swapped, success, sifted, keys⟩ :=
          swapNode_sifted indexed inside childInside within
        have lowered (hole : Hole timer.key n i) : Down swapped.key n child := by
          rw [keys]
          exact hole.swap (by omega) childInside above (not_lt.mp stop) least
        obtain ⟨last, timer', rest, further⟩ := ih (n - child) (by omega) sifted.indexed
          childInside (by rwa [sifted.size]) rfl
        refine ⟨last, timer', ?_, ?_⟩
        · simp only [compared, ← isChild, ordering, stop, decide_false, Bool.false_eq_true, if_false,
            success, rest, ok_bind]
        · have le := further.le
          exact
            { toSifted := sifted.trans further.toSifted
              le := by omega
              stays := fun same => by omega
              ordered := fun hole => further.ordered (lowered hole.toHole)
              moved := fun _ hole => further.ordered (lowered hole) }
    · rw [if_neg children]
      refine ⟨i, timer, rfl, .refl indexed fun child positive childInside isChild => ?_⟩
      rcases (parent_eq_iff positive).mp isChild with rfl | rfl <;> omega

theorem siftdown_ok {timer : HeapTimer κ} {n i : ℕ} (indexed : timer.Indexed) (inside : i < n)
    (within : n ≤ timer.heap.size) :
    ∃ last timer', timer.siftdown i n = .ok (decide (i < last), timer') ∧
      SiftedDown timer n i last timer' := by
  obtain ⟨last, timer', run, sifted⟩ := siftdownFrom_ok indexed inside within
  refine ⟨last, timer', ?_, sifted⟩
  simp only [siftdown, assert_of (inside.trans_le within), assert_of within, run, ok_bind]

/-- The repair at a position restores the order around any entry there. -/
theorem resift_ok {wild : Except Fault Bool} {n i : ℕ} {timer timer' : HeapTimer κ}
    (indexed : timer.Indexed) (inside : i < n) (within : n ≤ timer.heap.size)
    (run : timer.resift wild i n = .ok timer') :
    Sifted timer n timer' ∧ (Hole timer.key n i → Ordered timer'.key n) := by
  obtain ⟨last, sunk, down, sifted⟩ := siftdown_ok indexed inside within
  simp only [resift, down, ok_bind] at run
  by_cases moves : i < last
  · rw [if_pos (decide_eq_true moves)] at run
    cases run
    exact ⟨sifted.toSifted, sifted.moved moves⟩
  · have le := sifted.le
    rw [if_neg (by simpa using moves)] at run
    obtain ⟨rfl, below⟩ := sifted.stays (by omega)
    obtain ⟨rearranged, ordered⟩ := siftup_ok indexed inside within run
    exact ⟨rearranged, fun hole => ordered (hole.up below)⟩

theorem resift_ends {n i : ℕ} {timer : HeapTimer κ} (indexed : timer.Indexed) (inside : i < n)
    (within : n ≤ timer.heap.size) : ∃ timer', timer.resift (.ok true) i n = .ok timer' := by
  obtain ⟨last, sunk, down, sifted⟩ := siftdown_ok indexed inside within
  rw [resift, down, ok_bind]
  dsimp only
  split_ifs with moves
  · exact ⟨sunk, rfl⟩
  · exact siftup_ends sifted.indexed inside (by rwa [sifted.size])

end HeapTimer

end XWebServer
