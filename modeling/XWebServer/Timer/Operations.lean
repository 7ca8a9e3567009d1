import Mathlib.Algebra.Order.Group.Unbundled.Int
import XWebServer.Timer.Sift

/-! # What the operations of the timer do

Each operation keeps the index exact, and its effect is stated on the entries of the heap, one for
each id. `add` and `pop` keep the heap order; `adjust` only sifts down, so it keeps the order when
the deadline does not move forward.
-/

namespace XWebServer

namespace HeapTimer

open HeapOrder

variable {κ : Type}

/-! ## Changing, adding and dropping one entry -/

theorem assign_ok {timer : HeapTimer κ} (indexed : timer.Indexed) {i : ℕ} {node : TimerNode κ}
    (found : timer.heap[i]? = some node) (change : TimerNode κ → TimerNode κ)
    (same : (change node).id = node.id) :
    ∃ timer', timer.assign i change = .ok timer' ∧ timer'.Indexed ∧
      timer'.heap.size = timer.heap.size ∧ timer'.key i = (change node).expires ∧
      (∀ k, k ≠ i → timer'.key k = timer.key k) ∧
      ∀ other, other ∈ timer'.heap ↔
        other = change node ∨ (other ∈ timer.heap ∧ other.id ≠ node.id) := by
  have inside := inside_of found
  have atI : (timer.heap.setIfInBounds i (change node))[i]? = some (change node) :=
    Array.getElem?_setIfInBounds_self_of_lt inside
  have atOther (k : ℕ) (off : k ≠ i) :
      (timer.heap.setIfInBounds i (change node))[k]? = timer.heap[k]? :=
    Array.getElem?_setIfInBounds_ne off.symm
  refine ⟨{ timer with heap := timer.heap.setIfInBounds i (change node) }, ?_, ?_,
    Array.size_setIfInBounds, key_of atI, fun k off => ?_, fun other => ?_⟩
  · simp only [assign, HeapTimer.node, found, ok_bind]
  · intro id k
    rw [indexed id k]
    rcases eq_or_ne k i with rfl | off
    · simp only [atI, found, Option.some.injEq, exists_eq_left', same]
    · simp only [atOther k off]
  · simp only [key, atOther k off]
  · simp only [Array.mem_iff_getElem?]
    constructor
    · rintro ⟨k, there⟩
      rcases eq_or_ne k i with rfl | off
      · rw [atI] at there
        exact .inl (Option.some.inj there).symm
      · rw [atOther k off] at there
        exact .inr ⟨⟨k, there⟩, fun sameId => off (indexed.unique there found sameId)⟩
    · rintro (rfl | ⟨⟨k, there⟩, otherId⟩)
      · exact ⟨i, atI⟩
      · refine ⟨k, (atOther k ?_).trans there⟩
        rintro rfl
        rw [found] at there
        exact otherId (by rw [Option.some.inj there])

theorem push_ok {timer : HeapTimer κ} (indexed : timer.Indexed) (node : TimerNode κ)
    (absent : timer.ref node.id = none) :
    Indexed ⟨timer.heap.push node, Function.update timer.ref node.id (some timer.heap.size)⟩ ∧
      ∀ other, other ∈ timer.heap.push node ↔
        other = node ∨ (other ∈ timer.heap ∧ other.id ≠ node.id) := by
  have fresh (k : ℕ) (other : TimerNode κ) (there : timer.heap[k]? = some other) :
      other.id ≠ node.id := fun sameId => by
    rw [(indexed node.id k).mpr ⟨other, there, sameId⟩] at absent
    cases absent
  constructor
  · intro id k
    simp only [Array.getElem?_push]
    rcases eq_or_ne id node.id with rfl | otherId
    · rw [Function.update_self, Option.some_inj]
      constructor
      · rintro rfl
        exact ⟨node, if_pos rfl, rfl⟩
      · rintro ⟨other, there, sameId⟩
        by_contra off
        rw [if_neg (Ne.symm off)] at there
        exact fresh k other there sameId
    · rw [Function.update_of_ne otherId, indexed id k]
      rcases eq_or_ne k timer.heap.size with rfl | off
      · simp [Ne.symm otherId]
      · simp only [if_neg off]
  · intro other
    rw [Array.mem_push]
    constructor
    · rintro (there | rfl)
      · obtain ⟨k, found⟩ := Array.mem_iff_getElem?.mp there
        exact .inr ⟨there, fresh k other found⟩
      · exact .inl rfl
    · rintro (rfl | ⟨there, _⟩)
      · exact .inr rfl
      · exact .inl there

/-- Without the last entry the heap holds the entries of the other ids, where they were. -/
theorem pop_eq_some_iff {timer : HeapTimer κ} (indexed : timer.Indexed) {last k : ℕ}
    {node other : TimerNode κ} (size : timer.heap.size = last + 1)
    (found : timer.heap[last]? = some node) :
    timer.heap.pop[k]? = some other ↔ timer.heap[k]? = some other ∧ other.id ≠ node.id := by
  rw [Array.getElem?_pop, size, Nat.add_sub_cancel]
  constructor
  · intro there
    split_ifs at there with inside
    exact ⟨there, fun sameId => inside.ne (indexed.unique there found sameId)⟩
  · rintro ⟨there, otherId⟩
    have inside : k < last := by
      have := inside_of there
      rcases eq_or_ne k last with rfl | off
      · exact absurd (congrArg TimerNode.id (Option.some.inj (there.symm.trans found))) otherId
      · omega
    rw [if_pos inside, there]

theorem eraseBack_ok {timer : HeapTimer κ} (indexed : timer.Indexed) {last : ℕ}
    {node : TimerNode κ} (size : timer.heap.size = last + 1)
    (found : timer.heap[last]? = some node) :
    ∃ timer', timer.eraseBack = .ok timer' ∧ timer'.Indexed ∧ timer'.heap.size = last ∧
      (∀ k, k < last → timer'.key k = timer.key k) ∧
      ∀ other, other ∈ timer'.heap ↔ other ∈ timer.heap ∧ other.id ≠ node.id := by
  have atBack : timer.heap.back? = some node := by
    rw [Array.back?_eq_getElem?, size]
    exact found
  have slots (k : ℕ) (other : TimerNode κ) : timer.heap.pop[k]? = some other ↔
      timer.heap[k]? = some other ∧ other.id ≠ node.id := pop_eq_some_iff indexed size found
  refine ⟨⟨timer.heap.pop, Function.update timer.ref node.id none⟩, ?_, ?_, ?_, ?_, ?_⟩
  · simp only [eraseBack, atBack]
  · intro id k
    simp only [slots]
    rcases eq_or_ne id node.id with rfl | otherId
    · rw [Function.update_self]
      apply iff_of_false (by simp)
      rintro ⟨other, ⟨_, otherId⟩, sameId⟩
      exact otherId sameId
    · rw [Function.update_of_ne otherId, indexed id k]
      constructor
      · rintro ⟨other, there, rfl⟩
        exact ⟨other, ⟨there, otherId⟩, rfl⟩
      · rintro ⟨other, ⟨there, _⟩, sameId⟩
        exact ⟨other, there, sameId⟩
  · rw [Array.size_pop, size, Nat.add_sub_cancel]
  · intro k inside
    simp only [key, Array.getElem?_pop, size, Nat.add_sub_cancel, if_pos inside]
  · intro other
    simp only [Array.mem_iff_getElem?, slots, exists_and_right]

/-! ## The operations -/

/-- `add` puts one entry in place of the id's old one, if any. -/
theorem add_ok {wild : Except Fault Bool} {id timeout now : ℤ} {cb : κ}
    {timer timer' : HeapTimer κ} (indexed : timer.Indexed)
    (run : timer.add wild id timeout now cb = .ok timer') :
    timer'.Indexed ∧ (timer.HeapOrdered → timer'.HeapOrdered) ∧
      ∀ node, node ∈ timer'.heap ↔
        node = ⟨id, deadline timeout now, cb⟩ ∨ (node ∈ timer.heap ∧ node.id ≠ id) := by
  obtain ⟨_, _, body⟩ := bind_ok run
  cases known : timer.ref id with
  | none =>
    simp only [known] at body
    obtain ⟨pushed, mem⟩ :=
      push_ok indexed ⟨id, deadline timeout now, cb⟩ known
    obtain ⟨sifted, ordered⟩ := siftup_ok (n := timer.heap.size + 1) pushed (Nat.lt_succ_self _)
      (by rw [Array.size_push]) body
    refine ⟨sifted.indexed, fun heapOrdered => ?_, fun node => (sifted.mem node).trans (mem node)⟩
    rw [HeapOrdered, sifted.size, Array.size_push]
    refine ordered (heapOrdered.up_of_push fun i inside => ?_)
    simp only [key, Array.getElem?_push, if_neg inside.ne]
  | some i =>
    simp only [known] at body
    obtain ⟨old, found, rfl⟩ := (indexed id i).mp known
    obtain ⟨assigned, success, stillIndexed, size, _, others, mem⟩ := assign_ok indexed found
      (fun node => { node with expires := deadline timeout now, cb }) rfl
    simp only [success, ok_bind] at body
    obtain ⟨sifted, ordered⟩ := resift_ok stillIndexed (size ▸ inside_of found) le_rfl body
    refine ⟨sifted.indexed, fun heapOrdered => ?_, fun node => (sifted.mem node).trans (mem node)⟩
    rw [HeapOrdered, sifted.size]
    exact ordered (heapOrdered.hole size.le fun k _ off => others k off)

/-- `adjust` assigns the deadline and sifts down from there. -/
theorem adjust_eq {timer assigned : HeapTimer κ} (indexed : timer.Indexed) {i : ℕ}
    {node : TimerNode κ} (found : timer.heap[i]? = some node) {timeout now : ℤ}
    (success : timer.assign i (fun node => { node with expires := deadline timeout now }) =
      .ok assigned) :
    timer.adjust node.id timeout now =
      (assigned.siftdown i assigned.heap.size).map fun moved => moved.2 := by
  have known : timer.ref node.id = some i := (indexed node.id i).mpr ⟨node, found, rfl⟩
  have occupied : timer.heap.isEmpty = false := by
    rw [Array.isEmpty_eq_false_iff]
    exact Array.ne_empty_of_mem (Array.mem_iff_getElem?.mpr ⟨i, found⟩)
  simp only [adjust, assert_of occupied, known, success, ok_bind]
  rfl

/-- `adjust` changes the deadline of the entry at a position, and it keeps the order where the new one is
not before the parent's. -/
theorem adjust_at {timer : HeapTimer κ} (indexed : timer.Indexed) {i : ℕ} {node : TimerNode κ}
    (found : timer.heap[i]? = some node) (timeout now : ℤ) :
    ∃ timer', timer.adjust node.id timeout now = .ok timer' ∧ timer'.Indexed ∧
      (timer.HeapOrdered → (0 < i → timer.key (parent i) ≤ deadline timeout now) →
        timer'.HeapOrdered) ∧
      ∀ other, other ∈ timer'.heap ↔
        other = { node with expires := deadline timeout now } ∨
          (other ∈ timer.heap ∧ other.id ≠ node.id) := by
  have inside := inside_of found
  obtain ⟨assigned, success, stillIndexed, size, atI, others, mem⟩ := assign_ok indexed found
    (fun node => { node with expires := deadline timeout now }) rfl
  obtain ⟨last, timer', down, sifted⟩ :=
    siftdown_ok stillIndexed (size ▸ inside) (le_refl assigned.heap.size)
  refine ⟨timer', ?_, sifted.indexed, fun heapOrdered above => ?_,
    fun other => (sifted.mem other).trans (mem other)⟩
  · rw [adjust_eq indexed found success, down]
    rfl
  · rw [HeapOrdered, sifted.size]
    apply sifted.ordered
    rw [size]
    refine Ordered.down heapOrdered inside (fun k _ off => others k off) ?_
    rw [atI]
    exact above

/-- `adjust` cannot fail on an entry that is there, and a later deadline keeps the order. -/
theorem adjust_ok {node : TimerNode κ} {timer : HeapTimer κ} (indexed : timer.Indexed)
    (present : node ∈ timer.heap) (timeout now : ℤ) :
    ∃ timer', timer.adjust node.id timeout now = .ok timer' ∧ timer'.Indexed ∧
      (timer.HeapOrdered → node.expires ≤ deadline timeout now → timer'.HeapOrdered) ∧
      ∀ other, other ∈ timer'.heap ↔
        other = { node with expires := deadline timeout now } ∨
          (other ∈ timer.heap ∧ other.id ≠ node.id) := by
  obtain ⟨i, found⟩ := Array.mem_iff_getElem?.mp present
  obtain ⟨timer', run, indexed', ordered, mem⟩ := adjust_at indexed found timeout now
  refine ⟨timer', run, indexed', fun heapOrdered later => ?_, mem⟩
  apply ordered heapOrdered
  intro positive
  calc
    timer.key (parent i) ≤ timer.key i := heapOrdered i positive (inside_of found)
    _ = node.expires := key_of found
    _ ≤ deadline timeout now := later

/-- `del_` removes the entry at its position. -/
theorem del_ok {wild : Except Fault Bool} {index : ℕ} {node : TimerNode κ}
    {timer timer' : HeapTimer κ} (indexed : timer.Indexed)
    (found : timer.heap[index]? = some node) (run : timer.del wild index = .ok timer') :
    timer'.Indexed ∧ timer'.heap.size + 1 = timer.heap.size ∧
      (timer.HeapOrdered → timer'.HeapOrdered) ∧
      ∀ other, other ∈ timer'.heap ↔ other ∈ timer.heap ∧ other.id ≠ node.id := by
  obtain ⟨_, _, run⟩ := bind_ok run
  have inside := inside_of found
  obtain ⟨n, size⟩ : ∃ n, timer.heap.size = n + 1 := ⟨timer.heap.size - 1, by omega⟩
  simp only [size, Nat.add_sub_cancel] at run
  by_cases notLast : index < n
  · rw [if_pos notLast] at run
    obtain ⟨swapped, success, rearranged, slots, keys⟩ :=
      swapNode_ok indexed inside (by omega : n < timer.heap.size)
    simp only [success, ok_bind] at run
    obtain ⟨repaired, resifted, run⟩ := bind_ok run
    obtain ⟨sifted, ordered⟩ :=
      resift_ok rearranged.indexed notLast (by rw [rearranged.size]; omega) resifted
    have atLast : repaired.heap[n]? = some node := by
      rw [sifted.beyond n le_rfl, slots, Equiv.swap_apply_right, found]
    obtain ⟨erased, done, stillIndexed, size', below, mem⟩ := eraseBack_ok sifted.indexed
      (by rw [sifted.size, rearranged.size, size]) atLast
    rw [done] at run
    cases run
    refine ⟨stillIndexed, by omega, fun heapOrdered => ?_, fun other => ?_⟩
    · have hole : Hole swapped.key n index := by
        refine heapOrdered.hole (by omega) fun k inN off => ?_
        rw [keys, Function.comp_apply, Equiv.swap_apply_of_ne_of_ne off (by omega)]
      rw [HeapOrdered, size']
      exact (ordered hole).congr le_rfl below
    · rw [mem, sifted.mem, rearranged.mem]
  · rw [if_neg notLast] at run
    obtain rfl : index = n := by omega
    obtain ⟨erased, done, stillIndexed, size', below, mem⟩ := eraseBack_ok indexed size found
    rw [done] at run
    cases run
    refine ⟨stillIndexed, by omega, fun heapOrdered => ?_, mem⟩
    rw [HeapOrdered, size']
    exact heapOrdered.congr (by omega) below

theorem pop_ok {wild : Except Fault Bool} {front : TimerNode κ} {timer timer' : HeapTimer κ}
    (indexed : timer.Indexed) (found : timer.heap[0]? = some front)
    (run : timer.pop wild = .ok timer') :
    timer'.Indexed ∧ timer'.heap.size + 1 = timer.heap.size ∧
      (timer.HeapOrdered → timer'.HeapOrdered) ∧
      ∀ other, other ∈ timer'.heap ↔ other ∈ timer.heap ∧ other.id ≠ front.id := by
  obtain ⟨_, _, run⟩ := bind_ok run
  exact del_ok indexed found run

/-! ## The rounds of `tick` -/

/-- An earlier deadline leaves no more milliseconds. -/
theorem remaining_mono {early late : TimerNode κ} (le : early.expires ≤ late.expires) (now : ℤ) :
    early.remaining now ≤ late.remaining now :=
  Int.tdiv_le_tdiv (by decide) (Int.sub_le_sub_right le now)

/-- Rounds of `tick` remove the entries they fire, each found expired at its reading. -/
structure Expires (timer : HeapTimer κ) (source : ℕ → Round) (ticked : Ticked κ) : Prop where
  indexed : ticked.timer.Indexed
  ordered : timer.HeapOrdered → ticked.timer.HeapOrdered
  fired : ∀ node now, (node, now) ∈ ticked.fired → node ∈ timer.heap ∧ node.remaining now ≤ 0
  mem : ∀ node, node ∈ ticked.timer.heap ↔
    node ∈ timer.heap ∧ ∀ entry ∈ ticked.fired, entry.1.id ≠ node.id
  readings : ∀ now ∈ ticked.readings, ∃ n, now = (source n).now

/-- A round with an entry at the front: it ends the loop, or it fires the entry and goes on. -/
theorem rounds_succ {bound : ℕ} {source : ℕ → Round} {timer : HeapTimer κ} {ticked : Ticked κ}
    {root : TimerNode κ} (front : timer.heap[0]? = some root)
    (run : timer.rounds (bound + 1) source = .ok ticked) :
    (0 < root.remaining (source 0).now ∧ ticked = ⟨[], some (source 0).now, timer⟩) ∨
      (root.remaining (source 0).now ≤ 0 ∧ ∃ popped rest, timer.pop (source 0).wild = .ok popped ∧
        popped.rounds bound (fun n => source (n + 1)) = .ok rest ∧
        ticked = { rest with fired := (root, (source 0).now) :: rest.fired }) := by
  simp only [rounds, front] at run
  split_ifs at run with left
  · exact .inl ⟨left, (Except.ok.inj run).symm⟩
  · obtain ⟨popped, success, run⟩ := bind_ok run
    obtain ⟨rest, tail, run⟩ := bind_ok run
    exact .inr ⟨Int.not_lt.mp left, popped, rest, success, tail, (Except.ok.inj run).symm⟩

/-- Rounds that fire nothing. -/
theorem Expires.idle {source : ℕ → Round} {timer : HeapTimer κ} (indexed : timer.Indexed)
    {stop : Option ℤ} (made : ∀ now, stop = some now → ∃ n, now = (source n).now) :
    Expires timer source ⟨[], stop, timer⟩ where
  indexed := indexed
  ordered := id
  fired := by simp
  mem := by simp
  readings now found := made now (by simpa [Ticked.readings] using found)

/-- A fired front entry before the rounds that follow. -/
theorem Expires.fire {source : ℕ → Round} {timer popped : HeapTimer κ} {rest : Ticked κ}
    {root : TimerNode κ} (indexed : timer.Indexed) (front : timer.heap[0]? = some root)
    (expired : root.remaining (source 0).now ≤ 0) (success : timer.pop (source 0).wild = .ok popped)
    (further : Expires popped (fun n => source (n + 1)) rest) :
    Expires timer source { rest with fired := (root, (source 0).now) :: rest.fired } := by
  obtain ⟨_, _, ordered, mem⟩ := pop_ok indexed front success
  refine ⟨further.indexed, fun heapOrdered => further.ordered (ordered heapOrdered), ?_, ?_, ?_⟩
  · intro node now found
    rcases List.mem_cons.mp found with same | later
    · cases same
      exact ⟨Array.mem_iff_getElem?.mpr ⟨0, front⟩, expired⟩
    · obtain ⟨there, alsoExpired⟩ := further.fired node now later
      exact ⟨((mem node).mp there).1, alsoExpired⟩
  · intro node
    rw [further.mem, mem, List.forall_mem_cons, and_assoc]
    exact and_congr_right fun _ => and_congr_left fun _ => ne_comm
  · intro now made
    rcases List.mem_cons.mp made with rfl | later
    · exact ⟨0, rfl⟩
    · obtain ⟨n, same⟩ := further.readings now later
      exact ⟨n + 1, same⟩

theorem rounds_ok {bound : ℕ} {source : ℕ → Round} {timer : HeapTimer κ} {ticked : Ticked κ}
    (indexed : timer.Indexed) (run : timer.rounds bound source = .ok ticked) :
    Expires timer source ticked := by
  induction bound generalizing source timer ticked with
  | zero =>
    cases run
    exact .idle indexed (by simp)
  | succ bound ih =>
    cases front : timer.heap[0]? with
    | none =>
      simp only [rounds, front] at run
      cases run
      exact .idle indexed (by simp)
    | some root =>
      rcases rounds_succ front run with ⟨_, rfl⟩ | ⟨expired, popped, rest, success, tail, rfl⟩
      · exact .idle indexed fun now same => ⟨0, (Option.some.inj same).symm⟩
      · exact .fire indexed front expired success (ih (pop_ok indexed front success).1 tail)

end HeapTimer

end XWebServer
