import XWebServer.Timer.Refinement

/-! # The order of the heap

`add`, `doWork`, `pop` and `del_` repair a position in both directions, so they keep the order
wherever the entry stands. `adjust` repairs it downwards only, which is enough exactly when the new
deadline is not before the deadline of the entry's parent. `tick` relies on the order: it fires the
entries in the order of their deadlines, and leaves none that its last reading found expired.
-/

namespace XWebServer

namespace HeapTimer

open HeapOrder

variable {κ : Type}

/-- Two entries in order: 5 at the root and 7, due a second later, below it. -/
private def pair : HeapTimer ℕ where
  heap := (#[].push ⟨5, 1000000000, 0⟩).push ⟨7, 2000000000, 1⟩
  ref := Function.update (Function.update (fun _ => none) 5 (some 0)) 7 (some 1)

private theorem pair_indexed : pair.Indexed := by
  obtain ⟨one, _⟩ := push_ok new_indexed (⟨5, 1000000000, 0⟩ : TimerNode ℕ) rfl
  obtain ⟨two, _⟩ := push_ok one (⟨7, 2000000000, 1⟩ : TimerNode ℕ) rfl
  exact two

private theorem pair_ordered : pair.HeapOrdered := by
  intro i positive inside
  have second : i = 1 := by
    have : i < 2 := inside
    omega
  subst second
  decide

/-! ## Insertion, update and deletion -/

theorem doWork_keeps {wild : Except Fault Bool} {id : ℤ} {worked : Option κ × HeapTimer κ}
    {timer : HeapTimer κ} (indexed : timer.Indexed) (ordered : timer.HeapOrdered)
    (run : timer.doWork wild id = .ok worked) : worked.2.HeapOrdered := by
  rw [doWork] at run
  split_ifs at run
  · cases run
    exact ordered
  · cases known : timer.ref id with
    | none =>
      rw [known] at run
      cases run
      exact ordered
    | some i =>
      rw [known] at run
      obtain ⟨node, found, _⟩ := (indexed id i).mp known
      obtain ⟨_, _, run⟩ := bind_ok run
      obtain ⟨target, deleted, same⟩ := bind_ok run
      cases same
      obtain ⟨_, _, keeps, _⟩ := del_ok indexed found deleted
      exact keeps ordered

/-- On a heap in order with an exact index, each of the calls that repair a position in both
directions returns, when its upward sifts end at the root, and leaves the heap in order. -/
theorem keeps_heapOrdered {timer : HeapTimer κ} (indexed : timer.Indexed)
    (ordered : timer.HeapOrdered) :
    (∀ (id timeout now : ℤ) (cb : κ), 0 ≤ id →
      ∃ target, timer.add (.ok true) id timeout now cb = .ok target ∧ target.HeapOrdered) ∧
    (∀ id, ∃ worked, timer.doWork (.ok true) id = .ok worked ∧ worked.2.HeapOrdered) ∧
    (0 < timer.heap.size → ∃ target, timer.pop (.ok true) = .ok target ∧ target.HeapOrdered) ∧
    ∀ index, index < timer.heap.size →
      ∃ target, timer.del (.ok true) index = .ok target ∧ target.HeapOrdered := by
  refine ⟨?_, ?_, ?_, ?_⟩
  · intro id timeout now cb natural
    obtain ⟨target, success⟩ := add_ends indexed natural timeout now cb
    obtain ⟨_, keeps, _⟩ := add_ok indexed success
    exact ⟨target, success, keeps ordered⟩
  · intro id
    obtain ⟨worked, success⟩ := doWork_ends indexed id
    exact ⟨worked, success, doWork_keeps indexed ordered success⟩
  · intro occupied
    obtain ⟨front, found⟩ := exists_node occupied
    obtain ⟨target, success⟩ := pop_ends indexed occupied
    obtain ⟨_, _, keeps, _⟩ := pop_ok indexed found success
    exact ⟨target, success, keeps ordered⟩
  · intro index inside
    obtain ⟨node, found⟩ := exists_node inside
    obtain ⟨target, success⟩ := del_ends indexed inside
    obtain ⟨_, _, keeps, _⟩ := del_ok indexed found success
    exact ⟨target, success, keeps ordered⟩

/-- A shorter timeout for the entry below the root. -/
theorem keeps_heapOrdered_pair :
    ∃ target, pair.add (.ok true) 7 5 0 1 = .ok target ∧ target.HeapOrdered := by
  obtain ⟨add, _⟩ := keeps_heapOrdered pair_indexed pair_ordered
  exact add 7 5 0 1 (by decide)

/-! ## Adjustment -/

/-- The timer with another deadline for one entry: in order, with a root of least deadline, and the
other entries as they were. -/
structure Updated (timer : HeapTimer κ) (node : TimerNode κ) (expires : ℤ)
    (timer' : HeapTimer κ) : Prop where
  indexed : timer'.Indexed
  ordered : timer'.HeapOrdered
  least : ∀ other ∈ timer'.heap, timer'.key 0 ≤ other.expires
  mem : ∀ other, other ∈ timer'.heap ↔
    other = { node with expires } ∨ (other ∈ timer.heap ∧ other.id ≠ node.id)

theorem HeapOrdered.least {timer : HeapTimer κ} (ordered : timer.HeapOrdered)
    {node : TimerNode κ} (present : node ∈ timer.heap) : timer.key 0 ≤ node.expires := by
  obtain ⟨i, found⟩ := Array.mem_iff_getElem?.mp present
  rw [← key_of found]
  exact ordered.root_le (inside_of found)

/-- A downward sift ends where it starts when every child's deadline is later. -/
theorem siftdown_stays {timer : HeapTimer κ} {n i : ℕ} (inside : i < n)
    (within : n ≤ timer.heap.size)
    (later : ∀ child, 0 < child → child < n → parent child = i → timer.key i < timer.key child) :
    timer.siftdown i n = .ok (false, timer) := by
  have ends : timer.siftdownFrom n i = .ok (i, timer) := by
    rw [siftdownFrom]
    by_cases children : i * 2 + 1 < n
    · obtain ⟨right, child, compared, isChild, childInside, above, _⟩ := right_ok within children
      have stop := later child (by omega) childInside above
      simp only [if_pos children, compared, ok_bind, ← isChild,
        before_eq (inside.trans_le within) (childInside.trans_le within), stop, decide_true, if_true]
    · rw [if_neg children]
  simp only [siftdown, assert_of (inside.trans_le within), assert_of within, ends, ok_bind,
    lt_irrefl, decide_false]

theorem adjust_updates {timer : HeapTimer κ} (indexed : timer.Indexed)
    (ordered : timer.HeapOrdered) {i : ℕ} {node : TimerNode κ}
    (found : timer.heap[i]? = some node) {timeout now : ℤ}
    (above : 0 < i → timer.key (parent i) ≤ deadline timeout now) :
    ∃ adjusted, timer.adjust node.id timeout now = .ok adjusted ∧
      Updated timer node (deadline timeout now) adjusted := by
  obtain ⟨adjusted, run, indexed', keeps, mem⟩ := adjust_at indexed found timeout now
  have restored := keeps ordered above
  exact ⟨adjusted, run, indexed', restored, fun other there => restored.least there, mem⟩

/-- A deadline before the parent's stays where it is assigned. -/
theorem adjust_disorders {timer : HeapTimer κ} (indexed : timer.Indexed)
    (ordered : timer.HeapOrdered) {i : ℕ} {node : TimerNode κ}
    (found : timer.heap[i]? = some node) {timeout now : ℤ} (positive : 0 < i)
    (earlier : deadline timeout now < timer.key (parent i)) :
    ∃ adjusted, timer.adjust node.id timeout now = .ok adjusted ∧ ¬ adjusted.HeapOrdered := by
  have inside := inside_of found
  have up := parent_lt positive
  obtain ⟨assigned, success, _, size, atI, others, _⟩ := assign_ok indexed found
    (fun node => { node with expires := deadline timeout now }) rfl
  have stays : assigned.siftdown i assigned.heap.size = .ok (false, assigned) := by
    refine siftdown_stays (size ▸ inside) le_rfl fun child childPositive childInside isChild => ?_
    have down := parent_lt childPositive
    rw [atI, others child (by omega)]
    calc
      deadline timeout now < timer.key (parent i) := earlier
      _ ≤ timer.key i := ordered i positive inside
      _ = timer.key (parent child) := by rw [isChild]
      _ ≤ timer.key child := ordered child childPositive (size ▸ childInside)
  refine ⟨assigned, ?_, fun inOrder => ?_⟩
  · rw [adjust_eq indexed found success, stays]
    rfl
  · have step := inOrder i positive (size ▸ inside)
    rw [others (parent i) (by omega), atI] at step
    exact absurd earlier (not_lt.mpr step)

/-- `add` on an id that the timer has, with the callback of its entry, updates the entry wherever it
stands. `adjust` does exactly where the entry is at the root or its new deadline is not before its
parent's. -/
theorem adjust_updates_iff {timer : HeapTimer κ} (indexed : timer.Indexed)
    (ordered : timer.HeapOrdered) {i : ℕ} {node : TimerNode κ}
    (found : timer.heap[i]? = some node) (timeout now : ℤ) :
    (0 ≤ node.id → ∃ added, timer.add (.ok true) node.id timeout now node.cb = .ok added ∧
      Updated timer node (deadline timeout now) added) ∧
    ((∃ adjusted, timer.adjust node.id timeout now = .ok adjusted ∧
        Updated timer node (deadline timeout now) adjusted) ↔
      (0 < i → timer.key (parent i) ≤ deadline timeout now)) := by
  constructor
  · intro natural
    obtain ⟨added, success⟩ := add_ends indexed natural timeout now node.cb
    obtain ⟨stillIndexed, keeps, mem⟩ := add_ok indexed success
    exact ⟨added, success, stillIndexed, keeps ordered, fun other there => (keeps ordered).least there,
      mem⟩
  · constructor
    · rintro ⟨adjusted, success, updated⟩ positive
      by_contra earlier
      obtain ⟨disordered, run, outOfOrder⟩ :=
        adjust_disorders indexed ordered found positive (not_le.mp earlier)
      rw [success] at run
      cases run
      exact outOfOrder updated.ordered
    · exact adjust_updates indexed ordered found

/-- A later deadline for the entry below the root. -/
theorem adjust_updates_pair : ∃ adjusted, pair.adjust 7 3000 0 = .ok adjusted ∧
    Updated pair ⟨7, 2000000000, 1⟩ 3000000000 adjusted :=
  (adjust_updates_iff pair_indexed pair_ordered (i := 1) rfl 3000 0).2.mpr fun _ => by decide

/-- An earlier deadline for the entry below the root, which stays there. -/
theorem not_adjust_updates_pair : pair.Indexed ∧ pair.HeapOrdered ∧
    (⟨7, 2000000000, 1⟩ : TimerNode ℕ) ∈ pair.heap ∧
    ¬ ∃ adjusted, pair.adjust 7 500 0 = .ok adjusted ∧
      Updated pair ⟨7, 2000000000, 1⟩ (deadline 500 0) adjusted := by
  have below : pair.heap[1]? = some ⟨7, 2000000000, 1⟩ := rfl
  refine ⟨pair_indexed, pair_ordered, Array.mem_iff_getElem?.mpr ⟨1, below⟩, ?_⟩
  rintro ⟨adjusted, success, updated⟩
  obtain ⟨disordered, run, outOfOrder⟩ := adjust_disorders pair_indexed pair_ordered below
    Nat.one_pos (show deadline 500 0 < pair.key (parent 1) by decide)
  rw [success] at run
  cases run
  exact outOfOrder updated.ordered

/-! ## Expiry -/

/-- What the rounds of `tick` are for: they fire entries in the order of their deadlines, each once
and found expired by the reading made for it, keep the others, and end when none is left or when a
reading finds none expired. -/
structure FiresExpired (timer : HeapTimer κ) (source : ℕ → Round) (ticked : Ticked κ) : Prop where
  readings : ∃ made, ticked.readings = (List.range made).map fun n => (source n).now
  expired : ∀ entry ∈ ticked.fired, entry.1.remaining entry.2 ≤ 0
  present : ∀ entry ∈ ticked.fired, entry.1 ∈ timer.heap
  once : (ticked.fired.map fun entry => entry.1.id).Nodup
  chronological : (ticked.fired.map fun entry => entry.1.expires).Pairwise (· ≤ ·)
  mem : ∀ node, node ∈ ticked.timer.heap ↔
    node ∈ timer.heap ∧ ∀ entry ∈ ticked.fired, entry.1 ≠ node
  unexpired : ∀ node ∈ ticked.timer.heap,
    ∃ now, ticked.readings.getLast? = some now ∧ 0 < node.remaining now

/-- Rounds that fire nothing: the heap is empty, or the first reading finds the root unexpired. -/
theorem FiresExpired.idle {source : ℕ → Round} {timer : HeapTimer κ} {stop : Option ℤ} (made : ℕ)
    (readings : stop.toList = (List.range made).map fun n => (source n).now)
    (unexpired : ∀ node ∈ timer.heap, ∃ now, stop = some now ∧ 0 < node.remaining now) :
    FiresExpired timer source ⟨[], stop, timer⟩ where
  readings := ⟨made, readings⟩
  expired := by simp
  present := by simp
  once := List.nodup_nil
  chronological := .nil
  mem := by simp
  unexpired node there := by
    obtain ⟨now, rfl, left⟩ := unexpired node there
    exact ⟨now, rfl, left⟩

theorem FiresExpired.empty (source : ℕ → Round) {timer : HeapTimer κ}
    (empty : timer.heap.size ≤ 0) : FiresExpired timer source ⟨[], none, timer⟩ := by
  refine .idle 0 rfl fun node there => ?_
  obtain ⟨k, found⟩ := Array.mem_iff_getElem?.mp there
  exact absurd (inside_of found) (by omega)

theorem FiresExpired.fire {source : ℕ → Round} {timer popped : HeapTimer κ} {rest : Ticked κ}
    {root : TimerNode κ} (indexed : timer.Indexed) (ordered : timer.HeapOrdered)
    (front : timer.heap[0]? = some root) (expired : root.remaining (source 0).now ≤ 0)
    (success : timer.pop (source 0).wild = .ok popped)
    (further : FiresExpired popped (fun n => source (n + 1)) rest) :
    FiresExpired timer source { rest with fired := (root, (source 0).now) :: rest.fired } := by
  obtain ⟨_, _, _, mem⟩ := pop_ok indexed front success
  have atRoot : root ∈ timer.heap := Array.mem_iff_getElem?.mpr ⟨0, front⟩
  have later (entry : TimerNode κ × ℤ) (there : entry ∈ rest.fired) :
      entry.1 ∈ timer.heap ∧ entry.1.id ≠ root.id := (mem entry.1).mp (further.present entry there)
  have more : Ticked.readings ⟨(root, (source 0).now) :: rest.fired, rest.stop, rest.timer⟩ =
      (source 0).now :: rest.readings := rfl
  refine ⟨?_, ?_, ?_, ?_, ?_, ?_, ?_⟩
  · obtain ⟨made, same⟩ := further.readings
    refine ⟨made + 1, ?_⟩
    rw [more, same, List.range_succ_eq_map, List.map_cons, List.map_map]
    rfl
  · exact List.forall_mem_cons.mpr ⟨expired, further.expired⟩
  · exact List.forall_mem_cons.mpr ⟨atRoot, fun entry there => (later entry there).1⟩
  · rw [List.map_cons, List.nodup_cons]
    refine ⟨fun again => ?_, further.once⟩
    obtain ⟨entry, there, same⟩ := List.mem_map.mp again
    exact (later entry there).2 same
  · rw [List.map_cons, List.pairwise_cons]
    refine ⟨fun expires found => ?_, further.chronological⟩
    obtain ⟨entry, there, rfl⟩ := List.mem_map.mp found
    rw [← key_of front]
    exact ordered.least (later entry there).1
  · intro node
    rw [further.mem, mem, List.forall_mem_cons, and_assoc]
    refine and_congr_right fun there => and_congr_left fun _ => ?_
    constructor
    · rintro otherId rfl
      exact otherId rfl
    · exact fun other sameId => other (indexed.eq_of_mem atRoot there sameId.symm)
  · intro node there
    obtain ⟨now, last, left⟩ := further.unexpired node there
    refine ⟨now, ?_, left⟩
    have made : rest.readings ≠ [] := fun none => by
      rw [none] at last
      cases last
    rw [more, List.getLast?_cons_of_ne_nil made, last]

theorem rounds_fire {bound : ℕ} {source : ℕ → Round} {timer : HeapTimer κ} {ticked : Ticked κ}
    (indexed : timer.Indexed) (ordered : timer.HeapOrdered) (enough : timer.heap.size ≤ bound)
    (run : timer.rounds bound source = .ok ticked) : FiresExpired timer source ticked := by
  induction bound generalizing source timer ticked with
  | zero =>
    cases run
    exact .empty source enough
  | succ bound ih =>
    cases front : timer.heap[0]? with
    | none =>
      simp only [rounds, front] at run
      cases run
      exact .empty source (Array.getElem?_eq_none_iff.mp front)
    | some root =>
      rcases rounds_succ front run with ⟨left, rfl⟩ | ⟨expired, popped, rest, success, tail, rfl⟩
      · refine .idle 1 rfl fun node there => ⟨(source 0).now, rfl, left.trans_le ?_⟩
        apply remaining_mono
        rw [← key_of front]
        exact ordered.least there
      · obtain ⟨stillIndexed, smaller, keeps, _⟩ := pop_ok indexed front success
        exact .fire indexed ordered front expired success
          (ih stillIndexed (keeps ordered) (by omega) tail)

/-- No bound on the rounds beyond the size of the heap makes a difference, so the loop ends by
itself. -/
theorem rounds_of_le {small bound : ℕ} {source : ℕ → Round} {timer : HeapTimer κ}
    {ticked : Ticked κ} (indexed : timer.Indexed) (enough : timer.heap.size ≤ small)
    (le : small ≤ bound) (run : timer.rounds small source = .ok ticked) :
    timer.rounds bound source = .ok ticked := by
  induction small generalizing bound source timer ticked with
  | zero =>
    cases run
    cases bound with
    | zero => rfl
    | succ bound =>
      have front : timer.heap[0]? = none := Array.getElem?_eq_none_iff.mpr enough
      simp only [rounds, front]
  | succ small ih =>
    obtain ⟨bound, rfl⟩ : ∃ more, bound = more + 1 := ⟨bound - 1, by omega⟩
    cases front : timer.heap[0]? with
    | none =>
      simp only [rounds, front] at run ⊢
      exact run
    | some root =>
      rcases rounds_succ front run with ⟨left, rfl⟩ | ⟨expired, popped, rest, success, tail, rfl⟩
      · simp only [rounds, front, if_pos left]
      · obtain ⟨stillIndexed, smaller, _⟩ := pop_ok indexed front success
        have same : popped.rounds bound (fun n => source (n + 1)) = .ok rest :=
          ih stillIndexed (by omega) (by omega) tail
        simp only [rounds, front, if_neg (not_lt.mpr expired), success, same, ok_bind]

/-- On a heap in order with an exact index `tick` returns, when its upward sifts end at the root,
after no more rounds than the heap has entries. It fires the expired entries in the order of their
deadlines, each once, and leaves the others, none of them expired at its last reading. -/
theorem tick_fires_expired {timer : HeapTimer κ} (indexed : timer.Indexed)
    (ordered : timer.HeapOrdered) (source : ℕ → Round) (ends : ∀ n, (source n).wild = .ok true) :
    ∃ ticked, (∀ bound, timer.heap.size ≤ bound → timer.rounds bound source = .ok ticked) ∧
      timer.tick source = .ok ticked ∧
      timer.perform (.tick source) = .ok (ticked.fired.map (·.1.cb), ticked.timer) ∧
      FiresExpired timer source ticked := by
  obtain ⟨ticked, success⟩ := rounds_ends ends indexed
  refine ⟨ticked, fun bound enough => ?_, success, ?_, ?_⟩
  · exact rounds_of_le indexed le_rfl enough success
  · rw [perform, tick, success]
    rfl
  · exact rounds_fire indexed ordered le_rfl success

/-- The entry at the root has expired and the entry below it has not. -/
theorem tick_fires_expired_pair :
    ∃ ticked, pair.tick (fun n => ⟨1500000000 + n, .ok true⟩) = .ok ticked ∧
      FiresExpired pair (fun n => ⟨1500000000 + n, .ok true⟩) ticked := by
  obtain ⟨ticked, _, success, _, fires⟩ := tick_fires_expired pair_indexed pair_ordered
    (fun n => ⟨1500000000 + n, .ok true⟩) fun _ => rfl
  exact ⟨ticked, success, fires⟩

end HeapTimer

end XWebServer
