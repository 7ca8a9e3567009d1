import XWebServer.Timer.Order

/-! # How long the event loop waits

`GetNextTick` reads the clock once more after `tick`, keeps the milliseconds left in a `size_t`, and
returns them as an `int`. Its test for a negative number is never true, so a deadline that passes
between the two readings becomes a negative timeout, and `epoll_wait` waits without one.
-/

namespace XWebServer

/-- How long `Epoller::Wait` waits for an event at most; nothing ends the wait for a negative number. -/
def Epoller.wait (timeoutMs : ℤ) : Option ℤ := if timeoutMs < 0 then none else some timeoutMs

namespace HeapTimer

variable {κ : Type}

/-- The milliseconds as `size_t`, the test for a negative number, and the conversion to `int`. -/
def toTimeout (count : ℤ) : ℤ :=
  let res := BitVec.ofInt 64 count
  let res := if res < 0 then 0 else res
  (res.setWidth 32).toInt

/-- The timeout, and what `tick` did before; `now` is the reading made behind `tick`. -/
def getNextTick (source : ℕ → Round) (now : ℤ) (timer : HeapTimer κ) :
    Except Fault (ℤ × Ticked κ) := do
  let ticked ← timer.tick source
  match ticked.timer.heap[0]? with
  | none => .ok (toTimeout (-1), ticked)
  | some front => .ok (toTimeout (front.remaining now), ticked)

/-- The deadline comes from an `int` of milliseconds and an earlier reading of the clock. -/
def Armed (node : TimerNode κ) (now : ℤ) : Prop :=
  ∃ timeout set : ℤ, timeout < 2 ^ 31 ∧ set ≤ now ∧ node.expires = deadline timeout set

/-- A wait with this timeout is over when a pending timer is due. -/
structure Wakes (ticked : Ticked κ) (now res : ℤ) : Prop where
  blocks : Epoller.wait res = none → ticked.timer.heap.size = 0
  root : ∀ root, ticked.timer.heap[0]? = some root → 0 ≤ res ∧ res ≤ max 0 (root.remaining now)
  pending : ∀ node ∈ ticked.timer.heap, res ≤ max 0 (node.remaining now)

/-- The conversions keep the low 32 bits and nothing else. -/
theorem toTimeout_eq (count : ℤ) : toTimeout count = count.bmod (2 ^ 32) := by
  have natural : ¬ BitVec.ofInt 64 count < 0 := BitVec.not_lt_zero
  have nonneg : 0 ≤ count % ((2 ^ 64 : ℕ) : ℤ) := Int.emod_nonneg _ (by decide)
  have low : count % ((2 ^ 64 : ℕ) : ℤ) % ((2 ^ 32 : ℕ) : ℤ) = count % ((2 ^ 32 : ℕ) : ℤ) :=
    Int.emod_emod_of_dvd count (by decide)
  rw [toTimeout, if_neg natural, BitVec.toInt_setWidth, BitVec.toNat_ofInt,
    Int.toNat_of_nonneg nonneg, Int.bmod_def, low, Int.bmod_def]

/-- An entry never has more milliseconds left than its timeout. -/
theorem Armed.remaining_lt {node : TimerNode κ} {now : ℤ} (armed : Armed node now) :
    node.remaining now < 2 ^ 31 := by
  obtain ⟨timeout, set, small, before, expires⟩ := armed
  have le : node.remaining now ≤ (timeout * 1000000).tdiv 1000000 := by
    apply Int.tdiv_le_tdiv (by decide)
    rw [expires, deadline]
    omega
  rw [Int.mul_tdiv_cancel timeout (by decide)] at le
  exact le.trans_lt small

/-- A count below `2 ^ 31` is right when it is not negative, and 0 stands for one that is. -/
theorem toTimeout_bounds_iff {count : ℤ} (small : count < 2 ^ 31) :
    0 ≤ toTimeout count ∧ toTimeout count ≤ max 0 count ↔ 0 ≤ count ∨ 2 ^ 32 ∣ count := by
  rw [toTimeout_eq]
  constructor
  · rintro ⟨nonneg, le⟩
    by_contra wrong
    obtain ⟨negative, notMultiple⟩ := not_or.mp wrong
    have zero : count.bmod (2 ^ 32) = 0 := by omega
    exact notMultiple (Int.dvd_of_bmod_eq_zero zero)
  · rintro (nonneg | multiple)
    · have exact : count.bmod (2 ^ 32) = count :=
        Int.bmod_eq_of_le_mul_two (by omega) (by omega)
      omega
    · rw [Int.bmod_eq_zero_of_dvd multiple]
      omega

/-- `GetNextTick` returns when `tick` does. -/
theorem getNextTick_of_tick {source : ℕ → Round} {timer : HeapTimer κ} {ticked : Ticked κ}
    (run : timer.tick source = .ok ticked) (now : ℤ) :
    ∃ res, timer.getNextTick source now = .ok (res, ticked) := by
  rw [getNextTick, run, ok_bind]
  cases ticked.timer.heap[0]? with
  | none => exact ⟨_, rfl⟩
  | some front => exact ⟨_, rfl⟩

theorem getNextTick_eq {source : ℕ → Round} {now res : ℤ} {timer : HeapTimer κ} {ticked : Ticked κ}
    (run : timer.getNextTick source now = .ok (res, ticked)) :
    timer.tick source = .ok ticked ∧
      res = toTimeout ((ticked.timer.heap[0]?.map (·.remaining now)).getD (-1)) := by
  rw [getNextTick] at run
  obtain ⟨other, success, run⟩ := bind_ok run
  cases front : other.timer.heap[0]? with
  | none =>
    simp only [front] at run
    cases run
    rw [front]
    exact ⟨success, rfl⟩
  | some root =>
    simp only [front] at run
    cases run
    rw [front]
    exact ⟨success, rfl⟩

theorem wakes_empty {ticked : Ticked κ} {now res : ℤ} (front : ticked.timer.heap[0]? = none) :
    Wakes ticked now res := by
  have empty : ticked.timer.heap.size = 0 := Nat.le_zero.mp (Array.getElem?_eq_none_iff.mp front)
  refine ⟨fun _ => empty, ?_, ?_⟩
  · simp [front]
  · intro node there
    obtain ⟨k, found⟩ := Array.mem_iff_getElem?.mp there
    exact absurd (inside_of found) (by omega)

/-- With a timer at the root, it is the root that the timeout has to be right for. -/
theorem wakes_root_iff {ticked : Ticked κ} {now res : ℤ} {root : TimerNode κ}
    (front : ticked.timer.heap[0]? = some root) (ordered : ticked.timer.HeapOrdered) :
    Wakes ticked now res ↔ 0 ≤ res ∧ res ≤ max 0 (root.remaining now) := by
  constructor
  · intro wakes
    exact wakes.root root front
  · rintro ⟨nonneg, le⟩
    refine ⟨?_, ?_, ?_⟩
    · intro forever
      rw [Epoller.wait, if_neg (not_lt.mpr nonneg)] at forever
      cases forever
    · intro other found
      obtain rfl := Option.some.inj (front.symm.trans found)
      exact ⟨nonneg, le⟩
    · intro node there
      have least : root.expires ≤ node.expires := by
        rw [← key_of front]
        exact ordered.least there
      exact le.trans (max_le_max_left 0 (remaining_mono least now))

/-- `GetNextTick` returns when every upward sift ends at the root. Its timeout never makes the event
loop sleep past a pending timer exactly when, at its own reading of the clock, the deadline at the root
has not passed by a millisecond or more, unless it has by a multiple of `2 ^ 32`. -/
theorem getNextTick_wakes_iff {timer : HeapTimer κ} (indexed : timer.Indexed)
    (ordered : timer.HeapOrdered) (source : ℕ → Round) {now : ℤ}
    (armed : ∀ node ∈ timer.heap, Armed node now) :
    ((∀ n, (source n).wild = .ok true) →
      ∃ res ticked, timer.getNextTick source now = .ok (res, ticked)) ∧
    ∀ res ticked, timer.getNextTick source now = .ok (res, ticked) →
      (Wakes ticked now res ↔ ∀ root, ticked.timer.heap[0]? = some root →
        0 ≤ root.remaining now ∨ 2 ^ 32 ∣ root.remaining now) := by
  constructor
  · intro ends
    obtain ⟨ticked, run⟩ := rounds_ends ends indexed
    obtain ⟨res, returned⟩ := getNextTick_of_tick run now
    exact ⟨res, ticked, returned⟩
  · intro res ticked returned
    obtain ⟨run, same⟩ := getNextTick_eq returned
    have expires := rounds_ok indexed run
    cases front : ticked.timer.heap[0]? with
    | none => exact iff_of_true (wakes_empty front) (by simp)
    | some root =>
      have atRoot : root ∈ ticked.timer.heap := Array.mem_iff_getElem?.mpr ⟨0, front⟩
      have small := (armed root ((expires.mem root).mp atRoot).1).remaining_lt
      rw [front, Option.map_some, Option.getD_some] at same
      simp only [Option.some.injEq, forall_eq']
      rw [wakes_root_iff front (expires.ordered ordered), ← toTimeout_bounds_iff small, ← same]

/-- One entry, due a second after the clock's start. -/
private def single : HeapTimer ℕ where
  heap := #[].push ⟨5, 1000000000, 0⟩
  ref := Function.update (fun _ => none) 5 (some 0)

private theorem single_indexed : single.Indexed :=
  (push_ok new_indexed (⟨5, 1000000000, 0⟩ : TimerNode ℕ) rfl).1

private theorem single_ordered : single.HeapOrdered := by
  intro i positive inside
  have none : i < 1 := inside
  omega

private theorem single_armed {now : ℤ} (later : 0 ≤ now) : ∀ node ∈ single.heap, Armed node now := by
  intro node there
  obtain rfl : node = ⟨5, 1000000000, 0⟩ := by simpa [single] using there
  exact ⟨1000, 0, by decide, later, rfl⟩

/-- Five milliseconds before the deadline nothing fires. -/
private theorem single_tick : single.tick (fun _ => ⟨995000000, .ok true⟩) =
    .ok ⟨[], some 995000000, single⟩ := rfl

/-- Both readings come before the deadline. -/
theorem getNextTick_wakes_single : ∃ res ticked,
    single.getNextTick (fun _ => ⟨995000000, .ok true⟩) 996000000 = .ok (res, ticked) ∧
      Wakes ticked 996000000 res := by
  obtain ⟨_, exact⟩ := getNextTick_wakes_iff single_indexed single_ordered
    (fun _ => ⟨995000000, .ok true⟩) (single_armed (show (0 : ℤ) ≤ 996000000 by decide))
  obtain ⟨res, run⟩ := getNextTick_of_tick single_tick 996000000
  refine ⟨res, _, run, (exact res _ run).mpr fun root front => .inl ?_⟩
  obtain rfl := Option.some.inj front
  decide

/-- The deadline passes between the two readings, and the event loop waits for ever. -/
theorem not_forall_getNextTick_wakes : ¬ ∀ (timer : HeapTimer ℕ) (source : ℕ → Round) (now : ℤ),
    timer.Indexed → timer.HeapOrdered → (∀ node ∈ timer.heap, Armed node now) →
      (∀ n, (source n).wild = .ok true) → (∀ m n, m ≤ n → (source m).now ≤ (source n).now) →
        (∀ n, (source n).now ≤ now) → ∀ res ticked,
          timer.getNextTick source now = .ok (res, ticked) → Wakes ticked now res := by
  intro wakes
  obtain ⟨res, run⟩ := getNextTick_of_tick single_tick 1005000000
  obtain ⟨_, same⟩ := getNextTick_eq run
  have returned : res = -5 := same
  have forever := (wakes single _ 1005000000 single_indexed single_ordered (single_armed (by decide))
    (fun _ => rfl) (fun _ _ _ => le_rfl) (fun _ => by decide) res _ run).blocks
  rw [returned] at forever
  exact absurd (forever rfl) (by decide)

end HeapTimer

end XWebServer
