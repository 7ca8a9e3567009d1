import Mathlib.Data.List.Nodup
import XWebServer.Lib.Transition
import XWebServer.Timer.Operations

/-! # The timer is a finite map

`entries` reads a map from ids to deadlines and callbacks off a timer. `Acts` says what each call does
to such a map, and `refines_map` that every call on a timer that calls have built does just that, with
an exact index throughout. A call that is used as its callers use it returns when every upward sift
ends at the root.
-/

namespace XWebServer

namespace HeapTimer

open Transition System

variable {κ : Type}

/-! ## The map -/

/-- A deadline and a callback for some ids. -/
abbrev Entries (κ : Type) := ℤ → Option (ℤ × κ)

/-- The map the timer holds. -/
def entries (timer : HeapTimer κ) : Entries κ := fun id =>
  match timer.ref id with
  | none => none
  | some i => timer.heap[i]?.map fun node => (node.expires, node.cb)

/-- The id at the root of the heap. -/
def root (timer : HeapTimer κ) : Option ℤ := timer.heap[0]?.map (·.id)

/-- The ids in the order of the heap. -/
def ids (timer : HeapTimer κ) : List ℤ := timer.heap.toList.map (·.id)

theorem entries_eq_some_iff {timer : HeapTimer κ} (indexed : timer.Indexed) {id expires : ℤ} {cb : κ} :
    timer.entries id = some (expires, cb) ↔ ⟨id, expires, cb⟩ ∈ timer.heap := by
  constructor
  · intro found
    cases known : timer.ref id with
    | none => simp only [entries, known, reduceCtorEq] at found
    | some i =>
      obtain ⟨node, atI, rfl⟩ := (indexed id i).mp known
      simp only [entries, known, atI, Option.map_some, Option.some.injEq, Prod.mk.injEq] at found
      obtain ⟨rfl, rfl⟩ := found
      exact Array.mem_iff_getElem?.mpr ⟨i, atI⟩
  · intro present
    obtain ⟨i, atI⟩ := Array.mem_iff_getElem?.mp present
    have known := (indexed id i).mpr ⟨_, atI, rfl⟩
    simp only [entries, known, atI, Option.map_some]

theorem entries_of_mem {timer : HeapTimer κ} (indexed : timer.Indexed) {node : TimerNode κ}
    (present : node ∈ timer.heap) : timer.entries node.id = some (node.expires, node.cb) :=
  (entries_eq_some_iff indexed).mpr present

/-- Two timers whose heaps hold the same entries hold the same map. -/
theorem entries_congr {timer : HeapTimer κ} (indexed : timer.Indexed) {map : Entries κ}
    (same : ∀ id expires cb, map id = some (expires, cb) ↔ ⟨id, expires, cb⟩ ∈ timer.heap) :
    timer.entries = map := by
  funext id
  apply Option.ext
  intro entry
  exact (entries_eq_some_iff indexed).trans (same id entry.1 entry.2).symm

theorem entries_insert {timer timer' : HeapTimer κ} (indexed : timer.Indexed)
    (indexed' : timer'.Indexed) (node : TimerNode κ)
    (mem : ∀ other, other ∈ timer'.heap ↔
      other = node ∨ (other ∈ timer.heap ∧ other.id ≠ node.id)) :
    timer'.entries = Function.update timer.entries node.id (some (node.expires, node.cb)) := by
  apply entries_congr indexed'
  intro id expires cb
  rw [mem]
  rcases eq_or_ne id node.id with rfl | other
  · rw [Function.update_self]
    constructor
    · intro same
      cases same
      exact .inl rfl
    · rintro (same | ⟨_, other⟩)
      · rw [← same]
      · exact absurd rfl other
  · rw [Function.update_of_ne other, entries_eq_some_iff indexed]
    refine ⟨fun there => .inr ⟨there, other⟩, ?_⟩
    rintro (rfl | ⟨there, _⟩)
    · exact absurd rfl other
    · exact there

theorem entries_erase {timer timer' : HeapTimer κ} (indexed : timer.Indexed)
    (indexed' : timer'.Indexed) (id : ℤ)
    (mem : ∀ other, other ∈ timer'.heap ↔ other ∈ timer.heap ∧ other.id ≠ id) :
    timer'.entries = Function.update timer.entries id none := by
  apply entries_congr indexed'
  intro key expires cb
  rw [mem]
  rcases eq_or_ne key id with rfl | other
  · rw [Function.update_self]
    exact iff_of_false (by simp) fun both => both.2 rfl
  · rw [Function.update_of_ne other, entries_eq_some_iff indexed]
    exact ⟨fun there => ⟨there, other⟩, And.left⟩

/-- No id is in the heap twice. -/
theorem Indexed.ids_nodup {timer : HeapTimer κ} (indexed : timer.Indexed) : timer.ids.Nodup := by
  rw [ids, List.nodup_iff_getElem?_ne_getElem?]
  intro i j before inside same
  rw [List.length_map, Array.length_toList] at inside
  obtain ⟨left, atI⟩ : ∃ node, timer.heap[i]? = some node := exists_node (before.trans inside)
  obtain ⟨right, atJ⟩ : ∃ node, timer.heap[j]? = some node := exists_node inside
  simp only [List.getElem?_map, Array.getElem?_toList, atI, atJ, Option.map_some,
    Option.some.injEq] at same
  exact before.ne (indexed.unique atI atJ same)

/-! ## The calls -/

inductive Call (κ : Type) where
  | add (wild : Except Fault Bool) (id timeout now : ℤ) (cb : κ)
  | adjust (id timeout now : ℤ)
  | doWork (wild : Except Fault Bool) (id : ℤ)
  | pop (wild : Except Fault Bool)
  | tick (source : ℕ → Round)

/-- A call, with the callbacks it fires in order. -/
def perform (timer : HeapTimer κ) : Call κ → Except Fault (List κ × HeapTimer κ)
  | .add wild id timeout now cb =>
      (timer.add wild id timeout now cb).map fun target => ([], target)
  | .adjust id timeout now => (timer.adjust id timeout now).map fun target => ([], target)
  | .doWork wild id => (timer.doWork wild id).map fun worked => (worked.1.toList, worked.2)
  | .pop wild => (timer.pop wild).map fun target => ([], target)
  | .tick source =>
      (timer.tick source).map fun ticked => (ticked.fired.map (·.1.cb), ticked.timer)

/-- The timers that calls build, as long as they return. -/
def calls (κ : Type) : System (HeapTimer κ) (Call κ) where
  Init timer := timer = .new
  Step source call target := ∃ fired, source.perform call = .ok (fired, target)

/-- How the timer's callers use it: no negative id is added, an id whose timer is adjusted has one,
and only a timer that is not empty is popped. -/
def Proper (timer : HeapTimer κ) : Call κ → Prop
  | .add _ id _ _ _ => 0 ≤ id
  | .adjust id _ _ => timer.entries id ≠ none
  | .pop _ => timer.root ≠ none
  | .doWork _ _ | .tick _ => True

/-- Every upward sift of the call that reaches the root ends there. -/
def Call.EndsAtRoot : Call κ → Prop
  | .add wild _ _ _ _ | .doWork wild _ | .pop wild => wild = .ok true
  | .adjust _ _ _ => True
  | .tick source => ∀ n, (source n).wild = .ok true

/-- Rounds that find an expired entry each, and fire its callback and remove it. -/
inductive Fires : (ℕ → Round) → Entries κ → List κ → Entries κ → Prop
  | stop (source : ℕ → Round) (map : Entries κ) : Fires source map [] map
  | fire {source : ℕ → Round} {map last : Entries κ} {id expires : ℤ} {cb : κ} {fired : List κ}
      (present : map id = some (expires, cb))
      (expired : TimerNode.remaining ⟨id, expires, cb⟩ (source 0).now ≤ 0)
      (rest : Fires (fun n => source (n + 1)) (Function.update map id none) fired last) :
      Fires source map (cb :: fired) last

/-- What a call does to the map of a timer with an id at its root, and what it fires. -/
inductive Acts (root : Option ℤ) : Call κ → Entries κ → List κ → Entries κ → Prop
  | add (wild : Except Fault Bool) (id timeout now : ℤ) (cb : κ) (map : Entries κ) :
      Acts root (.add wild id timeout now cb) map []
        (Function.update map id (some (deadline timeout now, cb)))
  | adjust {id expires : ℤ} {cb : κ} {map : Entries κ} (timeout now : ℤ)
      (present : map id = some (expires, cb)) :
      Acts root (.adjust id timeout now) map []
        (Function.update map id (some (deadline timeout now, cb)))
  | absent {id : ℤ} {map : Entries κ} (wild : Except Fault Bool) (absent : map id = none) :
      Acts root (.doWork wild id) map [] map
  | doWork {id expires : ℤ} {cb : κ} {map : Entries κ} (wild : Except Fault Bool)
      (present : map id = some (expires, cb)) :
      Acts root (.doWork wild id) map [cb] (Function.update map id none)
  | pop {id expires : ℤ} {cb : κ} {map : Entries κ} (wild : Except Fault Bool)
      (atRoot : root = some id) (present : map id = some (expires, cb)) :
      Acts root (.pop wild) map [] (Function.update map id none)
  | tick {source : ℕ → Round} {map last : Entries κ} {fired : List κ}
      (fires : Fires source map fired last) : Acts root (.tick source) map fired last

/-! ## What the calls do -/

theorem entries_eq_none_iff {timer : HeapTimer κ} (indexed : timer.Indexed) {id : ℤ} :
    timer.entries id = none ↔ timer.ref id = none := by
  cases known : timer.ref id with
  | none => simp only [entries, known]
  | some i =>
    obtain ⟨node, atI, _⟩ := (indexed id i).mp known
    simp only [entries, known, atI, Option.map_some, reduceCtorEq]

/-- An entry of the map is the entry at the position of its id. -/
theorem exists_position {timer : HeapTimer κ} (indexed : timer.Indexed) {id : ℤ}
    (present : timer.entries id ≠ none) :
    ∃ i node, timer.ref id = some i ∧ timer.heap[i]? = some node ∧ node.id = id := by
  rw [ne_eq, entries_eq_none_iff indexed] at present
  obtain ⟨i, known⟩ := Option.ne_none_iff_exists'.mp present
  obtain ⟨node, atI, same⟩ := (indexed id i).mp known
  exact ⟨i, node, known, atI, same⟩

/-- Deleting an entry's position erases its id. -/
theorem del_entries {wild : Except Fault Bool} {index : ℕ} {node : TimerNode κ}
    {timer target : HeapTimer κ} (indexed : timer.Indexed)
    (found : timer.heap[index]? = some node) (run : timer.del wild index = .ok target) :
    target.Indexed ∧ target.entries = Function.update timer.entries node.id none := by
  obtain ⟨indexed', _, _, mem⟩ := del_ok indexed found run
  exact ⟨indexed', entries_erase indexed indexed' node.id mem⟩

theorem pop_entries {wild : Except Fault Bool} {timer target : HeapTimer κ}
    (indexed : timer.Indexed) (run : timer.pop wild = .ok target) :
    ∃ front, timer.heap[0]? = some front ∧ target.Indexed ∧
      target.entries = Function.update timer.entries front.id none := by
  obtain ⟨_, _, deleted⟩ := bind_ok run
  obtain ⟨_, inside, _⟩ := bind_ok deleted
  by_cases positive : 0 < timer.heap.size
  · obtain ⟨front, found⟩ := exists_node positive
    exact ⟨front, found, del_entries indexed found deleted⟩
  · rw [assert, if_neg positive] at inside
    cases inside

theorem adjust_entries {id timeout now : ℤ} {timer target : HeapTimer κ} (indexed : timer.Indexed)
    (run : timer.adjust id timeout now = .ok target) :
    target.Indexed ∧ ∃ expires cb, timer.entries id = some (expires, cb) ∧
      target.entries = Function.update timer.entries id (some (deadline timeout now, cb)) := by
  cases known : timer.ref id with
  | none =>
    obtain ⟨_, _, missing⟩ := bind_ok run
    simp only [known, reduceCtorEq] at missing
  | some i =>
    obtain ⟨node, atI, rfl⟩ := (indexed id i).mp known
    have present := Array.mem_iff_getElem?.mpr ⟨i, atI⟩
    obtain ⟨adjusted, success, indexed', _, mem⟩ := adjust_ok indexed present timeout now
    rw [success] at run
    cases run
    exact ⟨indexed', node.expires, node.cb, entries_of_mem indexed present,
      entries_insert indexed indexed' _ mem⟩

theorem doWork_entries {wild : Except Fault Bool} {id : ℤ} {worked : Option κ × HeapTimer κ}
    {timer : HeapTimer κ} (indexed : timer.Indexed) (run : timer.doWork wild id = .ok worked) :
    worked.2.Indexed ∧
      ((timer.entries id = none ∧ worked = (none, timer)) ∨
        ∃ expires cb, timer.entries id = some (expires, cb) ∧ worked.1 = some cb ∧
          worked.2.entries = Function.update timer.entries id none) := by
  cases known : timer.ref id with
  | none =>
    simp only [doWork, known, ite_self] at run
    cases run
    exact ⟨indexed, .inl ⟨(entries_eq_none_iff indexed).mpr known, rfl⟩⟩
  | some i =>
    obtain ⟨node, atI, rfl⟩ := (indexed id i).mp known
    have present := Array.mem_iff_getElem?.mpr ⟨i, atI⟩
    have occupied : timer.heap.isEmpty = false := by
      rw [Array.isEmpty_eq_false_iff]
      exact Array.ne_empty_of_mem present
    simp only [doWork, occupied, Bool.false_eq_true, if_false, known, HeapTimer.node, atI,
      ok_bind] at run
    obtain ⟨target, deleted, same⟩ := bind_ok run
    cases same
    obtain ⟨indexed', erased⟩ := del_entries indexed atI deleted
    exact ⟨indexed', .inr ⟨node.expires, node.cb, entries_of_mem indexed present, rfl, erased⟩⟩

theorem rounds_fires {bound : ℕ} {source : ℕ → Round} {timer : HeapTimer κ} {ticked : Ticked κ}
    (indexed : timer.Indexed) (run : timer.rounds bound source = .ok ticked) :
    Fires source timer.entries (ticked.fired.map (·.1.cb)) ticked.timer.entries := by
  induction bound generalizing source timer ticked with
  | zero =>
    cases run
    exact .stop source timer.entries
  | succ bound ih =>
    cases front : timer.heap[0]? with
    | none =>
      simp only [rounds, front] at run
      cases run
      exact .stop source timer.entries
    | some node =>
      rcases rounds_succ front run with ⟨_, rfl⟩ | ⟨expired, popped, rest, success, tail, rfl⟩
      · exact .stop source timer.entries
      · obtain ⟨first, found, indexed', erased⟩ := pop_entries indexed success
        rw [front] at found
        cases found
        have further := ih indexed' tail
        rw [erased] at further
        exact .fire (entries_of_mem indexed (Array.mem_iff_getElem?.mpr ⟨0, front⟩)) expired further

/-- A call that returns does to the map what it is for, and leaves an exact index. -/
theorem perform_acts {call : Call κ} {fired : List κ} {timer target : HeapTimer κ}
    (indexed : timer.Indexed) (run : timer.perform call = .ok (fired, target)) :
    target.Indexed ∧ Acts timer.root call timer.entries fired target.entries := by
  cases call with
  | add wild id timeout now cb =>
    obtain ⟨added, success, same⟩ := map_ok run
    cases same
    obtain ⟨indexed', _, mem⟩ := add_ok indexed success
    refine ⟨indexed', ?_⟩
    rw [entries_insert indexed indexed' ⟨id, deadline timeout now, cb⟩ mem]
    exact .add wild id timeout now cb timer.entries
  | adjust id timeout now =>
    obtain ⟨adjusted, success, same⟩ := map_ok run
    cases same
    obtain ⟨indexed', expires, cb, present, changed⟩ := adjust_entries indexed success
    refine ⟨indexed', ?_⟩
    rw [changed]
    exact .adjust timeout now present
  | doWork wild id =>
    obtain ⟨worked, success, same⟩ := map_ok run
    cases same
    obtain ⟨indexed', ⟨absent, rfl⟩ | ⟨expires, cb, present, fires, erased⟩⟩ :=
      doWork_entries indexed success
    · exact ⟨indexed', .absent wild absent⟩
    · rw [fires, erased]
      exact ⟨indexed', .doWork wild present⟩
  | pop wild =>
    obtain ⟨popped, success, same⟩ := map_ok run
    cases same
    obtain ⟨front, found, indexed', erased⟩ := pop_entries indexed success
    refine ⟨indexed', ?_⟩
    rw [erased]
    exact .pop wild (by rw [root, found, Option.map_some])
      (entries_of_mem indexed (Array.mem_iff_getElem?.mpr ⟨0, found⟩))
  | tick source =>
    obtain ⟨ticked, success, same⟩ := map_ok run
    cases same
    exact ⟨(rounds_ok indexed success).indexed, .tick (rounds_fires indexed success)⟩

/-! ## When the calls return -/

theorem add_ends {id : ℤ} {timer : HeapTimer κ} (indexed : timer.Indexed) (natural : 0 ≤ id)
    (timeout now : ℤ) (cb : κ) : ∃ target, timer.add (.ok true) id timeout now cb = .ok target := by
  cases known : timer.ref id with
  | none =>
    obtain ⟨pushed, _⟩ := push_ok indexed ⟨id, deadline timeout now, cb⟩ known
    obtain ⟨target, success⟩ := siftup_ends (n := timer.heap.size + 1) pushed (Nat.lt_succ_self _)
      (by rw [Array.size_push])
    exact ⟨target, by simp only [add, assert_of natural, known, ok_bind, success]⟩
  | some i =>
    obtain ⟨old, found, rfl⟩ := (indexed id i).mp known
    obtain ⟨assigned, success, stillIndexed, size, _⟩ := assign_ok indexed found
      (fun node => { node with expires := deadline timeout now, cb }) rfl
    obtain ⟨target, repaired⟩ :=
      resift_ends stillIndexed (size ▸ inside_of found) (le_refl assigned.heap.size)
    exact ⟨target, by simp only [add, assert_of natural, known, ok_bind, success, repaired]⟩

theorem eraseBack_ends {timer : HeapTimer κ} (indexed : timer.Indexed)
    (occupied : 0 < timer.heap.size) : ∃ target, timer.eraseBack = .ok target := by
  obtain ⟨last, size⟩ : ∃ last, timer.heap.size = last + 1 := ⟨timer.heap.size - 1, by omega⟩
  obtain ⟨node, found⟩ := exists_node (by omega : last < timer.heap.size)
  obtain ⟨target, success, _⟩ := eraseBack_ok indexed size found
  exact ⟨target, success⟩

theorem del_ends {index : ℕ} {timer : HeapTimer κ} (indexed : timer.Indexed)
    (inside : index < timer.heap.size) : ∃ target, timer.del (.ok true) index = .ok target := by
  rw [del, assert_of inside, ok_bind]
  dsimp only
  split_ifs with notLast
  · obtain ⟨swapped, success, rearranged, _⟩ :=
      swapNode_ok indexed inside (by omega : timer.heap.size - 1 < timer.heap.size)
    have size := rearranged.size
    obtain ⟨repaired, resifted⟩ := resift_ends rearranged.indexed notLast (by omega)
    obtain ⟨sifted, _⟩ := resift_ok rearranged.indexed notLast (by omega) resifted
    have size' := sifted.size
    rw [success, ok_bind, resifted, ok_bind]
    exact eraseBack_ends sifted.indexed (by omega)
  · exact eraseBack_ends indexed (by omega)

theorem pop_ends {timer : HeapTimer κ} (indexed : timer.Indexed) (occupied : 0 < timer.heap.size) :
    ∃ target, timer.pop (.ok true) = .ok target := by
  have full : timer.heap.isEmpty = false := by
    rw [Array.isEmpty_eq_false_iff]
    exact Array.size_pos_iff.mp occupied
  rw [pop, assert_of full, ok_bind]
  exact del_ends indexed occupied

theorem doWork_ends {timer : HeapTimer κ} (indexed : timer.Indexed) (id : ℤ) :
    ∃ worked, timer.doWork (.ok true) id = .ok worked := by
  rw [doWork]
  split_ifs
  · exact ⟨_, rfl⟩
  · cases known : timer.ref id with
    | none => exact ⟨_, rfl⟩
    | some i =>
      obtain ⟨node, atI, _⟩ := (indexed id i).mp known
      obtain ⟨target, success⟩ := del_ends indexed (inside_of atI)
      exact ⟨(some node.cb, target), by simp only [HeapTimer.node, atI, success, ok_bind]⟩

theorem rounds_ends {source : ℕ → Round} (ends : ∀ n, (source n).wild = .ok true) {bound : ℕ}
    {timer : HeapTimer κ} (indexed : timer.Indexed) :
    ∃ ticked, timer.rounds bound source = .ok ticked := by
  induction bound generalizing source timer with
  | zero => exact ⟨_, rfl⟩
  | succ bound ih =>
    cases front : timer.heap[0]? with
    | none => exact ⟨⟨[], none, timer⟩, by simp only [rounds, front]⟩
    | some node =>
      obtain ⟨popped, success⟩ := pop_ends indexed (inside_of front)
      obtain ⟨rest, tail⟩ := ih (fun n => ends (n + 1)) (pop_ok indexed front success).1
      simp only [rounds, front, ends 0, success, tail, ok_bind]
      split_ifs
      · exact ⟨_, rfl⟩
      · exact ⟨_, rfl⟩

/-- A call used as it should be returns, when its upward sifts end at the root. -/
theorem perform_ends {call : Call κ} {timer : HeapTimer κ} (indexed : timer.Indexed)
    (proper : timer.Proper call) (ends : call.EndsAtRoot) :
    ∃ fired target, timer.perform call = .ok (fired, target) := by
  cases call with
  | add wild id timeout now cb =>
    obtain rfl : wild = .ok true := ends
    obtain ⟨target, success⟩ := add_ends indexed proper timeout now cb
    exact ⟨[], target, by rw [perform, success]; rfl⟩
  | adjust id timeout now =>
    obtain ⟨i, node, _, atI, rfl⟩ := exists_position indexed proper
    obtain ⟨target, success, _⟩ :=
      adjust_ok indexed (Array.mem_iff_getElem?.mpr ⟨i, atI⟩) timeout now
    exact ⟨[], target, by rw [perform, success]; rfl⟩
  | doWork wild id =>
    obtain rfl : wild = .ok true := ends
    obtain ⟨worked, success⟩ := doWork_ends indexed id
    exact ⟨_, _, by rw [perform, success]; rfl⟩
  | pop wild =>
    obtain rfl : wild = .ok true := ends
    obtain ⟨id, atRoot⟩ := Option.ne_none_iff_exists'.mp proper
    obtain ⟨front, found, _⟩ := Option.map_eq_some_iff.mp atRoot
    obtain ⟨target, success⟩ := pop_ends indexed (inside_of found)
    exact ⟨[], target, by rw [perform, success]; rfl⟩
  | tick source =>
    obtain ⟨ticked, success⟩ := rounds_ends ends indexed
    exact ⟨_, _, by rw [perform, tick, success]; rfl⟩

/-! ## Every run -/

theorem reachable_indexed {timer : HeapTimer κ} (reached : (calls κ).Reachable timer) :
    timer.Indexed := by
  apply reached.invariant
  · rintro start rfl
    exact new_indexed
  · rintro source call target indexed ⟨fired, run⟩
    exact (perform_acts indexed run).1

/-- In every timer that calls have built the index is exact, each call that returns does to the map
what `Acts` says and nothing else, and a call used as it should be returns when its upward sifts end
at the root. -/
theorem refines_map {timer : HeapTimer κ} (reached : (calls κ).Reachable timer) :
    timer.Indexed ∧ timer.ids.Nodup ∧
      (∀ call fired target, timer.perform call = .ok (fired, target) →
        Acts timer.root call timer.entries fired target.entries) ∧
      ∀ call : Call κ, timer.Proper call → call.EndsAtRoot →
        ∃ fired target, timer.perform call = .ok (fired, target) := by
  have indexed := reachable_indexed reached
  refine ⟨indexed, indexed.ids_nodup, ?_, ?_⟩
  · intro call fired target run
    exact (perform_acts indexed run).2
  · intro call proper ends
    exact perform_ends indexed proper ends

/-- The timer after a call, or as it was when the call breaks off. -/
def next (timer : HeapTimer κ) (call : Call κ) : HeapTimer κ :=
  match timer.perform call with
  | .ok done => done.2
  | .error _ => timer

theorem calls_next {timer : HeapTimer κ} {call : Call κ}
    (completes : (timer.perform call).isOk = true) :
    (calls κ).Step timer call (timer.next call) := by
  rw [next]
  cases outcome : timer.perform call with
  | error fault =>
    rw [outcome] at completes
    cases completes
  | ok done => exact ⟨done.1, outcome⟩

/-- Two ids added, the first worked off and added again: `doWork` can fire its new callback. -/
private def readded : HeapTimer ℕ :=
  (((new.next (.add (.ok true) 5 100 0 0)).next (.add (.ok true) 7 50 0 1)).next
    (.doWork (.ok true) 5)).next (.add (.ok true) 5 20 0 2)

private theorem readded_reachable : (calls ℕ).Reachable readded :=
  .step (.step (.step (.step (.init rfl) (calls_next (by decide +kernel)))
    (calls_next (by decide +kernel))) (calls_next (by decide +kernel)))
    (calls_next (by decide +kernel))

theorem refines_map_readded : readded.ids = [5, 7] ∧
    ∃ fired target, readded.perform (.doWork (.ok true) 5) = .ok (fired, target) ∧
      Acts readded.root (.doWork (.ok true) 5) readded.entries fired target.entries := by
  refine ⟨by decide +kernel, ?_⟩
  obtain ⟨_, _, acts, ends⟩ := refines_map readded_reachable
  obtain ⟨fired, target, run⟩ := ends (.doWork (.ok true) 5) trivial rfl
  exact ⟨fired, target, run, acts _ fired target run⟩

end HeapTimer

end XWebServer
