import XWebServer.Timer.Refinement

/-! # The subscripts of the heap

A run of calls with every subscript checked breaks off at the first one that is out of range. The
first `add` of a run makes such a subscript: it sifts up from the root, whose parent is `(0 - 1) / 2`.
The calls that come before it find an empty heap and use no subscript.
-/

namespace XWebServer

namespace HeapTimer

variable {κ : Type}

/-- The call with every subscript checked. No vector has more than `2 ^ 63 - 1` entries, so the
element that an upward sift at the root compares with is not there. -/
def Call.checked : Call κ → Call κ
  | .add _ id timeout now cb => .add (.error .outOfRange) id timeout now cb
  | .adjust id timeout now => .adjust id timeout now
  | .doWork _ id => .doWork (.error .outOfRange) id
  | .pop _ => .pop (.error .outOfRange)
  | .tick source => .tick fun n => ⟨(source n).now, .error .outOfRange⟩

def Call.isAdd : Call κ → Bool
  | .add _ _ _ _ _ => true
  | .adjust _ _ _ | .doWork _ _ | .pop _ | .tick _ => false

/-- The timer after some calls with every subscript checked. -/
def performAll : List (Call κ) → HeapTimer κ → Except Fault (HeapTimer κ)
  | [], timer => .ok timer
  | call :: rest, timer => do
      let (_, target) ← timer.perform call.checked
      performAll rest target

/-- Every call that the run gets to is used as it should be. -/
def ProperRun : List (Call κ) → HeapTimer κ → Prop
  | [], _ => True
  | call :: rest, timer => timer.Proper call ∧
      ∀ fired target, timer.perform call.checked = .ok (fired, target) → ProperRun rest target

/-- The first entry is sifted up from the root. -/
theorem add_outOfRange {id : ℤ} (natural : 0 ≤ id) (timeout now : ℤ) (cb : κ) :
    (new : HeapTimer κ).add (.error .outOfRange) id timeout now cb = .error .outOfRange := by
  simp only [add, assert_of natural, ok_bind, new, siftup, Array.size_empty]
  rw [siftupFrom]
  rfl

/-- A call on the empty timer that adds no entry uses no subscript and changes nothing. -/
theorem perform_new {call : Call κ} (proper : new.Proper call) (notAdd : call.isAdd = false) :
    new.perform call.checked = .ok ([], new) := by
  cases call with
  | add wild id timeout now cb => cases notAdd
  | adjust id timeout now => exact absurd rfl proper
  | doWork wild id => rfl
  | pop wild => exact absurd rfl proper
  | tick source => rfl

/-- With every subscript checked, the calls of a run from the empty timer return exactly when none of
them adds an entry. -/
theorem performAll_iff {calls : List (Call κ)} (proper : new.ProperRun calls) :
    (∃ target, new.performAll calls = .ok target) ↔ ∀ call ∈ calls, call.isAdd = false := by
  induction calls with
  | nil => exact iff_of_true ⟨new, rfl⟩ (by simp)
  | cons call rest ih =>
    obtain ⟨first, others⟩ := proper
    rw [List.forall_mem_cons, performAll]
    cases adds : call.isAdd with
    | false =>
      have same := perform_new first adds
      rw [same, ok_bind, ih (others [] new same)]
      exact (and_iff_right rfl).symm
    | true =>
      cases call with
      | add wild id timeout now cb =>
        rw [Call.checked, perform, add_outOfRange first]
        exact iff_of_false (by rintro ⟨target, run⟩; cases run) (by simp)
      | adjust | doWork | pop | tick => cases adds

theorem performAll_doWork_tick :
    ∃ target, (new : HeapTimer ℕ).performAll [.doWork (.ok true) 3, .tick fun n => ⟨n, .ok true⟩] =
      .ok target := by
  apply (performAll_iff _).mpr
  · decide
  · exact ⟨trivial, fun _ _ _ => ⟨trivial, fun _ _ _ => trivial⟩⟩

/-- One `add` to the empty timer. -/
theorem performAll_add : (new : HeapTimer ℕ).ProperRun [.add (.ok true) 3 100 0 0] ∧
    (new : HeapTimer ℕ).performAll [.add (.ok true) 3 100 0 0] = .error .outOfRange := by
  have natural : (0 : ℤ) ≤ 3 := by decide
  refine ⟨⟨natural, fun _ _ _ => trivial⟩, ?_⟩
  rw [performAll, Call.checked, perform, add_outOfRange natural]
  rfl

end HeapTimer

end XWebServer
