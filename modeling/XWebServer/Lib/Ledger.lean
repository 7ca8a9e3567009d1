import Mathlib.Data.List.Basic

/-! # What is held after acquisitions and releases

A log of events acquires and releases resources. `replay` is what is held after it, and it is missing
when the log releases something that was not held.
-/

namespace Ledger

variable {ρ : Type*}

inductive Event (ρ : Type*) where
  | acquire (resource : ρ)
  | release (resource : ρ)

variable [DecidableEq ρ]

/-- What is held after one event. -/
def after (held : List ρ) : Event ρ → Option (List ρ)
  | .acquire resource => some (resource :: held)
  | .release resource => if resource ∈ held then some (held.erase resource) else none

/-- What is held after a log. -/
def replay (events : List (Event ρ)) (held : List ρ) : Option (List ρ) := events.foldlM after held

@[simp] theorem replay_nil (held : List ρ) : replay [] held = some held := rfl

@[simp] theorem replay_acquire (resource : ρ) (events : List (Event ρ)) (held : List ρ) :
    replay (.acquire resource :: events) held = replay events (resource :: held) := rfl

theorem replay_release {resource : ρ} {held : List ρ} (holds : resource ∈ held)
    (events : List (Event ρ)) :
    replay (.release resource :: events) held = replay events (held.erase resource) := by
  rw [replay, List.foldlM_cons, after, if_pos holds]
  rfl

/-- A log replays in pieces. -/
theorem replay_append (front back : List (Event ρ)) (held : List ρ) :
    replay (front ++ back) held = (replay front held).bind (replay back) := by
  rw [replay, List.foldlM_append]
  rfl

end Ledger
