import Mathlib.Data.Nat.Notation
import Mathlib.Tactic.TypeStar

/-! # Labelled transition systems

A system has start states and labelled steps. `Reachable` is every state some run ends in, and
`Reachable.invariant` is the one induction every safety property uses. `restrict` keeps only the
steps whose source state and label pass a guard, so a property of "every run whose steps all meet
the guard" is a property of the restricted system's reachable states.

`Reachable.run` builds a concrete run of a step function from one check that its steps pass.

`Path` is a finite run between two states, and `Steps` counts its steps. When every step of a coarse
system is a path of a fine one, what holds in the reachable states of the fine system holds in those of
the coarse one.
-/

namespace Transition

/-- Start states and labelled steps. -/
structure System (State Label : Type*) where
  Init : State → Prop
  Step : State → Label → State → Prop

namespace System

variable {State Label : Type*}

/-- The states in which a run from a start state can end. -/
inductive Reachable (system : System State Label) : State → Prop
  | init {start : State} : system.Init start → Reachable system start
  | step {source target : State} {label : Label} :
      Reachable system source → system.Step source label target → Reachable system target

/-- The same start states, and only the steps that pass the guard. -/
def restrict (system : System State Label) (guard : State → Label → Prop) :
    System State Label where
  Init := system.Init
  Step source label target := system.Step source label target ∧ guard source label

variable {system : System State Label}

/-- What holds at the start and is kept by every step holds in every reachable state. -/
theorem Reachable.invariant {P : State → Prop} (base : ∀ start, system.Init start → P start)
    (keep : ∀ source label target, P source → system.Step source label target → P target)
    {state : State} (reached : system.Reachable state) : P state := by
  induction reached with
  | init start => exact base _ start
  | step _ move ih => exact keep _ _ _ ih move

/-- Dropping the guard only adds runs. -/
theorem Reachable.of_restrict {guard : State → Label → Prop} {state : State}
    (reached : (system.restrict guard).Reachable state) : system.Reachable state := by
  induction reached with
  | init start => exact .init start
  | step _ move ih => exact .step ih move.1

theorem Reachable.weaken {guard guard' : State → Label → Prop}
    (weaker : ∀ state label, guard state label → guard' state label) {state : State}
    (reached : (system.restrict guard).Reachable state) : (system.restrict guard').Reachable state := by
  induction reached with
  | init start => exact .init start
  | step _ move ih => exact .step ih ⟨move.1, weaker _ _ move.2⟩

/-- A guard that every step passes removes no run. -/
theorem Reachable.to_restrict {guard : State → Label → Prop}
    (passes : ∀ source label target, system.Step source label target → guard source label)
    {state : State} (reached : system.Reachable state) : (system.restrict guard).Reachable state := by
  induction reached with
  | init start => exact .init start
  | step _ move ih => exact .step ih ⟨move, passes _ _ _ move⟩

/-- An invariant of the guarded runs, whose step lemma may use the guard and any property of the
unrestricted reachable states. -/
theorem Reachable.guarded_invariant {guard : State → Label → Prop} {P Q : State → Prop}
    (known : ∀ state, system.Reachable state → Q state)
    (base : ∀ start, system.Init start → P start)
    (keep : ∀ source label target, Q source → P source → guard source label →
      system.Step source label target → P target)
    {state : State} (reached : (system.restrict guard).Reachable state) : P state := by
  induction reached with
  | init start => exact base _ start
  | step before move ih => exact keep _ _ _ (known _ before.of_restrict) ih move.2 move.1

/-! ## Runs of a step function -/

/-- Along these labels every step passes. -/
def Along (step : State → Label → State) (passes : State → Label → Prop) : State → List Label → Prop
  | _, [] => True
  | state, label :: rest => passes state label ∧ Along step passes (step state label) rest

instance decidableAlong (step : State → Label → State) (passes : State → Label → Prop)
    [∀ state label, Decidable (passes state label)] :
    ∀ state labels, Decidable (Along step passes state labels)
  | _, [] => .isTrue trivial
  | state, label :: rest =>
      have := decidableAlong step passes (step state label) rest
      inferInstanceAs (Decidable (passes state label ∧ Along step passes (step state label) rest))

/-- A run whose steps pass ends in a reachable state. -/
theorem Reachable.run {step : State → Label → State} {passes : State → Label → Prop} {state : State}
    {labels : List Label} (along : Along step passes state labels)
    (moves : ∀ state label, passes state label → system.Step state label (step state label))
    (reached : system.Reachable state) : system.Reachable (labels.foldl step state) := by
  induction labels generalizing state with
  | nil => exact reached
  | cons label rest ih => exact ih along.2 (.step reached (moves _ _ along.1))

/-! ## Coarse and fine steps -/

/-- A finite run from one state to another. -/
inductive Path (system : System State Label) : State → State → Prop
  | refl (state : State) : Path system state state
  | step {first middle last : State} {label : Label} :
      Path system first middle → system.Step middle label last → Path system first last

theorem Path.single {source target : State} {label : Label} (move : system.Step source label target) :
    system.Path source target :=
  .step (.refl source) move

theorem Path.trans {first middle last : State} (before : system.Path first middle)
    (after : system.Path middle last) : system.Path first last := by
  induction after with
  | refl => exact before
  | step _ move ih => exact .step ih move

theorem Path.of_restrict {guard : State → Label → Prop} {source target : State}
    (path : (system.restrict guard).Path source target) : system.Path source target := by
  induction path with
  | refl => exact .refl _
  | step _ move ih => exact .step ih move.1

theorem Path.weaken {guard guard' : State → Label → Prop}
    (weaker : ∀ state label, guard state label → guard' state label) {source target : State}
    (path : (system.restrict guard).Path source target) :
    (system.restrict guard').Path source target := by
  induction path with
  | refl => exact .refl _
  | step _ move ih => exact .step ih ⟨move.1, weaker _ _ move.2⟩

theorem Reachable.path {source target : State} (reached : system.Reachable source)
    (path : system.Path source target) : system.Reachable target := by
  induction path with
  | refl => exact reached
  | step _ move ih => exact .step ih move

/-- The reachable states of a coarse system are reachable in a fine system that has a path for each of
its steps. -/
theorem Reachable.of_paths {Coarse : Type*} {coarse : System State Coarse}
    (init : ∀ start, coarse.Init start → system.Init start)
    (simulates : ∀ source label target, system.Reachable source → coarse.Step source label target →
      system.Path source target)
    {state : State} (reached : coarse.Reachable state) : system.Reachable state := by
  induction reached with
  | init start => exact .init (init _ start)
  | step _ move ih => exact ih.path (simulates _ _ _ ih move)

/-- Every reachable state of a system is related to a reachable state of one that simulates its steps. -/
theorem Reachable.simulated {Abstract Move : Type*} {coarse : System Abstract Move}
    {R : State → Abstract → Prop}
    (init : ∀ start, system.Init start → ∃ abstract, coarse.Init abstract ∧ R start abstract)
    (simulates : ∀ source label target abstract, coarse.Reachable abstract → R source abstract →
      system.Step source label target → ∃ next, coarse.Path abstract next ∧ R target next)
    {state : State} (reached : system.Reachable state) :
    ∃ abstract, coarse.Reachable abstract ∧ R state abstract := by
  induction reached with
  | init start =>
    obtain ⟨abstract, begins, related⟩ := init _ start
    exact ⟨abstract, .init begins, related⟩
  | step _ move ih =>
    obtain ⟨abstract, before, related⟩ := ih
    obtain ⟨next, path, after⟩ := simulates _ _ _ _ before related move
    exact ⟨next, before.path path, after⟩

/-- What every step keeps, a path keeps. -/
theorem Path.invariant {P : State → Prop}
    (keeps : ∀ source label target, P source → system.Step source label target → P target)
    {source target : State} (start : P source) (path : system.Path source target) : P target := by
  induction path with
  | refl => exact start
  | step _ move ih => exact keeps _ _ _ ih move

/-- A finite run, with the number of its steps. -/
inductive Steps (system : System State Label) : State → ℕ → State → Prop
  | refl (state : State) : Steps system state 0 state
  | step {first middle last : State} {label : Label} {n : ℕ} :
      Steps system first n middle → system.Step middle label last → Steps system first (n + 1) last

/-- A run of a step function has as many steps as labels. -/
theorem Steps.run {step : State → Label → State} {passes : State → Label → Prop} {first state : State}
    {labels : List Label} {n : ℕ} (along : Along step passes state labels)
    (moves : ∀ state label, passes state label → system.Step state label (step state label))
    (before : system.Steps first n state) :
    system.Steps first (n + labels.length) (labels.foldl step state) := by
  induction labels generalizing state n with
  | nil => exact before
  | cons label rest ih =>
    have further := ih along.2 (.step before (moves _ _ along.1))
    rw [List.length_cons, Nat.add_comm rest.length, ← Nat.add_assoc]
    exact further

/-- Where every step lowers a rank, a run has no more steps than its first state has rank. -/
theorem Steps.ranked {P : State → Prop} {rank : State → ℕ}
    (lowers : ∀ source label target, P source → system.Step source label target →
      P target ∧ rank target < rank source)
    {first last : State} {n : ℕ} (start : P first) (run : system.Steps first n last) :
    P last ∧ n + rank last ≤ rank first := by
  induction run with
  | refl => exact ⟨start, Nat.le_of_eq (Nat.zero_add _)⟩
  | step _ move ih =>
    obtain ⟨middle, bound⟩ := ih
    obtain ⟨last, lower⟩ := lowers _ _ _ middle move
    exact ⟨last, by omega⟩

/-- A preorder on the states that contains every step contains every path; the step lemma may use an
invariant. -/
theorem Path.relates {P : State → Prop} {R : State → State → Prop} (refl : ∀ state, R state state)
    (trans : ∀ first middle last, R first middle → R middle last → R first last)
    (single : ∀ source label target, P source → system.Step source label target →
      P target ∧ R source target)
    {source target : State} (start : P source) (path : system.Path source target) :
    P target ∧ R source target := by
  induction path with
  | refl => exact ⟨start, refl _⟩
  | step _ move ih =>
    obtain ⟨middle, before⟩ := ih
    obtain ⟨last, after⟩ := single _ _ _ middle move
    exact ⟨last, trans _ _ _ before after⟩

end System

end Transition
