import Mathlib.Data.List.Basic
import Mathlib.Data.List.Infix
import Mathlib.Tactic.TypeStar

/-! # Lexical path resolution

A path is a list of moves from a directory: stay, go up, or enter a name. Going up at the root stays
there. Every list of moves is equivalent to climbing some levels and then entering some names
(`climb`), and `prefix_walk_iff` reads off this normal form whether the walk ends at or below the
directory it started from.
-/

namespace LexicalPath

variable {α : Type*}

/-- One component of a path: the empty component and `.`, `..`, or a name. -/
inductive Move (α : Type*) where
  | stay
  | up
  | enter (name : α)
deriving DecidableEq, Repr

/-- The directory one move leads to, as its names from the root. -/
def move (place : List α) : Move α → List α
  | .stay => place
  | .up => place.dropLast
  | .enter name => place ++ [name]

/-- The directory a path leads to. -/
def walk (base : List α) (moves : List (Move α)) : List α := moves.foldl move base

/-- Walking a concatenation is walking its parts. -/
theorem walk_append (base : List α) (first second : List (Move α)) :
    walk base (first ++ second) = walk (walk base first) second := List.foldl_append

/-- A path in normal form: levels climbed above the start, then the names entered. -/
structure Climb (α : Type*) where
  levels : ℕ
  names : List α
deriving DecidableEq, Repr

/-- Going up undoes the last name entered, or climbs one more level when there is none. -/
def Climb.move (climb : Climb α) : Move α → Climb α
  | .stay => climb
  | .up =>
      match climb.names with
      | [] => ⟨climb.levels + 1, []⟩
      | _ :: _ => ⟨climb.levels, climb.names.dropLast⟩
  | .enter name => ⟨climb.levels, climb.names ++ [name]⟩

/-- The normal form of a path, independently of where it starts. -/
def climb (moves : List (Move α)) : Climb α := moves.foldl Climb.move ⟨0, []⟩

private theorem walk_foldl (base : List α) (moves : List (Move α)) (start : Climb α) :
    walk (base.take (base.length - start.levels) ++ start.names) moves =
      base.take (base.length - (moves.foldl Climb.move start).levels) ++
        (moves.foldl Climb.move start).names := by
  induction moves generalizing start with
  | nil => rfl
  | cons next rest ih =>
    rw [List.foldl_cons, ← ih (start.move next)]
    change walk (move _ next) rest = _
    congr 1
    cases next with
    | stay => rfl
    | enter name => simp [move, Climb.move]
    | up =>
      rcases start with ⟨levels, names⟩
      cases names with
      | nil =>
        simp only [move, Climb.move, List.append_nil]
        rw [List.dropLast_eq_take, List.length_take, List.take_take]
        congr 1
        omega
      | cons name names =>
        simp only [move, Climb.move]
        rw [List.dropLast_append_of_ne_nil (List.cons_ne_nil name names)]

/-- A walk climbs its levels and then enters its names. -/
theorem walk_eq (base : List α) (moves : List (Move α)) :
    walk base moves = base.take (base.length - (climb moves).levels) ++ (climb moves).names := by
  have general := walk_foldl base moves ⟨0, []⟩
  rwa [Nat.sub_zero, List.take_length, List.append_nil] at general

/-- A walk ends at or below its start exactly when the names it enters begin with those of the
levels it climbed. -/
theorem prefix_walk_iff (base : List α) (moves : List (Move α)) :
    base <+: walk base moves ↔
      base.drop (base.length - (climb moves).levels) <+: (climb moves).names := by
  rw [walk_eq]
  conv_lhs => lhs; rw [← List.take_append_drop (base.length - (climb moves).levels) base]
  exact List.prefix_append_right_inj _

/-- A path that never climbs stays at or below its start. -/
theorem prefix_walk_of_levels_zero (base : List α) (moves : List (Move α))
    (low : (climb moves).levels = 0) : base <+: walk base moves := by
  rw [prefix_walk_iff, low, Nat.sub_zero, List.drop_length]
  exact List.nil_prefix

end LexicalPath
