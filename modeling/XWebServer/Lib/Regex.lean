import Mathlib.Data.List.Basic
import Mathlib.Data.List.Infix
import Mathlib.Data.List.TakeWhile
import Mathlib.Tactic.TypeStar

/-! # A backtracking matcher for simple regular expressions

The matcher follows the ECMAScript reading: it is a function of a continuation, it tries the
alternatives of `?` and `*` in greedy order, and it answers with the first one whose continuation
succeeds. `matches?` is a match of the whole input. `run_group_many` says that a greedy class commits
to all it can take when the continuation rejects every input that starts with a character of the
class, which is how a pattern of classes and separators is evaluated with no search.
-/

namespace Regex

variable {α β : Type*}

/-- The constructs: a literal word, `c?`, `[...]*`, a capturing group, and concatenation. -/
inductive Pattern (α : Type*) where
  | literal (word : List α)
  | optional (char : α)
  | many (cls : α → Bool)
  | group (inner : Pattern α)
  | seq (first second : Pattern α)

/-- `[...]*`: take a character and go on if that leads to a match, stop otherwise. -/
def runMany (cls : α → Bool) : List α → (List α → Option β) → Option β
  | [], next => next []
  | char :: rest, next =>
      if cls char then (runMany cls rest next).or (next (char :: rest)) else next (char :: rest)

theorem runMany_commit (cls : α → Bool) (next : List α → Option β)
    (rejects : ∀ char rest, cls char = true → next (char :: rest) = none) (input : List α) :
    runMany cls input next = next (input.dropWhile cls) := by
  induction input with
  | nil => rfl
  | cons char rest ih =>
    cases taken : cls char with
    | false => simp [runMany, taken]
    | true => simp [runMany, taken, ih, rejects char rest taken]

variable [DecidableEq α]

/-- Match a prefix of the input and give the captures and the rest to the continuation. -/
def Pattern.run : Pattern α → List α → (List (List α) → List α → Option β) → Option β
  | .literal word, input, next =>
      if word.isPrefixOf input then next [] (input.drop word.length) else none
  | .optional char, input, next =>
      match input with
      | [] => next [] []
      | head :: rest => if head = char then (next [] rest).or (next [] input) else next [] input
  | .many cls, input, next => runMany cls input (next [])
  | .group inner, input, next =>
      inner.run input fun captures rest =>
        next (input.take (input.length - rest.length) :: captures) rest
  | .seq first second, input, next =>
      first.run input fun captures rest =>
        second.run rest fun more rest => next (captures ++ more) rest

/-- The captures of the first match of the whole input. -/
def Pattern.matches? (pattern : Pattern α) (input : List α) : Option (List (List α)) :=
  pattern.run input fun captures rest => if rest.isEmpty then some captures else none

/-- The number of capturing groups. -/
def Pattern.groups : Pattern α → ℕ
  | .literal _ | .optional _ | .many _ => 0
  | .group inner => inner.groups + 1
  | .seq first second => first.groups + second.groups

omit [DecidableEq α] in
theorem runMany_some {cls : α → Bool} {input : List α} {next : List α → Option β} {result : β}
    (found : runMany cls input next = some result) : ∃ rest, next rest = some result := by
  induction input with
  | nil => exact ⟨[], found⟩
  | cons char rest ih =>
    rw [runMany] at found
    split_ifs at found with taken
    · rcases Option.or_eq_some_iff.mp found with more | ⟨_, stop⟩
      · exact ih more
      · exact ⟨_, stop⟩
    · exact ⟨_, found⟩

/-- A match is a success of the continuation, which was given one capture for each group. -/
theorem Pattern.run_some {pattern : Pattern α} {input : List α}
    {next : List (List α) → List α → Option β} {result : β}
    (found : pattern.run input next = some result) :
    ∃ captures rest, captures.length = pattern.groups ∧ next captures rest = some result := by
  induction pattern generalizing input next with
  | literal word =>
    rw [run] at found
    split_ifs at found
    exact ⟨[], _, rfl, found⟩
  | optional char =>
    cases input with
    | nil => exact ⟨[], [], rfl, found⟩
    | cons head rest =>
      rw [run] at found
      split_ifs at found
      · rcases Option.or_eq_some_iff.mp found with taken | ⟨_, skipped⟩
        · exact ⟨[], _, rfl, taken⟩
        · exact ⟨[], _, rfl, skipped⟩
      · exact ⟨[], _, rfl, found⟩
  | many cls =>
    obtain ⟨rest, more⟩ := runMany_some found
    exact ⟨[], rest, rfl, more⟩
  | group inner ih =>
    obtain ⟨captures, rest, length, more⟩ := ih found
    exact ⟨_, rest, congrArg (· + 1) length, more⟩
  | seq first second ihFirst ihSecond =>
    obtain ⟨captures, middle, length, more⟩ := ihFirst found
    obtain ⟨others, rest, otherLength, more⟩ := ihSecond more
    exact ⟨captures ++ others, rest, by rw [List.length_append, length, otherLength, groups], more⟩

theorem Pattern.length_of_matches? {pattern : Pattern α} {input : List α} {captures : List (List α)}
    (found : pattern.matches? input = some captures) : captures.length = pattern.groups := by
  obtain ⟨others, rest, length, whole⟩ := Pattern.run_some found
  split_ifs at whole
  rw [← Option.some.inj whole, length]

/-- `c?` takes its character when that leads to a match. -/
theorem run_optional_take {char : α} {rest : List α} {next : List (List α) → List α → Option β}
    {result : β} (leads : next [] rest = some result) :
    (Pattern.optional char).run (char :: rest) next = some result := by
  rw [Pattern.run, if_pos rfl, leads]
  rfl

/-- `c?` skips any other character. -/
theorem run_optional_skip {char head : α} (differs : head ≠ char) (rest : List α)
    (next : List (List α) → List α → Option β) :
    (Pattern.optional char).run (head :: rest) next = next [] (head :: rest) := by
  rw [Pattern.run, if_neg differs]

/-- The same for a captured class. -/
theorem run_group_many {cls : α → Bool} {next : List (List α) → List α → Option β}
    (rejects : ∀ captures char rest, cls char = true → next captures (char :: rest) = none)
    (input : List α) :
    (Pattern.group (.many cls)).run input next =
      next [input.takeWhile cls] (input.dropWhile cls) := by
  have whole : input.takeWhile cls ++ input.dropWhile cls = input :=
    List.takeWhile_append_dropWhile
  have taken : input.take (input.length - (input.dropWhile cls).length) = input.takeWhile cls := by
    have length := congrArg List.length whole
    rw [List.length_append] at length
    rw [← length, Nat.add_sub_cancel]
    exact List.prefix_iff_eq_take.mp ⟨_, whole⟩ |>.symm
  have commit := runMany_commit cls
    (fun rest => next [input.take (input.length - rest.length)] rest)
    (fun char rest member => rejects _ char rest member) input
  rw [taken] at commit
  exact commit

/-- At the end of a pattern a captured class must take the whole input. -/
theorem run_group_many_end (cls : α → Bool) (input : List α) :
    (Pattern.group (.many cls)).matches? input =
      if input.all cls then some [input] else none := by
  rw [Pattern.matches?, run_group_many (fun _ _ _ _ => rfl)]
  by_cases all : input.all cls = true
  · have members := List.all_eq_true.mp all
    have none : input.dropWhile cls = [] := List.dropWhile_eq_nil_iff.mpr members
    have whole : input.takeWhile cls = input := List.takeWhile_eq_self_iff.mpr members
    simp [all, none, whole]
  · have some : input.dropWhile cls ≠ [] := fun empty =>
      all (List.all_eq_true.mpr (List.dropWhile_eq_nil_iff.mp empty))
    simp [all, some]

end Regex
