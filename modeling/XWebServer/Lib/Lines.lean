import Mathlib.Data.List.Basic
import Mathlib.Data.List.Infix
import Mathlib.Tactic.TypeStar

/-! # Cutting a sequence at the occurrences of a two-element separator

`cut a b input` is the part of the input before the first `a` followed by `b`, and the part after
that pair, or no second part when the pair does not occur. `head a b input` cuts line after line up to
the first empty one, and `join a b` writes lines in the form that `head` reads (`head_join`).
-/

namespace Lines

variable {α : Type*} {a b : α}

/-- Lines, each with its separator, and the empty line. -/
def join (a b : α) (lines : List (List α)) : List α :=
  lines.flatMap (fun line => line ++ [a, b]) ++ [a, b]

@[simp] theorem join_nil : join a b [] = [a, b] := rfl

theorem join_cons (line : List α) (lines : List (List α)) :
    join a b (line :: lines) = line ++ a :: b :: join a b lines := by
  simp [join]

variable [DecidableEq α]

/-- The input before the first `a, b`, and what follows that pair if there is one. -/
def cut (a b : α) : List α → List α × Option (List α)
  | x :: y :: rest =>
      if x = a ∧ y = b then ([], some rest)
      else (x :: (cut a b (y :: rest)).1, (cut a b (y :: rest)).2)
  | [x] => ([x], none)
  | [] => ([], none)

theorem cut_cons_of_ne {x : α} (ne : x ≠ a) (rest : List α) :
    cut a b (x :: rest) = (x :: (cut a b rest).1, (cut a b rest).2) := by
  cases rest with
  | nil => rfl
  | cons y rest => rw [cut, if_neg (fun same => ne same.1)]

/-- A cut that found the separator splits the input around it. -/
theorem eq_of_cut_some {input after : List α} (found : (cut a b input).2 = some after) :
    input = (cut a b input).1 ++ a :: b :: after := by
  fun_induction cut a b input generalizing after with
  | case1 x y rest same =>
    obtain ⟨rfl, rfl⟩ := same
    obtain rfl := Option.some.inj found
    rfl
  | case2 x y rest _ ih => exact congrArg (x :: ·) (ih found)
  | case3 => simp at found
  | case4 => simp at found

/-- A line free of `a` is cut at the separator that ends it. -/
theorem cut_append {line : List α} (free : a ∉ line) (after : List α) :
    cut a b (line ++ a :: b :: after) = (line, some after) := by
  induction line with
  | nil => simp [cut]
  | cons x rest ih =>
    have notA : x ≠ a := fun same => free (by simp [same])
    rw [List.cons_append, cut_cons_of_ne notA, ih (fun member => free (List.mem_cons_of_mem _ member))]

/-! ## Heads -/

/-- The lines before the first empty one, and what follows that one. A line takes at least its
separator, so the length of the input is enough fuel (`head_eq`). -/
def headWithin (a b : α) : ℕ → List α → Option (List (List α) × List α)
  | 0, _ => none
  | fuel + 1, input =>
      match cut a b input with
      | (_, none) => none
      | (line, some after) =>
          if line = [] then some ([], after)
          else (headWithin a b fuel after).map fun more => (line :: more.1, more.2)

def head (a b : α) (input : List α) : Option (List (List α) × List α) :=
  headWithin a b input.length input

theorem length_of_cut_some {input after : List α} (found : (cut a b input).2 = some after) :
    after.length < input.length := by
  have split := congrArg List.length (eq_of_cut_some found)
  rw [List.length_append, List.length_cons, List.length_cons] at split
  omega

/-- More fuel changes nothing. -/
theorem headWithin_eq {fuel : ℕ} {input : List α} (enough : input.length ≤ fuel) :
    headWithin a b fuel input = head a b input := by
  rw [head]
  induction fuel using Nat.strong_induction_on generalizing input with
  | _ fuel ih =>
    cases size : input.length with
    | zero =>
      obtain rfl := List.length_eq_zero_iff.mp size
      cases fuel <;> rfl
    | succ smaller =>
      obtain ⟨fuel, rfl⟩ := Nat.exists_eq_succ_of_ne_zero (show fuel ≠ 0 by omega)
      rw [headWithin, headWithin]
      rcases found : cut a b input with ⟨line, _ | after⟩
      · rfl
      · have shorter := length_of_cut_some (congrArg Prod.snd found)
        have tail : headWithin a b fuel after = headWithin a b smaller after :=
          (ih fuel (by omega) (by omega)).trans (ih smaller (by omega) (by omega)).symm
        simp only [tail]

/-- The head of an input is its first line and the head of what follows, unless that line is empty. -/
theorem head_eq (input : List α) :
    head a b input =
      match cut a b input with
      | (_, none) => none
      | (line, some after) =>
          if line = [] then some ([], after)
          else (head a b after).map fun more => (line :: more.1, more.2) := by
  cases input with
  | nil => rfl
  | cons x rest =>
    rw [head, List.length_cons, headWithin]
    rcases found : cut a b (x :: rest) with ⟨line, _ | after⟩
    · rfl
    · have shorter := length_of_cut_some (congrArg Prod.snd found)
      simp only [headWithin_eq (Nat.le_of_lt_succ shorter)]

/-- The first line of a head is the first line of the input. -/
theorem headD_of_head {input rest : List α} {lines : List (List α)}
    (found : head a b input = some (lines, rest)) : lines.headD [] = (cut a b input).1 := by
  rw [head_eq] at found
  rcases first : cut a b input with ⟨line, _ | after⟩
  · rw [first] at found
    cases found
  · simp only [first] at found
    split_ifs at found with empty
    · obtain ⟨rfl, _⟩ := Prod.mk.inj (Option.some.inj found)
      exact empty.symm
    · obtain ⟨_, _, same⟩ := Option.map_eq_some_iff.mp found
      obtain ⟨rfl, _⟩ := Prod.mk.inj same
      rfl

/-- What is written as lines is read as these lines. -/
theorem head_join {lines : List (List α)} (proper : ∀ line ∈ lines, line ≠ [] ∧ a ∉ line)
    (rest : List α) : head a b (join a b lines ++ rest) = some (lines, rest) := by
  induction lines with
  | nil =>
    rw [head_eq, join_nil]
    simp [cut]
  | cons line lines ih =>
    obtain ⟨nonempty, free⟩ := proper line List.mem_cons_self
    have tail := ih fun other member => proper other (List.mem_cons_of_mem _ member)
    have first : cut a b (join a b (line :: lines) ++ rest) =
        (line, some (join a b lines ++ rest)) := by
      rw [join_cons, List.append_assoc]
      exact cut_append free _
    rw [head_eq, first]
    dsimp only
    rw [if_neg nonempty, tail, Option.map_some]

/-! ## Input that is still to come -/

/-- A cut that found the separator finds the same one in a longer input. -/
theorem cut_more {input after : List α} (found : (cut a b input).2 = some after) (more : List α) :
    cut a b (input ++ more) = ((cut a b input).1, some (after ++ more)) := by
  fun_induction cut a b input generalizing after with
  | case1 x y rest same =>
    obtain rfl := Option.some.inj found
    rw [List.cons_append, List.cons_append, cut, if_pos same]
  | case2 x y rest different ih =>
    have tail := ih found
    rw [List.cons_append] at tail
    rw [List.cons_append, List.cons_append, cut, if_neg different, tail]
  | case3 => simp at found
  | case4 => simp at found

/-- A head that is complete does not depend on what follows. -/
theorem head_more {input rest : List α} {lines : List (List α)}
    (found : head a b input = some (lines, rest)) (more : List α) :
    head a b (input ++ more) = some (lines, rest ++ more) := by
  induction size : input.length using Nat.strong_induction_on generalizing input lines with
  | _ size ih =>
    rw [head_eq] at found
    rcases first : cut a b input with ⟨line, _ | after⟩
    · rw [first] at found
      cases found
    · have second : (cut a b input).2 = some after := congrArg Prod.snd first
      have shorter := length_of_cut_some second
      have longer := cut_more second more
      rw [first] at longer
      rw [head_eq, longer]
      simp only [first] at found ⊢
      split_ifs at found ⊢ with empty
      · obtain ⟨rfl, rfl⟩ := Prod.mk.inj (Option.some.inj found)
        rfl
      · obtain ⟨⟨others, last⟩, tail, same⟩ := Option.map_eq_some_iff.mp found
        obtain ⟨rfl, rfl⟩ := Prod.mk.inj same
        rw [ih after.length (by omega) tail rfl]
        rfl

/-- A head takes at least the empty line. -/
theorem length_of_head {input rest : List α} {lines : List (List α)}
    (found : head a b input = some (lines, rest)) : rest.length < input.length := by
  induction size : input.length using Nat.strong_induction_on generalizing input lines with
  | _ size ih =>
    rw [head_eq] at found
    rcases first : cut a b input with ⟨line, _ | after⟩
    · rw [first] at found
      cases found
    · have shorter := length_of_cut_some (congrArg Prod.snd first)
      simp only [first] at found
      split_ifs at found with empty
      · obtain ⟨_, rfl⟩ := Prod.mk.inj (Option.some.inj found)
        omega
      · obtain ⟨⟨others, last⟩, tail, same⟩ := Option.map_eq_some_iff.mp found
        obtain ⟨_, rfl⟩ := Prod.mk.inj same
        have further := ih after.length (by omega) tail rfl
        omega

end Lines
