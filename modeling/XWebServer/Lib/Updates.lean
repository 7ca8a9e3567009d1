import Mathlib.Data.List.Perm.Subperm
import Mathlib.Logic.Function.Basic
import Mathlib.Tactic.TypeStar

/-! # A map filled by storing pairs

`store start pairs` is what a map holds after the pairs were stored in turn, the later over the earlier.
The lemmas say which keys it has, that distinct keys keep their values, and when a list of distinct keys
can be found in it at all.
-/

namespace Updates

variable {κ ν : Type*} [DecidableEq κ]

def store (start : κ → Option ν) (pairs : List (κ × ν)) : κ → Option ν :=
  pairs.foldl (fun map pair => Function.update map pair.1 (some pair.2)) start

@[simp] theorem store_cons (start : κ → Option ν) (pair : κ × ν) (pairs : List (κ × ν)) :
    store start (pair :: pairs) = store (Function.update start pair.1 (some pair.2)) pairs := rfl

@[simp] theorem store_concat (start : κ → Option ν) (pairs : List (κ × ν)) (pair : κ × ν) :
    store start (pairs ++ [pair]) = Function.update (store start pairs) pair.1 (some pair.2) := by
  rw [store, List.foldl_append]
  rfl

/-- A key that is not stored keeps what it had. -/
theorem store_of_notMem {start : κ → Option ν} {pairs : List (κ × ν)} {key : κ}
    (absent : key ∉ pairs.map Prod.fst) : store start pairs key = start key := by
  induction pairs generalizing start with
  | nil => rfl
  | cons pair pairs ih =>
    rw [List.map_cons, List.mem_cons, not_or] at absent
    rw [store_cons, ih absent.2, Function.update_of_ne absent.1]

/-- Distinct keys keep their values. -/
theorem store_of_mem {start : κ → Option ν} {pairs : List (κ × ν)} {pair : κ × ν}
    (distinct : (pairs.map Prod.fst).Nodup) (member : pair ∈ pairs) :
    store start pairs pair.1 = some pair.2 := by
  induction pairs generalizing start with
  | nil => cases member
  | cons first pairs ih =>
    rw [List.map_cons, List.nodup_cons] at distinct
    rcases List.mem_cons.mp member with rfl | later
    · rw [store_cons, store_of_notMem distinct.1, Function.update_self]
    · exact ih distinct.2 later

/-- The keys of the map are those stored. -/
theorem mem_of_store {pairs : List (κ × ν)} {key : κ} {value : ν}
    (found : store (fun _ => none) pairs key = some value) : key ∈ pairs.map Prod.fst := by
  by_contra absent
  rw [store_of_notMem absent] at found
  cases found

/-- Two lists with the same distinct keys, one by one, are the same if they store the same map. -/
theorem eq_of_store_eq {start : κ → Option ν} {pairs others : List (κ × ν)}
    (distinct : (pairs.map Prod.fst).Nodup) (keys : others.map Prod.fst = pairs.map Prod.fst)
    (same : store start others = store start pairs) : others = pairs := by
  have entry {list : List (κ × ν)} (nodup : (list.map Prod.fst).Nodup) :
      list.map (fun pair => (pair.1, some pair.2)) =
        (list.map Prod.fst).map fun key => (key, store start list key) := by
    rw [List.map_map]
    apply List.map_congr_left
    intro pair member
    rw [Function.comp_apply, store_of_mem nodup member]
  have read : others.map (fun pair => (pair.1, some pair.2)) =
      pairs.map (fun pair => (pair.1, some pair.2)) := by
    rw [entry (keys ▸ distinct), entry distinct, keys, same]
  refine List.map_injective_iff.mpr ?_ read
  rintro ⟨key, value⟩ ⟨otherKey, otherValue⟩ equal
  simpa using equal

/-- Pairs with distinct keys can be found in what no more pairs have stored only if the keys are the same, in
some order. -/
theorem perm_of_store {pairs others : List (κ × ν)} (distinct : (pairs.map Prod.fst).Nodup)
    (few : others.length ≤ pairs.length)
    (same : store (fun _ => none) others = store (fun _ => none) pairs) :
    (pairs.map Prod.fst).Perm (others.map Prod.fst) := by
  have subset : pairs.map Prod.fst ⊆ others.map Prod.fst := by
    intro key member
    obtain ⟨pair, found, rfl⟩ := List.mem_map.mp member
    exact mem_of_store (by rw [same, store_of_mem distinct found])
  apply (List.subperm_of_subset distinct subset).perm_of_length_le
  rwa [List.length_map, List.length_map]

end Updates
