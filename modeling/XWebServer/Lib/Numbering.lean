import Mathlib.Data.List.Induction
import Mathlib.Data.List.Perm.Subperm
import Mathlib.Tactic.TypeStar

/-! # Records numbered within their key

In a list of records each of which is numbered by how many records of its key came before, the records of
one key have different numbers. So a part of `size` successive numbers of a key has at most `size` records.
-/

namespace Numbering

variable {ρ κ : Type*} [DecidableEq κ] {key : ρ → κ} {index : ρ → ℕ} {records : List ρ}

/-- Each record has the number of the records of its key before it. -/
def Numbered (key : ρ → κ) (index : ρ → ℕ) (records : List ρ) : Prop :=
  ∀ front record back, records = front ++ record :: back →
    index record = (front.filter (key · = key record)).length

theorem numbered_nil : Numbered key index [] := by
  intro front record back split
  simp at split

/-- A further record with the next number of its key. -/
theorem Numbered.concat (numbered : Numbered key index records) {record : ρ}
    (next : index record = (records.filter (key · = key record)).length) :
    Numbered key index (records ++ [record]) := by
  intro front other back split
  rcases List.eq_nil_or_concat back with rfl | ⟨middle, last, rfl⟩
  · obtain ⟨rfl, same⟩ := List.append_inj' split rfl
    rw [← (List.cons.inj same).1]
    exact next
  · rw [List.concat_eq_append, ← List.cons_append, ← List.append_assoc] at split
    exact numbered front other middle (List.append_inj' split rfl).1

/-- Within a key the numbers grow. -/
theorem Numbered.pairwise (numbered : Numbered key index records) :
    records.Pairwise fun first second => key first = key second → index first < index second := by
  induction records using List.reverseRecOn with
  | nil => exact .nil
  | append_singleton records record ih =>
    have before : Numbered key index records := by
      intro front other back split
      exact numbered front other (back ++ [record]) (by rw [split, List.append_assoc, List.cons_append])
    have own := numbered records record [] rfl
    rw [List.pairwise_append]
    refine ⟨ih before, List.pairwise_singleton _ _, ?_⟩
    intro first member second last same
    rw [List.mem_singleton] at last
    subst last
    obtain ⟨front, back, rfl⟩ := List.append_of_mem member
    rw [own, before front first back rfl, List.filter_append, List.length_append,
      List.filter_cons_of_pos (by simpa using same), List.length_cons, same]
    omega

/-- A part of successive numbers has no more records than numbers. -/
theorem Numbered.part_le (numbered : Numbered key index records) (first : κ) (part : ℕ) {size : ℕ}
    (positive : 0 < size) :
    records.countP (fun record => key record = first ∧ index record / size = part) ≤ size := by
  rw [List.countP_eq_length_filter]
  let picked := records.filter fun record => key record = first ∧ index record / size = part
  have chosen {record : ρ} (inside : record ∈ picked) :
      key record = first ∧ index record / size = part := of_decide_eq_true (List.mem_filter.mp inside).2
  have distinct : (picked.map index).Nodup := by
    rw [List.Nodup, List.pairwise_map]
    apply (numbered.pairwise.filter _).imp_of_mem
    intro one other inOne inOther less same
    exact absurd (less ((chosen inOne).1.trans (chosen inOther).1.symm)) (by omega)
  have range : picked.map index ⊆ List.range' (part * size) size := by
    intro number member
    obtain ⟨record, inside, rfl⟩ := List.mem_map.mp member
    have place := (chosen inside).2
    rw [Nat.div_eq_iff positive] at place
    rw [List.mem_range'_1]
    omega
  have few := (List.subperm_of_subset distinct range).length_le
  rwa [List.length_map, List.length_range'] at few

end Numbering
