import Mathlib.Data.List.Perm.Basic

/-! # Condition variables

The threads in a wait: asleep, taken out of it by a notification, or taken out of it otherwise (a
spurious wake-up, a timeout); the last two still have to take the lock. `notifyOne` gets the position
of the sleeper it wakes, which the implementation chooses.

Where `need` counts what sleepers could be woken for (queued tasks, free slots) and `pending` the
notifications decided on but not yet issued, `Covered need pending` is the invariant that no wake-up
is lost: while somebody sleeps, that many threads are on their way. Each operation has one rule for it.
-/

/-- The threads waiting on a condition variable, by how far they are. -/
structure CondVar (ω : Type*) where
  asleep : List ω
  notified : List ω
  roused : List ω

namespace CondVar

open scoped List

variable {ω : Type*}

/-- How a thread has left its wait. -/
inductive Woken where
  | notified
  | roused
deriving DecidableEq, Repr

def empty : CondVar ω := ⟨[], [], []⟩

def wait (waiter : ω) (cond : CondVar ω) : CondVar ω :=
  { cond with asleep := cond.asleep ++ [waiter] }

/-- The position is a sleeper's, when anybody sleeps. -/
def Picks (cond : CondVar ω) (pick : ℕ) : Prop :=
  0 < cond.asleep.length → pick < cond.asleep.length

instance (cond : CondVar ω) (pick : ℕ) : Decidable (cond.Picks pick) :=
  inferInstanceAs (Decidable (0 < cond.asleep.length → pick < cond.asleep.length))

/-- Wake the sleeper at a position; without sleepers a notification has no effect. -/
def notifyOne (pick : ℕ) (cond : CondVar ω) : CondVar ω :=
  match cond.asleep[pick]? with
  | none => cond
  | some waiter => { cond with
      asleep := cond.asleep.eraseIdx pick
      notified := cond.notified ++ [waiter] }

def notifyAll (cond : CondVar ω) : CondVar ω :=
  { cond with asleep := [], notified := cond.notified ++ cond.asleep }

/-- A sleeper leaves its wait without a notification. -/
def rouse (pick : ℕ) (cond : CondVar ω) : CondVar ω :=
  match cond.asleep[pick]? with
  | none => cond
  | some waiter => { cond with
      asleep := cond.asleep.eraseIdx pick
      roused := cond.roused ++ [waiter] }

/-- The threads that have left their wait and have yet to take the lock. -/
def woken (cond : CondVar ω) : Woken → List ω
  | .notified => cond.notified
  | .roused => cond.roused

/-- A woken thread takes the lock. -/
def resume (how : Woken) (pick : ℕ) (cond : CondVar ω) : CondVar ω :=
  match how with
  | .notified => { cond with notified := cond.notified.eraseIdx pick }
  | .roused => { cond with roused := cond.roused.eraseIdx pick }

/-- Every thread in a wait or woken from one. -/
def members (cond : CondVar ω) : List ω := cond.asleep ++ cond.notified ++ cond.roused

/-- The number of those that have left their wait. -/
def awake (cond : CondVar ω) : ℕ := cond.notified.length + cond.roused.length

/-- A sleeper that a notification could wake, or any position if nobody sleeps. -/
theorem picks_zero (cond : CondVar ω) : cond.Picks 0 := fun someone => someone

theorem awake_notifyOne_le (pick : ℕ) (cond : CondVar ω) :
    (cond.notifyOne pick).awake ≤ cond.awake + 1 := by
  rw [notifyOne]
  split
  · exact Nat.le_succ _
  · simp only [awake, List.length_append, List.length_singleton]
    omega

theorem awake_resume {how : Woken} {pick : ℕ} {cond : CondVar ω}
    (inside : pick < (cond.woken how).length) : (cond.resume how pick).awake + 1 = cond.awake := by
  cases how with
  | notified =>
    have shorter := List.length_eraseIdx_of_lt (show pick < cond.notified.length from inside)
    simp only [awake, resume]
    rw [shorter]
    have some : pick < cond.notified.length := inside
    omega
  | roused =>
    have shorter := List.length_eraseIdx_of_lt (show pick < cond.roused.length from inside)
    simp only [awake, resume]
    rw [shorter]
    have some : pick < cond.roused.length := inside
    omega

/-! ## Who is in the wait -/

theorem perm_cons_eraseIdx {list : List ω} {pick : ℕ} {waiter : ω}
    (found : list[pick]? = some waiter) : list.Perm (waiter :: list.eraseIdx pick) := by
  obtain ⟨inside, rfl⟩ := List.getElem?_eq_some_iff.mp found
  exact (List.getElem_cons_eraseIdx_perm inside).symm

theorem members_wait (waiter : ω) (cond : CondVar ω) :
    (cond.wait waiter).members.Perm (waiter :: cond.members) := by
  simp only [members, wait, List.append_assoc, List.singleton_append]
  exact List.perm_middle

theorem members_notifyOne (pick : ℕ) (cond : CondVar ω) :
    (cond.notifyOne pick).members.Perm cond.members := by
  rw [notifyOne]
  split
  · exact .refl _
  · rename_i waiter found
    simp only [members, List.append_assoc, List.singleton_append]
    calc
      _ ~ cond.asleep.eraseIdx pick ++ (waiter :: (cond.notified ++ cond.roused)) :=
        List.perm_middle.append_left _
      _ ~ waiter :: (cond.asleep.eraseIdx pick ++ (cond.notified ++ cond.roused)) :=
        List.perm_middle
      _ ~ cond.asleep ++ (cond.notified ++ cond.roused) :=
        (perm_cons_eraseIdx found).symm.append_right _

theorem members_notifyAll (cond : CondVar ω) : cond.notifyAll.members.Perm cond.members := by
  simp only [members, notifyAll, List.nil_append]
  exact List.perm_append_comm.append_right _

theorem members_rouse (pick : ℕ) (cond : CondVar ω) :
    (cond.rouse pick).members.Perm cond.members := by
  rw [rouse]
  split
  · exact .refl _
  · rename_i waiter found
    simp only [members, ← List.append_assoc]
    calc
      _ ~ waiter :: (cond.asleep.eraseIdx pick ++ cond.notified ++ cond.roused) :=
        List.perm_append_singleton _ _
      _ ~ cond.asleep ++ cond.notified ++ cond.roused := by
        simp only [List.append_assoc]
        exact (perm_cons_eraseIdx found).symm.append_right _

theorem members_resume {how : Woken} {pick : ℕ} {waiter : ω} {cond : CondVar ω}
    (found : (cond.woken how)[pick]? = some waiter) :
    cond.members.Perm (waiter :: (cond.resume how pick).members) := by
  cases how with
  | notified =>
    simp only [members, resume, List.append_assoc]
    calc
      _ ~ cond.asleep ++ (waiter :: (cond.notified.eraseIdx pick ++ cond.roused)) :=
        ((perm_cons_eraseIdx found).append_right _).append_left _
      _ ~ _ := List.perm_middle
  | roused =>
    simp only [members, resume]
    calc
      _ ~ cond.asleep ++ cond.notified ++ (waiter :: cond.roused.eraseIdx pick) :=
        (perm_cons_eraseIdx found).append_left _
      _ ~ _ := List.perm_middle

/-! ## No lost wake-up -/

/-- While somebody sleeps, the notified threads and the notifications to come are at least as many as
needed. -/
def Covered (need pending : ℕ) (cond : CondVar ω) : Prop :=
  cond.asleep ≠ [] → need ≤ cond.notified.length + pending

theorem covered_empty (need pending : ℕ) : Covered need pending (empty : CondVar ω) :=
  fun someone => absurd rfl someone

/-- Going to sleep is harmless when nothing is needed. -/
theorem covered_zero (pending : ℕ) (cond : CondVar ω) : Covered 0 pending cond :=
  fun _ => Nat.zero_le _

/-- Nobody sleeps while something is needed and nobody is on the way. -/
theorem Covered.awake {need : ℕ} {cond : CondVar ω} (covered : Covered need 0 cond)
    (needed : 0 < need) (nobody : cond.notified = []) : cond.asleep = [] := by
  by_contra someone
  have enough := covered someone
  rw [nobody] at enough
  exact absurd enough (Nat.not_le.mpr needed)

/-- A notification to come for every new need. -/
theorem Covered.shift {need need' pending pending' : ℕ} {cond : CondVar ω}
    (covered : Covered need pending cond) (le : need' + pending ≤ need + pending') :
    Covered need' pending' cond := by
  intro someone
  have enough := covered someone
  omega

/-- Issuing a notification that was to come. -/
theorem Covered.notifyOne {need pending pick : ℕ} {cond : CondVar ω}
    (covered : Covered need (pending + 1) cond) (picks : cond.Picks pick) :
    Covered need pending (cond.notifyOne pick) := by
  rw [CondVar.notifyOne]
  split
  · rename_i missing
    intro someone
    have inside := picks (List.length_pos_iff.mpr someone)
    exact absurd missing (by simp [inside])
  · rename_i waiter found
    intro _
    have someone : cond.asleep ≠ [] := fun nobody => by simp [nobody] at found
    have enough := covered someone
    simp only [List.length_append, List.length_singleton]
    omega

theorem covered_notifyAll (need pending : ℕ) (cond : CondVar ω) :
    Covered need pending cond.notifyAll :=
  fun someone => absurd rfl someone

theorem Covered.rouse {need pending : ℕ} {cond : CondVar ω} (covered : Covered need pending cond)
    (pick : ℕ) : Covered need pending (cond.rouse pick) := by
  rw [CondVar.rouse]
  split
  · exact covered
  · rename_i waiter found
    intro _
    exact covered fun nobody => by simp [nobody] at found

/-- A woken thread that meets one need when it has the lock. -/
theorem Covered.resume {need pending : ℕ} {cond : CondVar ω} (covered : Covered need pending cond)
    (how : Woken) (pick : ℕ) : Covered (need - 1) pending (cond.resume how pick) := by
  intro someone
  cases how with
  | notified =>
    have enough : need ≤ cond.notified.length + pending := covered someone
    have fewer := List.le_length_eraseIdx cond.notified pick
    simp only [CondVar.resume]
    omega
  | roused =>
    have enough : need ≤ cond.notified.length + pending := covered someone
    simp only [CondVar.resume]
    omega

/-! ## Without sleepers -/

theorem notifyOne_of_awake {cond : CondVar ω} (awake : cond.asleep = []) (pick : ℕ) :
    cond.notifyOne pick = cond := by
  simp only [notifyOne, awake, List.getElem?_nil]

theorem rouse_of_awake {cond : CondVar ω} (awake : cond.asleep = []) (pick : ℕ) :
    cond.rouse pick = cond := by
  simp only [rouse, awake, List.getElem?_nil]

@[simp] theorem asleep_resume (how : Woken) (pick : ℕ) (cond : CondVar ω) :
    (cond.resume how pick).asleep = cond.asleep := by
  cases how <;> rfl

end CondVar
