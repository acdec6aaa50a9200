import Mathlib.Data.List.Basic

/-!
# Advisory file locks

The lock that `flock` keeps on one inode: any number of open file descriptions hold it shared, or
one holds it exclusively. Requests do not block; closing a description gives up what it holds.
The rules used elsewhere are `not_holdsShared_of_exclusive` and the two `_eq_some` lemmas.
-/

universe u

inductive Flock (ι : Type u)
  | shared (holders : List ι)
  | exclusive (holder : ι)
  deriving DecidableEq, Repr

namespace Flock

variable {ι : Type u}

/-- Nobody holds the lock. -/
def free : Flock ι := .shared []

def HoldsShared (i : ι) : Flock ι → Prop
  | .shared holders => i ∈ holders
  | .exclusive _ => False

def HoldsExclusive (i : ι) : Flock ι → Prop
  | .shared _ => False
  | .exclusive holder => holder = i

/-- `flock(LOCK_SH | LOCK_NB)`. -/
def tryShared (i : ι) : Flock ι → Option (Flock ι)
  | .shared holders => some (.shared (i :: holders))
  | .exclusive _ => none

/-- `flock(LOCK_EX | LOCK_NB)`. -/
def tryExclusive (i : ι) : Flock ι → Option (Flock ι)
  | .shared [] => some (.exclusive i)
  | .shared (_ :: _) => none
  | .exclusive _ => none

/-- `close`. -/
def close [DecidableEq ι] (i : ι) : Flock ι → Flock ι
  | .shared holders => .shared (holders.filter (· ≠ i))
  | .exclusive holder => if holder = i then .free else .exclusive holder

variable {i j : ι} {lock lock' : Flock ι}

theorem not_holdsShared_of_exclusive (h : lock.HoldsExclusive i) : ¬lock.HoldsShared j := by
  cases lock with
  | shared holders => exact h.elim
  | exclusive holder => exact id

/-- A shared lock is added to the shared ones. -/
theorem tryShared_eq_some (h : lock.tryShared i = some lock') :
    lock'.HoldsShared i ∧ (∀ k, ¬lock'.HoldsExclusive k) ∧ (∀ k, ¬lock.HoldsExclusive k) ∧
      ∀ k, lock.HoldsShared k → lock'.HoldsShared k := by
  cases lock with
  | shared holders =>
    cases h
    exact ⟨List.mem_cons_self, fun _ => id, fun _ => id, fun k hk => List.mem_cons_of_mem i hk⟩
  | exclusive holder => cases h

/-- An exclusive lock is given when there is none. -/
theorem tryExclusive_eq_some (h : lock.tryExclusive i = some lock') :
    lock'.HoldsExclusive i ∧ (∀ k, ¬lock.HoldsExclusive k) ∧ ∀ k, ¬lock.HoldsShared k := by
  cases lock with
  | shared holders =>
    cases holders with
    | nil =>
      cases h
      exact ⟨rfl, fun _ => id, fun k hk => absurd hk List.not_mem_nil⟩
    | cons holder holders => cases h
  | exclusive holder => cases h

variable [DecidableEq ι]

/-- What another description holds is kept. -/
theorem holdsShared_close (hne : j ≠ i) : (lock.close i).HoldsShared j ↔ lock.HoldsShared j := by
  cases lock with
  | shared holders => simp [close, HoldsShared, hne]
  | exclusive holder =>
    show HoldsShared j (if holder = i then free else .exclusive holder) ↔ False
    split_ifs
    · exact ⟨fun h => absurd h List.not_mem_nil, False.elim⟩
    · rfl

theorem holdsExclusive_close (hne : j ≠ i) :
    (lock.close i).HoldsExclusive j ↔ lock.HoldsExclusive j := by
  cases lock with
  | shared holders => rfl
  | exclusive holder =>
    show HoldsExclusive j (if holder = i then free else .exclusive holder) ↔ holder = j
    split_ifs with hholder
    · exact ⟨False.elim, fun h => hne (h.symm.trans hholder)⟩
    · rfl

end Flock
