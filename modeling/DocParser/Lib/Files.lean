import Mathlib.Logic.Function.Basic

/-!
# Names of files

What stands under the names of a file system, and the calls that change it. A log of changes is
replayed one after the other. Two systems of names are compared on the names that a program does
not keep for itself: `AgreeOn.ofPrivate` for changes of its own names, `AgreeOn.change` for a change
that the log records.
-/

namespace Files

variable {π β : Type*}

inductive Node (β : Type*)
  | directory
  | file (content : List β)
  | other
  deriving DecidableEq, Repr

/-- What stands under each name. -/
abbrev Names (π β : Type*) := π → Option (Node β)

namespace Names

variable [DecidableEq π] (names : Names π β) {p q r : π} {node : Option (Node β)}

/-- Another node under a name, or none. -/
def put (p : π) (node : Option (Node β)) : Names π β := Function.update names p node

/-- `rename`: the node moves, and what stood under the new name is gone. -/
def rename (p q : π) : Names π β := (names.put q (names p)).put p none

@[simp] theorem put_self : names.put p node p = node := Function.update_self _ _ _

theorem put_of_ne (h : q ≠ p) : names.put p node q = names q := Function.update_of_ne h _ _

theorem rename_of_ne (hp : r ≠ p) (hq : r ≠ q) : names.rename p q r = names r := by
  unfold rename
  rw [put_of_ne _ hp, put_of_ne _ hq]

/-- The changes of a log, oldest first. -/
def replay (log : List (π × Option (Node β))) : Names π β :=
  log.foldl (fun names change => names.put change.1 change.2) names

theorem replay_concat (log : List (π × Option (Node β))) (change : π × Option (Node β)) :
    names.replay (log ++ [change]) = (names.replay log).put change.1 change.2 :=
  List.foldl_append ..

end Names

/-- The same nodes under the names of a set. -/
def AgreeOn (shared : Set π) (names names' : Names π β) : Prop :=
  ∀ p ∈ shared, names p = names' p

namespace AgreeOn

variable [DecidableEq π] {shared : Set π} {names names' : Names π β} {p q : π}
  {node : Option (Node β)}

/-- Names outside of the set may change. -/
theorem ofPrivate (h : AgreeOn shared names names') (hp : p ∉ shared) :
    AgreeOn shared (names.put p node) names' := by
  intro r hr
  have hne : r ≠ p := fun heq => hp (heq ▸ hr)
  rw [Names.put_of_ne _ hne]
  exact h r hr

theorem change (h : AgreeOn shared names names') :
    AgreeOn shared (names.put p node) (names'.put p node) := by
  intro r hr
  by_cases heq : r = p
  · subst heq
    rw [Names.put_self, Names.put_self]
  · rw [Names.put_of_ne _ heq, Names.put_of_ne _ heq]
    exact h r hr

/-- A node that comes from outside of the set. -/
theorem rename (h : AgreeOn shared names names') (hp : p ∉ shared) (hnode : names p = node) :
    AgreeOn shared (names.rename p q) (names'.put q node) := by
  unfold Names.rename
  rw [hnode]
  exact h.change.ofPrivate hp

end AgreeOn

end Files
