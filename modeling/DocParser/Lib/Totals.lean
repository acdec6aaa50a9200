import Mathlib

/-!
# Weights of a map

The total weight of the entries of a finite map. Every change of the map changes the total by the
weights of the entry that comes and of the entry that goes (`total_insert`, `total_erase`).
-/

namespace Totals

open AList

variable {α : Type} {β : α → Type} (weight : (Σ a, β a) → Nat)

def total (s : AList β) : Nat := (s.entries.map weight).sum

@[simp] theorem total_empty : total weight (∅ : AList β) = 0 := rfl

variable [DecidableEq α]

theorem total_insert (a : α) (b : β a) (s : AList β) :
    total weight (s.insert a b) = weight ⟨a, b⟩ + total weight (s.erase a) := by
  unfold total
  rw [entries_insert, List.map_cons, List.sum_cons]
  rfl

theorem total_insert_of_notMem {a : α} (b : β a) {s : AList β} (h : a ∉ s) :
    total weight (s.insert a b) = weight ⟨a, b⟩ + total weight s := by
  unfold total
  rw [entries_insert_of_notMem h, List.map_cons, List.sum_cons]

theorem total_erase {a : α} {b : β a} {s : AList β} (h : s.lookup a = some b) :
    total weight s = weight ⟨a, b⟩ + total weight (s.erase a) := by
  have hmem : a ∈ s.entries.keys := lookup_isSome.mp (by rw [h]; rfl)
  obtain ⟨b', front, back, -, hentries, herase⟩ := List.exists_of_kerase hmem
  have hb' : s.lookup a = some b' := by
    refine mem_lookup_iff.mpr ?_
    rw [hentries]
    simp
  obtain rfl := Option.some.inj (h.symm.trans hb')
  have hrest : (s.erase a).entries = front ++ back := herase
  unfold total
  rw [hrest, hentries, List.map_append, List.map_append, List.map_cons, List.sum_append,
    List.sum_append, List.sum_cons]
  omega

/-- An entry weighs at most as much as the whole map. -/
theorem weight_le_total {a : α} {b : β a} {s : AList β} (h : s.lookup a = some b) :
    weight ⟨a, b⟩ ≤ total weight s := by
  rw [total_erase weight h]
  exact Nat.le_add_right _ _

end Totals
