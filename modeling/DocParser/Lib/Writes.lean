import Mathlib.Data.List.Basic

/-!
# Writes into an array

A loop that writes values at offsets. Writes behind a prefix leave the prefix, so that the blocks
of an array are filled one by one (`writeAll_blocks`), each with the values of its own writes.
-/

namespace Writes

variable {α : Type}

/-- The writes in their order. -/
def writeAll (array : List α) (writes : List (Nat × α)) : List α :=
  writes.foldl (fun array write => array.set write.1 write.2) array

/-- The same writes, further behind. -/
def shift (start : Nat) (writes : List (Nat × α)) : List (Nat × α) :=
  writes.map fun write => (start + write.1, write.2)

theorem length_writeAll (writes : List (Nat × α)) : ∀ array : List α,
    (writeAll array writes).length = array.length := by
  induction writes with
  | nil => exact fun array => rfl
  | cons write writes ih =>
    intro array
    show (writeAll (array.set write.1 write.2) writes).length = array.length
    rw [ih, List.length_set]

theorem writeAll_append (array : List α) (writes later : List (Nat × α)) :
    writeAll array (writes ++ later) = writeAll (writeAll array writes) later := List.foldl_append

/-- Writes behind a prefix. -/
theorem writeAll_shift (front : List α) (writes : List (Nat × α)) : ∀ array : List α,
    writeAll (front ++ array) (shift front.length writes) = front ++ writeAll array writes := by
  induction writes with
  | nil => exact fun array => rfl
  | cons write writes ih =>
    intro array
    show writeAll ((front ++ array).set (front.length + write.1) write.2)
      (shift front.length writes) = front ++ writeAll (array.set write.1 write.2) writes
    rw [List.set_append_right _ _ (Nat.le_add_right _ _), Nat.add_sub_cancel_left, ih]

/-- Writes before a suffix. -/
theorem writeAll_front (back : List α) (writes : List (Nat × α)) : ∀ array : List α,
    (∀ write ∈ writes, write.1 < array.length) →
    writeAll (array ++ back) writes = writeAll array writes ++ back := by
  induction writes with
  | nil => exact fun array _ => rfl
  | cons write writes ih =>
    intro array h
    show writeAll ((array ++ back).set write.1 write.2) writes =
      writeAll (array.set write.1 write.2) writes ++ back
    rw [List.set_append_left _ _ (h write (List.mem_cons_self ..))]
    refine ih _ fun other hother => ?_
    rw [List.length_set]
    exact h other (List.mem_cons_of_mem _ hother)

/-- **Blocks** of one size are filled one by one. -/
theorem writeAll_blocks (size : Nat) (fill : α) (blocks : List (List (Nat × α)))
    (h : ∀ writes ∈ blocks, ∀ write ∈ writes, write.1 < size) : ∀ (k : Nat) (front : List α),
    front.length = k * size →
    writeAll (front ++ List.replicate (blocks.length * size) fill)
        ((blocks.zipIdx k).flatMap fun p => shift (p.2 * size) p.1) =
      front ++ blocks.flatMap fun writes => writeAll (List.replicate size fill) writes := by
  induction blocks with
  | nil =>
    intro k front _
    simp [writeAll]
  | cons writes blocks ih =>
    intro k front hfront
    have hsplit : List.replicate ((writes :: blocks).length * size) fill =
        List.replicate size fill ++ List.replicate (blocks.length * size) fill := by
      rw [List.replicate_append_replicate, List.length_cons]
      congr 1
      rw [Nat.add_mul, Nat.one_mul, Nat.add_comm]
    rw [List.zipIdx_cons, List.flatMap_cons, writeAll_append, hsplit, ← hfront, writeAll_shift,
      writeAll_front _ writes _ fun write hwrite => by
        rw [List.length_replicate]
        exact h writes (List.mem_cons_self ..) write hwrite,
      ← List.append_assoc, ih (fun other hother => h other (List.mem_cons_of_mem _ hother)) (k + 1),
      List.flatMap_cons, List.append_assoc]
    rw [List.length_append, length_writeAll, List.length_replicate, hfront, Nat.add_mul, Nat.one_mul]

/-- A block of a list of blocks. -/
theorem slice_flatMap {β : Type} (size : Nat) (f : β → List α) (hf : ∀ b, (f b).length = size)
    (l : List β) : ∀ (k : Nat) (h : k < l.length),
    ((l.flatMap f).drop (k * size)).take size = f l[k] := by
  induction l with
  | nil => exact fun k h => absurd h (Nat.not_lt_zero k)
  | cons b l ih =>
    intro k h
    rw [List.flatMap_cons]
    cases k with
    | zero =>
      rw [Nat.zero_mul, List.drop_zero, List.take_append_of_le_length (Nat.le_of_eq (hf b).symm),
        List.take_of_length_le (Nat.le_of_eq (hf b))]
      rfl
    | succ k =>
      have hdrop : (k + 1) * size = (f b).length + k * size := by
        rw [hf, Nat.add_mul, Nat.one_mul, Nat.add_comm]
      rw [hdrop, ← List.drop_drop, List.drop_left]
      exact ih k (Nat.lt_of_succ_lt_succ h)

/-! ## Scattered values -/

variable {n : Nat}

/-- Values written to distinct places of a vector. -/
theorem foldl_set_spec {ι : Type} (place : ι → Fin n) (value : ι → α) (l : List ι) :
    ∀ results : Vector α n, (l.map place).Nodup →
    (∀ p ∈ l, (l.foldl (fun results p =>
        results.set (place p) (value p) (place p).isLt) results).get (place p) = value p) ∧
    ∀ i : Fin n, i ∉ l.map place → (l.foldl (fun results p =>
        results.set (place p) (value p) (place p).isLt) results).get i = results.get i := by
  induction l with
  | nil => exact fun results _ => ⟨fun p hp => (by cases hp), fun i _ => rfl⟩
  | cons p l ih =>
    intro results hnodup
    rw [List.map_cons, List.nodup_cons] at hnodup
    obtain ⟨hvalue, hkeep⟩ := ih (results.set (place p) (value p) (place p).isLt) hnodup.2
    rw [List.foldl_cons]
    refine ⟨fun q hq => ?_, fun i hi => ?_⟩
    · rcases List.mem_cons.mp hq with rfl | hq
      · rw [hkeep _ hnodup.1]
        exact Vector.getElem_set_self _
      · exact hvalue q hq
    · rw [List.map_cons, List.mem_cons, not_or] at hi
      rw [hkeep i hi.2]
      exact Vector.getElem_set_ne _ _ fun heq => hi.1 (Fin.ext heq.symm)

end Writes
