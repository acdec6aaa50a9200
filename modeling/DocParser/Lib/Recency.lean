import Mathlib.Data.List.Dedup

/-!
# Keys by recency

The distinct keys of a list of uses, the most recently used first, are `uses.dedup.reverse`. A
bounded list that moves a key to its front when it is used, and drops its last key when a new one
finds it full, holds the first keys of that order (`take_touch_of_mem`, `take_touch_of_notMem`).
-/

namespace Recency

variable {κ : Type*} [DecidableEq κ]

/-- The distinct keys used, most recent first. -/
def recent (uses : List κ) : List κ := uses.dedup.reverse

/-- The order after a use of `k`. -/
def touch (k : κ) (l : List κ) : List κ := k :: l.erase k

@[simp] theorem recent_nil : recent ([] : List κ) = [] := rfl

theorem nodup_recent (uses : List κ) : (recent uses).Nodup :=
  List.nodup_reverse.mpr (List.nodup_dedup uses)

theorem dedup_concat (uses : List κ) (k : κ) :
    (uses ++ [k]).dedup = uses.dedup.erase k ++ [k] := by
  induction uses with
  | nil => simp
  | cons a uses ih =>
    by_cases ha : a ∈ uses
    · rw [List.cons_append, List.dedup_cons_of_mem (List.mem_append_left _ ha), ih,
        List.dedup_cons_of_mem ha]
    · rw [List.dedup_cons_of_notMem ha, List.erase_cons, List.cons_append]
      by_cases hak : a = k
      · subst hak
        have hnot : a ∉ uses.dedup := fun h => ha (List.mem_dedup.mp h)
        rw [List.dedup_cons_of_mem (by simp), ih, List.erase_of_not_mem hnot]
        simp
      · rw [List.dedup_cons_of_notMem (by simp [ha, hak]), ih]
        simp [hak]

theorem recent_concat (uses : List κ) (k : κ) : recent (uses ++ [k]) = touch k (recent uses) := by
  unfold recent touch
  rw [dedup_concat, List.reverse_append, List.reverse_singleton, List.singleton_append,
    (List.nodup_dedup uses).erase_eq_filter, List.Nodup.erase_eq_filter
      (List.nodup_reverse.mpr (List.nodup_dedup uses)), List.filter_reverse]

theorem take_erase_of_mem {k : κ} {l : List κ} {n : Nat} (hk : k ∈ l.take (n + 1)) :
    (l.erase k).take n = (l.take (n + 1)).erase k := by
  induction l generalizing n with
  | nil => simp
  | cons a l ih =>
    rw [List.take_succ_cons, List.erase_cons, List.erase_cons]
    by_cases ha : a = k
    · simp [ha]
    · have hk' : k ∈ l.take n := by
        rw [List.take_succ_cons, List.mem_cons] at hk
        exact hk.resolve_left (Ne.symm ha)
      cases n with
      | zero => simp at hk'
      | succ n => simp [ha, ih hk']

theorem take_erase_of_notMem {k : κ} {l : List κ} {n : Nat} (hk : k ∉ l.take n) :
    (l.erase k).take n = l.take n := by
  induction l generalizing n with
  | nil => simp
  | cons a l ih =>
    cases n with
    | zero => simp
    | succ n =>
      rw [List.take_succ_cons, List.mem_cons, not_or] at hk
      rw [List.erase_cons, if_neg (by simpa using Ne.symm hk.1), List.take_succ_cons,
        List.take_succ_cons, ih hk.2]

/-- A use of a key among the first `n` moves it to the front of them. -/
theorem take_touch_of_mem {k : κ} {l : List κ} {n : Nat} (hk : k ∈ l.take n) :
    (touch k l).take n = touch k (l.take n) := by
  cases n with
  | zero => simp at hk
  | succ n => rw [touch, touch, List.take_succ_cons, take_erase_of_mem hk]

/-- A use of another key puts it before them, and drops the last one when they are `n`. -/
theorem take_touch_of_notMem {k : κ} {l : List κ} {n : Nat} (hn : 0 < n) (hk : k ∉ l.take n) :
    (touch k l).take n =
      k :: if (l.take n).length = n then (l.take n).dropLast else l.take n := by
  cases n with
  | zero => simp at hn
  | succ n =>
    have hk' : k ∉ l.take n := fun h => hk ((List.take_sublist_take_left n.le_succ).subset h)
    rw [touch, List.take_succ_cons, take_erase_of_notMem hk']
    by_cases hlen : (l.take (n + 1)).length = n + 1
    · rw [if_pos hlen, List.dropLast_eq_take, hlen, Nat.add_sub_cancel, List.take_take,
        Nat.min_eq_left n.le_succ]
    · have hle : l.length ≤ n := by
        rw [List.length_take] at hlen
        omega
      rw [if_neg hlen, List.take_of_length_le hle, List.take_of_length_le (by omega)]

end Recency
