import Mathlib.Data.List.Induction
import Mathlib.Data.List.Nodup

/-!
# Grouping by a key

A loop that adds each element to the group with its key, or opens a group for it. The groups stand
in the order in which their keys occur first (`collect_keys`), and each of them is the fold of the
elements with its key (`mem_collect`).
-/

namespace DocParser

variable {σ τ κ : Type}

/-- How groups `τ` of elements `σ` start and grow, under keys that growing keeps. -/
structure Grouping (σ τ κ : Type) where
  key : σ → κ
  keyOf : τ → κ
  start : σ → τ
  add : τ → σ → τ
  keyOf_start : ∀ x, keyOf (start x) = key x
  keyOf_add : ∀ t x, keyOf (add t x) = keyOf t

variable [BEq κ] [LawfulBEq κ]

theorem eraseDups_concat_of_mem {l : List κ} {a : κ} (h : a ∈ l) :
    (l ++ [a]).eraseDups = l.eraseDups := by
  rw [List.eraseDups_append]
  unfold List.removeAll
  rw [List.filter_singleton, List.elem_eq_true_of_mem h]
  exact List.append_nil _

theorem eraseDups_concat_of_not_mem {l : List κ} {a : κ} (h : a ∉ l) :
    (l ++ [a]).eraseDups = l.eraseDups ++ [a] := by
  have hnot : l.elem a = false := by simpa using h
  rw [List.eraseDups_append]
  unfold List.removeAll
  rw [List.filter_singleton, hnot]
  rfl

namespace Grouping

variable (g : Grouping σ τ κ)

def step (groups : List τ) (x : σ) : List τ :=
  match groups.findIdx? fun t => g.keyOf t == g.key x with
  | none => groups ++ [g.start x]
  | some i => groups.modify i fun t => g.add t x

def collect (l : List σ) : List τ := l.foldl g.step []

variable {g} {groups : List τ} {x : σ}

omit [BEq κ] [LawfulBEq κ] in
theorem keys_modify (i : Nat) :
    (groups.modify i fun t => g.add t x).map g.keyOf = groups.map g.keyOf := by
  refine List.ext_getElem (by simp) fun j hj hj' => ?_
  rw [List.getElem_map, List.getElem_map, List.getElem_modify]
  split_ifs
  · exact g.keyOf_add _ x
  · rfl

theorem step_of_new (h : g.key x ∉ groups.map g.keyOf) :
    g.step groups x = groups ++ [g.start x] := by
  have hnone : (groups.findIdx? fun t => g.keyOf t == g.key x) = none := by
    rw [List.findIdx?_eq_none_iff]
    intro t ht
    rw [beq_eq_false_iff_ne]
    exact fun heq => h (heq ▸ List.mem_map_of_mem ht)
  unfold step
  rw [hnone]

theorem step_of_known (h : g.key x ∈ groups.map g.keyOf) :
    ∃ i, ∃ hi : i < groups.length, g.keyOf groups[i] = g.key x ∧
      g.step groups x = groups.modify i fun t => g.add t x := by
  cases hi : groups.findIdx? fun t => g.keyOf t == g.key x with
  | none =>
    obtain ⟨t, ht, heq⟩ := List.mem_map.mp h
    have hne := List.findIdx?_eq_none_iff.mp hi t ht
    rw [heq] at hne
    simp at hne
  | some i =>
    obtain ⟨hlt, heq, -⟩ := List.findIdx?_eq_some_iff_getElem.mp hi
    refine ⟨i, hlt, beq_iff_eq.mp heq, ?_⟩
    unfold step
    rw [hi]

omit [LawfulBEq κ] in
variable (g) in
theorem collect_append (l : List σ) (x : σ) : g.collect (l ++ [x]) = g.step (g.collect l) x := by
  unfold collect
  rw [List.foldl_append]
  rfl

variable (g) in
/-- **Keys** stand in the order of their first elements. -/
theorem collect_keys (l : List σ) : (g.collect l).map g.keyOf = (l.map g.key).eraseDups := by
  induction l using List.reverseRecOn with
  | nil => rfl
  | append_singleton l x ih =>
    have hmem : g.key x ∈ (g.collect l).map g.keyOf ↔ g.key x ∈ l.map g.key := by
      rw [ih, List.mem_eraseDups]
    rw [collect_append, List.map_append, List.map_singleton]
    by_cases h : g.key x ∈ (g.collect l).map g.keyOf
    · obtain ⟨i, -, -, hstep⟩ := step_of_known h
      rw [hstep, keys_modify, eraseDups_concat_of_mem (hmem.mp h), ih]
    · rw [step_of_new h, List.map_append, List.map_singleton, g.keyOf_start,
        eraseDups_concat_of_not_mem fun hx => h (hmem.mpr hx), ih]

variable (g) in
theorem collect_keys_nodup (l : List σ) : ((g.collect l).map g.keyOf).Nodup := by
  induction l using List.reverseRecOn with
  | nil => exact List.nodup_nil
  | append_singleton l x ih =>
    rw [collect_append]
    by_cases h : g.key x ∈ (g.collect l).map g.keyOf
    · obtain ⟨i, -, -, hstep⟩ := step_of_known h
      rwa [hstep, keys_modify]
    · rw [step_of_new h, List.map_append, List.map_singleton, g.keyOf_start]
      exact List.nodup_append.mpr ⟨ih, List.nodup_singleton _, fun a ha b hb heq =>
        h (List.mem_singleton.mp hb ▸ heq ▸ ha)⟩

/-- **Groups** are folds of the elements with their keys. -/
theorem mem_collect {l : List σ} : ∀ {t : τ}, t ∈ g.collect l →
    ∃ x xs, (l.filter fun y => g.key y == g.keyOf t) = x :: xs ∧
      t = xs.foldl g.add (g.start x) := by
  induction l using List.reverseRecOn with
  | nil => exact fun h => absurd h List.not_mem_nil
  | append_singleton l x ih =>
    intro t ht
    rw [collect_append] at ht
    rw [List.filter_append, List.filter_singleton]
    by_cases h : g.key x ∈ (g.collect l).map g.keyOf
    · obtain ⟨i, hi, hkey, hstep⟩ := step_of_known h
      rw [hstep] at ht
      obtain ⟨j, hj, rfl⟩ := List.getElem_of_mem ht
      have hlt : j < (g.collect l).length := by simpa using hj
      rw [List.getElem_modify]
      by_cases hij : i = j
      · subst hij
        obtain ⟨y, ys, hfilter, hfold⟩ := ih (List.getElem_mem hlt)
        rw [if_pos rfl, g.keyOf_add, hfilter, hkey, beq_self_eq_true]
        refine ⟨y, ys ++ [x], rfl, ?_⟩
        rw [List.foldl_append, ← hfold]
        rfl
      · -- another group has another key
        have hne : g.key x ≠ g.keyOf (g.collect l)[j] := by
          intro heq
          have hi' : i < ((g.collect l).map g.keyOf).length := by simpa using hi
          have hj' : j < ((g.collect l).map g.keyOf).length := by simpa using hlt
          have hsame : ((g.collect l).map g.keyOf)[i] = ((g.collect l).map g.keyOf)[j] := by
            rw [List.getElem_map, List.getElem_map, hkey, heq]
          exact hij ((collect_keys_nodup g l).getElem_inj_iff.mp hsame)
        rw [if_neg hij, beq_eq_false_iff_ne.mpr hne]
        simpa using ih (List.getElem_mem hlt)
    · rw [step_of_new h] at ht
      rcases List.mem_append.mp ht with ht | ht
      · have hne : g.key x ≠ g.keyOf t := fun heq => h (heq ▸ List.mem_map_of_mem ht)
        rw [beq_eq_false_iff_ne.mpr hne]
        simpa using ih ht
      · obtain rfl := List.mem_singleton.mp ht
        have hnone : (l.filter fun y => g.key y == g.keyOf (g.start x)) = [] := by
          rw [List.filter_eq_nil_iff]
          intro y hy heq
          rw [g.keyOf_start, beq_iff_eq] at heq
          refine h ?_
          rw [collect_keys, List.mem_eraseDups, ← heq]
          exact List.mem_map_of_mem hy
        rw [hnone, g.keyOf_start, beq_self_eq_true]
        exact ⟨x, [], rfl, rfl⟩

/-- Elements with different keys form groups of their own. -/
theorem collect_of_nodup {l : List σ} (h : (l.map g.key).Nodup) :
    g.collect l = l.map g.start := by
  induction l using List.reverseRecOn with
  | nil => rfl
  | append_singleton l x ih =>
    rw [List.map_append, List.map_singleton, List.nodup_append] at h
    have hnew : g.key x ∉ (g.collect l).map g.keyOf := by
      rw [collect_keys, List.mem_eraseDups]
      exact fun hx => h.2.2 _ hx _ (List.mem_singleton_self _) rfl
    rw [collect_append, step_of_new hnew, ih h.1, List.map_append, List.map_singleton]

end Grouping

end DocParser
