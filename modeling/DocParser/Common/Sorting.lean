import Mathlib.Data.Rat.Cast.Order
import DocParser.Common.Double
import DocParser.Common.Standard

/-!
# Sorted lists

`sortBy` under a comparator that is a strict weak order of the elements of the list: the result is
sorted, and where the comparator tells different elements apart it does not depend on the order
that the elements come in.
-/

namespace DocParser

open Comparators

section Sorting

variable {τ : Type} {P : τ → Prop} {lt : τ → τ → Bool} {l l' : List τ}

theorem orderedInsert_sorted (h : StrictWeakOn P fun a b => lt a b = true) {a : τ} (ha : P a)
    (hl : ∀ b ∈ l, P b) (hsorted : l.Pairwise fun a b => lt b a = false) :
    (l.orderedInsert (fun a b => lt b a = false) a).Pairwise fun a b => lt b a = false := by
  induction l with
  | nil => exact List.pairwise_singleton _ a
  | cons b l ih =>
    obtain ⟨hb, hl⟩ := List.forall_mem_cons.mp hl
    obtain ⟨hfirst, hsorted⟩ := List.pairwise_cons.mp hsorted
    rw [List.orderedInsert_cons]
    split
    next hba =>
      refine List.pairwise_cons.mpr ⟨fun c hc => ?_, List.pairwise_cons.mpr ⟨hfirst, hsorted⟩⟩
      rcases List.mem_cons.mp hc with rfl | hc
      · exact hba
      · -- the first element was least, and `a` is not behind it
        by_contra hca
        rcases h.split c b a (hl c hc) hb ha (by simpa using hca) with hcb | hba'
        · rw [hfirst c hc] at hcb
          cases hcb
        · rw [hba] at hba'
          cases hba'
    next hba =>
      refine List.pairwise_cons.mpr ⟨fun c hc => ?_, ih hl hsorted⟩
      rcases List.mem_orderedInsert _ |>.mp hc with rfl | hc
      · exact Bool.eq_false_iff.mpr (h.asymm b c hb ha (by simpa using hba))
      · exact hfirst c hc

/-- **Sorting** sorts. -/
theorem sortBy_sorted (h : StrictWeakOn P fun a b => lt a b = true) (hl : ∀ a ∈ l, P a) :
    (sortBy lt l).Pairwise fun a b => lt b a = false := by
  induction l with
  | nil => exact List.Pairwise.nil
  | cons a l ih =>
    obtain ⟨ha, hl⟩ := List.forall_mem_cons.mp hl
    refine orderedInsert_sorted h ha (fun b hb => hl b ?_) (ih hl)
    exact (sortBy_perm lt l).mem_iff.mp hb

/-- **Sorting** forgets the order, where the comparator tells all elements apart. -/
theorem sortBy_congr (h : StrictWeakOn P fun a b => lt a b = true)
    (hapart : ∀ a b, P a → P b → lt a b = false → lt b a = false → a = b) (hl : ∀ a ∈ l, P a)
    (hperm : l.Perm l') : sortBy lt l = sortBy lt l' := by
  have hl' : ∀ a ∈ l', P a := fun a ha => hl a (hperm.mem_iff.mpr ha)
  refine ((sortBy_perm lt l).trans (hperm.trans (sortBy_perm lt l').symm)).eq_of_pairwise ?_
    (sortBy_sorted h hl) (sortBy_sorted h hl')
  intro a b ha hb hba hab
  exact hapart a b (hl a ((sortBy_perm lt l).mem_iff.mp ha))
    (hl' b ((sortBy_perm lt l').mem_iff.mp hb)) hab hba

theorem sortBy_eq_self (h : l.Pairwise fun a b => lt b a = false) : sortBy lt l = l :=
  List.Pairwise.insertionSort_eq h

end Sorting

/-! ## Exact numbers -/

section Rational

theorem double_min (a b : ℚ) : Double.min a b = min a b := by
  unfold Double.min
  rw [min_def]
  split_ifs with hlt hle hle
  · exact absurd hle (not_le.mpr hlt)
  · rfl
  · rfl
  · exact absurd (not_le.mp hle) hlt

theorem double_max (a b : ℚ) : Double.max a b = max a b := by
  unfold Double.max
  rw [max_def]
  split_ifs with hlt hle hle
  · rfl
  · exact absurd hlt.le hle
  · exact le_antisymm hle (not_lt.mp hlt)
  · rfl

/-- Compares by a number first, then by `s`. -/
def lexBy {τ : Type} (key : τ → ℚ) (s : τ → τ → Bool) (a b : τ) : Bool :=
  if key a != key b then decide (key a < key b) else s a b

variable {τ : Type} {P : τ → Prop} {key : τ → ℚ} {s : τ → τ → Bool}

theorem strictWeakOn_decide {κ : Type} [LinearOrder κ] (key : τ → κ) :
    StrictWeakOn P fun a b => decide (key a < key b) = true := by
  simp only [decide_eq_true_eq]
  exact strictWeakOn_of_linear key

theorem strictWeakOn_lexBy (hs : StrictWeakOn P fun a b => s a b = true) :
    StrictWeakOn P fun a b => lexBy key s a b = true := by
  have heq : (fun a b => lexBy key s a b = true) =
      LexLess (fun a b => key a < key b) fun a b => s a b = true := by
    funext a b
    apply propext
    unfold lexBy LexLess
    rcases lt_trichotomy (key a) (key b) with h | h | h
    · simp [h, ne_of_lt h]
    · simp [h]
    · simp [h, ne_of_gt h, not_lt_of_gt h]
  rw [heq]
  exact (strictWeakOn_of_linear key).lex hs

end Rational

end DocParser
