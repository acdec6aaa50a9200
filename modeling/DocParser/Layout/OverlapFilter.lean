import DocParser.Layout.Lines
import DocParser.Lib.GreedySelection

/-!
# Overlapping blocks of a layout model

The model reports a region several times, under one label or several. `filterOverlappingBlocks`
compares the blocks pair by pair and drops a loser of each pair that overlaps too much.
`survivors_do_not_conflict`: no two blocks that are left overlap too much.
-/

namespace DocParser.Layout

open Document

/-! ## The filter -/

section Definitions

variable {α : Type} [Double α]

def overlapOverSmaller (lhs rhs : BBox α) : α :=
  let width := Double.max 0 (Double.min lhs.x1 rhs.x1 - Double.max lhs.x0 rhs.x0)
  let height := Double.max 0 (Double.min lhs.y1 rhs.y1 - Double.max lhs.y0 rhs.y0)
  let denominator := Double.min (bboxArea lhs) (bboxArea rhs)
  if denominator ≤ 0 then 0 else width * height / denominator

def isVisualLabel (label : String) : Bool :=
  label == "image" || label == "table" || label == "seal" || label == "chart"

def preserveVisualOverlap (lhs rhs : String) : Bool :=
  if lhs == rhs || (!isVisualLabel lhs && !isVisualLabel rhs) then false
  else if lhs != "table" && rhs != "table" then true
  else isVisualLabel lhs && isVisualLabel rhs

def isInlineFormula (block : LayoutBlock α) : Bool := block.sourceLabel == "inline_formula"

/-- Less than six pixels wide or high. -/
def isTooSmall (block : LayoutBlock α) : Bool :=
  decide (block.bbox.x1 - block.bbox.x0 < 6.0) || decide (block.bbox.y1 - block.bbox.y0 < 6.0)

def blockAt (blocks : List (LayoutBlock α)) (index : Nat) : LayoutBlock α :=
  blocks.getD index default

/-- The marks of the blocks, by their indices. -/
abbrev Dropped := Nat → Bool

def checkSize (blocks : List (LayoutBlock α)) (dropped : Dropped) (lhs : Nat) : Dropped :=
  if isTooSmall (blockAt blocks lhs) then Function.update dropped lhs true else dropped

def comparePair (blocks : List (LayoutBlock α)) (dropped : Dropped) (lhs rhs : Nat) : Dropped :=
  let left := blockAt blocks lhs
  let right := blockAt blocks rhs
  if dropped lhs || dropped rhs then dropped
  else
    let overlap := overlapOverSmaller left.bbox right.bbox
    if isInlineFormula left || isInlineFormula right then
      if 0.5 < overlap then
        Function.update (Function.update dropped lhs (isInlineFormula left)) rhs
          (isInlineFormula right)
      else dropped
    else if decide (overlap ≤ 0.7) || preserveVisualOverlap left.sourceLabel right.sourceLabel then
      dropped
    else if bboxArea right.bbox ≤ bboxArea left.bbox then Function.update dropped rhs true
    else Function.update dropped lhs true

/-- What the two loops do, one after the other. -/
inductive FilterStep
  | size (lhs : Nat)
  | pair (lhs rhs : Nat)
  deriving DecidableEq, Repr

def filterStep (blocks : List (LayoutBlock α)) (dropped : Dropped) : FilterStep → Dropped
  | .size lhs => checkSize blocks dropped lhs
  | .pair lhs rhs => comparePair blocks dropped lhs rhs

/-- The steps for some blocks in their order. -/
def filterSteps (count : Nat) : List FilterStep :=
  (List.range count).flatMap fun lhs =>
    .size lhs :: ((List.range count).filter (lhs < ·)).map (.pair lhs)

/-- The marks after some steps. -/
def droppedAfter (blocks : List (LayoutBlock α)) (steps : List FilterStep) : Dropped :=
  steps.foldl (filterStep blocks) fun _ => false

/-- The marks at the end. -/
def droppedBlocks (blocks : List (LayoutBlock α)) : Dropped :=
  droppedAfter blocks (filterSteps blocks.length)

def filterOverlappingBlocks (blocks : List (LayoutBlock α)) : List (LayoutBlock α) :=
  (blocks.zipIdx.filter fun p => !droppedBlocks blocks p.2).map Prod.fst

/-- The rule that two blocks overlap too much by. -/
def pairConflicts (left right : LayoutBlock α) : Bool :=
  let overlap := overlapOverSmaller left.bbox right.bbox
  if isInlineFormula left || isInlineFormula right then decide (0.5 < overlap)
  else !(decide (overlap ≤ 0.7) || preserveVisualOverlap left.sourceLabel right.sourceLabel)

/-- The rule for two places, compared in their order. -/
def conflicts (blocks : List (LayoutBlock α)) (i j : Nat) : Bool :=
  if i < j then pairConflicts (blockAt blocks i) (blockAt blocks j)
  else if j < i then pairConflicts (blockAt blocks j) (blockAt blocks i)
  else false

end Definitions

/-! ## One step -/

section Steps

variable {α : Type} [Double α] {blocks : List (LayoutBlock α)} {dropped : Dropped} {i j : Nat}

theorem filterStep_size (lhs : Nat) :
    filterStep blocks dropped (.size lhs) = checkSize blocks dropped lhs := rfl

theorem filterStep_pair (lhs rhs : Nat) :
    filterStep blocks dropped (.pair lhs rhs) = comparePair blocks dropped lhs rhs := rfl

theorem conflicts_comm (blocks : List (LayoutBlock α)) (i j : Nat) :
    conflicts blocks i j = conflicts blocks j i := by
  unfold conflicts
  rcases Nat.lt_trichotomy i j with h | rfl | h
  · rw [if_pos h, if_neg (Nat.lt_asymm h), if_pos h]
  · rfl
  · rw [if_neg (Nat.lt_asymm h), if_pos h, if_pos h]

theorem conflicts_of_lt (h : i < j) :
    conflicts blocks i j = pairConflicts (blockAt blocks i) (blockAt blocks j) := if_pos h

/-- Whether the comparison of a pair marks the block that comes first. -/
def leftLoses (left right : LayoutBlock α) : Bool :=
  pairConflicts left right && (isInlineFormula left ||
    (!isInlineFormula right && !decide (bboxArea right.bbox ≤ bboxArea left.bbox)))

/-- Whether it marks the other one. -/
def rightLoses (left right : LayoutBlock α) : Bool :=
  pairConflicts left right && (isInlineFormula right ||
    (!isInlineFormula left && decide (bboxArea right.bbox ≤ bboxArea left.bbox)))

/-- A conflict marks one of the two blocks or both. -/
theorem loses_of_pairConflicts {left right : LayoutBlock α} (h : pairConflicts left right = true) :
    leftLoses left right = true ∨ rightLoses left right = true := by
  unfold leftLoses rightLoses
  rw [h]
  cases isInlineFormula left <;> cases isInlineFormula right <;>
    by_cases harea : bboxArea right.bbox ≤ bboxArea left.bbox <;> simp [harea]

/-- What a check of a size marks. -/
theorem checkSize_apply (dropped : Dropped) (lhs x : Nat) :
    checkSize blocks dropped lhs x =
      (dropped x || (decide (x = lhs) && isTooSmall (blockAt blocks lhs))) := by
  unfold checkSize
  by_cases hx : x = lhs
  · subst hx
    cases isTooSmall (blockAt blocks x) <;> simp
  · cases isTooSmall (blockAt blocks lhs) <;> simp [hx]

/-- What a comparison marks: the losers of a pair of which neither was marked before. -/
theorem comparePair_apply (dropped : Dropped) (h : i < j) (x : Nat) :
    comparePair blocks dropped i j x =
      (dropped x || (!dropped i && !dropped j &&
        ((decide (x = i) && leftLoses (blockAt blocks i) (blockAt blocks j)) ||
          (decide (x = j) && rightLoses (blockAt blocks i) (blockAt blocks j))))) := by
  have hne : i ≠ j := Nat.ne_of_lt h
  unfold comparePair
  dsimp only
  cases hi : dropped i with
  | true => simp
  | false =>
    cases hj : dropped j with
    | true => simp
    | false =>
      unfold leftLoses rightLoses pairConflicts
      dsimp only
      cases hl : isInlineFormula (blockAt blocks i) <;>
        cases hr : isInlineFormula (blockAt blocks j)
      case false.false =>
        by_cases hkept : (decide (overlapOverSmaller (blockAt blocks i).bbox
            (blockAt blocks j).bbox ≤ 0.7) ||
              preserveVisualOverlap (blockAt blocks i).sourceLabel
                (blockAt blocks j).sourceLabel) = true
        · simp [hkept]
        · by_cases harea : bboxArea (blockAt blocks j).bbox ≤ bboxArea (blockAt blocks i).bbox
          · by_cases hx : x = j
            · simp [hkept, harea, hx]
            · simp [hkept, harea, hx]
          · by_cases hx : x = i
            · simp [hkept, harea, hx]
            · simp [hkept, harea, hx]
      all_goals
        by_cases hoverlap : (0.5 : α) <
            overlapOverSmaller (blockAt blocks i).bbox (blockAt blocks j).bbox
        · rcases eq_or_ne x i with rfl | hxi
          · simp [hoverlap, hne, hi]
          · rcases eq_or_ne x j with rfl | hxj
            · simp [hoverlap, hxi, hj]
            · simp [hoverlap, hxi, hxj]
        · simp [hoverlap]

theorem mem_filterSteps_pair {count : Nat} :
    FilterStep.pair i j ∈ filterSteps count ↔ i < j ∧ j < count := by
  unfold filterSteps
  simp only [List.mem_flatMap, List.mem_range, List.mem_cons, reduceCtorEq, List.mem_map,
    List.mem_filter, FilterStep.pair.injEq, false_or, decide_eq_true_eq]
  constructor
  · rintro ⟨lhs, -, rhs, ⟨hcount, hlt⟩, rfl, rfl⟩
    exact ⟨hlt, hcount⟩
  · rintro ⟨hlt, hcount⟩
    exact ⟨i, hlt.trans hcount, j, ⟨hcount, hlt⟩, rfl, rfl⟩

theorem mem_filterSteps_size {count : Nat} : FilterStep.size i ∈ filterSteps count ↔ i < count := by
  unfold filterSteps
  simp

/-- The steps of a run: only pairs in ascending order are compared. -/
def FilterStep.IsOf (count : Nat) : FilterStep → Prop
  | .size lhs => lhs < count
  | .pair lhs rhs => lhs < rhs ∧ rhs < count

theorem isOf_of_mem {count : Nat} {step : FilterStep} (h : step ∈ filterSteps count) :
    step.IsOf count := by
  cases step with
  | size lhs => exact mem_filterSteps_size.mp h
  | pair lhs rhs => exact mem_filterSteps_pair.mp h

/-- A mark is never taken back. -/
theorem filterStep_mono {step : FilterStep} {count : Nat} (hstep : step.IsOf count)
    (h : dropped i = true) : filterStep blocks dropped step i = true := by
  cases step with
  | size lhs => rw [filterStep_size, checkSize_apply, h, Bool.true_or]
  | pair lhs rhs => rw [filterStep_pair, comparePair_apply dropped hstep.1, h, Bool.true_or]

end Steps

/-! ## A run of the loops -/

section Runs

variable {α : Type} [Double α] {blocks : List (LayoutBlock α)} {i j : Nat}

theorem droppedAfter_append (before after : List FilterStep) :
    droppedAfter blocks (before ++ after) =
      after.foldl (filterStep blocks) (droppedAfter blocks before) := List.foldl_append

theorem droppedAfter_concat (before : List FilterStep) (step : FilterStep) :
    droppedAfter blocks (before ++ [step]) =
      filterStep blocks (droppedAfter blocks before) step := by
  rw [droppedAfter_append]
  rfl

/-- **Marks stay** until the end of a run. -/
theorem foldl_filterStep_mono {count : Nat} (steps : List FilterStep) : ∀ {dropped : Dropped},
    (∀ step ∈ steps, step.IsOf count) → dropped i = true →
    steps.foldl (filterStep blocks) dropped i = true := by
  induction steps with
  | nil => exact fun _ h => h
  | cons step steps ih =>
    intro dropped hsteps h
    obtain ⟨hstep, hsteps⟩ := List.forall_mem_cons.mp hsteps
    exact ih hsteps (filterStep_mono hstep h)

/-- A block that is unmarked after some steps is unmarked before the last ones. -/
theorem unmarked_before {count : Nat} {before after : List FilterStep}
    (hsteps : ∀ step ∈ after, step.IsOf count)
    (h : droppedAfter blocks (before ++ after) i = false) :
    droppedAfter blocks before i = false := by
  by_contra hmarked
  rw [droppedAfter_append, foldl_filterStep_mono after hsteps (by simpa using hmarked)] at h
  cases h

/-- The sizes of blocks that are left. -/
theorem not_tooSmall_of_checked {count : Nat} {steps : List FilterStep}
    (hsteps : ∀ step ∈ steps, step.IsOf count) (hi : .size i ∈ steps)
    (h : droppedAfter blocks steps i = false) : isTooSmall (blockAt blocks i) = false := by
  obtain ⟨before, after, rfl⟩ := List.append_of_mem hi
  rw [List.append_cons] at h
  have hafter := unmarked_before (fun step hstep => hsteps step (by simp [hstep])) h
  rw [droppedAfter_concat, filterStep_size, checkSize_apply] at hafter
  simpa using (Bool.or_eq_false_iff.mp hafter).2

/-- **Unmarked pairs** that have been compared do not conflict. -/
theorem no_conflict_of_compared {count : Nat} {steps : List FilterStep}
    (hsteps : ∀ step ∈ steps, step.IsOf count) (hpair : .pair i j ∈ steps)
    (hdropped : droppedAfter blocks steps i = false)
    (hdropped' : droppedAfter blocks steps j = false) :
    pairConflicts (blockAt blocks i) (blockAt blocks j) = false := by
  have hlt : i < j := (hsteps _ hpair).1
  obtain ⟨before, after, rfl⟩ := List.append_of_mem hpair
  have hbefore := unmarked_before (fun step hstep => hsteps step (List.mem_append_right _ hstep))
    hdropped
  have hbefore' := unmarked_before (fun step hstep => hsteps step (List.mem_append_right _ hstep))
    hdropped'
  rw [List.append_cons] at hdropped hdropped'
  have hafter := unmarked_before (fun step hstep => hsteps step (by simp [hstep])) hdropped
  have hafter' := unmarked_before (fun step hstep => hsteps step (by simp [hstep])) hdropped'
  rw [droppedAfter_concat, filterStep_pair, comparePair_apply _ hlt, hbefore, hbefore']
    at hafter hafter'
  by_contra hconflict
  rcases loses_of_pairConflicts (by simpa using hconflict) with hloses | hloses
  · simp [hloses] at hafter
  · simp [hloses] at hafter'

/-! ## The blocks that are left -/

theorem mem_survivors {block : LayoutBlock α} {index : Nat}
    (h : (block, index) ∈ blocks.zipIdx.filter fun p => !droppedBlocks blocks p.2) :
    index < blocks.length ∧ block = blockAt blocks index ∧ droppedBlocks blocks index = false := by
  obtain ⟨hmem, hkept⟩ := List.mem_filter.mp h
  obtain ⟨hlt, heq⟩ := List.getElem?_eq_some_iff.mp (List.mem_zipIdx_iff_getElem?.mp hmem)
  refine ⟨hlt, ?_, by simpa using hkept⟩
  unfold blockAt
  rw [List.getD, List.getElem?_eq_getElem hlt, Option.getD_some]
  exact heq.symm

/-- **The filter** leaves a part of the blocks in their order. None of them is too small, and no two
of them overlap too much. -/
theorem survivors_do_not_conflict (blocks : List (LayoutBlock α)) :
    (filterOverlappingBlocks blocks).Sublist blocks ∧
    (∀ block ∈ filterOverlappingBlocks blocks,
      ¬ block.bbox.x1 - block.bbox.x0 < 6.0 ∧ ¬ block.bbox.y1 - block.bbox.y0 < 6.0) ∧
    (filterOverlappingBlocks blocks).Pairwise fun lhs rhs =>
      ((lhs.sourceLabel = "inline_formula" ∨ rhs.sourceLabel = "inline_formula") →
        ¬ 0.5 < overlapOverSmaller lhs.bbox rhs.bbox) ∧
      (lhs.sourceLabel ≠ "inline_formula" → rhs.sourceLabel ≠ "inline_formula" →
        overlapOverSmaller lhs.bbox rhs.bbox ≤ 0.7 ∨
          preserveVisualOverlap lhs.sourceLabel rhs.sourceLabel = true) := by
  refine ⟨Greedy.chosen_sublist (fun i => !droppedBlocks blocks i) blocks, ?_, ?_⟩
  · intro block hblock
    obtain ⟨⟨_, index⟩, hmem, rfl⟩ := List.mem_map.mp hblock
    obtain ⟨hlt, heq, hdropped⟩ := mem_survivors hmem
    have hsize := not_tooSmall_of_checked (fun _ => isOf_of_mem) (mem_filterSteps_size.mpr hlt)
      hdropped
    dsimp only
    rw [heq]
    unfold isTooSmall at hsize
    simpa using hsize
  · refine List.pairwise_map.mpr ?_
    have hascending : (blocks.zipIdx.filter fun p => !droppedBlocks blocks p.2).Pairwise
        fun p q => p.2 < q.2 := by
      refine List.Pairwise.filter _ (List.pairwise_map.mp ?_)
      rw [List.zipIdx_map_snd]
      exact List.pairwise_lt_range'
    refine hascending.imp_of_mem fun {p q} hp hq hlt => ?_
    obtain ⟨-, hleft, hdropped⟩ := mem_survivors hp
    obtain ⟨hcount, hright, hdropped'⟩ := mem_survivors hq
    have hfree := no_conflict_of_compared (fun _ => isOf_of_mem)
      (mem_filterSteps_pair.mpr ⟨hlt, hcount⟩) hdropped hdropped'
    rw [← hleft, ← hright] at hfree
    unfold pairConflicts isInlineFormula at hfree
    constructor
    · intro hinline
      rw [if_pos (by simpa using hinline)] at hfree
      simpa using hfree
    · intro hl hr
      rw [if_neg (by simp [hl, hr]), Bool.not_eq_false', Bool.or_eq_true,
        decide_eq_true_iff] at hfree
      exact hfree

end Runs

end DocParser.Layout
