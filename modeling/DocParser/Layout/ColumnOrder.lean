import DocParser.Common.IeeeDouble
import DocParser.Layout.BoxUnions
import DocParser.Layout.LineColumns

/-!
# The order of lines in columns

The columns of a block are found from the set of its lines, not from their order: all geometry is
checked first, and a sort of valid lines has one result (`lineColumns_congr`). So a second run finds
the columns of the first one and changes nothing. A gutter between neighbours keeps the columns
apart (`lineColumns_disjoint`).
-/

namespace DocParser.Layout

open Document Comparators

/-! ## One result for every order -/

section Order

variable {α : Type} [Double α] [IeeeDouble α] {text : PageText α}

/-- A line that refinement looks at. -/
def IsRefinable (text : PageText α) (index : Int) : Prop :=
  (inRange text index && validBBox (lineBBox text index)) = true

structure IsValidBBox (bbox : BBox α) : Prop where
  x0 : Double.isFinite bbox.x0 = true
  y0 : Double.isFinite bbox.y0 = true
  x1 : Double.isFinite bbox.x1 = true
  y1 : Double.isFinite bbox.y1 = true
  width : bbox.x0 < bbox.x1
  height : bbox.y0 < bbox.y1

omit [IeeeDouble α] in
theorem IsRefinable.isValidBBox {index : Int} (h : IsRefinable text index) :
    IsValidBBox (lineBBox text index) := by
  unfold IsRefinable validBBox at h
  simp only [Bool.and_eq_true, decide_eq_true_eq] at h
  obtain ⟨-, ⟨⟨⟨⟨hx0, hy0⟩, hx1⟩, hy1⟩, hwidth⟩, hheight⟩ := h
  exact ⟨hx0, hy0, hx1, hy1, hwidth, hheight⟩

omit [IeeeDouble α] in
theorem lineCenterLess_eq (text : PageText α) : lineCenterLess text =
    byKey (fun i => ((lineBBox text i).x0 + (lineBBox text i).x1) * 0.5)
      (byKey (fun i => (lineBBox text i).y0) fun lhs rhs => decide (lhs < rhs)) := rfl

theorem sort_lineCenter_congr {lines lines' : List Int} (hlines : ∀ i ∈ lines, IsRefinable text i)
    (h : lines.Perm lines') :
    sortBy (lineCenterLess text) lines = sortBy (lineCenterLess text) lines' := by
  have hcenter : ∀ i, IsRefinable text i →
      IsNumber (((lineBBox text i).x0 + (lineBBox text i).x1) * 0.5) := fun i hi =>
    isNumber_center hi.isValidBBox.x0 hi.isValidBBox.x1
  have htop : ∀ i, IsRefinable text i → IsNumber (lineBBox text i).y0 := fun i hi =>
    IeeeDouble.isNumber_of_isFinite _ hi.isValidBBox.y0
  rw [lineCenterLess_eq]
  refine sortBy_congr (strictWeakOn_byKey hcenter (strictWeakOn_byKey htop
    (strictWeakOn_decide id))) (fun i j hi hj hij hji => ?_) hlines h
  obtain ⟨hij, hji⟩ := byKey_apart hcenter hi hj hij hji
  obtain ⟨hij, hji⟩ := byKey_apart htop hi hj hij hji
  rw [decide_eq_false_iff_not] at hij hji
  exact le_antisymm (not_lt.mp hji) (not_lt.mp hij)

theorem median_congr {values values' : List α} (hvalues : ∀ a ∈ values, 0 < a)
    (h : values.Perm values') : median values = median values' := by
  unfold median
  rw [sort_pos_congr hvalues h, h.length_eq, h.isEmpty_eq]

/-- The median of numbers above zero. -/
theorem median_nonneg {values : List α} (hvalues : ∀ a ∈ values, 0 < a) : 0 ≤ median values := by
  have hsorted : ∀ a ∈ sortBy (fun a b => decide (a < b)) values, 0 < a := fun a ha =>
    hvalues a ((sortBy_perm _ _).mem_iff.mp ha)
  have hget : ∀ i, 0 ≤ (sortBy (fun a b => decide (a < b)) values).getD i 0 := by
    intro i
    rw [List.getD_eq_getElem?_getD]
    cases hi : (sortBy (fun a b => decide (a < b)) values)[i]? with
    | none => exact zero_le_zero
    | some a => exact nonneg_of_pos (hsorted a (List.mem_of_getElem? hi))
  unfold median
  dsimp only
  split_ifs
  · exact zero_le_zero
  · exact hget _
  · exact mean_nonneg (hget _) (hget _)

/-- The extents of lines that have boxes. -/
theorem map_extent_pos {lo hi : BBox α → α} {lines : List Int}
    (hlines : ∀ i ∈ lines, IsRefinable text i)
    (h : ∀ bbox, IsValidBBox bbox → Double.isFinite (lo bbox) = true ∧
      Double.isFinite (hi bbox) = true ∧ lo bbox < hi bbox) :
    ∀ a ∈ lines.map fun i => Double.max 0 (hi (lineBBox text i) - lo (lineBBox text i)), 0 < a := by
  intro a ha
  obtain ⟨i, hi, rfl⟩ := List.mem_map.mp ha
  obtain ⟨hlo, hhi, hlt⟩ := h _ (hlines i hi).isValidBBox
  obtain ⟨hmax, hpos⟩ := max_zero_sub hlo hhi hlt
  rwa [hmax]

theorem map_width_pos {lines : List Int} (hlines : ∀ i ∈ lines, IsRefinable text i) :
    ∀ a ∈ lines.map fun i => Double.max 0 ((lineBBox text i).x1 - (lineBBox text i).x0), 0 < a :=
  map_extent_pos hlines fun _ h => ⟨h.x0, h.x1, h.width⟩

theorem map_height_pos {lines : List Int} (hlines : ∀ i ∈ lines, IsRefinable text i) :
    ∀ a ∈ lines.map fun i => Double.max 0 ((lineBBox text i).y1 - (lineBBox text i).y0), 0 < a :=
  map_extent_pos hlines fun _ h => ⟨h.y0, h.y1, h.height⟩

/-- A block with a line that is not there, or that has no box, has no columns. -/
theorem lineColumns_eq_nil {block : LayoutBlock α}
    (h : ¬ ∀ i ∈ block.textLineIndices, IsRefinable text i) : lineColumns text block = [] := by
  have hinvalid : (block.textLineIndices.all fun index =>
      inRange text index && validBBox (lineBBox text index)) = false := by
    refine Bool.eq_false_iff.mpr fun hall => h fun i hi => ?_
    exact List.all_eq_true.mp hall i hi
  unfold lineColumns
  dsimp only
  rw [hinvalid, if_neg Bool.false_ne_true, if_pos (show median ([] : List α) ≤ 0 from zero_le_zero),
    ite_self]

variable (text) in
/-- **The columns** of a block depend on which lines it has, and not on their order. -/
theorem lineColumns_congr {block : LayoutBlock α} {lines : List Int}
    (h : lines.Perm block.textLineIndices) :
    lineColumns text { block with textLineIndices := lines } = lineColumns text block := by
  by_cases hvalid : ∀ i ∈ block.textLineIndices, IsRefinable text i
  · have hlines : ∀ i ∈ lines, IsRefinable text i := fun i hi => hvalid i (h.mem_iff.mp hi)
    have hall : ∀ p : Int → Bool, lines.all p = block.textLineIndices.all p := fun p => h.all_eq
    have hany : ∀ p : Int → Bool, lines.any p = block.textLineIndices.any p := fun p => h.any_eq
    have hwidth := median_congr (map_width_pos hlines) (h.map _)
    have hheight := median_congr (map_height_pos hlines) (h.map _)
    have hheights : (block.textLineIndices.all fun index =>
        inRange text index && validBBox (lineBBox text index)) = true := List.all_eq_true.mpr hvalid
    unfold lineColumns detectLineColumns
    simp only [h.length_eq, hall, hany, hwidth, hheight, hheights, if_true,
      sort_lineCenter_congr hlines h]
  · rw [lineColumns_eq_nil hvalid, lineColumns_eq_nil fun hlines => hvalid fun i hi => ?_]
    exact hlines i (h.mem_iff.mpr hi)

/-- The lines of some columns, one column after the other. -/
def columnOrder (text : PageText α) (columns : List (LineColumn α)) : List Int :=
  columns.flatMap fun column => sortBy (linePositionLess text) column.lineIndices

omit [IeeeDouble α] in
theorem refineBlock_of_columns {block : LayoutBlock α} (h : lineColumns text block ≠ []) :
    (refineBlock text block).1 =
      { block with textLineIndices := columnOrder text (lineColumns text block) } := by
  unfold refineBlock columnOrder
  dsimp only
  split
  next hsame =>
    rw [Bool.or_eq_true, List.isEmpty_iff, beq_iff_eq] at hsame
    rw [hsame.resolve_left h]
  next => rfl

variable (text) in
/-- **A refined block** is left as it is. -/
theorem refineBlock_refineBlock (block : LayoutBlock α) :
    refineBlock text (refineBlock text block).1 = ((refineBlock text block).1, none) := by
  by_cases hcolumns : lineColumns text block = []
  · have heq : refineBlock text block = (block, none) := by
      unfold refineBlock
      rw [hcolumns]
      rfl
    rw [heq, heq]
  · obtain ⟨lines, hblock, hperm⟩ := refineBlock_perm text block
    have heq := refineBlock_of_columns hcolumns
    rw [heq] at hblock ⊢
    obtain rfl := congrArg LayoutBlock.textLineIndices hblock
    refine if_pos ?_
    rw [lineColumns_congr text hperm]
    exact Bool.or_eq_true _ _ |>.mpr (.inr (beq_self_eq_true _))

variable (text) in
/-- **The order** of a block with columns does not depend on the order that its lines had. -/
theorem refineBlock_congr {block : LayoutBlock α} {lines : List Int}
    (h : lines.Perm block.textLineIndices) (hcolumns : lineColumns text block ≠ []) :
    (refineBlock text { block with textLineIndices := lines }).1 = (refineBlock text block).1 := by
  have hcongr := lineColumns_congr text h
  rw [refineBlock_of_columns (by rwa [hcongr]), refineBlock_of_columns hcolumns, hcongr]

end Order

/-! ## Columns apart -/

section Apart

variable {α : Type} [Double α] [IeeeDouble α] {text : PageText α}

/-- The box of a column is that of its lines. -/
def IsBoxed (text : PageText α) (column : LineColumn α) : Prop :=
  IsUnion column.bbox (column.lineIndices.map (lineBBox text))

theorem addToColumns_isBoxed {columns : List (LineColumn α)} (index : Int)
    (h : ∀ column ∈ columns, IsBoxed text column) :
    ∀ column ∈ addToColumns text columns index, IsBoxed text column := by
  intro column hcolumn
  unfold addToColumns at hcolumn
  dsimp only at hcolumn
  split at hcolumn
  · rcases List.mem_append.mp hcolumn with hold | hnew
    · exact h column hold
    · rw [List.mem_singleton.mp hnew]
      exact isUnion_singleton _
  · obtain ⟨i, hi, rfl⟩ := List.getElem_of_mem hcolumn
    rw [List.getElem_modify]
    split
    · unfold IsBoxed
      rw [List.map_append]
      exact IsUnion.expand (h _ (List.getElem_mem _)) _
    · exact h _ (List.getElem_mem _)

theorem foldl_addToColumns_isBoxed (lines : List Int) : ∀ {columns : List (LineColumn α)},
    (∀ column ∈ columns, IsBoxed text column) →
      ∀ column ∈ lines.foldl (addToColumns text) columns, IsBoxed text column := by
  induction lines with
  | nil => exact fun h => h
  | cons index lines ih => exact fun h => ih (addToColumns_isBoxed index h)

/-- A column of lines that have boxes has a box. -/
structure HasSides (column : LineColumn α) : Prop where
  left : Double.isFinite column.bbox.x0 = true
  right : Double.isFinite column.bbox.x1 = true
  width : column.bbox.x0 < column.bbox.x1

omit [IeeeDouble α] in
/-- A line of a column is between its sides. -/
theorem IsBoxed.line_between {column : LineColumn α} (h : IsBoxed text column) {index : Int}
    (hindex : index ∈ column.lineIndices) :
    ¬ (lineBBox text index).x0 < column.bbox.x0 ∧ ¬ column.bbox.x1 < (lineBBox text index).x1 := by
  have hbox := List.mem_map_of_mem (f := lineBBox text) hindex
  exact ⟨h.left.2 _ (List.mem_map_of_mem hbox), h.right.2 _ (List.mem_map_of_mem hbox)⟩

theorem IsBoxed.hasSides {column : LineColumn α} (h : IsBoxed text column)
    (hlines : ∀ i ∈ column.lineIndices, IsRefinable text i) : HasSides column := by
  obtain ⟨_, hleft, hx0⟩ := List.mem_map.mp h.left.1
  obtain ⟨i, hi, rfl⟩ := List.mem_map.mp hleft
  obtain ⟨_, hright, hx1⟩ := List.mem_map.mp h.right.1
  obtain ⟨j, hj, rfl⟩ := List.mem_map.mp hright
  have hvi := (hlines i hi).isValidBBox
  have hvj := (hlines j hj).isValidBBox
  have hnumber := IeeeDouble.isNumber_of_isFinite (α := α)
  refine ⟨hx0 ▸ hvi.x0, hx1 ▸ hvj.x1, ?_⟩
  -- the line on the left has its right side before that of the column
  rw [← hx0]
  rcases IeeeDouble.strictWeakOn.split _ column.bbox.x1 _ (hnumber _ hvi.x0)
    (hnumber _ (hx1 ▸ hvj.x1)) (hnumber _ hvi.x1) hvi.width with hlt | hlt
  · exact hlt
  · exact absurd hlt (h.line_between hi).2

theorem IsBoxed.disjoint {left right : LineColumn α} (hleft : IsBoxed text left)
    (hright : IsBoxed text right) (hlines : ∀ i ∈ left.lineIndices, IsRefinable text i)
    (hlines' : ∀ i ∈ right.lineIndices, IsRefinable text i) (h : left.bbox.x1 < right.bbox.x0) :
    ∀ i ∈ left.lineIndices, i ∉ right.lineIndices := by
  intro i hi hi'
  have hvalid := (hlines i hi).isValidBBox
  have hnumber := IeeeDouble.isNumber_of_isFinite (α := α)
  have hx0 := hnumber _ hvalid.x0
  have hx1 := hnumber _ hvalid.x1
  have hside := hnumber _ (hleft.hasSides hlines).right
  have hside' := hnumber _ (hright.hasSides hlines').left
  -- the line would begin behind the gutter and end before it
  rcases IeeeDouble.strictWeakOn.split _ (lineBBox text i).x1 _ hside hx1 hside' h with hlt | hlt
  · exact (hleft.line_between hi).2 hlt
  · exact (hright.line_between hi').1 (Trans.trans hvalid.width hlt)

theorem lt_of_besideEachOther {medianHeight : α} (hheight : 0 ≤ medianHeight)
    {left right : LineColumn α} (hleft : HasSides left) (hright : HasSides right)
    (h : besideEachOther medianHeight left right = true) : left.bbox.x1 < right.bbox.x0 := by
  unfold besideEachOther at h
  simp only [Bool.and_eq_true, Bool.not_eq_true', decide_eq_false_iff_not] at h
  have hquarters : Double.isFinite (0.75 : α) = true ∧ 0 < (0.75 : α) :=
    IeeeDouble.decimal 75 2 (by decide) (by decide) (by decide)
  have hwidth := IeeeDouble.mul_nonneg _ _ hheight hquarters.1 hquarters.2
  have hnumber := (IeeeDouble.isNumber_of_le _ _ hwidth).2
  have hgutter := IeeeDouble.isNumber_sub _ _ hright.left hleft.right
  have hlt : medianHeight * 0.75 < right.bbox.x0 - left.bbox.x1 := by
    by_contra hnot
    exact h.1 ((IeeeDouble.le_iff _ _ hgutter hnumber).mpr hnot)
  rcases IeeeDouble.strictWeakOn.split _ 0 _ hnumber isNumber_zero hgutter hlt with hneg | hpos
  · exact absurd hneg ((IeeeDouble.le_iff _ _ isNumber_zero hnumber).mp hwidth)
  · exact (IeeeDouble.sub_pos _ _ hright.left hleft.right).mp hpos

/-- Neighbours are apart, and so are all columns. -/
theorem areColumns_pairwise {medianHeight : α} (hheight : 0 ≤ medianHeight)
    {columns : List (LineColumn α)} (hsides : ∀ column ∈ columns, HasSides column)
    (h : areColumns medianHeight columns = true) :
    columns.Pairwise fun left right => left.bbox.x1 < right.bbox.x0 := by
  induction columns with
  | nil => exact List.Pairwise.nil
  | cons left columns ih =>
    cases columns with
    | nil => exact List.pairwise_singleton _ left
    | cons right rest =>
      obtain ⟨hleft, hrest⟩ := List.forall_mem_cons.mp hsides
      have hright := hrest right (List.mem_cons_self ..)
      unfold areColumns at h
      rw [Bool.and_eq_true, Bool.and_eq_true] at h
      have hpairwise := ih hrest h.2
      have hlt := lt_of_besideEachOther hheight hleft hright h.1.2
      refine List.pairwise_cons.mpr ⟨fun column hcolumn => ?_, hpairwise⟩
      rcases List.mem_cons.mp hcolumn with rfl | hcolumn
      · exact hlt
      · have hbehind := (List.pairwise_cons.mp hpairwise).1 column hcolumn
        exact Trans.trans (Trans.trans hlt hright.width) hbehind

/-- What is checked of the columns that are detected. -/
theorem detectLineColumns_spec {block : LayoutBlock α} {medianHeight : α}
    (h : detectLineColumns text block medianHeight ≠ []) :
    areColumns medianHeight (detectLineColumns text block medianHeight) = true ∧
      ∀ column ∈ detectLineColumns text block medianHeight, IsBoxed text column := by
  unfold detectLineColumns at h ⊢
  dsimp only at h ⊢
  split_ifs at h ⊢ with _ _ _ _ hcolumns <;> first | exact absurd rfl h | skip
  refine ⟨hcolumns, fun column hcolumn => ?_⟩
  exact foldl_addToColumns_isBoxed _ (fun _ h => absurd h List.not_mem_nil) column
    ((sortBy_perm _ _).mem_iff.mp hcolumn)

theorem lineColumns_spec {block : LayoutBlock α} (h : lineColumns text block ≠ []) :
    (∀ i ∈ block.textLineIndices, IsRefinable text i) ∧
      ∃ medianHeight, 0 ≤ medianHeight ∧
        detectLineColumns text block medianHeight = lineColumns text block := by
  have hvalid : ∀ i ∈ block.textLineIndices, IsRefinable text i := by
    by_contra hinvalid
    exact h (lineColumns_eq_nil hinvalid)
  refine ⟨hvalid, _, median_nonneg (map_height_pos hvalid), ?_⟩
  have hall : (block.textLineIndices.all fun index =>
      inRange text index && validBBox (lineBBox text index)) = true := List.all_eq_true.mpr hvalid
  unfold lineColumns at h ⊢
  dsimp only at h ⊢
  rw [hall, if_pos rfl] at h ⊢
  split_ifs at h ⊢ <;> first | exact absurd rfl h | rfl

/-- **The columns** of a block have no line in common. -/
theorem lineColumns_disjoint {block : LayoutBlock α} (h : lineColumns text block ≠ []) :
    (lineColumns text block).Pairwise fun left right =>
      ∀ i ∈ left.lineIndices, i ∉ right.lineIndices := by
  obtain ⟨hvalid, medianHeight, hheight, hdetect⟩ := lineColumns_spec h
  obtain ⟨hcolumns, hboxed⟩ := detectLineColumns_spec (hdetect ▸ h)
  have hperm := lineColumns_perm h
  rw [hdetect] at hcolumns hboxed
  have hlines : ∀ column ∈ lineColumns text block, ∀ i ∈ column.lineIndices,
      IsRefinable text i := fun column hcolumn i hi =>
    hvalid i (hperm.mem_iff.mp (List.mem_flatMap.mpr ⟨column, hcolumn, hi⟩))
  have hsides : ∀ column ∈ lineColumns text block, HasSides column := fun column hcolumn =>
    (hboxed column hcolumn).hasSides (hlines column hcolumn)
  refine (areColumns_pairwise hheight hsides hcolumns).imp_of_mem fun hleft hright hlt => ?_
  exact (hboxed _ hleft).disjoint (hboxed _ hright) (hlines _ hleft) (hlines _ hright) hlt

end Apart

/-! ## Refinement of a page -/

section Refinement

variable {α : Type} [Double α]

/-- The same block with its lines in some order. -/
def Reordered (block block' : LayoutBlock α) : Prop :=
  ∃ lines, block' = { block with textLineIndices := lines } ∧ lines.Perm block.textLineIndices

variable [IeeeDouble α]

/-- A second run reports nothing. -/
theorem refine_refine (text : PageText α) (blocks : List (LayoutBlock α)) :
    refineMultiColumnTextLineOrder text (refineMultiColumnTextLineOrder text blocks).2 =
      (⟨0, 1⟩, (refineMultiColumnTextLineOrder text blocks).2) := by
  have hsame : ∀ block ∈ (refineMultiColumnTextLineOrder text blocks).2,
      refineBlock text block = (block, none) := by
    rw [refined_blocks]
    intro block hblock
    obtain ⟨block, -, rfl⟩ := List.mem_map.mp hblock
    exact refineBlock_refineBlock text block
  generalize (refineMultiColumnTextLineOrder text blocks).2 = refined at hsame
  have hnone : (refined.map fun block => (block, (none : Option Nat))).filterMap (·.2) = [] :=
    List.filterMap_eq_nil_iff.mpr fun p hp => by
      obtain ⟨block, -, rfl⟩ := List.mem_map.mp hp
      rfl
  unfold refineMultiColumnTextLineOrder
  dsimp only
  rw [List.map_congr_left hsame, hnone, List.map_map]
  exact congrArg _ (List.map_id _)

/-- **Refinement** puts the lines of every block into an order that is the only one where the block
has columns, and the columns share the lines among themselves. -/
theorem refineMultiColumnTextLineOrder_settles (text : PageText α)
    (blocks : List (LayoutBlock α)) :
    List.Forall₂ Reordered blocks (refineMultiColumnTextLineOrder text blocks).2 ∧
      refineMultiColumnTextLineOrder text (refineMultiColumnTextLineOrder text blocks).2 =
        (⟨0, 1⟩, (refineMultiColumnTextLineOrder text blocks).2) ∧
      (∀ block ∈ blocks, lineColumns text block ≠ [] →
        (columnLines (lineColumns text block)).Perm block.textLineIndices ∧
          (lineColumns text block).Pairwise fun left right =>
            ∀ i ∈ left.lineIndices, i ∉ right.lineIndices) ∧
      ∀ blocks', List.Forall₂ Reordered blocks blocks' → ∀ (i : Nat) (block : LayoutBlock α),
        blocks[i]? = some block → lineColumns text block ≠ [] →
          (refineMultiColumnTextLineOrder text blocks').2[i]? =
            (refineMultiColumnTextLineOrder text blocks).2[i]? := by
  refine ⟨?_, refine_refine text blocks, fun block _ h =>
    ⟨lineColumns_perm h, lineColumns_disjoint h⟩, fun blocks' hblocks i block hi hcolumns => ?_⟩
  · rw [refined_blocks, List.forall₂_map_right_iff]
    exact List.forall₂_same.mpr fun block _ => refineBlock_perm text block
  · rw [refined_blocks, refined_blocks, List.getElem?_map, List.getElem?_map, hi]
    obtain ⟨hlt, rfl⟩ := List.getElem?_eq_some_iff.mp hi
    have hlt' : i < blocks'.length := hblocks.length_eq ▸ hlt
    obtain ⟨lines, hblock, hperm⟩ := List.Forall₂.get hblocks hlt hlt'
    have hget : blocks'[i]? = some { blocks[i] with textLineIndices := lines } := by
      rw [List.getElem?_eq_getElem hlt']
      exact congrArg some hblock
    rw [hget]
    exact congrArg some (refineBlock_congr text hperm hcolumns)

end Refinement

section Example

/-- Two lines on the left and two on the right. -/
def twoColumnText : PageText ℚ :=
  let line (text : String) (bbox : BBox ℚ) : TextLine ℚ := ⟨text, bbox, .ocr, 1, []⟩
  ⟨0, 1, true, .ocr, [line "left one" ⟨100, 100, 400, 130⟩, line "right one" ⟨600, 100, 900, 130⟩,
    line "left two" ⟨100, 150, 400, 180⟩, line "right two" ⟨600, 150, 900, 180⟩]⟩

def twoColumnBlock (lines : List Int) : LayoutBlock ℚ where
  id := "block"
  type := .text
  sourceLabel := "text"
  relatedBlockId := ""
  bbox := ⟨100, 100, 900, 180⟩
  confidence := 1
  readingOrderHint := 0
  textLineIndices := lines

/-- The left column comes first, whichever order the lines had. -/
theorem refine_twoColumnBlock :
    refineMultiColumnTextLineOrder twoColumnText [twoColumnBlock [0, 1, 2, 3]] =
        (⟨1, 2⟩, [twoColumnBlock [0, 2, 1, 3]]) ∧
      refineMultiColumnTextLineOrder twoColumnText [twoColumnBlock [0, 2, 1, 3]] =
        (⟨0, 1⟩, [twoColumnBlock [0, 2, 1, 3]]) ∧
      (refineMultiColumnTextLineOrder twoColumnText [twoColumnBlock [3, 1, 0, 2]]).2[0]? =
        some (twoColumnBlock [0, 2, 1, 3]) := by
  obtain ⟨-, hsecond, -, horder⟩ :=
    refineMultiColumnTextLineOrder_settles twoColumnText [twoColumnBlock [0, 1, 2, 3]]
  have hfirst : refineMultiColumnTextLineOrder twoColumnText [twoColumnBlock [0, 1, 2, 3]] =
      (⟨1, 2⟩, [twoColumnBlock [0, 2, 1, 3]]) := by decide +kernel
  have hreordered : Reordered (twoColumnBlock [0, 1, 2, 3]) (twoColumnBlock [3, 1, 0, 2]) :=
    ⟨[3, 1, 0, 2], rfl, by decide⟩
  have hsame := horder [twoColumnBlock [3, 1, 0, 2]] (.cons hreordered .nil) 0 _ rfl
    (by decide +kernel)
  rw [hfirst] at hsecond hsame
  exact ⟨hfirst, hsecond, hsame⟩

end Example

end DocParser.Layout
