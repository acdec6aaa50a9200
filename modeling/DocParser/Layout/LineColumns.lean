import DocParser.Layout.FallbackGroups

/-!
# Lines in columns

A block of body text whose lines stand in columns is read column by column.
`refineBlock_perm`: this reorders the lines of a block and changes nothing else.
-/

namespace DocParser.Layout

open Document

structure LineColumn (α : Type) where
  bbox : BBox α
  lineIndices : List Int
  deriving DecidableEq, Repr

structure LayoutRefinementStats where
  reorderedBlocks : Nat
  maximumColumns : Nat
  deriving DecidableEq, Repr

section Columns

variable {α : Type} [Double α]

/-- The column that a line overlaps most, by half at least. -/
def bestColumn (columns : List (LineColumn α)) (bbox : BBox α) : Option Nat :=
  let width := Double.max 0 (bbox.x1 - bbox.x0)
  (columns.zipIdx.foldl (fun (best : Option Nat × α) p =>
    let columnWidth := p.1.bbox.x1 - p.1.bbox.x0
    let ratio := horizontalOverlap bbox p.1.bbox /
      Double.max 1.0e-3 (Double.min width columnWidth)
    if 0.50 ≤ ratio ∧ best.2 < ratio then (some p.2, ratio) else best) (none, 0)).1

def addToColumns (text : PageText α) (columns : List (LineColumn α)) (lineIndex : Int) :
    List (LineColumn α) :=
  let bbox := lineBBox text lineIndex
  match bestColumn columns bbox with
  | none => columns ++ [⟨bbox, [lineIndex]⟩]
  | some best => columns.modify best fun column =>
    ⟨expandBBox column.bbox bbox, column.lineIndices ++ [lineIndex]⟩

/-- Two neighbours with a gutter between them, side by side for a quarter of the shorter one. -/
def besideEachOther (medianHeight : α) (left right : LineColumn α) : Bool :=
  let gutter := right.bbox.x0 - left.bbox.x1
  let verticalOverlap := Double.max 0
    (Double.min left.bbox.y1 right.bbox.y1 - Double.max left.bbox.y0 right.bbox.y0)
  let shorterSpan := Double.max 1.0e-3
    (Double.min (left.bbox.y1 - left.bbox.y0) (right.bbox.y1 - right.bbox.y0))
  !decide (gutter ≤ medianHeight * 0.75) && !decide (verticalOverlap / shorterSpan < 0.25)

def areColumns (medianHeight : α) : List (LineColumn α) → Bool
  | [] => true
  | [column] => decide (2 ≤ column.lineIndices.length)
  | left :: right :: rest =>
    decide (2 ≤ left.lineIndices.length) && besideEachOther medianHeight left right &&
      areColumns medianHeight (right :: rest)

/-- From left to right by the centers of the lines, then from top to bottom. -/
def lineCenterLess (text : PageText α) (lhs rhs : Int) : Bool :=
  let left := lineBBox text lhs
  let right := lineBBox text rhs
  let leftCenter := (left.x0 + left.x1) * 0.5
  let rightCenter := (right.x0 + right.x1) * 0.5
  if leftCenter != rightCenter then decide (leftCenter < rightCenter)
  else if left.y0 != right.y0 then decide (left.y0 < right.y0)
  else decide (lhs < rhs)

/-- The columns of a block; there are none when it does not read in columns. -/
def detectLineColumns (text : PageText α) (block : LayoutBlock α) (medianHeight : α) :
    List (LineColumn α) :=
  let width (index : Int) := Double.max 0 ((lineBBox text index).x1 - (lineBBox text index).x0)
  let medianWidth := median (block.textLineIndices.map width)
  if !block.textLineIndices.all (inRange text) then []
  else if medianWidth ≤ 0 then []
  else if block.textLineIndices.any fun index =>
      decide (medianWidth * 1.35 + 1.0e-3 < width index) then []
  else
    let ordered := sortBy (lineCenterLess text) block.textLineIndices
    let columns := sortBy (fun lhs rhs => decide (lhs.bbox.x0 < rhs.bbox.x0))
      (ordered.foldl (addToColumns text) [])
    if columns.length < 2 ∨ 4 < columns.length then []
    else if areColumns medianHeight columns then columns
    else []

def supportsLineRefinement : LayoutBlockType → Bool
  | .unknown | .text | .list => true
  | _ => false

/-- The columns that a block is reordered by. -/
def lineColumns (text : PageText α) (block : LayoutBlock α) : List (LineColumn α) :=
  if !supportsLineRefinement block.type || block.sourceLabel == "text_grid_fallback" ||
      decide (block.textLineIndices.length < 4) then []
  else
    let valid := block.textLineIndices.all fun index =>
      inRange text index && validBBox (lineBBox text index)
    let heights := block.textLineIndices.map fun index =>
      Double.max 0 ((lineBBox text index).y1 - (lineBBox text index).y0)
    let medianHeight := median (if valid then heights else [])
    if medianHeight ≤ 0 then [] else detectLineColumns text block medianHeight

/-- A block in its new order, with the number of columns if that differs from the old one. -/
def refineBlock (text : PageText α) (block : LayoutBlock α) : LayoutBlock α × Option Nat :=
  let columns := lineColumns text block
  let refined := columns.flatMap fun column => sortBy (linePositionLess text) column.lineIndices
  if columns.isEmpty || refined == block.textLineIndices then (block, none)
  else ({ block with textLineIndices := refined }, some columns.length)

def refineMultiColumnTextLineOrder (text : PageText α) (blocks : List (LayoutBlock α)) :
    LayoutRefinementStats × List (LayoutBlock α) :=
  let refined := blocks.map (refineBlock text)
  let columns := refined.filterMap (·.2)
  (⟨columns.length, columns.foldl max 1⟩, refined.map (·.1))

end Columns

/-! ## A new order of the same lines -/

section Order

variable {α : Type} [Double α] {text : PageText α}

/-- All lines of some columns. -/
def columnLines (columns : List (LineColumn α)) : List Int := columns.flatMap (·.lineIndices)

theorem bestColumn_lt {columns : List (LineColumn α)} {bbox : BBox α} {i : Nat}
    (h : bestColumn columns bbox = some i) : i < columns.length := by
  refine foldl_zipIdx_lt (fun best p => ?_) columns _ h
  dsimp only
  split
  · exact Or.inr rfl
  · exact Or.inl rfl

theorem addToColumns_perm (columns : List (LineColumn α)) (lineIndex : Int) :
    (columnLines (addToColumns text columns lineIndex)).Perm
      (columnLines columns ++ [lineIndex]) := by
  unfold addToColumns
  dsimp only
  cases hbest : bestColumn columns (lineBBox text lineIndex) with
  | none => exact List.Perm.of_eq (by simp [columnLines])
  | some best => exact flatMap_modify_perm (fun _ => .refl _) columns (bestColumn_lt hbest)

variable (text) in
theorem foldl_addToColumns_perm (lines : List Int) : ∀ columns : List (LineColumn α),
    (columnLines (lines.foldl (addToColumns text) columns)).Perm (columnLines columns ++ lines) := by
  induction lines with
  | nil => intro columns; simp
  | cons index lines ih =>
    intro columns
    refine (ih _).trans (((addToColumns_perm columns index).append_right lines).trans ?_)
    rw [List.append_assoc]
    rfl

theorem detectLineColumns_perm {block : LayoutBlock α} {medianHeight : α}
    (h : detectLineColumns text block medianHeight ≠ []) :
    (columnLines (detectLineColumns text block medianHeight)).Perm block.textLineIndices := by
  unfold detectLineColumns at h ⊢
  dsimp only at h ⊢
  split_ifs at h ⊢ <;> first | exact absurd rfl h | skip
  have hcolumns := foldl_addToColumns_perm text
    (sortBy (lineCenterLess text) block.textLineIndices) []
  refine ((sortBy_perm _ _).flatMap_right _).trans (hcolumns.trans ?_)
  exact sortBy_perm _ _

/-- Columns that a block is reordered by are detected. -/
theorem lineColumns_eq_detect {block : LayoutBlock α} (h : lineColumns text block ≠ []) :
    ∃ medianHeight, lineColumns text block = detectLineColumns text block medianHeight := by
  unfold lineColumns at h ⊢
  dsimp only at h ⊢
  have hsupported := fun hc => h (if_pos hc)
  rw [if_neg hsupported] at h ⊢
  have hheight := fun hc => h (if_pos hc)
  rw [if_neg hheight]
  exact ⟨_, rfl⟩

theorem lineColumns_perm {block : LayoutBlock α} (h : lineColumns text block ≠ []) :
    (columnLines (lineColumns text block)).Perm block.textLineIndices := by
  obtain ⟨medianHeight, heq⟩ := lineColumns_eq_detect h
  rw [heq] at h ⊢
  exact detectLineColumns_perm h

variable (text) in
/-- **A refined block** has the same lines and is the same otherwise. -/
theorem refineBlock_perm (block : LayoutBlock α) :
    ∃ lines, (refineBlock text block).1 = { block with textLineIndices := lines } ∧
      lines.Perm block.textLineIndices := by
  unfold refineBlock
  dsimp only
  split
  · exact ⟨block.textLineIndices, rfl, .refl _⟩
  next h =>
    refine ⟨_, rfl, ?_⟩
    have hne : lineColumns text block ≠ [] := by
      intro hnil
      simp [hnil] at h
    refine List.Perm.trans ?_ (lineColumns_perm hne)
    exact List.Perm.flatMap_left _ fun column _ => sortBy_perm _ column.lineIndices

variable (text) in
theorem refined_blocks (blocks : List (LayoutBlock α)) :
    (refineMultiColumnTextLineOrder text blocks).2 =
      blocks.map fun block => (refineBlock text block).1 := by
  unfold refineMultiColumnTextLineOrder
  exact List.map_map

/-- **Refinement** keeps the lines of the page. -/
theorem refineMultiColumnTextLineOrder_perm (blocks : List (LayoutBlock α)) :
    (blockLines (refineMultiColumnTextLineOrder text blocks).2).Perm (blockLines blocks) := by
  rw [refined_blocks]
  induction blocks with
  | nil => exact .refl _
  | cons block blocks ih =>
    obtain ⟨lines, heq, hperm⟩ := refineBlock_perm text block
    rw [List.map_cons, heq]
    exact hperm.append ih

end Order

end DocParser.Layout
