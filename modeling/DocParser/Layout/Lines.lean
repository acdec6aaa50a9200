import Mathlib.Data.List.Perm.Basic
import DocParser.Common.Standard
import DocParser.Document.Model

/-!
# Text lines on a page

The geometry of boxes and lines that the post-processing of a layout shares, and the sort of line
indices by rows. A sort never changes which lines there are: `sortLineIndicesRowWise_perm`.
-/

namespace DocParser.Layout

open Document

section Geometry

variable {α : Type} [Double α]

def bboxArea (bbox : BBox α) : α :=
  Double.max 0 (bbox.x1 - bbox.x0) * Double.max 0 (bbox.y1 - bbox.y0)

def overlapOverLine (line block : BBox α) : α :=
  let width := Double.max 0 (Double.min line.x1 block.x1 - Double.max line.x0 block.x0)
  let height := Double.max 0 (Double.min line.y1 block.y1 - Double.max line.y0 block.y0)
  let area := bboxArea line
  if area ≤ 0 then 0 else width * height / area

def containsCenter (outer inner : BBox α) : Bool :=
  let centerX := (inner.x0 + inner.x1) * 0.5
  let centerY := (inner.y0 + inner.y1) * 0.5
  decide (outer.x0 ≤ centerX) && decide (centerX ≤ outer.x1) && decide (outer.y0 ≤ centerY) &&
    decide (centerY ≤ outer.y1)

def hasVisibleText (text : String) : Bool := text.toList.any fun c => !isSpace c

def validBBox (bbox : BBox α) : Bool :=
  Double.isFinite bbox.x0 && Double.isFinite bbox.y0 && Double.isFinite bbox.x1 &&
    Double.isFinite bbox.y1 && decide (bbox.x0 < bbox.x1) && decide (bbox.y0 < bbox.y1)

def isFurniture : LayoutBlockType → Bool
  | .header | .footer => true
  | _ => false

def overlapsFurniture (lineBBox : BBox α) (blocks : List (LayoutBlock α)) : Bool :=
  blocks.any fun block => isFurniture block.type &&
    (decide (0.10 ≤ overlapOverLine lineBBox block.bbox) || containsCenter block.bbox lineBBox)

def median (values : List α) : α :=
  let sorted := sortBy (fun a b => decide (a < b)) values
  let middle := values.length / 2
  if values.isEmpty then 0
  else
    let upper := sorted.getD middle 0
    if values.length % 2 ≠ 0 then upper else (sorted.getD (middle - 1) 0 + upper) * 0.5

def horizontalOverlap (lhs rhs : BBox α) : α :=
  Double.max 0 (Double.min lhs.x1 rhs.x1 - Double.max lhs.x0 rhs.x0)

def intervalGap (lhsBegin lhsEnd rhsBegin rhsEnd : α) : α :=
  if lhsEnd < rhsBegin then rhsBegin - lhsEnd
  else if rhsEnd < lhsBegin then lhsBegin - rhsEnd
  else 0

def expandBBox (destination source : BBox α) : BBox α where
  x0 := Double.min destination.x0 source.x0
  y0 := Double.min destination.y0 source.y0
  x1 := Double.max destination.x1 source.x1
  y1 := Double.max destination.y1 source.y1

/-- An index that a line of the text has. -/
def inRange (text : PageText α) (index : Int) : Bool :=
  decide (0 ≤ index) && decide (index.toNat < text.lines.length)

/-- All lines that some blocks list. -/
def blockLines (blocks : List (LayoutBlock α)) : List Int := blocks.flatMap (·.textLineIndices)

/-- The line at an index that is in range. -/
def lineAt (text : PageText α) (index : Int) : TextLine α := text.lines.getD index.toNat default

def lineBBox (text : PageText α) (index : Int) : BBox α := (lineAt text index).bbox

def medianTextLineHeight (text : PageText α) : α :=
  median ((text.lines.filter fun line =>
    decide (0 < line.bbox.y1 - line.bbox.y0) && hasVisibleText line.text).map
      fun line => line.bbox.y1 - line.bbox.y0)

end Geometry

/-! ## Sorting -/

section Sorting

variable {α : Type} [Double α] (text : PageText α)

def linePositionLess (lhs rhs : Int) : Bool :=
  let left := lineBBox text lhs
  let right := lineBBox text rhs
  if left.y0 != right.y0 then decide (left.y0 < right.y0)
  else if left.x0 != right.x0 then decide (left.x0 < right.x0)
  else decide (lhs < rhs)

def sortRow (row : List Int) : List Int :=
  sortBy (fun lhs rhs => decide ((lineBBox text lhs).x0 < (lineBBox text rhs).x0)) row

/-- The loop over the rows of sorted lines. `row` has begun at the height `rowY`. -/
def sortRows (rowTolerance : α) : List Int → α → List Int → List Int
  | row, _, [] => sortRow text row
  | row, rowY, index :: rest =>
    let candidateY := (lineBBox text index).y0
    if rowTolerance < candidateY - rowY then
      sortRow text row ++ sortRows rowTolerance [index] candidateY rest
    else sortRows rowTolerance (row ++ [index]) rowY rest

def sortLineIndicesRowWise (lineIndices : List Int) (medianLineHeight : α) : List Int :=
  let rowTolerance := Double.max 1 (medianLineHeight * 0.50)
  match sortBy (linePositionLess text) lineIndices with
  | [] => []
  | first :: rest => sortRows text rowTolerance [first] (lineBBox text first).y0 rest

variable {text}

theorem sortRows_perm (rowTolerance : α) (rest : List Int) :
    ∀ (row : List Int) (rowY : α), (sortRows text rowTolerance row rowY rest).Perm (row ++ rest) := by
  induction rest with
  | nil =>
    intro row rowY
    rw [List.append_nil]
    exact sortBy_perm _ row
  | cons index rest ih =>
    intro row rowY
    unfold sortRows
    dsimp only
    split
    · exact (sortBy_perm _ row).append (ih [index] _)
    · refine (ih (row ++ [index]) rowY).trans (List.Perm.of_eq ?_)
      rw [List.append_assoc]
      rfl

/-- **Sorting by rows** keeps the lines. -/
theorem sortLineIndicesRowWise_perm (lineIndices : List Int) (medianLineHeight : α) :
    (sortLineIndicesRowWise text lineIndices medianLineHeight).Perm lineIndices := by
  have hsort := sortBy_perm (linePositionLess text) lineIndices
  unfold sortLineIndicesRowWise
  dsimp only
  cases hsorted : sortBy (linePositionLess text) lineIndices with
  | nil => rwa [hsorted] at hsort
  | cons first rest =>
    rw [hsorted] at hsort
    exact (sortRows_perm _ rest [first] _).trans hsort

end Sorting

end DocParser.Layout
