import DocParser.Layout.Lines

/-!
# Furniture at the edges of a page

Text blocks at the very top or bottom of a page become headers and footers.
-/

namespace DocParser.Layout

open Document

structure EdgeFurnitureRefinementStats where
  headers : Nat
  footers : Nat
  deriving DecidableEq, Repr

section Definitions

variable {α : Type} [Double α]

def fallbackBlockType (bbox : BBox α) (page : PageArtifact) : LayoutBlockType :=
  if page.width ≤ 0 ∨ page.height ≤ 0 then .text
  else
    let centerY := (bbox.y0 + bbox.y1) * 0.5 / Double.ofInt page.height
    if centerY ≤ 0.05 then .header else if 0.95 ≤ centerY then .footer else .text

def supportsFurnitureRefinement : LayoutBlockType → Bool
  | .unknown | .text | .list => true
  | _ => false

def refineFurniture (page : PageArtifact) (block : LayoutBlock α) : LayoutBlock α :=
  if !supportsFurnitureRefinement block.type || !validBBox block.bbox then block
  else
    let refined := fallbackBlockType block.bbox page
    if isFurniture refined then
      { block with type := refined, confidence := Double.min block.confidence 0.50 }
    else block

/-- The number of blocks that have become furniture of a kind. -/
def refinedCount (type : LayoutBlockType) (blocks refined : List (LayoutBlock α)) : Nat :=
  ((blocks.zip refined).filter fun p => p.1.type != type && p.2.type == type).length

def refineEdgeFurniture (page : PageArtifact) (blocks : List (LayoutBlock α)) :
    EdgeFurnitureRefinementStats × List (LayoutBlock α) :=
  if page.width ≤ 0 ∨ page.height ≤ 0 then (⟨0, 0⟩, blocks)
  else
    let refined := blocks.map (refineFurniture page)
    (⟨refinedCount .header blocks refined, refinedCount .footer blocks refined⟩, refined)

/-- A refined block keeps its lines, its box and its id. -/
theorem refineFurniture_eq (page : PageArtifact) (block : LayoutBlock α) :
    ∃ type confidence,
      refineFurniture page block = { block with type := type, confidence := confidence } := by
  unfold refineFurniture
  dsimp only
  split_ifs
  · exact ⟨block.type, block.confidence, rfl⟩
  · exact ⟨_, _, rfl⟩
  · exact ⟨block.type, block.confidence, rfl⟩

/-- **Edge furniture** takes no line from a page. -/
theorem refineEdgeFurniture_lines (page : PageArtifact) (blocks : List (LayoutBlock α)) :
    (refineEdgeFurniture page blocks).2.map (fun block => (block.id, block.textLineIndices)) =
      blocks.map fun block => (block.id, block.textLineIndices) := by
  unfold refineEdgeFurniture
  split_ifs with h
  · rfl
  · rw [List.map_map]
    refine List.map_congr_left fun block _ => ?_
    obtain ⟨type, confidence, heq⟩ := refineFurniture_eq page block
    show ((refineFurniture page block).id, (refineFurniture page block).textLineIndices) = _
    rw [heq]

end Definitions

end DocParser.Layout
