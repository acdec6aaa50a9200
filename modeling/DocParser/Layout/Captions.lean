import DocParser.Common.Double
import DocParser.Document.Model

/-!
# Captions of a layout

`associateCaptions` links each block with the label of a caption to the nearest figure or table,
unless that is too far away. `std::hypot` is a parameter.
-/

namespace DocParser.Layout

open Document

variable {α : Type} [Double α]

def intervalDistance (lhsBegin lhsEnd rhsBegin rhsEnd : α) : α :=
  if lhsEnd < rhsBegin then rhsBegin - lhsEnd
  else if rhsEnd < lhsBegin then lhsBegin - rhsEnd
  else 0

def captionDistance (hypot : α → α → α) (caption target : BBox α) : α :=
  hypot (intervalDistance caption.x0 caption.x1 target.x0 target.x1)
    (intervalDistance caption.y0 caption.y1 target.y0 target.y1)

def isCaptionLabel (label : String) : Bool := label == "Caption" || label == "figure_title"

/-- The figure or table that is nearest to a caption, with its distance. -/
def nearestTarget (hypot : α → α → α) (blocks : List (LayoutBlock α)) (caption : LayoutBlock α) :
    Option (LayoutBlock α) × α :=
  blocks.foldl (fun best candidate =>
    if candidate.type != .figure && candidate.type != .table then best
    else
      let distance := captionDistance hypot caption.bbox candidate.bbox
      if distance < best.2 then (some candidate, distance) else best) (none, Double.largest)

/-- Only the link of a caption changes, which no distance depends on. -/
def associateCaptions (hypot : α → α → α) (page : PageArtifact) (blocks : List (LayoutBlock α)) :
    List (LayoutBlock α) :=
  let pageDiagonal :=
    hypot (Double.ofInt (max 1 page.width)) (Double.ofInt (max 1 page.height))
  let maximumDistance := pageDiagonal * 0.25
  blocks.map fun caption =>
    if !isCaptionLabel caption.sourceLabel then caption
    else
      match nearestTarget hypot blocks caption with
      | (some target, distance) =>
        if distance ≤ maximumDistance then { caption with relatedBlockId := target.id } else caption
      | (none, _) => caption

end DocParser.Layout
