import DocParser.Layout.FallbackGroups

/-!
# What a fallback group is

Whether a recovered group is body text, a header or a footer, and which block it continues, by
its place on the page and by what its text looks like.
-/

namespace DocParser.Layout

open Document

/-! ## Text patterns -/

section Patterns

def containsText (text pattern : List Char) : Bool := text.tails.any fun t => pattern.isPrefixOf t

/-- A page number in digits or roman numerals, with at most punctuation around it. -/
def isCompactPageMarker (text : List Char) : Bool :=
  let visible := text.filter fun c => !isSpace c
  let digits := visible.countP isDigit
  let letters := visible.countP fun c => !isDigit c && isAlpha c
  let romanLetters := visible.countP fun c =>
    !isDigit c && isAlpha c && ['i', 'v', 'x', 'l', 'c', 'd', 'm'].contains (toLower c)
  let known (c : Char) := isDigit c || isAlpha c || ['-', '/', '|', '(', ')', '.', ':'].contains c
  visible.all known && !visible.isEmpty && decide (visible.length ≤ 16) &&
    ((decide (0 < digits) && decide (letters ≤ 4)) ||
      (decide (digits = 0) && decide (1 ≤ letters) && decide (letters = romanLetters)))

def furniturePatterns : List String :=
  ["copyright", "all rights reserved", "doi:", "http://", "https://", "www.", "issn",
    "journal of", "downloaded", "document downloaded"]

def hasStrongFurniturePattern (text : String) : Bool :=
  let lower := text.toList.map toLower
  (furniturePatterns.any fun pattern => containsText lower pattern.toList) ||
    isCompactPageMarker lower

def startsWithAny (value : List Char) (prefixes : List String) : Bool :=
  match value.dropWhile fun c => isTrimmed c || c == '-' with
  | [] => false
  | visible => prefixes.any fun p => p.toList.isPrefixOf visible

def bodyCaptionPrefixes : List String :=
  ["fig.", "figure ", "table ", "above:", "below:", "left:", "right:", "photo:", "source:"]

def hasBodyCaptionPrefix (text : String) : Bool :=
  startsWithAny (text.toList.map toLower) bodyCaptionPrefixes

def visibleCharacterCount (text : String) : Nat := text.toList.countP fun c => !isSpace c

def hasLeadingListMarker (text : String) : Bool :=
  match text.toList.dropWhile isTrimmed with
  | [] => false
  | first :: rest =>
    if ['-', '*', '+'].contains first then true
    else
      let behind := ((first :: rest).dropWhile isDigit).dropWhile isSpace
      match behind with
      | [] => false
      | c :: _ => decide (behind.length < (first :: rest).length) &&
        ['.', ')', ':', '-'].contains c

end Patterns

/-! ## Groups -/

section Groups

variable {α : Type} [Double α]

def fallbackGroupText (text : PageText α) (group : FallbackLineGroup α) : String :=
  joinLines text group.lineIndices

def hasBodyParagraphShape (group : FallbackLineGroup α) (text : String) : Bool :=
  decide (4 ≤ group.lineIndices.length) && decide (100 ≤ visibleCharacterCount text)

def supportsRecoveryAttachment : LayoutBlockType → Bool
  | .unknown | .title | .text | .list => true
  | _ => false

/-- How much of the narrower box overlaps the other one. -/
def narrowOverlapRatio (lhs rhs : BBox α) : α :=
  horizontalOverlap lhs rhs /
    Double.max 1.0e-3 (Double.min (lhs.x1 - lhs.x0) (rhs.x1 - rhs.x0))

def verticalGap (lhs rhs : BBox α) : α := intervalGap lhs.y0 lhs.y1 rhs.y0 rhs.y1

def nearNonTextRegion (group : FallbackLineGroup α) (blocks : List (LayoutBlock α))
    (medianLineHeight : α) : Bool :=
  blocks.any fun block => (block.type == .figure || block.type == .table) &&
    decide (0.25 ≤ narrowOverlapRatio group.bbox block.bbox) &&
    decide (verticalGap group.bbox block.bbox ≤ medianLineHeight * 2.0)

/-- The score of a block that a group may continue. -/
def attachmentScore (group : FallbackLineGroup α) (listItem : Bool) (medianLineHeight : α)
    (block : LayoutBlock α) : Option α :=
  if !supportsRecoveryAttachment block.type || block.textLineIndices.isEmpty ||
      !validBBox block.bbox then none
  else if listItem && block.type == .title then none
  else if narrowOverlapRatio group.bbox block.bbox < 0.60 then none
  else
    let gap := verticalGap group.bbox block.bbox
    if medianLineHeight * 1.25 < gap then none
    else some (gap + Double.abs (group.bbox.x0 - block.bbox.x0) * 0.05)

/-- The block with the least score. -/
def bestTarget (group : FallbackLineGroup α) (listItem : Bool) (medianLineHeight : α)
    (blocks : List (LayoutBlock α)) : Option Nat :=
  (blocks.zipIdx.foldl (fun (best : Option Nat × α) p =>
    match attachmentScore group listItem medianLineHeight p.1 with
    | none => best
    | some score => if score < best.2 then (some p.2, score) else best)
    (none, Double.largest)).1

def attachmentTarget (text : PageText α) (group : FallbackLineGroup α)
    (blocks : List (LayoutBlock α)) (page : PageArtifact) (medianLineHeight : α) : Option Nat :=
  if !group.sourceLabel.isEmpty ∨ medianLineHeight ≤ 0 ∨ 2 < group.lineIndices.length ∨
      medianLineHeight * 2.25 < group.bbox.y1 - group.bbox.y0 then none
  else
    let groupText := fallbackGroupText text group
    if isCompactPageMarker groupText.toList || hasBodyCaptionPrefix groupText ||
        decide (visibleCharacterCount groupText < 4) ||
        nearNonTextRegion group blocks medianLineHeight then none
    else
      let pageWidth : α := Double.ofInt (max 1 page.width)
      if group.bbox.x1 - group.bbox.x0 <
          Double.max (medianLineHeight * 5.0) (pageWidth * 0.06) then none
      else bestTarget group (hasLeadingListMarker groupText) medianLineHeight blocks

theorem bestTarget_lt {group : FallbackLineGroup α} {listItem : Bool} {medianLineHeight : α}
    {blocks : List (LayoutBlock α)} {i : Nat}
    (h : bestTarget group listItem medianLineHeight blocks = some i) : i < blocks.length := by
  refine foldl_zipIdx_lt (fun best p => ?_) blocks _ h
  split
  · exact Or.inl rfl
  · split
    · exact Or.inr rfl
    · exact Or.inl rfl

theorem attachmentTarget_lt {text : PageText α} {group : FallbackLineGroup α}
    {blocks : List (LayoutBlock α)} {page : PageArtifact} {medianLineHeight : α} {i : Nat}
    (h : attachmentTarget text group blocks page medianLineHeight = some i) :
    i < blocks.length := by
  unfold attachmentTarget at h
  dsimp only at h
  split_ifs at h
  exact bestTarget_lt h

/-- A short line in capitals over a line of text. -/
def hasShortUppercaseKicker (text : PageText α) (group : FallbackLineGroup α) : Bool :=
  match group.lineIndices with
  | first :: second :: rest =>
    if 1 < rest.length then false
    else
      match lineAt? text first, lineAt? text second with
      | some kicker, some line =>
        let visible := kicker.text.toList.filter fun c => !isSpace c
        decide (visible.length ≤ 32) && decide (3 ≤ visible.countP Char.isUpper) &&
          decide (visible.countP Char.isLower = 0) &&
          decide (3 ≤ line.text.toList.countP Char.isLower)
      | _, _ => false
  | _ => false

def supportsBodyContinuity : LayoutBlockType → Bool
  | .header | .footer | .figure => false
  | _ => true

def continuesModelBackedBody (group : FallbackLineGroup α) (blocks : List (LayoutBlock α))
    (medianLineHeight : α) : Bool :=
  let groupWidth := group.bbox.x1 - group.bbox.x0
  if medianLineHeight ≤ 0 ∨ groupWidth ≤ 0 then false
  else
    blocks.any fun block =>
      supportsBodyContinuity block.type && !block.textLineIndices.isEmpty &&
        validBBox block.bbox &&
        !decide (1.25 < groupWidth / Double.max 1.0e-3 (block.bbox.x1 - block.bbox.x0)) &&
        !decide (narrowOverlapRatio group.bbox block.bbox < 0.50) &&
        decide (verticalGap group.bbox block.bbox ≤ medianLineHeight)

def isLargeTopHeading (text : PageText α) (group : FallbackLineGroup α) (medianLineHeight : α) :
    Bool :=
  if medianLineHeight ≤ 0 ∨ group.lineIndices.isEmpty ∨ 2 < group.lineIndices.length ∨
      ¬ group.lineIndices.all (inRange text) then false
  else
    let heights := group.lineIndices.map fun index =>
      (lineBBox text index).y1 - (lineBBox text index).y0
    decide (8 ≤ visibleCharacterCount (fallbackGroupText text group)) &&
      decide (medianLineHeight * 1.75 ≤ median heights)

def recoveredGroupType (text : PageText α) (page : PageArtifact) (blocks : List (LayoutBlock α))
    (group : FallbackLineGroup α) (medianLineHeight : α) : LayoutBlockType :=
  if page.height ≤ 0 then .text
  else
    let centerY := (group.bbox.y0 + group.bbox.y1) * 0.5 / Double.ofInt page.height
    let headerCandidate := decide (centerY ≤ 0.15)
    let footerCandidate := decide (0.88 ≤ centerY)
    if !headerCandidate && !footerCandidate then .text
    else
      let strictPageEdge := decide (centerY ≤ 0.05) || decide (0.95 ≤ centerY)
      let textValue := fallbackGroupText text group
      let strongFurniture := hasStrongFurniturePattern textValue
      let bodyContinuation := continuesModelBackedBody group blocks medianLineHeight
      if hasBodyCaptionPrefix textValue then .text
      else if !strongFurniture && hasBodyParagraphShape group textValue then .text
      else if !strongFurniture && bodyContinuation then .text
      else if headerCandidate && !strictPageEdge && !strongFurniture &&
          (isLargeTopHeading text group medianLineHeight || hasShortUppercaseKicker text group) then
        .text
      else if headerCandidate then .header
      else .footer

end Groups

end DocParser.Layout
