import DocParser.Common.Double

/-!
# The document model

The records that the stages of the pipeline hand on to each other, over any numbers `α`. A text
is a list of bytes, kept as a string with one character for each of them, so that lengths are
sizes in bytes. Members that hold paths, pixels and debug images are left out: no modelled
function reads them.
-/

namespace DocParser.Document

structure BBox (α : Type) where
  x0 : α
  y0 : α
  x1 : α
  y1 : α
  deriving DecidableEq, Repr

inductive TextSource
  | unknown | pdfTextLayer | ocr | mixed
  deriving DecidableEq, Repr

structure TextSpan (α : Type) where
  text : String
  bbox : BBox α
  source : TextSource
  confidence : α
  deriving DecidableEq, Repr

structure TextLine (α : Type) where
  text : String
  bbox : BBox α
  source : TextSource
  confidence : α
  spans : List (TextSpan α)
  deriving DecidableEq, Repr

structure PageText (α : Type) where
  pageIndex : Int
  pageNumber : Int
  hasText : Bool
  preferredSource : TextSource
  lines : List (TextLine α)
  deriving DecidableEq, Repr

structure SourceReference (α : Type) where
  pageId : String
  bbox : BBox α
  text : String
  source : TextSource
  deriving DecidableEq, Repr

/-! ## Layout -/

inductive LayoutBlockType
  | unknown | title | text | list | table | figure | header | footer
  deriving DecidableEq, Repr

structure LayoutBlock (α : Type) where
  id : String
  type : LayoutBlockType
  sourceLabel : String
  relatedBlockId : String
  bbox : BBox α
  confidence : α
  readingOrderHint : Int
  textLineIndices : List Int
  deriving DecidableEq, Repr

structure PageLayout (α : Type) where
  pageIndex : Int
  pageNumber : Int
  blocks : List (LayoutBlock α)
  deriving DecidableEq, Repr

/-! ## Tables -/

structure TableCell (α : Type) where
  rowIndex : Int
  columnIndex : Int
  rowSpan : Int
  columnSpan : Int
  isHeader : Bool
  text : String
  bbox : BBox α
  confidence : α
  sourceRefs : List (SourceReference α)
  deriving DecidableEq, Repr

structure TableRow (α : Type) where
  rowIndex : Int
  bbox : BBox α
  confidence : α
  isHeader : Bool
  cells : List (TableCell α)
  deriving DecidableEq, Repr

structure TableColumn (α : Type) where
  columnIndex : Int
  bbox : BBox α
  confidence : α
  deriving DecidableEq, Repr

structure TableStructureObject (α : Type) where
  label : String
  bbox : BBox α
  confidence : α
  deriving DecidableEq, Repr

inductive TableTextMode
  | cells | sourceLines
  deriving DecidableEq, Repr

structure Table (α : Type) where
  id : String
  layoutBlockId : String
  pageIndex : Int
  pageNumber : Int
  bbox : BBox α
  confidence : α
  sourceLabel : String
  continuationGroupId : String
  continuesFromPreviousPage : Bool
  continuesOnNextPage : Bool
  columns : List (TableColumn α)
  rows : List (TableRow α)
  structureObjects : List (TableStructureObject α)
  textMode : TableTextMode
  deriving DecidableEq, Repr

structure PageTables (α : Type) where
  pageIndex : Int
  pageNumber : Int
  tables : List (Table α)
  deriving DecidableEq, Repr

/-! ## Reading order -/

structure ReadingOrderPlacement where
  layoutBlockId : String
  group : String
  bandIndex : Nat
  columnStart : Nat
  columnEnd : Nat
  parentLayoutBlockId : String
  deriving DecidableEq, Repr

structure ReadingOrderCycleBreak (α : Type) where
  fromLayoutBlockId : String
  toLayoutBlockId : String
  reason : String
  confidence : α
  deriving DecidableEq, Repr

structure ReadingOrderTrace (α : Type) where
  algorithm : String
  placements : List ReadingOrderPlacement
  edgeCounts : List (String × Nat)
  cycleBreaks : List (ReadingOrderCycleBreak α)
  deriving DecidableEq, Repr

structure ReadingOrderItem where
  layoutBlockId : String
  layoutBlockIndex : Int
  sequenceIndex : Int
  deriving DecidableEq, Repr

structure PageReadingOrder (α : Type) where
  pageIndex : Int
  pageNumber : Int
  items : List ReadingOrderItem
  trace : ReadingOrderTrace α
  deriving DecidableEq, Repr

/-! ## Documents -/

inductive DocumentBlockType
  | unknown | title | paragraph | list | table | figure | header | footer
  deriving DecidableEq, Repr

structure DocumentBlock (α : Type) where
  id : String
  type : DocumentBlockType
  sourceLabel : String
  relatedBlockId : String
  pageIndex : Int
  pageNumber : Int
  bbox : BBox α
  confidence : α
  text : String
  textLineIndices : List Int
  tableId : String
  tableContinuationGroupId : String
  tableContinuesFromPreviousPage : Bool
  tableContinuesOnNextPage : Bool
  tableRows : List (TableRow α)
  pageId : String
  sourceRefs : List (SourceReference α)
  deriving DecidableEq, Repr

inductive DocumentStatus
  | complete | partially
  deriving DecidableEq, Repr

structure DocumentSource where
  path : String
  type : String
  filename : String
  mediaType : String
  sizeBytes : Option Nat
  sha256 : String
  deriving DecidableEq, Repr

structure DocumentProducer where
  name : String
  version : String
  gitRevision : String
  runId : String
  deriving DecidableEq, Repr

structure DocumentPage (α : Type) where
  id : String
  number : Int
  width : α
  height : α
  imageId : String
  imageUri : String
  imageMediaType : String
  deriving DecidableEq, Repr

structure DocumentRelation where
  id : String
  type : String
  fromBlockId : String
  toBlockId : String
  deriving DecidableEq, Repr

structure DocumentWarning where
  code : String
  message : String
  stage : String
  pageId : String
  blockId : String
  details : List (String × String)
  occurrenceCount : Nat
  pageIds : List String
  deriving DecidableEq, Repr

structure ParsedDocument (α : Type) where
  source : DocumentSource
  dpi : Int
  blocks : List (DocumentBlock α)
  documentId : String
  status : DocumentStatus
  producer : DocumentProducer
  pages : List (DocumentPage α)
  relations : List DocumentRelation
  warnings : List DocumentWarning
  deriving DecidableEq, Repr

/-- A rendered page; the working size is that of its upright image. -/
structure PageArtifact where
  pageIndex : Int
  pageNumber : Int
  relativeImage : String
  width : Int
  height : Int
  deriving DecidableEq, Repr

structure PipelinePageArtifacts (α : Type) where
  pageIndex : Int
  pageNumber : Int
  image : PageArtifact
  text : PageText α
  layout : PageLayout α
  readingOrder : PageReadingOrder α
  tables : PageTables α
  deriving DecidableEq, Repr

/-! ## Default values -/

section Defaults

variable {α : Type} [Double α]

/-- A box as it is constructed by default. -/
instance : Inhabited (BBox α) := ⟨⟨0, 0, 0, 0⟩⟩

instance : Inhabited (TextLine α) := ⟨⟨"", default, .unknown, 1, []⟩⟩

instance : Inhabited (LayoutBlock α) := ⟨⟨"", .unknown, "", "", default, 1, -1, []⟩⟩

end Defaults

/-! ## Joined lines -/

section JoinedLines

variable {α : Type}

/-- The line at an index, if the index is in range. -/
def lineAt? (text : PageText α) (index : Int) : Option (TextLine α) :=
  if index < 0 then none else text.lines[index.toNat]?

/-- Adds a part on a line of its own. -/
def appendPart (text part : String) : String :=
  (if text.isEmpty then text else text ++ "\n") ++ part

/-- The texts of the lines that there are, each on a line of its own. -/
def joinLines (text : PageText α) (lineIndices : List Int) : String :=
  lineIndices.foldl (fun joined index =>
    match lineAt? text index with
    | none => joined
    | some line => appendPart joined line.text) ""

end JoinedLines

end DocParser.Document
