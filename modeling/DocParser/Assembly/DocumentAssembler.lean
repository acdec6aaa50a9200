import DocParser.Common.Standard
import DocParser.Document.Model

/-!
# The document assembler

`assemble` joins the results of the stages to a document: it follows the reading order of each
page as far as it is valid, drops the headers and footers that repeat on other pages, numbers the
blocks, and turns the links between layout blocks into relations.
-/

namespace DocParser.Assembly

open Document

section Strings

def toDocumentBlockType : LayoutBlockType → DocumentBlockType
  | .title => .title
  | .text => .paragraph
  | .list => .list
  | .table => .table
  | .figure => .figure
  | .header => .header
  | .footer => .footer
  | .unknown => .unknown

def blockId (pageNumber : Int) (blockIndex : Nat) : String :=
  "doc_page_" ++ toString pageNumber ++ "_block_" ++ toString (blockIndex + 1)

def pageId (pageNumber : Int) : String := "page_" ++ toString pageNumber

/-- The 64-bit FNV-1a hash of the path, in sixteen hexadecimal digits. -/
def sourceScopedDocumentId (sourcePath : String) : String :=
  let hash := sourcePath.toList.foldl
    (fun hash c => (hash ^^^ c.toNat) * 1099511628211 % 2 ^ 64) 14695981039346656037
  let digits := Nat.toDigits 16 hash
  "doc_" ++ String.ofList (List.replicate (16 - digits.length) '0' ++ digits)

def sourceMediaType (sourceType : String) : String :=
  if sourceType.toList.contains '/' then sourceType
  else if sourceType == "pdf" then "application/pdf"
  else if sourceType == "png" then "image/png"
  else if sourceType == "jpg" || sourceType == "jpeg" then "image/jpeg"
  else if sourceType == "tif" || sourceType == "tiff" then "image/tiff"
  else "application/octet-stream"

/-- `std::filesystem::path::filename`: what follows the last separator. -/
def pathFilename (path : String) : List Char :=
  (path.toList.reverse.takeWhile fun c => c != '/').reverse

/-- `std::filesystem::path::extension`: the file name from its last dot on, unless the name is a
dot entry or starts with that dot. -/
def pathExtension (path : String) : List Char :=
  let name := pathFilename path
  let suffix := name.reverse.takeWhile fun c => c != '.'
  if name == ['.', '.'] || name.length ≤ suffix.length + 1 then [] else '.' :: suffix.reverse

def imageMediaType (imageUri : String) : String :=
  let extension := String.ofList ((pathExtension imageUri).map toLower)
  if extension == ".png" then "image/png"
  else if extension == ".jpg" || extension == ".jpeg" then "image/jpeg"
  else if extension == ".tif" || extension == ".tiff" then "image/tiff"
  else "application/octet-stream"

/-- One character of a furniture text: a run of digits becomes one mark, a run of spaces one
space, and a text has no space in front. -/
def normalizeFurnitureChar (s : List Char × Bool × Bool) (c : Char) : List Char × Bool × Bool :=
  let (normalized, previousSpace, previousDigit) := s
  if isDigit c then
    (if previousDigit then normalized else normalized ++ ['#'], false, true)
  else if isSpace c then
    (if !previousSpace && !normalized.isEmpty then normalized ++ [' '] else normalized, true, false)
  else (normalized ++ [toLower c], false, false)

def normalizeFurnitureText (text : String) : String :=
  let normalized := (text.toList.foldl normalizeFurnitureChar ([], true, false)).1
  String.ofList (if normalized.getLast? == some ' ' then normalized.dropLast else normalized)

end Strings

section Blocks

variable {α : Type} [Double α]

/-- The loop over the lines of a block. `source` is what the earlier lines have in common. -/
def blockTextSourceLoop (text : PageText α) : TextSource → List Int → TextSource
  | source, [] => if source = .unknown then text.preferredSource else source
  | source, index :: rest =>
    match lineAt? text index with
    | none => blockTextSourceLoop text source rest
    | some line =>
      if line.source = .unknown then blockTextSourceLoop text source rest
      else if source ≠ .unknown ∧ source ≠ line.source then .mixed
      else blockTextSourceLoop text line.source rest

def blockTextSource (text : PageText α) (layoutBlock : LayoutBlock α) : TextSource :=
  blockTextSourceLoop text .unknown layoutBlock.textLineIndices

def joinLayoutBlockText (text : PageText α) (layoutBlock : LayoutBlock α) : String :=
  joinLines text layoutBlock.textLineIndices

def findTableForLayoutBlock (tables : PageTables α) (layoutBlockId : String) :
    Option (Table α) :=
  tables.tables.find? fun table => table.layoutBlockId == layoutBlockId

def tableText (table : Table α) : String :=
  table.rows.foldl (fun text row =>
    appendPart text ("\t".intercalate (row.cells.map (·.text)))) ""

/-- A cell of a document block refers to its own place. -/
def addCellReference (pageId : String) (source : TextSource) (cell : TableCell α) : TableCell α :=
  { cell with sourceRefs := cell.sourceRefs ++ [⟨pageId, cell.bbox, cell.text, source⟩] }

/-- What the table of a block adds to it. -/
def addTable (block : DocumentBlock α) (table : Table α) (source : TextSource) :
    DocumentBlock α :=
  { block with
    tableId := table.id
    tableContinuationGroupId := table.continuationGroupId
    tableContinuesFromPreviousPage := table.continuesFromPreviousPage
    tableContinuesOnNextPage := table.continuesOnNextPage
    tableRows := table.rows.map fun row =>
      { row with cells := row.cells.map (addCellReference block.pageId source) }
    text := if table.textMode = .cells then tableText table else block.text
    confidence := Double.min block.confidence table.confidence }

/-- The ids of the document blocks by layout block id. The last assignment to an id counts. -/
abbrev RelatedBlockIds := List (String × String)

def RelatedBlockIds.find (ids : RelatedBlockIds) (layoutBlockId : String) : Option String :=
  ids.reverse.lookup layoutBlockId

def makeDocumentBlock (page : PipelinePageArtifacts α) (layoutBlock : LayoutBlock α)
    (documentBlockId : String) (relatedBlockIds : RelatedBlockIds) : DocumentBlock α :=
  let relatedBlockId :=
    match relatedBlockIds.find layoutBlock.relatedBlockId with
    | none => ""
    | some related => if related != documentBlockId then related else ""
  let text := joinLayoutBlockText page.text layoutBlock
  let source := blockTextSource page.text layoutBlock
  let block : DocumentBlock α := {
    id := documentBlockId
    type := toDocumentBlockType layoutBlock.type
    sourceLabel := layoutBlock.sourceLabel
    relatedBlockId := relatedBlockId
    pageIndex := page.pageIndex
    pageNumber := page.pageNumber
    bbox := layoutBlock.bbox
    confidence := layoutBlock.confidence
    text := text
    textLineIndices := layoutBlock.textLineIndices
    tableId := ""
    tableContinuationGroupId := ""
    tableContinuesFromPreviousPage := false
    tableContinuesOnNextPage := false
    tableRows := []
    pageId := pageId page.pageNumber
    sourceRefs := [⟨pageId page.pageNumber, layoutBlock.bbox, text, source⟩] }
  if block.type = .table then
    match findTableForLayoutBlock page.tables layoutBlock.id with
    | none => block
    | some table => addTable block table source
  else block

/-! ## The order of a page -/

/-- The layout block that an item of the reading order names, if its index and its id agree. -/
def itemIndex (layout : PageLayout α) (item : ReadingOrderItem) : Option Nat :=
  if item.layoutBlockIndex < 0 then none
  else
    match layout.blocks[item.layoutBlockIndex.toNat]? with
    | none => none
    | some block =>
      if item.layoutBlockId.isEmpty || block.id == item.layoutBlockId then
        some item.layoutBlockIndex.toNat
      else none

/-- Adds an index that was not seen before. -/
def insertIndex (indices : List Nat) (index : Nat) : List Nat :=
  if indices.contains index then indices else indices ++ [index]

def orderedLayoutBlockIndices (page : PipelinePageArtifacts α) : List Nat :=
  (List.range page.layout.blocks.length).foldl insertIndex
    ((page.readingOrder.items.filterMap (itemIndex page.layout)).foldl insertIndex [])

def layoutBlockAt (page : PipelinePageArtifacts α) (index : Nat) : LayoutBlock α :=
  page.layout.blocks.getD index default

/-! ## Furniture -/

def furnitureSignature (page : PipelinePageArtifacts α) (layoutBlock : LayoutBlock α) : String :=
  let text := normalizeFurnitureText (joinLayoutBlockText page.text layoutBlock)
  match layoutBlock.type with
  | .header => if text.isEmpty then "" else "6:" ++ text
  | .footer => if text.isEmpty then "" else "7:" ++ text
  | _ => ""

/-- The signatures of all furniture, with the page each of them is on. -/
def furnitureSignatures (pages : List (PipelinePageArtifacts α)) : List (String × Int) :=
  pages.flatMap fun page =>
    (page.layout.blocks.filter fun block => !(furnitureSignature page block).isEmpty).map
      fun block => (furnitureSignature page block, page.pageIndex)

/-- The signatures that occur on two pages. -/
def repeatedFurniture (pages : List (PipelinePageArtifacts α)) : List String :=
  let signatures := furnitureSignatures pages
  (signatures.map (·.1)).filter fun signature =>
    decide (2 ≤ ((signatures.filter fun p => p.1 == signature).map (·.2)).dedup.length)

/-! ## The document -/

/-- The layout blocks of a page that are kept, in order. -/
def includedIndices (repeated : List String) (page : PipelinePageArtifacts α) : List Nat :=
  (orderedLayoutBlockIndices page).filter fun index =>
    let signature := furnitureSignature page (layoutBlockAt page index)
    signature.isEmpty || !repeated.contains signature

/-- The blocks of a page, after `count` blocks of earlier pages. -/
def assemblePage (repeated : List String) (count : Nat) (page : PipelinePageArtifacts α) :
    List (DocumentBlock α) :=
  let included := includedIndices repeated page
  let relatedBlockIds : RelatedBlockIds := (included.zipIdx count).map fun p =>
    ((layoutBlockAt page p.1).id, blockId page.pageNumber p.2)
  included.map fun index =>
    let layoutBlock := layoutBlockAt page index
    makeDocumentBlock page layoutBlock ((relatedBlockIds.find layoutBlock.id).getD "")
      relatedBlockIds

def assembleBlocks (repeated : List String) :
    Nat → List (PipelinePageArtifacts α) → List (DocumentBlock α)
  | _, [] => []
  | count, page :: rest =>
    let blocks := assemblePage repeated count page
    blocks ++ assembleBlocks repeated (count + blocks.length) rest

def isRelated (block : DocumentBlock α) : Bool :=
  !(block.relatedBlockId.isEmpty || block.relatedBlockId == block.id)

def makeRelation (block : DocumentBlock α) (index : Nat) : DocumentRelation where
  id := "relation_" ++ toString (index + 1)
  type :=
    if block.sourceLabel == "Caption" || block.sourceLabel == "caption" then "caption_of"
    else "related_to"
  fromBlockId := block.id
  toBlockId := block.relatedBlockId

def assembleRelations (blocks : List (DocumentBlock α)) : List DocumentRelation :=
  (blocks.filter isRelated).zipIdx.map fun p => makeRelation p.1 p.2

structure DocumentAssembleRequest (α : Type) where
  sourcePath : String
  sourceType : String
  dpi : Int
  pages : List PageArtifact
  pageTexts : List (PageText α)
  pageLayouts : List (PageLayout α)
  pageReadingOrders : List (PageReadingOrder α)
  pageTables : List (PageTables α)
  sourceSizeBytes : Option Nat
  sourceSha256 : String
  deriving DecidableEq, Repr

def hasMatchingPageCounts (request : DocumentAssembleRequest α) : Bool :=
  request.pages.length == request.pageTexts.length &&
    request.pages.length == request.pageLayouts.length &&
    request.pages.length == request.pageReadingOrders.length &&
    request.pages.length == request.pageTables.length

def makeDocumentPage (page : PageArtifact) : DocumentPage α where
  id := pageId page.pageNumber
  number := page.pageNumber
  width := Double.ofInt page.width
  height := Double.ofInt page.height
  imageId := pageId page.pageNumber ++ "_image"
  imageUri := page.relativeImage
  imageMediaType := imageMediaType page.relativeImage

def makeArtifacts (request : DocumentAssembleRequest α) : List (PipelinePageArtifacts α) :=
  (request.pages.zip (request.pageTexts.zip (request.pageLayouts.zip
    (request.pageReadingOrders.zip request.pageTables)))).map
    fun (page, text, layout, readingOrder, tables) =>
      ⟨page.pageIndex, page.pageNumber, page, text, layout, readingOrder, tables⟩

/-- `DocumentAssembler::assemble`. The version of the engine is set by the build. -/
def assemble (engineVersion : String) (request : DocumentAssembleRequest α) :
    Option (ParsedDocument α × List (PipelinePageArtifacts α)) :=
  if !hasMatchingPageCounts request then none
  else
    let pages := makeArtifacts request
    let blocks := assembleBlocks (repeatedFurniture pages) 0 pages
    some ({
        source := ⟨request.sourcePath, request.sourceType,
          String.ofList (pathFilename request.sourcePath), sourceMediaType request.sourceType,
          request.sourceSizeBytes, request.sourceSha256⟩
        dpi := request.dpi
        blocks := blocks
        documentId := sourceScopedDocumentId request.sourcePath
        status := .complete
        producer := ⟨"technical-doc-parser", engineVersion, "", ""⟩
        pages := request.pages.map makeDocumentPage
        relations := assembleRelations blocks
        warnings := [] },
      pages)

end Blocks

end DocParser.Assembly
