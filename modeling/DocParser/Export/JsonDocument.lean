import DocParser.Export.CoreModel
import DocParser.Lib.Json

/-!
# The JSON exporter

The manifest of a document, as the exporter builds it for a request without debug data, and
`serialize`, which validates the document first. The text of a JSON value is left to a parameter,
since it may fail on bytes that are no UTF-8.
-/

namespace DocParser.Export

open Document

section Strings

def textSourceToString : TextSource → String
  | .pdfTextLayer => "pdf_text_layer"
  | .ocr => "ocr"
  | .mixed => "mixed"
  | .unknown => "unknown"

def documentBlockTypeToString : DocumentBlockType → String
  | .title => "title"
  | .paragraph => "paragraph"
  | .list => "list"
  | .table => "table"
  | .figure => "figure"
  | .header => "header"
  | .footer => "footer"
  | .unknown => "unknown"

def documentStatusToString : DocumentStatus → String
  | .partially => "partial"
  | .complete => "complete"

def isSeparator (c : Char) : Bool := c == '/' || c == '\\'

/-- What follows the last separator. -/
def basename (path : String) : String :=
  String.ofList (path.toList.reverse.takeWhile fun c => !isSeparator c).reverse

def mediaTypeFromSourceType (sourceType : String) : String :=
  if sourceType.toList.contains '/' then sourceType
  else if sourceType == "pdf" then "application/pdf"
  else if sourceType == "png" then "image/png"
  else if sourceType == "jpg" || sourceType == "jpeg" then "image/jpeg"
  else if sourceType == "tif" || sourceType == "tiff" then "image/tiff"
  else "application/octet-stream"

def isAbsoluteLocalPath (path : String) : Bool :=
  match path.toList with
  | [] => false
  | first :: rest =>
    isSeparator first ||
      match rest with
      | ':' :: third :: _ => first.isAlpha && isSeparator third
      | _ => false

end Strings

section Values

variable {α : Type} [Double α]

def hasPositiveArea (bbox : BBox α) : Bool :=
  Double.isFinite bbox.x0 && Double.isFinite bbox.y0 && Double.isFinite bbox.x1 &&
    Double.isFinite bbox.y1 && decide (0 ≤ bbox.x0) && decide (0 ≤ bbox.y0) &&
    decide (bbox.x0 < bbox.x1) && decide (bbox.y0 < bbox.y1)

def isScore (value : α) : Bool := Double.isFinite value && decide (0 ≤ value) && decide (value ≤ 1)

def bboxToJson (bbox : BBox α) : Json α :=
  .array [.number bbox.x0, .number bbox.y0, .number bbox.x1, .number bbox.y1]

def scoreToJson (value : α) (kind : String) : Json α :=
  .object [("value", .number value), ("kind", .string kind)]

def documentId (document : ParsedDocument α) : String :=
  if !document.documentId.isEmpty then document.documentId
  else
    let filename := basename document.source.path
    if filename.isEmpty then "document" else "document:" ++ filename

/-- The pages by number and by id. For a key that occurs twice the first page counts. -/
structure PageLookup (α : Type) where
  idsByNumber : List (Int × String)
  ids : List String
  dimensionsById : List (String × α × α)

def pageLookup (pages : List (DocumentPage α)) : PageLookup α where
  idsByNumber := pages.map fun page => (page.number, page.id)
  ids := pages.map (·.id)
  dimensionsById := pages.map fun page => (page.id, page.width, page.height)

def bboxFitsPage (bbox : BBox α) (pageId : String) (pages : PageLookup α) : Bool :=
  match pages.dimensionsById.lookup pageId with
  | none => false
  | some (width, height) =>
    hasPositiveArea bbox && decide (bbox.x1 ≤ width) && decide (bbox.y1 ≤ height)

def resolvedPageId (pageId : String) (pageNumber : Int) (pages : PageLookup α) : String :=
  if !pageId.isEmpty && pages.ids.contains pageId then pageId
  else (pages.idsByNumber.lookup pageNumber).getD ""

/-! ## The parts of the manifest -/

def sourceRefToJson (pages : PageLookup α) (sourceRef : SourceReference α) : Json α :=
  ((Json.object [("page_id", .string sourceRef.pageId),
      ("kind", .string (textSourceToString sourceRef.source))]).setIf
    (bboxFitsPage sourceRef.bbox sourceRef.pageId pages) "bbox" (bboxToJson sourceRef.bbox)).setIf
    (!sourceRef.text.isEmpty) "text" (.string sourceRef.text)

def sourceRefsToJson (sourceRefs : List (SourceReference α)) (pages : PageLookup α) :
    List (Json α) :=
  (sourceRefs.filter fun sourceRef => pages.ids.contains sourceRef.pageId).map
    (sourceRefToJson pages)

def tableCellToJson (pageId : String) (pages : PageLookup α) (cell : TableCell α) : Json α :=
  let sourceRefs := sourceRefsToJson cell.sourceRefs pages
  (((Json.object [("row_index", .int cell.rowIndex), ("column_index", .int cell.columnIndex),
      ("row_span", .int cell.rowSpan), ("column_span", .int cell.columnSpan),
      ("is_header", .bool cell.isHeader), ("text", .string cell.text)]).setIf
    (bboxFitsPage cell.bbox pageId pages) "bbox" (bboxToJson cell.bbox)).setIf
    (isScore cell.confidence) "score" (scoreToJson cell.confidence "model_score")).setIf
    (!sourceRefs.isEmpty) "source_refs" (.array sourceRefs)

def tableRowToJson (pageId : String) (pages : PageLookup α) (row : TableRow α) : Json α :=
  (Json.object [("row_index", .int row.rowIndex), ("is_header", .bool row.isHeader),
      ("cells", .array (row.cells.map (tableCellToJson pageId pages)))]).setIf
    (bboxFitsPage row.bbox pageId pages) "bbox" (bboxToJson row.bbox)

def tableRowsToJson (tableRows : List (TableRow α)) (pageId : String) (pages : PageLookup α) :
    Json α :=
  .array (tableRows.map (tableRowToJson pageId pages))

def tableToJson (block : DocumentBlock α) (pageId : String) (pages : PageLookup α) : Json α :=
  ((Json.object [("rows", tableRowsToJson block.tableRows pageId pages),
      ("continues_from_previous_page", .bool block.tableContinuesFromPreviousPage),
      ("continues_on_next_page", .bool block.tableContinuesOnNextPage)]).setIf
    (!block.tableId.isEmpty) "id" (.string block.tableId)).setIf
    (!block.tableContinuationGroupId.isEmpty) "continuation_group_id"
    (.string block.tableContinuationGroupId)

def documentBlockToJson (pages : PageLookup α) (block : DocumentBlock α) : Json α :=
  let pageId := resolvedPageId block.pageId block.pageNumber pages
  let sourceRefs := sourceRefsToJson block.sourceRefs pages
  ((((((Json.object [("id", .string block.id),
      ("type", .string (documentBlockTypeToString block.type)), ("text", .string block.text)]).setIf
    (!pageId.isEmpty) "page_id" (.string pageId)).setIf
    (!pageId.isEmpty && bboxFitsPage block.bbox pageId pages) "bbox" (bboxToJson block.bbox)).setIf
    (isScore block.confidence) "score" (scoreToJson block.confidence "model_score")).setIf
    (!sourceRefs.isEmpty) "source_refs" (.array sourceRefs)).setIf
    (!block.sourceLabel.isEmpty) "metadata"
    (.object [("source_label", .string block.sourceLabel)])).setIf
    (!block.tableId.isEmpty || !block.tableRows.isEmpty) "table" (tableToJson block pageId pages)

def documentBlocksToJson (documentBlocks : List (DocumentBlock α)) (pages : PageLookup α) :
    Json α :=
  .array (documentBlocks.map (documentBlockToJson pages))

def imageToJson (page : DocumentPage α) : Json α :=
  let mediaType :=
    if page.imageMediaType.toList.contains '/' then page.imageMediaType
    else "application/octet-stream"
  .object [("id", .string (if page.imageId.isEmpty then page.id ++ "_image" else page.imageId)),
    ("uri", .string page.imageUri), ("media_type", .string mediaType)]

def pageToJson (page : DocumentPage α) : Json α :=
  (Json.object [("id", .string page.id), ("number", .int page.number),
      ("width", .number page.width), ("height", .number page.height)]).setIf
    (!page.imageUri.isEmpty && !isAbsoluteLocalPath page.imageUri) "image" (imageToJson page)

def pagesToJson (pages : List (DocumentPage α)) : Json α := .array (pages.map pageToJson)

def relationToJson (relation : DocumentRelation) : Json α :=
  (Json.object [("type", .string relation.type), ("from_block_id", .string relation.fromBlockId),
      ("to_block_id", .string relation.toBlockId)]).setIf
    (!relation.id.isEmpty) "id" (.string relation.id)

def relationsToJson (relations : List DocumentRelation) : Json α :=
  .array (relations.map relationToJson)

def warningToJson (warning : DocumentWarning) : Json α :=
  ((((((Json.object [("code", .string warning.code), ("message", .string warning.message)]).setIf
    (!warning.stage.isEmpty) "stage" (.string warning.stage)).setIf
    (!warning.pageId.isEmpty) "page_id" (.string warning.pageId)).setIf
    (!warning.blockId.isEmpty) "block_id" (.string warning.blockId)).setIf
    (decide (1 < warning.occurrenceCount)) "occurrence_count"
    (.int warning.occurrenceCount)).setIf
    (!warning.pageIds.isEmpty) "page_ids" (.array (warning.pageIds.map .string))).setIf
    (!warning.details.isEmpty) "details"
    (.object (warning.details.map fun p => (p.1, .string p.2)))

def warningsToJson (warnings : List DocumentWarning) : Json α :=
  .array (warnings.map warningToJson)

def sourceToJson (source : DocumentSource) : Json α :=
  let filename := basename (if source.filename.isEmpty then source.path else source.filename)
  let mediaType :=
    if source.mediaType.toList.contains '/' then source.mediaType
    else mediaTypeFromSourceType source.type
  (((Json.object [("media_type", .string mediaType)]).setIf
    (!filename.isEmpty) "filename" (.string filename)).setIf
    source.sizeBytes.isSome "size_bytes" (.int (source.sizeBytes.getD 0))).setIf
    (!source.sha256.isEmpty) "sha256" (.string source.sha256)

def producerToJson (producer : DocumentProducer) : Json α :=
  ((Json.object [
      ("name", .string (if producer.name.isEmpty then "technical-doc-parser" else producer.name)),
      ("version", .string (if producer.version.isEmpty then "unknown" else producer.version))]).setIf
    (decide (7 ≤ producer.gitRevision.length)) "git_revision" (.string producer.gitRevision)).setIf
    (!producer.runId.isEmpty) "run_id" (.string producer.runId)

def coordinateSpaceToJson (dpi : Int) : Json α :=
  (Json.object [("unit", .string "pixel"), ("origin", .string "top_left"),
      ("bbox_format", .string "xyxy")]).setIf (decide (0 < dpi)) "dpi" (.int dpi)

def kDocumentSchema : String :=
  "https://github.com/ChNanAn/technical-doc-parser/schemas/document.v1.schema.json"

/-- The whole document as one JSON value. -/
def manifestToJson (document : ParsedDocument α) : Json α :=
  (Json.object [("$schema", .string kDocumentSchema), ("schema_version", .int 1),
      ("document_id", .string (documentId document)),
      ("status", .string (documentStatusToString document.status)),
      ("source", sourceToJson document.source), ("producer", producerToJson document.producer),
      ("coordinate_space", coordinateSpaceToJson document.dpi),
      ("pages", pagesToJson document.pages),
      ("blocks", documentBlocksToJson document.blocks (pageLookup document.pages)),
      ("warnings", warningsToJson document.warnings)]).setIf
    (!document.relations.isEmpty) "relations" (relationsToJson document.relations)

/-- `JsonDocumentExporter::serialize` without debug data. `dump` writes a value as text or fails
with a message. -/
def serialize (dump : Json α → Except String String) (document : Option (ParsedDocument α)) :
    Except Status String :=
  match document with
  | none => .error ⟨"export.json.document_missing", "document export request has no document",
      "export", false⟩
  | some document =>
    match validateCoreModel document with
    | .error status => .error status
    | .ok () =>
      match dump (manifestToJson document) with
      | .error what => .error ⟨"export.json.serialization_failed",
          "failed to serialize JSON document: " ++ what, "export", false⟩
      | .ok text => .ok text

theorem serialize_ok {dump : Json α → Except String String}
    {document : Option (ParsedDocument α)} {text : String}
    (h : serialize dump document = .ok text) :
    ∃ d, document = some d ∧ ValidCoreModel d ∧ dump (manifestToJson d) = .ok text := by
  unfold serialize at h
  cases document with
  | none => cases h
  | some d =>
    dsimp only at h
    cases hvalid : validateCoreModel d with
    | error status => rw [hvalid] at h; cases h
    | ok u =>
      rw [hvalid] at h
      dsimp only at h
      cases hdump : dump (manifestToJson d) with
      | error what => rw [hdump] at h; cases h
      | ok t =>
        rw [hdump] at h
        obtain rfl := Except.ok.inj h
        exact ⟨d, rfl, validateCoreModel_ok.mp hvalid, hdump⟩

end Values

end DocParser.Export
