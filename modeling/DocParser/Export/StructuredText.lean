import DocParser.Common.Standard
import DocParser.Document.Model

/-!
# The Markdown and HTML exporters

Both exporters write the blocks of a document in order. The fragments of a table that is linked
over several pages are written as one table, where the first of them stands.
-/

namespace DocParser.Export

open Document

/-! ## Escapes -/

def htmlEscapeChar : Char → List Char
  | '&' => ['&', 'a', 'm', 'p', ';']
  | '<' => ['&', 'l', 't', ';']
  | '>' => ['&', 'g', 't', ';']
  | '"' => ['&', 'q', 'u', 'o', 't', ';']
  | c => [c]

def htmlEscape (value : String) : String := String.ofList (value.toList.flatMap htmlEscapeChar)

def markdownEscapeChar (c : Char) : List Char :=
  if c = '|' then ['\\', '|']
  else if c = '\n' ∨ c = '\r' then ['<', 'b', 'r', '>']
  else [c]

def markdownEscape (value : String) : String :=
  String.ofList (value.toList.flatMap markdownEscapeChar)

section Exporters

variable {α : Type}

/-! ## Linked tables -/

def isTableBlock (block : DocumentBlock α) : Bool :=
  block.type == .table && !block.tableId.isEmpty

def sameLogicalTable (first candidate : DocumentBlock α) : Bool :=
  !first.tableContinuationGroupId.isEmpty &&
    first.tableContinuationGroupId == candidate.tableContinuationGroupId

/-- A row at an index of the logical table. -/
def atRowIndex (row : TableRow α) (index : Nat) : TableRow α :=
  { row with
    rowIndex := index
    cells := row.cells.map fun cell => { cell with rowIndex := index } }

/-- Adds the rows of a fragment, without the headers that it repeats. -/
def addFragment (rows : List (TableRow α)) (block : DocumentBlock α) : List (TableRow α) :=
  let added :=
    if !rows.isEmpty && block.tableContinuesFromPreviousPage then
      block.tableRows.dropWhile (·.isHeader)
    else block.tableRows
  rows ++ (added.zipIdx rows.length).map fun p => atRowIndex p.1 p.2

def logicalRows (blocks : List (DocumentBlock α)) (firstIndex : Nat) : List (TableRow α) :=
  match blocks.drop firstIndex with
  | [] => []
  | first :: rest => (first :: rest.filter (sameLogicalTable first)).foldl addFragment []

def isContinuationAlreadyWritten (blocks : List (DocumentBlock α)) (index : Nat) : Bool :=
  match blocks[index]? with
  | none => false
  | some block => (blocks.take index).any (sameLogicalTable block)

def hasMergedCells (rows : List (TableRow α)) : Bool :=
  rows.any fun row => row.cells.any fun cell =>
    decide (1 < cell.rowSpan) || decide (1 < cell.columnSpan)

def columnCount (rows : List (TableRow α)) : Int :=
  rows.foldl (fun count row => row.cells.foldl (fun count cell =>
    max count (cell.columnIndex + max 1 cell.columnSpan)) count) 0

/-! ## Tables -/

def cellTag (row : TableRow α) (cell : TableCell α) : String :=
  if row.isHeader || cell.isHeader then "th" else "td"

/-- The attributes of a merged cell. -/
def spanAttributes (cell : TableCell α) : String :=
  (if 1 < cell.rowSpan then " rowspan=\"" ++ toString cell.rowSpan ++ "\"" else "") ++
    if 1 < cell.columnSpan then " colspan=\"" ++ toString cell.columnSpan ++ "\"" else ""

def htmlCell (row : TableRow α) (cell : TableCell α) : String :=
  "      <" ++ cellTag row cell ++ spanAttributes cell ++ ">" ++ htmlEscape cell.text ++ "</" ++
    cellTag row cell ++ ">\n"

def htmlRow (row : TableRow α) : String :=
  "    <tr>\n" ++ String.join (row.cells.map (htmlCell row)) ++ "    </tr>\n"

/-- The loop over the rows, with the flags of the sections that are open. -/
def htmlRows : Bool → Bool → List (TableRow α) → String
  | headerOpen, bodyOpen, [] =>
    (if headerOpen then "  </thead>\n" else "") ++ if bodyOpen then "  </tbody>\n" else ""
  | headerOpen, bodyOpen, row :: rest =>
    if row.isHeader && !bodyOpen && !headerOpen then
      "  <thead>\n" ++ htmlRow row ++ htmlRows true bodyOpen rest
    else if !row.isHeader && !bodyOpen then
      (if headerOpen then "  </thead>\n" else "") ++ "  <tbody>\n" ++ htmlRow row ++
        htmlRows false true rest
    else htmlRow row ++ htmlRows headerOpen bodyOpen rest

def htmlTable (rows : List (TableRow α)) : String :=
  "<table>\n" ++ htmlRows false false rows ++ "</table>"

/-- The texts of a row by column; the last cell of a column counts. -/
def flattenedRow (row : TableRow α) (columns : Nat) : List String :=
  row.cells.foldl (fun values cell =>
    if 0 ≤ cell.columnIndex then values.set cell.columnIndex.toNat (markdownEscape cell.text)
    else values) (List.replicate columns "")

def markdownRow (values : List String) : String :=
  "|" ++ String.join (values.map fun value => " " ++ value ++ " |") ++ "\n"

def writeMarkdownTable (rows : List (TableRow α)) : String :=
  match rows with
  | [] => ""
  | header :: rest =>
    if hasMergedCells rows then htmlTable rows ++ "\n\n"
    else
      let columns := columnCount rows
      if columns ≤ 0 then ""
      else
        markdownRow (flattenedRow header columns.toNat) ++
          "|" ++ String.join (List.replicate columns.toNat " --- |") ++ "\n" ++
          String.join (rest.map fun row => markdownRow (flattenedRow row columns.toNat)) ++ "\n"

/-! ## Documents -/

def markdownText (block : DocumentBlock α) : String :=
  if block.text.isEmpty then ""
  else
    match block.type with
    | .title => "## " ++ block.text ++ "\n\n"
    | .list => "- " ++ block.text ++ "\n"
    | .header | .footer => ""
    | _ => block.text ++ "\n\n"

def htmlText (block : DocumentBlock α) : String :=
  if block.text.isEmpty then ""
  else
    let tag := if block.type == .title then "h2" else "p"
    "<" ++ tag ++ ">" ++ htmlEscape block.text ++ "</" ++ tag ++ ">\n"

/-- The block at an index: its text, or its table unless that is written already. -/
def writeBlock (blocks : List (DocumentBlock α)) (text : DocumentBlock α → String)
    (table : List (TableRow α) → String) (index : Nat) : String :=
  match blocks[index]? with
  | none => ""
  | some block =>
    if !isTableBlock block then text block
    else if isContinuationAlreadyWritten blocks index then ""
    else table (logicalRows blocks index)

/-- What `MarkdownDocumentExporter::write` writes. -/
def markdownDocument (document : ParsedDocument α) : String :=
  String.join ((List.range document.blocks.length).map
    (writeBlock document.blocks markdownText writeMarkdownTable))

/-- What `HtmlDocumentExporter::write` writes. -/
def htmlDocument (document : ParsedDocument α) : String :=
  "<!doctype html>\n<html><head><meta charset=\"utf-8\"><title>" ++
    htmlEscape document.source.path ++ "</title></head><body>\n" ++
    String.join ((List.range document.blocks.length).map
      (writeBlock document.blocks htmlText fun rows => htmlTable rows ++ "\n")) ++
    "</body></html>\n"

end Exporters

end DocParser.Export
