import DocParser.Layout.Lines

/-!
# The grid of a recognised table

A model detects rows, columns, headers and merged cells of a table as boxes, each on its own.
`buildGrid` makes a grid of cells of them: first a cell for every merged box, over the rows and
columns whose centres it covers, then a cell for every slot that no merged box has consumed.
-/

namespace DocParser.TableTransformer

open Document Layout

variable {α : Type} [Double α]

structure Prediction (α : Type) where
  label : String
  bbox : BBox α
  confidence : α
  deriving DecidableEq, Repr

def intersectionArea (lhs rhs : BBox α) : α :=
  let width := Double.max 0 (Double.min lhs.x1 rhs.x1 - Double.max lhs.x0 rhs.x0)
  let height := Double.max 0 (Double.min lhs.y1 rhs.y1 - Double.max lhs.y0 rhs.y0)
  width * height

def intersectBBox (lhs rhs : BBox α) : BBox α :=
  ⟨Double.max lhs.x0 rhs.x0, Double.max lhs.y0 rhs.y0, Double.min lhs.x1 rhs.x1,
    Double.min lhs.y1 rhs.y1⟩

/-! ## Objects of the structure -/

/-- The objects inside the box of the table, by their labels. -/
structure Objects (α : Type) where
  rows : List (Prediction α)
  columns : List (Prediction α)
  headers : List (Prediction α)
  merged : List (Prediction α)

def pushObject (objects : Objects α) (object : Prediction α) : Objects α :=
  if object.label = "table row" then { objects with rows := objects.rows ++ [object] }
  else if object.label = "table column" then
    { objects with columns := objects.columns ++ [object] }
  else if object.label = "table column header" then
    { objects with headers := objects.headers ++ [object] }
  else if object.label = "table spanning cell" ∨ object.label = "table projected row header" then
    { objects with merged := objects.merged ++ [object] }
  else objects

/-- The objects that are left when the predictions are cut to the box of the table; rows are
sorted from top to bottom, columns from left to right. -/
def retainedObjects (bbox : BBox α) (structure_ : List (Prediction α)) : Objects α :=
  let objects := structure_.foldl (fun objects object =>
    let object := { object with bbox := intersectBBox object.bbox bbox }
    if bboxArea object.bbox ≤ 0 then objects else pushObject objects object) ⟨[], [], [], []⟩
  { objects with
    rows := sortBy (fun lhs rhs => decide (lhs.bbox.y0 < rhs.bbox.y0)) objects.rows
    columns := sortBy (fun lhs rhs => decide (lhs.bbox.x0 < rhs.bbox.x0)) objects.columns }

/-- The indices of the objects whose centre is in an interval, up to one pixel. -/
def indicesCoveredBy (low high : α) (center : BBox α → α) (objects : List (Prediction α)) :
    List Nat :=
  (objects.zipIdx.filter fun object =>
    decide (low - 1.0 ≤ center object.1.bbox) && decide (center object.1.bbox ≤ high + 1.0)).map
      Prod.snd

def rowsCoveredBy (bbox : BBox α) (rows : List (Prediction α)) : List Nat :=
  indicesCoveredBy bbox.y0 bbox.y1 (fun row => (row.y0 + row.y1) * 0.5) rows

def columnsCoveredBy (bbox : BBox α) (columns : List (Prediction α)) : List Nat :=
  indicesCoveredBy bbox.x0 bbox.x1 (fun column => (column.x0 + column.x1) * 0.5) columns

def overlapsHeader (bbox : BBox α) (headers : List (Prediction α)) : Bool :=
  headers.any fun header =>
    let area := bboxArea bbox
    decide (0 < area) && decide (0.5 < intersectionArea bbox header.bbox / area)

/-! ## Slots that merged cells consume -/

/-- `covered[row][column]` -/
def isCovered (covered : List (List Bool)) (row column : Nat) : Bool :=
  (covered.getD row []).getD column false

/-- `covered[row][column] = true` for all the rows and columns. -/
def markCovered (coveredRows coveredColumns : List Nat) (covered : List (List Bool)) :
    List (List Bool) :=
  coveredRows.foldl (fun covered row => coveredColumns.foldl (fun covered column =>
    covered.modify row fun line => line.set column true) covered) covered

/-! ## Cells -/

def mergedCell (objects : Objects α) (object : Prediction α)
    (coveredRows coveredColumns : List Nat) : TableCell α where
  rowIndex := coveredRows.headD 0
  columnIndex := coveredColumns.headD 0
  rowSpan := coveredRows.length
  columnSpan := coveredColumns.length
  isHeader := object.label = "table projected row header" ∨
    overlapsHeader object.bbox objects.headers
  text := ""
  bbox := object.bbox
  confidence := object.confidence
  sourceRefs := []

/-- Places the cell of one merged object in the row that it starts in. -/
def placeMerged (objects : Objects α) (state : List (TableRow α) × List (List Bool))
    (object : Prediction α) : List (TableRow α) × List (List Bool) :=
  let coveredRows := rowsCoveredBy object.bbox objects.rows
  let coveredColumns := columnsCoveredBy object.bbox objects.columns
  if coveredRows.isEmpty || coveredColumns.isEmpty then state
  else
    let cell := mergedCell objects object coveredRows coveredColumns
    (state.1.modify (coveredRows.headD 0) fun row => { row with cells := row.cells ++ [cell] },
      markCovered coveredRows coveredColumns state.2)

def plainCell (isHeader : Bool) (row column : Prediction α) (rowIndex columnIndex : Nat) :
    TableCell α where
  rowIndex := rowIndex
  columnIndex := columnIndex
  rowSpan := 1
  columnSpan := 1
  isHeader := isHeader
  text := ""
  bbox := intersectBBox row.bbox column.bbox
  confidence := Double.min row.confidence column.confidence
  sourceRefs := []

/-- The cells of a row for the slots that are not covered. -/
def plainCells (objects : Objects α) (covered : List (List Bool)) (isHeader : Bool)
    (row : Prediction α) (rowIndex : Nat) : List (TableCell α) :=
  objects.columns.zipIdx.filterMap fun column =>
    if isCovered covered rowIndex column.2 then none
    else some (plainCell isHeader row column.1 rowIndex column.2)

def fillRow (objects : Objects α) (covered : List (List Bool)) (rows : List (TableRow α))
    (row : Prediction α × Nat) : List (TableRow α) :=
  rows.modify row.2 fun tableRow =>
    { tableRow with
      cells := sortBy (fun lhs rhs => decide (lhs.columnIndex < rhs.columnIndex))
        (tableRow.cells ++ plainCells objects covered tableRow.isHeader row.1 row.2) }

/-! ## The grid -/

def tableColumns (objects : Objects α) : List (TableColumn α) :=
  objects.columns.zipIdx.map fun column =>
    ⟨column.2, column.1.bbox, column.1.confidence⟩

/-- The rows before any cell is placed. -/
def tableRows (objects : Objects α) : List (TableRow α) :=
  objects.rows.zipIdx.map fun row =>
    ⟨row.2, row.1.bbox, row.1.confidence, overlapsHeader row.1.bbox objects.headers, []⟩

def buildGrid (table : Table α) (structure_ : List (Prediction α)) : Table α :=
  let objects := retainedObjects table.bbox structure_
  if objects.rows.isEmpty || objects.columns.isEmpty then table
  else
    let uncovered := List.replicate objects.rows.length
      (List.replicate objects.columns.length false)
    let placed := objects.merged.foldl (placeMerged objects)
      (table.rows ++ tableRows objects, uncovered)
    { table with
      columns := table.columns ++ tableColumns objects
      rows := objects.rows.zipIdx.foldl (fillRow objects placed.2) placed.1 }

end DocParser.TableTransformer
