import DocParser.Document.Model

/-!
# The boxes of a document

Every record with boxes has `mapBoxes`, which moves its boxes and keeps all else, and `boxes`,
which lists them. References are kept apart, since a reference may name another page than the one
its owner is on: `place` says what happens to the boxes of each page. The `boxes_mapBoxes` lemmas
say that a map reaches every box once.
-/

namespace DocParser.Document

section

variable {α : Type} (f : BBox α → BBox α) (place : String → BBox α → BBox α)

/-! ## Maps -/

def SourceReference.mapBox (ref : SourceReference α) : SourceReference α :=
  { ref with bbox := place ref.pageId ref.bbox }

def TextSpan.mapBox (span : TextSpan α) : TextSpan α := { span with bbox := f span.bbox }

def TextLine.mapBoxes (line : TextLine α) : TextLine α :=
  { line with bbox := f line.bbox, spans := line.spans.map (TextSpan.mapBox f) }

def PageText.mapBoxes (text : PageText α) : PageText α :=
  { text with lines := text.lines.map (TextLine.mapBoxes f) }

def LayoutBlock.mapBox (block : LayoutBlock α) : LayoutBlock α :=
  { block with bbox := f block.bbox }

def PageLayout.mapBoxes (layout : PageLayout α) : PageLayout α :=
  { layout with blocks := layout.blocks.map (LayoutBlock.mapBox f) }

def TableCell.mapBoxes (cell : TableCell α) : TableCell α :=
  { cell with
    bbox := f cell.bbox
    sourceRefs := cell.sourceRefs.map (SourceReference.mapBox place) }

def TableRow.mapBoxes (row : TableRow α) : TableRow α :=
  { row with bbox := f row.bbox, cells := row.cells.map (TableCell.mapBoxes f place) }

def TableColumn.mapBox (column : TableColumn α) : TableColumn α :=
  { column with bbox := f column.bbox }

def TableStructureObject.mapBox (object : TableStructureObject α) : TableStructureObject α :=
  { object with bbox := f object.bbox }

def Table.mapBoxes (table : Table α) : Table α :=
  { table with
    bbox := f table.bbox
    columns := table.columns.map (TableColumn.mapBox f)
    rows := table.rows.map (TableRow.mapBoxes f place)
    structureObjects := table.structureObjects.map (TableStructureObject.mapBox f) }

def PageTables.mapBoxes (tables : PageTables α) : PageTables α :=
  { tables with tables := tables.tables.map (Table.mapBoxes f place) }

def PipelinePageArtifacts.mapBoxes (page : PipelinePageArtifacts α) : PipelinePageArtifacts α :=
  { page with
    text := page.text.mapBoxes f
    layout := page.layout.mapBoxes f
    tables := page.tables.mapBoxes f place }

/-- The boxes of a document block are those of its page. -/
def DocumentBlock.mapBoxes (block : DocumentBlock α) : DocumentBlock α :=
  { block with
    bbox := place block.pageId block.bbox
    tableRows := block.tableRows.map (TableRow.mapBoxes (place block.pageId) place)
    sourceRefs := block.sourceRefs.map (SourceReference.mapBox place) }

/-! ## Lists -/

def TextLine.boxes (line : TextLine α) : List (BBox α) := line.bbox :: line.spans.map (·.bbox)

def PageText.boxes (text : PageText α) : List (BBox α) := text.lines.flatMap TextLine.boxes

def PageLayout.boxes (layout : PageLayout α) : List (BBox α) := layout.blocks.map (·.bbox)

def TableRow.boxes (row : TableRow α) : List (BBox α) := row.bbox :: row.cells.map (·.bbox)

def TableRow.references (row : TableRow α) : List (SourceReference α) :=
  row.cells.flatMap (·.sourceRefs)

def Table.boxes (table : Table α) : List (BBox α) :=
  table.bbox :: (table.columns.map (·.bbox) ++ table.structureObjects.map (·.bbox) ++
    table.rows.flatMap TableRow.boxes)

def Table.references (table : Table α) : List (SourceReference α) :=
  table.rows.flatMap TableRow.references

/-- Text lines and spans, layout blocks, tables, columns, structure objects, rows and cells. -/
def PipelinePageArtifacts.boxes (page : PipelinePageArtifacts α) : List (BBox α) :=
  page.text.boxes ++ page.layout.boxes ++ page.tables.tables.flatMap Table.boxes

def PipelinePageArtifacts.references (page : PipelinePageArtifacts α) :
    List (SourceReference α) :=
  page.tables.tables.flatMap Table.references

/-- The block, its rows and their cells. -/
def DocumentBlock.boxes (block : DocumentBlock α) : List (BBox α) :=
  block.bbox :: block.tableRows.flatMap TableRow.boxes

def DocumentBlock.references (block : DocumentBlock α) : List (SourceReference α) :=
  block.tableRows.flatMap TableRow.references ++ block.sourceRefs

/-! ## A map reaches every box once -/

/-- What holds of the members of a list holds of the list. -/
theorem flatMap_map_of_forall {σ τ : Type} {parts : σ → List τ} {g : σ → σ} {h : τ → τ}
    (hparts : ∀ x, parts (g x) = (parts x).map h) (l : List σ) :
    (l.map g).flatMap parts = (l.flatMap parts).map h := by
  induction l with
  | nil => rfl
  | cons x l ih => rw [List.map_cons, List.flatMap_cons, List.flatMap_cons, List.map_append, ih,
      hparts]

@[simp] theorem TextLine.boxes_mapBoxes (line : TextLine α) :
    (line.mapBoxes f).boxes = line.boxes.map f := by
  simp [TextLine.boxes, TextLine.mapBoxes, TextSpan.mapBox]

@[simp] theorem PageText.boxes_mapBoxes (text : PageText α) :
    (text.mapBoxes f).boxes = text.boxes.map f :=
  flatMap_map_of_forall (TextLine.boxes_mapBoxes f) text.lines

@[simp] theorem PageLayout.boxes_mapBoxes (layout : PageLayout α) :
    (layout.mapBoxes f).boxes = layout.boxes.map f := by
  simp [PageLayout.boxes, PageLayout.mapBoxes, LayoutBlock.mapBox]

@[simp] theorem TableRow.boxes_mapBoxes (row : TableRow α) :
    (row.mapBoxes f place).boxes = row.boxes.map f := by
  simp [TableRow.boxes, TableRow.mapBoxes, TableCell.mapBoxes]

@[simp] theorem TableRow.references_mapBoxes (row : TableRow α) :
    (row.mapBoxes f place).references = row.references.map (SourceReference.mapBox place) := by
  have hcell : ∀ cell : TableCell α, (cell.mapBoxes f place).sourceRefs =
      cell.sourceRefs.map (SourceReference.mapBox place) := fun _ => rfl
  exact flatMap_map_of_forall hcell row.cells

@[simp] theorem Table.boxes_mapBoxes (table : Table α) :
    (table.mapBoxes f place).boxes = table.boxes.map f := by
  have hrows := flatMap_map_of_forall (TableRow.boxes_mapBoxes f place) table.rows
  have hcolumn : ((fun x : TableColumn α => x.bbox) ∘ TableColumn.mapBox f) =
      f ∘ fun x => x.bbox := rfl
  have hobject : ((fun x : TableStructureObject α => x.bbox) ∘ TableStructureObject.mapBox f) =
      f ∘ fun x => x.bbox := rfl
  simp [Table.boxes, Table.mapBoxes, hcolumn, hobject, hrows]

@[simp] theorem Table.references_mapBoxes (table : Table α) :
    (table.mapBoxes f place).references = table.references.map (SourceReference.mapBox place) :=
  flatMap_map_of_forall (TableRow.references_mapBoxes f place) table.rows

@[simp] theorem PipelinePageArtifacts.boxes_mapBoxes (page : PipelinePageArtifacts α) :
    (page.mapBoxes f place).boxes = page.boxes.map f := by
  have htables := flatMap_map_of_forall (Table.boxes_mapBoxes f place) page.tables.tables
  simp [PipelinePageArtifacts.boxes, PipelinePageArtifacts.mapBoxes, PageTables.mapBoxes, htables]

@[simp] theorem PipelinePageArtifacts.references_mapBoxes (page : PipelinePageArtifacts α) :
    (page.mapBoxes f place).references =
      page.references.map (SourceReference.mapBox place) :=
  flatMap_map_of_forall (Table.references_mapBoxes f place) page.tables.tables

@[simp] theorem DocumentBlock.boxes_mapBoxes (block : DocumentBlock α) :
    (block.mapBoxes place).boxes = block.boxes.map (place block.pageId) := by
  have hrows := flatMap_map_of_forall (TableRow.boxes_mapBoxes (place block.pageId) place)
    block.tableRows
  simp [DocumentBlock.boxes, DocumentBlock.mapBoxes, hrows]

@[simp] theorem DocumentBlock.references_mapBoxes (block : DocumentBlock α) :
    (block.mapBoxes place).references =
      block.references.map (SourceReference.mapBox place) := by
  have hrows := flatMap_map_of_forall (TableRow.references_mapBoxes (place block.pageId) place)
    block.tableRows
  simp [DocumentBlock.references, DocumentBlock.mapBoxes, hrows]

/-! ## Maps in a row -/

theorem PageText.mapBoxes_mapBoxes (g : BBox α → BBox α) (text : PageText α) :
    (text.mapBoxes f).mapBoxes g = text.mapBoxes (g ∘ f) := by
  have hspan : TextSpan.mapBox g ∘ TextSpan.mapBox f = TextSpan.mapBox (g ∘ f) := rfl
  have hline : TextLine.mapBoxes g ∘ TextLine.mapBoxes f = TextLine.mapBoxes (g ∘ f) := by
    funext line
    unfold TextLine.mapBoxes
    rw [← hspan, ← List.map_map]
    rfl
  unfold PageText.mapBoxes
  rw [← hline, ← List.map_map]

end

/-! ## The map that moves nothing -/

section Identity

variable {α : Type}

theorem SourceReference.mapBox_id (ref : SourceReference α) :
    ref.mapBox (fun _ b => b) = ref := rfl

theorem PageText.mapBoxes_id (text : PageText α) : text.mapBoxes (fun b => b) = text := by
  have hspan : ∀ span : TextSpan α, span.mapBox (fun b => b) = span := fun _ => rfl
  have hline : ∀ line : TextLine α, line.mapBoxes (fun b => b) = line := fun line => by
    unfold TextLine.mapBoxes
    rw [List.map_id'' hspan]
  unfold PageText.mapBoxes
  rw [List.map_id'' hline]

theorem PageLayout.mapBoxes_id (layout : PageLayout α) :
    layout.mapBoxes (fun b => b) = layout := by
  have hblock : ∀ block : LayoutBlock α, block.mapBox (fun b => b) = block := fun _ => rfl
  unfold PageLayout.mapBoxes
  rw [List.map_id'' hblock]

theorem TableRow.mapBoxes_id (row : TableRow α) :
    row.mapBoxes (fun b => b) (fun _ b => b) = row := by
  have hcell : ∀ cell : TableCell α, cell.mapBoxes (fun b => b) (fun _ b => b) = cell :=
    fun cell => by
      unfold TableCell.mapBoxes
      rw [List.map_id'' SourceReference.mapBox_id]
  unfold TableRow.mapBoxes
  rw [List.map_id'' hcell]

theorem Table.mapBoxes_id (table : Table α) :
    table.mapBoxes (fun b => b) (fun _ b => b) = table := by
  have hcolumn : ∀ column : TableColumn α, column.mapBox (fun b => b) = column := fun _ => rfl
  have hobject : ∀ object : TableStructureObject α, object.mapBox (fun b => b) = object :=
    fun _ => rfl
  unfold Table.mapBoxes
  rw [List.map_id'' TableRow.mapBoxes_id, List.map_id'' hcolumn, List.map_id'' hobject]

theorem PipelinePageArtifacts.mapBoxes_id (page : PipelinePageArtifacts α) :
    page.mapBoxes (fun b => b) (fun _ b => b) = page := by
  unfold PipelinePageArtifacts.mapBoxes PageTables.mapBoxes
  rw [PageText.mapBoxes_id, PageLayout.mapBoxes_id, List.map_id'' Table.mapBoxes_id]

theorem DocumentBlock.mapBoxes_id (block : DocumentBlock α) :
    block.mapBoxes (fun _ b => b) = block := by
  unfold DocumentBlock.mapBoxes
  rw [List.map_id'' TableRow.mapBoxes_id, List.map_id'' SourceReference.mapBox_id]

end Identity

end DocParser.Document
