import DocParser.Pipeline.TableRecognition
import DocParser.Table.TextTableCells

/-!
# Tables from the text alone

Without a table model every table block of the layout becomes a table with one row for each of its
lines. `text_tables_attached` says how these tables are numbered and filled, and that the stage
leaves them at the blocks they were read from.
-/

namespace DocParser.TextTable

open Document Layout Pipeline

section Definitions

variable {α : Type} [Double α]

def tableId (pageNumber : Int) (tableIndex : Nat) : String :=
  "page_" ++ toString pageNumber ++ "_table_" ++ toString (tableIndex + 1)

/-- The loop over the lines of a block, for one of them. -/
def addRow (sort : List (TextSpan α) → List (TextSpan α)) (text : PageText α)
    (rows : List (TableRow α)) (lineIndex : Int) : List (TableRow α) :=
  match lineAt? text lineIndex with
  | none => rows
  | some line =>
    let cells := cellsFromLine sort line rows.length
    if cells.isEmpty then rows else rows ++ [⟨rows.length, default, 1, false, cells⟩]

/-- The table of a block, behind `tableCount` others. -/
def tableFromBlock (sort : List (TextSpan α) → List (TextSpan α)) (page : PageArtifact)
    (text : PageText α) (tableCount : Nat) (block : LayoutBlock α) : Table α where
  id := tableId page.pageNumber tableCount
  layoutBlockId := block.id
  pageIndex := page.pageIndex
  pageNumber := page.pageNumber
  bbox := block.bbox
  confidence := block.confidence
  sourceLabel := ""
  continuationGroupId := ""
  continuesFromPreviousPage := false
  continuesOnNextPage := false
  columns := []
  rows := block.textLineIndices.foldl (addRow sort text) []
  structureObjects := []
  textMode := .cells

def hasUsableTableShape (table : Table α) : Bool :=
  match table.rows with
  | [] => false
  | [row] => !row.cells.isEmpty
  | _ => true

/-- The loop over the blocks, for one of them. -/
def addTable (sort : List (TextSpan α) → List (TextSpan α)) (page : PageArtifact)
    (text : PageText α) (tables : List (Table α)) (block : LayoutBlock α) : List (Table α) :=
  if block.type ≠ .table then tables
  else
    let table := tableFromBlock sort page text tables.length block
    if hasUsableTableShape table then tables ++ [table] else tables

/-- `TextTableStructureBackend::recognize` -/
def recognize (sort : List (TextSpan α) → List (TextSpan α)) (page : PageArtifact)
    (text : PageText α) (layout : PageLayout α) : PageTables α where
  pageIndex := page.pageIndex
  pageNumber := page.pageNumber
  tables := layout.blocks.foldl (addTable sort page text) []

end Definitions

/-! ## Rows -/

section Rows

variable {α : Type} [Double α] {sort : List (TextSpan α) → List (TextSpan α)} {text : PageText α}

/-- A cell of its own row and column, with one row and one column. -/
structure CellAt (row column : Nat) (cell : TableCell α) : Prop where
  rowIndex : cell.rowIndex = row
  columnIndex : cell.columnIndex = column
  rowSpan : cell.rowSpan = 1
  columnSpan : cell.columnSpan = 1

theorem cellAt_makeCell (spans : List (TextSpan α)) (row column : Nat) :
    CellAt row column (makeCell spans row column) := ⟨rfl, rfl, rfl, rfl⟩

/-- The cells of a line count its columns. -/
theorem cellAt_cellsFromLine (line : TextLine α) {row column : Nat} {cell : TableCell α}
    (h : (cellsFromLine sort line row)[column]? = some cell) : CellAt row column cell := by
  unfold cellsFromLine at h
  dsimp only at h
  split at h
  · obtain ⟨hcolumn, rfl⟩ := List.getElem?_eq_some_iff.mp h
    obtain rfl : column = 0 := Nat.lt_one_iff.mp hcolumn
    exact ⟨rfl, rfl, rfl, rfl⟩
  · rw [List.getElem?_map, Option.map_eq_some_iff] at h
    obtain ⟨⟨spans, index⟩, hget, rfl⟩ := h
    rw [List.getElem?_zipIdx, Option.map_eq_some_iff] at hget
    obtain ⟨spans, -, heq⟩ := hget
    obtain ⟨rfl, rfl⟩ := Prod.mk.inj heq
    rw [Nat.zero_add]
    exact cellAt_makeCell spans row column

/-- A sort drops no span, so every line has a cell. -/
theorem cellsFromLine_ne_nil (line : TextLine α) (rowIndex : Int) :
    cellsFromLine sort line rowIndex ≠ [] := by
  unfold cellsFromLine
  dsimp only
  split
  · exact List.cons_ne_nil _ _
  next hspans =>
    cases hcase : sort (cellSpans line) with
    | nil => simp [hcase] at hspans
    | cons span rest =>
      rw [splitSpans_nil_cons]
      have hflat := @splitSpans_flatten α _ (gapThreshold line) rest [span]
      intro hnil
      rw [List.map_eq_nil_iff, List.zipIdx_eq_nil_iff] at hnil
      rw [hnil] at hflat
      exact List.cons_ne_nil _ _ hflat.symm

/-- The lines of a block that the page has. -/
def blockRows (text : PageText α) (block : LayoutBlock α) : List (TextLine α) :=
  block.textLineIndices.filterMap (lineAt? text)

theorem foldl_addRow (indices : List Int) : ∀ rows : List (TableRow α),
    indices.foldl (addRow sort text) rows = rows ++
      ((indices.filterMap (lineAt? text)).zipIdx rows.length).map fun p =>
        ⟨p.2, default, 1, false, cellsFromLine sort p.1 p.2⟩ := by
  induction indices with
  | nil => exact fun rows => (List.append_nil rows).symm
  | cons index indices ih =>
    intro rows
    rw [List.foldl_cons, ih]
    unfold addRow
    cases hline : lineAt? text index with
    | none => rw [List.filterMap_cons_none hline]
    | some line =>
      rw [List.filterMap_cons_some hline, List.zipIdx_cons, List.map_cons]
      dsimp only
      rw [if_neg (by simpa using cellsFromLine_ne_nil line _), List.append_assoc,
        List.length_append, List.length_singleton]
      rfl

variable (sort text) in
/-- **The rows of a table**: one for each line that the page has, in the order of the block. -/
theorem tableFromBlock_rows (page : PageArtifact) (tableCount : Nat) (block : LayoutBlock α) :
    (tableFromBlock sort page text tableCount block).rows =
      (blockRows text block).zipIdx.map fun p =>
        ⟨p.2, default, 1, false, cellsFromLine sort p.1 p.2⟩ :=
  (foldl_addRow block.textLineIndices []).trans (List.nil_append _)

theorem hasUsableTableShape_iff (page : PageArtifact) (tableCount : Nat)
    (block : LayoutBlock α) :
    hasUsableTableShape (tableFromBlock sort page text tableCount block) = true ↔
      blockRows text block ≠ [] := by
  have hrows := tableFromBlock_rows sort text page tableCount block
  unfold hasUsableTableShape
  rw [hrows]
  match hlines : blockRows text block with
  | [] => simp
  | [line] => simpa using cellsFromLine_ne_nil line 0
  | _ :: _ :: _ => simp

end Rows

/-! ## Tables -/

section Tables

variable {α : Type} [Double α] {sort : List (TextSpan α) → List (TextSpan α)} {page : PageArtifact}
  {text : PageText α}

/-- The table blocks that have a line of the page. -/
def filledBlocks (text : PageText α) (layout : PageLayout α) : List (LayoutBlock α) :=
  layout.blocks.filter fun block => block.type == .table && !(blockRows text block).isEmpty

theorem foldl_addTable (blocks : List (LayoutBlock α)) : ∀ tables : List (Table α),
    blocks.foldl (addTable sort page text) tables = tables ++
      ((blocks.filter fun block =>
        block.type == .table && !(blockRows text block).isEmpty).zipIdx tables.length).map
          fun p => tableFromBlock sort page text p.2 p.1 := by
  induction blocks with
  | nil => exact fun tables => (List.append_nil tables).symm
  | cons block blocks ih =>
    intro tables
    rw [List.foldl_cons, ih]
    unfold addTable
    by_cases htype : block.type = .table
    · rw [if_neg (not_not.mpr htype)]
      dsimp only
      by_cases hrows : blockRows text block = []
      · rw [if_neg (by rw [hasUsableTableShape_iff]; exact not_not.mpr hrows),
          List.filter_cons_of_neg (by simp [hrows])]
      · rw [if_pos ((hasUsableTableShape_iff page tables.length block).mpr hrows),
          List.filter_cons_of_pos (by simp [htype, hrows]), List.zipIdx_cons, List.map_cons,
          List.append_assoc, List.length_append, List.length_singleton]
        rfl
    · rw [if_pos htype, List.filter_cons_of_neg (by simp [htype])]

/-- **The tables of a page**: one for each table block with a line, in the order of the layout. -/
theorem recognize_tables (layout : PageLayout α) :
    (recognize sort page text layout).tables = (filledBlocks text layout).zipIdx.map fun p =>
      tableFromBlock sort page text p.2 p.1 :=
  (foldl_addTable layout.blocks []).trans (List.nil_append _)

omit [Double α] in
theorem mem_filledBlocks {layout : PageLayout α} {block : LayoutBlock α} :
    block ∈ filledBlocks text layout ↔
      block ∈ layout.blocks ∧ block.type = .table ∧ blockRows text block ≠ [] := by
  unfold filledBlocks
  rw [List.mem_filter, Bool.and_eq_true, beq_iff_eq, Bool.not_eq_true', List.isEmpty_eq_false_iff]

variable (text) in
/-- A table that names a block which no earlier table has taken stays as it is. -/
theorem attachTable_free (pageNumber : Int) {s : Attachment α} {block : LayoutBlock α}
    (table : Table α) (hids : (s.blocks.map (·.id)).Nodup) (hblock : block ∈ s.blocks)
    (hid : block.id ≠ "") (hname : table.layoutBlockId = block.id)
    (hfree : block.id ∉ s.assignedLayoutBlocks) :
    attachTable text pageNumber s table = { s with
      assignedLayoutBlocks := block.id :: s.assignedLayoutBlocks
      tables := s.tables ++ [table] } := by
  have hfound : freeBlock s table = some block := by
    unfold freeBlock
    have hfind : (s.blocks.find? fun other =>
        !table.layoutBlockId.isEmpty && other.id == table.layoutBlockId) = some block := by
      cases hcase : s.blocks.find? fun other =>
          !table.layoutBlockId.isEmpty && other.id == table.layoutBlockId with
      | none =>
        have hnot := List.find?_eq_none.mp hcase block hblock
        simp [hname, hid] at hnot
      | some other =>
        have hsame := List.find?_some hcase
        rw [Bool.and_eq_true, beq_iff_eq, hname] at hsame
        exact congrArg some (List.inj_on_of_nodup_map hids
          (List.mem_of_find?_eq_some hcase) hblock hsame.2)
    rw [hfind]
    dsimp only
    rw [if_neg (by simpa using hfree)]
  unfold attachTable
  rw [hfound]

variable (sort page text) in
theorem foldl_attachTable {layoutBlocks : List (LayoutBlock α)} (pageNumber : Int)
    (hids : (layoutBlocks.map (·.id)).Nodup) (hne : ∀ block ∈ layoutBlocks, block.id ≠ "")
    (blocks : List (LayoutBlock α)) : ∀ (s : Attachment α) (tableCount : Nat),
    s.blocks = layoutBlocks → (∀ block ∈ blocks, block ∈ layoutBlocks) →
    (blocks.map (·.id)).Nodup → (∀ block ∈ blocks, block.id ∉ s.assignedLayoutBlocks) →
    let tables := (blocks.zipIdx tableCount).map fun p => tableFromBlock sort page text p.2 p.1
    (tables.foldl (attachTable text pageNumber) s).blocks = layoutBlocks ∧
      (tables.foldl (attachTable text pageNumber) s).tables = s.tables ++ tables := by
  induction blocks with
  | nil => exact fun s _ hblocks _ _ _ => ⟨hblocks, (List.append_nil _).symm⟩
  | cons block blocks ih =>
    intro s tableCount hblocks hmem hnodup hfree
    rw [List.map_cons, List.nodup_cons] at hnodup
    obtain ⟨hblock, hmem⟩ := List.forall_mem_cons.mp hmem
    obtain ⟨hunassigned, hfree⟩ := List.forall_mem_cons.mp hfree
    have hstep := attachTable_free text pageNumber
      (tableFromBlock sort page text tableCount block) (hblocks ▸ hids)
      (hblocks ▸ hblock) (hne block hblock) rfl hunassigned
    obtain ⟨hkept, htables⟩ := ih { s with
      assignedLayoutBlocks := block.id :: s.assignedLayoutBlocks
      tables := s.tables ++ [tableFromBlock sort page text tableCount block] } (tableCount + 1)
      hblocks hmem hnodup.2 fun other hother hassigned => by
        rcases List.mem_cons.mp hassigned with hsame | hassigned
        · exact hnodup.1 (hsame ▸ List.mem_map_of_mem hother)
        · exact hfree other hother hassigned
    dsimp only
    rw [List.zipIdx_cons, List.map_cons, List.foldl_cons, hstep]
    exact ⟨hkept, by rw [htables, List.append_assoc]; rfl⟩

/-- The tables of a page: their ids count them, each is read from one table block, has one row for
each line, and every cell stands at its own place of the grid. -/
structure TextTables (page : PageArtifact) (text : PageText α) (layout : PageLayout α)
    (tables : List (Table α)) : Prop where
  ids : tables.map (·.id) = (List.range tables.length).map (tableId page.pageNumber)
  names : tables.map (·.layoutBlockId) = (filledBlocks text layout).map (·.id)
  rows : ∀ (k : Nat) (table : Table α) (block : LayoutBlock α), tables[k]? = some table →
    (filledBlocks text layout)[k]? = some block →
    table.rows.length = (blockRows text block).length ∧ table.rows ≠ []
  cells : ∀ table ∈ tables, ∀ (row : Nat) (tableRow : TableRow α),
    table.rows[row]? = some tableRow → tableRow.rowIndex = row ∧ tableRow.cells ≠ [] ∧
      ∀ (column : Nat) (cell : TableCell α), tableRow.cells[column]? = some cell →
        CellAt row column cell

theorem recognize_textTables (layout : PageLayout α) :
    TextTables page text layout (recognize sort page text layout).tables := by
  rw [recognize_tables]
  refine ⟨?_, ?_, ?_, ?_⟩
  · rw [List.map_map, List.length_map, List.length_zipIdx, List.range_eq_range',
      ← List.zipIdx_map_snd 0 (filledBlocks text layout), List.map_map]
    rfl
  · rw [List.map_map]
    calc _ = ((filledBlocks text layout).zipIdx.map Prod.fst).map fun block => block.id := by
          rw [List.map_map]; rfl
      _ = _ := by rw [List.zipIdx_map_fst]
  · intro k table block htable hblock
    rw [List.getElem?_map, List.getElem?_zipIdx, hblock] at htable
    obtain rfl := Option.some.inj htable
    rw [tableFromBlock_rows]
    refine ⟨by rw [List.length_map, List.length_zipIdx], ?_⟩
    rw [Ne, List.map_eq_nil_iff, List.zipIdx_eq_nil_iff]
    exact (mem_filledBlocks.mp (List.mem_of_getElem? hblock)).2.2
  · intro table htable row tableRow hrow
    obtain ⟨⟨block, k⟩, -, rfl⟩ := List.mem_map.mp htable
    rw [tableFromBlock_rows, List.getElem?_map, List.getElem?_zipIdx, Option.map_map,
      Option.map_eq_some_iff] at hrow
    obtain ⟨line, -, rfl⟩ := hrow
    rw [Function.comp_apply, Nat.zero_add]
    exact ⟨rfl, cellsFromLine_ne_nil line _, fun column cell => cellAt_cellsFromLine line⟩

/-- **Tables from the text.** The backend fills one table for each table block with a line. When
the blocks have distinct names, the stage adds no block for these tables and renames none, so that
each table stays at the block it was read from. -/
theorem text_tables_attached (sort : List (TextSpan α) → List (TextSpan α)) (page : PageArtifact)
    (text : PageText α) (layout : PageLayout α) :
    TextTables page text layout (recognize sort page text layout).tables ∧
    ((layout.blocks.map (·.id)).Nodup → (∀ block ∈ layout.blocks, block.id ≠ "") →
      attachDetectedTables text layout (recognize sort page text layout) =
        (layout, recognize sort page text layout)) := by
  refine ⟨recognize_textTables layout, fun hids hne => ?_⟩
  have hsub : (filledBlocks text layout).Sublist layout.blocks := List.filter_sublist
  obtain ⟨hblocks, htables⟩ := foldl_attachTable sort page text
    layout.pageNumber hids hne (filledBlocks text layout) ⟨layout.blocks, [], []⟩ 0
    rfl (fun block hblock => hsub.mem hblock) (hids.sublist (hsub.map _))
    fun block _ hmem => List.not_mem_nil hmem
  dsimp only at hblocks htables
  rw [← recognize_tables] at hblocks htables
  unfold attachDetectedTables
  dsimp only
  rw [hblocks, htables]
  rfl

end Tables

/-! ## Two table blocks, one of them without a line -/

def priceText : PageText ℚ :=
  ⟨0, 1, true, .ocr, [⟨"intro", ⟨0, 10, 50, 14⟩, .ocr, 1, []⟩,
    lineOf [wordBetween "5" 60 80, wordBetween "Total" 0 20]]⟩

def priceLayout : PageLayout ℚ :=
  ⟨0, 1, [⟨"page_1_block_1", .table, "", "", ⟨0, 70, 60, 90⟩, 1, -1, [7]⟩,
    ⟨"page_1_block_2", .text, "", "", ⟨0, 10, 50, 14⟩, 1, -1, [0]⟩,
    ⟨"page_1_block_3", .table, "", "", ⟨0, 30, 60, 50⟩, 1, -1, [1, 1]⟩]⟩

theorem text_tables_attached_prices :
    attachDetectedTables priceText priceLayout
        (recognize sortByLeftEdge ⟨0, 1, "page_1.png", 100, 100⟩ priceText priceLayout) =
      (priceLayout,
        recognize sortByLeftEdge ⟨0, 1, "page_1.png", 100, 100⟩ priceText priceLayout) :=
  (text_tables_attached sortByLeftEdge ⟨0, 1, "page_1.png", 100, 100⟩ priceText priceLayout).2
    (by decide) (by decide)

example : (filledBlocks priceText priceLayout).map (·.id) = ["page_1_block_3"] := by decide

end DocParser.TextTable
