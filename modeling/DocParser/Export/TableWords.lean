import DocParser.Assembly.AssemblerContract
import DocParser.Export.HtmlDocument
import DocParser.Lib.Words
import DocParser.Pipeline.PageStructure
import DocParser.Pipeline.TableRecognition

/-!
# The words of a table

The Markdown and the HTML exporter write the rows of a table, and not the text of its block.
`table_words_kept`: the words of the text are in both outputs when they are in cells that are
written; that is so for a table that is read by its cells.
-/

namespace DocParser.Export

open Document Assembly Words

section Definitions

variable {α : Type}

/-- The words of a text, between white space. -/
def wordsOf (text : String) : List (List Char) := words isSpace text.toList

def ShownInHtml (document : ParsedDocument α) (word : List Char) : Prop :=
  word.flatMap htmlEscapeChar <:+: (htmlDocument document).toList

/-- Tables with merged cells are written as HTML, and the texts of other blocks as they are. -/
def ShownInMarkdown (document : ParsedDocument α) (word : List Char) : Prop :=
  word <:+: (markdownDocument document).toList ∨
    word.flatMap markdownEscapeChar <:+: (markdownDocument document).toList ∨
    word.flatMap htmlEscapeChar <:+: (markdownDocument document).toList

/-- The rows of a fragment, without the headers that a continuation repeats. -/
def ownRows (block : DocumentBlock α) : List (TableRow α) :=
  if block.tableContinuesFromPreviousPage then block.tableRows.dropWhile (·.isHeader)
  else block.tableRows

/-- Some cell of the rows has the word in its text. -/
def InCells (rows : List (TableRow α)) (word : List Char) : Prop :=
  ∃ row ∈ rows, ∃ cell ∈ row.cells, word <:+: cell.text.toList

/-- A word of a continuation that occurs only in the headers that it repeats. -/
def OnlyRepeated (block : DocumentBlock α) (word : List Char) : Prop :=
  InCells block.tableRows word ∧ ¬ InCells (ownRows block) word

/-- The first fragment of the table of a block. -/
def firstFragment (blocks : List (DocumentBlock α)) (index : Nat) (block : DocumentBlock α) : Nat :=
  ((blocks.take index).findIdx? (sameLogicalTable block)).getD index

/-- No visible cell of the row is left of the table or covered by a later one. -/
def OwnColumns (row : TableRow α) : Prop :=
  (∀ cell ∈ row.cells, Layout.hasVisibleText cell.text = true → 0 ≤ cell.columnIndex) ∧
    row.cells.Pairwise fun cell later =>
      Layout.hasVisibleText cell.text = true → later.columnIndex ≠ cell.columnIndex

/-- The exporters write the words of the text of a block with its table. -/
structure KeepsText (blocks : List (DocumentBlock α)) (index : Nat) (block : DocumentBlock α) :
    Prop where
  identified : ∀ first, blocks[firstFragment blocks index block]? = some first →
    isTableBlock first = true
  inCells : ∀ word ∈ wordsOf block.text, InCells block.tableRows word
  inColumns : hasMergedCells (logicalRows blocks (firstFragment blocks index block)) = true ∨
    ∀ row ∈ ownRows block, OwnColumns row

end Definitions

/-! ## Rows -/

section Rows

variable {α : Type} {rows : List (TableRow α)} {row : TableRow α} {cell : TableCell α}
  {part : List Char}

theorem infix_join {texts : List String} {text : String} (hmem : text ∈ texts)
    (h : part <:+: text.toList) : part <:+: (String.join texts).toList := by
  rw [String.toList_join]
  obtain ⟨front, back, rfl⟩ := List.append_of_mem hmem
  rw [List.flatMap_append, List.flatMap_cons]
  exact h.trans (List.infix_append' ..)

theorem infix_append_string {front text back : String} (h : part <:+: text.toList) :
    part <:+: (front ++ text ++ back).toList := by
  simp only [String.toList_append]
  exact h.trans (List.infix_append ..)

theorem infix_sectionText (name : String) (hrow : row ∈ rows)
    (h : part <:+: (htmlRow row).toList) : part <:+: (sectionText name rows).toList := by
  unfold sectionText
  rw [if_neg (by simp [List.ne_nil_of_mem hrow])]
  simp only [String.toList_append, List.append_assoc]
  iterate 3 apply List.infix_append_of_infix_right
  exact List.infix_append_of_infix_left (infix_join (List.mem_map_of_mem hrow) h)

/-- Every cell of a table is written as HTML. -/
theorem infix_htmlTable (hrow : row ∈ rows) (hcell : cell ∈ row.cells) :
    (htmlEscape cell.text).toList <:+: (htmlTable rows).toList := by
  have hinCell : (htmlEscape cell.text).toList <:+: (htmlCell row cell).toList := by
    unfold htmlCell
    simp only [String.toList_append, List.append_assoc]
    iterate 4 apply List.infix_append_of_infix_right
    exact List.infix_append_left
  have hinRow : (htmlEscape cell.text).toList <:+: (htmlRow row).toList :=
    infix_append_string (infix_join (List.mem_map_of_mem hcell) hinCell)
  unfold htmlTable
  refine infix_append_string ?_
  rw [htmlRows_eq, String.toList_append]
  rw [← List.takeWhile_append_dropWhile (p := (·.isHeader)) (l := rows), List.mem_append] at hrow
  rcases hrow with hhead | hbody
  · exact (infix_sectionText "thead" hhead hinRow).trans List.infix_append_left
  · exact (infix_sectionText "tbody" hbody hinRow).trans List.infix_append_right

/-! ## Columns -/

theorem le_columnCount (hrow : row ∈ rows) (hcell : cell ∈ row.cells) :
    cell.columnIndex + max 1 cell.columnSpan ≤ columnCount rows := by
  have hcells : ∀ (cells : List (TableCell α)) (count : Int),
      count ≤ cells.foldl (fun count cell => max count (cell.columnIndex + max 1 cell.columnSpan))
        count ∧
      ∀ cell ∈ cells, cell.columnIndex + max 1 cell.columnSpan ≤ cells.foldl
        (fun count cell => max count (cell.columnIndex + max 1 cell.columnSpan)) count := by
    intro cells
    induction cells with
    | nil => intro count; simp
    | cons top rest ih =>
      intro count
      obtain ⟨hle, hall⟩ := ih (max count (top.columnIndex + max 1 top.columnSpan))
      rw [List.foldl_cons]
      refine ⟨(le_max_left _ _).trans hle, fun cell hcell => ?_⟩
      rcases List.mem_cons.mp hcell with rfl | hcell
      · exact (le_max_right _ _).trans hle
      · exact hall cell hcell
  have hrows : ∀ (rows : List (TableRow α)) (count : Int),
      count ≤ rows.foldl (fun count row => row.cells.foldl (fun count cell =>
        max count (cell.columnIndex + max 1 cell.columnSpan)) count) count := by
    intro rows
    induction rows with
    | nil => intro count; simp
    | cons top rest ih => exact fun count => ((hcells top.cells count).1).trans (ih _)
  obtain ⟨front, back, rfl⟩ := List.append_of_mem hrow
  unfold columnCount
  rw [List.foldl_append, List.foldl_cons]
  exact ((hcells row.cells _).2 cell hcell).trans (hrows back _)

/-- What a cell adds to the texts of its row. -/
def storeCell (values : List String) (cell : TableCell α) : List String :=
  if 0 ≤ cell.columnIndex then values.set cell.columnIndex.toNat (markdownEscape cell.text)
  else values

theorem flattenedRow_eq (row : TableRow α) (columns : Nat) :
    flattenedRow row columns = row.cells.foldl storeCell (List.replicate columns "") := rfl

theorem length_storeCells (cells : List (TableCell α)) : ∀ values : List String,
    (cells.foldl storeCell values).length = values.length := by
  induction cells with
  | nil => intro values; rfl
  | cons top rest ih =>
    intro values
    rw [List.foldl_cons, ih]
    unfold storeCell
    split_ifs
    · exact List.length_set
    · rfl

/-- The cells of other columns leave the text of a column. -/
theorem storeCells_of_ne {column : Int} (hzero : 0 ≤ column) {cells : List (TableCell α)}
    (hother : ∀ cell ∈ cells, cell.columnIndex ≠ column) : ∀ values : List String,
    (cells.foldl storeCell values)[column.toNat]? = values[column.toNat]? := by
  induction cells with
  | nil => intro values; rfl
  | cons top rest ih =>
    intro values
    rw [List.foldl_cons, ih fun later h => hother later (List.mem_cons_of_mem _ h)]
    have hne := hother top (List.mem_cons_self ..)
    unfold storeCell
    split_ifs with htop
    · exact List.getElem?_set_ne (by omega)
    · rfl

/-- The last cell of a column is its text. -/
theorem getElem?_flattenedRow {front back : List (TableCell α)}
    (hcells : row.cells = front ++ cell :: back) (hzero : 0 ≤ cell.columnIndex) {columns : Nat}
    (hlt : cell.columnIndex < columns)
    (hlater : ∀ later ∈ back, later.columnIndex ≠ cell.columnIndex) :
    (flattenedRow row columns)[cell.columnIndex.toNat]? = some (markdownEscape cell.text) := by
  have hstore : ∀ values : List String, storeCell values cell =
      values.set cell.columnIndex.toNat (markdownEscape cell.text) := fun _ => if_pos hzero
  rw [flattenedRow_eq, hcells, List.foldl_append, List.foldl_cons, storeCells_of_ne hzero hlater,
    hstore, List.getElem?_set_self]
  rw [length_storeCells, List.length_replicate]
  omega

/-- A visible cell keeps its column when no later cell covers it. -/
theorem mem_flattenedRow (hcolumns : OwnColumns row) (hcell : cell ∈ row.cells)
    (hvisible : Layout.hasVisibleText cell.text = true) {columns : Nat}
    (hlt : cell.columnIndex < columns) : markdownEscape cell.text ∈ flattenedRow row columns := by
  obtain ⟨hnonneg, hpairwise⟩ := hcolumns
  have hzero := hnonneg cell hcell hvisible
  obtain ⟨front, back, hcells⟩ := List.append_of_mem hcell
  rw [hcells, List.pairwise_append, List.pairwise_cons] at hpairwise
  obtain ⟨-, ⟨hlater, -⟩, -⟩ := hpairwise
  exact List.mem_of_getElem? (getElem?_flattenedRow hcells hzero hlt fun later h =>
    hlater later h hvisible)

theorem infix_markdownRow {values : List String} {value : String} (h : value ∈ values) :
    value.toList <:+: (markdownRow values).toList :=
  infix_append_string (infix_join (List.mem_map_of_mem h) (infix_append_string List.infix_rfl))

/-- Every visible cell of a table is written as Markdown when it keeps its column. -/
theorem infix_writeMarkdownTable (hrow : row ∈ rows) (hcell : cell ∈ row.cells)
    (hvisible : Layout.hasVisibleText cell.text = true)
    (hcolumns : hasMergedCells rows = true ∨ OwnColumns row) :
    (htmlEscape cell.text).toList <:+: (writeMarkdownTable rows).toList ∨
      (markdownEscape cell.text).toList <:+: (writeMarkdownTable rows).toList := by
  cases rows with
  | nil => cases hrow
  | cons header rest =>
    unfold writeMarkdownTable
    dsimp only
    split_ifs with hmerged hempty
    · rw [String.toList_append]
      exact Or.inl (List.infix_append_of_infix_left (infix_htmlTable hrow hcell))
    · have hown := hcolumns.resolve_left hmerged
      have hzero := hown.1 cell hcell hvisible
      have hcount := le_columnCount hrow hcell
      omega
    · have hown := hcolumns.resolve_left hmerged
      have hcount := le_columnCount hrow hcell
      set columns := (columnCount (header :: rest)).toNat with hcolumnsEq
      have hlt : cell.columnIndex < columns := by omega
      have hwritten : (markdownEscape cell.text).toList <:+:
          (markdownRow (flattenedRow row columns)).toList :=
        infix_markdownRow (mem_flattenedRow hown hcell hvisible hlt)
      right
      simp only [String.toList_append, List.append_assoc]
      rcases List.mem_cons.mp hrow with rfl | hrest
      · exact List.infix_append_of_infix_left hwritten
      · iterate 4 apply List.infix_append_of_infix_right
        exact List.infix_append_of_infix_left (infix_join (List.mem_map_of_mem hrest) hwritten)

end Rows

/-! ## Fragments -/

section Fragments

variable {α : Type} {blocks : List (DocumentBlock α)} {block : DocumentBlock α} {index : Nat}
  {row : TableRow α}

theorem mem_addFragment (rows : List (TableRow α)) (hrow : row ∈ ownRows block) :
    ∃ i, atRowIndex row i ∈ addFragment rows block := by
  have hmem : row ∈ if !rows.isEmpty && block.tableContinuesFromPreviousPage then
      block.tableRows.dropWhile (·.isHeader) else block.tableRows := by
    unfold ownRows at hrow
    by_cases hcontinues : block.tableContinuesFromPreviousPage = true
    · rw [if_pos hcontinues] at hrow
      split_ifs
      · exact hrow
      · exact (List.dropWhile_sublist _).subset hrow
    · simpa [hcontinues] using hrow
  obtain ⟨k, hk, heq⟩ := List.mem_iff_getElem.mp hmem
  refine ⟨rows.length + k,
    List.mem_append.mpr (Or.inr (List.mem_map.mpr ⟨(row, rows.length + k), ?_, rfl⟩))⟩
  rw [List.mk_add_mem_zipIdx_iff_getElem?, List.getElem?_eq_getElem hk, heq]

/-- The rows of a fragment are rows of the table. -/
theorem mem_foldl_addFragment {fragments : List (DocumentBlock α)} (hblock : block ∈ fragments)
    (hrow : row ∈ ownRows block) (rows : List (TableRow α)) :
    ∃ i, atRowIndex row i ∈ fragments.foldl addFragment rows := by
  have hkeep : ∀ (fragments : List (DocumentBlock α)) (rows : List (TableRow α)),
      rows <+: fragments.foldl addFragment rows := by
    intro fragments
    induction fragments with
    | nil => exact fun rows => List.prefix_rfl
    | cons fragment rest ih => exact fun rows => (List.prefix_append _ _).trans (ih _)
  obtain ⟨front, back, rfl⟩ := List.append_of_mem hblock
  rw [List.foldl_append, List.foldl_cons]
  obtain ⟨i, hi⟩ := mem_addFragment (front.foldl addFragment rows) hrow
  exact ⟨i, (hkeep back _).subset hi⟩

theorem sameLogicalTable_iff {first candidate : DocumentBlock α} :
    sameLogicalTable first candidate = true ↔ first.tableContinuationGroupId ≠ "" ∧
      first.tableContinuationGroupId = candidate.tableContinuationGroupId := by
  simp [sameLogicalTable]

/-- The first fragment is not written already, and the table that is written for it has the rows of
the block. -/
theorem firstFragment_spec (hblock : blocks[index]? = some block) :
    ∃ first, blocks[firstFragment blocks index block]? = some first ∧
      isContinuationAlreadyWritten blocks (firstFragment blocks index block) = false ∧
      ∀ row ∈ ownRows block, ∃ i,
        atRowIndex row i ∈ logicalRows blocks (firstFragment blocks index block) := by
  unfold firstFragment
  obtain ⟨hindex, hget⟩ := List.getElem?_eq_some_iff.mp hblock
  cases hfind : (blocks.take index).findIdx? (sameLogicalTable block) with
  | none =>
    rw [List.findIdx?_eq_none_iff] at hfind
    refine ⟨block, hblock, ?_, fun row hrow => ?_⟩
    · unfold isContinuationAlreadyWritten
      rw [Option.getD_none, hblock]
      simpa using hfind
    · unfold logicalRows
      rw [Option.getD_none, List.drop_eq_getElem_cons hindex, hget]
      exact mem_foldl_addFragment (List.mem_cons_self ..) hrow []
  | some j =>
    obtain ⟨hj, hsame, hearlier⟩ := List.findIdx?_eq_some_iff_getElem.mp hfind
    rw [List.length_take] at hj
    have hlt : j < blocks.length := by omega
    rw [List.getElem_take, sameLogicalTable_iff] at hsame
    obtain ⟨hgroup, hfirst⟩ := hsame
    refine ⟨blocks[j], List.getElem?_eq_getElem hlt, ?_, fun row hrow => ?_⟩
    · unfold isContinuationAlreadyWritten
      rw [Option.getD_some, List.getElem?_eq_getElem hlt]
      -- an earlier fragment would be the first one of the block
      refine List.any_eq_false.mpr fun earlier hmem hcontra => ?_
      obtain ⟨k, hk, rfl⟩ := List.mem_iff_getElem.mp hmem
      rw [List.length_take] at hk
      rw [List.getElem_take, sameLogicalTable_iff] at hcontra
      refine hearlier k (by omega) ?_
      rw [List.getElem_take, sameLogicalTable_iff]
      exact ⟨hgroup, hfirst.trans hcontra.2⟩
    · unfold logicalRows
      rw [Option.getD_some, List.drop_eq_getElem_cons hlt]
      refine mem_foldl_addFragment (List.mem_cons_of_mem _ (List.mem_filter.mpr ⟨?_, ?_⟩)) hrow []
      · refine List.mem_drop_iff_getElem.mpr ⟨index - (j + 1), by omega, ?_⟩
        rw [← hget]
        congr 1
        omega
      · rw [sameLogicalTable_iff, ← hfirst]
        exact ⟨hgroup, rfl⟩

end Fragments

/-! ## Outputs -/

section Outputs

variable {α : Type} {document : ParsedDocument α} {block : DocumentBlock α} {index : Nat}
  {part word : List Char}

theorem infix_markdownDocument (hindex : index < document.blocks.length) (h : part <:+:
      (writeBlock document.blocks markdownText writeMarkdownTable index).toList) :
    part <:+: (markdownDocument document).toList :=
  infix_join (List.mem_map_of_mem (List.mem_range.mpr hindex)) h

theorem infix_htmlDocument (hindex : index < document.blocks.length) (h : part <:+:
      (writeBlock document.blocks htmlText (fun rows => htmlTable rows ++ "\n") index).toList) :
    part <:+: (htmlDocument document).toList :=
  infix_append_string (infix_join (List.mem_map_of_mem (List.mem_range.mpr hindex)) h)

/-- A block without the id of a table is written with its text. -/
theorem shown_of_text (hblock : document.blocks[index]? = some block) (htype : block.type = .table)
    (htable : isTableBlock block = false) (hword : word ∈ wordsOf block.text) :
    ShownInMarkdown document word ∧ ShownInHtml document word := by
  obtain ⟨hindex, -⟩ := List.getElem?_eq_some_iff.mp hblock
  obtain ⟨hnonempty, hinside, -⟩ := mem_words hword
  have htext : block.text.isEmpty = false := by
    by_contra hempty
    simp_all
  have hmarkdown : word <:+:
      (writeBlock document.blocks markdownText writeMarkdownTable index).toList := by
    unfold writeBlock markdownText
    rw [hblock]
    simp only [htable, htext, htype, Bool.not_false, if_true, Bool.false_eq_true, if_false,
      String.toList_append]
    exact List.infix_append_of_infix_left hinside
  have hhtml : word.flatMap htmlEscapeChar <:+: (writeBlock document.blocks htmlText
      (fun rows => htmlTable rows ++ "\n") index).toList := by
    unfold writeBlock htmlText
    rw [hblock]
    simp only [htable, htext, Bool.not_false, if_true, Bool.false_eq_true, if_false,
      String.toList_append, List.append_assoc]
    iterate 3 apply List.infix_append_of_infix_right
    refine List.infix_append_of_infix_left ?_
    simpa [htmlEscape] using infix_flatMap htmlEscapeChar hinside
  exact ⟨Or.inl (infix_markdownDocument hindex hmarkdown), infix_htmlDocument hindex hhtml⟩

/-- **Cells.** A word of a cell in the own rows of a fragment is in both outputs. -/
theorem shown_of_cells (hblock : document.blocks[index]? = some block)
    (hkeeps : KeepsText document.blocks index block) (hword : word ∈ wordsOf block.text)
    (hcells : InCells (ownRows block) word) :
    ShownInMarkdown document word ∧ ShownInHtml document word := by
  obtain ⟨hnonempty, -, hspaceless⟩ := mem_words hword
  obtain ⟨row, hrow, cell, hcell, hinside⟩ := hcells
  obtain ⟨first, hfirst, hfresh, hrows⟩ := firstFragment_spec hblock
  have htable := hkeeps.identified first hfirst
  have hcolumns := hkeeps.inColumns
  obtain ⟨i, hwritten⟩ := hrows row hrow
  generalize firstFragment document.blocks index block = start at *
  obtain ⟨hstart, -⟩ := List.getElem?_eq_some_iff.mp hfirst
  have hvisible : Layout.hasVisibleText cell.text = true := by
    obtain ⟨c, rest, rfl⟩ := List.exists_cons_of_ne_nil hnonempty
    refine List.any_eq_true.mpr ⟨c, hinside.subset (List.mem_cons_self ..), ?_⟩
    rw [hspaceless c (List.mem_cons_self ..)]
    rfl
  have hcell' : { cell with rowIndex := (i : Int) } ∈ (atRowIndex row i).cells :=
    List.mem_map_of_mem hcell
  have hescape : word.flatMap htmlEscapeChar <:+: (htmlEscape cell.text).toList := by
    simpa [htmlEscape] using infix_flatMap htmlEscapeChar hinside
  have hown : hasMergedCells (logicalRows document.blocks start) = true ∨
      OwnColumns (atRowIndex row i) := by
    refine hcolumns.imp_right fun h => ?_
    obtain ⟨hnonneg, hpairwise⟩ := h row hrow
    refine ⟨?_, ?_⟩
    · simpa [atRowIndex] using hnonneg
    · simpa [atRowIndex, List.pairwise_map] using hpairwise
  constructor
  · have hat : writeBlock document.blocks markdownText writeMarkdownTable start =
        writeMarkdownTable (logicalRows document.blocks start) := by
      unfold writeBlock
      rw [hfirst]
      simp [htable, hfresh]
    rcases infix_writeMarkdownTable hwritten hcell' hvisible hown with hhtml | hmarkdown
    · exact Or.inr (Or.inr (infix_markdownDocument hstart (hat ▸ hescape.trans hhtml)))
    · refine Or.inr (Or.inl (infix_markdownDocument hstart (hat ▸ List.IsInfix.trans ?_ hmarkdown)))
      simpa [markdownEscape] using infix_flatMap markdownEscapeChar hinside
  · refine infix_htmlDocument hstart ?_
    unfold writeBlock
    rw [hfirst]
    simp only [htable, hfresh, Bool.not_true, Bool.false_eq_true, if_false, String.toList_append]
    have hhtml := infix_htmlTable hwritten hcell'
    exact List.infix_append_of_infix_left (hescape.trans hhtml)

/-! ## Texts of tables -/

/-- A block with another text if it has a table. -/
def withTableText (texts : DocumentBlock α → String) (block : DocumentBlock α) : DocumentBlock α :=
  if isTableBlock block then { block with text := texts block } else block

def withTableTexts (texts : DocumentBlock α → String) (document : ParsedDocument α) :
    ParsedDocument α :=
  { document with blocks := document.blocks.map (withTableText texts) }

variable (texts : DocumentBlock α → String)

theorem isTableBlock_withTableText (block : DocumentBlock α) :
    isTableBlock (withTableText texts block) = isTableBlock block := by
  unfold withTableText
  split_ifs with h
  · exact h ▸ rfl
  · rfl

theorem sameLogicalTable_withTableText (first candidate : DocumentBlock α) :
    sameLogicalTable (withTableText texts first) (withTableText texts candidate) =
      sameLogicalTable first candidate := by
  unfold withTableText
  split_ifs <;> rfl

theorem addFragment_withTableText (rows : List (TableRow α)) (block : DocumentBlock α) :
    addFragment rows (withTableText texts block) = addFragment rows block := by
  unfold withTableText
  split_ifs <;> rfl

theorem writeBlock_withTableText (blocks : List (DocumentBlock α)) (text : DocumentBlock α → String)
    (table : List (TableRow α) → String) (index : Nat) :
    writeBlock (blocks.map (withTableText texts)) text table index =
      writeBlock blocks text table index := by
  unfold writeBlock
  rw [List.getElem?_map]
  cases hblock : blocks[index]? with
  | none => rfl
  | some block =>
    have hwritten : isContinuationAlreadyWritten (blocks.map (withTableText texts)) index =
        isContinuationAlreadyWritten blocks index := by
      unfold isContinuationAlreadyWritten
      rw [List.getElem?_map, hblock, Option.map_some]
      dsimp only
      rw [← List.map_take, List.any_map]
      simp only [Function.comp_def, sameLogicalTable_withTableText]
    have hlogical : logicalRows (blocks.map (withTableText texts)) index =
        logicalRows blocks index := by
      unfold logicalRows
      rw [← List.map_drop]
      cases blocks.drop index with
      | nil => rfl
      | cons first rest =>
        rw [List.map_cons]
        dsimp only
        rw [List.filter_map, ← List.map_cons, List.foldl_map]
        simp only [addFragment_withTableText, Function.comp_def, sameLogicalTable_withTableText]
    rw [Option.map_some]
    dsimp only
    rw [isTableBlock_withTableText, hwritten, hlogical]
    by_cases htable : isTableBlock block = true
    · simp [htable]
    · simp [withTableText, htable]

/-- Neither exporter reads the text of a block with a table. -/
theorem outputs_withTableTexts (document : ParsedDocument α) :
    markdownDocument (withTableTexts texts document) = markdownDocument document ∧
      htmlDocument (withTableTexts texts document) = htmlDocument document := by
  constructor
  · unfold markdownDocument withTableTexts
    dsimp only
    rw [List.length_map, funext (writeBlock_withTableText texts document.blocks _ _)]
  · unfold htmlDocument withTableTexts
    dsimp only
    rw [List.length_map, funext (writeBlock_withTableText texts document.blocks _ _)]

end Outputs

/-! ## Blocks of the assembler -/

section Assembled

variable {α : Type} [Double α] {word : List Char}

theorem mem_assembleBlocks {repeated : List String} {block : DocumentBlock α}
    {pages : List (PipelinePageArtifacts α)} : ∀ {count : Nat},
    block ∈ assembleBlocks repeated count pages → ∃ page ∈ pages,
      ∃ layoutBlock ∈ page.layout.blocks, ∃ id ids,
        block = makeDocumentBlock page layoutBlock id ids := by
  induction pages with
  | nil => intro count h; cases h
  | cons page rest ih =>
    intro count h
    unfold assembleBlocks at h
    rcases List.mem_append.mp h with hpage | hrest
    · obtain ⟨index, hindex, rfl⟩ := List.mem_map.mp hpage
      refine ⟨page, List.mem_cons_self .., layoutBlockAt page index, ?_, _, _, rfl⟩
      have hlt := includedIndices_lt hindex
      rw [layoutBlockAt, List.getD, List.getElem?_eq_getElem hlt, Option.getD_some]
      exact List.getElem_mem hlt
    · obtain ⟨other, hother, hblock⟩ := ih hrest
      exact ⟨other, List.mem_cons_of_mem _ hother, hblock⟩

theorem infix_appendPart {text part : String} (hspaceless : ∀ c ∈ word, isSpace c = false)
    (h : word <:+: (appendPart text part).toList) : word <:+: text.toList ∨ word <:+: part.toList := by
  unfold appendPart at h
  split_ifs at h with hempty
  · simp_all
  · simp only [String.toList_append, List.append_assoc] at h
    exact infix_of_separator (c := '\n') (by decide) hspaceless h

omit [Double α] in
/-- The words of the text of a table are words of its cells. -/
theorem inCells_tableText {table : Table α} (h : word ∈ wordsOf (tableText table)) :
    InCells table.rows word := by
  obtain ⟨hnonempty, hinside, hspaceless⟩ := mem_words h
  have hrow : ∀ {row : TableRow α},
      word <:+: ("\t".intercalate (row.cells.map (·.text))).toList →
      ∃ cell ∈ row.cells, word <:+: cell.text.toList := by
    intro row h
    rw [String.toList_intercalate] at h
    obtain ⟨text, htext, hword⟩ := infix_of_intercalate (c := '\t') (by decide) hnonempty hspaceless h
    obtain ⟨cell, hcell, rfl⟩ := by simpa using htext
    exact ⟨cell, hcell, hword⟩
  -- what the rows so far have joined, or a row to come
  have hrows : ∀ (rows : List (TableRow α)) (text : String),
      word <:+: (rows.foldl (fun text row =>
        appendPart text ("\t".intercalate (row.cells.map (·.text)))) text).toList →
      word <:+: text.toList ∨ InCells rows word := by
    intro rows
    induction rows with
    | nil => exact fun text h => Or.inl h
    | cons row rest ih =>
      intro text h
      rcases ih _ h with hpart | ⟨other, hother, hcell⟩
      · exact (infix_appendPart hspaceless hpart).imp_right fun h =>
          ⟨row, List.mem_cons_self .., hrow h⟩
      · exact Or.inr ⟨other, List.mem_cons_of_mem _ hother, hcell⟩
  refine (hrows table.rows "" hinside).resolve_left fun hcontra => ?_
  simp_all

/-- A table that is read by its cells has all words of its block in cells. -/
theorem inCells_of_cells {page : PipelinePageArtifacts α} {layoutBlock : LayoutBlock α} {id : String}
    {ids : RelatedBlockIds} {table : Table α}
    (htype : (makeDocumentBlock page layoutBlock id ids).type = .table)
    (htable : findTableForLayoutBlock page.tables layoutBlock.id = some table)
    (hmode : table.textMode = .cells)
    (hword : word ∈ wordsOf (makeDocumentBlock page layoutBlock id ids).text) :
    InCells (makeDocumentBlock page layoutBlock id ids).tableRows word := by
  have hlayout : toDocumentBlockType layoutBlock.type = .table :=
    (makeDocumentBlock_blockOf page layoutBlock id ids).type ▸ htype
  unfold makeDocumentBlock at hword ⊢
  simp only [hlayout, if_true, htable, addTable, hmode] at hword ⊢
  obtain ⟨row, hrow, cell, hcell, hinside⟩ := inCells_tableText hword
  exact ⟨_, List.mem_map_of_mem hrow, _, List.mem_map_of_mem hcell, hinside⟩

/-- **Words of tables.** Let a block of an assembled document be a table. Its words, but for those
that only repeated headers of a continuation have, are in both outputs if the block has no table id
or keeps its text; the second means that the first fragment has an id, that the words stand in
cells, and that cells that are not merged have columns of their own. The words do so when the table
is read by its cells. In any case the outputs do not depend on the texts of blocks with tables. -/
theorem table_words_kept {engineVersion : String} {request : DocumentAssembleRequest α}
    {document : ParsedDocument α} {artifacts : List (PipelinePageArtifacts α)}
    (h : assemble engineVersion request = some (document, artifacts)) {index : Nat}
    {block : DocumentBlock α} (hblock : document.blocks[index]? = some block)
    (htype : block.type = .table) :
    ((isTableBlock block = true → KeepsText document.blocks index block) →
      ∀ word ∈ wordsOf block.text, OnlyRepeated block word ∨
        ShownInMarkdown document word ∧ ShownInHtml document word) ∧
    (∃ page ∈ artifacts, ∃ layoutBlock ∈ page.layout.blocks, BlockOf (page, layoutBlock) block ∧
      ∀ table, findTableForLayoutBlock page.tables layoutBlock.id = some table →
        table.textMode = .cells → ∀ word ∈ wordsOf block.text, InCells block.tableRows word) ∧
    ∀ texts, markdownDocument (withTableTexts texts document) = markdownDocument document ∧
      htmlDocument (withTableTexts texts document) = htmlDocument document := by
  refine ⟨fun hkeeps word hword => ?_, ?_, fun texts => outputs_withTableTexts texts document⟩
  · by_cases htable : isTableBlock block = true
    · have hkept := hkeeps htable
      by_cases hown : InCells (ownRows block) word
      · exact Or.inr (shown_of_cells hblock hkept hword hown)
      · exact Or.inl ⟨hkept.inCells word hword, hown⟩
    · exact Or.inr (shown_of_text hblock htype (Bool.not_eq_true _ ▸ htable) hword)
  · have hcounts : hasMatchingPageCounts request = true := by
      by_contra hcounts
      simp [assemble, hcounts] at h
    obtain ⟨_, hassemble, -, hblocks, -⟩ := assemble_eq engineVersion hcounts
    obtain ⟨rfl, rfl⟩ := Prod.mk.inj (Option.some.inj (h.symm.trans hassemble))
    have hmem := List.mem_of_getElem? hblock
    rw [hblocks] at hmem
    obtain ⟨page, hpage, layoutBlock, hlayoutBlock, id, ids, rfl⟩ := mem_assembleBlocks hmem
    exact ⟨page, hpage, layoutBlock, hlayoutBlock, makeDocumentBlock_blockOf page layoutBlock id ids,
      fun table htable hmode word hword => inCells_of_cells htype htable hmode hword⟩

end Assembled

/-! ## A table with an empty cell -/

def gridPage : PageArtifact := ⟨0, 1, "page_1.png", 100, 100⟩

def gridText : PageText ℚ :=
  ⟨0, 1, true, .ocr, [⟨"total 12", ⟨0, 40, 50, 44⟩, .ocr, 1, []⟩]⟩

def gridLayout : PageLayout ℚ :=
  ⟨0, 1, [⟨"a", .table, "", "", ⟨0, 40, 50, 44⟩, 1, -1, [0]⟩]⟩

/-- A table of one cell with a text. -/
def gridTables (text : String) : PageTables ℚ :=
  ⟨0, 1, [⟨"t", "a", 0, 1, ⟨0, 40, 50, 44⟩, 1, "", "", false, false, [],
    [⟨0, ⟨0, 40, 50, 44⟩, 1, false, [⟨0, 0, 1, 1, false, text, ⟨0, 40, 50, 44⟩, 1, []⟩]⟩], [],
    .cells⟩]⟩

/-- The request after the resolution and the links. -/
def gridRequest (text : String) : DocumentAssembleRequest ℚ :=
  { Assembly.runningHeader with
    pages := [gridPage]
    pageTexts := [gridText]
    pageLayouts := [(Pipeline.resolvePageStructure gridText gridLayout (gridTables text)).2.1]
    pageReadingOrders := [⟨0, 1, [], ⟨"", [], [], []⟩⟩]
    pageTables := Pipeline.linkCrossPageTables [gridPage]
      [(Pipeline.resolvePageStructure gridText gridLayout (gridTables text)).2.2] }

theorem table_words_lost : ∃ document artifacts block,
    assemble "1.0" (gridRequest "") = some (document, artifacts) ∧
      document.blocks = [block] ∧ block.type = .table ∧ "total".toList ∈ wordsOf block.text ∧
      ¬ InCells block.tableRows "total".toList ∧
      ¬ ShownInMarkdown document "total".toList ∧ ¬ ShownInHtml document "total".toList := by
  refine ⟨_, _, _, rfl, rfl, rfl, ?_, ?_, ?_, ?_⟩
  · decide +kernel
  · unfold InCells
    decide +kernel
  · unfold ShownInMarkdown
    decide +kernel
  · unfold ShownInHtml
    decide +kernel

theorem table_words_kept_total : ∃ document artifacts,
    assemble "1.0" (gridRequest "total 12") = some (document, artifacts) ∧
      ShownInMarkdown document "total".toList ∧ ShownInHtml document "total".toList := by
  obtain ⟨hshown, -⟩ := @table_words_kept ℚ _ "1.0" (gridRequest "total 12") _ _ rfl 0 _ rfl rfl
  refine ⟨_, _, rfl, (hshown (fun _ => ⟨?_, ?_, Or.inr ?_⟩) _ (by decide +kernel)).resolve_left ?_⟩
  · rintro first hfirst
    obtain rfl := Option.some.inj hfirst
    rfl
  · unfold InCells
    decide +kernel
  · unfold OwnColumns
    decide +kernel
  · unfold OnlyRepeated InCells
    decide +kernel

end DocParser.Export
