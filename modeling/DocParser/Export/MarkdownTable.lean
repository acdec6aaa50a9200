import DocParser.Export.TableWords
import DocParser.Lib.Delimited

/-!
# Pipe tables

A table without merged cells is written in Markdown with a line for each row and a pipe around
each cell. `pipe_table_iff`: the lines have the columns of the table exactly when some row has a
cell and no text has a pipe behind an odd number of backslashes. The escape of such a pipe is
escaped by the backslash in front of it.

1. The output is a list of lines, each with a field for every column
   (`filledLines_writeMarkdownTable`).
2. An escaped text has as many unescaped pipes as the text has escaped ones
   (`Delimited.unescaped_escape`).
3. The pipes of a line are its columns and these (`unescapedPipes_pipeLine`).
-/

namespace DocParser.Export

open Document Delimited

section Definitions

variable {α : Type}

/-- The lines of a text that are not empty. -/
def filledLines (text : String) : List (List Char) :=
  (text.toList.splitOn '\n').filter fun line => !line.isEmpty

/-- The pipes of a line that are not behind an odd number of backslashes. -/
def unescapedPipes (line : List Char) : Nat := unescaped '|' '\\' false line

/-- The fields of a line; the first one is the empty text in front of its first pipe. -/
def pipeFields (line : List Char) : List (List Char) := fields '|' '\\' false line

/-- A text between its blanks. -/
def padded (value : String) : List Char := ' ' :: value.toList ++ [' ']

/-- A line with a pipe around each of its texts. -/
def pipeLine (values : List String) : List Char := terminated '|' ([] :: values.map padded)

/-- The line of a row, with the delimiters behind the first one. -/
def lineOfRow : Nat → Nat
  | 0 => 0
  | i + 1 => i + 2

/-- The lines have the rows and columns of a table. -/
structure PipeTable (rows : List (TableRow α)) (lines : List (List Char)) : Prop where
  length : lines.length = rows.length + 1
  delimiters : lines[1]? = some (pipeLine (List.replicate (columnCount rows).toNat "---"))
  rectangular : ∀ line ∈ lines, (unescapedPipes line : Int) = columnCount rows + 1
  faithful : ∀ i row, rows[i]? = some row → ∃ line, lines[lineOfRow i]? = some line ∧
    ∀ cell ∈ row.cells,
      (pipeFields line)[cell.columnIndex.toNat + 1]? = some (padded (markdownEscape cell.text))

/-- A pipe of the text stands behind an odd number of backslashes. -/
def HasEscapedPipe (text : String) : Prop :=
  ∃ front back, text.toList = front ++ '|' :: back ∧
    (front.reverse.takeWhile fun c => decide (c = '\\')).length % 2 = 1

end Definitions

/-! ## Texts -/

section Texts

variable {text : String}

theorem toList_markdownEscape (text : String) :
    (markdownEscape text).toList = text.toList.flatMap markdownEscapeChar := by
  unfold markdownEscape; rw [String.toList_ofList]

theorem markdownEscapeChar_other {c : Char} (hpipe : c ≠ '|') (hslash : c ≠ '\\') :
    markdownEscapeChar c ≠ [] ∧ '|' ∉ markdownEscapeChar c ∧ '\\' ∉ markdownEscapeChar c := by
  unfold markdownEscapeChar
  rw [if_neg hpipe]
  split_ifs
  · decide
  · simp [hpipe.symm, hslash.symm]

theorem newline_notMem_markdownEscape (text : String) : '\n' ∉ (markdownEscape text).toList := by
  rw [toList_markdownEscape]
  intro h
  obtain ⟨c, -, hc⟩ := List.mem_flatMap.mp h
  unfold markdownEscapeChar at hc
  split_ifs at hc with hpipe hbreak
  · revert hc; decide
  · revert hc; decide
  · rw [List.mem_singleton] at hc
    exact hbreak (Or.inl hc.symm)

theorem unescaped_padded (value : String) :
    unescapedPipes (padded value) = unescapedPipes value.toList := by
  have hblank : ∀ odd, unescaped '|' '\\' odd [' '] = 0 := unescaped_of_notMem (by decide)
  unfold unescapedPipes padded
  rw [List.cons_append, unescaped, if_neg (by decide), Nat.zero_add, unescaped_append, hblank,
    Nat.add_zero]
  rfl

theorem parity_padded (value : String) : parity '\\' false (padded value) = false :=
  parity_concat (by decide)

/-- The pipes of an escaped text. -/
theorem unescapedPipes_markdownEscape (text : String) :
    unescapedPipes (markdownEscape text).toList = escaped '|' '\\' false text.toList := by
  unfold unescapedPipes
  rw [toList_markdownEscape]
  exact (unescaped_escape (by decide) (by decide) (by decide)
    (fun c hpipe hslash => markdownEscapeChar_other hpipe hslash) text.toList false).1

theorem unescapedPipes_eq_zero :
    unescapedPipes (markdownEscape text).toList = 0 ↔ ¬ HasEscapedPipe text := by
  rw [unescapedPipes_markdownEscape, ← not_iff_not, not_not]
  refine escaped_ne_zero.trans ?_
  unfold HasEscapedPipe
  simp only [parity_eq, decide_eq_true_eq]

end Texts

/-! ## Lines -/

section Lines

variable {values : List String}

theorem toList_markdownRow (values : List String) :
    (markdownRow values).toList = pipeLine values ++ ['\n'] := by
  have hcell : (fun value : String => (" " ++ value ++ " |").toList) =
      fun value => padded value ++ ['|'] := by
    funext value
    unfold padded
    simp only [String.toList_append, List.append_assoc]
    rfl
  unfold markdownRow pipeLine terminated
  rw [String.toList_append, String.toList_append, String.toList_join, List.flatMap_map,
    List.flatMap_cons, List.flatMap_map, hcell]
  rfl

theorem unescapedPipes_pipeLine (values : List String) : unescapedPipes (pipeLine values) =
    (values.map fun value => unescapedPipes value.toList).sum + values.length + 1 := by
  have hparity : ∀ part ∈ [] :: values.map padded, parity '\\' false part = false := by
    intro part hpart
    rcases List.mem_cons.mp hpart with rfl | hpart
    · rfl
    · obtain ⟨value, -, rfl⟩ := List.mem_map.mp hpart
      exact parity_padded value
  have hparts : (values.map padded).map (unescaped '|' '\\' false) =
      values.map fun value => unescapedPipes value.toList := by
    rw [List.map_map]
    exact List.map_congr_left fun value _ => unescaped_padded value
  unfold unescapedPipes pipeLine
  rw [unescaped_terminated (by decide) hparity, List.map_cons, List.sum_cons, hparts,
    List.length_cons, List.length_map]
  simp only [unescaped, unescapedPipes]
  omega

theorem pipeFields_pipeLine (h : ∀ value ∈ values, unescapedPipes value.toList = 0) :
    pipeFields (pipeLine values) = [] :: values.map padded ++ [[]] := by
  apply fields_terminated
  · intro part hpart
    rcases List.mem_cons.mp hpart with rfl | hpart
    · rfl
    · obtain ⟨value, hvalue, rfl⟩ := List.mem_map.mp hpart
      exact (unescaped_padded value).trans (h value hvalue)
  · intro part hpart
    rcases List.mem_cons.mp hpart with rfl | hpart
    · rfl
    · obtain ⟨value, -, rfl⟩ := List.mem_map.mp hpart
      exact parity_padded value

theorem pipeLine_ne_nil (values : List String) : pipeLine values ≠ [] := by
  unfold pipeLine terminated
  rw [List.flatMap_cons]
  exact List.cons_ne_nil _ _

theorem newline_notMem_pipeLine (h : ∀ value ∈ values, '\n' ∉ value.toList) :
    '\n' ∉ pipeLine values := by
  unfold pipeLine terminated
  intro hmem
  obtain ⟨part, hpart, hc⟩ := List.mem_flatMap.mp hmem
  rcases List.mem_cons.mp hpart with rfl | hpart
  · revert hc; decide
  · obtain ⟨value, hvalue, rfl⟩ := List.mem_map.mp hpart
    unfold padded at hc
    simp only [List.cons_append, List.mem_cons, List.mem_append, List.not_mem_nil, or_false] at hc
    rcases hc with hc | (hc | hc) | hc
    · revert hc; decide
    · exact h value hvalue hc
    · revert hc; decide
    · revert hc; decide

/-- Lines that are not empty are read back. -/
theorem filledLines_eq {text : String} {lines : List (List Char)}
    (htext : text.toList = terminated '\n' (lines ++ [[]])) (hline : ∀ line ∈ lines, '\n' ∉ line)
    (hfilled : ∀ line ∈ lines, line ≠ []) : filledLines text = lines := by
  have hsplit : ∀ lines : List (List Char), (∀ line ∈ lines, '\n' ∉ line) →
      (terminated '\n' lines).splitOn '\n' = lines ++ [[]] := by
    intro lines
    induction lines with
    | nil => intro _; rfl
    | cons line lines ih =>
      intro h
      have hrest := ih fun other hother => h other (List.mem_cons_of_mem _ hother)
      unfold terminated at hrest ⊢
      rw [List.flatMap_cons, List.append_assoc, List.singleton_append,
        List.splitOn_append_cons_self_of_not_mem (h line (List.mem_cons_self ..)), hrest,
        List.cons_append]
  unfold filledLines
  rw [htext, hsplit, List.filter_append, List.filter_append, List.filter_eq_self.mpr]
  · show lines ++ [] ++ [] = lines
    rw [List.append_nil, List.append_nil]
  · intro line hmem
    simpa using hfilled line hmem
  · intro line hmem
    rcases List.mem_append.mp hmem with hmem | hmem
    · exact hline line hmem
    · rw [List.mem_singleton.mp hmem]
      exact List.not_mem_nil

end Lines

/-! ## Rows -/

section Rows

variable {α : Type} {rows : List (TableRow α)} {row : TableRow α} {cell : TableCell α}

/-- The row has at most one cell in a column, and none left of the table. -/
def DistinctColumns (row : TableRow α) : Prop :=
  (∀ cell ∈ row.cells, 0 ≤ cell.columnIndex) ∧
    row.cells.Pairwise fun cell later => cell.columnIndex ≠ later.columnIndex

/-- The lines of a table. -/
def tableLines (rows : List (TableRow α)) (columns : Nat) : List (List Char) :=
  match rows with
  | [] => []
  | header :: rest =>
    pipeLine (flattenedRow header columns) :: pipeLine (List.replicate columns "---") ::
      rest.map fun row => pipeLine (flattenedRow row columns)

theorem length_tableLines {columns : Nat} (hrows : rows ≠ []) :
    (tableLines rows columns).length = rows.length + 1 := by
  cases rows with
  | nil => exact absurd rfl hrows
  | cons header rest => simp [tableLines]

theorem getElem?_tableLines {i columns : Nat} (h : rows[i]? = some row) :
    (tableLines rows columns)[lineOfRow i]? = some (pipeLine (flattenedRow row columns)) := by
  cases rows with
  | nil => cases h
  | cons header rest =>
    cases i with
    | zero => cases h; rfl
    | succ i =>
      rw [List.getElem?_cons_succ] at h
      show (rest.map _)[i]? = _
      rw [List.getElem?_map, h]
      rfl

/-- A line is that of a row, or the delimiters. -/
theorem mem_tableLines {line : List Char} {columns : Nat}
    (h : line ∈ tableLines rows columns) :
    line = pipeLine (List.replicate columns "---") ∨
      ∃ row ∈ rows, line = pipeLine (flattenedRow row columns) := by
  cases rows with
  | nil => cases h
  | cons header rest =>
    rcases List.mem_cons.mp h with rfl | h
    · exact Or.inr ⟨header, List.mem_cons_self .., rfl⟩
    · rcases List.mem_cons.mp h with rfl | h
      · exact Or.inl rfl
      · obtain ⟨row, hrow, rfl⟩ := List.mem_map.mp h
        exact Or.inr ⟨row, List.mem_cons_of_mem _ hrow, rfl⟩

theorem mem_flattenedRow_elim {value : String} {columns : Nat}
    (h : value ∈ flattenedRow row columns) :
    value = "" ∨ ∃ cell ∈ row.cells, value = markdownEscape cell.text := by
  have hcells : ∀ (cells : List (TableCell α)) (values : List String),
      value ∈ cells.foldl storeCell values →
        value ∈ values ∨ ∃ cell ∈ cells, value = markdownEscape cell.text := by
    intro cells
    induction cells with
    | nil => exact fun values h => Or.inl h
    | cons top rest ih =>
      intro values h
      rcases ih _ h with hvalue | ⟨cell, hcell, heq⟩
      · unfold storeCell at hvalue
        split_ifs at hvalue
        · rcases List.mem_or_eq_of_mem_set hvalue with hvalue | heq
          · exact Or.inl hvalue
          · exact Or.inr ⟨top, List.mem_cons_self .., heq⟩
        · exact Or.inl hvalue
      · exact Or.inr ⟨cell, List.mem_cons_of_mem _ hcell, heq⟩
  rcases hcells row.cells _ h with hvalue | hcell
  · exact Or.inl (List.eq_of_mem_replicate hvalue)
  · exact Or.inr hcell

theorem length_flattenedRow (row : TableRow α) (columns : Nat) :
    (flattenedRow row columns).length = columns := by
  rw [flattenedRow_eq, length_storeCells, List.length_replicate]

theorem newline_notMem_flattenedRow {value : String} {columns : Nat}
    (h : value ∈ flattenedRow row columns) : '\n' ∉ value.toList := by
  rcases mem_flattenedRow_elim h with rfl | ⟨cell, -, rfl⟩
  · decide
  · exact newline_notMem_markdownEscape cell.text

/-- A cell is the text of its column. -/
theorem flattenedRow_cell (hdistinct : DistinctColumns row) (hrow : row ∈ rows)
    (hcell : cell ∈ row.cells) :
    (flattenedRow row (columnCount rows).toNat)[cell.columnIndex.toNat]? =
      some (markdownEscape cell.text) := by
  have hzero := hdistinct.1 cell hcell
  have hcount := le_columnCount hrow hcell
  obtain ⟨front, back, hcells⟩ := List.append_of_mem hcell
  have hpairwise := hdistinct.2
  rw [hcells, List.pairwise_append, List.pairwise_cons] at hpairwise
  exact getElem?_flattenedRow hcells hzero (by omega) fun later h => (hpairwise.2.1.1 later h).symm

/-- A table has a column when it has a cell. -/
theorem columnCount_pos (hdistinct : ∀ row ∈ rows, DistinctColumns row) :
    0 < columnCount rows ↔ ∃ row ∈ rows, row.cells ≠ [] := by
  constructor
  · contrapose!
    intro hempty
    have hfold : ∀ (rows : List (TableRow α)) (count : Int), (∀ row ∈ rows, row.cells = []) →
        rows.foldl (fun count row => row.cells.foldl (fun count cell =>
          max count (cell.columnIndex + max 1 cell.columnSpan)) count) count = count := by
      intro rows
      induction rows with
      | nil => intro count _; rfl
      | cons row rows ih =>
        intro count h
        rw [List.foldl_cons, h row (List.mem_cons_self ..)]
        exact ih count fun other hother => h other (List.mem_cons_of_mem _ hother)
    exact (hfold rows 0 hempty).le
  · rintro ⟨row, hrow, hcells⟩
    obtain ⟨cell, hcell⟩ := List.exists_mem_of_ne_nil _ hcells
    have hzero := (hdistinct row hrow).1 cell hcell
    have hcount := le_columnCount hrow hcell
    omega

/-- **Lines.** The output is the lines of the table. -/
theorem filledLines_writeMarkdownTable (hmerged : hasMergedCells rows = false)
    (hcolumns : 0 < columnCount rows) :
    filledLines (writeMarkdownTable rows) = tableLines rows (columnCount rows).toNat := by
  have htext : (writeMarkdownTable rows).toList =
      terminated '\n' (tableLines rows (columnCount rows).toNat ++ [[]]) := by
    cases rows with
    | nil => exact absurd hcolumns (lt_irrefl 0)
    | cons header rest =>
      have hdelimiters : ∀ columns : Nat,
          ("|" ++ String.join (List.replicate columns " --- |") ++ "\n").toList =
            pipeLine (List.replicate columns "---") ++ ['\n'] := by
        intro columns
        rw [← toList_markdownRow]
        unfold markdownRow
        rw [List.map_replicate]
        rfl
      unfold writeMarkdownTable
      dsimp only
      rw [if_neg (by simp [hmerged]), if_neg (by omega)]
      have hsplit : ∀ a b c d e : String,
          (a ++ "|" ++ b ++ "\n" ++ c ++ d).toList =
            a.toList ++ (("|" ++ b ++ "\n").toList ++ (c.toList ++ d.toList)) := by
        intro a b c d e
        simp only [String.toList_append, List.append_assoc]
      rw [hsplit _ _ _ _ "", hdelimiters, toList_markdownRow, String.toList_join, List.flatMap_map]
      unfold terminated tableLines
      rw [List.cons_append, List.cons_append, List.flatMap_cons, List.flatMap_cons,
        List.flatMap_append, List.flatMap_map]
      simp only [toList_markdownRow]
      rfl
  refine filledLines_eq htext ?_ ?_
  · intro line hline
    rcases mem_tableLines hline with rfl | ⟨row, -, rfl⟩
    · apply newline_notMem_pipeLine
      intro value hvalue
      rw [List.eq_of_mem_replicate hvalue]
      decide
    · exact newline_notMem_pipeLine fun value h => newline_notMem_flattenedRow h
  · intro line hline
    rcases mem_tableLines hline with rfl | ⟨row, -, rfl⟩
    · exact pipeLine_ne_nil _
    · exact pipeLine_ne_nil _

/-- A table without a column is not written. -/
theorem filledLines_of_no_column (hmerged : hasMergedCells rows = false)
    (hcolumns : ¬ 0 < columnCount rows) : filledLines (writeMarkdownTable rows) = [] := by
  have htext : writeMarkdownTable rows = "" := by
    cases rows with
    | nil => rfl
    | cons header rest =>
      unfold writeMarkdownTable
      dsimp only
      rw [if_neg (by simp [hmerged]), if_pos (by omega)]
  rw [htext]
  rfl

/-- The pipes of a row are its columns when no text has an escaped one. -/
theorem unescapedPipes_row (hdistinct : DistinctColumns row) (hrow : row ∈ rows) :
    unescapedPipes (pipeLine (flattenedRow row (columnCount rows).toNat)) =
        (columnCount rows).toNat + 1 ↔ ∀ cell ∈ row.cells, ¬ HasEscapedPipe cell.text := by
  rw [unescapedPipes_pipeLine, length_flattenedRow]
  have hsum : (((flattenedRow row (columnCount rows).toNat).map fun value =>
      unescapedPipes value.toList).sum + (columnCount rows).toNat + 1 =
        (columnCount rows).toNat + 1) ↔
      ∀ value ∈ flattenedRow row (columnCount rows).toNat, unescapedPipes value.toList = 0 := by
    rw [← List.forall_mem_map (P := (· = 0)), ← List.sum_eq_zero_iff]
    omega
  rw [hsum]
  constructor
  · intro h cell hcell
    exact unescapedPipes_eq_zero.mp
      (h _ (List.mem_of_getElem? (flattenedRow_cell hdistinct hrow hcell)))
  · intro h value hvalue
    rcases mem_flattenedRow_elim hvalue with rfl | ⟨cell, hcell, rfl⟩
    · rfl
    · exact unescapedPipes_eq_zero.mpr (h cell hcell)

/-- **Pipe tables.** A table of single cells keeps its rows and columns exactly when it has a cell
and no text has a pipe behind an odd number of backslashes. -/
theorem pipe_table_iff (rows : List (TableRow α)) (hmerged : hasMergedCells rows = false)
    (hdistinct : ∀ row ∈ rows, DistinctColumns row) :
    PipeTable rows (filledLines (writeMarkdownTable rows)) ↔
      (∃ row ∈ rows, row.cells ≠ []) ∧
        ∀ row ∈ rows, ∀ cell ∈ row.cells, ¬ HasEscapedPipe cell.text := by
  by_cases hcolumns : 0 < columnCount rows
  · rw [filledLines_writeMarkdownTable hmerged hcolumns, ← columnCount_pos hdistinct]
    have hpipes := fun row hrow => unescapedPipes_row (hdistinct row hrow) hrow
    constructor
    · intro htable
      refine ⟨hcolumns, fun row hrow => (hpipes row hrow).mp ?_⟩
      obtain ⟨i, hi⟩ := List.getElem?_of_mem hrow
      have hcount := htable.rectangular _ (List.mem_of_getElem? (getElem?_tableLines hi))
      omega
    · rintro ⟨-, hclean⟩
      have hvalues : ∀ row ∈ rows, ∀ value ∈ flattenedRow row (columnCount rows).toNat,
          unescapedPipes value.toList = 0 := by
        intro row hrow value hvalue
        rcases mem_flattenedRow_elim hvalue with rfl | ⟨cell, hcell, rfl⟩
        · rfl
        · exact unescapedPipes_eq_zero.mpr (hclean row hrow cell hcell)
      have hrows : rows ≠ [] := by
        rintro rfl
        exact absurd hcolumns (lt_irrefl 0)
      refine ⟨length_tableLines hrows, ?_, fun line hline => ?_, fun i row hi => ?_⟩
      · cases rows with
        | nil => exact absurd rfl hrows
        | cons header rest => rfl
      · rcases mem_tableLines hline with rfl | ⟨row, hrow, rfl⟩
        · rw [unescapedPipes_pipeLine, List.map_replicate, List.length_replicate,
            show unescapedPipes "---".toList = 0 by decide, List.sum_replicate, nsmul_zero]
          omega
        · rw [(hpipes row hrow).mpr (hclean row hrow)]
          omega
      · have hrow := List.mem_of_getElem? hi
        refine ⟨_, getElem?_tableLines hi, fun cell hcell => ?_⟩
        have hfield := flattenedRow_cell (hdistinct row hrow) hrow hcell
        have hlt := (List.getElem?_eq_some_iff.mp hfield).1
        rw [pipeFields_pipeLine (hvalues row hrow), List.cons_append, List.getElem?_cons_succ,
          List.getElem?_append_left (by rw [List.length_map]; exact hlt), List.getElem?_map, hfield]
        rfl
  · rw [filledLines_of_no_column hmerged hcolumns, ← columnCount_pos hdistinct]
    constructor
    · intro htable
      exact absurd htable.length (by simp)
    · exact fun h => absurd h.1 hcolumns

end Rows

/-! ## A table with a sparse row -/

/-- A row with its texts at their columns. -/
def pipeRow (header : Bool) (texts : List (Nat × String)) : TableRow ℚ :=
  ⟨0, ⟨0, 0, 20, 10⟩, 1, header, texts.map fun p =>
    ⟨0, p.1, 1, 1, header, p.2, ⟨0, 0, 20, 10⟩, 1, []⟩⟩

def pipeRows : List (TableRow ℚ) :=
  [pipeRow true [(1, "a|b"), (0, "c\\")], pipeRow false [(1, "d\ne")]]

/-- A pipe and a backslash, but not one behind the other. -/
theorem pipe_table_iff_sparse :
    writeMarkdownTable pipeRows = "| c\\ | a\\|b |\n| --- | --- |\n|  | d<br>e |\n\n" ∧
      PipeTable pipeRows (filledLines (writeMarkdownTable pipeRows)) := by
  have hclean : ∀ row ∈ pipeRows, ∀ cell ∈ row.cells,
      unescapedPipes (markdownEscape cell.text).toList = 0 := by decide +kernel
  refine ⟨by decide +kernel, (pipe_table_iff pipeRows (by decide +kernel)
    (by unfold DistinctColumns; decide +kernel)).mpr ⟨by decide +kernel, ?_⟩⟩
  exact fun row hrow cell hcell => unescapedPipes_eq_zero.mp (hclean row hrow cell hcell)

/-- A backslash of the text escapes the escape of its pipe. -/
theorem backslash_splits_cell :
    hasMergedCells [pipeRow true [(0, "a\\|b")]] = false ∧
      (∀ row ∈ [pipeRow true [(0, "a\\|b")]], DistinctColumns row) ∧
      columnCount [pipeRow true [(0, "a\\|b")]] = 1 ∧
      writeMarkdownTable [pipeRow true [(0, "a\\|b")]] = "| a\\\\|b |\n| --- |\n\n" ∧
      (filledLines (writeMarkdownTable [pipeRow true [(0, "a\\|b")]])).map unescapedPipes =
        [3, 2] ∧
      ¬ PipeTable [pipeRow true [(0, "a\\|b")]]
        (filledLines (writeMarkdownTable [pipeRow true [(0, "a\\|b")]])) := by
  refine ⟨by decide +kernel, ?_, by decide +kernel, by decide +kernel, by decide +kernel, ?_⟩
  · unfold DistinctColumns
    decide +kernel
  · intro htable
    have hpipes := htable.rectangular ((filledLines
      (writeMarkdownTable [pipeRow true [(0, "a\\|b")]])).head (by decide +kernel))
      (List.head_mem _)
    revert hpipes
    decide +kernel

end DocParser.Export
