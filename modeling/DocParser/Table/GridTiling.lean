import DocParser.Lib.Tilings
import DocParser.Table.StructureGrid

/-!
# Tiling of the grid of a table

A merged cell is written as a rectangle from its first row and column, with as many rows and
columns as its box covers; consumed are the slots of the rows and columns that it covers, whether
they are adjacent or another merged cell has them already. So the cells tile the grid exactly where
the merged boxes cover adjacent rows and columns and no slot twice (`grid_tiles_iff`).

The proof follows the slots of the cells through both loops: what the merged cells draw, what they
mark (`Placing`), and the free slots that the second loop fills (`buildGrid_slots`).
-/

namespace DocParser.TableTransformer

open Document Tilings

/-! ## Tilings by cells -/

section Cells

variable {α : Type}

/-- The slot is in the rectangle of the cell. -/
def Occupies (cell : TableCell α) (row column : Nat) : Prop :=
  (cell.rowIndex ≤ row ∧ (row : Int) < cell.rowIndex + cell.rowSpan) ∧
    (cell.columnIndex ≤ column ∧ (column : Int) < cell.columnIndex + cell.columnSpan)

instance (cell : TableCell α) (row column : Nat) : Decidable (Occupies cell row column) :=
  inferInstanceAs (Decidable ((_ ∧ _) ∧ (_ ∧ _)))

def tableCells (table : Table α) : List (TableCell α) := table.rows.flatMap TableRow.cells

/-- Every slot of the grid is in exactly one cell, and no cell leaves the grid. -/
structure Tiles (table : Table α) : Prop where
  once : ∀ row < table.rows.length, ∀ column < table.columns.length,
    (tableCells table).countP (fun cell => Occupies cell row column) = 1
  inside : ∀ cell ∈ tableCells table,
    (0 ≤ cell.rowIndex ∧ cell.rowIndex + cell.rowSpan ≤ table.rows.length) ∧
      (0 ≤ cell.columnIndex ∧ cell.columnIndex + cell.columnSpan ≤ table.columns.length)

/-- The slots in the rectangle of a cell. -/
def slots (cell : TableCell α) : List (ℕ × ℕ) :=
  rectangle cell.rowIndex.toNat cell.columnIndex.toNat cell.rowSpan.toNat cell.columnSpan.toNat

/-- The cell begins at a slot and has one at least. -/
def Proper (cell : TableCell α) : Prop :=
  (0 ≤ cell.rowIndex ∧ 0 < cell.rowSpan) ∧ (0 ≤ cell.columnIndex ∧ 0 < cell.columnSpan)

theorem mem_slots {cell : TableCell α} (h : Proper cell) {row column : Nat} :
    (row, column) ∈ slots cell ↔ Occupies cell row column := by
  obtain ⟨⟨hr, hrs⟩, hc, hcs⟩ := h
  rw [slots, mem_rectangle]
  unfold Occupies
  constructor <;> intro h <;> dsimp only at h ⊢ <;> omega

/-- A slot occurs among the slots of some cells as often as cells occupy it. -/
theorem count_slots {cells : List (TableCell α)} (h : ∀ cell ∈ cells, Proper cell)
    (row column : Nat) :
    (cells.flatMap slots).count (row, column) =
      cells.countP fun cell => Occupies cell row column := by
  induction cells with
  | nil => rfl
  | cons cell cells ih =>
    obtain ⟨hcell, hcells⟩ := List.forall_mem_cons.mp h
    rw [List.flatMap_cons, List.count_append, ih hcells, List.countP_cons, Nat.add_comm]
    congr 1
    have hnodup : (slots cell).Nodup := rectangle_nodup _ _ _ _
    rw [hnodup.count]
    simp only [mem_slots hcell, decide_eq_true_eq]

/-- The slots of a grid. -/
def gridSlots (rows columns : Nat) : List (ℕ × ℕ) := box (List.range rows) (List.range columns)

theorem mem_gridSlots {rows columns : Nat} {s : ℕ × ℕ} :
    s ∈ gridSlots rows columns ↔ s.1 < rows ∧ s.2 < columns := by
  rw [gridSlots, mem_box, List.mem_range, List.mem_range]

theorem gridSlots_nodup (rows columns : Nat) : (gridSlots rows columns).Nodup :=
  box_nodup List.nodup_range List.nodup_range

/-- Cells tile a grid where their slots are those of the grid. -/
theorem tiles_iff_perm {table : Table α} (h : ∀ cell ∈ tableCells table, Proper cell) :
    Tiles table ↔ ((tableCells table).flatMap slots).Perm
      (gridSlots table.rows.length table.columns.length) := by
  constructor
  · rintro ⟨honce, hinside⟩
    apply List.perm_iff_count.mpr
    rintro ⟨row, column⟩
    rw [(gridSlots_nodup _ _).count]
    simp only [mem_gridSlots]
    split
    next hin =>
      rw [count_slots h]
      exact honce row hin.1 column hin.2
    next hout =>
      rw [List.count_eq_zero]
      intro hmem
      obtain ⟨cell, hcell, hslot⟩ := List.mem_flatMap.mp hmem
      have hocc := (mem_slots (h cell hcell)).mp hslot
      have hin := hinside cell hcell
      unfold Occupies at hocc
      omega
  · intro hperm
    refine ⟨fun row hrow column hcolumn => ?_, fun cell hcell => ?_⟩
    · rw [← count_slots h, hperm.count_eq, (gridSlots_nodup _ _).count]
      exact if_pos (mem_gridSlots.mpr ⟨hrow, hcolumn⟩)
    · -- the last slot of the cell is in the grid
      obtain ⟨⟨hr, hrs⟩, hc, hcs⟩ := h cell hcell
      have hlast : ((cell.rowIndex + cell.rowSpan - 1).toNat,
          (cell.columnIndex + cell.columnSpan - 1).toNat) ∈ slots cell := by
        rw [mem_slots ⟨⟨hr, hrs⟩, hc, hcs⟩]
        unfold Occupies
        omega
      have hin := mem_gridSlots.mp (hperm.mem_iff.mp (List.mem_flatMap.mpr ⟨cell, hcell, hlast⟩))
      dsimp only at hin
      omega

/-- The slots of the cells in some rows. -/
def rowSlots (rows : List (TableRow α)) : List (ℕ × ℕ) :=
  rows.flatMap fun row => row.cells.flatMap slots

theorem tableCells_slots (table : Table α) :
    (tableCells table).flatMap slots = rowSlots table.rows := List.flatMap_assoc

/-- Slots that are added to one row are added to the rows. -/
theorem rowSlots_modify {f : TableRow α → TableRow α} {added : List (ℕ × ℕ)}
    (hf : ∀ row : TableRow α,
      ((f row).cells.flatMap slots).Perm (row.cells.flatMap slots ++ added))
    (rows : List (TableRow α)) :
    ∀ i < rows.length, (rowSlots (rows.modify i f)).Perm (rowSlots rows ++ added) := by
  induction rows with
  | nil => exact fun i hi => absurd hi (Nat.not_lt_zero i)
  | cons row rows ih =>
    rintro (_ | i) hi
    · show ((f row).cells.flatMap slots ++ rowSlots rows).Perm
        (row.cells.flatMap slots ++ rowSlots rows ++ added)
      refine ((hf row).append_right _).trans ?_
      rw [List.append_assoc, List.append_assoc]
      exact List.perm_append_comm.append_left _
    · show (row.cells.flatMap slots ++ rowSlots (rows.modify i f)).Perm
        (row.cells.flatMap slots ++ rowSlots rows ++ added)
      rw [List.append_assoc]
      exact (ih i (Nat.lt_of_succ_lt_succ hi)).append_left _

theorem proper_modify {f : TableRow α → TableRow α}
    (hf : ∀ row : TableRow α, (∀ cell ∈ row.cells, Proper cell) →
      ∀ cell ∈ (f row).cells, Proper cell)
    {rows : List (TableRow α)} (h : ∀ row ∈ rows, ∀ cell ∈ row.cells, Proper cell) (i : Nat) :
    ∀ row ∈ rows.modify i f, ∀ cell ∈ row.cells, Proper cell := by
  intro row hrow
  obtain ⟨j, hj, rfl⟩ := List.mem_iff_getElem.mp hrow
  rw [List.getElem_modify]
  split
  · exact hf _ (h _ (List.getElem_mem _))
  · exact h _ (List.getElem_mem _)

end Cells

/-! ## Slots that are covered -/

section Covered

/-- The marks of a grid. -/
def Shaped (rows columns : Nat) (covered : List (List Bool)) : Prop :=
  covered.length = rows ∧ ∀ row < rows, (covered.getD row []).length = columns

/-- The step marks exactly the slots of a set. -/
def Marks (rows columns : Nat) (step : List (List Bool) → List (List Bool))
    (marked : Nat → Nat → Prop) : Prop :=
  ∀ covered, Shaped rows columns covered → Shaped rows columns (step covered) ∧
    ∀ row column, isCovered (step covered) row column = true ↔
      marked row column ∨ isCovered covered row column = true

variable {rows columns : Nat}

theorem shaped_replicate :
    Shaped rows columns (List.replicate rows (List.replicate columns false)) := by
  refine ⟨List.length_replicate, fun row hrow => ?_⟩
  rw [List.getD_eq_getElem?_getD, List.getElem?_replicate, if_pos hrow, Option.getD_some,
    List.length_replicate]

theorem isCovered_replicate (row column : Nat) :
    isCovered (List.replicate rows (List.replicate columns false)) row column = false := by
  unfold isCovered
  simp only [List.getD_eq_getElem?_getD, List.getElem?_replicate]
  by_cases hrow : row < rows <;> by_cases hcolumn : column < columns <;> simp [hrow, hcolumn]

theorem marks_slot {row column : Nat} (hrow : row < rows) (hcolumn : column < columns) :
    Marks rows columns (fun covered => covered.modify row fun line => line.set column true)
      fun r c => r = row ∧ c = column := by
  rintro covered ⟨hlength, hlines⟩
  have hline : ∀ r, (covered.modify row fun line => line.set column true).getD r [] =
      if r = row then (covered.getD r []).set column true else covered.getD r [] := by
    intro r
    rw [List.getD_eq_getElem?_getD, List.getD_eq_getElem?_getD, List.getElem?_modify]
    by_cases hr : r = row
    · subst hr
      have : r < covered.length := by omega
      simp [List.getElem?_eq_getElem this]
    · simp [hr, Ne.symm hr]
  refine ⟨⟨by rw [List.length_modify, hlength], fun r hr => ?_⟩, fun r c => ?_⟩
  · rw [hline]
    split
    · rw [List.length_set, hlines r hr]
    · exact hlines r hr
  · unfold isCovered
    rw [hline]
    split
    next hr =>
      subst hr
      have hlen := hlines r hrow
      generalize covered.getD r [] = line at hlen
      rw [List.getD_eq_getElem?_getD, List.getElem?_set]
      by_cases hc : c = column
      · subst hc
        simp [hlen, hcolumn]
      · simp [hc, Ne.symm hc]
    next hr => simp [hr]

theorem marks_foldl {τ : Type} {step : List (List Bool) → τ → List (List Bool)}
    {marked : τ → Nat → Nat → Prop} {l : List τ}
    (h : ∀ x ∈ l, Marks rows columns (fun covered => step covered x) (marked x)) :
    Marks rows columns (fun covered => l.foldl step covered)
      fun row column => ∃ x ∈ l, marked x row column := by
  induction l with
  | nil => exact fun covered hshaped => ⟨hshaped, by simp⟩
  | cons x l ih =>
    obtain ⟨hx, hl⟩ := List.forall_mem_cons.mp h
    intro covered hshaped
    obtain ⟨hstep, hmarked⟩ := hx covered hshaped
    obtain ⟨hrest, hcovered⟩ := ih hl _ hstep
    refine ⟨hrest, fun row column => ?_⟩
    refine (hcovered row column).trans ?_
    rw [hmarked]
    simp only [List.mem_cons, exists_eq_or_imp]
    rw [or_left_comm, or_assoc]

theorem marks_markCovered {coveredRows coveredColumns : List Nat}
    (hrows : ∀ row ∈ coveredRows, row < rows)
    (hcolumns : ∀ column ∈ coveredColumns, column < columns) :
    Marks rows columns (markCovered coveredRows coveredColumns)
      fun row column => (row, column) ∈ box coveredRows coveredColumns := by
  have hslots := marks_foldl (l := coveredRows) fun row hrow => marks_foldl fun column hcolumn =>
    marks_slot (hrows row hrow) (hcolumns column hcolumn)
  intro covered hshaped
  obtain ⟨hstep, hmarked⟩ := hslots covered hshaped
  refine ⟨hstep, fun row column => (hmarked row column).trans (or_congr_left ?_)⟩
  refine Iff.trans ?_ mem_box.symm
  constructor
  · rintro ⟨r, hr, c, hc, rfl, rfl⟩
    exact ⟨hr, hc⟩
  · rintro ⟨hr, hc⟩
    exact ⟨row, hr, column, hc, rfl, rfl⟩

end Covered

/-! ## Placing of the cells -/

section Placing

variable {α : Type} [Double α]

theorem indicesCoveredBy_sublist (low high : α) (center : BBox α → α)
    (objects : List (Prediction α)) :
    (indicesCoveredBy low high center objects).Sublist (List.range objects.length) := by
  have h : objects.zipIdx.map Prod.snd = List.range objects.length := by
    rw [List.zipIdx_map_snd, List.range_eq_range']
  rw [← h]
  exact List.filter_sublist.map Prod.snd

theorem indicesCoveredBy_lt {low high : α} {center : BBox α → α} {objects : List (Prediction α)}
    {i : Nat} (h : i ∈ indicesCoveredBy low high center objects) : i < objects.length :=
  List.mem_range.mp ((indicesCoveredBy_sublist low high center objects).subset h)

theorem indicesCoveredBy_sorted (low high : α) (center : BBox α → α)
    (objects : List (Prediction α)) :
    (indicesCoveredBy low high center objects).Pairwise (· < ·) :=
  List.pairwise_lt_range.sublist (indicesCoveredBy_sublist low high center objects)

theorem rowsCoveredBy_sorted (bbox : BBox α) (rows : List (Prediction α)) :
    (rowsCoveredBy bbox rows).Pairwise (· < ·) := indicesCoveredBy_sorted _ _ _ rows

theorem columnsCoveredBy_sorted (bbox : BBox α) (columns : List (Prediction α)) :
    (columnsCoveredBy bbox columns).Pairwise (· < ·) := indicesCoveredBy_sorted _ _ _ columns

variable (objects : Objects α)

/-- The slots that a merged object consumes. -/
def consumed (object : Prediction α) : List (ℕ × ℕ) :=
  box (rowsCoveredBy object.bbox objects.rows) (columnsCoveredBy object.bbox objects.columns)

/-- The slots of the cell that is placed for a merged object. -/
def drawn (object : Prediction α) : List (ℕ × ℕ) :=
  let rows := rowsCoveredBy object.bbox objects.rows
  let columns := columnsCoveredBy object.bbox objects.columns
  rectangle (rows.headD 0) (columns.headD 0) rows.length columns.length

/-- The object covers the centres of a row and a column. -/
def isPlaced (object : Prediction α) : Bool :=
  !(rowsCoveredBy object.bbox objects.rows).isEmpty &&
    !(columnsCoveredBy object.bbox objects.columns).isEmpty

/-- The rows and marks while merged objects are placed. -/
structure Placing (state : List (TableRow α) × List (List Bool))
    (placed : List (Prediction α)) : Prop where
  length : state.1.length = objects.rows.length
  proper : ∀ row ∈ state.1, ∀ cell ∈ row.cells, Proper cell
  cells : (rowSlots state.1).Perm (placed.flatMap (drawn objects))
  shaped : Shaped objects.rows.length objects.columns.length state.2
  covered : ∀ row column, isCovered state.2 row column = true ↔
    (row, column) ∈ placed.flatMap (consumed objects)

variable {objects}

theorem isPlaced_iff {object : Prediction α} : isPlaced objects object = true ↔
    (∃ r rs, rowsCoveredBy object.bbox objects.rows = r :: rs) ∧
      ∃ c cs, columnsCoveredBy object.bbox objects.columns = c :: cs := by
  unfold isPlaced
  rw [Bool.and_eq_true, Bool.not_eq_true', Bool.not_eq_true', List.isEmpty_eq_false_iff,
    List.isEmpty_eq_false_iff, List.ne_nil_iff_exists_cons, List.ne_nil_iff_exists_cons]

/-- The cell of a merged object is over a slot at least. -/
theorem mergedCell_proper {object : Prediction α} (h : isPlaced objects object = true) :
    Proper (mergedCell objects object (rowsCoveredBy object.bbox objects.rows)
      (columnsCoveredBy object.bbox objects.columns)) := by
  obtain ⟨⟨r, rs, hrows⟩, c, cs, hcolumns⟩ := isPlaced_iff.mp h
  rw [hrows, hcolumns]
  show (0 ≤ (r : Int) ∧ 0 < ((rs.length + 1 : Nat) : Int)) ∧
    (0 ≤ (c : Int) ∧ 0 < ((cs.length + 1 : Nat) : Int))
  omega

theorem firstRow_lt {object : Prediction α} (h : isPlaced objects object = true) :
    (rowsCoveredBy object.bbox objects.rows).headD 0 < objects.rows.length := by
  obtain ⟨⟨r, rs, hrows⟩, -⟩ := isPlaced_iff.mp h
  have hmem : r ∈ rowsCoveredBy object.bbox objects.rows := by
    rw [hrows]
    exact List.mem_cons_self ..
  rw [hrows]
  exact indicesCoveredBy_lt hmem

theorem mergedCell_slots (object : Prediction α) (rows columns : List Nat) :
    slots (mergedCell objects object rows columns) =
      rectangle (rows.headD 0) (columns.headD 0) rows.length columns.length := rfl

theorem plainCell_slots (isHeader : Bool) (row column : Prediction α) (r c : Nat) :
    slots (plainCell isHeader row column r c) = [(r, c)] := rfl

theorem Placing.step {state : List (TableRow α) × List (List Bool)}
    {placed : List (Prediction α)} (h : Placing objects state placed) (object : Prediction α) :
    Placing objects (placeMerged objects state object)
      (placed ++ [object].filter (isPlaced objects)) := by
  unfold placeMerged
  dsimp only
  split
  next hempty =>
    have hnot : isPlaced objects object = false := by
      unfold isPlaced
      rw [← Bool.not_or, hempty, Bool.not_true]
    rw [List.filter_cons_of_neg (by rw [hnot]; exact Bool.false_ne_true), List.filter_nil,
      List.append_nil]
    exact h
  next hnonempty =>
    have hplaced : isPlaced objects object = true := by
      unfold isPlaced
      rw [← Bool.not_or, Bool.not_eq_true']
      exact Bool.eq_false_iff.mpr hnonempty
    rw [List.filter_cons_of_pos hplaced, List.filter_nil]
    have hrowslt : ∀ row ∈ rowsCoveredBy object.bbox objects.rows, row < objects.rows.length :=
      fun row hrow => indicesCoveredBy_lt hrow
    have hcolumnslt : ∀ column ∈ columnsCoveredBy object.bbox objects.columns,
        column < objects.columns.length := fun column hcolumn => indicesCoveredBy_lt hcolumn
    obtain ⟨hshaped, hmarked⟩ := marks_markCovered hrowslt hcolumnslt _ h.shaped
    constructor
    · show (List.modify _ _ _).length = _
      rw [List.length_modify]
      exact h.length
    · refine proper_modify (fun row hrow cell hcell => ?_) h.proper _
      rcases List.mem_append.mp hcell with hcell | hcell
      · exact hrow cell hcell
      · rw [List.mem_singleton.mp hcell]
        exact mergedCell_proper hplaced
    · rw [List.flatMap_append, List.flatMap_singleton]
      refine (rowSlots_modify (fun row => ?_) state.1 _ (h.length ▸ firstRow_lt hplaced)).trans
        (h.cells.append_right (drawn objects object))
      rw [List.flatMap_append, List.flatMap_singleton, mergedCell_slots]
      exact List.Perm.refl _
    · exact hshaped
    · intro row column
      refine (hmarked row column).trans ?_
      rw [h.covered, List.flatMap_append, List.flatMap_singleton, List.mem_append, or_comm]
      rfl

theorem Placing.run (merged : List (Prediction α)) :
    ∀ {state : List (TableRow α) × List (List Bool)} {placed : List (Prediction α)},
      Placing objects state placed →
      Placing objects (merged.foldl (placeMerged objects) state)
        (placed ++ merged.filter (isPlaced objects)) := by
  induction merged with
  | nil =>
    intro state placed h
    rw [List.filter_nil, List.append_nil]
    exact h
  | cons object merged ih =>
    intro state placed h
    have hrest := ih (h.step object)
    rw [List.append_assoc, ← List.filter_append] at hrest
    exact hrest

/-! ## Filling of the rows -/

/-- The slots of a row that are not covered. -/
def freeInRow (covered : List (List Bool)) (columns row : Nat) : List (ℕ × ℕ) :=
  ((List.range columns).filter fun column => !isCovered covered row column).map (Prod.mk row)

theorem plainCells_slots (covered : List (List Bool)) (isHeader : Bool) (row : Prediction α)
    (rowIndex : Nat) :
    (plainCells objects covered isHeader row rowIndex).flatMap slots =
      freeInRow covered objects.columns.length rowIndex := by
  have hcolumns : ∀ columns : List (Prediction α × Nat),
      (columns.filterMap fun column => if isCovered covered rowIndex column.2 then none
        else some (plainCell isHeader row column.1 rowIndex column.2)).flatMap slots =
      ((columns.map Prod.snd).filter fun column => !isCovered covered rowIndex column).map
        (Prod.mk rowIndex) := by
    intro columns
    induction columns with
    | nil => rfl
    | cons column columns ih =>
      rw [List.map_cons]
      cases hcov : isCovered covered rowIndex column.2
      · rw [List.filterMap_cons_some (by rw [hcov]; rfl), List.flatMap_cons, ih,
          List.filter_cons_of_pos (by rw [hcov]; rfl), plainCell_slots]
        rfl
      · rw [List.filterMap_cons_none (by rw [hcov]; rfl), ih,
          List.filter_cons_of_neg (by rw [hcov]; exact Bool.false_ne_true)]
  rw [plainCells, hcolumns, freeInRow, List.zipIdx_map_snd, ← List.range_eq_range']

theorem plainCells_proper {covered : List (List Bool)} {isHeader : Bool} {row : Prediction α}
    {rowIndex : Nat} {cell : TableCell α}
    (h : cell ∈ plainCells objects covered isHeader row rowIndex) : Proper cell := by
  obtain ⟨column, -, hcell⟩ := List.mem_filterMap.mp h
  split at hcell
  · cases hcell
  · rw [← Option.some.inj hcell]
    unfold Proper plainCell
    dsimp only
    omega

theorem fillRow_slots (covered : List (List Bool)) {rows : List (TableRow α)}
    {row : Prediction α × Nat} (hrow : row.2 < rows.length) :
    (rowSlots (fillRow objects covered rows row)).Perm
      (rowSlots rows ++ freeInRow covered objects.columns.length row.2) := by
  refine rowSlots_modify (fun tableRow => ?_) rows row.2 hrow
  rw [← plainCells_slots covered tableRow.isHeader row.1, ← List.flatMap_append]
  exact (sortBy_perm _ _).flatMap_right slots

theorem fillRow_proper (covered : List (List Bool)) {rows : List (TableRow α)}
    (h : ∀ row ∈ rows, ∀ cell ∈ row.cells, Proper cell) (row : Prediction α × Nat) :
    ∀ tableRow ∈ fillRow objects covered rows row, ∀ cell ∈ tableRow.cells, Proper cell := by
  refine proper_modify (fun tableRow hproper cell hcell => ?_) h row.2
  rcases List.mem_append.mp ((sortBy_perm _ _).mem_iff.mp hcell) with hcell | hcell
  · exact hproper cell hcell
  · exact plainCells_proper hcell

theorem fillRow_length (covered : List (List Bool)) (rows : List (TableRow α))
    (row : Prediction α × Nat) : (fillRow objects covered rows row).length = rows.length :=
  List.length_modify ..

theorem fillRows_spec (covered : List (List Bool)) (indexed : List (Prediction α × Nat)) :
    ∀ rows : List (TableRow α), (∀ row ∈ indexed, row.2 < rows.length) →
      (∀ row ∈ rows, ∀ cell ∈ row.cells, Proper cell) →
      let filled := indexed.foldl (fillRow objects covered) rows
      (rowSlots filled).Perm (rowSlots rows ++
          indexed.flatMap fun row => freeInRow covered objects.columns.length row.2) ∧
        (∀ row ∈ filled, ∀ cell ∈ row.cells, Proper cell) ∧ filled.length = rows.length := by
  induction indexed with
  | nil =>
    intro rows _ hproper
    refine ⟨?_, hproper, rfl⟩
    rw [List.flatMap_nil, List.append_nil]
    exact List.Perm.refl _
  | cons row indexed ih =>
    intro rows hlt hproper
    obtain ⟨hrow, hindexed⟩ := List.forall_mem_cons.mp hlt
    obtain ⟨hslots, hproper', hlength⟩ := ih (fillRow objects covered rows row)
      (fun r hr => by rw [fillRow_length]; exact hindexed r hr) (fillRow_proper covered hproper row)
    refine ⟨hslots.trans ?_, hproper', hlength.trans (fillRow_length covered rows row)⟩
    rw [List.flatMap_cons, ← List.append_assoc]
    exact (fillRow_slots covered hrow).append_right _

omit [Double α] in
/-- The rows leave free what the grid leaves free. -/
theorem freeInRow_zipIdx (covered : List (List Bool)) (rows : List (Prediction α))
    (columns : Nat) :
    rows.zipIdx.flatMap (fun row => freeInRow covered columns row.2) =
      (gridSlots rows.length columns).filter fun s => !isCovered covered s.1 s.2 := by
  have hrows : rows.zipIdx.flatMap (fun row => freeInRow covered columns row.2) =
      (rows.zipIdx.map Prod.snd).flatMap (freeInRow covered columns) := by
    rw [List.flatMap_map]
  have hgrid : gridSlots rows.length columns =
      (List.range rows.length).flatMap fun row => (List.range columns).map (Prod.mk row) := rfl
  rw [hrows, List.zipIdx_map_snd, ← List.range_eq_range', hgrid, List.filter_flatMap]
  congr 1
  funext row
  rw [List.filter_map]
  rfl

end Placing

/-! ## The grid -/

section Grid

variable {α : Type} [Double α]

/-- The indices follow each other without a gap. -/
def Consecutive (indices : List Nat) : Prop :=
  indices = List.range' (indices.headD 0) indices.length

instance (indices : List Nat) : Decidable (Consecutive indices) :=
  inferInstanceAs (Decidable (_ = _))

/-- Merged objects cover consecutive rows and columns, and no two of them have a row and a column
in common. -/
structure FitsGrid (objects : Objects α) : Prop where
  consecutive : ∀ object ∈ objects.merged, isPlaced objects object = true →
    Consecutive (rowsCoveredBy object.bbox objects.rows) ∧
      Consecutive (columnsCoveredBy object.bbox objects.columns)
  apart : objects.merged.Pairwise fun lhs rhs =>
    (rowsCoveredBy lhs.bbox objects.rows).Disjoint (rowsCoveredBy rhs.bbox objects.rows) ∨
      (columnsCoveredBy lhs.bbox objects.columns).Disjoint
        (columnsCoveredBy rhs.bbox objects.columns)

variable {objects : Objects α} {object : Prediction α}

theorem consumed_nodup (object : Prediction α) : (consumed objects object).Nodup :=
  box_nodup (rowsCoveredBy_sorted object.bbox objects.rows).nodup
    (columnsCoveredBy_sorted object.bbox objects.columns).nodup

theorem consumed_subset (object : Prediction α) :
    consumed objects object ⊆ gridSlots objects.rows.length objects.columns.length := by
  intro s hs
  obtain ⟨hr, hc⟩ := mem_box.mp hs
  exact mem_gridSlots.mpr ⟨indicesCoveredBy_lt hr, indicesCoveredBy_lt hc⟩

theorem drawn_length (object : Prediction α) :
    (drawn objects object).length = (consumed objects object).length := by
  unfold drawn consumed rectangle
  rw [box_length, box_length, List.length_range', List.length_range']

theorem drawn_weight_le (h : isPlaced objects object = true) :
    ((drawn objects object).map slotWeight).sum ≤
      ((consumed objects object).map slotWeight).sum := by
  obtain ⟨⟨r, rs, hrows⟩, c, cs, hcolumns⟩ := isPlaced_iff.mp h
  have hr := rowsCoveredBy_sorted object.bbox objects.rows
  have hc := columnsCoveredBy_sorted object.bbox objects.columns
  unfold drawn consumed
  rw [hrows, hcolumns]
  exact rectangle_weight_le (hrows ▸ hr) (hcolumns ▸ hc)

theorem consecutive_of_weight (h : isPlaced objects object = true)
    (hweight : ((drawn objects object).map slotWeight).sum =
      ((consumed objects object).map slotWeight).sum) :
    Consecutive (rowsCoveredBy object.bbox objects.rows) ∧
      Consecutive (columnsCoveredBy object.bbox objects.columns) := by
  obtain ⟨⟨r, rs, hrows⟩, c, cs, hcolumns⟩ := isPlaced_iff.mp h
  have hr := rowsCoveredBy_sorted object.bbox objects.rows
  have hc := columnsCoveredBy_sorted object.bbox objects.columns
  unfold drawn consumed at hweight
  rw [hrows, hcolumns] at hweight ⊢
  obtain ⟨hrange, hrange'⟩ := ranges_eq_of_weight (hrows ▸ hr) (hcolumns ▸ hc) hweight
  exact ⟨hrange.symm, hrange'.symm⟩

/-- A cell is drawn over the slots that it consumes where they are a rectangle. -/
theorem drawn_eq_consumed_iff (h : isPlaced objects object = true) :
    drawn objects object = consumed objects object ↔
      Consecutive (rowsCoveredBy object.bbox objects.rows) ∧
        Consecutive (columnsCoveredBy object.bbox objects.columns) := by
  constructor
  · intro heq
    exact consecutive_of_weight h (by rw [heq])
  · rintro ⟨hrows, hcolumns⟩
    show box (List.range' _ _) (List.range' _ _) = box _ _
    rw [← hrows, ← hcolumns]

theorem disjoint_box_iff {rows columns rows' columns' : List Nat} :
    (box rows columns).Disjoint (box rows' columns') ↔
      rows.Disjoint rows' ∨ columns.Disjoint columns' := by
  constructor
  · intro h
    by_contra hboth
    simp only [not_or, List.disjoint_left, not_forall, not_not] at hboth
    obtain ⟨⟨r, hr, hr'⟩, c, hc, hc'⟩ := hboth
    exact h (mem_box.mpr ⟨hr, hc⟩ : (r, c) ∈ _) (mem_box.mpr ⟨hr', hc'⟩)
  · rintro (h | h) s hs hs'
    · exact h (mem_box.mp hs).1 (mem_box.mp hs').1
    · exact h (mem_box.mp hs).2 (mem_box.mp hs').2

theorem fitsGrid_iff : FitsGrid objects ↔
    (objects.merged.filter (isPlaced objects)).Pairwise (fun lhs rhs =>
        (consumed objects lhs).Disjoint (consumed objects rhs)) ∧
      ∀ object ∈ objects.merged.filter (isPlaced objects),
        drawn objects object = consumed objects object := by
  have hnothing : ∀ object : Prediction α, isPlaced objects object = false →
      rowsCoveredBy object.bbox objects.rows = [] ∨
        columnsCoveredBy object.bbox objects.columns = [] := by
    intro object h
    simpa [isPlaced, or_iff_not_imp_left] using h
  rw [List.pairwise_filter]
  constructor
  · rintro ⟨hconsecutive, hapart⟩
    refine ⟨hapart.imp fun h _ _ => disjoint_box_iff.mpr h, fun object hobject => ?_⟩
    obtain ⟨hmerged, hplaced⟩ := List.mem_filter.mp hobject
    exact (drawn_eq_consumed_iff hplaced).mpr (hconsecutive object hmerged hplaced)
  · rintro ⟨hdisjoint, hdrawn⟩
    refine ⟨fun object hmerged hplaced => (drawn_eq_consumed_iff hplaced).mp
      (hdrawn object (List.mem_filter.mpr ⟨hmerged, hplaced⟩)), hdisjoint.imp fun {lhs rhs} h => ?_⟩
    -- an object that is not placed has nothing in common with others
    rcases hlhs : isPlaced objects lhs
    · rcases hnothing lhs hlhs with hempty | hempty <;> rw [hempty]
      · exact .inl (List.disjoint_nil_left _)
      · exact .inr (List.disjoint_nil_left _)
    rcases hrhs : isPlaced objects rhs
    · rcases hnothing rhs hrhs with hempty | hempty <;> rw [hempty]
      · exact .inl (List.disjoint_nil_right _)
      · exact .inr (List.disjoint_nil_right _)
    exact disjoint_box_iff.mp (h hlhs hrhs)

theorem placing_start (objects : Objects α) :
    Placing objects (tableRows objects,
      List.replicate objects.rows.length (List.replicate objects.columns.length false)) [] := by
  have hcells : ∀ row ∈ tableRows objects, row.cells = [] := by
    intro row hrow
    obtain ⟨object, -, rfl⟩ := List.mem_map.mp hrow
    rfl
  constructor
  · show (tableRows objects).length = _
    rw [tableRows, List.length_map, List.length_zipIdx]
  · intro row hrow cell hcell
    rw [hcells row hrow] at hcell
    cases hcell
  · have hslots : rowSlots (tableRows objects) = [] :=
      List.flatMap_eq_nil_iff.mpr fun row hrow => by rw [hcells row hrow]; rfl
    rw [hslots]
    exact List.Perm.refl _
  · exact shaped_replicate
  · intro row column
    rw [isCovered_replicate]
    simp

/-- The cells of the grid: those of the merged objects, and one for every slot that they leave. -/
theorem buildGrid_slots {table : Table α} {structure_ : List (Prediction α)}
    (hfresh : table.rows = [] ∧ table.columns = [])
    (hrows : (retainedObjects table.bbox structure_).rows ≠ [])
    (hcolumns : (retainedObjects table.bbox structure_).columns ≠ []) :
    let objects := retainedObjects table.bbox structure_
    let grid := gridSlots objects.rows.length objects.columns.length
    let built := buildGrid table structure_
    (∀ cell ∈ tableCells built, Proper cell) ∧ built.rows.length = objects.rows.length ∧
      built.columns.length = objects.columns.length ∧
      ((tableCells built).flatMap slots).Perm
        ((objects.merged.filter (isPlaced objects)).flatMap (drawn objects) ++
          free (consumed objects) (objects.merged.filter (isPlaced objects)) grid) := by
  intro objects grid built
  have hbuilt : built = { table with
      columns := tableColumns objects
      rows := objects.rows.zipIdx.foldl (fillRow objects (objects.merged.foldl
        (placeMerged objects) (tableRows objects, List.replicate objects.rows.length
          (List.replicate objects.columns.length false))).2)
        (objects.merged.foldl (placeMerged objects) (tableRows objects,
          List.replicate objects.rows.length
            (List.replicate objects.columns.length false))).1 } := by
    show buildGrid table structure_ = _
    unfold buildGrid
    dsimp only
    rw [if_neg (by simpa using ⟨hrows, hcolumns⟩), hfresh.1, hfresh.2]
    rfl
  have hplacing := (placing_start objects).run objects.merged
  rw [List.nil_append] at hplacing
  generalize objects.merged.foldl (placeMerged objects) _ = placed at hbuilt hplacing
  obtain ⟨hslots, hproper, hlength⟩ := fillRows_spec placed.2 objects.rows.zipIdx placed.1
    (fun row hrow => by
      rw [hplacing.length]
      simpa using List.snd_lt_add_of_mem_zipIdx hrow)
    hplacing.proper
  rw [hbuilt]
  refine ⟨fun cell hcell => ?_, hlength.trans hplacing.length, ?_, ?_⟩
  · obtain ⟨row, hrow, hcell⟩ := List.mem_flatMap.mp hcell
    exact hproper row hrow cell hcell
  · show (tableColumns objects).length = _
    rw [tableColumns, List.length_map, List.length_zipIdx]
  · rw [tableCells_slots]
    refine hslots.trans (hplacing.cells.append ?_)
    rw [freeInRow_zipIdx, filter_not_eq_free fun s => hplacing.covered s.1 s.2]

/-- **Tiling**: every slot is in exactly one cell and no cell leaves the grid, exactly where the
merged objects cover consecutive rows and columns and have no slot in common. -/
theorem grid_tiles_iff (table : Table α) (structure_ : List (Prediction α))
    (hfresh : table.rows = [] ∧ table.columns = [])
    (hrows : (retainedObjects table.bbox structure_).rows ≠ [])
    (hcolumns : (retainedObjects table.bbox structure_).columns ≠ []) :
    Tiles (buildGrid table structure_) ↔ FitsGrid (retainedObjects table.bbox structure_) := by
  obtain ⟨hproper, hlength, hlength', hslots⟩ := buildGrid_slots hfresh hrows hcolumns
  rw [tiles_iff_perm hproper, hlength, hlength', fitsGrid_iff]
  generalize retainedObjects table.bbox structure_ = objects at hslots ⊢
  have hplaced : ∀ object ∈ objects.merged.filter (isPlaced objects),
      isPlaced objects object = true := fun object hobject => (List.mem_filter.mp hobject).2
  have htiling := perm_grid_iff slotWeight (gridSlots_nodup _ _)
    (fun object _ => ⟨consumed_nodup object, consumed_subset object⟩)
    (fun object _ => drawn_length object)
    (fun object hobject => drawn_weight_le (hplaced object hobject))
    (fun object hobject hweight => (drawn_eq_consumed_iff (hplaced object hobject)).mpr
      (consecutive_of_weight (hplaced object hobject) hweight))
  exact Iff.trans ⟨hslots.symm.trans, hslots.trans⟩ htiling

end Grid

/-! ## A table of two rows and two columns -/

section Samples

def sampleTable : Table ℚ :=
  ⟨"page_1_table_1", "", 0, 1, ⟨0, 0, 20, 20⟩, 1, "table", "", false, false, [], [], [], .cells⟩

/-- Two rows and two columns, and spanning cells over some boxes. -/
def samplePredictions (spanning : List (BBox ℚ)) : List (Prediction ℚ) :=
  [⟨"table row", ⟨0, 0, 20, 10⟩, 1⟩, ⟨"table row", ⟨0, 10, 20, 20⟩, 1⟩,
    ⟨"table column", ⟨0, 0, 10, 20⟩, 1⟩, ⟨"table column", ⟨10, 0, 20, 20⟩, 1⟩] ++
    spanning.map fun bbox => ⟨"table spanning cell", bbox, 1⟩

instance decidableDisjoint (l l' : List Nat) : Decidable (l.Disjoint l') :=
  decidable_of_iff (∀ i ∈ l, i ∉ l') List.disjoint_left.symm

/-- A spanning cell over the first row. -/
theorem grid_tiles_iff_spanning :
    Tiles (buildGrid sampleTable (samplePredictions [⟨0, 0, 20, 8⟩])) :=
  (grid_tiles_iff sampleTable (samplePredictions [⟨0, 0, 20, 8⟩]) ⟨rfl, rfl⟩ (by decide +kernel)
    (by decide +kernel)).mpr ⟨by decide +kernel, by decide +kernel⟩

/-- Spanning cells over the first row and over the first column are both in the first slot. -/
theorem crossing_spans_overlap :
    (retainedObjects sampleTable.bbox
        (samplePredictions [⟨0, 0, 20, 8⟩, ⟨0, 0, 8, 20⟩])).rows ≠ [] ∧
      (retainedObjects sampleTable.bbox
        (samplePredictions [⟨0, 0, 20, 8⟩, ⟨0, 0, 8, 20⟩])).columns ≠ [] ∧
      ¬ Tiles (buildGrid sampleTable (samplePredictions [⟨0, 0, 20, 8⟩, ⟨0, 0, 8, 20⟩])) := by
  refine ⟨by decide +kernel, by decide +kernel, fun h => ?_⟩
  have htwice : (tableCells (buildGrid sampleTable
      (samplePredictions [⟨0, 0, 20, 8⟩, ⟨0, 0, 8, 20⟩]))).countP
        (fun cell => Occupies cell 0 0) = 2 := by decide +kernel
  have honce := h.once 0 (by decide +kernel) 0 (by decide +kernel)
  rw [htwice] at honce
  cases honce

end Samples

end DocParser.TableTransformer
