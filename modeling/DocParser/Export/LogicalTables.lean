import DocParser.Export.TableWords
import Mathlib.Data.List.TakeWhile

/-!
# Logical tables

A table that is linked over several blocks is written once, where the first of them stands.
`collected_once_iff`: the rows of the table blocks are collected once each exactly when no group
with a row of a table block starts with a block that is not a table block. Such a block is not
written, and the blocks behind it are taken for written.

1. A place is a block index and a row index. The rows are followed by running the exporter over
   rows that carry their places (`rowPlaces`).
2. One fragment adds its own rows in order (`foldl_addFragment`), so a logical table has the rows
   at its places, and these ascend (`placedRows_pairwise`).
3. Two tables that are written share no place (`rowPlaces_disjoint`).
-/

namespace DocParser.Export

open Document

section Definitions

variable {α : Type}

/-- The blocks whose logical tables are written. -/
def writtenTables (blocks : List (DocumentBlock α)) : List Nat :=
  (List.range blocks.length).filter fun index =>
    (blocks[index]?).any isTableBlock && !isContinuationAlreadyWritten blocks index

/-- A row that carries its place in a block as its confidence. -/
def placedRow (index : Nat) (p : TableRow α × Nat) : TableRow (Nat × Nat) :=
  ⟨p.1.rowIndex, ⟨(0, 0), (0, 0), (0, 0), (0, 0)⟩, (index, p.2), p.1.isHeader, []⟩

/-- A block with rows that carry their places. -/
def placedBlock (p : DocumentBlock α × Nat) : DocumentBlock (Nat × Nat) where
  id := p.1.id
  type := p.1.type
  sourceLabel := p.1.sourceLabel
  relatedBlockId := p.1.relatedBlockId
  pageIndex := p.1.pageIndex
  pageNumber := p.1.pageNumber
  bbox := ⟨(0, 0), (0, 0), (0, 0), (0, 0)⟩
  confidence := (0, 0)
  text := p.1.text
  textLineIndices := p.1.textLineIndices
  tableId := p.1.tableId
  tableContinuationGroupId := p.1.tableContinuationGroupId
  tableContinuesFromPreviousPage := p.1.tableContinuesFromPreviousPage
  tableContinuesOnNextPage := p.1.tableContinuesOnNextPage
  tableRows := p.1.tableRows.zipIdx.map (placedRow p.2)
  pageId := p.1.pageId
  sourceRefs := []

/-- The places of the rows of a logical table: what is collected of rows that carry them. -/
def rowPlaces (blocks : List (DocumentBlock α)) (first : Nat) : List (Nat × Nat) :=
  (logicalRows (blocks.zipIdx.map placedBlock) first).map (·.confidence)

def rowAt (blocks : List (DocumentBlock α)) (place : Nat × Nat) : Option (TableRow α) :=
  (blocks[place.1]?).bind fun block => block.tableRows[place.2]?

/-- Places by block order and then by row order. -/
def PlaceBefore (a b : Nat × Nat) : Prop := a.1 < b.1 ∨ a.1 = b.1 ∧ a.2 < b.2

/-- A leading header row of a block that continues a table of the previous page. -/
def RepeatedHeader (block : DocumentBlock α) (r : Nat) : Prop :=
  block.tableContinuesFromPreviousPage = true ∧
    ∀ i ≤ r, ∃ row, block.tableRows[i]? = some row ∧ row.isHeader = true

/-- The tables that are written have the rows of the table blocks once each. -/
structure CollectedOnce (blocks : List (DocumentBlock α)) : Prop where
  rows : ∀ first ∈ writtenTables blocks,
    (logicalRows blocks first).length = (rowPlaces blocks first).length ∧
      ∀ n place, (rowPlaces blocks first)[n]? = some place → ∃ row,
        rowAt blocks place = some row ∧ (logicalRows blocks first)[n]? = some (atRowIndex row n)
  indexed : ∀ first ∈ writtenTables blocks, ∀ (n : Nat) (row : TableRow α),
    (logicalRows blocks first)[n]? = some row →
      row.rowIndex = n ∧ ∀ cell ∈ row.cells, cell.rowIndex = row.rowIndex
  ordered : ∀ first ∈ writtenTables blocks, (rowPlaces blocks first).Pairwise PlaceBefore
  atMostOnce : ∀ place, ((writtenTables blocks).flatMap (rowPlaces blocks)).count place ≤ 1
  kept : ∀ index block r, blocks[index]? = some block → isTableBlock block = true →
    r < block.tableRows.length → ¬ RepeatedHeader block r →
      ((writtenTables blocks).flatMap (rowPlaces blocks)).count (index, r) = 1

end Definitions

/-! ## Fragments -/

section Fragments

variable {α β : Type}

/-- The rows that a fragment adds, with their indices in the block. -/
def fragmentRows (skip : Bool) (block : DocumentBlock α) : List (TableRow α × Nat) :=
  if skip && block.tableContinuesFromPreviousPage then
    block.tableRows.zipIdx.dropWhile (·.1.isHeader)
  else block.tableRows.zipIdx

/-- The rows of fragments with their places. -/
def placedRows : Bool → List (DocumentBlock α × Nat) → List (TableRow α × Nat × Nat)
  | _, [] => []
  | skip, p :: rest =>
    let own := (fragmentRows skip p.1).map fun q => (q.1, p.2, q.2)
    own ++ placedRows (skip || !own.isEmpty) rest

/-- The fragments of a logical table with their indices. -/
def placedFragments (blocks : List (DocumentBlock α)) (first : Nat) :
    List (DocumentBlock α × Nat) :=
  match blocks.zipIdx.drop first with
  | [] => []
  | p :: rest => p :: rest.filter fun q => sameLogicalTable p.1 q.1

/-- Blocks that are read from placed ones, and whose rows are read from placed rows. -/
structure Reading (f : DocumentBlock α × Nat → DocumentBlock β)
    (g : TableRow α × Nat × Nat → TableRow β) : Prop where
  same : ∀ p q, sameLogicalTable (f p) (f q) = sameLogicalTable p.1 q.1
  continues : ∀ p, (f p).tableContinuesFromPreviousPage = p.1.tableContinuesFromPreviousPage
  rows : ∀ p, (f p).tableRows = p.1.tableRows.zipIdx.map fun q => g (q.1, p.2, q.2)
  header : ∀ q, (g q).isHeader = q.1.isHeader

variable {f : DocumentBlock α × Nat → DocumentBlock β} {g : TableRow α × Nat × Nat → TableRow β}

theorem Reading.added (hread : Reading f g) (skip : Bool) (p : DocumentBlock α × Nat) :
    (if skip && (f p).tableContinuesFromPreviousPage then (f p).tableRows.dropWhile (·.isHeader)
      else (f p).tableRows) = (fragmentRows skip p.1).map fun q => g (q.1, p.2, q.2) := by
  unfold fragmentRows
  rw [hread.continues, hread.rows]
  split_ifs
  · rw [List.dropWhile_map]
    congr 2
    funext q
    exact hread.header _
  · rfl

/-- **Step.** The fragments add their rows at the next indices. -/
theorem Reading.foldl_addFragment (hread : Reading f g) (ps : List (DocumentBlock α × Nat)) :
    ∀ rows : List (TableRow β), (ps.map f).foldl addFragment rows =
      rows ++ (((placedRows (!rows.isEmpty) ps).map g).zipIdx rows.length).map fun p =>
        atRowIndex p.1 p.2 := by
  induction ps with
  | nil => intro rows; simp [placedRows]
  | cons p ps ih =>
    intro rows
    have hadd : addFragment rows (f p) =
        rows ++ ((((fragmentRows (!rows.isEmpty) p.1).map fun q => (q.1, p.2, q.2)).map g).zipIdx
          rows.length).map fun q => atRowIndex q.1 q.2 := by
      unfold addFragment
      dsimp only
      rw [hread.added, List.map_map]
      rfl
    rw [List.map_cons, List.foldl_cons, ih, hadd, placedRows]
    generalize (fragmentRows (!rows.isEmpty) p.1).map (fun q => (q.1, p.2, q.2)) = own
    have hskip : (!(rows ++ ((own.map g).zipIdx rows.length).map
        fun q => atRowIndex q.1 q.2).isEmpty) = (!rows.isEmpty || !own.isEmpty) := by
      cases rows <;> cases own <;> rfl
    rw [hskip, List.map_append, List.zipIdx_append, List.map_append, List.append_assoc]
    simp

/-- A logical table has the rows of its fragments. -/
theorem Reading.logicalRows_eq (hread : Reading f g) (blocks : List (DocumentBlock α))
    (first : Nat) : logicalRows (blocks.zipIdx.map f) first =
      (((placedRows false (placedFragments blocks first)).map g).zipIdx).map fun p =>
        atRowIndex p.1 p.2 := by
  have hfragments : logicalRows (blocks.zipIdx.map f) first =
      ((placedFragments blocks first).map f).foldl addFragment [] := by
    unfold logicalRows placedFragments
    rw [← List.map_drop]
    cases blocks.zipIdx.drop first with
    | nil => rfl
    | cons p rest =>
      simp only [List.map_cons]
      rw [List.filter_map]
      congr 4
      funext q
      exact hread.same p q
  rw [hfragments, hread.foldl_addFragment]
  rfl

theorem reading_fst : Reading (Prod.fst : DocumentBlock α × Nat → DocumentBlock α) Prod.fst :=
  ⟨fun _ _ => rfl, fun _ => rfl, fun _ => (List.zipIdx_map_fst 0 _).symm, fun _ => rfl⟩

theorem reading_placed : Reading (placedBlock (α := α))
    fun q => placedRow q.2.1 (q.1, q.2.2) :=
  ⟨fun _ _ => rfl, fun _ => rfl, fun _ => rfl, fun _ => rfl⟩

end Fragments

/-! ## Places -/

section Places

variable {α : Type} {blocks : List (DocumentBlock α)} {block : DocumentBlock α} {first : Nat}

theorem mem_fragmentRows {skip : Bool} {q : TableRow α × Nat} (h : q ∈ fragmentRows skip block) :
    block.tableRows[q.2]? = some q.1 := by
  unfold fragmentRows at h
  rw [← List.mem_zipIdx_iff_getElem?]
  split_ifs at h
  · exact (List.dropWhile_sublist _).subset h
  · exact h

theorem zipIdx_pairwise {σ : Type} (l : List σ) : l.zipIdx.Pairwise fun a b => a.2 < b.2 := by
  have h : (l.zipIdx.map Prod.snd).Pairwise (· < ·) := by
    rw [List.zipIdx_map_snd]
    exact List.pairwise_lt_range'
  exact List.pairwise_map.mp h

theorem fragmentRows_pairwise (skip : Bool) (block : DocumentBlock α) :
    (fragmentRows skip block).Pairwise fun a b => a.2 < b.2 := by
  unfold fragmentRows
  split_ifs
  · exact (zipIdx_pairwise _).sublist (List.dropWhile_sublist _)
  · exact zipIdx_pairwise _

/-- Only leading headers are left out. -/
theorem fragmentRows_kept {r : Nat} {row : TableRow α} (skip : Bool)
    (hrow : block.tableRows[r]? = some row) (hkept : ¬ RepeatedHeader block r) :
    (row, r) ∈ fragmentRows skip block := by
  have hmem : (row, r) ∈ block.tableRows.zipIdx := List.mem_zipIdx_iff_getElem?.mpr hrow
  unfold fragmentRows
  split_ifs with hskip
  · by_contra hdrop
    rw [Bool.and_eq_true] at hskip
    refine hkept ⟨hskip.2, fun i hi => ?_⟩
    -- the row is among the first ones, and so are those in front of it
    rw [← List.takeWhile_append_dropWhile (p := fun q => q.1.isHeader)
      (l := block.tableRows.zipIdx), List.mem_append] at hmem
    obtain ⟨k, hk, heq⟩ := List.mem_iff_getElem.mp (hmem.resolve_right hdrop)
    have hprefix := List.takeWhile_prefix (l := block.tableRows.zipIdx) fun q => q.1.isHeader
    have hkr : k = r := by
      have hget := hprefix.getElem hk
      rw [heq, List.getElem_zipIdx] at hget
      exact (by simpa using (congrArg Prod.snd hget).symm)
    have hik : i < (block.tableRows.zipIdx.takeWhile fun q => q.1.isHeader).length := by omega
    have hheader := List.all_eq_true.mp List.all_takeWhile _ (List.getElem_mem hik)
    have hget := hprefix.getElem hik
    rw [List.getElem_zipIdx] at hget
    rw [hget] at hheader
    have hlt : i < block.tableRows.length := by
      have hlength := hprefix.length_le
      rw [List.length_zipIdx] at hlength
      omega
    exact ⟨block.tableRows[i], List.getElem?_eq_getElem hlt, hheader⟩
  · exact hmem

theorem mem_placedRows {q : TableRow α × Nat × Nat} {ps : List (DocumentBlock α × Nat)} :
    ∀ {skip : Bool}, q ∈ placedRows skip ps →
      ∃ p ∈ ps, q.2.1 = p.2 ∧ p.1.tableRows[q.2.2]? = some q.1 := by
  induction ps with
  | nil => intro skip h; cases h
  | cons p ps ih =>
    intro skip h
    rcases List.mem_append.mp h with hown | hrest
    · obtain ⟨row, hrow, rfl⟩ := List.mem_map.mp hown
      exact ⟨p, List.mem_cons_self .., rfl, mem_fragmentRows hrow⟩
    · obtain ⟨other, hother, hplace⟩ := ih hrest
      exact ⟨other, List.mem_cons_of_mem _ hother, hplace⟩

theorem placedRows_kept {r : Nat} {row : TableRow α} {p : DocumentBlock α × Nat}
    (hrow : p.1.tableRows[r]? = some row) (hkept : ¬ RepeatedHeader p.1 r)
    {ps : List (DocumentBlock α × Nat)} : ∀ {skip : Bool}, p ∈ ps →
      (row, p.2, r) ∈ placedRows skip ps := by
  induction ps with
  | nil => intro skip h; cases h
  | cons top ps ih =>
    intro skip h
    rcases List.mem_cons.mp h with rfl | h
    · exact List.mem_append_left _
        (List.mem_map_of_mem (f := fun q : TableRow α × Nat => (q.1, p.2, q.2))
          (fragmentRows_kept skip hrow hkept))
    · exact List.mem_append_right _ (ih h)

theorem placedRows_pairwise {ps : List (DocumentBlock α × Nat)}
    (hps : ps.Pairwise fun a b => a.2 < b.2) : ∀ skip : Bool,
      (placedRows skip ps).Pairwise fun a b => PlaceBefore a.2 b.2 := by
  induction ps with
  | nil => intro skip; exact List.Pairwise.nil
  | cons p ps ih =>
    intro skip
    rw [List.pairwise_cons] at hps
    refine List.pairwise_append.mpr ⟨?_, ih hps.2 _, fun a ha b hb => ?_⟩
    · rw [List.pairwise_map]
      exact (fragmentRows_pairwise skip p.1).imp fun hlt => Or.inr ⟨rfl, hlt⟩
    · obtain ⟨row, -, rfl⟩ := List.mem_map.mp ha
      obtain ⟨other, hother, hplace, -⟩ := mem_placedRows hb
      exact Or.inl (hplace ▸ hps.1 other hother)

theorem mem_placedFragments {index : Nat} :
    (block, index) ∈ placedFragments blocks first ↔ blocks[index]? = some block ∧
      (index = first ∨ first < index ∧ ∃ top, blocks[first]? = some top ∧
        sameLogicalTable top block = true) := by
  unfold placedFragments
  by_cases hfirst : first < blocks.length
  · have hdrop : blocks.zipIdx.drop first =
        (blocks[first], first) :: blocks.zipIdx.drop (first + 1) := by
      rw [List.drop_eq_getElem_cons (by rwa [List.length_zipIdx]), List.getElem_zipIdx,
        Nat.zero_add]
    have hrest : (block, index) ∈ blocks.zipIdx.drop (first + 1) ↔
        blocks[index]? = some block ∧ first < index := by
      rw [List.mem_drop_iff_getElem]
      constructor
      · rintro ⟨i, hi, heq⟩
        rw [List.length_zipIdx] at hi
        rw [List.getElem_zipIdx, Prod.mk.injEq] at heq
        obtain ⟨rfl, rfl⟩ := heq
        exact ⟨by rw [List.getElem?_eq_getElem (by omega)]; congr 2; omega, by omega⟩
      · rintro ⟨hblock, hlt⟩
        obtain ⟨hindex, rfl⟩ := List.getElem?_eq_some_iff.mp hblock
        refine ⟨index - (first + 1), by rw [List.length_zipIdx]; omega, ?_⟩
        rw [List.getElem_zipIdx, Prod.mk.injEq]
        refine ⟨?_, by omega⟩
        congr 1
        omega
    rw [hdrop]
    dsimp only
    rw [List.mem_cons, Prod.mk.injEq, List.mem_filter, hrest, List.getElem?_eq_getElem hfirst]
    constructor
    · rintro (⟨rfl, rfl⟩ | ⟨⟨hblock, hlt⟩, hsame⟩)
      · exact ⟨List.getElem?_eq_getElem hfirst, Or.inl rfl⟩
      · exact ⟨hblock, Or.inr ⟨hlt, _, rfl, hsame⟩⟩
    · rintro ⟨hblock, rfl | ⟨hlt, top, htop, hsame⟩⟩
      · rw [List.getElem?_eq_getElem hfirst] at hblock
        exact Or.inl ⟨(Option.some.inj hblock).symm, rfl⟩
      · obtain rfl := Option.some.inj htop
        exact Or.inr ⟨⟨hblock, hlt⟩, hsame⟩
  · rw [List.drop_eq_nil_of_le (by rw [List.length_zipIdx]; omega)]
    constructor
    · exact fun h => absurd h List.not_mem_nil
    · rintro ⟨hblock, rfl | ⟨hlt, -⟩⟩
      · exact absurd (List.getElem?_eq_some_iff.mp hblock).1 hfirst
      · have hindex := (List.getElem?_eq_some_iff.mp hblock).1
        omega

theorem placedFragments_pairwise (blocks : List (DocumentBlock α)) (first : Nat) :
    (placedFragments blocks first).Pairwise fun a b => a.2 < b.2 := by
  unfold placedFragments
  have hall := (zipIdx_pairwise blocks).sublist (List.drop_sublist first _)
  split
  · exact List.Pairwise.nil
  · next p rest hdrop =>
    rw [hdrop, List.pairwise_cons] at hall
    rw [List.pairwise_cons]
    exact ⟨fun q hq => hall.1 q (List.mem_filter.mp hq).1, hall.2.filter _⟩

theorem rowPlaces_eq (blocks : List (DocumentBlock α)) (first : Nat) :
    rowPlaces blocks first = (placedRows false (placedFragments blocks first)).map Prod.snd := by
  unfold rowPlaces
  rw [reading_placed.logicalRows_eq, List.map_map]
  conv_rhs => rw [← List.zipIdx_map_fst 0 (placedRows false (placedFragments blocks first))]
  rw [List.zipIdx_map, List.map_map, List.map_map]
  rfl

theorem logicalRows_eq (blocks : List (DocumentBlock α)) (first : Nat) :
    logicalRows blocks first =
      (((placedRows false (placedFragments blocks first)).map Prod.fst).zipIdx).map fun p =>
        atRowIndex p.1 p.2 := by
  rw [← reading_fst.logicalRows_eq blocks first, List.zipIdx_map_fst]

/-- A place of a logical table is a place of one of its fragments. -/
theorem mem_rowPlaces {place : Nat × Nat} (h : place ∈ rowPlaces blocks first) :
    ∃ block row, blocks[place.1]? = some block ∧ block.tableRows[place.2]? = some row ∧
      (place.1 = first ∨ first < place.1 ∧ ∃ top, blocks[first]? = some top ∧
        sameLogicalTable top block = true) := by
  rw [rowPlaces_eq] at h
  obtain ⟨q, hq, rfl⟩ := List.mem_map.mp h
  obtain ⟨⟨block, index⟩, hfragment, hindex, hrow⟩ := mem_placedRows hq
  obtain rfl : q.2.1 = index := hindex
  obtain ⟨hblock, hgroup⟩ := mem_placedFragments.mp hfragment
  exact ⟨block, q.1, hblock, hrow, hgroup⟩

theorem rowPlaces_pairwise (blocks : List (DocumentBlock α)) (first : Nat) :
    (rowPlaces blocks first).Pairwise PlaceBefore := by
  rw [rowPlaces_eq, List.pairwise_map]
  exact placedRows_pairwise (placedFragments_pairwise blocks first) false

theorem PlaceBefore.ne {a b : Nat × Nat} (h : PlaceBefore a b) : a ≠ b := by
  rintro rfl
  unfold PlaceBefore at h
  omega

end Places

/-! ## Written tables -/

section Written

variable {α : Type} {blocks : List (DocumentBlock α)} {block : DocumentBlock α}
  {first index : Nat}

theorem mem_writtenTables : first ∈ writtenTables blocks ↔ ∃ top, blocks[first]? = some top ∧
    isTableBlock top = true ∧
      ∀ j < first, ∀ earlier, blocks[j]? = some earlier → sameLogicalTable top earlier = false := by
  have hfresh : ∀ top, blocks[first]? = some top →
      (isContinuationAlreadyWritten blocks first = false ↔ ∀ j < first, ∀ earlier,
        blocks[j]? = some earlier → sameLogicalTable top earlier = false) := by
    intro top htop
    unfold isContinuationAlreadyWritten
    rw [htop]
    dsimp only
    rw [List.any_eq_false]
    constructor
    · intro h j hj earlier hearlier
      refine Bool.eq_false_iff.mpr (h earlier (List.mem_of_getElem? (i := j) ?_))
      rw [List.getElem?_take_of_lt hj]
      exact hearlier
    · intro h earlier hmem
      obtain ⟨j, hj⟩ := List.getElem?_of_mem hmem
      have hlt : j < first := by
        have hlength := (List.getElem?_eq_some_iff.mp hj).1
        rw [List.length_take] at hlength
        omega
      rw [List.getElem?_take_of_lt hlt] at hj
      exact Bool.eq_false_iff.mp (h j hlt earlier hj)
  unfold writtenTables
  rw [List.mem_filter, List.mem_range, Bool.and_eq_true, Bool.not_eq_true']
  constructor
  · rintro ⟨hlt, htable, hwritten⟩
    rw [List.getElem?_eq_getElem hlt] at htable
    exact ⟨blocks[first], List.getElem?_eq_getElem hlt, htable,
      (hfresh _ (List.getElem?_eq_getElem hlt)).mp hwritten⟩
  · rintro ⟨top, htop, htable, hearlier⟩
    refine ⟨(List.getElem?_eq_some_iff.mp htop).1, ?_, (hfresh top htop).mpr hearlier⟩
    rw [htop]
    exact htable

/-- The fragments of one logical table are those of the other. -/
theorem sameLogicalTable_trans {a b c : DocumentBlock α} (hab : sameLogicalTable a c = true)
    (hbc : sameLogicalTable b c = true) : sameLogicalTable b a = true := by
  rw [sameLogicalTable_iff] at hab hbc ⊢
  exact ⟨hbc.1, hbc.2.trans hab.2.symm⟩

/-- Tables that are written have no row in common. -/
theorem rowPlaces_disjoint {other : Nat} (hfirst : first ∈ writtenTables blocks)
    (hother : other ∈ writtenTables blocks) (hlt : first < other) :
    List.Disjoint (rowPlaces blocks first) (rowPlaces blocks other) := by
  intro place hplace hplace'
  obtain ⟨top, htop, -, -⟩ := mem_writtenTables.mp hfirst
  obtain ⟨next, hnext, -, hearlier⟩ := mem_writtenTables.mp hother
  have hapart := hearlier first hlt top htop
  obtain ⟨block, -, hblock, -, hgroup⟩ := mem_rowPlaces hplace
  obtain ⟨block', -, hblock', -, hgroup'⟩ := mem_rowPlaces hplace'
  rw [hblock] at hblock'
  obtain rfl := Option.some.inj hblock'
  -- the place lies behind the first table, and so in its group
  have hsame : sameLogicalTable top block = true := by
    rcases hgroup with heq | ⟨-, top', htop', hsame⟩
    · rcases hgroup' with heq' | ⟨hlt', -⟩ <;> omega
    · rw [htop] at htop'
      exact Option.some.inj htop' ▸ hsame
  have hsame' : sameLogicalTable next top = true := by
    rcases hgroup' with heq' | ⟨-, next', hnext', hsame'⟩
    · rw [heq', hnext] at hblock
      obtain rfl := Option.some.inj hblock
      rw [sameLogicalTable_iff] at hsame ⊢
      exact ⟨hsame.2 ▸ hsame.1, hsame.2.symm⟩
    · rw [hnext] at hnext'
      exact sameLogicalTable_trans hsame (Option.some.inj hnext' ▸ hsame')
  rw [hapart] at hsame'
  cases hsame'

theorem rowPlaces_nodup (blocks : List (DocumentBlock α)) :
    ((writtenTables blocks).flatMap (rowPlaces blocks)).Nodup := by
  rw [List.nodup_flatMap]
  refine ⟨fun first _ => (rowPlaces_pairwise blocks first).imp PlaceBefore.ne, ?_⟩
  have hascending : (writtenTables blocks).Pairwise (· < ·) := List.pairwise_lt_range.filter _
  exact hascending.imp_of_mem fun hfirst hother hlt => rowPlaces_disjoint hfirst hother hlt

/-- The group of a block starts at its first fragment. -/
theorem firstFragment_first (hblock : blocks[index]? = some block) :
    ∃ top, blocks[firstFragment blocks index block]? = some top ∧
      (firstFragment blocks index block = index ∨ firstFragment blocks index block < index ∧
        sameLogicalTable top block = true) ∧
      ∀ j < firstFragment blocks index block, ∀ earlier, blocks[j]? = some earlier →
        sameLogicalTable top earlier = false := by
  have hindex := (List.getElem?_eq_some_iff.mp hblock).1
  unfold firstFragment
  cases hfind : (blocks.take index).findIdx? (sameLogicalTable block) with
  | none =>
    rw [List.findIdx?_eq_none_iff] at hfind
    refine ⟨block, hblock, Or.inl rfl, fun j hj earlier hearlier => ?_⟩
    have hlt : j < index := hj
    refine hfind earlier (List.mem_of_getElem? (i := j) ?_)
    rw [List.getElem?_take_of_lt hlt]
    exact hearlier
  | some k =>
    obtain ⟨hk, hsame, hfirst⟩ := List.findIdx?_eq_some_iff_getElem.mp hfind
    rw [List.length_take] at hk
    rw [List.getElem_take, sameLogicalTable_iff] at hsame
    have hklt : k < blocks.length := by omega
    refine ⟨blocks[k], List.getElem?_eq_getElem hklt, Or.inr ⟨?_, ?_⟩,
      fun j hj earlier hearlier => ?_⟩
    · show k < index
      omega
    · rw [sameLogicalTable_iff]
      exact ⟨hsame.2 ▸ hsame.1, hsame.2.symm⟩
    · obtain ⟨hjlt, rfl⟩ := List.getElem?_eq_some_iff.mp hearlier
      by_contra hcontra
      rw [Bool.not_eq_false, sameLogicalTable_iff] at hcontra
      refine hfirst j hj ?_
      rw [List.getElem_take, sameLogicalTable_iff]
      exact ⟨hsame.1, hsame.2.trans hcontra.2⟩

/-- A block of a table that is written has its first fragment there. -/
theorem firstFragment_unique (hfirst : first ∈ writtenTables blocks)
    (hblock : blocks[index]? = some block) (hgroup : index = first ∨ first < index ∧
      ∃ top, blocks[first]? = some top ∧ sameLogicalTable top block = true) :
    firstFragment blocks index block = first := by
  obtain ⟨top, htop, -, hearlier⟩ := mem_writtenTables.mp hfirst
  obtain ⟨start, hstart, hsame, hbefore⟩ := firstFragment_first hblock
  have hle : firstFragment blocks index block ≤ index := by
    rcases hsame with heq | ⟨hlt, -⟩ <;> omega
  rcases lt_trichotomy (firstFragment blocks index block) first with hlt | heq | hgt
  · -- the table would be a later fragment of the start
    have hlater := hearlier _ hlt start hstart
    have hcontra : sameLogicalTable top start = true := by
      rcases hsame with heq | ⟨-, hsame⟩
      · rcases hgroup with hgroup | ⟨hgroup, -⟩ <;> omega
      · rcases hgroup with rfl | ⟨-, top', htop', hgroup⟩
        · rw [htop] at hblock
          obtain rfl := Option.some.inj hblock
          rw [sameLogicalTable_iff] at hsame ⊢
          exact ⟨hsame.2 ▸ hsame.1, hsame.2.symm⟩
        · rw [htop] at htop'
          obtain rfl := Option.some.inj htop'
          exact sameLogicalTable_trans hsame hgroup
    rw [hlater] at hcontra
    cases hcontra
  · exact heq
  · -- the start would be a later fragment of the table
    have hlater := hbefore _ hgt top htop
    have hcontra : sameLogicalTable start top = true := by
      rcases hgroup with rfl | ⟨-, top', htop', hgroup⟩
      · omega
      · rw [htop] at htop'
        obtain rfl := Option.some.inj htop'
        rcases hsame with heq | ⟨-, hsame⟩
        · rw [heq, hblock] at hstart
          obtain rfl := Option.some.inj hstart
          rw [sameLogicalTable_iff] at hgroup ⊢
          exact ⟨hgroup.2 ▸ hgroup.1, hgroup.2.symm⟩
        · exact sameLogicalTable_trans hgroup hsame
    rw [hlater] at hcontra
    cases hcontra

theorem ownRows_ne_nil : ownRows block ≠ [] ↔
    ∃ r < block.tableRows.length, ¬ RepeatedHeader block r := by
  unfold ownRows RepeatedHeader
  split_ifs with hcontinues
  · rw [Ne, List.dropWhile_eq_nil_iff]
    push Not
    constructor
    · rintro ⟨row, hrow, hheader⟩
      obtain ⟨r, hr, rfl⟩ := List.mem_iff_getElem.mp hrow
      refine ⟨r, hr, fun _ => ⟨r, le_rfl, fun row hrow => ?_⟩⟩
      rw [List.getElem?_eq_getElem hr] at hrow
      exact Option.some.inj hrow ▸ hheader
    · rintro ⟨r, hr, hall⟩
      obtain ⟨i, hi, hrow⟩ := hall hcontinues
      have hlt : i < block.tableRows.length := by omega
      exact ⟨block.tableRows[i], List.getElem_mem hlt,
        hrow _ (List.getElem?_eq_getElem hlt)⟩
  · constructor
    · intro h
      exact ⟨0, List.length_pos_of_ne_nil h, fun hrepeated => hcontinues hrepeated.1⟩
    · rintro ⟨r, hr, -⟩ hnil
      rw [hnil] at hr
      cases hr

/-- **Collected once.** The rows of the table blocks are written once each exactly when the group of
each block with rows of its own starts with a table block. -/
theorem collected_once_iff (blocks : List (DocumentBlock α)) :
    CollectedOnce blocks ↔ ∀ index block, blocks[index]? = some block →
      isTableBlock block = true → ownRows block ≠ [] →
        ∀ first, blocks[firstFragment blocks index block]? = some first →
          isTableBlock first = true := by
  constructor
  · intro hcollected index block hblock htable hown top htop
    obtain ⟨r, hr, hkept⟩ := ownRows_ne_nil.mp hown
    have hcount := hcollected.kept index block r hblock htable hr hkept
    have hmem : (index, r) ∈ (writtenTables blocks).flatMap (rowPlaces blocks) :=
      List.count_pos_iff.mp (by omega)
    obtain ⟨first, hfirst, hplace⟩ := List.mem_flatMap.mp hmem
    obtain ⟨block', -, hblock', -, hgroup⟩ := mem_rowPlaces hplace
    obtain rfl := Option.some.inj (hblock.symm.trans hblock')
    rw [firstFragment_unique hfirst hblock hgroup] at htop
    obtain ⟨top', htop', htable', -⟩ := mem_writtenTables.mp hfirst
    exact Option.some.inj (htop'.symm.trans htop) ▸ htable'
  · intro hstart
    refine ⟨fun first _ => ⟨?_, fun n place hplace => ?_⟩, fun first _ n row hrow => ?_,
      fun first _ => rowPlaces_pairwise blocks first,
      fun place => List.nodup_iff_count_le_one.mp (rowPlaces_nodup blocks) place,
      fun index block r hblock htable hr hkept => ?_⟩
    · rw [logicalRows_eq, rowPlaces_eq]
      simp
    · rw [rowPlaces_eq, List.getElem?_map, Option.map_eq_some_iff] at hplace
      obtain ⟨q, hq, rfl⟩ := hplace
      obtain ⟨p, hp, hindex, hrow⟩ := mem_placedRows (List.mem_of_getElem? hq)
      refine ⟨q.1, ?_, ?_⟩
      · unfold rowAt
        rw [hindex, (mem_placedFragments.mp hp).1]
        exact hrow
      · rw [logicalRows_eq, List.getElem?_map, List.getElem?_zipIdx, List.getElem?_map, hq]
        simp
    · rw [logicalRows_eq, List.getElem?_map, Option.map_eq_some_iff] at hrow
      obtain ⟨q, hq, rfl⟩ := hrow
      rw [List.getElem?_zipIdx, Option.map_eq_some_iff] at hq
      obtain ⟨row, -, rfl⟩ := hq
      refine ⟨by simp [atRowIndex], fun cell hcell => ?_⟩
      obtain ⟨original, -, rfl⟩ := List.mem_map.mp hcell
      rfl
    · obtain ⟨top, htop, hgroup, hbefore⟩ := firstFragment_first hblock
      have htop' := hstart index block hblock htable (ownRows_ne_nil.mpr ⟨r, hr, hkept⟩) top htop
      refine List.count_eq_one_of_mem (rowPlaces_nodup blocks) (List.mem_flatMap.mpr
        ⟨firstFragment blocks index block, mem_writtenTables.mpr ⟨top, htop, htop', hbefore⟩, ?_⟩)
      have hfragment : (block, index) ∈
          placedFragments blocks (firstFragment blocks index block) :=
        mem_placedFragments.mpr ⟨hblock, hgroup.imp Eq.symm fun h => ⟨h.1, top, htop, h.2⟩⟩
      rw [rowPlaces_eq]
      exact List.mem_map_of_mem (f := Prod.snd)
        (placedRows_kept (p := (block, index)) (List.getElem?_eq_getElem hr) hkept hfragment)

end Written

/-! ## A group that starts with a text -/

/-- A block of a group, with rows of one cell each. -/
def groupBlock (type : DocumentBlockType) (tableId : String) (cells : List String) :
    DocumentBlock ℚ :=
  ⟨"b", type, "", "", 0, 1, ⟨0, 0, 20, 10⟩, 1, "", [], tableId, "g", false, false,
    cells.map fun text => ⟨0, ⟨0, 0, 20, 10⟩, 1, false,
      [⟨0, 0, 1, 1, false, text, ⟨0, 0, 20, 10⟩, 1, []⟩]⟩,
    "page_1", []⟩

def textGroup : List (DocumentBlock ℚ) :=
  [groupBlock .paragraph "" [], groupBlock .table "t" ["total"]]

/-- The text in front of the table is taken for its first fragment, and the table is lost. -/
theorem table_suppressed_by_text :
    writtenTables textGroup = [] ∧ markdownDocument ⟨⟨"", "", "", "", none, ""⟩, 200, textGroup, "",
      .complete, ⟨"", "", "", ""⟩, [], [], []⟩ = "" ∧ ¬ CollectedOnce textGroup := by
  refine ⟨by decide +kernel, by decide +kernel, fun hcollected => ?_⟩
  have hcount := hcollected.kept 1 (groupBlock .table "t" ["total"]) 0 rfl rfl (by decide +kernel)
    fun hrepeated => absurd hrepeated.1 (by decide +kernel)
  revert hcount
  decide +kernel

end DocParser.Export
