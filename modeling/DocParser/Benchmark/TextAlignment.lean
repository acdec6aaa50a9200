import Mathlib.Data.Prod.Lex
import Mathlib.Order.Bounds.Basic
import Mathlib.Order.Bounds.Image
import DocParser.Lib.EditAlignments

/-!
# Aligned texts of the benchmark

An anchor of the reference is searched in the texts of the predicted blocks: exactly at first, and
then by a dynamic program over two rows. Where a character of the anchor occurs at all, the answer
is the least edit alignment with a substring of a block (`bestAlignment_spec`); otherwise it is an
alignment with no block, which the loop starts from.
-/

namespace DocParser.Benchmark

open EditAlignments

/-! ## The source -/

section Definitions

structure AnchorAlignment where
  characters : Int
  editDistance : Nat
  blockIndex : Int
  start : Nat
  /-- `end` -/
  stop : Nat
  deriving DecidableEq, Repr

def AnchorAlignment.rank (a : AnchorAlignment) : ℕ ×ₗ ℤ ×ₗ ℤ ×ₗ ℕ ×ₗ ℕ :=
  toLex (a.editDistance, toLex (-a.characters, toLex (a.blockIndex, toLex (a.start, a.stop))))

/-- A cell of the rows: edit cost, negative exact-match count and start offset. -/
structure Cell where
  cost : Nat
  negativeMatches : Int
  start : Nat
  deriving DecidableEq, Repr

def Cell.key (w : Cell) : ℕ ×ₗ ℤ ×ₗ ℕ := toLex (w.cost, toLex (w.negativeMatches, w.start))

theorem Cell.key_injective : Function.Injective Cell.key := by
  rintro ⟨c, m, s⟩ ⟨c', m', s'⟩ h
  cases h
  rfl

/-- Cells are compared as tuples. -/
instance : LinearOrder Cell := LinearOrder.lift' Cell.key Cell.key_injective

variable {χ : Type} [DecidableEq χ]

def Cell.diagonal (character predicted : χ) (w : Cell) : Cell where
  cost := w.cost + if character ≠ predicted then 1 else 0
  negativeMatches := w.negativeMatches - if character = predicted then 1 else 0
  start := w.start

/-- A deletion or an insertion. -/
def Cell.edited (w : Cell) : Cell := { w with cost := w.cost + 1 }

/-- The cells of a row behind `current[-1]`, where the row above starts with
`previous[row - 1]` and `previous[row]`. -/
def fillRow (predicted : χ) : List χ → Cell → List Cell → List Cell
  | character :: reference, left, corner :: above :: previous =>
    let cell := min (min (corner.diagonal character predicted) left.edited) above.edited
    cell :: fillRow predicted reference cell (above :: previous)
  | _, _, _ => []

/-- The loop over the block, on `previous` and `best`. -/
def alignColumn (reference : List χ) (s : List Cell × Cell ×ₗ ℕ) (column : χ × Nat) :
    List Cell × Cell ×ₗ ℕ :=
  let first : Cell := ⟨0, 0, column.2⟩
  let current := first :: fillRow column.1 reference first s.1
  (current, min s.2 (toLex (current.getLastD first, column.2)))

def alignSubstring (reference block : List χ) (blockIndex : Int) : AnchorAlignment :=
  let previous := (List.range (reference.length + 1)).map fun index => (⟨index, 0, 0⟩ : Cell)
  let best : Cell ×ₗ ℕ := toLex (⟨reference.length, 0, 0⟩, 0)
  let best := ofLex ((block.zipIdx 1).foldl (alignColumn reference) (previous, best)).2
  ⟨-best.1.negativeMatches, best.1.cost, blockIndex, best.1.start, best.2⟩

/-- `str.find`, where `none` is the -1. -/
def find (reference : List χ) : List χ → Option Nat
  | [] => if reference = [] then some 0 else none
  | c :: block =>
    if reference.isPrefixOf (c :: block) then some 0 else (find reference block).map (· + 1)

/-- The first exact occurrence. -/
def exactAlignment (reference : List χ) (blocks : List (List χ × Nat)) : Option AnchorAlignment :=
  blocks.findSome? fun block => (find reference block.1).map fun start =>
    ⟨reference.length, 0, block.2, start, start + reference.length⟩

/-- What the search through the blocks starts from. -/
def unaligned (reference : List χ) : AnchorAlignment := ⟨0, reference.length, -1, 0, 0⟩

def improve (reference : List χ) (best : AnchorAlignment) (block : List χ × Nat) :
    AnchorAlignment :=
  if block.1 = [] then best
  else
    let candidate := alignSubstring reference block.1 block.2
    if candidate.rank < best.rank then candidate else best

/-- The dynamic program on every block that is not empty. -/
def alignBlocks (reference : List χ) (blocks : List (List χ)) : AnchorAlignment :=
  blocks.zipIdx.foldl (improve reference) (unaligned reference)

def bestAlignment (reference : List χ) (blocks : List (List χ)) : AnchorAlignment :=
  match exactAlignment reference blocks.zipIdx with
  | some alignment => alignment
  | none => alignBlocks reference blocks

end Definitions

/-! ## Cells -/

section Cells

theorem Cell.le_iff (w v : Cell) :
    w ≤ v ↔ w.cost < v.cost ∨ w.cost = v.cost ∧
      (w.negativeMatches < v.negativeMatches ∨
        w.negativeMatches = v.negativeMatches ∧ w.start ≤ v.start) := by
  show w.key ≤ v.key ↔ _
  unfold Cell.key
  rw [Prod.Lex.toLex_le_toLex, Prod.Lex.toLex_le_toLex]

theorem Cell.edited_monotone : Monotone Cell.edited := by
  intro w v h
  rw [Cell.le_iff] at h ⊢
  simp only [Cell.edited]
  omega

variable {χ : Type} [DecidableEq χ] {reference r t : List χ} {a b : χ}

theorem Cell.diagonal_monotone (character predicted : χ) :
    Monotone (Cell.diagonal character predicted) := by
  intro w v h
  rw [Cell.le_iff] at h ⊢
  simp only [Cell.diagonal]
  omega

/-- The cell of an alignment that starts at `start`. -/
def cellOf (edits : List (Edit χ)) (start : Nat) : Cell := ⟨cost edits, -exact edits, start⟩

theorem cellOf_pair (edits : List (Edit χ)) (a b : χ) (start : Nat) :
    cellOf (edits ++ [.pair a b]) start = (cellOf edits start).diagonal a b := by
  unfold cellOf Cell.diagonal
  rw [cost_concat, exact_concat]
  unfold Edit.cost Edit.exact
  split_ifs <;> simp_all
  omega

theorem cellOf_delete (edits : List (Edit χ)) (a : χ) (start : Nat) :
    cellOf (edits ++ [.delete a]) start = (cellOf edits start).edited := by
  unfold cellOf Cell.edited
  rw [cost_concat, exact_concat]
  rfl

theorem cellOf_insert (edits : List (Edit χ)) (b : χ) (start : Nat) :
    cellOf (edits ++ [.insert b]) start = (cellOf edits start).edited := by
  unfold cellOf Cell.edited
  rw [cost_concat, exact_concat]
  rfl

/-- The cells of the alignments of `r` with what `t` ends with. -/
def cells (r t : List χ) : Set Cell :=
  {w | ∃ edits start, start ≤ t.length ∧ Aligns edits r (t.drop start) ∧ w = cellOf edits start}

omit [DecidableEq χ] in
theorem eq_of_drop_concat {start : Nat} {u : List χ} {c : χ} (hstart : start ≤ (t ++ [b]).length)
    (h : (t ++ [b]).drop start = u ++ [c]) :
    start ≤ t.length ∧ u = t.drop start ∧ c = b := by
  rw [List.length_append, List.length_singleton] at hstart
  have hle : start ≤ t.length := by
    by_contra hlt
    have hlength := congrArg List.length h
    simp only [List.length_drop, List.length_append, List.length_singleton] at hlength
    omega
  rw [List.drop_append_of_le_length hle] at h
  obtain ⟨hu, hc⟩ := List.append_inj' h.symm rfl
  exact ⟨hle, hu, by cases hc; rfl⟩

/-- **The recurrence** of the dynamic program, by the last edit. -/
theorem cells_concat (r t : List χ) (a b : χ) :
    cells (r ++ [a]) (t ++ [b]) =
      Cell.diagonal a b '' cells r t ∪ Cell.edited '' cells r (t ++ [b]) ∪
        Cell.edited '' cells (r ++ [a]) t := by
  have hlonger : t.length ≤ (t ++ [b]).length := by simp
  ext w
  constructor
  · rintro ⟨edits, start, hstart, haligns, rfl⟩
    rcases aligns_concat_iff.mp haligns with ⟨init, u, c, rfl, hu, hinit⟩ |
      ⟨init, rfl, hinit⟩ | ⟨init, u, c, rfl, hu, hinit⟩
    · obtain ⟨hle, rfl, rfl⟩ := eq_of_drop_concat hstart hu
      exact .inl (.inl ⟨_, ⟨init, start, hle, hinit, rfl⟩, (cellOf_pair init a c start).symm⟩)
    · exact .inl (.inr ⟨_, ⟨init, start, hstart, hinit, rfl⟩, (cellOf_delete init a start).symm⟩)
    · obtain ⟨hle, rfl, rfl⟩ := eq_of_drop_concat hstart hu
      exact .inr ⟨_, ⟨init, start, hle, hinit, rfl⟩, (cellOf_insert init c start).symm⟩
  · rintro ((⟨_, ⟨init, start, hle, hinit, rfl⟩, rfl⟩ |
      ⟨_, ⟨init, start, hstart, hinit, rfl⟩, rfl⟩) | ⟨_, ⟨init, start, hle, hinit, rfl⟩, rfl⟩)
    · refine ⟨init ++ [.pair a b], start, hle.trans hlonger, ?_, (cellOf_pair init a b start).symm⟩
      rw [List.drop_append_of_le_length hle]
      exact hinit.pair a b
    · exact ⟨init ++ [.delete a], start, hstart, hinit.delete a, (cellOf_delete init a start).symm⟩
    · refine ⟨init ++ [.insert b], start, hle.trans hlonger, ?_, (cellOf_insert init b start).symm⟩
      rw [List.drop_append_of_le_length hle]
      exact hinit.insert b

theorem isLeast_cell {corner left above : Cell} (hcorner : IsLeast (cells r t) corner)
    (hleft : IsLeast (cells r (t ++ [b])) left) (habove : IsLeast (cells (r ++ [a]) t) above) :
    IsLeast (cells (r ++ [a]) (t ++ [b]))
      (min (min (corner.diagonal a b) left.edited) above.edited) := by
  rw [cells_concat]
  exact (((Cell.diagonal_monotone a b).map_isLeast hcorner).union
    (Cell.edited_monotone.map_isLeast hleft)).union (Cell.edited_monotone.map_isLeast habove)

/-- The empty reference, against the empty end of `t`. -/
theorem isLeast_first (t : List χ) : IsLeast (cells [] t) ⟨0, 0, t.length⟩ := by
  refine ⟨⟨[], t.length, Nat.le_refl _, ⟨rfl, List.drop_length.symm⟩, rfl⟩, ?_⟩
  rintro _ ⟨edits, start, hstart, haligns, rfl⟩
  obtain ⟨hcost, hexact⟩ := haligns.of_source_nil
  rw [Cell.le_iff]
  simp only [cellOf, hcost, hexact, List.length_drop]
  omega

/-- Nothing to align with. -/
theorem isLeast_top (r : List χ) : IsLeast (cells r []) ⟨r.length, 0, 0⟩ := by
  have hcell : ∀ edits start, start ≤ ([] : List χ).length → Aligns edits r ([].drop start) →
      cellOf edits start = ⟨r.length, 0, 0⟩ := by
    intro edits start hstart haligns
    rw [List.drop_nil] at haligns
    obtain ⟨hcost, hexact⟩ := haligns.of_target_nil
    unfold cellOf
    rw [hcost, hexact, Nat.le_zero.mp hstart]
    rfl
  have hdelete : Aligns (r.map Edit.delete) r ([].drop 0) := delete_aligns r
  refine ⟨⟨_, 0, Nat.le_refl 0, hdelete, (hcell _ 0 (Nat.le_refl 0) hdelete).symm⟩, ?_⟩
  rintro _ ⟨edits, start, hstart, haligns, rfl⟩
  exact (hcell edits start hstart haligns).ge

end Cells

/-! ## Rows -/

section Rows

variable {χ : Type} [DecidableEq χ] {reference r t : List χ}

/-- The least cells of `r`, and of `r` with each of the next characters. -/
def IsRow (t : List χ) : List χ → List χ → List Cell → Prop
  | r, [], row => ∃ cell, row = [cell] ∧ IsLeast (cells r t) cell
  | r, a :: rest, row => ∃ cell row', row = cell :: row' ∧ IsLeast (cells r t) cell ∧
      IsRow t (r ++ [a]) rest row'

theorem IsRow.exists_cons {rest : List χ} {row : List Cell} (h : IsRow t r rest row) :
    ∃ cell row', row = cell :: row' ∧ IsLeast (cells r t) cell := by
  cases rest with
  | nil =>
    obtain ⟨cell, rfl, hcell⟩ := h
    exact ⟨cell, [], rfl, hcell⟩
  | cons a rest =>
    obtain ⟨cell, row', rfl, hcell, -⟩ := h
    exact ⟨cell, row', rfl, hcell⟩

/-- The last cell of a row is that of the whole string. -/
theorem IsRow.getLastD (default : Cell) : ∀ {r rest : List χ} {row : List Cell},
    IsRow t r rest row → IsLeast (cells (r ++ rest) t) (row.getLastD default)
  | r, [], _, ⟨cell, rfl, hcell⟩ => by simpa using hcell
  | r, a :: rest, _, ⟨cell, row', rfl, _, hrow'⟩ => by
    obtain ⟨cell', row'', rfl, -⟩ := hrow'.exists_cons
    have hlast := hrow'.getLastD default
    rw [List.append_assoc] at hlast
    simpa using hlast

/-- The row in front of the block. -/
theorem isRow_top : ∀ r rest : List χ, IsRow [] r rest
    ((List.range' r.length (rest.length + 1)).map fun index => (⟨index, 0, 0⟩ : Cell))
  | r, [] => ⟨_, rfl, isLeast_top r⟩
  | r, a :: rest => by
    refine ⟨_, _, rfl, isLeast_top r, ?_⟩
    have hrow := isRow_top (r ++ [a]) rest
    rw [List.length_append, List.length_singleton] at hrow
    exact hrow

/-- **The step** from a row to the next one. -/
theorem IsRow.fillRow {b : χ} : ∀ {rest r : List χ} {left : Cell} {previous : List Cell},
    IsRow t r rest previous → IsLeast (cells r (t ++ [b])) left →
    IsRow (t ++ [b]) r rest (left :: fillRow b rest left previous)
  | [], r, left, _, ⟨corner, rfl, _⟩, hleft => ⟨left, rfl, hleft⟩
  | a :: rest, r, left, _, ⟨corner, row', rfl, hcorner, hrow'⟩, hleft => by
    obtain ⟨above, row'', rfl, habove⟩ := hrow'.exists_cons
    exact ⟨left, _, rfl, hleft, hrow'.fillRow (isLeast_cell hcorner hleft habove)⟩

/-- The cells of the alignments with the substrings of `t`, each with its end. -/
def substrings (r t : List χ) : Set (Cell ×ₗ ℕ) :=
  {x | ∃ w stop, stop ≤ t.length ∧ w ∈ cells r (t.take stop) ∧ x = toLex (w, stop)}

theorem toLex_monotone_left (stop : Nat) : Monotone fun w : Cell => (toLex (w, stop) : Cell ×ₗ ℕ) :=
  fun _ _ h => Prod.Lex.toLex_mono ⟨h, Nat.le_refl stop⟩

theorem substrings_nil (r : List χ) :
    IsLeast (substrings r []) (toLex (⟨r.length, 0, 0⟩, 0)) := by
  obtain ⟨hmem, hleast⟩ := isLeast_top r
  refine ⟨⟨_, 0, Nat.le_refl 0, hmem, rfl⟩, ?_⟩
  rintro _ ⟨w, stop, hstop, hw, rfl⟩
  rw [List.take_nil] at hw
  cases Nat.le_zero.mp hstop
  exact toLex_monotone_left 0 (hleast hw)

theorem substrings_concat (r t : List χ) (b : χ) :
    substrings r (t ++ [b]) =
      substrings r t ∪ (fun w => toLex (w, t.length + 1)) '' cells r (t ++ [b]) := by
  have hlength : (t ++ [b]).length = t.length + 1 := by simp
  ext x
  constructor
  · rintro ⟨w, stop, hstop, hw, rfl⟩
    rw [hlength] at hstop
    rcases Nat.le_succ_iff.mp hstop with hle | rfl
    · rw [List.take_append_of_le_length hle] at hw
      exact .inl ⟨w, stop, hle, hw, rfl⟩
    · rw [List.take_of_length_le hlength.le] at hw
      exact .inr ⟨w, hw, rfl⟩
  · rintro (⟨w, stop, hle, hw, rfl⟩ | ⟨w, hw, rfl⟩)
    · refine ⟨w, stop, hle.trans (by omega), ?_, rfl⟩
      rw [List.take_append_of_le_length hle]
      exact hw
    · refine ⟨w, t.length + 1, hlength.ge, ?_, rfl⟩
      rw [List.take_of_length_le hlength.le]
      exact hw

/-- **The loop** over the block. -/
theorem foldl_alignColumn : ∀ (rest t : List χ) (previous : List Cell) (best : Cell ×ₗ ℕ),
    IsRow t [] reference previous → IsLeast (substrings reference t) best →
    IsLeast (substrings reference (t ++ rest))
      ((rest.zipIdx (t.length + 1)).foldl (alignColumn reference) (previous, best)).2
  | [], t, previous, best, _, hbest => by simpa using hbest
  | b :: rest, t, previous, best, hrow, hbest => by
    have hfirst : IsLeast (cells [] (t ++ [b])) ⟨0, 0, t.length + 1⟩ := by
      have h := isLeast_first (t ++ [b])
      rw [List.length_append, List.length_singleton] at h
      exact h
    have hrow' := hrow.fillRow hfirst
    have hlast := hrow'.getLastD ⟨0, 0, t.length + 1⟩
    have hbest' := hbest.union ((toLex_monotone_left (t.length + 1)).map_isLeast hlast)
    rw [List.nil_append, ← substrings_concat] at hbest'
    have hloop := foldl_alignColumn rest (t ++ [b]) _ _ hrow' hbest'
    rw [List.append_assoc, List.length_append, List.length_singleton] at hloop
    exact hloop

end Rows

/-! ## One block -/

section Blocks

variable {χ : Type} [DecidableEq χ] {reference block : List χ} {index : Int}

/-- An edit alignment of the reference with a substring of the block. -/
def BlockAlignment (reference block : List χ) (index : Int) (a : AnchorAlignment) : Prop :=
  ∃ edits, Aligns edits reference ((block.take a.stop).drop a.start) ∧
    a.start ≤ a.stop ∧ a.stop ≤ block.length ∧
    a.editDistance = cost edits ∧ a.characters = exact edits ∧ a.blockIndex = index

theorem BlockAlignment.blockIndex_eq {a : AnchorAlignment}
    (h : BlockAlignment reference block index a) : a.blockIndex = index := by
  obtain ⟨-, -, -, -, -, -, hindex⟩ := h
  exact hindex

theorem rank_le_iff (a b : AnchorAlignment) : a.rank ≤ b.rank ↔
    a.editDistance < b.editDistance ∨ a.editDistance = b.editDistance ∧
      (-a.characters < -b.characters ∨ -a.characters = -b.characters ∧
        (a.blockIndex < b.blockIndex ∨ a.blockIndex = b.blockIndex ∧
          (a.start < b.start ∨ a.start = b.start ∧ a.stop ≤ b.stop))) := by
  unfold AnchorAlignment.rank
  rw [Prod.Lex.toLex_le_toLex, Prod.Lex.toLex_le_toLex, Prod.Lex.toLex_le_toLex,
    Prod.Lex.toLex_le_toLex]

theorem rank_injective : Function.Injective AnchorAlignment.rank := by
  rintro ⟨characters, distance, index, start, stop⟩ b h
  obtain ⟨hdistance, h⟩ := Prod.mk.inj h
  obtain ⟨hcharacters, h⟩ := Prod.mk.inj h
  cases Int.neg_inj.mp hcharacters
  cases hdistance
  cases h
  rfl

/-- What the loop tracks of an alignment. -/
def AnchorAlignment.tracked (a : AnchorAlignment) : Cell ×ₗ ℕ :=
  toLex (⟨a.editDistance, -a.characters, a.start⟩, a.stop)

theorem blockAlignment_iff (a : AnchorAlignment) : BlockAlignment reference block index a ↔
    a.tracked ∈ substrings reference block ∧ a.blockIndex = index := by
  constructor
  · rintro ⟨edits, haligns, hle, hstop, hcost, hexact, hindex⟩
    refine ⟨⟨_, a.stop, hstop, ⟨edits, a.start, ?_, haligns, ?_⟩, rfl⟩, hindex⟩
    · rw [List.length_take_of_le hstop]
      exact hle
    · rw [hcost, hexact]
      rfl
  · rintro ⟨⟨_, stop, hstop, ⟨edits, start, hle, haligns, rfl⟩, heq⟩, hindex⟩
    obtain ⟨hcell, hstop'⟩ := Prod.mk.inj heq
    obtain ⟨hcost, hexact, hstart⟩ := Cell.mk.inj hcell
    rw [List.length_take_of_le hstop] at hle
    rw [← hstart, ← hstop'] at haligns
    exact ⟨edits, haligns, by omega, by omega, hcost, Int.neg_inj.mp hexact, hindex⟩

theorem rank_le_of_tracked {a b : AnchorAlignment} (hindex : a.blockIndex = b.blockIndex)
    (h : a.tracked ≤ b.tracked) : a.rank ≤ b.rank := by
  unfold AnchorAlignment.tracked at h
  rw [Prod.Lex.toLex_le_toLex, lt_iff_le_not_ge, Cell.le_iff, Cell.le_iff, Cell.mk.injEq] at h
  rw [rank_le_iff]
  simp only at h
  omega

theorem alignSubstring_least (reference block : List χ) (index : Int) :
    BlockAlignment reference block index (alignSubstring reference block index) ∧
    ∀ a, BlockAlignment reference block index a →
      (alignSubstring reference block index).rank ≤ a.rank := by
  have hrow : IsRow [] [] reference
      ((List.range (reference.length + 1)).map fun index => (⟨index, 0, 0⟩ : Cell)) := by
    rw [List.range_eq_range']
    exact isRow_top [] reference
  have hleast := foldl_alignColumn block [] _ _ hrow (substrings_nil reference)
  have htracked : (alignSubstring reference block index).tracked = _ :=
    congrArg (fun m => toLex ((⟨_, m, _⟩ : Cell), _)) (Int.neg_neg _)
  rw [List.nil_append] at hleast
  refine ⟨(blockAlignment_iff _).mpr ⟨htracked ▸ hleast.1, rfl⟩, fun a ha => ?_⟩
  obtain ⟨hmem, hindex⟩ := (blockAlignment_iff a).mp ha
  refine rank_le_of_tracked hindex.symm ?_
  rw [htracked]
  exact hleast.2 hmem

omit [DecidableEq χ] in
theorem rank_unaligned_lt {a : AnchorAlignment} (hindex : 0 ≤ a.blockIndex)
    (hdistance : reference.length ≤ a.editDistance) (hcharacters : a.characters = 0) :
    (unaligned reference).rank < a.rank := by
  rw [lt_iff_le_not_ge, rank_le_iff, rank_le_iff]
  simp only [unaligned]
  omega

/-! ## All blocks -/

/-- An edit alignment of the reference with a substring of one of the blocks. -/
def IsAlignment (reference : List χ) (blocks : List (List χ)) (a : AnchorAlignment) : Prop :=
  ∃ block, ∃ index : Nat, blocks[index]? = some block ∧ BlockAlignment reference block index a

/-- The least of the alignments. -/
def Minimum (reference : List χ) (blocks : List (List χ)) (a : AnchorAlignment) : Prop :=
  IsAlignment reference blocks a ∧ ∀ b, IsAlignment reference blocks b → a.rank ≤ b.rank

/-- The least of the alignments and of what the search starts from. -/
def Best (reference : List χ) (blocks : List (List χ)) (a : AnchorAlignment) : Prop :=
  (a = unaligned reference ∨ IsAlignment reference blocks a) ∧
    a.rank ≤ (unaligned reference).rank ∧
    ∀ b, IsAlignment reference blocks b → a.rank ≤ b.rank

variable {blocks : List (List χ)} {a b : AnchorAlignment}

theorem isAlignment_concat : IsAlignment reference (blocks ++ [block]) a ↔
    IsAlignment reference blocks a ∨ BlockAlignment reference block blocks.length a := by
  unfold IsAlignment
  constructor
  · rintro ⟨other, index, hother, h⟩
    rcases Nat.lt_trichotomy index blocks.length with hlt | rfl | hgt
    · rw [List.getElem?_append_left hlt] at hother
      exact .inl ⟨other, index, hother, h⟩
    · rw [List.getElem?_concat_length] at hother
      cases hother
      exact .inr h
    · rw [List.getElem?_eq_none (by simp; omega)] at hother
      cases hother
  · rintro (⟨other, index, hother, h⟩ | h)
    · have hlt := (List.getElem?_eq_some_iff.mp hother).1
      exact ⟨other, index, by rw [List.getElem?_append_left hlt]; exact hother, h⟩
    · exact ⟨block, blocks.length, List.getElem?_concat_length, h⟩

theorem Best.unique (ha : Best reference blocks a) (hb : Best reference blocks b) : a = b := by
  have hle : ∀ {a b}, Best reference blocks a → Best reference blocks b → a.rank ≤ b.rank := by
    intro a b ha hb
    rcases hb.1 with rfl | hb
    · exact ha.2.1
    · exact ha.2.2 b hb
  exact rank_injective (le_antisymm (hle ha hb) (hle hb ha))

/-- An empty block has no alignment that is better than none. -/
theorem rank_le_of_empty (h : BlockAlignment reference [] index a) (hindex : 0 ≤ index) :
    (unaligned reference).rank ≤ a.rank := by
  obtain ⟨edits, haligns, -, -, hcost, hexact, rfl⟩ := h
  rw [List.take_nil, List.drop_nil] at haligns
  obtain ⟨hdeletions, hnone⟩ := haligns.of_target_nil
  exact (rank_unaligned_lt hindex (hcost.trans hdeletions).ge (by rw [hexact, hnone]; rfl)).le

theorem Best.improve (h : Best reference blocks a) (block : List χ) :
    Best reference (blocks ++ [block]) (improve reference a (block, blocks.length)) := by
  obtain ⟨hmem, hunaligned, hle⟩ := h
  have hmem' : a = unaligned reference ∨ IsAlignment reference (blocks ++ [block]) a :=
    hmem.imp_right fun h => isAlignment_concat.mpr (.inl h)
  unfold Benchmark.improve
  split
  next hempty =>
    simp only at hempty
    subst hempty
    refine ⟨hmem', hunaligned, fun b hb => ?_⟩
    rcases isAlignment_concat.mp hb with hb | hb
    · exact hle b hb
    · exact hunaligned.trans (rank_le_of_empty hb (Int.natCast_nonneg _))
  next =>
    obtain ⟨hcandidate, hleast⟩ := alignSubstring_least reference block blocks.length
    simp only
    split
    next hlt =>
      refine ⟨.inr (isAlignment_concat.mpr (.inr hcandidate)), hlt.le.trans hunaligned,
        fun b hb => ?_⟩
      rcases isAlignment_concat.mp hb with hb | hb
      · exact hlt.le.trans (hle b hb)
      · exact hleast b hb
    next hnot =>
      refine ⟨hmem', hunaligned, fun b hb => ?_⟩
      rcases isAlignment_concat.mp hb with hb | hb
      · exact hle b hb
      · exact (not_lt.mp hnot).trans (hleast b hb)

theorem foldl_improve : ∀ (rest blocks : List (List χ)) (a : AnchorAlignment),
    Best reference blocks a →
    Best reference (blocks ++ rest) ((rest.zipIdx blocks.length).foldl (improve reference) a)
  | [], blocks, a, h => by simpa using h
  | block :: rest, blocks, a, h => by
    have hloop := foldl_improve rest (blocks ++ [block]) _ (h.improve block)
    rw [List.append_assoc, List.length_append, List.length_singleton] at hloop
    exact hloop

/-- The slow path ends with the best of the alignments and of none. -/
theorem alignBlocks_best (reference : List χ) (blocks : List (List χ)) :
    Best reference blocks (alignBlocks reference blocks) := by
  have hstart : Best reference [] (unaligned reference) :=
    ⟨.inl rfl, le_refl _, fun b ⟨block, index, hblock, _⟩ => by cases hblock⟩
  exact foldl_improve blocks [] _ hstart

end Blocks

/-! ## The shortcut -/

section Shortcut

variable {χ : Type} [DecidableEq χ] {reference block : List χ} {blocks : List (List χ)}
  {a : AnchorAlignment}

theorem find_eq_some : ∀ {block : List χ} {start : Nat}, find reference block = some start →
    reference <+: block.drop start ∧
      ∀ other, reference <+: block.drop other → start ≤ other
  | [], start, h => by
    unfold find at h
    split at h
    next hnil =>
      cases h
      exact ⟨hnil ▸ List.nil_prefix, fun _ _ => Nat.zero_le _⟩
    · cases h
  | c :: block, start, h => by
    unfold find at h
    split at h
    next hstarts =>
      cases h
      exact ⟨List.isPrefixOf_iff_prefix.mp hstarts, fun _ _ => Nat.zero_le _⟩
    next hstarts =>
      obtain ⟨rest, hrest, rfl⟩ := Option.map_eq_some_iff.mp h
      obtain ⟨hfound, hfirst⟩ := find_eq_some hrest
      refine ⟨hfound, fun other hother => ?_⟩
      cases other with
      | zero => exact absurd (List.isPrefixOf_iff_prefix.mpr hother) hstarts
      | succ other => exact Nat.succ_le_succ (hfirst other hother)

theorem find_eq_none (hreference : reference ≠ []) : ∀ {block : List χ},
    find reference block = none → ∀ start, ¬ reference <+: block.drop start
  | [], _, start, hstarts => by
    rw [List.drop_nil] at hstarts
    exact hreference (List.prefix_nil.mp hstarts)
  | c :: block, h, start, hstarts => by
    unfold find at h
    split at h
    · cases h
    next hnot =>
      cases start with
      | zero => exact hnot (List.isPrefixOf_iff_prefix.mpr hstarts)
      | succ start => exact find_eq_none hreference (Option.map_eq_none_iff.mp h) start hstarts

/-- An alignment without edits is an exact occurrence. -/
theorem BlockAlignment.exact {index : Int} (h : BlockAlignment reference block index a)
    (hdistance : a.editDistance = 0) :
    reference <+: block.drop a.start ∧ a.characters = reference.length ∧
      a.stop = a.start + reference.length := by
  obtain ⟨edits, haligns, hle, hstop, hcost, hexact, -⟩ := h
  obtain ⟨heq, hmatches⟩ := haligns.eq_of_cost (hcost.symm.trans hdistance)
  have hlength := congrArg List.length heq
  rw [List.length_drop, List.length_take_of_le hstop] at hlength
  refine ⟨?_, by rw [hexact, hmatches], by omega⟩
  rw [heq, List.drop_take]
  exact List.take_prefix _ _

/-- An exact occurrence is an alignment without edits. -/
theorem blockAlignment_of_prefix {start : Nat} (index : Int)
    (h : reference <+: block.drop start) (hstart : start ≤ block.length) :
    BlockAlignment reference block index
      ⟨reference.length, 0, index, start, start + reference.length⟩ := by
  have hlength := h.length_le
  rw [List.length_drop] at hlength
  have hcost := cost_keep reference
  refine ⟨keep reference, ?_, Nat.le_add_right _ _, by simp only; omega, hcost.symm, ?_, rfl⟩
  · simp only
    rw [List.drop_take, Nat.add_sub_cancel_left, ← List.prefix_iff_eq_take.mp h]
    exact keep_aligns reference
  · exact congrArg _ ((keep_aligns reference).eq_of_cost hcost).2.symm

/-- The first exact occurrence is the best alignment, if no block before it has one. -/
theorem best_of_find (hreference : reference ≠ []) (rest : List (List χ))
    (hblocks : ∀ b, IsAlignment reference blocks b → b.editDistance ≠ 0) {start : Nat}
    (hfind : find reference block = some start) :
    Best reference (blocks ++ block :: rest)
      ⟨reference.length, 0, blocks.length, start, start + reference.length⟩ := by
  obtain ⟨hstarts, hfirst⟩ := find_eq_some hfind
  have hpositive : 0 < reference.length := List.length_pos_iff.mpr hreference
  have hlength := hstarts.length_le
  rw [List.length_drop] at hlength
  refine ⟨.inr ⟨block, blocks.length, by simp, blockAlignment_of_prefix _ hstarts (by omega)⟩,
    (rank_le_iff _ _).mpr (.inl hpositive), ?_⟩
  rintro b ⟨other, index, hother, hb⟩
  rw [rank_le_iff]
  by_cases hdistance : b.editDistance = 0
  · obtain ⟨hoccurs, hcharacters, hstop⟩ := hb.exact hdistance
    have hindex := hb.blockIndex_eq
    rcases Nat.lt_trichotomy index blocks.length with hlt | rfl | hgt
    · rw [List.getElem?_append_left hlt] at hother
      exact absurd hdistance (hblocks b ⟨other, index, hother, hb⟩)
    · rw [List.getElem?_append_right (Nat.le_refl _), Nat.sub_self] at hother
      cases hother
      have hle := hfirst b.start hoccurs
      simp only
      omega
    · simp only
      omega
  · exact .inl (Nat.pos_of_ne_zero hdistance)

theorem exactAlignment_best (hreference : reference ≠ []) :
    ∀ (rest blocks : List (List χ)),
      (∀ b, IsAlignment reference blocks b → b.editDistance ≠ 0) →
      ∀ a ∈ exactAlignment reference (rest.zipIdx blocks.length),
        Best reference (blocks ++ rest) a
  | [], _, _, a, ha => by cases ha
  | block :: rest, blocks, hblocks, a, ha => by
    unfold exactAlignment at ha
    rw [List.zipIdx_cons, List.findSome?_cons] at ha
    cases hfind : find reference block with
    | some start =>
      simp only [hfind, Option.map_some, Option.mem_def] at ha
      cases ha
      exact best_of_find hreference rest hblocks hfind
    | none =>
      simp only [hfind, Option.map_none] at ha
      have hmore : ∀ b, IsAlignment reference (blocks ++ [block]) b → b.editDistance ≠ 0 := by
        intro b hb hdistance
        rcases isAlignment_concat.mp hb with hb | hb
        · exact hblocks b hb hdistance
        · exact find_eq_none hreference hfind b.start (hb.exact hdistance).1
      have hrest := exactAlignment_best hreference rest (blocks ++ [block]) hmore a
      rw [List.append_assoc, List.length_append, List.length_singleton] at hrest
      exact hrest ha

/-- The shortcut ends with the best of the alignments and of none, as the slow path does. -/
theorem bestAlignment_best (hreference : reference ≠ []) (blocks : List (List χ)) :
    Best reference blocks (bestAlignment reference blocks) := by
  unfold bestAlignment
  cases h : exactAlignment reference blocks.zipIdx with
  | none => exact alignBlocks_best reference blocks
  | some a =>
    have hnone : ∀ b, IsAlignment reference [] b → b.editDistance ≠ 0 :=
      fun b ⟨block, index, hblock, _⟩ => by cases hblock
    exact exactAlignment_best hreference blocks [] hnone a h

end Shortcut

/-! ## The result -/

section Result

variable {χ : Type} [DecidableEq χ] {reference : List χ} {blocks : List (List χ)}

/-- A character that occurs saves one edit. -/
theorem exists_rank_lt (h : ∃ block ∈ blocks, ∃ c ∈ reference, c ∈ block) :
    ∃ a, IsAlignment reference blocks a ∧ a.rank < (unaligned reference).rank := by
  obtain ⟨block, hblock, c, hc, hoccurs⟩ := h
  obtain ⟨index, hindex⟩ := List.mem_iff_getElem?.mp hblock
  obtain ⟨start, hstart, rfl⟩ := List.mem_iff_getElem.mp hoccurs
  obtain ⟨edits, haligns, hcost⟩ := exists_aligns_singleton hc
  refine ⟨⟨exact edits, cost edits, index, start, start + 1⟩,
    ⟨block, index, hindex, edits, ?_, Nat.le_succ start, hstart, rfl, rfl, rfl⟩, ?_⟩
  · simp only
    rw [List.drop_take, Nat.add_sub_cancel_left, List.drop_eq_getElem_cons hstart]
    exact haligns
  · rw [lt_iff_le_not_ge, rank_le_iff, rank_le_iff]
    simp only [unaligned]
    omega

theorem rank_lt_of_disjoint (h : ∀ block ∈ blocks, ∀ c ∈ reference, c ∉ block)
    {a : AnchorAlignment} (ha : IsAlignment reference blocks a) :
    (unaligned reference).rank < a.rank := by
  obtain ⟨block, index, hblock, edits, haligns, -, -, hcost, hexact, hindex⟩ := ha
  have hnone : exact edits = 0 := by
    refine haligns.exact_eq_zero fun c hc hmem => h block (List.mem_of_getElem? hblock) c hc ?_
    exact List.mem_of_mem_take (List.mem_of_mem_drop hmem)
  have hle := length_source_le edits
  rw [haligns.1] at hle
  exact rank_unaligned_lt (by omega) (by omega) (by omega)

/-- **Alignment.** The shortcut does not change the answer. It is the least edit alignment of the
reference with a substring of a block, if a character of the reference occurs in a block; otherwise
there is no alignment. -/
theorem bestAlignment_spec (reference : List χ) (blocks : List (List χ))
    (hreference : reference ≠ []) :
    bestAlignment reference blocks = alignBlocks reference blocks ∧
    ((∃ block ∈ blocks, ∃ c ∈ reference, c ∈ block) →
      Minimum reference blocks (bestAlignment reference blocks)) ∧
    ((∀ block ∈ blocks, ∀ c ∈ reference, c ∉ block) →
      bestAlignment reference blocks = unaligned reference) := by
  have hbest := bestAlignment_best hreference blocks
  refine ⟨hbest.unique (alignBlocks_best reference blocks), fun hoccurs => ?_, fun hdisjoint => ?_⟩
  · obtain ⟨a, ha, hlt⟩ := exists_rank_lt hoccurs
    refine ⟨hbest.1.resolve_left fun heq => ?_, hbest.2.2⟩
    have hle := hbest.2.2 a ha
    rw [heq] at hle
    exact absurd hlt (not_lt.mpr hle)
  · refine hbest.1.resolve_right fun h => ?_
    exact absurd hbest.2.1 (not_le.mpr (rank_lt_of_disjoint hdisjoint h))

/-- The first of two blocks that differ from the reference by one edit, and match as much. -/
theorem bestAlignment_spec_two :
    bestAlignment ['a', 'b', 'c'] [['x'], ['y', 'a', 'b', 'd'], ['a', 'b']] = ⟨2, 1, 1, 1, 3⟩ ∧
    Minimum ['a', 'b', 'c'] [['x'], ['y', 'a', 'b', 'd'], ['a', 'b']] ⟨2, 1, 1, 1, 3⟩ := by
  have h : bestAlignment ['a', 'b', 'c'] [['x'], ['y', 'a', 'b', 'd'], ['a', 'b']] =
      ⟨2, 1, 1, 1, 3⟩ := by decide +kernel
  have hspec := bestAlignment_spec ['a', 'b', 'c'] [['x'], ['y', 'a', 'b', 'd'], ['a', 'b']]
    (by decide)
  exact ⟨h, h ▸ hspec.2.1 ⟨['y', 'a', 'b', 'd'], by simp, 'a', by simp, by simp⟩⟩

/-- Where no character occurs, the answer is at no block, so it is none of the alignments. -/
theorem bestAlignment_unrelated :
    bestAlignment ['a'] [['b']] = ⟨0, 1, -1, 0, 0⟩ ∧
    ¬ (bestAlignment ['a'] [['b']] = alignBlocks ['a'] [['b']] ∧
      Minimum ['a'] [['b']] (bestAlignment ['a'] [['b']])) := by
  have h : bestAlignment ['a'] [['b']] = ⟨0, 1, -1, 0, 0⟩ := by decide +kernel
  refine ⟨h, ?_⟩
  rintro ⟨-, ⟨block, index, -, edits, -, -, -, -, -, hindex⟩, -⟩
  rw [h] at hindex
  simp only at hindex
  omega

end Result

end DocParser.Benchmark
