import Mathlib.Data.List.Induction
import Mathlib.Data.List.Perm.Basic
import Mathlib.Tactic.Linarith
import DocParser.Common.Sorting
import DocParser.Document.Model

/-!
# The text of a table's cells

`assignTableText` gives each token to the cell that contains its centre and covers it best, and
joins the tokens of a cell by their baselines. `assignTableText_spec`: where two cells have the
same rank the logical position decides, so that no result depends on how the rows and cells are
stored.
-/

namespace DocParser.TextAssignment

open Document Comparators

section Definitions

structure TableTextToken (α : Type) where
  text : String
  bbox : BBox α
  confidence : α
  deriving DecidableEq, Repr

structure TableTextAssignmentStats where
  assignedTokens : Nat
  ambiguousTokens : Nat
  unassignedTokens : Nat
  deriving DecidableEq, Repr

variable {α : Type} [Double α]

def validBox (bbox : BBox α) : Bool :=
  Double.isFinite bbox.x0 && Double.isFinite bbox.y0 && Double.isFinite bbox.x1 &&
    Double.isFinite bbox.y1 && decide (bbox.x0 < bbox.x1) && decide (bbox.y0 < bbox.y1)

def centerX (bbox : BBox α) : α := bbox.x0 * 0.5 + bbox.x1 * 0.5

def centerY (bbox : BBox α) : α := bbox.y0 * 0.5 + bbox.y1 * 0.5

def centerInside (outer inner : BBox α) : Bool :=
  decide (outer.x0 ≤ centerX inner) && decide (centerX inner ≤ outer.x1) &&
    decide (outer.y0 ≤ centerY inner) && decide (centerY inner ≤ outer.y1)

def intersectionArea (lhs rhs : BBox α) : α :=
  Double.max 0 (Double.min lhs.x1 rhs.x1 - Double.max lhs.x0 rhs.x0) *
    Double.max 0 (Double.min lhs.y1 rhs.y1 - Double.max lhs.y0 rhs.y0)

def centerDistance (cell token : BBox α) : α :=
  let x := (centerX token - centerX cell) / (cell.x1 - cell.x0)
  let y := (centerY token - centerY cell) / (cell.y1 - cell.y0)
  x * x + y * y

/-! ## Filling a cell -/

/-- The groups of tokens whose centres are close to that of the first one. -/
def baselineGroups (first : TableTextToken α) (group : List (TableTextToken α)) :
    List (TableTextToken α) → List (List (TableTextToken α))
  | [] => [group]
  | token :: tokens =>
    if centerY token.bbox - centerY first.bbox ≤ 3 then
      baselineGroups first (group ++ [token]) tokens
    else group :: baselineGroups token [token] tokens

def sortMatches (tokens : List (TableTextToken α)) : List (TableTextToken α) :=
  match sortBy (fun lhs rhs => decide (centerY lhs.bbox < centerY rhs.bbox)) tokens with
  | [] => []
  | first :: rest => (baselineGroups first [first] rest).flatMap
      (sortBy fun lhs rhs => decide (lhs.bbox.x0 < rhs.bbox.x0))

def fillCell (cell : TableCell α) (tokens : List (TableTextToken α)) : TableCell α :=
  let sorted := sortMatches tokens
  let filled := sorted.foldl (fun (s : String × α) token =>
    ((if s.1.isEmpty then s.1 else s.1 ++ " ") ++ token.text, s.2 + token.confidence)) ("", 0)
  { cell with
    text := filled.1
    confidence :=
      if sorted.isEmpty then cell.confidence
      else Double.min cell.confidence (filled.2 / Double.ofInt sorted.length) }

/-! ## Choosing a cell -/

structure CellRank (α : Type) where
  negatedArea : α
  distance : α
  rowIndex : Int
  columnIndex : Int
  deriving DecidableEq, Repr

def cellRank (cell : TableCell α) (token : TableTextToken α) : CellRank α where
  negatedArea := 0 - intersectionArea cell.bbox token.bbox
  distance := centerDistance cell.bbox token.bbox
  rowIndex := cell.rowIndex
  columnIndex := cell.columnIndex

/-- `operator<` of `std::tuple` -/
def rankLess (lhs rhs : CellRank α) : Bool :=
  decide (lhs.negatedArea < rhs.negatedArea) || (!decide (rhs.negatedArea < lhs.negatedArea) &&
    (decide (lhs.distance < rhs.distance) || (!decide (rhs.distance < lhs.distance) &&
      (decide (lhs.rowIndex < rhs.rowIndex) || (!decide (rhs.rowIndex < lhs.rowIndex) &&
        decide (lhs.columnIndex < rhs.columnIndex))))))

/-- The locals of the loop over the cells. -/
structure CellChoice (α : Type) where
  best : Option (Nat × CellRank α)
  candidates : Nat

def isCandidate (token : TableTextToken α) (cell : TableCell α) : Bool :=
  validBox cell.bbox && centerInside cell.bbox token.bbox

/-- The body of the loop over the cells. -/
def considerCell (token : TableTextToken α) (s : CellChoice α) (p : TableCell α × Nat) :
    CellChoice α :=
  if !isCandidate token p.1 then s
  else
    let rank := cellRank p.1 token
    { candidates := s.candidates + 1
      best := match s.best with
        | none => some (p.2, rank)
        | some best => if rankLess rank best.2 then some (p.2, rank) else some best }

def chooseCell (cells : List (TableCell α)) (token : TableTextToken α) : CellChoice α :=
  cells.zipIdx.foldl (considerCell token) ⟨none, 0⟩

/-! ## Assigning the tokens -/

structure Assignment (α : Type) where
  found : List (List (TableTextToken α))
  stats : TableTextAssignmentStats

def isUsable (token : TableTextToken α) : Bool := !(token.text.isEmpty || !validBox token.bbox)

def assignToken (cells : List (TableCell α)) (tableBox : BBox α) (s : Assignment α)
    (token : TableTextToken α) : Assignment α :=
  if !isUsable token then s
  else
    let choice := chooseCell cells token
    match choice.best with
    | some (index, _) =>
      { found := s.found.modify index (· ++ [token])
        stats := { s.stats with
          assignedTokens := s.stats.assignedTokens + 1
          ambiguousTokens := s.stats.ambiguousTokens + if 1 < choice.candidates then 1 else 0 } }
    | none =>
      if validBox tableBox && centerInside tableBox token.bbox then
        { s with stats := { s.stats with unassignedTokens := s.stats.unassignedTokens + 1 } }
      else s

def allCells (rows : List (TableRow α)) : List (TableCell α) := rows.flatMap (·.cells)

/-- Fills the cells where they are stored. -/
def fillRows : List (TableRow α) → List (List (TableTextToken α)) → List (TableRow α)
  | [], _ => []
  | row :: rows, found => { row with cells := List.zipWith fillCell row.cells found } ::
      fillRows rows (found.drop row.cells.length)

def assignTableText (table : Table α) (tokens : List (TableTextToken α)) :
    Table α × TableTextAssignmentStats :=
  let cells := allCells table.rows
  let s := tokens.foldl (assignToken cells table.bbox) ⟨cells.map fun _ => [], ⟨0, 0, 0⟩⟩
  ({ table with rows := fillRows table.rows s.found }, s.stats)

end Definitions

/-! ## The owner of a token -/

section Owner

/-- The cell contains the centre of the token, and none that does covers more of it. -/
structure IsOwner (cells : List (TableCell ℚ)) (token : TableTextToken ℚ) (cell : TableCell ℚ) :
    Prop where
  mem : cell ∈ cells
  candidate : isCandidate token cell = true
  largest : ∀ other ∈ cells, isCandidate token other = true →
    intersectionArea other.bbox token.bbox ≤ intersectionArea cell.bbox token.bbox

def rankBefore (lhs rhs : Nat × CellRank ℚ) : Prop := rankLess lhs.2 rhs.2 = true

instance : DecidableRel rankBefore := fun _ _ => inferInstanceAs (Decidable (_ = true))

theorem rankBefore_strictWeakOn (P : Nat × CellRank ℚ → Prop) : StrictWeakOn P rankBefore := by
  have heq : rankBefore = LexLess (fun a b => a.2.negatedArea < b.2.negatedArea)
      (LexLess (fun a b => a.2.distance < b.2.distance)
        (LexLess (fun a b => a.2.rowIndex < b.2.rowIndex)
          fun a b => a.2.columnIndex < b.2.columnIndex)) := by
    funext a b
    apply propext
    unfold rankBefore rankLess LexLess
    simp only [Bool.or_eq_true, Bool.and_eq_true, Bool.not_eq_true', decide_eq_true_eq,
      decide_eq_false_iff_not]
  rw [heq]
  exact (strictWeakOn_of_linear fun a : Nat × CellRank ℚ => a.2.negatedArea).lex
    ((strictWeakOn_of_linear fun a : Nat × CellRank ℚ => a.2.distance).lex
      ((strictWeakOn_of_linear fun a : Nat × CellRank ℚ => a.2.rowIndex).lex
        (strictWeakOn_of_linear fun a : Nat × CellRank ℚ => a.2.columnIndex)))

variable {cells : List (TableCell ℚ)} {token : TableTextToken ℚ}

/-- The cells that the loop compares, with their places and ranks. -/
def rankedCandidates (cells : List (TableCell ℚ)) (token : TableTextToken ℚ) :
    List (Nat × CellRank ℚ) :=
  (cells.zipIdx.filter fun p => isCandidate token p.1).map fun p => (p.2, cellRank p.1 token)

theorem considerCell_of_candidate {p : TableCell ℚ × Nat} (h : isCandidate token p.1 = true)
    (s : CellChoice ℚ) : considerCell token s p =
      ⟨pickSome rankBefore s.best (p.2, cellRank p.1 token), s.candidates + 1⟩ := by
  unfold considerCell
  rw [h, Bool.not_true, if_neg Bool.false_ne_true]
  cases hbest : s.best with
  | none => rfl
  | some best =>
    unfold pickSome pick
    dsimp only [Option.elim]
    by_cases hless : rankBefore (p.2, cellRank p.1 token) best
    · rw [if_pos hless, if_pos (show rankLess _ _ = true from hless)]
    · rw [if_neg hless, if_neg (show ¬ rankLess _ _ = true from hless)]

theorem foldl_considerCell (l : List (TableCell ℚ × Nat)) : ∀ s : CellChoice ℚ,
    l.foldl (considerCell token) s =
      ⟨((l.filter fun p => isCandidate token p.1).map fun p => (p.2, cellRank p.1 token)).foldl
          (pickSome rankBefore) s.best,
        s.candidates + l.countP fun p => isCandidate token p.1⟩ := by
  induction l with
  | nil => exact fun _ => rfl
  | cons p l ih =>
    intro s
    rw [List.foldl_cons, ih]
    rw [List.filter_cons, List.countP_cons]
    by_cases h : isCandidate token p.1 = true
    · rw [considerCell_of_candidate h, if_pos h, if_pos h, List.map_cons, List.foldl_cons]
      congr 1
      show s.candidates + 1 + _ = s.candidates + (_ + 1)
      omega
    · unfold considerCell
      rw [if_neg h, if_neg h, if_pos (by simpa using h)]
      rfl

/-- The loop over the cells selects by rank. -/
theorem chooseCell_eq (cells : List (TableCell ℚ)) (token : TableTextToken ℚ) :
    chooseCell cells token = ⟨(rankedCandidates cells token).foldl (pickSome rankBefore) none,
      cells.countP (isCandidate token)⟩ := by
  unfold chooseCell
  rw [foldl_considerCell, Nat.zero_add]
  congr 1
  show cells.zipIdx.countP (isCandidate token ∘ Prod.fst) = _
  rw [← List.countP_map, List.zipIdx_map_fst]

theorem mem_rankedCandidates {index : Nat} {rank : CellRank ℚ} :
    (index, rank) ∈ rankedCandidates cells token ↔
      ∃ cell, cells[index]? = some cell ∧ isCandidate token cell = true ∧
        cellRank cell token = rank := by
  unfold rankedCandidates
  rw [List.mem_map]
  constructor
  · rintro ⟨⟨cell, index⟩, hp, heq⟩
    obtain ⟨rfl, rfl⟩ := Prod.mk.inj heq
    obtain ⟨hget, hcandidate⟩ := List.mem_filter.mp hp
    exact ⟨cell, List.mem_zipIdx_iff_getElem?.mp hget, hcandidate, rfl⟩
  · rintro ⟨cell, hget, hcandidate, rfl⟩
    exact ⟨(cell, index), List.mem_filter.mpr
      ⟨List.mem_zipIdx_iff_getElem?.mpr hget, hcandidate⟩, rfl⟩

/-- A token without an owner has no candidate. -/
theorem chooseCell_none (h : (chooseCell cells token).best = none) :
    ∀ cell ∈ cells, isCandidate token cell = false := by
  rw [chooseCell_eq, foldl_pickSome_eq_none] at h
  intro cell hcell
  obtain ⟨index, hindex⟩ := List.getElem?_of_mem hcell
  by_contra hcandidate
  have hmem := mem_rankedCandidates.mpr
    ⟨cell, hindex, by simpa using hcandidate, rfl⟩
  rw [h] at hmem
  exact absurd hmem List.not_mem_nil

/-- The chosen cell comes first among the candidates. -/
theorem chooseCell_some {index : Nat} {rank : CellRank ℚ}
    (h : (chooseCell cells token).best = some (index, rank)) :
    ∃ cell, cells[index]? = some cell ∧ isCandidate token cell = true ∧
      ∀ other ∈ cells, isCandidate token other = true →
        rankLess (cellRank other token) (cellRank cell token) = false := by
  rw [chooseCell_eq] at h
  obtain ⟨hmem, hleast⟩ := (rankBefore_strictWeakOn fun _ => True).foldl_pickSome
    (fun _ _ => trivial) h
  obtain ⟨cell, hget, hcandidate, rfl⟩ := mem_rankedCandidates.mp hmem
  refine ⟨cell, hget, hcandidate, fun other hother hcand => ?_⟩
  obtain ⟨place, hplace⟩ := List.getElem?_of_mem hother
  have hnot := hleast (place, cellRank other token)
    (mem_rankedCandidates.mpr ⟨other, hplace, hcand, rfl⟩)
  exact Bool.eq_false_iff.mpr hnot

/-- Different places have different ranks. -/
theorem eq_of_rankLess {cell other : TableCell ℚ}
    (h : rankLess (cellRank cell token) (cellRank other token) = false)
    (h' : rankLess (cellRank other token) (cellRank cell token) = false) :
    cell.rowIndex = other.rowIndex ∧ cell.columnIndex = other.columnIndex := by
  unfold rankLess at h h'
  simp only [Bool.or_eq_false_iff, Bool.and_eq_false_iff, Bool.not_eq_false', decide_eq_true_eq,
    decide_eq_false_iff_not] at h h'
  -- neither comes before the other, number by number
  obtain ⟨harea, h⟩ := h
  obtain ⟨harea', h'⟩ := h'
  obtain ⟨hdistance, h⟩ := h.resolve_left harea'
  obtain ⟨hdistance', h'⟩ := h'.resolve_left harea
  obtain ⟨hrow, h⟩ := h.resolve_left hdistance'
  obtain ⟨hrow', h'⟩ := h'.resolve_left hdistance
  have hcolumn := h.resolve_left hrow'
  have hcolumn' := h'.resolve_left hrow
  exact ⟨le_antisymm (not_lt.mp hrow') (not_lt.mp hrow),
    le_antisymm (not_lt.mp hcolumn') (not_lt.mp hcolumn)⟩

/-- What comes first covers most. -/
theorem area_le_of_rankLess {cell other : TableCell ℚ}
    (h : rankLess (cellRank other token) (cellRank cell token) = false) :
    intersectionArea other.bbox token.bbox ≤ intersectionArea cell.bbox token.bbox := by
  unfold rankLess at h
  rw [Bool.or_eq_false_iff, decide_eq_false_iff_not] at h
  have harea : ¬ 0 - intersectionArea other.bbox token.bbox <
      0 - intersectionArea cell.bbox token.bbox := h.1
  linarith

/-- The cell that the loop chooses for a token. -/
def ownerOf (cells : List (TableCell ℚ)) (token : TableTextToken ℚ) : Option (TableCell ℚ) :=
  (chooseCell cells token).best.bind fun best => cells[best.1]?

/-- The cell comes first among the candidates. -/
structure IsFirst (cells : List (TableCell ℚ)) (token : TableTextToken ℚ) (cell : TableCell ℚ) :
    Prop where
  mem : cell ∈ cells
  candidate : isCandidate token cell = true
  first : ∀ other ∈ cells, isCandidate token other = true →
    rankLess (cellRank other token) (cellRank cell token) = false

theorem IsFirst.isOwner {cell : TableCell ℚ} (h : IsFirst cells token cell) :
    IsOwner cells token cell :=
  ⟨h.mem, h.candidate, fun other hother hcandidate =>
    area_le_of_rankLess (h.first other hother hcandidate)⟩

theorem isFirst_of_ownerOf {cell : TableCell ℚ} (h : ownerOf cells token = some cell) :
    IsFirst cells token cell := by
  obtain ⟨⟨index, rank⟩, hbest, hget⟩ := Option.bind_eq_some_iff.mp h
  obtain ⟨chosen, hchosen, hcandidate, hfirst⟩ := chooseCell_some hbest
  obtain rfl : chosen = cell := Option.some.inj (hchosen.symm.trans hget)
  exact ⟨List.mem_of_getElem? hget, hcandidate, hfirst⟩

/-- A chosen place is that of a cell. -/
theorem ownerOf_isSome (cells : List (TableCell ℚ)) (token : TableTextToken ℚ) :
    (ownerOf cells token).isSome = (chooseCell cells token).best.isSome := by
  unfold ownerOf
  cases hbest : (chooseCell cells token).best with
  | none => rfl
  | some best =>
    have hplace : (chooseCell cells token).best = some (best.1, best.2) := hbest
    obtain ⟨cell, hget, -⟩ := chooseCell_some hplace
    rw [Option.bind_some, hget]
    rfl

/-- Without an owner there is no candidate. -/
theorem ownerOf_eq_none : ownerOf cells token = none ↔
    ∀ cell ∈ cells, isCandidate token cell = false := by
  constructor
  · intro h
    refine chooseCell_none ?_
    have hsome := ownerOf_isSome cells token
    rw [h] at hsome
    simpa using hsome.symm
  · intro h
    by_contra hne
    obtain ⟨cell, hcell⟩ := Option.ne_none_iff_exists'.mp hne
    have hfirst := isFirst_of_ownerOf hcell
    exact absurd hfirst.candidate (by simp [h cell hfirst.mem])

theorem ownerOf_isSome_eq_any :
    (ownerOf cells token).isSome = cells.any (isCandidate token) := by
  rw [Bool.eq_iff_iff, List.any_eq_true, Option.isSome_iff_ne_none, Ne, ownerOf_eq_none]
  push Not
  simp only [Bool.not_eq_false]

variable (hkeys : (cells.map fun cell => (cell.rowIndex, cell.columnIndex)).Nodup)
include hkeys

theorem ownerOf_eq_some {cell : TableCell ℚ} :
    ownerOf cells token = some cell ↔ IsFirst cells token cell := by
  refine ⟨isFirst_of_ownerOf, fun h => ?_⟩
  have hne : ownerOf cells token ≠ none := fun hnone =>
    absurd h.candidate (by simp [ownerOf_eq_none.mp hnone cell h.mem])
  obtain ⟨owner, howner⟩ := Option.ne_none_iff_exists'.mp hne
  have hfirst := isFirst_of_ownerOf howner
  have hkey := eq_of_rankLess (h.first owner hfirst.mem hfirst.candidate)
    (hfirst.first cell h.mem h.candidate)
  have hsame : owner = cell :=
    List.inj_on_of_nodup_map hkeys hfirst.mem h.mem (Prod.ext hkey.1 hkey.2)
  rw [howner, hsame]

/-- **The owner** does not depend on how the cells are stored. -/
theorem ownerOf_perm {cells' : List (TableCell ℚ)} (h : cells'.Perm cells) :
    ownerOf cells' token = ownerOf cells token := by
  have hkeys' := (h.map fun cell => (cell.rowIndex, cell.columnIndex)).nodup_iff.mpr hkeys
  ext cell
  rw [ownerOf_eq_some hkeys, ownerOf_eq_some hkeys']
  constructor
  · exact fun hfirst => ⟨h.mem_iff.mp hfirst.mem, hfirst.candidate, fun other hother =>
      hfirst.first other (h.mem_iff.mpr hother)⟩
  · exact fun hfirst => ⟨h.mem_iff.mpr hfirst.mem, hfirst.candidate, fun other hother =>
      hfirst.first other (h.mem_iff.mp hother)⟩

/-- The place that the loop chooses is that of the owner. -/
theorem best_place {index : Nat} (hindex : index < cells.length) :
    (chooseCell cells token).best.map Prod.fst = some index ↔
      ownerOf cells token = some cells[index] := by
  unfold ownerOf
  cases hbest : (chooseCell cells token).best with
  | none => simp
  | some best =>
    have hplace : (chooseCell cells token).best = some (best.1, best.2) := hbest
    obtain ⟨cell, hget, -⟩ := chooseCell_some hplace
    obtain ⟨hlt, hcell⟩ := List.getElem?_eq_some_iff.mp hget
    rw [Option.map_some, Option.bind_some, hget, ← hcell, Option.some.injEq, Option.some.injEq,
      (List.Nodup.of_map _ hkeys).getElem_inj_iff]

end Owner

/-! ## The run over the tokens -/

section Run

variable {cells : List (TableCell ℚ)} {tableBox : BBox ℚ}

/-- The token goes to the cell. -/
def isOwned (cells : List (TableCell ℚ)) (cell : TableCell ℚ) (token : TableTextToken ℚ) : Bool :=
  isUsable token && ownerOf cells token == some cell

def statsOf (cells : List (TableCell ℚ)) (tableBox : BBox ℚ)
    (tokens : List (TableTextToken ℚ)) : TableTextAssignmentStats where
  assignedTokens := tokens.countP fun token => isUsable token && (ownerOf cells token).isSome
  ambiguousTokens := tokens.countP fun token =>
    isUsable token && decide (1 < cells.countP (isCandidate token))
  unassignedTokens := tokens.countP fun token => isUsable token &&
    ((ownerOf cells token).isNone && (validBox tableBox && centerInside tableBox token.bbox))

theorem candidates_eq (token : TableTextToken ℚ) :
    (chooseCell cells token).candidates = cells.countP (isCandidate token) := by
  rw [chooseCell_eq]

/-- Without an owner a token has no candidates to choose from. -/
theorem candidates_of_none {token : TableTextToken ℚ} (h : ownerOf cells token = none) :
    cells.countP (isCandidate token) = 0 :=
  List.countP_eq_zero.mpr fun cell hcell => by simp [ownerOf_eq_none.mp h cell hcell]

/-- What one token adds to the counters. -/
theorem statsOf_append (tokens : List (TableTextToken ℚ)) (token : TableTextToken ℚ) :
    statsOf cells tableBox (tokens ++ [token]) =
      ⟨(statsOf cells tableBox tokens).assignedTokens +
          if isUsable token && (ownerOf cells token).isSome then 1 else 0,
        (statsOf cells tableBox tokens).ambiguousTokens +
          if isUsable token && decide (1 < cells.countP (isCandidate token)) then 1 else 0,
        (statsOf cells tableBox tokens).unassignedTokens +
          if isUsable token && ((ownerOf cells token).isNone &&
            (validBox tableBox && centerInside tableBox token.bbox)) then 1 else 0⟩ := by
  unfold statsOf
  simp only [List.countP_append, List.countP_singleton]

variable (hkeys : (cells.map fun cell => (cell.rowIndex, cell.columnIndex)).Nodup)
include hkeys

theorem modify_found {tokens : List (TableTextToken ℚ)} {token : TableTextToken ℚ} {index : Nat}
    {rank : CellRank ℚ} (husable : isUsable token = true)
    (hbest : (chooseCell cells token).best = some (index, rank)) :
    (cells.map fun cell => tokens.filter (isOwned cells cell)).modify index (· ++ [token]) =
      cells.map fun cell => (tokens ++ [token]).filter (isOwned cells cell) := by
  refine List.ext_getElem (by simp) fun i hi hi' => ?_
  have hlt : i < cells.length := by simpa using hi'
  have howned : isOwned cells cells[i] token = true ↔ index = i := by
    unfold isOwned
    rw [husable, Bool.true_and, beq_iff_eq, ← best_place hkeys hlt, hbest, Option.map_some,
      Option.some.injEq]
  rw [List.getElem_modify, List.getElem_map, List.getElem_map, List.filter_append,
    List.filter_singleton]
  by_cases heq : index = i
  · rw [if_pos heq, howned.mpr heq]
    rfl
  · rw [if_neg heq, Bool.eq_false_iff.mpr fun h => heq (howned.mp h)]
    exact (List.append_nil _).symm

/-- **One token.** -/
theorem assignToken_eq (tokens : List (TableTextToken ℚ)) (token : TableTextToken ℚ) :
    assignToken cells tableBox ⟨cells.map fun cell => tokens.filter (isOwned cells cell),
        statsOf cells tableBox tokens⟩ token =
      ⟨cells.map fun cell => (tokens ++ [token]).filter (isOwned cells cell),
        statsOf cells tableBox (tokens ++ [token])⟩ := by
  have hskip : (∀ cell, isOwned cells cell token = false) →
      (cells.map fun cell => (tokens ++ [token]).filter (isOwned cells cell)) =
        cells.map fun cell => tokens.filter (isOwned cells cell) := by
    intro hnot
    refine List.map_congr_left fun cell _ => ?_
    rw [List.filter_append, List.filter_singleton, hnot cell]
    exact List.append_nil _
  unfold assignToken
  rw [statsOf_append]
  by_cases husable : isUsable token = true
  · rw [husable, Bool.not_true, if_neg Bool.false_ne_true]
    simp only [Bool.true_and]
    have hisSome := ownerOf_isSome cells token
    cases hbest : (chooseCell cells token).best with
    | none =>
      have hnone : ownerOf cells token = none := by
        rw [hbest] at hisSome
        simpa using hisSome
      rw [hskip fun cell => by simp [isOwned, hnone], hnone, candidates_of_none hnone]
      by_cases hinside : (validBox tableBox && centerInside tableBox token.bbox) = true
      · simp [hinside]
      · simp [hinside]
    | some best =>
      obtain ⟨index, rank⟩ := best
      have howner : (ownerOf cells token).isSome = true := by
        rw [hisSome, hbest]
        rfl
      have hisNone : (ownerOf cells token).isNone = false := by
        rw [← Option.not_isSome, howner]
        rfl
      dsimp only
      rw [modify_found hkeys husable hbest, candidates_eq, howner, hisNone]
      simp
  · rw [Bool.not_eq_true] at husable
    rw [hskip fun cell => by simp [isOwned, husable], husable]
    rfl

/-- **A run** over the tokens. -/
theorem foldl_assignToken (tokens : List (TableTextToken ℚ)) :
    tokens.foldl (assignToken cells tableBox) ⟨cells.map fun _ => [], ⟨0, 0, 0⟩⟩ =
      ⟨cells.map fun cell => tokens.filter (isOwned cells cell),
        statsOf cells tableBox tokens⟩ := by
  induction tokens using List.reverseRecOn with
  | nil => rfl
  | append_singleton tokens token ih =>
    rw [List.foldl_append, ih]
    exact assignToken_eq hkeys tokens token

end Run

/-! ## The filled table -/

section Table

theorem zipWith_append_drop {σ τ υ : Type} (f : σ → τ → υ) (l l' : List σ) : ∀ m : List τ,
    List.zipWith f (l ++ l') m = List.zipWith f l m ++ List.zipWith f l' (m.drop l.length) := by
  induction l with
  | nil => exact fun _ => rfl
  | cons a l ih =>
    intro m
    cases m with
    | nil => simp
    | cons b m => exact congrArg (f a b :: ·) (ih m)

theorem allCells_fillRows (rows : List (TableRow ℚ)) : ∀ found : List (List (TableTextToken ℚ)),
    allCells (fillRows rows found) = List.zipWith fillCell (allCells rows) found := by
  induction rows with
  | nil => exact fun _ => rfl
  | cons row rows ih =>
    intro found
    show List.zipWith fillCell row.cells found ++ allCells (fillRows rows _) =
      List.zipWith fillCell (row.cells ++ allCells rows) found
    rw [ih, zipWith_append_drop]

variable {table : Table ℚ}

/-- **The filled cells** hold the tokens that they own. -/
theorem assignTableText_eq (tokens : List (TableTextToken ℚ))
    (hkeys : ((allCells table.rows).map fun cell => (cell.rowIndex, cell.columnIndex)).Nodup) :
    allCells (assignTableText table tokens).1.rows = (allCells table.rows).map (fun cell =>
        fillCell cell (tokens.filter (isOwned (allCells table.rows) cell))) ∧
      (assignTableText table tokens).2 = statsOf (allCells table.rows) table.bbox tokens := by
  unfold assignTableText
  dsimp only
  rw [foldl_assignToken hkeys, allCells_fillRows, List.zipWith_map_right, List.zipWith_self]
  exact ⟨rfl, rfl⟩

/-- The tokens that are counted have a candidate or lie in the table. -/
theorem statsOf_total (cells : List (TableCell ℚ)) (tableBox : BBox ℚ)
    (tokens : List (TableTextToken ℚ)) :
    (statsOf cells tableBox tokens).assignedTokens +
        (statsOf cells tableBox tokens).unassignedTokens =
      tokens.countP fun token => isUsable token && (cells.any (isCandidate token) ||
        (validBox tableBox && centerInside tableBox token.bbox)) := by
  induction tokens using List.reverseRecOn with
  | nil => rfl
  | append_singleton tokens token ih =>
    rw [statsOf_append, List.countP_append, List.countP_singleton, ← ih]
    dsimp only
    rw [← ownerOf_isSome_eq_any]
    cases ownerOf cells token with
    | none =>
      simp only [Option.isSome_none, Option.isNone_none, Bool.and_false, Bool.true_and,
        Bool.false_or, Bool.false_eq_true, if_false]
      omega
    | some cell =>
      simp only [Option.isSome_some, Option.isNone_some, Bool.and_true, Bool.false_and,
        Bool.and_false, Bool.true_or, Bool.false_eq_true, if_false]
      omega

theorem statsOf_perm {cells cells' : List (TableCell ℚ)} (tableBox : BBox ℚ)
    (tokens : List (TableTextToken ℚ))
    (hkeys : (cells.map fun cell => (cell.rowIndex, cell.columnIndex)).Nodup)
    (h : cells'.Perm cells) : statsOf cells' tableBox tokens = statsOf cells tableBox tokens := by
  unfold statsOf
  have hcount : ∀ token, cells'.countP (isCandidate token) = cells.countP (isCandidate token) :=
    fun token => h.countP_eq _
  simp only [ownerOf_perm hkeys h, hcount]

/-- **Assignment of texts.** A usable token goes to at most one cell, which contains its centre and
covers it best, and to one if there is any; the counters add up; and the order in which the rows
and cells are stored changes no cell and no counter. -/
theorem assignTableText_spec (table : Table ℚ) (tokens : List (TableTextToken ℚ))
    (hkeys : ((allCells table.rows).map fun cell => (cell.rowIndex, cell.columnIndex)).Nodup) :
    (∃ owner : TableTextToken ℚ → Option (TableCell ℚ),
      allCells (assignTableText table tokens).1.rows = (allCells table.rows).map (fun cell =>
        fillCell cell (tokens.filter fun token => isUsable token && owner token == some cell)) ∧
      (∀ token cell, owner token = some cell → IsOwner (allCells table.rows) token cell) ∧
      ∀ token, owner token = none →
        ∀ cell ∈ allCells table.rows, isCandidate token cell = false) ∧
      (assignTableText table tokens).2.assignedTokens +
          (assignTableText table tokens).2.unassignedTokens =
        tokens.countP (fun token => isUsable token &&
          ((allCells table.rows).any (isCandidate token) ||
            (validBox table.bbox && centerInside table.bbox token.bbox))) ∧
      ∀ table' : Table ℚ, table'.bbox = table.bbox →
        (allCells table'.rows).Perm (allCells table.rows) →
          (assignTableText table' tokens).2 = (assignTableText table tokens).2 ∧
            (allCells (assignTableText table' tokens).1.rows).Perm
              (allCells (assignTableText table tokens).1.rows) := by
  obtain ⟨hcells, hstats⟩ := assignTableText_eq tokens hkeys
  refine ⟨⟨ownerOf (allCells table.rows), hcells, fun token cell howner =>
    (isFirst_of_ownerOf howner).isOwner, fun token hnone => ownerOf_eq_none.mp hnone⟩, ?_, ?_⟩
  · rw [hstats, statsOf_total]
  · intro table' hbbox hperm
    have hkeys' := (hperm.map fun cell => (cell.rowIndex, cell.columnIndex)).nodup_iff.mpr hkeys
    obtain ⟨hcells', hstats'⟩ := assignTableText_eq tokens hkeys'
    have howned : ∀ cell, isOwned (allCells table'.rows) cell =
        isOwned (allCells table.rows) cell := by
      intro cell
      funext token
      unfold isOwned
      rw [ownerOf_perm hkeys hperm]
    refine ⟨?_, ?_⟩
    · rw [hstats, hstats', hbbox, statsOf_perm table.bbox tokens hkeys hperm]
    · rw [hcells, hcells']
      simp only [howned]
      exact hperm.map _

/-- Two overlapping cells in two rows. -/
def overlapping (swapped : Bool) : Table ℚ where
  id := "table_1"
  layoutBlockId := "block_1"
  pageIndex := 0
  pageNumber := 1
  bbox := ⟨0, 0, 100, 60⟩
  confidence := 1
  sourceLabel := "table"
  continuationGroupId := ""
  continuesFromPreviousPage := false
  continuesOnNextPage := false
  columns := []
  rows :=
    let rows := [
      ⟨0, ⟨0, 0, 100, 40⟩, 1, false, [⟨0, 0, 1, 1, false, "", ⟨0, 0, 100, 40⟩, 1, []⟩]⟩,
      ⟨1, ⟨0, 20, 100, 60⟩, 1, false, [⟨1, 0, 1, 1, false, "", ⟨0, 20, 100, 60⟩, 1, []⟩]⟩]
    if swapped then rows.reverse else rows
  structureObjects := []
  textMode := .cells

/-- A token in the middle of the overlap and one in the second row. -/
def overlappingTokens : List (TableTextToken ℚ) :=
  [⟨"shared", ⟨10, 28, 30, 32⟩, 1⟩, ⟨"below", ⟨10, 50, 30, 54⟩, 1⟩]

theorem assignTableText_spec_overlapping :
    (assignTableText (overlapping true) overlappingTokens).2 =
        (assignTableText (overlapping false) overlappingTokens).2 ∧
      (allCells (assignTableText (overlapping true) overlappingTokens).1.rows).Perm
        (allCells (assignTableText (overlapping false) overlappingTokens).1.rows) :=
  (assignTableText_spec (overlapping false) overlappingTokens (by decide)).2.2 (overlapping true)
    rfl (by decide +kernel)

example : (allCells (assignTableText (overlapping true) overlappingTokens).1.rows).map (·.text) =
    ["below", "shared"] := by decide +kernel

end Table

end DocParser.TextAssignment
