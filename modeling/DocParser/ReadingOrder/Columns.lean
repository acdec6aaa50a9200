import DocParser.Common.Standard
import DocParser.Document.Model

/-!
# Columns of a page

Where the columns of a group of elements lie, and which of them an element touches.
-/

namespace DocParser.ReadingOrder

open Document

/-- An element of a group: its index in the layout and its block. -/
structure PageElement (α : Type) where
  layoutBlockIndex : Nat
  block : LayoutBlock α
  bbox : BBox α
  deriving DecidableEq, Repr

structure Column (α : Type) where
  x0 : α
  x1 : α
  deriving DecidableEq, Repr

structure ColumnCluster (α : Type) where
  members : List Nat
  weightedCenterSum : α
  verticalSupport : α
  deriving DecidableEq, Repr

/-- The first and the last column that an element touches. -/
structure ColumnRange where
  first : Nat
  last : Nat
  deriving DecidableEq, Repr

def ColumnRange.spanning (r : ColumnRange) : Bool := r.first != r.last

section

variable {α : Type} [Double α]

instance : Inhabited (PageElement α) := ⟨⟨0, default, default⟩⟩

def kEpsilon : α := 1.0e-3

def bboxWidth (bbox : BBox α) : α := Double.max 0 (bbox.x1 - bbox.x0)

def bboxHeight (bbox : BBox α) : α := Double.max 0 (bbox.y1 - bbox.y0)

def centerX (bbox : BBox α) : α := (bbox.x0 + bbox.x1) * 0.5

def centerY (bbox : BBox α) : α := (bbox.y0 + bbox.y1) * 0.5

def horizontalOverlap (bbox : BBox α) (column : Column α) : α :=
  Double.max 0 (Double.min bbox.x1 column.x1 - Double.max bbox.x0 column.x0)

def ColumnCluster.center (c : ColumnCluster α) : α :=
  if kEpsilon < c.verticalSupport then c.weightedCenterSum / c.verticalSupport else 0

def median (values : List α) : α :=
  let sorted := sortBy (fun a b => decide (a < b)) values
  let middle := values.length / 2
  if values.isEmpty then 0
  else if values.length % 2 ≠ 0 then sorted.getD middle 0
  else (sorted.getD (middle - 1) 0 + sorted.getD middle 0) * 0.5

/-- The first value at which the cumulative weight reaches half of the total. -/
def weightedMedianLoop (total : α) (last : α) : α → List (α × α) → α
  | _, [] => last
  | cumulative, (value, weight) :: rest =>
    if total ≤ (cumulative + weight) * 2.0 then value
    else weightedMedianLoop total last (cumulative + weight) rest

def weightedMedian (values : List (α × α)) : α :=
  let sorted := sortBy (fun a b => decide (a.1 < b.1)) values
  match sorted.getLast? with
  | none => 0
  | some last =>
    weightedMedianLoop (sorted.foldl (fun t v => t + v.2) 0) last.1 0 sorted

def isPreferredColumnSeed : LayoutBlockType → Bool
  | .text | .list | .unknown => true
  | _ => false

/-- The element at an index. Every index used below is one of the list. -/
def elementAt (elements : List (PageElement α)) (index : Nat) : PageElement α :=
  elements.getD index default

/-- Compares by the top edge, then the left edge, then the layout index. -/
def positionLess (left right : PageElement α) : Bool :=
  if left.bbox.y0 != right.bbox.y0 then decide (left.bbox.y0 < right.bbox.y0)
  else if left.bbox.x0 != right.bbox.x0 then decide (left.bbox.x0 < right.bbox.x0)
  else decide (left.layoutBlockIndex < right.layoutBlockIndex)

def sortedByPosition (elements : List (PageElement α)) (indices : List Nat) : List Nat :=
  sortBy (fun lhs rhs => positionLess (elementAt elements lhs) (elementAt elements rhs)) indices

/-! ## Inference -/

def mergeColumnPair (left right : Column α) : Column α :=
  ⟨Double.min left.x0 right.x0, Double.max left.x1 right.x1⟩

/-- The first pass over the sorted columns, from the column `c` on: neighbours whose gap is at
most the minimum gutter are merged. -/
def mergeCloseColumns (minimumGutter : α) : Column α → List (Column α) → List (Column α)
  | c, [] => [c]
  | c, next :: rest =>
    if next.x0 - c.x1 ≤ minimumGutter then
      mergeCloseColumns minimumGutter (mergeColumnPair c next) rest
    else c :: mergeCloseColumns minimumGutter next rest

/-- The index of the narrowest gap between neighbours, or 0. -/
def narrowestGap (columns : List (Column α)) : Nat :=
  let gaps := List.zipWith (fun c next => next.x0 - c.x1) columns columns.tail
  (gaps.zipIdx.foldl (fun (best : α × Nat) gap => if gap.1 < best.1 then gap else best)
    (Double.largest, 0)).2

def mergeAt : Nat → List (Column α) → List (Column α)
  | 0, c :: next :: rest => mergeColumnPair c next :: rest
  | n + 1, c :: rest => c :: mergeAt n rest
  | _, columns => columns

/-- At most six columns are kept; `excess` counts those above. -/
def mergeExcessColumns : Nat → List (Column α) → List (Column α)
  | 0, columns => columns
  | excess + 1, columns => mergeExcessColumns excess (mergeAt (narrowestGap columns) columns)

def kMaximumColumns : Nat := 6

/-- The cluster whose centre is nearest to `x` within the tolerance. -/
def bestCluster (tolerance x : α) (clusters : List (ColumnCluster α)) : Option Nat :=
  (clusters.zipIdx.foldl (fun (best : Option Nat × α) cluster =>
    let distance := Double.abs (x - cluster.1.center)
    if distance ≤ tolerance ∧ distance < best.2 then (some cluster.2, distance) else best)
    (none, Double.largest)).1

def clusterElements (elements : List (PageElement α)) (tolerance : α) (regular : List Nat) :
    List (ColumnCluster α) :=
  regular.foldl (fun clusters index =>
    let bbox := (elementAt elements index).bbox
    let weight := Double.max 1 (bboxHeight bbox)
    match bestCluster tolerance (centerX bbox) clusters with
    | none => clusters ++ [⟨[index], centerX bbox * weight, weight⟩]
    | some best => clusters.modify best fun c =>
        ⟨c.members ++ [index], c.weightedCenterSum + centerX bbox * weight,
          c.verticalSupport + weight⟩) []

/-- The median edges of a cluster, weighted by height. -/
def clusterColumn (elements : List (PageElement α)) (cluster : ColumnCluster α) : Column α :=
  let edge (f : BBox α → α) := weightedMedian (cluster.members.map fun member =>
    let bbox := (elementAt elements member).bbox
    (f bbox, Double.max 1 (bboxHeight bbox)))
  ⟨edge BBox.x0, edge BBox.x1⟩

def columnsSeparated (minimumGutter : α) (candidate established : Column α) : Bool :=
  decide (candidate.x1 + minimumGutter < established.x0) ||
    decide (established.x1 + minimumGutter < candidate.x0)

def columnLess (lhs rhs : Column α) : Bool :=
  let lhsCenter := (lhs.x0 + lhs.x1) * 0.5
  let rhsCenter := (rhs.x0 + rhs.x1) * 0.5
  if lhsCenter != rhsCenter then decide (lhsCenter < rhsCenter) else decide (lhs.x0 < rhs.x0)

/-- The smallest distance that separates two columns, for a median width and height. -/
def minimumGutter (medianWidth medianHeight : α) : α :=
  Double.max 1 (Double.min (medianHeight * 0.10) (medianWidth * 0.02))

/-- The elements that the inference looks at first. -/
def columnCandidates (elements : List (PageElement α)) (indices : List Nat) : List Nat :=
  let candidates := indices.filter fun i => isPreferredColumnSeed (elementAt elements i).block.type
  if candidates.length < 2 then indices else candidates

def medianWidth (elements : List (PageElement α)) (candidates : List Nat) : α :=
  let bboxes := candidates.map fun i => (elementAt elements i).bbox
  Double.max kEpsilon (weightedMedian ((bboxes.filter fun b => decide (kEpsilon < bboxWidth b)).map
    fun b => (bboxWidth b, Double.max 1 (bboxHeight b))))

def medianHeight (elements : List (PageElement α)) (candidates : List Nat) : α :=
  let bboxes := candidates.map fun i => (elementAt elements i).bbox
  Double.max kEpsilon (median ((bboxes.map bboxHeight).filter fun h => decide (kEpsilon < h)))

/-- The candidates of regular width, sorted by their centres. -/
def regularElements (elements : List (PageElement α)) (candidates : List Nat) (medianWidth : α) :
    List Nat :=
  let regular := candidates.filter fun i =>
    decide (bboxWidth (elementAt elements i).bbox ≤ medianWidth * 1.35 + kEpsilon)
  let regular := if regular.length < Nat.min 2 candidates.length then candidates else regular
  sortBy (fun lhs rhs =>
    let left := (elementAt elements lhs).bbox
    let right := (elementAt elements rhs).bbox
    if centerX left != centerX right then decide (centerX left < centerX right)
    else decide (left.x0 < right.x0)) regular

/-- The columns of the clusters that are strong, or tall and apart from the strong ones. -/
def supportedColumns (elements : List (PageElement α)) (clusters : List (ColumnCluster α))
    (medianHeight gutter : α) : List (Column α) :=
  let strong (c : ColumnCluster α) :=
    decide (2 ≤ c.members.length) || decide (medianHeight * 2.0 ≤ c.verticalSupport)
  (clusters.filter fun c =>
    decide ((clusters.filter strong).length < 2) || strong c ||
      (decide (medianHeight * 0.75 ≤ c.verticalSupport) &&
        (clusters.filter strong).all fun established =>
          columnsSeparated gutter (clusterColumn elements c) (clusterColumn elements established))
    ).map (clusterColumn elements)

def inferColumns (elements : List (PageElement α)) (indices : List Nat) : List (Column α) :=
  if indices.isEmpty then []
  else
    let candidates := columnCandidates elements indices
    let width := medianWidth elements candidates
    let height := medianHeight elements candidates
    let tolerance := Double.max 1 (Double.min (height * 0.75) (width * 0.22))
    let gutter := minimumGutter width height
    let clusters := clusterElements elements tolerance (regularElements elements candidates width)
    match sortBy columnLess (supportedColumns elements clusters height gutter) with
    | [] => []
    | first :: rest =>
      let columns := mergeCloseColumns gutter first rest
      mergeExcessColumns (columns.length - kMaximumColumns) columns

/-! ## Location -/

def columnMatches (bbox : BBox α) (column : Column α) : Bool :=
  let overlap := horizontalOverlap bbox column
  decide (0.10 ≤ overlap / Double.max kEpsilon (bboxWidth bbox)) ||
    decide (0.20 ≤ overlap / Double.max kEpsilon (column.x1 - column.x0))

/-- The column whose centre is nearest. -/
def nearestColumn (bbox : BBox α) (columns : List (Column α)) : Nat :=
  (columns.zipIdx.foldl (fun (best : Nat × α) column =>
    let distance := Double.abs (centerX bbox - (column.1.x0 + column.1.x1) * 0.5)
    if distance < best.2 then (column.2, distance) else best) (0, Double.largest)).1

def locateColumns (bbox : BBox α) (columns : List (Column α)) : ColumnRange :=
  if columns.length ≤ 1 then ⟨0, 0⟩
  else
    let matched := (columns.zipIdx.filter fun column => columnMatches bbox column.1).map (·.2)
    match matched.head?, matched.getLast? with
    | some first, some last => ⟨first, last⟩
    | _, _ => ⟨nearestColumn bbox columns, nearestColumn bbox columns⟩

def spansAllColumns (bbox : BBox α) (columns : List (Column α)) : Bool :=
  match columns.head?, columns.getLast? with
  | some front, some back =>
    decide (2 ≤ columns.length) &&
      let range := locateColumns bbox columns
      range.first == 0 && range.last == columns.length - 1 &&
        decide ((back.x1 - front.x0) * 0.55 ≤ bboxWidth bbox)
  | _, _ => false

end

end DocParser.ReadingOrder
