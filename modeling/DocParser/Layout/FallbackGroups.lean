import Mathlib.Data.List.Dedup
import DocParser.Layout.Lines

/-!
# Fallback groups

Lines that no block owns are gathered into groups: a line joins the nearest group that it
continues, or starts one. `groupFallbackLines_perm` says that every line ends up in one group.
Columns of line numbers at the margin are found by `detectRepeatedMarginalia`.
-/

namespace DocParser.Layout

open Document

structure FallbackLineGroup (α : Type) where
  bbox : BBox α
  lastLineBBox : BBox α
  lineIndices : List Int
  sourceLabel : String
  deriving DecidableEq, Repr

section Grouping

variable {α : Type} [Double α]

instance : Inhabited (FallbackLineGroup α) := ⟨⟨default, default, [], ""⟩⟩

def canJoinFallbackGroup (previous current : BBox α) : Bool :=
  let previousHeight := Double.max 0 (previous.y1 - previous.y0)
  let currentHeight := Double.max 0 (current.y1 - current.y0)
  let referenceHeight := Double.max previousHeight currentHeight
  let shorterHeight := Double.min previousHeight currentHeight
  if referenceHeight ≤ 0 ∨ shorterHeight ≤ 0 then false
  else
    let overlapY := Double.max 0
      (Double.min previous.y1 current.y1 - Double.max previous.y0 current.y0)
    if 0.50 ≤ overlapY / shorterHeight then
      decide (intervalGap previous.x0 previous.x1 current.x0 current.x1 ≤ referenceHeight * 0.75)
    else
      let verticalGap := current.y0 - previous.y1
      if verticalGap < 0 - referenceHeight * 0.25 ∨ referenceHeight * 1.60 < verticalGap then false
      else
        let previousWidth := Double.max 0 (previous.x1 - previous.x0)
        let currentWidth := Double.max 0 (current.x1 - current.x0)
        let overlapX := horizontalOverlap previous current
        let overlapRatio := overlapX / Double.max 1.0e-3 (Double.min previousWidth currentWidth)
        let leftEdgeDelta := Double.abs (previous.x0 - current.x0)
        decide (0.25 ≤ overlapRatio) || decide (leftEdgeDelta ≤ referenceHeight * 2.5)

/-- The nearest group that a line continues. -/
def bestGroup (groups : List (FallbackLineGroup α)) (bbox : BBox α) : Option Nat :=
  (groups.zipIdx.foldl (fun (best : Option Nat × α) p =>
    let last := p.1.lastLineBBox
    if !canJoinFallbackGroup last bbox then best
    else
      let distance := Double.max 0 (bbox.y0 - last.y1) + Double.abs (bbox.x0 - last.x0) * 0.10
      if distance < best.2 then (some p.2, distance) else best)
    (none, Double.largest)).1

def joinGroup (bbox : BBox α) (lineIndex : Int) (group : FallbackLineGroup α) :
    FallbackLineGroup α :=
  { group with
    bbox := expandBBox group.bbox bbox
    lastLineBBox := bbox
    lineIndices := group.lineIndices ++ [lineIndex] }

def addToGroups (text : PageText α) (groups : List (FallbackLineGroup α)) (lineIndex : Int) :
    List (FallbackLineGroup α) :=
  let bbox := lineBBox text lineIndex
  match bestGroup groups bbox with
  | none => groups ++ [⟨bbox, bbox, [lineIndex], ""⟩]
  | some best => groups.modify best (joinGroup bbox lineIndex)

def groupFallbackLines (text : PageText α) (lineIndices : List Int) (medianLineHeight : α) :
    List (FallbackLineGroup α) :=
  ((sortBy (linePositionLess text) lineIndices).foldl (addToGroups text) []).map fun group =>
    { group with lineIndices := sortLineIndicesRowWise text group.lineIndices medianLineHeight }

end Grouping

/-! ## Every line in one group -/

section GroupLines

variable {α : Type} [Double α] {text : PageText α}

/-- All lines of some groups. -/
def groupLines (groups : List (FallbackLineGroup α)) : List Int :=
  groups.flatMap (·.lineIndices)

omit [Double α] in
/-- A change of one member that adds parts adds them to the whole. -/
theorem flatMap_modify_perm {σ τ : Type} {parts : σ → List τ} {f : σ → σ} {new : List τ}
    (h : ∀ x, (parts (f x)).Perm (parts x ++ new)) (l : List σ) :
    ∀ {i : Nat}, i < l.length → ((l.modify i f).flatMap parts).Perm (l.flatMap parts ++ new) := by
  induction l with
  | nil => intro i hi; simp at hi
  | cons x l ih =>
    intro i hi
    cases i with
    | zero =>
      rw [List.modify_zero_cons, List.flatMap_cons, List.flatMap_cons]
      refine ((h x).append_right _).trans ?_
      rw [List.append_assoc, List.append_assoc]
      exact List.perm_append_comm.append_left _
    | succ i =>
      rw [List.modify_succ_cons, List.flatMap_cons, List.flatMap_cons, List.append_assoc]
      exact (ih (by simpa using hi)).append_left _

theorem bestGroup_lt {groups : List (FallbackLineGroup α)} {bbox : BBox α} {i : Nat}
    (h : bestGroup groups bbox = some i) : i < groups.length := by
  refine foldl_zipIdx_lt (fun best p => ?_) groups _ h
  dsimp only
  split_ifs
  · exact Or.inl rfl
  · exact Or.inr rfl
  · exact Or.inl rfl

theorem addToGroups_perm (groups : List (FallbackLineGroup α)) (lineIndex : Int) :
    (groupLines (addToGroups text groups lineIndex)).Perm (groupLines groups ++ [lineIndex]) := by
  unfold addToGroups
  dsimp only
  cases hbest : bestGroup groups (lineBBox text lineIndex) with
  | none => exact List.Perm.of_eq (by simp [groupLines])
  | some best => exact flatMap_modify_perm (fun _ => .refl _) groups (bestGroup_lt hbest)

variable (text) in
theorem foldl_addToGroups_perm (lines : List Int) : ∀ groups : List (FallbackLineGroup α),
    (groupLines (lines.foldl (addToGroups text) groups)).Perm (groupLines groups ++ lines) := by
  induction lines with
  | nil => intro groups; simp
  | cons index lines ih =>
    intro groups
    refine (ih _).trans (((addToGroups_perm groups index).append_right lines).trans ?_)
    rw [List.append_assoc]
    rfl

/-- **Grouping** puts every line into one group. -/
theorem groupFallbackLines_perm (lineIndices : List Int) (medianLineHeight : α) :
    (groupLines (groupFallbackLines text lineIndices medianLineHeight)).Perm lineIndices := by
  have hsorted : ∀ groups : List (FallbackLineGroup α),
      (groupLines (groups.map fun group =>
        { group with lineIndices :=
            sortLineIndicesRowWise text group.lineIndices medianLineHeight })).Perm
        (groupLines groups) := by
    intro groups
    induction groups with
    | nil => exact .refl _
    | cons group groups ih => exact (sortLineIndicesRowWise_perm _ _).append ih
  refine (hsorted _).trans ((foldl_addToGroups_perm text _ []).trans ?_)
  exact sortBy_perm _ lineIndices

/-- No group is empty. -/
def NonemptyGroups (groups : List (FallbackLineGroup α)) : Prop :=
  ∀ group ∈ groups, group.lineIndices ≠ []

theorem addToGroups_nonempty {groups : List (FallbackLineGroup α)} (lineIndex : Int)
    (h : NonemptyGroups groups) : NonemptyGroups (addToGroups text groups lineIndex) := by
  intro group hgroup
  unfold addToGroups at hgroup
  dsimp only at hgroup
  cases hbest : bestGroup groups (lineBBox text lineIndex) with
  | none =>
    rw [hbest] at hgroup
    rcases List.mem_append.mp hgroup with hold | hnew
    · exact h group hold
    · rw [List.mem_singleton.mp hnew]
      exact List.cons_ne_nil _ _
  | some best =>
    rw [hbest] at hgroup
    obtain ⟨i, hi, rfl⟩ := List.getElem_of_mem hgroup
    rw [List.getElem_modify]
    split
    · exact List.append_ne_nil_of_right_ne_nil _ (List.cons_ne_nil _ _)
    · exact h _ (List.getElem_mem _)

theorem groupFallbackLines_nonempty (lineIndices : List Int) (medianLineHeight : α) :
    NonemptyGroups (groupFallbackLines text lineIndices medianLineHeight) := by
  have hfold : NonemptyGroups
      ((sortBy (linePositionLess text) lineIndices).foldl (addToGroups text) []) :=
    List.foldlRecOn _ _ (fun _ h => absurd h List.not_mem_nil) fun groups hgroups index _ =>
      addToGroups_nonempty index hgroups
  intro group hgroup
  obtain ⟨old, hold, rfl⟩ := List.mem_map.mp hgroup
  intro hnil
  have hperm := @sortLineIndicesRowWise_perm α _ text old.lineIndices medianLineHeight
  rw [show sortLineIndicesRowWise text old.lineIndices medianLineHeight = [] from hnil] at hperm
  exact hfold old hold hperm.symm.eq_nil

end GroupLines

/-! ## Marginalia -/

section Marginalia

variable {α : Type} [Double α]

def isTrimmed (c : Char) : Bool := c == ' ' || c == '\t' || c == '\r' || c == '\n'

/-- A text of one to four digits, up to surrounding blanks. -/
def parseDecimalMarker (text : String) : Option Int :=
  let marker := ((text.toList.dropWhile isTrimmed).reverse.dropWhile isTrimmed).reverse
  if marker.isEmpty || decide (4 < marker.length) || !marker.all isDigit then none
  else some (marker.foldl (fun value c => value * 10 + (c.toNat - 48 : Nat)) (0 : Int))

structure DecimalMarker (α : Type) where
  lineIndex : Int
  value : Int
  centerX : α
  centerY : α
  deriving DecidableEq, Repr

instance : Inhabited (DecimalMarker α) := ⟨⟨-1, 0, 0, 0⟩⟩

def decimalMarker? (text : PageText α) (page : PageArtifact) (medianLineHeight : α)
    (lineIndex : Int) : Option (DecimalMarker α) :=
  let line := lineAt text lineIndex
  let width := line.bbox.x1 - line.bbox.x0
  let maximumWidth := Double.max (Double.ofInt (max 1 page.width) * 0.05) (medianLineHeight * 5.0)
  match parseDecimalMarker line.text with
  | none => none
  | some value =>
    if maximumWidth < width then none
    else some ⟨lineIndex, value, (line.bbox.x0 + line.bbox.x1) * 0.5,
      (line.bbox.y0 + line.bbox.y1) * 0.5⟩

/-- The nearest cluster whose mean lies within the tolerance. -/
def bestCluster (xTolerance : α) (clusters : List (List (DecimalMarker α)))
    (marker : DecimalMarker α) : Option Nat :=
  (clusters.zipIdx.foldl (fun (best : Option Nat × α) p =>
    let meanX := p.1.foldl (fun sum member => sum + member.centerX) 0 /
      Double.ofInt (p.1.length : Int)
    let distance := Double.abs (marker.centerX - meanX)
    if distance ≤ xTolerance ∧ distance < best.2 then (some p.2, distance) else best)
    (none, Double.largest)).1

def addToClusters (xTolerance : α) (clusters : List (List (DecimalMarker α)))
    (marker : DecimalMarker α) : List (List (DecimalMarker α)) :=
  match bestCluster xTolerance clusters marker with
  | none => clusters ++ [[marker]]
  | some best => clusters.modify best fun cluster => cluster ++ [marker]

/-- A tall cluster whose values go up or down in steps of about one size. -/
def isMarginalia (page : PageArtifact) (medianLineHeight : α) (cluster : List (DecimalMarker α)) :
    Bool :=
  let sorted := sortBy (fun lhs rhs => decide (lhs.centerY < rhs.centerY)) cluster
  let requiredSpan := Double.max (Double.ofInt (max 1 page.height) * 0.25) (medianLineHeight * 12.0)
  let span := (sorted.getLast?.getD default).centerY - (sorted.headD default).centerY
  let differences := (sorted.zip sorted.tail).map fun p => p.2.value - p.1.value
  let positiveSteps := differences.countP fun d => decide (0 < d)
  let negativeSteps := differences.countP fun d => decide (d < 0)
  let direction : Int := if negativeSteps ≤ positiveSteps then 1 else -1
  let directionalSteps := ((differences.map (· * direction)).filter fun d => decide (0 < d)).map
    fun d => (Double.ofInt d : α)
  let transitionCount : α := Double.ofInt ((cluster.length : Int) - 1)
  let typicalStep := median directionalSteps
  let consistentSteps := directionalSteps.countP fun step =>
    decide (typicalStep * 0.45 ≤ step) && decide (step ≤ typicalStep * 2.25)
  decide (4 ≤ cluster.length) && !decide (span < requiredSpan) &&
    !decide ((directionalSteps.length : Int) < Double.ceil (transitionCount * 0.80)) &&
    !(decide (typicalStep ≤ 0) ||
      decide ((consistentSteps : Int) < Double.ceil (transitionCount * 0.75)))

def detectRepeatedMarginalia (text : PageText α) (page : PageArtifact) (lineIndices : List Int)
    (medianLineHeight : α) : List Int :=
  let markers := sortBy (fun lhs rhs => decide (lhs.centerX < rhs.centerX))
    (lineIndices.filterMap (decimalMarker? text page medianLineHeight))
  let xTolerance := Double.max (Double.max 4.0 (medianLineHeight * 1.25))
    (Double.ofInt (max 1 page.width) * 0.008)
  let clusters := markers.foldl (addToClusters xTolerance) []
  ((clusters.filter (isMarginalia page medianLineHeight)).flatMap fun cluster =>
    cluster.map (·.lineIndex)).dedup

theorem addToClusters_mem {xTolerance : α} {clusters : List (List (DecimalMarker α))}
    {marker : DecimalMarker α} {cluster : List (DecimalMarker α)}
    (hcluster : cluster ∈ addToClusters xTolerance clusters marker) {m : DecimalMarker α}
    (hm : m ∈ cluster) : m = marker ∨ ∃ old ∈ clusters, m ∈ old := by
  unfold addToClusters at hcluster
  split at hcluster
  · rcases List.mem_append.mp hcluster with hold | hnew
    · exact .inr ⟨cluster, hold, hm⟩
    · rw [List.mem_singleton.mp hnew] at hm
      exact .inl (List.mem_singleton.mp hm)
  · obtain ⟨i, hi, rfl⟩ := List.getElem_of_mem hcluster
    rw [List.getElem_modify] at hm
    split at hm
    · rcases List.mem_append.mp hm with hold | hnew
      · exact .inr ⟨_, List.getElem_mem _, hold⟩
      · exact .inl (List.mem_singleton.mp hnew)
    · exact .inr ⟨_, List.getElem_mem _, hm⟩

/-- **Marginalia** are found among the lines that are searched. -/
theorem detectRepeatedMarginalia_subset (text : PageText α) (page : PageArtifact)
    {lineIndices : List Int} {medianLineHeight : α} {index : Int}
    (h : index ∈ detectRepeatedMarginalia text page lineIndices medianLineHeight) :
    index ∈ lineIndices := by
  obtain ⟨cluster, hcluster, hindex⟩ := List.mem_flatMap.mp (List.mem_dedup.mp h)
  obtain ⟨marker, hmarker, rfl⟩ := List.mem_map.mp hindex
  have hfold : ∀ (tolerance : α) (markers : List (DecimalMarker α)),
      ∀ cluster ∈ markers.foldl (addToClusters tolerance) [], ∀ m ∈ cluster, m ∈ markers := by
    intro tolerance markers
    refine List.foldlRecOn (motive := fun clusters => ∀ cluster ∈ clusters, ∀ m ∈ cluster,
      m ∈ markers) markers (addToClusters tolerance) (fun _ h => absurd h List.not_mem_nil)
      fun clusters hclusters marker hmem cluster hcluster m hm => ?_
    rcases addToClusters_mem hcluster hm with rfl | ⟨old, hold, hin⟩
    · exact hmem
    · exact hclusters old hold m hin
  have hmem := hfold _ _ cluster (List.mem_filter.mp hcluster).1 marker hmarker
  obtain ⟨line, hline, hdecimal⟩ := List.mem_filterMap.mp ((sortBy_perm _ _).mem_iff.mp hmem)
  unfold decimalMarker? at hdecimal
  dsimp only at hdecimal
  split at hdecimal
  · cases hdecimal
  · split at hdecimal
    · cases hdecimal
    · obtain rfl := Option.some.inj hdecimal
      exact hline

end Marginalia

end DocParser.Layout
