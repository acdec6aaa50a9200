import Mathlib.Data.List.GetD
import Mathlib.Data.List.Perm.Subperm
import DocParser.Layout.FallbackGroups

/-!
# Dense grids

Groups that stand in rows and columns are merged to one grid, again and again until no grid is
left. `coalesceRound_merges` says what one merge does to the groups. `coalesceDenseGridGroups_spec`:
the merging ends, since every merge uses up groups without a label, and it keeps the lines.
-/

namespace DocParser.Layout

open Document

section Definitions

variable {α : Type} [Double α]

def groupCenterX (group : FallbackLineGroup α) : α := (group.bbox.x0 + group.bbox.x1) * 0.5

def groupCenterY (group : FallbackLineGroup α) : α := (group.bbox.y0 + group.bbox.y1) * 0.5

/-- The loop over the sorted coordinates. The cluster so far has `size` members around `mean`. -/
def alignedClusters (tolerance : α) : Nat → α → List α → Nat
  | size, _, [] => if 2 ≤ size then 1 else 0
  | size, mean, value :: rest =>
    if Double.abs (value - mean) ≤ tolerance then
      alignedClusters tolerance (size + 1)
        ((mean * Double.ofInt (size : Int) + value) / Double.ofInt (size + 1 : Int)) rest
    else (if 2 ≤ size then 1 else 0) + alignedClusters tolerance 1 value rest

def alignedClusterCount (groups : List (FallbackLineGroup α)) (indices : List Nat)
    (coordinate : FallbackLineGroup α → α) (tolerance : α) : Nat :=
  match sortBy (fun a b => decide (a < b))
    (indices.map fun index => coordinate (groups.getD index default)) with
  | [] => 0
  | value :: rest => alignedClusters tolerance 1 value rest

/-- The sizes that a page sets for its grids. -/
structure GridScale (α : Type) where
  pageWidth : α
  pageHeight : α
  medianLineHeight : α
  rowTolerance : α
  columnTolerance : α

def gridScale (page : PageArtifact) (medianLineHeight : α) : GridScale α :=
  let pageWidth : α := Double.ofInt (max 1 page.width)
  let pageHeight : α := Double.ofInt (max 1 page.height)
  { pageWidth := pageWidth
    pageHeight := pageHeight
    medianLineHeight := medianLineHeight
    rowTolerance := Double.max (medianLineHeight * 1.50) (pageHeight * 0.012)
    columnTolerance := Double.max (medianLineHeight * 2.50) (pageWidth * 0.025) }

variable (scale : GridScale α) (groups : List (FallbackLineGroup α))

def groupAt (index : Nat) : FallbackLineGroup α := groups.getD index default

/-- A small group without a label. -/
def isGridCandidate (group : FallbackLineGroup α) : Bool :=
  group.sourceLabel.isEmpty && decide (group.lineIndices.length ≤ 3) &&
    decide (group.bbox.x1 - group.bbox.x0 ≤ scale.pageWidth * 0.45) &&
    decide (group.bbox.y1 - group.bbox.y0 ≤
      Double.max (scale.medianLineHeight * 3.25) (scale.pageHeight * 0.06))

def gridCandidates : List Nat :=
  (List.range groups.length).filter fun index => isGridCandidate scale (groupAt groups index)

/-- Neighbours in a row or in a column. -/
def gridNeighbors (lhs rhs : FallbackLineGroup α) : Bool :=
  let sameRow := decide (Double.abs (groupCenterY lhs - groupCenterY rhs) ≤ scale.rowTolerance)
  let sameColumn := decide (Double.abs (lhs.bbox.x0 - rhs.bbox.x0) ≤ scale.columnTolerance)
  (sameRow && decide (intervalGap lhs.bbox.x0 lhs.bbox.x1 rhs.bbox.x0 rhs.bbox.x1 ≤
      scale.pageWidth * 0.35)) ||
    (sameColumn && decide (intervalGap lhs.bbox.y0 lhs.bbox.y1 rhs.bbox.y0 rhs.bbox.y1 ≤
      Double.max (scale.medianLineHeight * 8.0) (scale.pageHeight * 0.18)))

/-- The loop over a growing component. Positions below `cursor` are done, and `visited` holds
those that some component has. A position joins one component only, so there are no more steps
than candidates. -/
def growComponent (candidates : List Nat) : Nat → Nat → List Nat → List Nat → List Nat
  | 0, _, component, _ => component
  | steps + 1, cursor, component, visited =>
    match component[cursor]? with
    | none => component
    | some lhs =>
      let new := (List.range candidates.length).filter fun rhs =>
        !visited.contains rhs && gridNeighbors scale (groupAt groups (candidates.getD lhs 0))
          (groupAt groups (candidates.getD rhs 0))
      growComponent candidates steps (cursor + 1) (component ++ new) (visited ++ new)

def isGrid (component : List Nat) : Bool :=
  decide (6 ≤ component.length) &&
    decide (2 ≤ alignedClusterCount groups component groupCenterY scale.rowTolerance) &&
    decide (2 ≤ alignedClusterCount groups component (fun group => group.bbox.x0)
      scale.columnTolerance)

/-- The first component that is a grid. -/
def selectGrid (candidates : List Nat) : List Nat → List Nat → Option (List Nat)
  | [], _ => none
  | start :: rest, visited =>
    if visited.contains start then selectGrid candidates rest visited
    else
      let positions := growComponent scale groups candidates candidates.length 0 [start]
        (start :: visited)
      let component := positions.map fun position => candidates.getD position 0
      if isGrid scale groups component then some component
      else selectGrid candidates rest (visited ++ positions)

/-- An unlabelled group that stands in a grid without being part of it. -/
def insideGrid (gridBBox : BBox α) (group : FallbackLineGroup α) : Bool :=
  let margin := scale.medianLineHeight * 2.0
  group.sourceLabel.isEmpty && !decide (4 < group.lineIndices.length) &&
    decide (group.bbox.y1 - group.bbox.y0 ≤ scale.medianLineHeight * 6.0) &&
    decide (gridBBox.x0 - margin ≤ groupCenterX group) &&
    decide (groupCenterX group ≤ gridBBox.x1 + margin) &&
    decide (gridBBox.y0 - margin ≤ groupCenterY group) &&
    decide (groupCenterY group ≤ gridBBox.y1 + margin)

/-- The groups that are merged with a selected component, in ascending order. -/
def mergeIndices (selected : List Nat) : List Nat :=
  let gridBBox := selected.foldl (fun bbox index => expandBBox bbox (groupAt groups index).bbox)
    (groupAt groups (selected.headD 0)).bbox
  (List.range groups.length).filter fun index =>
    selected.contains index || insideGrid scale gridBBox (groupAt groups index)

def mergeGroups (text : PageText α) (indices : List Nat) : FallbackLineGroup α :=
  let first := groupAt groups (indices.headD 0)
  let lineIndices := sortLineIndicesRowWise text
    (indices.flatMap fun index => (groupAt groups index).lineIndices) scale.medianLineHeight
  { bbox := indices.foldl (fun bbox index => expandBBox bbox (groupAt groups index).bbox) first.bbox
    lastLineBBox := lineBBox text (lineIndices.getLast?.getD 0)
    lineIndices := lineIndices
    sourceLabel := "text_grid_fallback" }

/-- The merged group takes the place of the first group that it replaces. -/
def replaceGroups (merged : FallbackLineGroup α) (indices : List Nat) :
    List (FallbackLineGroup α) :=
  (List.range groups.length).flatMap fun index =>
    (if index = indices.headD 0 then [merged] else []) ++
      if index ∈ indices then [] else [groupAt groups index]

/-- One round: the groups after a merge and how many were merged. -/
def coalesceRound (text : PageText α) : Option (List (FallbackLineGroup α) × Nat) :=
  let candidates := gridCandidates scale groups
  if candidates.length < 6 then none
  else
    match selectGrid scale groups candidates (List.range candidates.length) [] with
    | none => none
    | some selected =>
      let indices := mergeIndices scale groups selected
      some (replaceGroups groups (mergeGroups scale groups text indices) indices, indices.length)

/-- The loop. `none` is a run that is not over after the rounds. -/
def coalesceLoop (text : PageText α) :
    Nat → List (FallbackLineGroup α) → Nat → Option (List (FallbackLineGroup α) × Nat)
  | 0, _, _ => none
  | rounds + 1, groups, coalesced =>
    match coalesceRound scale groups text with
    | none => some (groups, coalesced)
    | some (groups, merged) => coalesceLoop text rounds groups (coalesced + merged)

/-- `coalesceDenseGridGroups`: the groups and the number of coalesced ones. -/
def coalesceDenseGridGroups (text : PageText α) (page : PageArtifact)
    (groups : List (FallbackLineGroup α)) (medianLineHeight : α) :
    Option (List (FallbackLineGroup α) × Nat) :=
  if groups.length < 6 ∨ medianLineHeight ≤ 0 then some (groups, 0)
  else coalesceLoop (gridScale page medianLineHeight) text (groups.length + 1) groups 0

end Definitions

/-! ## The groups that a merge replaces -/

section Replace

variable {α : Type} [Double α] {scale : GridScale α} {groups : List (FallbackLineGroup α)}
  {text : PageText α} {indices : List Nat}

theorem map_groupAt_range (groups : List (FallbackLineGroup α)) :
    (List.range groups.length).map (groupAt groups) = groups :=
  map_getD_range groups default

variable (groups) in
/-- The groups are those of the indices and the others. -/
theorem groups_perm (hindices : ∃ p, indices = (List.range groups.length).filter p) :
    groups.Perm (indices.map (groupAt groups) ++
      ((List.range groups.length).filter fun i => i ∉ indices).map (groupAt groups)) := by
  obtain ⟨p, rfl⟩ := hindices
  have hothers : ((List.range groups.length).filter fun i =>
      decide (i ∉ (List.range groups.length).filter p)) =
      (List.range groups.length).filter fun i => !p i := by
    refine List.filter_congr fun i hi => ?_
    cases hp : p i <;> simp [List.mem_range.mp hi, hp]
  rw [hothers, ← List.map_append]
  refine List.Perm.trans (List.Perm.of_eq (map_groupAt_range groups).symm) ?_
  exact (List.filter_append_perm p _).symm.map _

/-- **A replacement** puts the merged group in the place of the first group of the indices, and
leaves those of no index where they are. -/
theorem replaceGroups_eq (merged : FallbackLineGroup α) (hlt : ∀ i ∈ indices, i < groups.length)
    (hne : indices ≠ []) :
    ∃ before after, replaceGroups groups merged indices = before ++ merged :: after ∧
      before ++ after =
        ((List.range groups.length).filter fun i => i ∉ indices).map (groupAt groups) := by
  have hhead : indices.headD 0 ∈ indices := by
    cases indices with
    | nil => exact absurd rfl hne
    | cons i rest => exact List.mem_cons_self ..
  set kept : Nat → List (FallbackLineGroup α) :=
    fun i => if i ∈ indices then [] else [groupAt groups i] with hkept
  have hothers : ∀ l : List Nat,
      l.flatMap kept = (l.filter fun i => i ∉ indices).map (groupAt groups) := by
    intro l
    induction l with
    | nil => rfl
    | cons i l ih =>
      rw [List.flatMap_cons, ih, hkept]
      by_cases h : i ∈ indices <;> simp [h]
  have hskip : ∀ l : List Nat, indices.headD 0 ∉ l →
      (l.flatMap fun i => (if i = indices.headD 0 then [merged] else []) ++ kept i) =
        l.flatMap kept := by
    intro l hl
    refine List.flatMap_congr fun i hi => ?_
    rw [if_neg (ne_of_mem_of_not_mem hi hl), List.nil_append]
  obtain ⟨front, back, hrange⟩ := List.append_of_mem (List.mem_range.mpr (hlt _ hhead))
  have hnodup := hrange ▸ @List.nodup_range groups.length
  obtain ⟨hback, hfront⟩ := List.nodup_middle.mp hnodup |> List.nodup_cons.mp |>.imp_left fun h =>
    not_or.mp (mt List.mem_append.mpr h)
  refine ⟨front.flatMap kept, back.flatMap kept, ?_, ?_⟩
  · unfold replaceGroups
    rw [hrange, List.flatMap_append, List.flatMap_cons, hskip front hback.1, hskip back hback.2,
      if_pos rfl, if_pos hhead]
    rfl
  · rw [hrange, ← hothers, List.flatMap_append, List.flatMap_cons,
      show kept (indices.headD 0) = [] from if_pos hhead, List.nil_append]

theorem mergeGroups_perm : ((mergeGroups scale groups text indices).lineIndices).Perm
    (groupLines (indices.map (groupAt groups))) := by
  refine (sortLineIndicesRowWise_perm _ _).trans (List.Perm.of_eq ?_)
  unfold groupLines
  rw [List.flatMap_map]

end Replace

/-! ## The groups of a grid -/

section Selection

variable {α : Type} [Double α] {scale : GridScale α} {groups : List (FallbackLineGroup α)}
  {candidates : List Nat}

theorem growComponent_lt {n : Nat} (hn : candidates.length = n) :
    ∀ (steps cursor : Nat) (component visited : List Nat), (∀ i ∈ component, i < n) →
      ∀ i ∈ growComponent scale groups candidates steps cursor component visited, i < n := by
  intro steps
  induction steps with
  | zero => exact fun _ _ _ h => h
  | succ steps ih =>
    intro cursor component visited h
    unfold growComponent
    split
    · exact h
    · refine ih _ _ _ fun i hi => ?_
      rcases List.mem_append.mp hi with hi | hi
      · exact h i hi
      · rw [← hn]
        exact List.mem_range.mp (List.mem_filter.mp hi).1

/-- A position joins a component once. -/
theorem growComponent_nodup (steps : Nat) : ∀ {cursor : Nat} {component visited : List Nat},
    component.Nodup → (∀ i ∈ component, i ∈ visited) →
      (growComponent scale groups candidates steps cursor component visited).Nodup := by
  induction steps with
  | zero => exact fun h _ => h
  | succ steps ih =>
    intro cursor component visited h hsub
    unfold growComponent
    split
    · exact h
    · refine ih (h.append (List.nodup_range.filter _) ?_) ?_
      · intro i hi hnew
        have hfresh := (List.mem_filter.mp hnew).2
        simp [hsub i hi] at hfresh
      · intro i hi
        exact List.mem_append.mpr ((List.mem_append.mp hi).imp_left (hsub i))

/-- **A selected component** is made of six candidates or more. -/
theorem selectGrid_spec {selected : List Nat} (hnodup : candidates.Nodup) (starts : List Nat) :
    ∀ visited : List Nat, (∀ i ∈ starts, i < candidates.length) →
      selectGrid scale groups candidates starts visited = some selected →
      6 ≤ selected.length ∧ selected.Nodup ∧ ∀ i ∈ selected, i ∈ candidates := by
  induction starts with
  | nil => intro visited _ h; cases h
  | cons start rest ih =>
    intro visited hlt h
    have hrest := fun i hi => hlt i (List.mem_cons_of_mem _ hi)
    unfold selectGrid at h
    dsimp only at h
    split at h
    · exact ih _ hrest h
    split at h
    next hgrid =>
      obtain rfl := Option.some.inj h
      have hpositions := @growComponent_lt α _ scale groups candidates _ rfl candidates.length 0
        [start] (start :: visited) fun j hj => by
          rw [List.mem_singleton.mp hj]
          exact hlt start (List.mem_cons_self ..)
      refine ⟨?_, ?_, ?_⟩
      · unfold isGrid at hgrid
        simp only [Bool.and_eq_true, decide_eq_true_eq] at hgrid
        exact hgrid.1.1
      · refine List.Nodup.map_on ?_ (growComponent_nodup _ (List.nodup_singleton start) ?_)
        · intro i hi j hj heq
          rw [List.getD_eq_getElem _ _ (hpositions i hi),
            List.getD_eq_getElem _ _ (hpositions j hj)] at heq
          exact (hnodup.getElem_inj_iff).mp heq
        · intro i hi
          rw [List.mem_singleton.mp hi]
          exact List.mem_cons_self ..
      · intro i hi
        obtain ⟨position, hposition, rfl⟩ := List.mem_map.mp hi
        rw [List.getD_eq_getElem _ _ (hpositions position hposition)]
        exact List.getElem_mem _
    · exact ih _ hrest h

end Selection

/-! ## One merge -/

/-- The groups that a merge replaces, and what they are merged to. -/
structure GridMerge (α : Type) where
  replaced : List (FallbackLineGroup α)
  merged : FallbackLineGroup α

section Merge

variable {α : Type} [Double α] {scale : GridScale α} {groups groups' : List (FallbackLineGroup α)}
  {text : PageText α} {merge : GridMerge α} {n : Nat}

structure Merges (groups groups' : List (FallbackLineGroup α)) (merge : GridMerge α) : Prop where
  many : 6 ≤ merge.replaced.length
  unlabelled : ∀ group ∈ merge.replaced, group.sourceLabel = ""
  labelled : merge.merged.sourceLabel = "text_grid_fallback"
  lines : merge.merged.lineIndices.Perm (groupLines merge.replaced)
  bbox : ∃ first ∈ merge.replaced,
    merge.merged.bbox = (merge.replaced.map (·.bbox)).foldl expandBBox first.bbox
  place : ∃ before after, groups' = before ++ merge.merged :: after ∧
    (before ++ after).Sublist groups ∧ groups.Perm (before ++ after ++ merge.replaced)

theorem isEmpty_of_isGridCandidate {group : FallbackLineGroup α}
    (h : isGridCandidate scale group = true) : group.sourceLabel = "" := by
  unfold isGridCandidate at h
  simp only [Bool.and_eq_true] at h
  exact String.isEmpty_iff.mp h.1.1.1

theorem isEmpty_of_insideGrid {group : FallbackLineGroup α} {gridBBox : BBox α}
    (h : insideGrid scale gridBBox group = true) : group.sourceLabel = "" := by
  unfold insideGrid at h
  simp only [Bool.and_eq_true] at h
  exact String.isEmpty_iff.mp h.1.1.1.1.1.1

/-- Selected groups and those inside their grid, as places in the list. -/
theorem mergeIndices_spec {selected : List Nat}
    (h : selectGrid scale groups (gridCandidates scale groups)
      (List.range (gridCandidates scale groups).length) [] = some selected) :
    6 ≤ (mergeIndices scale groups selected).length ∧
      ∀ i ∈ mergeIndices scale groups selected,
        i < groups.length ∧ (groupAt groups i).sourceLabel = "" := by
  obtain ⟨hmany, hnodup, hmem⟩ := selectGrid_spec (List.nodup_range.filter _) _ _
    (fun i hi => List.mem_range.mp hi) h
  have hselected : ∀ i ∈ selected, i ∈ mergeIndices scale groups selected := fun i hi =>
    List.mem_filter.mpr ⟨(List.mem_filter.mp (hmem i hi)).1, by simp [hi]⟩
  refine ⟨hmany.trans (List.subperm_of_subset hnodup hselected).length_le, fun i hi => ?_⟩
  refine ⟨List.mem_range.mp (List.mem_filter.mp hi).1, ?_⟩
  rcases Bool.or_eq_true _ _ ▸ (List.mem_filter.mp hi).2 with hsel | hinside
  · exact isEmpty_of_isGridCandidate (List.mem_filter.mp (hmem i (by simpa using hsel))).2
  · exact isEmpty_of_insideGrid hinside

/-- **One round** merges once. -/
theorem coalesceRound_merges (h : coalesceRound scale groups text = some (groups', n)) :
    ∃ merge, Merges groups groups' merge ∧ n = merge.replaced.length := by
  unfold coalesceRound at h
  dsimp only at h
  split at h
  · cases h
  cases hselect : selectGrid scale groups (gridCandidates scale groups)
      (List.range (gridCandidates scale groups).length) [] with
  | none => rw [hselect] at h; cases h
  | some selected =>
    rw [hselect] at h
    obtain ⟨rfl, rfl⟩ := Prod.mk.inj (Option.some.inj h)
    obtain ⟨hmany, hmem⟩ := mergeIndices_spec hselect
    set indices := mergeIndices scale groups selected with hindices
    have hfilter : ∃ p, indices = (List.range groups.length).filter p := ⟨_, hindices⟩
    have hne : indices ≠ [] := fun hempty => by simp [hempty] at hmany
    obtain ⟨before, after, hplace, hothers⟩ :=
      replaceGroups_eq (mergeGroups scale groups text indices) (fun i hi => (hmem i hi).1) hne
    refine ⟨⟨indices.map (groupAt groups), mergeGroups scale groups text indices⟩,
      ⟨?_, ?_, rfl, mergeGroups_perm, ?_, before, after, hplace, ?_, ?_⟩, ?_⟩
    · rwa [List.length_map]
    · intro group hgroup
      obtain ⟨i, hi, rfl⟩ := List.mem_map.mp hgroup
      exact (hmem i hi).2
    · refine ⟨groupAt groups (indices.headD 0), List.mem_map_of_mem ?_, ?_⟩
      · cases hcons : indices with
        | nil => exact absurd hcons hne
        | cons i rest => exact List.mem_cons_self ..
      · rw [List.map_map, List.foldl_map]
        rfl
    · rw [hothers]
      have hsub := (@List.filter_sublist _ (fun i => i ∉ indices)
        (List.range groups.length)).map (groupAt groups)
      rwa [map_groupAt_range] at hsub
    · rw [hothers]
      exact (groups_perm groups hfilter).trans List.perm_append_comm
    · exact (List.length_map _).symm

theorem Merges.perm (h : Merges groups groups' merge) :
    ∃ kept, groups'.Perm (merge.merged :: kept) ∧ groups.Perm (kept ++ merge.replaced) := by
  obtain ⟨before, after, rfl, -, hperm⟩ := h.place
  exact ⟨before ++ after, List.perm_middle, hperm⟩

/-- **A merge** keeps the lines. -/
theorem Merges.lines_perm (h : Merges groups groups' merge) :
    (groupLines groups').Perm (groupLines groups) := by
  obtain ⟨kept, hnew, hold⟩ := h.perm
  refine (hnew.flatMap_right _).trans (List.Perm.trans ?_ (hold.flatMap_right _).symm)
  rw [List.flatMap_cons, List.flatMap_append]
  exact (h.lines.append_right _).trans List.perm_append_comm

/-- The groups that may still be merged. -/
def unlabelled (groups : List (FallbackLineGroup α)) : Nat :=
  groups.countP fun group => group.sourceLabel.isEmpty

/-- **A merge** uses up groups without a label. -/
theorem Merges.unlabelled_lt (h : Merges groups groups' merge) :
    Layout.unlabelled groups' < Layout.unlabelled groups := by
  obtain ⟨kept, hnew, hold⟩ := h.perm
  have hreplaced : Layout.unlabelled merge.replaced = merge.replaced.length :=
    List.countP_eq_length.mpr fun group hgroup => by rw [h.unlabelled group hgroup]; rfl
  have hmany := h.many
  unfold Layout.unlabelled at hreplaced ⊢
  rw [hnew.countP_eq, hold.countP_eq, List.countP_cons, List.countP_append, hreplaced, h.labelled,
    if_neg (by decide)]
  omega

theorem Merges.nonempty (h : Merges groups groups' merge) (hgroups : NonemptyGroups groups) :
    NonemptyGroups groups' := by
  obtain ⟨kept, hnew, hold⟩ := h.perm
  have hmany := h.many
  intro group hgroup
  rcases List.mem_cons.mp (hnew.mem_iff.mp hgroup) with rfl | hkept
  · obtain ⟨first, hfirst⟩ := List.exists_mem_of_length_pos (l := merge.replaced) (by omega)
    obtain ⟨line, hline⟩ := List.exists_mem_of_ne_nil _
      (hgroups first (hold.mem_iff.mpr (List.mem_append_right _ hfirst)))
    exact List.ne_nil_of_mem (h.lines.mem_iff.mpr (List.mem_flatMap.mpr ⟨first, hfirst, hline⟩))
  · exact hgroups group (hold.mem_iff.mpr (List.mem_append_left _ hkept))

end Merge

/-! ## Termination -/

section Termination

variable {α : Type} [Double α] {scale : GridScale α} {text : PageText α}
  {groups final : List (FallbackLineGroup α)} {merges : List (GridMerge α)}

/-- The groups that some merges have replaced. -/
def replacedGroups (merges : List (GridMerge α)) : List (FallbackLineGroup α) :=
  merges.flatMap (·.replaced)

/-- The rounds of a run from some groups to the last ones, where no round is left. -/
inductive MergeRun (scale : GridScale α) (text : PageText α) :
    List (FallbackLineGroup α) → List (GridMerge α) → List (FallbackLineGroup α) → Prop
  | done {groups : List (FallbackLineGroup α)} (h : coalesceRound scale groups text = none) :
      MergeRun scale text groups [] groups
  | round {groups groups' final : List (FallbackLineGroup α)} {merge : GridMerge α}
      {merges : List (GridMerge α)}
      (hround : coalesceRound scale groups text = some (groups', merge.replaced.length))
      (hmerge : Merges groups groups' merge) (hrun : MergeRun scale text groups' merges final) :
      MergeRun scale text groups (merge :: merges) final

variable (scale text) in
/-- **The loop** is a run, and it counts the groups that are replaced. -/
theorem coalesceLoop_run (rounds : Nat) : ∀ (groups : List (FallbackLineGroup α)) (coalesced : Nat),
    unlabelled groups < rounds → ∃ merges final, MergeRun scale text groups merges final ∧
      coalesceLoop scale text rounds groups coalesced =
        some (final, coalesced + (replacedGroups merges).length) := by
  induction rounds with
  | zero => exact fun _ _ h => absurd h (Nat.not_lt_zero _)
  | succ rounds ih =>
    intro groups coalesced h
    unfold coalesceLoop
    cases hround : coalesceRound scale groups text with
    | none => exact ⟨[], groups, .done hround, rfl⟩
    | some result =>
      obtain ⟨merge, hmerge, hlength⟩ := coalesceRound_merges hround
      have hless := hmerge.unlabelled_lt
      obtain ⟨merges, final, hrun, hloop⟩ := ih result.1 (coalesced + result.2) (by omega)
      refine ⟨merge :: merges, final, .round ?_ hmerge hrun, ?_⟩
      · rw [hround, ← hlength]
      · show coalesceLoop scale text rounds result.1 (coalesced + result.2) = _
        rw [hloop, hlength, replacedGroups, replacedGroups, List.flatMap_cons, List.length_append,
          Nat.add_assoc]

theorem MergeRun.lines_perm (h : MergeRun scale text groups merges final) :
    (groupLines final).Perm (groupLines groups) := by
  induction h with
  | done => exact .refl _
  | round hround hmerge hrun ih => exact ih.trans hmerge.lines_perm

theorem MergeRun.nonempty (h : MergeRun scale text groups merges final) :
    NonemptyGroups groups → NonemptyGroups final := by
  induction h with
  | done => exact id
  | round hround hmerge hrun ih => exact ih ∘ hmerge.nonempty

/-- **Coalescing** ends, keeps the lines and leaves no group empty. -/
theorem coalesceDenseGridGroups_spec (text : PageText α) (page : PageArtifact)
    (groups : List (FallbackLineGroup α)) (medianLineHeight : α) :
    ∃ groups' n, coalesceDenseGridGroups text page groups medianLineHeight = some (groups', n) ∧
      (groupLines groups').Perm (groupLines groups) ∧
      (NonemptyGroups groups → NonemptyGroups groups') := by
  unfold coalesceDenseGridGroups
  split
  · exact ⟨groups, 0, rfl, .refl _, id⟩
  · obtain ⟨merges, final, hrun, hloop⟩ :=
      coalesceLoop_run (gridScale page medianLineHeight) text _ groups 0
        (Nat.lt_succ_of_le (List.countP_le_length ..))
    exact ⟨final, _, hloop, hrun.lines_perm, hrun.nonempty⟩

end Termination

end DocParser.Layout
