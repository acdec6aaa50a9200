import DocParser.Layout.Recovery

/-!
# Reads of lines

The recovery with every read of a line in it: a read at an index that the text does not have stops
the run. `recover_inRange_iff` says which runs stop: those that attach a group to a block which lists
such an index, since the lines of the block are sorted with those of the group. All other reads
are of lines that were collected from the text, or behind a check.
-/

namespace DocParser.Layout.Checked

open Document

inductive ReadError where
  | outOfRange (index : Int)
  /-- The last element of an empty list. -/
  | noElement
  /-- The merging of dense grids is not over. -/
  | notOver
  deriving DecidableEq, Repr

section Definitions

variable {α : Type} [Double α] (text : PageText α)

/-- `text.lines[index]` -/
def readLine (index : Int) : Except ReadError (TextLine α) :=
  match lineAt? text index with
  | none => .error (.outOfRange index)
  | some line => .ok line

def readLines (lines : List Int) : Except ReadError (List (TextLine α)) :=
  lines.mapM (readLine text)

/-- A sort of two lines or more compares each of them with another one. -/
def sortLines (less : Int → Int → Bool) (lines : List Int) : Except ReadError (List Int) := do
  let _ ← readLines text (if 2 ≤ lines.length then lines else [])
  return sortBy less lines

def sortRow (row : List Int) : Except ReadError (List Int) :=
  sortLines text (fun lhs rhs => decide ((lineBBox text lhs).x0 < (lineBBox text rhs).x0)) row

def sortRows (rowTolerance : α) : List Int → α → List Int → Except ReadError (List Int)
  | row, _, [] => sortRow text row
  | row, rowY, index :: rest => do
    let line ← readLine text index
    if rowTolerance < line.bbox.y0 - rowY then
      let sorted ← sortRow text row
      let others ← sortRows rowTolerance [index] line.bbox.y0 rest
      return sorted ++ others
    else sortRows rowTolerance (row ++ [index]) rowY rest

def sortLineIndicesRowWise (lineIndices : List Int) (medianLineHeight : α) :
    Except ReadError (List Int) := do
  let sorted ← sortLines text (linePositionLess text) lineIndices
  match sorted with
  | [] => return []
  | first :: rest =>
    let line ← readLine text first
    sortRows text (Double.max 1 (medianLineHeight * 0.50)) [first] line.bbox.y0 rest

def addToGroups (groups : List (FallbackLineGroup α)) (lineIndex : Int) :
    Except ReadError (List (FallbackLineGroup α)) := do
  let line ← readLine text lineIndex
  match bestGroup groups line.bbox with
  | none => return groups ++ [⟨line.bbox, line.bbox, [lineIndex], ""⟩]
  | some best => return groups.modify best (joinGroup line.bbox lineIndex)

def sortGroup (medianLineHeight : α) (group : FallbackLineGroup α) :
    Except ReadError (FallbackLineGroup α) := do
  let lineIndices ← sortLineIndicesRowWise text group.lineIndices medianLineHeight
  return { group with lineIndices := lineIndices }

def groupFallbackLines (lineIndices : List Int) (medianLineHeight : α) :
    Except ReadError (List (FallbackLineGroup α)) := do
  let sorted ← sortLines text (linePositionLess text) lineIndices
  let groups ← sorted.foldlM (addToGroups text) []
  groups.mapM (sortGroup text medianLineHeight)

def mergeGroups (scale : GridScale α) (groups : List (FallbackLineGroup α)) (indices : List Nat) :
    Except ReadError (FallbackLineGroup α) := do
  let first := groupAt groups (indices.headD 0)
  let lineIndices ← sortLineIndicesRowWise text
    (indices.flatMap fun index => (groupAt groups index).lineIndices) scale.medianLineHeight
  match lineIndices.getLast? with
  | none => .error .noElement
  | some last =>
    let line ← readLine text last
    return {
      bbox := indices.foldl (fun bbox index => expandBBox bbox (groupAt groups index).bbox)
        first.bbox
      lastLineBBox := line.bbox
      lineIndices := lineIndices
      sourceLabel := "text_grid_fallback" }

def coalesceRound (scale : GridScale α) (groups : List (FallbackLineGroup α)) :
    Except ReadError (Option (List (FallbackLineGroup α) × Nat)) :=
  let candidates := gridCandidates scale groups
  if candidates.length < 6 then return none
  else
    match selectGrid scale groups candidates (List.range candidates.length) [] with
    | none => return none
    | some selected => do
      let indices := mergeIndices scale groups selected
      let merged ← mergeGroups text scale groups indices
      return some (replaceGroups groups merged indices, indices.length)

def coalesceLoop (scale : GridScale α) :
    Nat → List (FallbackLineGroup α) → Nat → Except ReadError (List (FallbackLineGroup α) × Nat)
  | 0, _, _ => .error .notOver
  | rounds + 1, groups, coalesced => do
    match ← coalesceRound text scale groups with
    | none => return (groups, coalesced)
    | some (groups, merged) => coalesceLoop scale rounds groups (coalesced + merged)

def coalesceDenseGridGroups (page : PageArtifact) (groups : List (FallbackLineGroup α))
    (medianLineHeight : α) : Except ReadError (List (FallbackLineGroup α) × Nat) :=
  if groups.length < 6 ∨ medianLineHeight ≤ 0 then return (groups, 0)
  else coalesceLoop text (gridScale page medianLineHeight) (groups.length + 1) groups 0

def isLargeTopHeading (group : FallbackLineGroup α) (medianLineHeight : α) :
    Except ReadError Bool :=
  if medianLineHeight ≤ 0 ∨ group.lineIndices.isEmpty ∨ 2 < group.lineIndices.length ∨
      ¬ group.lineIndices.all (inRange text) then return false
  else do
    let lines ← readLines text group.lineIndices
    return decide (8 ≤ visibleCharacterCount (fallbackGroupText text group)) &&
      decide (medianLineHeight * 1.75 ≤
        median (lines.map fun line => line.bbox.y1 - line.bbox.y0))

/-- A heading is measured; the other reads skip an index that is not there. -/
def recoveredGroupType (page : PageArtifact) (blocks : List (LayoutBlock α))
    (medianLineHeight : α) (group : FallbackLineGroup α) : Except ReadError LayoutBlockType := do
  let _ ← isLargeTopHeading text group medianLineHeight
  return Layout.recoveredGroupType text page blocks group medianLineHeight

def attachGroups (page : PageArtifact) (medianLineHeight : α) :
    List (FallbackLineGroup α) → List (LayoutBlock α) → Except ReadError
      (List (LayoutBlock α) × List (FallbackLineGroup α) × List (FallbackLineGroup α))
  | [], blocks => return (blocks, [], [])
  | group :: rest, blocks =>
    match attachmentTarget text group blocks page medianLineHeight with
    | none => do
      let (blocks, unattached, attached) ← attachGroups page medianLineHeight rest blocks
      return (blocks, group :: unattached, attached)
    | some target => do
      let block := blocks.getD target default
      let lineIndices ← sortLineIndicesRowWise text (block.textLineIndices ++ group.lineIndices)
        medianLineHeight
      let (blocks, unattached, attached) ← attachGroups page medianLineHeight rest
        (blocks.set target { block with
          textLineIndices := lineIndices
          bbox := expandBBox block.bbox group.bbox })
      return (blocks, unattached, group :: attached)

def detectLineColumns (block : LayoutBlock α) (medianHeight : α) :
    Except ReadError (List (LineColumn α)) :=
  if !block.textLineIndices.all (inRange text) then return []
  else do
    let _ ← readLines text block.textLineIndices
    let _ ← sortLines text (lineCenterLess text) block.textLineIndices
    return Layout.detectLineColumns text block medianHeight

def lineColumns (block : LayoutBlock α) : Except ReadError (List (LineColumn α)) :=
  if !supportsLineRefinement block.type || block.sourceLabel == "text_grid_fallback" ||
      decide (block.textLineIndices.length < 4) then return []
  else
    let valid := block.textLineIndices.all fun index =>
      inRange text index && validBBox (lineBBox text index)
    let heights := block.textLineIndices.map fun index =>
      Double.max 0 ((lineBBox text index).y1 - (lineBBox text index).y0)
    let medianHeight := median (if valid then heights else [])
    if medianHeight ≤ 0 then return [] else detectLineColumns text block medianHeight

def refineBlock (block : LayoutBlock α) : Except ReadError (LayoutBlock α × Option Nat) := do
  let columns ← lineColumns text block
  let sorted ← columns.mapM fun column =>
    sortLines text (linePositionLess text) column.lineIndices
  if columns.isEmpty || sorted.flatten == block.textLineIndices then return (block, none)
  else return ({ block with textLineIndices := sorted.flatten }, some columns.length)

def refineMultiColumnTextLineOrder (blocks : List (LayoutBlock α)) :
    Except ReadError (LayoutRefinementStats × List (LayoutBlock α)) := do
  let refined ← blocks.mapM (refineBlock text)
  let columns := refined.filterMap (·.2)
  return (⟨columns.length, columns.foldl max 1⟩, refined.map (·.1))

/-- The lines that the search for unassigned ones looks at. -/
def searchedLines (blocks : List (LayoutBlock α)) : List Int :=
  ((List.range text.lines.length).map Int.ofNat).filter fun index => !isAssigned blocks index

def recoverUnassignedTextLines (page : PageArtifact) (layout : PageLayout α) :
    Except ReadError (LayoutRecoveryStats × PageLayout α) := do
  let medianLineHeight := medianTextLineHeight text
  let _ ← readLines text (searchedLines text layout.blocks)
  let _ ← readLines text (recoverableLines text layout.blocks)
  let grouped ← groupFallbackLines text (recoveredLines text page layout.blocks) medianLineHeight
  let (groups, coalesced) ← coalesceDenseGridGroups text page grouped medianLineHeight
  let typed ← groups.mapM fun group => do
    let type ← recoveredGroupType text page layout.blocks medianLineHeight group
    return (group, type)
  let headerGroups := (typed.filter fun p => p.2 == .header).map (·.1)
  let footerGroups := (typed.filter fun p => p.2 == .footer).map (·.1)
  let bodyGroups := (typed.filter fun p => !isFurniture p.2).map (·.1)
  let (blocks, unattached, attached) ←
    attachGroups text page medianLineHeight bodyGroups layout.blocks
  let appended := unattached.map (fallbackBlock layout.pageNumber .text) ++
    headerGroups.map (fallbackBlock layout.pageNumber .header) ++
    footerGroups.map (fallbackBlock layout.pageNumber .footer)
  let (_, refined) ← refineMultiColumnTextLineOrder text (blocks ++ appended)
  return ({
      recoveredLines := (groupLines attached).length + (blockLines appended).length
      recoveredFurnitureLines :=
        (groupLines headerGroups).length + (groupLines footerGroups).length
      preservedEdgeBodyLines := (groupLines (bodyGroups.filter (isEdgeGroup page))).length
      attachedLines := (groupLines attached).length
      attachedGroups := attached.length
      coalescedGridGroups := coalesced
      skippedMarginaliaLines := (skippedMarginaliaLines text page layout.blocks).length
      fallbackBlocks := appended.length
      skippedFurnitureLines := (skippedFurnitureLines text layout.blocks).length },
    { layout with blocks := refined })

end Definitions

/-! ## Loops without a failure -/

section Loops

variable {ε σ τ : Type} {l : List σ}

theorem ok_bind (a : σ) (f : σ → Except ε τ) : (Except.ok a >>= f) = f a := rfl

theorem mapM_ok {f : σ → Except ε τ} {g : σ → τ} (h : ∀ a ∈ l, f a = .ok (g a)) :
    l.mapM f = .ok (l.map g) := by
  induction l with
  | nil => rfl
  | cons a l ih =>
    obtain ⟨ha, hl⟩ := List.forall_mem_cons.mp h
    rw [List.mapM_cons, ha, ih hl]
    rfl

theorem foldlM_ok {f : τ → σ → Except ε τ} {g : τ → σ → τ} (h : ∀ b, ∀ a ∈ l, f b a = .ok (g b a)) :
    ∀ b, l.foldlM f b = .ok (l.foldl g b) := by
  induction l with
  | nil => exact fun _ => rfl
  | cons a l ih =>
    intro b
    rw [List.foldlM_cons, h b a (List.mem_cons_self ..)]
    exact ih (fun b a ha => h b a (List.mem_cons_of_mem _ ha)) (g b a)

end Loops

/-! ## Sorted lines -/

section Sorts

variable {α : Type} [Double α] {text : PageText α} {lines : List Int}

/-- The lines that the text has. -/
def InRange (text : PageText α) (lines : List Int) : Prop :=
  ∀ index ∈ lines, inRange text index = true

/-- A run that stops at a read out of range. -/
def StopsOutOfRange {σ : Type} (run : Except ReadError σ) : Prop :=
  ∃ index, run = .error (.outOfRange index)

omit [Double α] in
theorem InRange.of_perm {lines' : List Int} (h : InRange text lines) (hperm : lines'.Perm lines) :
    InRange text lines' := fun index hindex => h index (hperm.mem_iff.mp hindex)

theorem readLine_ok {index : Int} (h : inRange text index = true) :
    readLine text index = .ok (lineAt text index) := by
  obtain ⟨hnonneg, hlt⟩ := inRange_iff.mp h
  unfold readLine lineAt? lineAt
  rw [if_neg (not_lt.mpr hnonneg), List.getElem?_eq_getElem hlt, List.getD_eq_getElem _ _ hlt]

omit [Double α] in
theorem readLine_error {index : Int} (h : inRange text index = false) :
    readLine text index = .error (.outOfRange index) := by
  unfold readLine lineAt?
  by_cases hneg : index < 0
  · rw [if_pos hneg]
  · have hge : text.lines.length ≤ index.toNat := by
      by_contra hlt
      rw [inRange_iff.mpr ⟨not_lt.mp hneg, not_le.mp hlt⟩] at h
      cases h
    rw [if_neg hneg, List.getElem?_eq_none hge]

theorem readLines_ok (h : InRange text lines) :
    readLines text lines = .ok (lines.map (lineAt text)) :=
  mapM_ok fun index hindex => readLine_ok (h index hindex)

theorem readLines_error (h : ¬ InRange text lines) : StopsOutOfRange (readLines text lines) := by
  induction lines with
  | nil => exact absurd (fun _ h => absurd h List.not_mem_nil) h
  | cons index lines ih =>
    unfold readLines
    rw [List.mapM_cons]
    cases hindex : inRange text index with
    | false => exact ⟨index, by rw [readLine_error hindex]; rfl⟩
    | true =>
      obtain ⟨other, hother⟩ := ih fun hlines => h (List.forall_mem_cons.mpr ⟨hindex, hlines⟩)
      unfold readLines at hother
      exact ⟨other, by rw [readLine_ok hindex, hother]; rfl⟩

theorem sortLines_ok (less : Int → Int → Bool) (h : InRange text lines) :
    sortLines text less lines = .ok (sortBy less lines) := by
  unfold sortLines
  rw [readLines_ok]
  · rfl
  · intro index hindex
    split at hindex
    · exact h index hindex
    · cases hindex

theorem sortRows_ok (rowTolerance : α) {rest : List Int} (hrest : InRange text rest) :
    ∀ {row : List Int} {rowY : α}, InRange text row →
      sortRows text rowTolerance row rowY rest =
        .ok (Layout.sortRows text rowTolerance row rowY rest) := by
  induction rest with
  | nil => exact fun hrow => sortLines_ok _ hrow
  | cons index rest ih =>
    intro row rowY hrow
    obtain ⟨hindex, hrest⟩ := List.forall_mem_cons.mp hrest
    have hone : InRange text [index] := by simpa [InRange] using hindex
    have hmore : InRange text (row ++ [index]) := List.forall_mem_append.mpr ⟨hrow, hone⟩
    unfold sortRows Layout.sortRows
    rw [readLine_ok hindex]
    show (if rowTolerance < (lineBBox text index).y0 - rowY then _ else _) =
      Except.ok (if _ then _ else _)
    by_cases hnew : rowTolerance < (lineBBox text index).y0 - rowY
    · rw [if_pos hnew, if_pos hnew, show sortRow text row = .ok (Layout.sortRow text row) from
        sortLines_ok _ hrow]
      show (sortRows text rowTolerance [index] (lineBBox text index).y0 rest >>= _) = _
      rw [ih hrest hone]
      rfl
    · rw [if_neg hnew, if_neg hnew]
      exact ih hrest hmore

/-- **A sort by rows** of lines in range. -/
theorem sortLineIndicesRowWise_ok (medianLineHeight : α) (h : InRange text lines) :
    sortLineIndicesRowWise text lines medianLineHeight =
      .ok (Layout.sortLineIndicesRowWise text lines medianLineHeight) := by
  have hsorted := h.of_perm (sortBy_perm (linePositionLess text) lines)
  unfold sortLineIndicesRowWise Layout.sortLineIndicesRowWise
  rw [sortLines_ok _ h]
  show (match sortBy (linePositionLess text) lines with | [] => _ | first :: rest => _) = _
  cases hcons : sortBy (linePositionLess text) lines with
  | nil => rfl
  | cons first rest =>
    rw [hcons] at hsorted
    obtain ⟨hfirst, hrest⟩ := List.forall_mem_cons.mp hsorted
    show (readLine text first >>= _) = _
    rw [readLine_ok hfirst]
    exact sortRows_ok _ hrest (by simpa [InRange] using hfirst)

/-- **A sort by rows** reads every line, so it stops at one that is not there. -/
theorem sortLineIndicesRowWise_error (medianLineHeight : α) (h : ¬ InRange text lines) :
    StopsOutOfRange (sortLineIndicesRowWise text lines medianLineHeight) := by
  unfold sortLineIndicesRowWise sortLines
  by_cases hmany : 2 ≤ lines.length
  · obtain ⟨index, hindex⟩ := readLines_error h
    rw [if_pos hmany, hindex]
    exact ⟨index, rfl⟩
  · rw [if_neg hmany]
    match lines, h, hmany with
    | [], h, _ => exact absurd (fun _ h => absurd h List.not_mem_nil) h
    | [index], h, _ =>
      have hindex : inRange text index = false := by simpa [InRange] using h
      refine ⟨index, ?_⟩
      show (readLine text index >>= _) = _
      rw [readLine_error hindex]
      rfl
    | _ :: _ :: _, _, hmany => exact absurd (Nat.le_add_left 2 _) hmany

end Sorts

/-! ## Groups -/

section Groups

variable {α : Type} [Double α] {text : PageText α} {groups : List (FallbackLineGroup α)}
  {medianLineHeight : α}

theorem addToGroups_ok (groups : List (FallbackLineGroup α)) {index : Int}
    (h : inRange text index = true) :
    addToGroups text groups index = .ok (Layout.addToGroups text groups index) := by
  unfold addToGroups Layout.addToGroups
  rw [readLine_ok h]
  dsimp only
  show (match bestGroup groups (lineBBox text index) with | none => _ | some best => _) = _
  cases bestGroup groups (lineBBox text index) <;> rfl

theorem groupFallbackLines_ok {lines : List Int} (h : InRange text lines) :
    groupFallbackLines text lines medianLineHeight =
      .ok (Layout.groupFallbackLines text lines medianLineHeight) := by
  have hsorted := h.of_perm (sortBy_perm (linePositionLess text) lines)
  have hgroups := hsorted.of_perm (foldl_addToGroups_perm text _ [])
  unfold groupFallbackLines Layout.groupFallbackLines
  rw [sortLines_ok _ h]
  show (List.foldlM (addToGroups text) [] (sortBy (linePositionLess text) lines) >>= _) = _
  rw [foldlM_ok fun groups index hindex => addToGroups_ok groups (hsorted index hindex)]
  refine mapM_ok fun group hgroup => ?_
  unfold sortGroup
  rw [sortLineIndicesRowWise_ok]
  · rfl
  · exact fun index hindex => hgroups index (List.mem_flatMap.mpr ⟨group, hgroup, hindex⟩)

/-- Groups of lines that the text has. -/
structure ReadableGroups (text : PageText α) (groups : List (FallbackLineGroup α)) : Prop where
  nonempty : NonemptyGroups groups
  inRange : InRange text (groupLines groups)

theorem mergeGroups_ok (h : ReadableGroups text groups) (scale : GridScale α) {indices : List Nat}
    (hne : indices ≠ []) (hlt : ∀ i ∈ indices, i < groups.length) :
    mergeGroups text scale groups indices = .ok (Layout.mergeGroups scale groups text indices) := by
  have hmem : ∀ i ∈ indices, groupAt groups i ∈ groups := by
    intro i hi
    unfold groupAt
    rw [List.getD_eq_getElem _ _ (hlt i hi)]
    exact List.getElem_mem _
  have hlines : InRange text (indices.flatMap fun i => (groupAt groups i).lineIndices) := by
    intro index hindex
    obtain ⟨i, hi, hline⟩ := List.mem_flatMap.mp hindex
    exact h.inRange index (List.mem_flatMap.mpr ⟨_, hmem i hi, hline⟩)
  have hperm := @sortLineIndicesRowWise_perm α _ text
    (indices.flatMap fun i => (groupAt groups i).lineIndices) scale.medianLineHeight
  unfold mergeGroups Layout.mergeGroups
  dsimp only
  rw [sortLineIndicesRowWise_ok _ hlines]
  show (match (Layout.sortLineIndicesRowWise text (indices.flatMap fun i =>
    (groupAt groups i).lineIndices) scale.medianLineHeight).getLast? with
      | none => _ | some last => _) = _
  cases hlast : (Layout.sortLineIndicesRowWise text (indices.flatMap fun i =>
      (groupAt groups i).lineIndices) scale.medianLineHeight).getLast? with
  | none =>
    rw [List.getLast?_eq_none_iff.mp hlast] at hperm
    obtain ⟨i, hi⟩ := List.exists_mem_of_ne_nil indices hne
    exact absurd (List.flatMap_eq_nil_iff.mp hperm.symm.eq_nil i hi) (h.nonempty _ (hmem i hi))
  | some last =>
    have hread := hlines last (hperm.mem_iff.mp (List.mem_of_getLast? hlast))
    show (readLine text last >>= _) = _
    rw [readLine_ok hread]
    rfl

theorem coalesceRound_ok (h : ReadableGroups text groups) (scale : GridScale α) :
    coalesceRound text scale groups = .ok (Layout.coalesceRound scale groups text) := by
  unfold coalesceRound Layout.coalesceRound
  dsimp only
  split
  · rfl
  cases hselect : selectGrid scale groups (gridCandidates scale groups)
      (List.range (gridCandidates scale groups).length) [] with
  | none => rfl
  | some selected =>
    obtain ⟨hmany, hmem⟩ := mergeIndices_spec hselect
    have hne : mergeIndices scale groups selected ≠ [] := fun hempty => by simp [hempty] at hmany
    dsimp only
    rw [mergeGroups_ok h scale hne fun i hi => (hmem i hi).1]
    rfl

theorem coalesceLoop_ok (scale : GridScale α) (rounds : Nat) :
    ∀ {groups : List (FallbackLineGroup α)} {coalesced : Nat}
      {result : List (FallbackLineGroup α) × Nat}, ReadableGroups text groups →
      Layout.coalesceLoop scale text rounds groups coalesced = some result →
      coalesceLoop text scale rounds groups coalesced = .ok result := by
  induction rounds with
  | zero => intro _ _ _ _ hresult; cases hresult
  | succ rounds ih =>
    intro groups coalesced result h hresult
    unfold Layout.coalesceLoop at hresult
    unfold coalesceLoop
    rw [coalesceRound_ok h]
    cases hround : Layout.coalesceRound scale groups text with
    | none =>
      rw [hround] at hresult
      obtain rfl := Option.some.inj hresult
      rfl
    | some next =>
      rw [hround] at hresult
      obtain ⟨merge, hmerge, -⟩ := coalesceRound_merges hround
      exact ih ⟨hmerge.nonempty h.nonempty, h.inRange.of_perm hmerge.lines_perm⟩ hresult

/-- **Coalescing** groups of lines in range. -/
theorem coalesceDenseGridGroups_ok (h : ReadableGroups text groups) {page : PageArtifact}
    {result : List (FallbackLineGroup α) × Nat}
    (hresult : Layout.coalesceDenseGridGroups text page groups medianLineHeight = some result) :
    coalesceDenseGridGroups text page groups medianLineHeight = .ok result := by
  unfold Layout.coalesceDenseGridGroups at hresult
  unfold coalesceDenseGridGroups
  split at hresult
  next hfew =>
    obtain rfl := Option.some.inj hresult
    exact if_pos hfew
  next hmany =>
    rw [if_neg hmany]
    exact coalesceLoop_ok _ _ h hresult

variable (text medianLineHeight) in
theorem recoveredGroupType_ok (page : PageArtifact) (blocks : List (LayoutBlock α))
    (group : FallbackLineGroup α) :
    recoveredGroupType text page blocks medianLineHeight group =
      .ok (Layout.recoveredGroupType text page blocks group medianLineHeight) := by
  have hheading : ∃ b, isLargeTopHeading text group medianLineHeight = .ok b := by
    unfold isLargeTopHeading
    split
    next => exact ⟨false, rfl⟩
    next hguard =>
      have hall : InRange text group.lineIndices := by
        simp only [not_or, not_not, List.all_eq_true] at hguard
        exact hguard.2.2.2
      rw [readLines_ok hall]
      exact ⟨_, rfl⟩
  obtain ⟨b, hb⟩ := hheading
  unfold recoveredGroupType
  rw [hb]
  rfl

end Groups

/-! ## Attached groups -/

section Attachments

variable {α : Type} [Double α] {text : PageText α} {page : PageArtifact} {medianLineHeight : α}

/-- The blocks that the groups are attached to, one after the other. -/
def attachmentTargets (text : PageText α) (page : PageArtifact) (medianLineHeight : α) :
    List (FallbackLineGroup α) → List (LayoutBlock α) → List Nat
  | [], _ => []
  | group :: rest, blocks =>
    match attachmentTarget text group blocks page medianLineHeight with
    | none => attachmentTargets text page medianLineHeight rest blocks
    | some target => target :: attachmentTargets text page medianLineHeight rest
      (blocks.modify target (attachGroup text medianLineHeight group))

/-- Each of some blocks lists lines that the text has. -/
def TargetsInRange (text : PageText α) (blocks : List (LayoutBlock α)) (targets : List Nat) : Prop :=
  ∀ target ∈ targets, InRange text (blocks.getD target default).textLineIndices

/-- A group of lines in range does not change which blocks list such lines only. -/
theorem inRange_modify {blocks : List (LayoutBlock α)} {target : Nat}
    {group : FallbackLineGroup α} (hgroup : InRange text group.lineIndices)
    (htarget : InRange text (blocks.getD target default).textLineIndices) (i : Nat) :
    InRange text ((blocks.modify target (attachGroup text medianLineHeight group)).getD i
      default).textLineIndices ↔ InRange text (blocks.getD i default).textLineIndices := by
  rw [List.getD_eq_getElem?_getD] at htarget
  rw [List.getD_eq_getElem?_getD, List.getD_eq_getElem?_getD]
  by_cases hi : target = i
  · subst hi
    rw [List.getElem?_modify_eq]
    cases hblock : blocks[target]? with
    | none => rfl
    | some block =>
      rw [hblock] at htarget
      refine ⟨fun _ => htarget, fun _ => ?_⟩
      exact InRange.of_perm (List.forall_mem_append.mpr ⟨htarget, hgroup⟩)
        (sortLineIndicesRowWise_perm _ _)
  · rw [List.getElem?_modify_ne _ _ hi]

/-- The lines of a group in range attach to a block that lists such lines only. -/
theorem targetsInRange_cons {blocks : List (LayoutBlock α)} {target : Nat}
    {group : FallbackLineGroup α} (hgroup : InRange text group.lineIndices)
    (htarget : InRange text (blocks.getD target default).textLineIndices) (targets : List Nat) :
    TargetsInRange text blocks (target :: targets) ↔
      TargetsInRange text (blocks.modify target (attachGroup text medianLineHeight group))
        targets := by
  unfold TargetsInRange
  rw [List.forall_mem_cons]
  simp only [inRange_modify hgroup htarget, htarget, true_and]

theorem set_attachGroup (group : FallbackLineGroup α) {blocks : List (LayoutBlock α)}
    {target : Nat} (h : target < blocks.length) :
    blocks.set target (attachGroup text medianLineHeight group (blocks.getD target default)) =
      blocks.modify target (attachGroup text medianLineHeight group) := by
  rw [List.getD_eq_getElem _ _ h, List.modify_eq_set_getElem?, List.getElem?_eq_getElem h]
  rfl

variable (page) in
/-- The sort of an attached group, when the block lists lines in range. -/
theorem attachGroups_some {group : FallbackLineGroup α} (rest : List (FallbackLineGroup α))
    {blocks : List (LayoutBlock α)} {target : Nat} (hgroup : InRange text group.lineIndices)
    (htarget : attachmentTarget text group blocks page medianLineHeight = some target)
    (hblock : InRange text (blocks.getD target default).textLineIndices) :
    attachGroups text page medianLineHeight (group :: rest) blocks =
      (do
        let (blocks, unattached, attached) ← attachGroups text page medianLineHeight rest
          (blocks.modify target (attachGroup text medianLineHeight group))
        return (blocks, unattached, group :: attached)) := by
  have hlines : InRange text ((blocks.getD target default).textLineIndices ++ group.lineIndices) :=
    List.forall_mem_append.mpr ⟨hblock, hgroup⟩
  rw [attachGroups, htarget, ← set_attachGroup group (attachmentTarget_lt htarget)]
  dsimp only
  rw [sortLineIndicesRowWise_ok _ hlines]
  rfl

variable (page medianLineHeight) in
/-- **Attaching** ends with what it gives without the reads, or it stops at one of them. -/
theorem attachGroups_cases (groups : List (FallbackLineGroup α)) :
    ∀ {blocks : List (LayoutBlock α)}, InRange text (groupLines groups) →
      (TargetsInRange text blocks (attachmentTargets text page medianLineHeight groups blocks) ∧
        ∃ result, Layout.attachGroups text page medianLineHeight groups blocks = some result ∧
          attachGroups text page medianLineHeight groups blocks = .ok result) ∨
      (¬ TargetsInRange text blocks (attachmentTargets text page medianLineHeight groups blocks) ∧
        StopsOutOfRange (attachGroups text page medianLineHeight groups blocks)) := by
  induction groups with
  | nil => exact fun _ => .inl ⟨fun _ h => absurd h List.not_mem_nil, _, rfl, rfl⟩
  | cons group rest ih =>
    intro blocks hgroups
    obtain ⟨hgroup, hrest⟩ := List.forall_mem_append.mp hgroups
    unfold attachmentTargets Layout.attachGroups
    cases htarget : attachmentTarget text group blocks page medianLineHeight with
    | none =>
      rw [attachGroups, htarget]
      dsimp only
      rcases @ih blocks hrest with ⟨hin, result, hlayout, hchecked⟩ | ⟨hout, index, herror⟩
      · rw [hlayout, hchecked]
        exact .inl ⟨hin, _, rfl, rfl⟩
      · rw [herror]
        exact .inr ⟨hout, index, rfl⟩
    | some target =>
      dsimp only
      by_cases hblock : InRange text (blocks.getD target default).textLineIndices
      · have hall : ((blocks.getD target default).textLineIndices ++ group.lineIndices).all
            (inRange text) = true :=
          List.all_eq_true.mpr (List.forall_mem_append.mpr ⟨hblock, hgroup⟩)
        rw [targetsInRange_cons hgroup hblock, attachGroups_some page rest hgroup htarget hblock,
          hall]
        rcases @ih (blocks.modify target (attachGroup text medianLineHeight group)) hrest with
          ⟨hin, result, hlayout, hchecked⟩ | ⟨hout, index, herror⟩
        · rw [hlayout, hchecked]
          exact .inl ⟨hin, _, rfl, rfl⟩
        · rw [herror]
          exact .inr ⟨hout, index, rfl⟩
      · obtain ⟨index, herror⟩ := sortLineIndicesRowWise_error medianLineHeight
          fun h => hblock (List.forall_mem_append.mp h).1
        refine .inr ⟨fun h => hblock (h target (List.mem_cons_self ..)), index, ?_⟩
        rw [attachGroups, htarget]
        dsimp only
        rw [herror]
        rfl

end Attachments

/-! ## Columns -/

section Columns

variable {α : Type} [Double α] {text : PageText α}

theorem lineColumns_inRange {block : LayoutBlock α} (h : Layout.lineColumns text block ≠ []) :
    InRange text block.textLineIndices := by
  obtain ⟨medianHeight, heq⟩ := lineColumns_eq_detect h
  by_contra hout
  have hall : block.textLineIndices.all (inRange text) = false :=
    Bool.eq_false_iff.mpr fun hall => hout (List.all_eq_true.mp hall)
  refine h (heq.trans (if_pos ?_))
  rw [hall]
  rfl

variable (text) in
theorem detectLineColumns_ok (block : LayoutBlock α) (medianHeight : α) :
    detectLineColumns text block medianHeight =
      .ok (Layout.detectLineColumns text block medianHeight) := by
  unfold detectLineColumns
  by_cases hall : block.textLineIndices.all (inRange text) = true
  · have hlines : InRange text block.textLineIndices := List.all_eq_true.mp hall
    rw [hall, readLines_ok hlines, sortLines_ok _ hlines]
    rfl
  · rw [Bool.eq_false_iff.mpr hall]
    unfold Layout.detectLineColumns
    dsimp only
    rw [Bool.eq_false_iff.mpr hall]
    rfl

variable (text) in
theorem lineColumns_ok (block : LayoutBlock α) :
    lineColumns text block = .ok (Layout.lineColumns text block) := by
  unfold lineColumns Layout.lineColumns
  dsimp only
  split_ifs <;> first | rfl | exact detectLineColumns_ok text block _

variable (text) in
/-- **Refinement** of a block reads no line that is not there, whatever the block lists. -/
theorem refineBlock_ok (block : LayoutBlock α) :
    refineBlock text block = .ok (Layout.refineBlock text block) := by
  unfold refineBlock Layout.refineBlock
  rw [lineColumns_ok]
  have hsorted : (Layout.lineColumns text block).mapM (fun column =>
      sortLines text (linePositionLess text) column.lineIndices) =
      .ok ((Layout.lineColumns text block).map fun column =>
        sortBy (linePositionLess text) column.lineIndices) := by
    refine mapM_ok fun column hcolumn => sortLines_ok _ fun index hindex => ?_
    have hne : Layout.lineColumns text block ≠ [] := List.ne_nil_of_mem hcolumn
    refine lineColumns_inRange hne index ((lineColumns_perm hne).mem_iff.mp ?_)
    exact List.mem_flatMap.mpr ⟨column, hcolumn, hindex⟩
  rw [ok_bind, hsorted, ok_bind, ← List.flatMap_def]
  dsimp only
  split <;> rfl

variable (text) in
theorem refineMultiColumnTextLineOrder_ok (blocks : List (LayoutBlock α)) :
    refineMultiColumnTextLineOrder text blocks =
      .ok (Layout.refineMultiColumnTextLineOrder text blocks) := by
  unfold refineMultiColumnTextLineOrder
  rw [mapM_ok fun block _ => refineBlock_ok text block]
  rfl

end Columns

/-! ## Recovery -/

section Recovery

variable {α : Type} [Double α] {text : PageText α} {page : PageArtifact}

/-- The groups of recovered lines that are body text. -/
def recoveredBodyGroups (text : PageText α) (page : PageArtifact) (blocks : List (LayoutBlock α)) :
    List (FallbackLineGroup α) :=
  match Layout.coalesceDenseGridGroups text page
      (Layout.groupFallbackLines text (recoveredLines text page blocks) (medianTextLineHeight text))
      (medianTextLineHeight text) with
  | none => []
  | some (groups, _) => groups.filter fun group =>
    !isFurniture (Layout.recoveredGroupType text page blocks group (medianTextLineHeight text))

/-- No group of recovered body text is attached to a block that lists a line out of range. -/
def AttachesInRange (text : PageText α) (page : PageArtifact) (blocks : List (LayoutBlock α)) :
    Prop :=
  TargetsInRange text blocks (attachmentTargets text page (medianTextLineHeight text)
    (recoveredBodyGroups text page blocks) blocks)

theorem recoveredLines_inRange (text : PageText α) (page : PageArtifact)
    (blocks : List (LayoutBlock α)) : InRange text (recoveredLines text page blocks) :=
  fun _ hindex => (mem_unassignedLines.mp ((recoveredLines_sublist _).subset hindex)).1

/-- The groups of recovered lines. -/
theorem coalesced_ok (text : PageText α) (page : PageArtifact) (blocks : List (LayoutBlock α)) :
    ∃ groups coalesced,
      Layout.coalesceDenseGridGroups text page (Layout.groupFallbackLines text
        (recoveredLines text page blocks) (medianTextLineHeight text))
        (medianTextLineHeight text) = some (groups, coalesced) ∧
      coalesceDenseGridGroups text page (Layout.groupFallbackLines text
        (recoveredLines text page blocks) (medianTextLineHeight text))
        (medianTextLineHeight text) = .ok (groups, coalesced) ∧
      InRange text (groupLines groups) := by
  have hrecovered := recoveredLines_inRange text page blocks
  have hgrouped := @groupFallbackLines_perm α _ text (recoveredLines text page blocks)
    (medianTextLineHeight text)
  obtain ⟨groups, coalesced, hcoalesce, hgroups, -⟩ := coalesceDenseGridGroups_spec text page
    (Layout.groupFallbackLines text (recoveredLines text page blocks) (medianTextLineHeight text))
    (medianTextLineHeight text)
  refine ⟨groups, coalesced, hcoalesce, ?_, hrecovered.of_perm (hgroups.trans hgrouped)⟩
  exact coalesceDenseGridGroups_ok ⟨groupFallbackLines_nonempty _ _, hrecovered.of_perm hgrouped⟩
    hcoalesce

/-- **The recovery** with its reads is the recovery, or it stops at a sort of attached lines. -/
theorem recover_cases (text : PageText α) (page : PageArtifact) (layout : PageLayout α) :
    (AttachesInRange text page layout.blocks ∧
      ∃ result, Layout.recoverUnassignedTextLines text page layout = some result ∧
        recoverUnassignedTextLines text page layout = .ok result) ∨
    (¬ AttachesInRange text page layout.blocks ∧
      StopsOutOfRange (recoverUnassignedTextLines text page layout)) := by
  have hsearched : InRange text (searchedLines text layout.blocks) := fun index hindex =>
    mem_indices.mp (List.mem_filter.mp hindex).1
  have hrecoverable : InRange text (recoverableLines text layout.blocks) := fun index hindex =>
    (mem_unassignedLines.mp (List.mem_filter.mp hindex).1).1
  have hrecovered := recoveredLines_inRange text page layout.blocks
  obtain ⟨groups, coalesced, hcoalesce, hchecked, hgroups⟩ := coalesced_ok text page layout.blocks
  have hbody : recoveredBodyGroups text page layout.blocks = groups.filter fun group =>
      !isFurniture (Layout.recoveredGroupType text page layout.blocks group
        (medianTextLineHeight text)) := by
    unfold recoveredBodyGroups
    rw [hcoalesce]
  have hbodyRange : InRange text (groupLines (recoveredBodyGroups text page layout.blocks)) := by
    rw [hbody]
    intro index hindex
    obtain ⟨group, hgroup, hline⟩ := List.mem_flatMap.mp hindex
    exact hgroups index (List.mem_flatMap.mpr ⟨group, (List.mem_filter.mp hgroup).1, hline⟩)
  have htypes := recoveredGroupType_ok text (medianTextLineHeight text) page layout.blocks
  have htyped : groups.mapM (fun group => do
      let type ← recoveredGroupType text page layout.blocks (medianTextLineHeight text) group
      return (group, type)) = .ok (groups.map fun group =>
        (group, Layout.recoveredGroupType text page layout.blocks group
          (medianTextLineHeight text))) :=
    mapM_ok fun group _ => by rw [htypes group]; rfl
  unfold recoverUnassignedTextLines Layout.recoverUnassignedTextLines AttachesInRange
  simp only [readLines_ok hsearched, readLines_ok hrecoverable, groupFallbackLines_ok hrecovered,
    hchecked, hcoalesce, htyped, ok_bind, List.filter_map, List.map_map, Function.comp_def,
    List.map_id', Option.bind_eq_bind, Option.bind_some, Option.pure_def]
  rw [← hbody]
  rcases attachGroups_cases page (medianTextLineHeight text)
    (recoveredBodyGroups text page layout.blocks) hbodyRange with
    ⟨hin, result, hlayout, hchecked⟩ | ⟨hout, index, herror⟩
  · refine .inl ⟨hin, ?_⟩
    rw [hlayout, hchecked]
    simp only [ok_bind, refineMultiColumnTextLineOrder_ok]
    exact ⟨_, rfl, rfl⟩
  · rw [herror]
    exact .inr ⟨hout, index, rfl⟩

/-- **Reads.** The recovery reads no line out of range exactly if the blocks that it attaches groups
to list no such line. -/
theorem recover_inRange_iff (text : PageText α) (page : PageArtifact) (layout : PageLayout α) :
    (∀ index, recoverUnassignedTextLines text page layout ≠ .error (.outOfRange index)) ↔
      AttachesInRange text page layout.blocks := by
  rcases recover_cases text page layout with ⟨hin, result, -, hresult⟩ | ⟨hout, index, herror⟩
  · rw [hresult]
    exact ⟨fun _ => hin, fun _ _ h => by cases h⟩
  · exact ⟨fun h => absurd herror (h index), fun hin => absurd hin hout⟩

end Recovery

/-- A line that a block lists, and one right below it. -/
def continuedText : PageText ℚ :=
  let line (text : String) (bbox : BBox ℚ) : TextLine ℚ := ⟨text, bbox, .ocr, 1, []⟩
  ⟨0, 1, true, .ocr, [line "The block begins" ⟨100, 300, 400, 320⟩,
    line "and continues." ⟨100, 325, 400, 345⟩]⟩

/-- The block lists a line that the text does not have. -/
def staleLayout : PageLayout ℚ where
  pageIndex := 0
  pageNumber := 1
  blocks := [{
    id := "block"
    type := .text
    sourceLabel := "text"
    relatedBlockId := ""
    bbox := ⟨100, 300, 400, 320⟩
    confidence := 1
    readingOrderHint := 0
    textLineIndices := [0, 7] }]

theorem recover_staleLayout :
    recoverUnassignedTextLines continuedText ⟨0, 1, "page_1.png", 1000, 1000⟩ staleLayout =
      .error (.outOfRange 7) := by
  decide +kernel

end DocParser.Layout.Checked
