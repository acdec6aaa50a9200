import DocParser.Layout.DenseGrid
import DocParser.Layout.GroupTypes
import DocParser.Layout.LineColumns

/-!
# Recovery of unassigned lines

`recoverUnassignedTextLines` gives the lines that no block lists to a block that they continue or
to new blocks. `recover_perm`: it adds each recovered line once and keeps all others, and
`recover_of_inRange` says that it reads no line that there is not.
-/

namespace DocParser.Layout

open Document

structure LayoutRecoveryStats where
  recoveredLines : Nat
  recoveredFurnitureLines : Nat
  preservedEdgeBodyLines : Nat
  attachedLines : Nat
  attachedGroups : Nat
  coalescedGridGroups : Nat
  skippedMarginaliaLines : Nat
  fallbackBlocks : Nat
  skippedFurnitureLines : Nat
  deriving DecidableEq, Repr

section Definitions

variable {α : Type} [Double α]

def isAssigned (blocks : List (LayoutBlock α)) (index : Int) : Bool :=
  blocks.any fun block => block.textLineIndices.contains index

def hasVisibleLine (text : PageText α) (index : Int) : Bool :=
  hasVisibleText (lineAt text index).text && validBBox (lineBBox text index)

/-- The lines with visible text and a valid box that no block lists. -/
def unassignedLines (text : PageText α) (blocks : List (LayoutBlock α)) : List Int :=
  ((List.range text.lines.length).map Int.ofNat).filter fun index =>
    !isAssigned blocks index && hasVisibleLine text index

def skippedFurnitureLines (text : PageText α) (blocks : List (LayoutBlock α)) : List Int :=
  (unassignedLines text blocks).filter fun index => overlapsFurniture (lineBBox text index) blocks

def recoverableLines (text : PageText α) (blocks : List (LayoutBlock α)) : List Int :=
  (unassignedLines text blocks).filter fun index =>
    !overlapsFurniture (lineBBox text index) blocks

/-- The recoverable lines that number the lines beside them. -/
def skippedMarginaliaLines (text : PageText α) (page : PageArtifact)
    (blocks : List (LayoutBlock α)) : List Int :=
  detectRepeatedMarginalia text page (recoverableLines text blocks) (medianTextLineHeight text)

/-- The lines that a block gets. -/
def recoveredLines (text : PageText α) (page : PageArtifact) (blocks : List (LayoutBlock α)) :
    List Int :=
  (recoverableLines text blocks).filter fun index =>
    index ∉ skippedMarginaliaLines text page blocks

def fallbackSourceLabel : LayoutBlockType → String
  | .header => "edge_header_fallback"
  | .footer => "edge_footer_fallback"
  | _ => "text_line_fallback"

def firstLineIndex (group : FallbackLineGroup α) : Int :=
  group.lineIndices.foldl min (group.lineIndices.headD 0)

/-- A new block for a group. -/
def fallbackBlock (pageNumber : Int) (type : LayoutBlockType) (group : FallbackLineGroup α) :
    LayoutBlock α where
  id := "page_" ++ toString pageNumber ++ "_fallback_line_" ++ toString (firstLineIndex group + 1)
  type := type
  sourceLabel :=
    if type == .text && !group.sourceLabel.isEmpty then group.sourceLabel
    else fallbackSourceLabel type
  relatedBlockId := ""
  bbox := group.bbox
  confidence := if type == .text then 0.35 else 0.25
  readingOrderHint := -1
  textLineIndices := group.lineIndices

/-- The block that a group continues, with the lines of the group. -/
def attachGroup (text : PageText α) (medianLineHeight : α) (group : FallbackLineGroup α)
    (block : LayoutBlock α) : LayoutBlock α :=
  { block with
    textLineIndices :=
      sortLineIndicesRowWise text (block.textLineIndices ++ group.lineIndices) medianLineHeight
    bbox := expandBBox block.bbox group.bbox }

/-- The loop over the groups of body text: the blocks, and the groups that continue none and those
that continue one. `none` is a sort that reads a line that there is not. -/
def attachGroups (text : PageText α) (page : PageArtifact) (medianLineHeight : α) :
    List (FallbackLineGroup α) → List (LayoutBlock α) →
      Option (List (LayoutBlock α) × List (FallbackLineGroup α) × List (FallbackLineGroup α))
  | [], blocks => some (blocks, [], [])
  | group :: rest, blocks =>
    match attachmentTarget text group blocks page medianLineHeight with
    | none =>
      (attachGroups text page medianLineHeight rest blocks).map fun (blocks, unattached, attached) =>
        (blocks, group :: unattached, attached)
    | some target =>
      let lines := (blocks.getD target default).textLineIndices ++ group.lineIndices
      if !lines.all (inRange text) then none
      else
        (attachGroups text page medianLineHeight rest
          (blocks.modify target (attachGroup text medianLineHeight group))).map
          fun (blocks, unattached, attached) => (blocks, unattached, group :: attached)

def isEdgeGroup (page : PageArtifact) (group : FallbackLineGroup α) : Bool :=
  let centerY : α :=
    if 0 < page.height then (group.bbox.y0 + group.bbox.y1) * 0.5 / Double.ofInt page.height
    else 0.5
  decide (centerY ≤ 0.15) || decide (0.88 ≤ centerY)

/-- `recoverUnassignedTextLines`. -/
def recoverUnassignedTextLines (text : PageText α) (page : PageArtifact) (layout : PageLayout α) :
    Option (LayoutRecoveryStats × PageLayout α) := do
  let medianLineHeight := medianTextLineHeight text
  let (groups, coalesced) ← coalesceDenseGridGroups text page
    (groupFallbackLines text (recoveredLines text page layout.blocks) medianLineHeight)
    medianLineHeight
  let groupType := fun group => recoveredGroupType text page layout.blocks group medianLineHeight
  let headerGroups := groups.filter fun group => groupType group == .header
  let footerGroups := groups.filter fun group => groupType group == .footer
  let bodyGroups := groups.filter fun group => !isFurniture (groupType group)
  let (blocks, unattached, attached) ←
    attachGroups text page medianLineHeight bodyGroups layout.blocks
  let appended := unattached.map (fallbackBlock layout.pageNumber .text) ++
    headerGroups.map (fallbackBlock layout.pageNumber .header) ++
    footerGroups.map (fallbackBlock layout.pageNumber .footer)
  return ({
      recoveredLines := (groupLines attached).length + (blockLines appended).length
      recoveredFurnitureLines :=
        (groupLines headerGroups).length + (groupLines footerGroups).length
      preservedEdgeBodyLines := (groupLines (bodyGroups.filter (isEdgeGroup page))).length
      attachedLines := (groupLines attached).length
      attachedGroups := attached.length
      coalescedGridGroups := coalesced
      skippedMarginaliaLines := (skippedMarginaliaLines text page layout.blocks).length
      fallbackBlocks := appended.length
      skippedFurnitureLines := (skippedFurnitureLines text layout.blocks).length },
    { layout with blocks := (refineMultiColumnTextLineOrder text (blocks ++ appended)).2 })

end Definitions

/-! ## The lines after the recovery -/

section Lines

variable {α : Type} [Double α] {text : PageText α} {page : PageArtifact} {medianLineHeight : α}

omit [Double α] in
theorem inRange_iff {index : Int} :
    inRange text index = true ↔ 0 ≤ index ∧ index.toNat < text.lines.length := by
  unfold inRange
  rw [Bool.and_eq_true, decide_eq_true_iff, decide_eq_true_iff]

omit [Double α] in
theorem mem_indices {index : Int} :
    index ∈ (List.range text.lines.length).map Int.ofNat ↔ inRange text index = true := by
  rw [inRange_iff, List.mem_map]
  constructor
  · rintro ⟨n, hn, rfl⟩
    exact ⟨Int.natCast_nonneg n, List.mem_range.mp hn⟩
  · rintro ⟨hnonneg, hlt⟩
    exact ⟨index.toNat, List.mem_range.mpr hlt, Int.toNat_of_nonneg hnonneg⟩

omit [Double α] in
theorem isAssigned_iff {blocks : List (LayoutBlock α)} {index : Int} :
    isAssigned blocks index = true ↔ index ∈ blockLines blocks := by
  unfold isAssigned blockLines
  rw [List.any_eq_true, List.mem_flatMap]
  simp only [List.contains_iff_mem]

theorem mem_unassignedLines {blocks : List (LayoutBlock α)} {index : Int} :
    index ∈ unassignedLines text blocks ↔
      inRange text index = true ∧ index ∉ blockLines blocks ∧ hasVisibleLine text index = true := by
  unfold unassignedLines
  rw [List.mem_filter, mem_indices, Bool.and_eq_true, Bool.not_eq_true', ← isAssigned_iff,
    Bool.not_eq_true]

theorem unassignedLines_nodup (blocks : List (LayoutBlock α)) :
    (unassignedLines text blocks).Nodup :=
  List.Nodup.filter _ (List.Nodup.map (fun _ _ h => Int.ofNat.inj h) List.nodup_range)

theorem recoveredLines_sublist (blocks : List (LayoutBlock α)) :
    (recoveredLines text page blocks).Sublist (unassignedLines text blocks) :=
  List.filter_sublist.trans List.filter_sublist

variable (page) in
/-- A line that no block lists is skipped or recovered. -/
theorem skipped_or_recovered {blocks : List (LayoutBlock α)} {index : Int}
    (h : index ∈ unassignedLines text blocks) :
    index ∈ skippedFurnitureLines text blocks ∨ index ∈ skippedMarginaliaLines text page blocks ∨
      index ∈ recoveredLines text page blocks := by
  by_cases hfurniture : overlapsFurniture (lineBBox text index) blocks = true
  · exact Or.inl (List.mem_filter.mpr ⟨h, hfurniture⟩)
  have hrecoverable : index ∈ recoverableLines text blocks :=
    List.mem_filter.mpr ⟨h, by simpa using hfurniture⟩
  by_cases hmarginalia : index ∈ skippedMarginaliaLines text page blocks
  · exact Or.inr (Or.inl hmarginalia)
  · exact Or.inr (Or.inr (List.mem_filter.mpr ⟨hrecoverable, by simpa using hmarginalia⟩))

theorem blockLines_fallbackBlock (pageNumber : Int) (type : LayoutBlockType)
    (groups : List (FallbackLineGroup α)) :
    blockLines (groups.map (fallbackBlock pageNumber type)) = groupLines groups := by
  unfold blockLines groupLines
  rw [List.flatMap_map]
  rfl

theorem blockLines_appended (pageNumber : Int)
    (bodyGroups headerGroups footerGroups : List (FallbackLineGroup α)) :
    blockLines (bodyGroups.map (fallbackBlock pageNumber .text) ++
      headerGroups.map (fallbackBlock pageNumber .header) ++
      footerGroups.map (fallbackBlock pageNumber .footer)) =
      groupLines bodyGroups ++ (groupLines headerGroups ++ groupLines footerGroups) := by
  rw [← blockLines_fallbackBlock pageNumber .text, ← blockLines_fallbackBlock pageNumber .header,
    ← blockLines_fallbackBlock pageNumber .footer]
  unfold blockLines
  simp only [List.flatMap_append, List.append_assoc]

variable (text) in
/-- An attached group adds its lines. -/
theorem modify_attachGroup_perm (medianLineHeight : α) (group : FallbackLineGroup α)
    {blocks : List (LayoutBlock α)} {target : Nat} (h : target < blocks.length) :
    (blockLines (blocks.modify target (attachGroup text medianLineHeight group))).Perm
      (blockLines blocks ++ group.lineIndices) :=
  flatMap_modify_perm (fun _ => sortLineIndicesRowWise_perm _ _) blocks h

theorem attachGroups_perm (groups : List (FallbackLineGroup α)) :
    ∀ {blocks blocks' : List (LayoutBlock α)} {unattached attached : List (FallbackLineGroup α)},
      attachGroups text page medianLineHeight groups blocks = some (blocks', unattached, attached) →
      (blockLines blocks' ++ groupLines unattached).Perm (blockLines blocks ++ groupLines groups) ∧
        (attached ++ unattached).Perm groups := by
  induction groups with
  | nil =>
    intro blocks blocks' unattached attached h
    cases h
    exact ⟨.refl _, .refl _⟩
  | cons group groups ih =>
    intro blocks blocks' unattached attached h
    unfold attachGroups at h
    cases htarget : attachmentTarget text group blocks page medianLineHeight with
    | none =>
      rw [htarget] at h
      obtain ⟨⟨blocks₁, unattached₁, attached₁⟩, hrest, heq⟩ := Option.map_eq_some_iff.mp h
      cases heq
      obtain ⟨hlines, hgroups⟩ := ih hrest
      refine ⟨?_, List.perm_middle.trans (hgroups.cons group)⟩
      have hleft := List.perm_append_comm_assoc (blockLines blocks') group.lineIndices
        (groupLines unattached₁)
      have hright := List.perm_append_comm_assoc group.lineIndices (blockLines blocks)
        (groupLines groups)
      exact hleft.trans ((hlines.append_left _).trans hright)
    | some target =>
      rw [htarget] at h
      dsimp only at h
      split at h
      · cases h
      obtain ⟨⟨blocks₁, unattached₁, attached₁⟩, hrest, heq⟩ := Option.map_eq_some_iff.mp h
      cases heq
      obtain ⟨hlines, hgroups⟩ := ih hrest
      refine ⟨hlines.trans ?_, hgroups.cons group⟩
      have hmodify := modify_attachGroup_perm text medianLineHeight group
        (attachmentTarget_lt htarget)
      refine (hmodify.append_right _).trans (List.Perm.of_eq ?_)
      rw [List.append_assoc]
      rfl

variable (page medianLineHeight) in
/-- Groups of lines in range attach without a read out of range. -/
theorem attachGroups_of_inRange (groups : List (FallbackLineGroup α)) :
    ∀ {blocks : List (LayoutBlock α)}, (∀ index ∈ blockLines blocks, inRange text index = true) →
      (∀ index ∈ groupLines groups, inRange text index = true) →
      ∃ result, attachGroups text page medianLineHeight groups blocks = some result := by
  induction groups with
  | nil => exact fun _ _ => ⟨_, rfl⟩
  | cons group groups ih =>
    intro blocks hblocks hgroups
    have hgroup : ∀ index ∈ group.lineIndices, inRange text index = true :=
      fun index hindex => hgroups index (List.mem_append_left _ hindex)
    have hrest : ∀ index ∈ groupLines groups, inRange text index = true :=
      fun index hindex => hgroups index (List.mem_append_right _ hindex)
    unfold attachGroups
    cases htarget : attachmentTarget text group blocks page medianLineHeight with
    | none =>
      obtain ⟨result, hresult⟩ := ih hblocks hrest
      rw [hresult]
      exact ⟨_, rfl⟩
    | some target =>
      have hlt := attachmentTarget_lt htarget
      have hmodify := modify_attachGroup_perm text medianLineHeight group hlt
      obtain ⟨result, hresult⟩ := @ih (blocks.modify target (attachGroup text medianLineHeight group))
        (fun index hindex => by
          rcases List.mem_append.mp (hmodify.mem_iff.mp hindex) with h | h
          · exact hblocks index h
          · exact hgroup index h) hrest
      have hall : ((blocks.getD target default).textLineIndices ++ group.lineIndices).all
          (inRange text) = true := by
        rw [List.all_append, Bool.and_eq_true, List.all_eq_true, List.all_eq_true]
        refine ⟨fun index hindex => hblocks index ?_, hgroup⟩
        rw [List.getD, List.getElem?_eq_getElem hlt, Option.getD_some] at hindex
        exact List.mem_flatMap.mpr ⟨_, List.getElem_mem hlt, hindex⟩
      dsimp only
      rw [hresult, hall]
      exact ⟨_, rfl⟩

omit [Double α] in
/-- Every group is body text, a header or a footer. -/
theorem groupTypes_perm (groupType : FallbackLineGroup α → LayoutBlockType)
    (groups : List (FallbackLineGroup α)) :
    ((groups.filter fun group => !isFurniture (groupType group)) ++
      ((groups.filter fun group => groupType group == .header) ++
        groups.filter fun group => groupType group == .footer)).Perm groups := by
  induction groups with
  | nil => exact .refl _
  | cons group groups ih =>
    simp only [List.filter_cons]
    cases groupType group with
    | header => exact List.perm_middle.trans (ih.cons group)
    | footer =>
      refine (List.Perm.append_left _ List.perm_middle).trans ?_
      exact List.perm_middle.trans (ih.cons group)
    | _ => exact ih.cons group

/-- The run of the recovery: the groups, how the body text was attached, and the new blocks. -/
theorem recover_cases {layout layout' : PageLayout α} {stats : LayoutRecoveryStats}
    (h : recoverUnassignedTextLines text page layout = some (stats, layout')) :
    ∃ groups bodyGroups headerGroups footerGroups blocks unattached attached,
      (groupLines groups).Perm (recoveredLines text page layout.blocks) ∧
      NonemptyGroups groups ∧
      (bodyGroups ++ (headerGroups ++ footerGroups)).Perm groups ∧
      attachGroups text page (medianTextLineHeight text) bodyGroups layout.blocks =
        some (blocks, unattached, attached) ∧
      layout' = { layout with blocks := (refineMultiColumnTextLineOrder text
        (blocks ++ (unattached.map (fallbackBlock layout.pageNumber .text) ++
          headerGroups.map (fallbackBlock layout.pageNumber .header) ++
          footerGroups.map (fallbackBlock layout.pageNumber .footer)))).2 } ∧
      stats.recoveredLines = (groupLines attached).length + (groupLines unattached ++
        (groupLines headerGroups ++ groupLines footerGroups)).length ∧
      stats.skippedFurnitureLines = (skippedFurnitureLines text layout.blocks).length ∧
      stats.skippedMarginaliaLines = (skippedMarginaliaLines text page layout.blocks).length := by
  unfold recoverUnassignedTextLines at h
  obtain ⟨groups, coalesced, hcoalesce, hgroups, hnonempty⟩ := coalesceDenseGridGroups_spec text
    page (groupFallbackLines text (recoveredLines text page layout.blocks)
      (medianTextLineHeight text)) (medianTextLineHeight text)
  simp only [hcoalesce, Option.bind_eq_bind, Option.bind_some, Option.pure_def] at h
  obtain ⟨⟨blocks, unattached, attached⟩, hattach, heq⟩ := Option.bind_eq_some_iff.mp h
  cases heq
  refine ⟨groups, _, _, _, blocks, unattached, attached,
    hgroups.trans (groupFallbackLines_perm _ _), hnonempty (groupFallbackLines_nonempty _ _),
    groupTypes_perm _ groups, hattach, rfl, ?_, rfl, rfl⟩
  exact congrArg (fun lines => (groupLines attached).length + lines.length)
    (blockLines_appended layout.pageNumber unattached _ _)

/-- **Recovery** adds the recovered lines to the blocks and keeps all others. -/
theorem recover_perm {layout layout' : PageLayout α} {stats : LayoutRecoveryStats}
    (h : recoverUnassignedTextLines text page layout = some (stats, layout')) :
    (blockLines layout'.blocks).Perm
      (blockLines layout.blocks ++ recoveredLines text page layout.blocks) := by
  obtain ⟨groups, bodyGroups, headerGroups, footerGroups, blocks, unattached, attached, hlines, -,
    htypes, hattach, rfl, -⟩ := recover_cases h
  have hgroups : (groupLines bodyGroups ++ (groupLines headerGroups ++
      groupLines footerGroups)).Perm (groupLines groups) := by
    have := htypes.flatMap_right FallbackLineGroup.lineIndices
    rwa [List.flatMap_append, List.flatMap_append] at this
  have hnew : blockLines (blocks ++ (unattached.map (fallbackBlock layout.pageNumber .text) ++
      headerGroups.map (fallbackBlock layout.pageNumber .header) ++
      footerGroups.map (fallbackBlock layout.pageNumber .footer))) =
      (blockLines blocks ++ groupLines unattached) ++
        (groupLines headerGroups ++ groupLines footerGroups) := by
    rw [List.append_assoc (blockLines blocks), ← blockLines_appended layout.pageNumber]
    exact List.flatMap_append
  refine (refineMultiColumnTextLineOrder_perm _).trans ?_
  rw [hnew]
  refine ((attachGroups_perm bodyGroups hattach).1.append_right _).trans ?_
  rw [List.append_assoc]
  exact (hgroups.trans hlines).append_left _

variable (page) in
/-- A layout with lines in range is recovered. -/
theorem recover_of_inRange {layout : PageLayout α}
    (h : ∀ index ∈ blockLines layout.blocks, inRange text index = true) :
    ∃ result, recoverUnassignedTextLines text page layout = some result := by
  obtain ⟨groups, coalesced, hcoalesce, hgroups, -⟩ := coalesceDenseGridGroups_spec text
    page (groupFallbackLines text (recoveredLines text page layout.blocks)
      (medianTextLineHeight text)) (medianTextLineHeight text)
  have hrecovered := hgroups.trans (groupFallbackLines_perm _ _)
  have hbody : ∀ index ∈ groupLines (groups.filter fun group => !isFurniture
      (recoveredGroupType text page layout.blocks group (medianTextLineHeight text))),
      inRange text index = true := by
    intro index hindex
    obtain ⟨group, hgroup, hmem⟩ := List.mem_flatMap.mp hindex
    have hline := hrecovered.mem_iff.mp
      (List.mem_flatMap.mpr ⟨group, (List.mem_filter.mp hgroup).1, hmem⟩)
    exact (mem_unassignedLines.mp ((recoveredLines_sublist _).subset hline)).1
  obtain ⟨result, hattach⟩ := attachGroups_of_inRange page
    (medianTextLineHeight text) _ h hbody
  unfold recoverUnassignedTextLines
  simp only [hcoalesce, hattach, Option.bind_eq_bind, Option.bind_some, Option.pure_def]
  exact ⟨_, rfl⟩

end Lines

end DocParser.Layout
