import DocParser.Common.Sorting
import DocParser.Layout.ColumnOrder
import DocParser.Layout.RecoveryPartition

/-!
# A second recovery

After a recovery the lines that no block lists are those that it skipped: furniture, which the
new blocks still cover, and line numbers at the margin. A new header or footer that covers a line
number takes it out of its column, and what is left of the column may be too short to be one: so
the second run recovers nothing exactly where the columns survive this (`recovery_twice_iff`).
-/

namespace DocParser.Layout

open Document Comparators

/-! ## Furniture after a run -/

section Furniture

variable {α : Type} [Double α] {text : PageText α} {page : PageArtifact} {medianLineHeight : α}

/-- A box covers a line as furniture does. -/
def coversLine (line : BBox α) (bbox : BBox α) : Bool :=
  decide (0.10 ≤ overlapOverLine line bbox) || containsCenter bbox line

/-- The header and footer groups that a run makes blocks of. -/
def furnitureGroups (text : PageText α) (page : PageArtifact) (blocks : List (LayoutBlock α)) :
    List (FallbackLineGroup α) :=
  match coalesceDenseGridGroups text page
      (groupFallbackLines text (recoveredLines text page blocks) (medianTextLineHeight text))
      (medianTextLineHeight text) with
  | none => []
  | some (groups, _) => groups.filter fun group =>
    isFurniture (recoveredGroupType text page blocks group (medianTextLineHeight text))

/-- The line numbers at the margin that no new header or footer covers. -/
def uncoveredMarginalia (text : PageText α) (page : PageArtifact)
    (blocks : List (LayoutBlock α)) : List Int :=
  (recoverableLines text blocks).filter fun index =>
    decide (index ∈ skippedMarginaliaLines text page blocks) &&
      !(furnitureGroups text page blocks).any fun group =>
        coversLine (lineBBox text index) group.bbox

/-- The line numbers that no new header or footer covers still make up columns. -/
def ColumnsSurvive (text : PageText α) (page : PageArtifact) (blocks : List (LayoutBlock α)) :
    Prop :=
  ∀ index ∈ uncoveredMarginalia text page blocks,
    index ∈ detectRepeatedMarginalia text page (uncoveredMarginalia text page blocks)
      (medianTextLineHeight text)

theorem overlapsFurniture_append (line : BBox α) (blocks blocks' : List (LayoutBlock α)) :
    overlapsFurniture line (blocks ++ blocks') =
      (overlapsFurniture line blocks || overlapsFurniture line blocks') := List.any_append

/-- Only the types and boxes of headers and footers count. -/
theorem overlapsFurniture_forall₂ (line : BBox α) {blocks blocks' : List (LayoutBlock α)}
    (h : List.Forall₂ (fun block' block => block'.type = block.type ∧
      (isFurniture block.type = true → block'.bbox = block.bbox)) blocks' blocks) :
    overlapsFurniture line blocks' = overlapsFurniture line blocks := by
  induction h with
  | nil => rfl
  | @cons block' block blocks' blocks hblock _ ih =>
    unfold overlapsFurniture at ih ⊢
    rw [List.any_cons, List.any_cons, ih, hblock.1]
    cases hfurniture : isFurniture block.type
    · rfl
    · rw [hblock.2 hfurniture]

theorem bestTarget_supports {group : FallbackLineGroup α} {listItem : Bool}
    {blocks : List (LayoutBlock α)} {i : Nat}
    (h : bestTarget group listItem medianLineHeight blocks = some i) :
    ∃ block, blocks[i]? = some block ∧ supportsRecoveryAttachment block.type = true := by
  unfold bestTarget at h
  refine List.foldlRecOn (motive := fun best : Option Nat × α => ∀ j, best.1 = some j →
    ∃ block, blocks[j]? = some block ∧ supportsRecoveryAttachment block.type = true)
    blocks.zipIdx _ (fun j hj => by cases hj) (fun best hbest p hp j hj => ?_) i h
  split at hj
  · exact hbest j hj
  next score hscore =>
    split at hj
    · obtain rfl := Option.some.inj hj
      refine ⟨p.1, List.mem_zipIdx_iff_getElem?.mp hp, ?_⟩
      unfold attachmentScore at hscore
      by_contra hnot
      simp [hnot] at hscore
    · exact hbest j hj

theorem attachmentTarget_supports {group : FallbackLineGroup α} {blocks : List (LayoutBlock α)}
    {i : Nat} (h : attachmentTarget text group blocks page medianLineHeight = some i) :
    ∃ block, blocks[i]? = some block ∧ isFurniture block.type = false := by
  unfold attachmentTarget at h
  dsimp only at h
  split_ifs at h
  obtain ⟨block, hget, hsupports⟩ := bestTarget_supports h
  refine ⟨block, hget, ?_⟩
  cases htype : block.type <;> rw [htype] at hsupports <;> first | rfl | cases hsupports

/-- Attached lines leave headers and footers as they are. -/
theorem attachGroups_furniture (line : BBox α) (groups : List (FallbackLineGroup α)) :
    ∀ {blocks blocks' : List (LayoutBlock α)} {unattached attached : List (FallbackLineGroup α)},
      attachGroups text page medianLineHeight groups blocks = some (blocks', unattached, attached) →
      overlapsFurniture line blocks' = overlapsFurniture line blocks := by
  induction groups with
  | nil =>
    intro blocks blocks' unattached attached h
    cases h
    rfl
  | cons group groups ih =>
    intro blocks blocks' unattached attached h
    unfold attachGroups at h
    cases htarget : attachmentTarget text group blocks page medianLineHeight with
    | none =>
      rw [htarget] at h
      obtain ⟨⟨blocks₁, unattached₁, attached₁⟩, hrest, heq⟩ := Option.map_eq_some_iff.mp h
      cases heq
      exact ih hrest
    | some target =>
      rw [htarget] at h
      dsimp only at h
      split at h
      · cases h
      obtain ⟨⟨blocks₁, unattached₁, attached₁⟩, hrest, heq⟩ := Option.map_eq_some_iff.mp h
      cases heq
      refine (ih hrest).trans (overlapsFurniture_forall₂ line ?_)
      obtain ⟨block, hget, hfurniture⟩ := attachmentTarget_supports htarget
      refine List.forall₂_iff_get.mpr ⟨List.length_modify .., fun i hi hi' => ?_⟩
      simp only [List.get_eq_getElem, List.getElem_modify]
      split
      next heq =>
        subst heq
        obtain rfl : blocks[target] = block := by
          rw [List.getElem?_eq_getElem hi'] at hget
          exact Option.some.inj hget
        exact ⟨rfl, fun hf => by rw [hfurniture] at hf; cases hf⟩
      · exact ⟨rfl, fun _ => rfl⟩

theorem overlapsFurniture_refine (line : BBox α) (blocks : List (LayoutBlock α)) :
    overlapsFurniture line (blocks.map fun block => (refineBlock text block).1) =
      overlapsFurniture line blocks := by
  refine overlapsFurniture_forall₂ line
    (List.forall₂_map_left_iff.mpr (List.forall₂_same.mpr fun block _ => ?_))
  obtain ⟨lines, heq, -⟩ := refineBlock_perm text block
  rw [heq]
  exact ⟨rfl, fun _ => rfl⟩

theorem overlapsFurniture_fallback (line : BBox α) (pageNumber : Int) (type : LayoutBlockType)
    (groups : List (FallbackLineGroup α)) :
    overlapsFurniture line (groups.map (fallbackBlock pageNumber type)) =
      (isFurniture type && groups.any fun group => coversLine line group.bbox) := by
  unfold overlapsFurniture
  rw [List.any_map]
  cases htype : isFurniture type
  · rw [Bool.false_and, List.any_eq_false]
    intro group _
    simp [fallbackBlock, htype]
  · rw [Bool.true_and]
    refine congrArg groups.any ?_
    funext group
    simp [fallbackBlock, htype, coversLine]

omit [Double α] in
theorem any_furniture (groupType : FallbackLineGroup α → LayoutBlockType)
    (p : FallbackLineGroup α → Bool) (groups : List (FallbackLineGroup α)) :
    ((groups.filter fun group => groupType group == .header).any p ||
      (groups.filter fun group => groupType group == .footer).any p) =
      (groups.filter fun group => isFurniture (groupType group)).any p := by
  have hone : ∀ (type : LayoutBlockType) (b : Bool),
      (isFurniture type && b) = ((type == .header && b) || (type == .footer && b)) := by
    intro type b
    cases type <;> cases b <;> rfl
  rw [List.any_filter, List.any_filter, List.any_filter]
  induction groups with
  | nil => rfl
  | cons group groups ih =>
    rw [List.any_cons, List.any_cons, List.any_cons, ← ih, hone]
    ac_rfl

variable {layout layout' : PageLayout α} {stats : LayoutRecoveryStats}

/-- The headers and footers after a run are those before it and its own ones. -/
theorem overlapsFurniture_recover
    (h : recoverUnassignedTextLines text page layout = some (stats, layout')) (line : BBox α) :
    overlapsFurniture line layout'.blocks = (overlapsFurniture line layout.blocks ||
      (furnitureGroups text page layout.blocks).any fun group => coversLine line group.bbox) := by
  unfold recoverUnassignedTextLines at h
  obtain ⟨groups, coalesced, hcoalesce, -, -⟩ := coalesceDenseGridGroups_spec text page
    (groupFallbackLines text (recoveredLines text page layout.blocks) (medianTextLineHeight text))
    (medianTextLineHeight text)
  simp only [hcoalesce, Option.bind_eq_bind, Option.bind_some, Option.pure_def] at h
  obtain ⟨⟨blocks, unattached, attached⟩, hattach, heq⟩ := Option.bind_eq_some_iff.mp h
  cases heq
  rw [refined_blocks, overlapsFurniture_refine, overlapsFurniture_append,
    attachGroups_furniture line _ hattach, overlapsFurniture_append, overlapsFurniture_append,
    overlapsFurniture_fallback, overlapsFurniture_fallback, overlapsFurniture_fallback]
  unfold furnitureGroups
  rw [hcoalesce]
  dsimp only
  rw [← any_furniture, show isFurniture .text = false from rfl,
    show isFurniture .header = true from rfl, show isFurniture .footer = true from rfl,
    Bool.false_and, Bool.false_or, Bool.true_and, Bool.true_and]

/-- After a run only line numbers at the margin can be recovered. -/
theorem recoverableLines_recover
    (h : recoverUnassignedTextLines text page layout = some (stats, layout')) :
    recoverableLines text layout'.blocks = uncoveredMarginalia text page layout.blocks := by
  unfold uncoveredMarginalia recoverableLines unassignedLines
  rw [List.filter_filter, List.filter_filter, List.filter_filter]
  refine List.filter_congr fun index hindex => ?_
  have hassigned : isAssigned layout'.blocks index =
      (isAssigned layout.blocks index ||
        decide (index ∈ recoveredLines text page layout.blocks)) := by
    rw [Bool.eq_iff_iff, isAssigned_iff, (recover_perm h).mem_iff, List.mem_append,
      Bool.or_eq_true, isAssigned_iff, decide_eq_true_iff]
  have hrecovered : index ∈ recoveredLines text page layout.blocks ↔
      (isAssigned layout.blocks index = false ∧ hasVisibleLine text index = true ∧
        overlapsFurniture (lineBBox text index) layout.blocks = false) ∧
        index ∉ skippedMarginaliaLines text page layout.blocks := by
    rw [mem_recoveredLines, mem_recoverableLines, mem_unassignedLines, ← isAssigned_iff,
      Bool.not_eq_true, ← mem_indices, and_iff_right hindex]
    simp only [and_assoc]
  rw [hassigned, overlapsFurniture_recover h]
  have hbool : decide (index ∈ recoveredLines text page layout.blocks) =
      ((!isAssigned layout.blocks index && hasVisibleLine text index &&
        !overlapsFurniture (lineBBox text index) layout.blocks) &&
        !decide (index ∈ skippedMarginaliaLines text page layout.blocks)) := by
    rw [Bool.eq_iff_iff, decide_eq_true_iff, hrecovered]
    simp [and_assoc]
  rw [hbool]
  cases isAssigned layout.blocks index <;> cases hasVisibleLine text index <;>
    cases overlapsFurniture (lineBBox text index) layout.blocks <;>
    cases decide (index ∈ skippedMarginaliaLines text page layout.blocks) <;> simp

theorem recoveredLines_recover
    (h : recoverUnassignedTextLines text page layout = some (stats, layout')) :
    recoveredLines text page layout'.blocks = [] ↔ ColumnsSurvive text page layout.blocks := by
  unfold recoveredLines skippedMarginaliaLines ColumnsSurvive
  rw [recoverableLines_recover h, List.filter_eq_nil_iff]
  simp only [decide_eq_true_eq, not_not]

/-- Without lines to recover a run does nothing but refine the blocks. -/
theorem recover_of_nothing (h : recoveredLines text page layout.blocks = []) :
    ∃ stats, recoverUnassignedTextLines text page layout = some (stats, { layout with
        blocks := layout.blocks.map fun block => (refineBlock text block).1 }) ∧
      stats.fallbackBlocks = 0 := by
  obtain ⟨groups, coalesced, hcoalesce, hperm, hnonempty⟩ := coalesceDenseGridGroups_spec text
    page (groupFallbackLines text (recoveredLines text page layout.blocks)
      (medianTextLineHeight text)) (medianTextLineHeight text)
  have hlines := hperm.trans (groupFallbackLines_perm _ _)
  rw [h] at hlines
  have hgroups : groups = [] := by
    rw [List.eq_nil_iff_forall_not_mem]
    intro group hgroup
    refine hnonempty (groupFallbackLines_nonempty _ _) group hgroup ?_
    exact List.flatMap_eq_nil_iff.mp hlines.eq_nil group hgroup
  subst hgroups
  unfold recoverUnassignedTextLines
  simp only [hcoalesce, Option.bind_eq_bind, Option.bind_some, Option.pure_def, List.filter_nil,
    attachGroups, List.map_nil, List.append_nil, refined_blocks]
  exact ⟨_, rfl, rfl⟩

end Furniture

/-! ## The second run -/

section Twice

variable {α : Type} [Double α] [IeeeDouble α]

/-- **Recovery twice**: the second run recovers no line, creates no block and leaves the layout
unchanged exactly where the line numbers that no new header or footer covers still make up
columns. -/
theorem recovery_twice_iff (text : PageText α) (page : PageArtifact) (layout : PageLayout α)
    (hrange : ∀ index ∈ blockLines layout.blocks, inRange text index = true) :
    ∃ stats layout' stats' layout'',
      recoverUnassignedTextLines text page layout = some (stats, layout') ∧
      recoverUnassignedTextLines text page layout' = some (stats', layout'') ∧
      ((stats'.recoveredLines = 0 ∧ stats'.fallbackBlocks = 0 ∧ layout'' = layout') ↔
        ColumnsSurvive text page layout.blocks) := by
  obtain ⟨⟨stats, layout'⟩, hfirst⟩ := recover_of_inRange page hrange
  have hrange' : ∀ index ∈ blockLines layout'.blocks, inRange text index = true := by
    intro index hindex
    rcases List.mem_append.mp ((recover_perm hfirst).mem_iff.mp hindex) with hold | hnew
    · exact hrange index hold
    · exact (mem_unassignedLines.mp ((recoveredLines_sublist _).subset hnew)).1
  obtain ⟨⟨stats', layout''⟩, hsecond⟩ := recover_of_inRange page hrange'
  refine ⟨stats, layout', stats', layout'', hfirst, hsecond, ?_⟩
  rw [← recoveredLines_recover hfirst]
  constructor
  · rintro ⟨hnone, -, -⟩
    rw [(recover_counters hsecond).1] at hnone
    exact List.eq_nil_of_length_eq_zero hnone
  · intro hnone
    have hcount := (recover_counters hsecond).1
    rw [hnone] at hcount
    obtain ⟨stats₀, hrun, hblocks⟩ := recover_of_nothing hnone
    rw [hsecond] at hrun
    cases hrun
    refine ⟨hcount, hblocks, ?_⟩
    -- the blocks of the first run are refined already
    obtain ⟨_, _, _, _, blocks, unattached, _, -, -, -, -, rfl, -⟩ := recover_cases hfirst
    rw [refined_blocks, List.map_map]
    congr 1
    refine List.map_congr_left fun block _ => ?_
    show (refineBlock text (refineBlock text block).1).1 = _
    rw [refineBlock_refineBlock]

end Twice

/-! ## A page with numbered lines -/

section Samples

def numberedPage : PageArtifact := ⟨0, 1, "", 1000, 1000⟩

/-- Four line numbers at the margin, and a notice at the top of the page. -/
def numberedText (notice : BBox ℚ) : PageText ℚ :=
  ⟨0, 1, true, .pdfTextLayer,
    [⟨"1", ⟨10, 20, 30, 40⟩, .pdfTextLayer, 1, []⟩, ⟨"2", ⟨10, 220, 30, 240⟩, .pdfTextLayer, 1, []⟩,
      ⟨"3", ⟨10, 420, 30, 440⟩, .pdfTextLayer, 1, []⟩,
      ⟨"4", ⟨10, 620, 30, 640⟩, .pdfTextLayer, 1, []⟩,
      ⟨"copyright notice", notice, .pdfTextLayer, 1, []⟩]⟩

/-- A notice beside the first number. -/
theorem recovery_twice_iff_beside : ∃ stats layout' stats' layout'',
    recoverUnassignedTextLines (numberedText ⟨100, 20, 400, 40⟩) numberedPage ⟨0, 1, []⟩ =
        some (stats, layout') ∧
      recoverUnassignedTextLines (numberedText ⟨100, 20, 400, 40⟩) numberedPage layout' =
        some (stats', layout'') ∧
      stats'.recoveredLines = 0 ∧ stats'.fallbackBlocks = 0 ∧ layout'' = layout' := by
  obtain ⟨stats, layout', stats', layout'', hfirst, hsecond, hiff⟩ :=
    recovery_twice_iff (numberedText ⟨100, 20, 400, 40⟩) numberedPage ⟨0, 1, []⟩ (by decide)
  refine ⟨stats, layout', stats', layout'', hfirst, hsecond, hiff.mpr ?_⟩
  unfold ColumnsSurvive
  decide +kernel

/-- A notice over the first number: the second run takes the other three for lost lines. -/
theorem numbers_recovered_later :
    (∀ index ∈ blockLines (⟨0, 1, []⟩ : PageLayout ℚ).blocks,
      inRange (numberedText ⟨0, 20, 400, 40⟩) index = true) ∧
    ∃ stats layout' stats' layout'',
      recoverUnassignedTextLines (numberedText ⟨0, 20, 400, 40⟩) numberedPage ⟨0, 1, []⟩ =
          some (stats, layout') ∧
        recoverUnassignedTextLines (numberedText ⟨0, 20, 400, 40⟩) numberedPage layout' =
          some (stats', layout'') ∧
        stats'.recoveredLines = 3 := by
  have hlines : ((recoverUnassignedTextLines (numberedText ⟨0, 20, 400, 40⟩) numberedPage
      ⟨0, 1, []⟩).bind fun first =>
        (recoverUnassignedTextLines (numberedText ⟨0, 20, 400, 40⟩) numberedPage first.2).map
          fun second => second.1.recoveredLines) = some 3 := by
    decide +kernel
  obtain ⟨⟨stats, layout'⟩, hfirst, hrest⟩ := Option.bind_eq_some_iff.mp hlines
  obtain ⟨⟨stats', layout''⟩, hsecond, hcount⟩ := Option.map_eq_some_iff.mp hrest
  exact ⟨by decide, stats, layout', stats', layout'', hfirst, hsecond, hcount⟩

end Samples

end DocParser.Layout
