import Mathlib.Data.Set.Card
import DocParser.Layout.Recovery

/-!
# Recovery partitions the lines

`recovery_partition`: each line of a page has one fate, and the counters are the sizes of the
fates. A new block is named by its first line, so that no two of them share a name.
-/

namespace DocParser.Layout

open Document

section Definitions

variable {α : Type} [Double α]

/-- What becomes of a line. -/
inductive LineFate
  | owned | unreadable | furniture | marginalia | assigned
  deriving DecidableEq, Repr

/-- The lines of a fate, from the blocks before and after the recovery. -/
def LineFate.lines (text : PageText α) (page : PageArtifact) (before after : List (LayoutBlock α)) :
    LineFate → Set Int
  | .owned => {index | index ∈ blockLines before}
  | .unreadable => {index | inRange text index = true ∧ index ∉ blockLines before ∧
      hasVisibleLine text index = false}
  | .furniture => {index | inRange text index = true ∧ index ∉ blockLines before ∧
      hasVisibleLine text index = true ∧ overlapsFurniture (lineBBox text index) before = true}
  | .marginalia => {index | index ∈ detectRepeatedMarginalia text page
      (recoverableLines text before) (medianTextLineHeight text)}
  | .assigned => {index | index ∉ blockLines before ∧ index ∈ blockLines after}

/-- The fate of a line, by the checks of the recovery in their order. -/
def fateOf (text : PageText α) (page : PageArtifact) (before : List (LayoutBlock α))
    (index : Int) : LineFate :=
  if isAssigned before index then .owned
  else if !hasVisibleLine text index then .unreadable
  else if overlapsFurniture (lineBBox text index) before then .furniture
  else if index ∈ skippedMarginaliaLines text page before then .marginalia
  else .assigned

/-- The name of a new block on a page, by its first line. -/
def fallbackId (pageNumber line : Int) : String :=
  "page_" ++ toString pageNumber ++ "_fallback_line_" ++ toString line

/-- A block with more lines, all of them from a list. -/
structure Extended (lines : List Int) (block' block : LayoutBlock α) : Prop where
  id : block'.id = block.id
  lines : ∃ added, block'.textLineIndices.Perm (block.textLineIndices ++ added) ∧
    ∀ index ∈ added, index ∈ lines

/-- A block with the same owners for some lines. -/
structure KeepsOwned (owned : List Int) (block' block : LayoutBlock α) : Prop where
  id : block'.id = block.id
  count : ∀ index ∈ owned, block'.textLineIndices.count index = block.textLineIndices.count index

end Definitions

/-! ## Names -/

section Names

variable {α : Type}

theorem foldl_min_mem (l : List Int) : ∀ a : Int, l.foldl min a ∈ a :: l := by
  induction l with
  | nil => exact fun a => List.mem_singleton_self a
  | cons b l ih =>
    intro a
    rw [List.foldl_cons]
    rcases List.mem_cons.mp (ih (min a b)) with h | h
    · rw [h]
      rcases min_choice a b with hmin | hmin <;> rw [hmin] <;> simp
    · exact List.mem_cons_of_mem a (List.mem_cons_of_mem b h)

theorem firstLineIndex_mem {group : FallbackLineGroup α} (h : group.lineIndices ≠ []) :
    firstLineIndex group ∈ group.lineIndices := by
  unfold firstLineIndex
  cases hlines : group.lineIndices with
  | nil => exact absurd hlines h
  | cons index rest =>
    have hmem := foldl_min_mem (index :: rest) index
    rcases List.mem_cons.mp hmem with heq | hin
    · exact List.mem_cons.mpr (.inl heq)
    · exact hin

theorem fallbackId_inj {pageNumber line line' : Int} (hline : 0 ≤ line) (hline' : 0 ≤ line')
    (h : fallbackId pageNumber line = fallbackId pageNumber line') : line = line' := by
  obtain ⟨n, rfl⟩ := Int.eq_ofNat_of_zero_le hline
  obtain ⟨n', rfl⟩ := Int.eq_ofNat_of_zero_le hline'
  have hchars := congrArg String.toList h
  unfold fallbackId at hchars
  simp only [String.toList_append, List.append_assoc, List.append_cancel_left_eq] at hchars
  exact congrArg Int.ofNat (toString_nat_inj hchars)

/-- Groups without a common line have different names. -/
theorem fallbackBlock_ids_nodup (pageNumber : Int) {groups : List (FallbackLineGroup α)}
    (hnonempty : NonemptyGroups groups) (hnodup : (groupLines groups).Nodup)
    (hnonneg : ∀ index ∈ groupLines groups, 0 ≤ index) :
    (groups.map fun group => fallbackId pageNumber (firstLineIndex group + 1)).Nodup := by
  have hfirst : ∀ group ∈ groups, 0 ≤ firstLineIndex group := fun group hgroup =>
    hnonneg _ (List.mem_flatMap.mpr ⟨group, hgroup, firstLineIndex_mem (hnonempty group hgroup)⟩)
  refine List.pairwise_map.mpr ?_
  refine (List.nodup_flatMap.mp hnodup).2.imp_of_mem fun {group group'} hgroup hgroup' hdisj heq => ?_
  have hpos := hfirst group hgroup
  have hpos' := hfirst group' hgroup'
  have hsame : firstLineIndex group = firstLineIndex group' := by
    have := fallbackId_inj (by omega) (by omega) heq
    omega
  exact hdisj (firstLineIndex_mem (hnonempty group hgroup))
    (hsame ▸ firstLineIndex_mem (hnonempty group' hgroup'))

end Names

/-! ## Blocks that were there -/

section Blocks

variable {α : Type} [Double α] {text : PageText α} {page : PageArtifact} {medianLineHeight : α}

omit [Double α] in
theorem Extended.refl (lines : List Int) (block : LayoutBlock α) : Extended lines block block :=
  ⟨rfl, [], by simp, by simp⟩

omit [Double α] in
theorem Extended.trans {lines : List Int} {block'' block' block : LayoutBlock α}
    (h' : Extended lines block'' block') (h : Extended lines block' block) :
    Extended lines block'' block := by
  obtain ⟨added, hperm, hadded⟩ := h.lines
  obtain ⟨added', hperm', hadded'⟩ := h'.lines
  refine ⟨h'.id.trans h.id, added ++ added', ?_, fun index hindex => ?_⟩
  · rw [← List.append_assoc]
    exact hperm'.trans (hperm.append_right _)
  · exact (List.mem_append.mp hindex).elim (hadded index) (hadded' index)

omit [Double α] in
theorem Extended.mono {lines lines' : List Int} (hsub : ∀ index ∈ lines, index ∈ lines')
    {block' block : LayoutBlock α} (h : Extended lines block' block) :
    Extended lines' block' block := by
  obtain ⟨added, hperm, hadded⟩ := h.lines
  exact ⟨h.id, added, hperm, fun index hindex => hsub index (hadded index hindex)⟩

omit [Double α] in
/-- Lines that are not added keep their owners. -/
theorem Extended.keepsOwned {lines owned : List Int} (hdisj : ∀ index ∈ owned, index ∉ lines)
    {block' block : LayoutBlock α} (h : Extended lines block' block) :
    KeepsOwned owned block' block := by
  obtain ⟨added, hperm, hadded⟩ := h.lines
  refine ⟨h.id, fun index hindex => ?_⟩
  rw [hperm.count_eq, List.count_append,
    List.count_eq_zero_of_not_mem fun hin => hdisj index hindex (hadded index hin), Nat.add_zero]

omit [Double α] in
theorem forall₂_extended_modify {lines : List Int} {f : LayoutBlock α → LayoutBlock α}
    (hf : ∀ block, Extended lines (f block) block) (blocks : List (LayoutBlock α)) :
    ∀ i : Nat, List.Forall₂ (Extended lines) (blocks.modify i f) blocks := by
  induction blocks with
  | nil => intro i; rw [List.modify_nil]; exact .nil
  | cons block blocks ih =>
    intro i
    cases i with
    | zero =>
      rw [List.modify_zero_cons]
      exact .cons (hf block) (List.forall₂_same.mpr fun b _ => .refl lines b)
    | succ i =>
      rw [List.modify_succ_cons]
      exact .cons (.refl lines block) (ih i)

omit [Double α] in
theorem forall₂_extended_trans {lines : List Int} {blocks'' blocks' blocks : List (LayoutBlock α)}
    (h' : List.Forall₂ (Extended lines) blocks'' blocks')
    (h : List.Forall₂ (Extended lines) blocks' blocks) :
    List.Forall₂ (Extended lines) blocks'' blocks := by
  induction h' generalizing blocks with
  | nil =>
    cases h
    exact .nil
  | cons h₁ _ ih =>
    cases h with
    | cons h₂ hrest => exact .cons (h₁.trans h₂) (ih hrest)

/-- **Attached groups** extend the blocks by their lines. -/
theorem attachGroups_extended (groups : List (FallbackLineGroup α)) :
    ∀ {blocks blocks' : List (LayoutBlock α)} {unattached attached : List (FallbackLineGroup α)},
      attachGroups text page medianLineHeight groups blocks = some (blocks', unattached, attached) →
      List.Forall₂ (Extended (groupLines groups)) blocks' blocks := by
  induction groups with
  | nil =>
    intro blocks blocks' unattached attached h
    cases h
    exact List.forall₂_same.mpr fun block _ => .refl _ block
  | cons group groups ih =>
    intro blocks blocks' unattached attached h
    have hrest : ∀ index ∈ groupLines groups, index ∈ groupLines (group :: groups) :=
      fun index hindex => List.mem_append_right _ hindex
    unfold attachGroups at h
    cases htarget : attachmentTarget text group blocks page medianLineHeight with
    | none =>
      rw [htarget] at h
      obtain ⟨⟨blocks₁, unattached₁, attached₁⟩, hrun, heq⟩ := Option.map_eq_some_iff.mp h
      cases heq
      exact (ih hrun).imp fun _ _ hext => hext.mono hrest
    | some target =>
      rw [htarget] at h
      dsimp only at h
      split at h
      · cases h
      obtain ⟨⟨blocks₁, unattached₁, attached₁⟩, hrun, heq⟩ := Option.map_eq_some_iff.mp h
      cases heq
      have hattach : ∀ block : LayoutBlock α,
          Extended (groupLines (group :: groups)) (attachGroup text medianLineHeight group block)
            block := fun block =>
        ⟨rfl, group.lineIndices, sortLineIndicesRowWise_perm _ _,
          fun index hindex => List.mem_append_left _ hindex⟩
      exact forall₂_extended_trans ((ih hrun).imp fun _ _ hext => hext.mono hrest)
        (forall₂_extended_modify hattach blocks target)

variable (text) in
theorem refine_extended (lines : List Int) (blocks : List (LayoutBlock α)) :
    List.Forall₂ (Extended lines) (blocks.map fun block => (refineBlock text block).1) blocks := by
  refine List.forall₂_map_left_iff.mpr (List.forall₂_same.mpr fun block _ => ?_)
  obtain ⟨refined, heq, hperm⟩ := refineBlock_perm text block
  rw [heq]
  exact ⟨rfl, [], by simpa using hperm, by simp⟩

end Blocks

/-! ## The partition -/

section Partition

variable {α : Type} [Double α]

/-- A set of lines that a list without duplicates enumerates. -/
theorem ncard_eq_length {lines : List Int} (hnodup : lines.Nodup) {s : Set Int}
    (h : ∀ index, index ∈ s ↔ index ∈ lines) : s.ncard = lines.length := by
  have hs : s = (lines.toFinset : Set Int) := by
    ext index
    rw [h, Finset.mem_coe, List.mem_toFinset]
  rw [hs, Set.ncard_coe_finset, List.toFinset_card_of_nodup hnodup]

variable {text : PageText α} {page : PageArtifact} {layout layout' : PageLayout α}
  {stats : LayoutRecoveryStats}

theorem mem_recoverableLines {blocks : List (LayoutBlock α)} {index : Int} :
    index ∈ recoverableLines text blocks ↔ index ∈ unassignedLines text blocks ∧
      overlapsFurniture (lineBBox text index) blocks = false := by
  unfold recoverableLines
  rw [List.mem_filter, Bool.not_eq_true']

theorem mem_skippedFurnitureLines {blocks : List (LayoutBlock α)} {index : Int} :
    index ∈ skippedFurnitureLines text blocks ↔ index ∈ unassignedLines text blocks ∧
      overlapsFurniture (lineBBox text index) blocks = true := List.mem_filter

theorem mem_recoveredLines {blocks : List (LayoutBlock α)} {index : Int} :
    index ∈ recoveredLines text page blocks ↔ index ∈ recoverableLines text blocks ∧
      index ∉ skippedMarginaliaLines text page blocks := by
  unfold recoveredLines
  rw [List.mem_filter, decide_eq_true_iff]

theorem recoveredLines_nodup (blocks : List (LayoutBlock α)) :
    (recoveredLines text page blocks).Nodup :=
  (unassignedLines_nodup blocks).sublist (recoveredLines_sublist blocks)

/-- The newly assigned lines are the recovered ones. -/
theorem mem_assigned (h : recoverUnassignedTextLines text page layout = some (stats, layout'))
    {index : Int} : index ∈ LineFate.assigned.lines text page layout.blocks layout'.blocks ↔
      index ∈ recoveredLines text page layout.blocks := by
  show index ∉ blockLines layout.blocks ∧ index ∈ blockLines layout'.blocks ↔ _
  rw [(recover_perm h).mem_iff, List.mem_append]
  constructor
  · rintro ⟨hnot, hold | hnew⟩
    · exact absurd hold hnot
    · exact hnew
  · intro hnew
    have hunassigned := (recoveredLines_sublist _).subset hnew
    exact ⟨(mem_unassignedLines.mp hunassigned).2.1, .inr hnew⟩

/-- **One fate** for every line of the page. -/
theorem mem_fate_iff (h : recoverUnassignedTextLines text page layout = some (stats, layout'))
    {index : Int} (hrange : inRange text index = true) (fate : LineFate) :
    index ∈ fate.lines text page layout.blocks layout'.blocks ↔
      fateOf text page layout.blocks index = fate := by
  have hassigned := @mem_assigned _ _ text page layout layout' stats h index
  rw [mem_recoveredLines, mem_recoverableLines, mem_unassignedLines] at hassigned
  have hmarginalia : index ∈ skippedMarginaliaLines text page layout.blocks →
      index ∈ recoverableLines text layout.blocks :=
    fun hin => detectRepeatedMarginalia_subset text page hin
  rw [mem_recoverableLines, mem_unassignedLines] at hmarginalia
  have hmarginal : index ∈ LineFate.marginalia.lines text page layout.blocks layout'.blocks ↔
      index ∈ skippedMarginaliaLines text page layout.blocks := Iff.rfl
  unfold fateOf
  simp only [isAssigned_iff]
  by_cases hown : index ∈ blockLines layout.blocks <;>
    cases hvisible : hasVisibleLine text index <;>
    cases hoverlap : overlapsFurniture (lineBBox text index) layout.blocks <;>
    by_cases hnumber : index ∈ skippedMarginaliaLines text page layout.blocks <;>
    cases fate <;> simp_all [LineFate.lines]

omit [Double α] in
/-- The groups of a recovery hold the recovered lines. -/
theorem groupLines_perm_recovered {groups bodyGroups headerGroups footerGroups unattached attached :
    List (FallbackLineGroup α)} {lines : List Int} (hlines : (groupLines groups).Perm lines)
    (htypes : (bodyGroups ++ (headerGroups ++ footerGroups)).Perm groups)
    (hbody : (attached ++ unattached).Perm bodyGroups) :
    (groupLines attached ++ groupLines (unattached ++ (headerGroups ++ footerGroups))).Perm
      lines := by
  have hgroups : (attached ++ (unattached ++ (headerGroups ++ footerGroups))).Perm groups := by
    rw [← List.append_assoc]
    exact (hbody.append_right _).trans htypes
  refine List.Perm.trans (List.Perm.of_eq ?_) ((hgroups.flatMap_right _).trans hlines)
  exact List.flatMap_append.symm

/-- The new blocks of a recovery. -/
def appendedBlocks (pageNumber : Int)
    (bodyGroups headerGroups footerGroups : List (FallbackLineGroup α)) : List (LayoutBlock α) :=
  bodyGroups.map (fallbackBlock pageNumber .text) ++
    headerGroups.map (fallbackBlock pageNumber .header) ++
    footerGroups.map (fallbackBlock pageNumber .footer)

theorem appendedBlocks_ids (pageNumber : Int)
    (bodyGroups headerGroups footerGroups : List (FallbackLineGroup α)) :
    (appendedBlocks pageNumber bodyGroups headerGroups footerGroups).map (·.id) =
      (bodyGroups ++ (headerGroups ++ footerGroups)).map fun group =>
        fallbackId pageNumber (firstLineIndex group + 1) := by
  unfold appendedBlocks
  simp only [List.map_append, List.map_map, List.append_assoc]
  rfl

variable (text) in
theorem refined_ids (blocks : List (LayoutBlock α)) :
    (blocks.map fun block => (refineBlock text block).1).map (·.id) = blocks.map (·.id) := by
  rw [List.map_map]
  refine List.map_congr_left fun block _ => ?_
  obtain ⟨lines, heq, -⟩ := refineBlock_perm text block
  rw [Function.comp_apply, heq]

/-- The blocks of a recovery: those that were there, and the new ones. -/
theorem recover_blocks (h : recoverUnassignedTextLines text page layout = some (stats, layout')) :
    ∃ kept new, layout'.blocks = kept ++ new ∧
      List.Forall₂ (KeepsOwned (blockLines layout.blocks)) kept layout.blocks ∧
      (∀ index ∈ blockLines new, index ∉ blockLines layout.blocks) ∧
      (new.map (·.id)).Nodup ∧
      ∀ block ∈ new, ∃ line, block.id = fallbackId layout.pageNumber line := by
  obtain ⟨groups, bodyGroups, headerGroups, footerGroups, blocks, unattached, attached, hlines,
    hnonempty, htypes, hattach, hlayout, -⟩ := recover_cases h
  have hbody := (attachGroups_perm bodyGroups hattach).2
  have hperm := groupLines_perm_recovered hlines htypes hbody
  -- the lines of the groups were in range and owned by no block
  have hunowned : ∀ index ∈ recoveredLines text page layout.blocks,
      inRange text index = true ∧ index ∉ blockLines layout.blocks := fun index hindex =>
    have h := mem_unassignedLines.mp ((recoveredLines_sublist _).subset hindex)
    ⟨h.1, h.2.1⟩
  have hnewLines : ∀ index ∈ groupLines (unattached ++ (headerGroups ++ footerGroups)),
      index ∈ recoveredLines text page layout.blocks :=
    fun index hindex => hperm.mem_iff.mp (List.mem_append_right _ hindex)
  have hbodyLines : ∀ index ∈ groupLines bodyGroups,
      index ∈ recoveredLines text page layout.blocks := fun index hindex =>
    hlines.mem_iff.mp ((htypes.flatMap_right _).mem_iff.mp
      (List.flatMap_append ▸ List.mem_append_left _ hindex))
  have hnewNonempty : NonemptyGroups (unattached ++ (headerGroups ++ footerGroups)) := by
    intro group hgroup
    refine hnonempty group (htypes.mem_iff.mp ?_)
    rcases List.mem_append.mp hgroup with hun | hedge
    · exact List.mem_append_left _ (hbody.mem_iff.mp (List.mem_append_right _ hun))
    · exact List.mem_append_right _ hedge
  have hids : ((appendedBlocks layout.pageNumber unattached headerGroups footerGroups).map
      fun block => (refineBlock text block).1).map (·.id) =
      (unattached ++ (headerGroups ++ footerGroups)).map fun group =>
        fallbackId layout.pageNumber (firstLineIndex group + 1) :=
    (refined_ids text _).trans (appendedBlocks_ids _ _ _ _)
  refine ⟨blocks.map fun block => (refineBlock text block).1,
    (appendedBlocks layout.pageNumber unattached headerGroups footerGroups).map fun block =>
      (refineBlock text block).1, ?_, ?_, fun index hindex => ?_, ?_, fun block hblock => ?_⟩
  · rw [hlayout, ← List.map_append]
    exact refined_blocks text _
  · have hextended := forall₂_extended_trans (refine_extended text (groupLines bodyGroups) blocks)
      (attachGroups_extended bodyGroups hattach)
    exact hextended.imp fun _ _ h => h.keepsOwned fun index hown hin =>
      (hunowned index (hbodyLines index hin)).2 hown
  · rw [← refined_blocks, (refineMultiColumnTextLineOrder_perm _).mem_iff] at hindex
    refine (hunowned index (hnewLines index ?_)).2
    unfold appendedBlocks at hindex
    rw [blockLines_appended] at hindex
    simpa [groupLines] using hindex
  · rw [hids]
    refine fallbackBlock_ids_nodup _ hnewNonempty (hperm.nodup_iff.mpr
      (recoveredLines_nodup layout.blocks)).of_append_right fun index hindex => ?_
    exact (inRange_iff.mp (hunowned index (hnewLines index hindex)).1).1
  · have hmem := List.mem_map_of_mem (f := fun block : LayoutBlock α => block.id) hblock
    rw [hids] at hmem
    obtain ⟨group, -, hid⟩ := List.mem_map.mp hmem
    exact ⟨_, hid.symm⟩

/-- The counters of a recovery. -/
theorem recover_counters
    (h : recoverUnassignedTextLines text page layout = some (stats, layout')) :
    stats.recoveredLines = (recoveredLines text page layout.blocks).length ∧
      stats.skippedFurnitureLines = (skippedFurnitureLines text layout.blocks).length ∧
      stats.skippedMarginaliaLines = (skippedMarginaliaLines text page layout.blocks).length := by
  obtain ⟨groups, bodyGroups, headerGroups, footerGroups, blocks, unattached, attached, hlines,
    -, htypes, hattach, -, hrecovered, hfurniture, hmarginalia⟩ := recover_cases h
  have hbody := (attachGroups_perm bodyGroups hattach).2
  refine ⟨?_, hfurniture, hmarginalia⟩
  rw [hrecovered, ← (groupLines_perm_recovered hlines htypes hbody).length_eq]
  simp only [groupLines, List.flatMap_append, List.length_append]

variable (text page layout) in
/-- **Recovery partitions the lines.** Each line has one fate; an assigned line is in one block
once; a block that was there keeps its place, its id and the lines that were owned, and a new block
has none of these; the new ids are distinct, also from the old ones if none of those has their
form; and the counters are the sizes of the sets. -/
theorem recovery_partition
    (hrange : ∀ index ∈ blockLines layout.blocks, inRange text index = true) :
    ∃ stats layout', recoverUnassignedTextLines text page layout = some (stats, layout') ∧
      (∀ index, inRange text index = true →
        ∃! fate : LineFate, index ∈ fate.lines text page layout.blocks layout'.blocks) ∧
      (∀ index ∈ LineFate.assigned.lines text page layout.blocks layout'.blocks,
        (blockLines layout'.blocks).count index = 1) ∧
      (∃ kept new, layout'.blocks = kept ++ new ∧
        List.Forall₂ (KeepsOwned (blockLines layout.blocks)) kept layout.blocks ∧
        (∀ index ∈ blockLines new, index ∉ blockLines layout.blocks) ∧
        (new.map (·.id)).Nodup ∧
        ((∀ block ∈ layout.blocks, ∀ pageNumber line, block.id ≠ fallbackId pageNumber line) →
          ∀ block ∈ new, ∀ old ∈ layout.blocks, block.id ≠ old.id)) ∧
      (LineFate.assigned.lines text page layout.blocks layout'.blocks).ncard =
        stats.recoveredLines ∧
      (LineFate.furniture.lines text page layout.blocks layout'.blocks).ncard =
        stats.skippedFurnitureLines ∧
      (LineFate.marginalia.lines text page layout.blocks layout'.blocks).ncard =
        stats.skippedMarginaliaLines := by
  obtain ⟨⟨stats, layout'⟩, hrun⟩ := recover_of_inRange page hrange
  have hnodup := @recoveredLines_nodup _ _ text page layout.blocks
  obtain ⟨hrecovered, hfurniture, hmarginalia⟩ := recover_counters hrun
  refine ⟨stats, layout', hrun, fun index hindex => ?_, fun index hindex => ?_, ?_, ?_, ?_, ?_⟩
  · exact ⟨_, (mem_fate_iff hrun hindex _).mpr rfl,
      fun fate hfate => ((mem_fate_iff hrun hindex fate).mp hfate).symm⟩
  · have hin := (mem_assigned hrun).mp hindex
    rw [(recover_perm hrun).count_eq, List.count_append, List.count_eq_zero_of_not_mem hindex.1,
      List.count_eq_one_of_mem hnodup hin]
  · obtain ⟨kept, new, hblocks, hkept, hnew, hids, hnames⟩ := recover_blocks hrun
    refine ⟨kept, new, hblocks, hkept, hnew, hids, fun hform block hblock old hold heq => ?_⟩
    obtain ⟨line, hline⟩ := hnames block hblock
    exact hform old hold _ _ (heq.symm.trans hline)
  · rw [hrecovered, ncard_eq_length hnodup fun index => mem_assigned hrun]
  · rw [hfurniture]
    refine ncard_eq_length ((unassignedLines_nodup _).filter _) fun index => ?_
    refine Iff.trans ?_ mem_skippedFurnitureLines.symm
    rw [mem_unassignedLines]
    exact ⟨fun h => ⟨⟨h.1, h.2.1, h.2.2.1⟩, h.2.2.2⟩, fun h => ⟨h.1.1, h.1.2.1, h.1.2.2, h.2⟩⟩
  · rw [hmarginalia]
    exact ncard_eq_length (List.nodup_dedup _) fun index => Iff.rfl

end Partition

/-! ## A page with a line of each kind but one -/

section Example

/-- A line in a block, a blank one, one over a header, and one that nothing owns. -/
def mixedText : PageText ℚ :=
  ⟨0, 1, true, .pdfTextLayer,
    [⟨"owned", ⟨100, 200, 400, 220⟩, .pdfTextLayer, 1, []⟩,
      ⟨"  ", ⟨100, 240, 400, 260⟩, .pdfTextLayer, 1, []⟩,
      ⟨"running head", ⟨100, 20, 400, 40⟩, .pdfTextLayer, 1, []⟩,
      ⟨"lost", ⟨600, 700, 900, 720⟩, .pdfTextLayer, 1, []⟩]⟩

def mixedPage : PageArtifact := ⟨0, 1, "", 1000, 1400⟩

def mixedLayout : PageLayout ℚ :=
  ⟨0, 1, [⟨"body", .text, "", "", ⟨90, 190, 410, 230⟩, 1, -1, [0]⟩,
    ⟨"head", .header, "", "", ⟨0, 0, 1000, 60⟩, 1, -1, []⟩]⟩

theorem recovery_partition_mixed : ∃ stats layout',
    recoverUnassignedTextLines mixedText mixedPage mixedLayout = some (stats, layout') ∧
      stats.recoveredLines = 1 ∧ stats.skippedFurnitureLines = 1 ∧
      (LineFate.assigned.lines mixedText mixedPage mixedLayout.blocks layout'.blocks).ncard = 1 ∧
      ∀ index, inRange mixedText index = true →
        ∃! fate : LineFate,
          index ∈ fate.lines mixedText mixedPage mixedLayout.blocks layout'.blocks := by
  have hstats : ((recoverUnassignedTextLines mixedText mixedPage mixedLayout).map fun result =>
      (result.1.recoveredLines, result.1.skippedFurnitureLines)) = some (1, 1) := by
    decide +kernel
  obtain ⟨stats, layout', hrun, hfate, -, -, hassigned, -⟩ :=
    recovery_partition mixedText mixedPage mixedLayout (by decide)
  rw [hrun] at hstats
  obtain ⟨hrecovered, hfurniture⟩ := Prod.mk.inj (Option.some.inj hstats)
  exact ⟨stats, layout', hrun, hrecovered, hfurniture, hassigned.trans hrecovered, hfate⟩

end Example

end DocParser.Layout
