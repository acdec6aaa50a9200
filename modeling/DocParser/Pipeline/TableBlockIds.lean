import DocParser.Layout.RecoveryPartition
import DocParser.Layout.TextLayoutModel
import DocParser.Pipeline.ResolutionTwice
import DocParser.Pipeline.TableRecognition

/-!
# Ids of table blocks

The layout backends number the blocks of a page. A new block for a table takes the next number, a
recovered block is named by its first line, and a figure that is merged takes its id with it. So the
ids stay distinct, and each table has a block of its own (`tables_own_blocks`).
-/

namespace DocParser.Pipeline

open Document Layout
open TextLayoutModel (blockId ids_concat)

section Definitions

variable {α : Type}

/-- What a table asks of a block. -/
def blockKey (block : LayoutBlock α) : String × LayoutBlockType := (block.id, block.type)

/-- The ids `page_N_block_1` to `page_N_block_k`. -/
def NumberedBlocks (pageNumber : Int) (blocks : List (LayoutBlock α)) : Prop :=
  blocks.map (·.id) = (List.range blocks.length).map (blockId pageNumber)

/-- The tables that are attached name distinct table blocks, and no other table names a block. -/
structure Attached (pageNumber : Int) (layoutBlocks : List (LayoutBlock α)) (s : Attachment α) :
    Prop where
  numbered : NumberedBlocks pageNumber s.blocks
  assigned : s.assignedLayoutBlocks = (s.tables.map (·.layoutBlockId)).reverse
  nodup : (s.tables.map (·.layoutBlockId)).Nodup
  named : ∀ table ∈ s.tables, (table.layoutBlockId, .table) ∈ s.blocks.map blockKey
  added : ∀ block ∈ s.blocks, block ∈ layoutBlocks ∨ block.id ∈ s.assignedLayoutBlocks

/-- Each table names one block of a layout, a table block, and no two name the same. -/
structure TablesOwnBlocks (layout : PageLayout α) (tables : PageTables α) : Prop where
  ids : (layout.blocks.map (·.id)).Nodup
  named : ∀ table ∈ tables.tables, ∃ block,
    (layout.blocks.filter fun other => other.id == table.layoutBlockId) = [block] ∧
      block.type = .table
  distinct : (tables.tables.map (·.layoutBlockId)).Nodup

end Definitions

/-! ## Ids -/

section Ids

variable {α : Type} {pageNumber : Int}

theorem layoutBlockId_inj {k k' : Nat} (h : blockId pageNumber k = blockId pageNumber k') :
    k = k' := by
  have hchars := congrArg String.toList h
  unfold blockId at hchars
  simp only [String.toList_append, List.append_assoc, List.append_cancel_left_eq] at hchars
  exact Nat.succ.inj (toString_nat_inj hchars)

theorem blockId_ne_fallbackId (k : Nat) (line : Int) :
    blockId pageNumber k ≠ fallbackId pageNumber line := by
  intro h
  have hchars := congrArg String.toList h
  unfold blockId fallbackId at hchars
  simp only [String.toList_append, List.append_assoc, List.append_cancel_left_eq] at hchars
  -- the two differ behind the page number
  have hsecond : some 'b' = some 'f' := congrArg (fun chars => chars[1]?) hchars
  cases hsecond

theorem NumberedBlocks.nodup {blocks : List (LayoutBlock α)}
    (h : NumberedBlocks pageNumber blocks) : (blocks.map (·.id)).Nodup := by
  unfold NumberedBlocks at h
  rw [h]
  exact List.nodup_range.map fun _ _ => layoutBlockId_inj

theorem NumberedBlocks.id_of_mem {blocks : List (LayoutBlock α)}
    (h : NumberedBlocks pageNumber blocks) {block : LayoutBlock α} (hblock : block ∈ blocks) :
    ∃ k < blocks.length, block.id = blockId pageNumber k := by
  have hmem := List.mem_map_of_mem (f := fun b : LayoutBlock α => b.id) hblock
  unfold NumberedBlocks at h
  rw [h] at hmem
  obtain ⟨k, hk, heq⟩ := List.mem_map.mp hmem
  exact ⟨k, List.mem_range.mp hk, heq.symm⟩

/-- Distinct ids name one block each. -/
theorem filter_id_eq {blocks : List (LayoutBlock α)} (hids : (blocks.map (·.id)).Nodup)
    {block : LayoutBlock α} (hblock : block ∈ blocks) :
    (blocks.filter fun other => other.id == block.id) = [block] := by
  obtain ⟨before, after, rfl⟩ := List.append_of_mem hblock
  rw [List.map_append, List.map_cons, List.nodup_append, List.nodup_cons] at hids
  obtain ⟨-, ⟨hafter, -⟩, hbefore⟩ := hids
  have hnone : ∀ other ∈ before, ¬ (other.id == block.id) = true := by
    intro other hother heq
    exact hbefore other.id (List.mem_map_of_mem (f := fun b : LayoutBlock α => b.id) hother)
      block.id (List.mem_cons_self ..) (beq_iff_eq.mp heq)
  have hnone' : ∀ other ∈ after, ¬ (other.id == block.id) = true := by
    intro other hother heq
    exact hafter (beq_iff_eq.mp heq ▸
      List.mem_map_of_mem (f := fun b : LayoutBlock α => b.id) hother)
  rw [List.filter_append, List.filter_eq_nil_iff.mpr hnone, List.nil_append,
    List.filter_cons_of_pos (by simp), List.filter_eq_nil_iff.mpr hnone']

end Ids

/-! ## Attaching -/

section Attaching

variable {α : Type} [Double α] {text : PageText α} {pageNumber : Int}
  {layoutBlocks : List (LayoutBlock α)}

omit [Double α] in
/-- A free block is one of the layout, with the name that the table gives. -/
theorem freeBlock_spec {s : Attachment α} {table : Table α} {existing : LayoutBlock α}
    (h : freeBlock s table = some existing) :
    existing ∈ s.blocks ∧ existing.id = table.layoutBlockId ∧
      existing.id ∉ s.assignedLayoutBlocks := by
  unfold freeBlock at h
  split at h
  · cases h
  next found hfound =>
    split at h
    · cases h
    next hfree =>
      cases h
      have hname := List.find?_some hfound
      rw [Bool.and_eq_true] at hname
      exact ⟨List.mem_of_find?_eq_some hfound, beq_iff_eq.mp hname.2,
        fun hmem => hfree (List.contains_iff_mem.mpr hmem)⟩

omit [Double α] in
theorem Attached.init (h : NumberedBlocks pageNumber layoutBlocks) :
    Attached pageNumber layoutBlocks ⟨layoutBlocks, [], []⟩ where
  numbered := h
  assigned := rfl
  nodup := List.nodup_nil
  named := fun _ htable => nomatch htable
  added := fun _ hblock => .inl hblock

/-- **One table** takes the block that it names, or the next number. -/
theorem Attached.attachTable {s : Attachment α} (h : Attached pageNumber layoutBlocks s)
    {table : Table α} (htype : ∀ block ∈ layoutBlocks, block.id = table.layoutBlockId →
      block.type = .table) :
    Attached pageNumber layoutBlocks (attachTable text pageNumber s table) := by
  unfold Pipeline.attachTable
  cases hfree : freeBlock s table with
  | some existing =>
    obtain ⟨hmem, hid, hunassigned⟩ := freeBlock_spec hfree
    have hold : existing ∈ layoutBlocks := (h.added existing hmem).resolve_right hunassigned
    refine ⟨h.numbered, ?_, ?_, fun other hother => ?_, fun block hblock => ?_⟩
    · simp [h.assigned, hid]
    · rw [h.assigned, List.mem_reverse, hid] at hunassigned
      simpa [List.nodup_append, h.nodup] using hunassigned
    · rcases List.mem_append.mp hother with hother | hother
      · exact h.named other hother
      · obtain rfl := List.mem_singleton.mp hother
        exact List.mem_map.mpr ⟨existing, hmem, Prod.ext hid (htype existing hold hid)⟩
    · exact (h.added block hblock).imp_right (List.mem_cons_of_mem _)
  | none =>
    have hfresh : blockId pageNumber s.blocks.length ∉ s.tables.map (·.layoutBlockId) := by
      intro hmem
      obtain ⟨other, hother, hname⟩ := List.mem_map.mp hmem
      obtain ⟨block, hblock, hkey⟩ := List.mem_map.mp (h.named other hother)
      obtain ⟨k, hk, hid⟩ := h.numbered.id_of_mem hblock
      have hsame := layoutBlockId_inj (hid.symm.trans ((congrArg Prod.fst hkey).trans hname))
      omega
    refine ⟨ids_concat h.numbered rfl, ?_, ?_, fun other hother => ?_, fun block hblock => ?_⟩
    · simp [h.assigned]
    · rw [List.map_append]
      exact List.Nodup.append h.nodup (List.nodup_singleton _)
        (List.disjoint_singleton.mpr hfresh)
    · rw [List.map_append]
      rcases List.mem_append.mp hother with hother | hother
      · exact List.mem_append_left _ (h.named other hother)
      · obtain rfl := List.mem_singleton.mp hother
        exact List.mem_append_right _ (List.mem_singleton_self _)
    · rcases List.mem_append.mp hblock with hblock | hblock
      · exact (h.added block hblock).imp_right (List.mem_cons_of_mem _)
      · obtain rfl := List.mem_singleton.mp hblock
        exact .inr (List.mem_cons_self ..)

theorem Attached.foldl (tables : List (Table α)) : ∀ {s : Attachment α},
    Attached pageNumber layoutBlocks s →
    (∀ table ∈ tables, ∀ block ∈ layoutBlocks, block.id = table.layoutBlockId →
      block.type = .table) →
    Attached pageNumber layoutBlocks (tables.foldl (Pipeline.attachTable text pageNumber) s) := by
  induction tables with
  | nil => exact fun h _ => h
  | cons table tables ih =>
    intro s h htype
    exact ih (h.attachTable (htype table (List.mem_cons_self ..)))
      fun other hother => htype other (List.mem_cons_of_mem _ hother)

variable (text pageNumber) in
theorem attach_tables_length (tables : List (Table α)) : ∀ s : Attachment α,
    (tables.foldl (attachTable text pageNumber) s).tables.length =
      s.tables.length + tables.length := by
  induction tables with
  | nil => exact fun s => rfl
  | cons table tables ih =>
    intro s
    rw [List.foldl_cons, ih, List.length_cons]
    have hstep : (attachTable text pageNumber s table).tables.length = s.tables.length + 1 := by
      unfold attachTable
      cases freeBlock s table <;> exact List.length_append
    omega

variable (text pageNumber) in
/-- A new block lists lines of the page. -/
theorem attach_inRange (tables : List (Table α)) : ∀ s : Attachment α,
    (∀ index ∈ blockLines s.blocks, inRange text index = true) →
    ∀ index ∈ blockLines (tables.foldl (attachTable text pageNumber) s).blocks,
      inRange text index = true := by
  induction tables with
  | nil => exact fun s h => h
  | cons table tables ih =>
    intro s h
    refine ih _ fun index hindex => ?_
    unfold attachTable at hindex
    split at hindex
    · exact h index hindex
    · unfold blockLines at hindex
      rw [List.flatMap_append, List.mem_append] at hindex
      rcases hindex with hindex | hindex
      · exact h index hindex
      · obtain ⟨block, hblock, hline⟩ := List.mem_flatMap.mp hindex
        obtain rfl := List.mem_singleton.mp hblock
        obtain ⟨n, hn, rfl⟩ := List.mem_map.mp (List.mem_filter.mp hline).1
        exact inRange_iff.mpr ⟨Int.natCast_nonneg n, by simpa using hn⟩

end Attaching

/-! ## The stage -/

section Stage

variable {α : Type} [Double α] {text : PageText α} {page : PageArtifact}
  {layout layout' : PageLayout α} {stats : LayoutRecoveryStats}

omit [Double α] in
theorem map_blockKey_modify {f : LayoutBlock α → LayoutBlock α}
    (hf : ∀ block, blockKey (f block) = blockKey block) (blocks : List (LayoutBlock α)) (i : Nat) :
    (blocks.modify i f).map blockKey = blocks.map blockKey := by
  refine List.ext_getElem? fun k => ?_
  rw [List.getElem?_map, List.getElem?_map, List.getElem?_modify]
  cases blocks[k]? with
  | none => rfl
  | some block =>
    show some (blockKey (if i = k then f block else block)) = some (blockKey block)
    split
    · rw [hf]
    · rfl

theorem attachGroups_keys {medianLineHeight : α} (groups : List (FallbackLineGroup α)) :
    ∀ {blocks blocks' : List (LayoutBlock α)} {unattached attached : List (FallbackLineGroup α)},
      attachGroups text page medianLineHeight groups blocks = some (blocks', unattached, attached) →
      blocks'.map blockKey = blocks.map blockKey := by
  induction groups with
  | nil =>
    intro blocks blocks' unattached attached h
    cases h
    rfl
  | cons group groups ih =>
    intro blocks blocks' unattached attached h
    unfold attachGroups at h
    split at h
    · obtain ⟨⟨blocks₁, unattached₁, attached₁⟩, hrun, heq⟩ := Option.map_eq_some_iff.mp h
      cases heq
      exact ih hrun
    next target _ =>
      dsimp only at h
      split at h
      · cases h
      obtain ⟨⟨blocks₁, unattached₁, attached₁⟩, hrun, heq⟩ := Option.map_eq_some_iff.mp h
      cases heq
      exact (ih hrun).trans (map_blockKey_modify
        (f := attachGroup text medianLineHeight group) (fun _ => rfl) blocks target)

/-- The recovery keeps the ids and types of the blocks and puts new ones behind them. -/
theorem recover_keys (h : recoverUnassignedTextLines text page layout = some (stats, layout')) :
    ∃ new : List (LayoutBlock α),
      layout'.blocks.map blockKey = layout.blocks.map blockKey ++ new.map blockKey ∧
      (new.map (·.id)).Nodup ∧
      ∀ block ∈ new, ∃ line, block.id = fallbackId layout.pageNumber line := by
  obtain ⟨kept, new, hblocks, hkept, -, hids, hnames⟩ := recover_blocks h
  obtain ⟨groups, bodyGroups, headerGroups, footerGroups, blocks, unattached, attached, -, -, -,
    hattach, hlayout, -⟩ := recover_cases h
  have hprefix : layout.blocks.map blockKey <+: layout'.blocks.map blockKey := by
    have hrefined : ∀ bs : List (LayoutBlock α),
        (bs.map fun block => (refineBlock text block).1).map blockKey = bs.map blockKey := by
      intro bs
      rw [List.map_map]
      refine List.map_congr_left fun block _ => ?_
      obtain ⟨lines, heq, -⟩ := refineBlock_perm text block
      rw [Function.comp_apply, heq]
      rfl
    rw [hlayout]
    dsimp only
    rw [refined_blocks, hrefined, List.map_append, attachGroups_keys bodyGroups hattach]
    exact List.prefix_append _ _
  refine ⟨new, ?_, hids, hnames⟩
  rw [hblocks, List.map_append] at hprefix ⊢
  have hlength : (layout.blocks.map blockKey).length = (kept.map blockKey).length := by
    rw [List.length_map, List.length_map, hkept.length_eq]
  have hkeys : layout.blocks.map blockKey <+: kept.map blockKey :=
    List.prefix_of_prefix_length_le hprefix (List.prefix_append _ _) hlength.le
  rw [hkeys.eq_of_length hlength]

theorem recover_nodup (hnumbered : NumberedBlocks layout.pageNumber layout.blocks)
    (h : recoverUnassignedTextLines text page layout = some (stats, layout')) :
    (layout'.blocks.map (·.id)).Nodup := by
  obtain ⟨new, hkeys, hids, hnames⟩ := recover_keys h
  have hfst : layout'.blocks.map (·.id) = layout.blocks.map (·.id) ++ new.map (·.id) := by
    have hmapped := congrArg (List.map Prod.fst) hkeys
    rwa [List.map_append, List.map_map, List.map_map, List.map_map] at hmapped
  rw [hfst]
  refine hnumbered.nodup.append hids fun id hold hnew => ?_
  obtain ⟨old, hmem, rfl⟩ := List.mem_map.mp hold
  obtain ⟨block, hblock, hid⟩ := List.mem_map.mp hnew
  obtain ⟨k, -, hk⟩ := hnumbered.id_of_mem hmem
  obtain ⟨line, hline⟩ := hnames block hblock
  exact blockId_ne_fallbackId k line (hk.symm.trans (hid.symm.trans hline))

/-- A resolution keeps the table blocks. -/
theorem resolve_ownBlocks {tables : PageTables α} (hids : (layout.blocks.map (·.id)).Nodup)
    (hdistinct : (tables.tables.map (·.layoutBlockId)).Nodup)
    (hnamed : ∀ table ∈ tables.tables,
      (table.layoutBlockId, .table) ∈ layout.blocks.map blockKey) :
    TablesOwnBlocks (resolvePageStructure text layout tables).2.1
      (resolvePageStructure text layout tables).2.2 := by
  have hids' : ((resolvePageStructure text layout tables).2.1.blocks.map (·.id)).Nodup :=
    resolve_ids_nodup hids
  refine ⟨hids', fun table htable => ?_, by rwa [resolve_tableNames]⟩
  have hname := List.mem_map_of_mem (f := fun t : Table α => t.layoutBlockId) htable
  rw [resolve_tableNames] at hname
  obtain ⟨source, hsource, hsame⟩ := List.mem_map.mp hname
  obtain ⟨block, hblock, hkey⟩ := List.mem_map.mp (hnamed source hsource)
  obtain ⟨hid, htype⟩ := Prod.mk.inj hkey
  obtain ⟨kept, hkept, hkeptId, hkeptType⟩ :=
    resolve_keeps hids hblock (ownerOf_not_figure (by rw [htype]; decide))
  refine ⟨kept, ?_, hkeptType.trans htype⟩
  have hkeptName : kept.id = table.layoutBlockId := hkeptId.trans (hid.trans hsame)
  rw [← hkeptName]
  exact filter_id_eq hids' hkept

/-- **Tables own their blocks.** When the blocks of the layout are numbered, and a block that a
table names is a table block, a page with lines in range is recognized, and then the ids are
distinct and every table has one block, of its own. -/
theorem tables_own_blocks (recognize : RecognizeTables α) (page : PageArtifact)
    (text : PageText α) (layout : PageLayout α) (detected : PageTables α)
    (diagnostics : List Diagnostic)
    (hdetected : recognize page text layout = some (detected, diagnostics))
    (hnumbered : NumberedBlocks layout.pageNumber layout.blocks)
    (hnames : ∀ table ∈ detected.tables, ∀ block ∈ layout.blocks,
      block.id = table.layoutBlockId → block.type = .table) :
    ((∀ index ∈ blockLines layout.blocks, inRange text index = true) →
      ∃ result, recognizePage recognize page text layout = some (.ok result)) ∧
    ∀ tables diagnostics' layout',
      recognizePage recognize page text layout = some (.ok (tables, diagnostics', layout')) →
        TablesOwnBlocks layout' tables ∧ tables.tables.length = detected.tables.length := by
  have hattached : Attached layout.pageNumber layout.blocks
      (detected.tables.foldl (attachTable text layout.pageNumber) ⟨layout.blocks, [], []⟩) :=
    Attached.foldl detected.tables (Attached.init hnumbered) hnames
  constructor
  · intro hrange
    have hattachedRange : ∀ index ∈ blockLines (attachDetectedTables text layout detected).1.blocks,
        inRange text index = true :=
      attach_inRange text layout.pageNumber detected.tables _ hrange
    obtain ⟨⟨stats, recovered⟩, hrecover⟩ := recover_of_inRange page hattachedRange
    unfold recognizePage
    rw [hdetected]
    dsimp only
    rw [hrecover]
    exact ⟨_, rfl⟩
  · intro tables diagnostics' layout' h
    unfold recognizePage at h
    rw [hdetected] at h
    dsimp only at h
    split at h
    · cases h
    next stats recovered hrecover =>
      cases h
      obtain ⟨new, hkeys, -, -⟩ := recover_keys hrecover
      refine ⟨resolve_ownBlocks (recover_nodup hattached.numbered hrecover) hattached.nodup
        fun table htable => ?_, ?_⟩
      · rw [hkeys]
        exact List.mem_append_left _ (hattached.named table htable)
      · have hnameCount := congrArg List.length
          (resolve_tableNames text recovered (attachDetectedTables text layout detected).2)
        rw [List.length_map, List.length_map] at hnameCount
        rw [hnameCount]
        exact (attach_tables_length text layout.pageNumber detected.tables _).trans
          (Nat.zero_add _)

end Stage

/-! ## Three tables over a page with one table block -/

section Example

def numberedText : PageText ℚ :=
  ⟨0, 1, true, .ocr, [⟨"intro", ⟨0, 10, 50, 14⟩, .ocr, 1, []⟩,
    ⟨"total", ⟨0, 40, 50, 44⟩, .ocr, 1, []⟩, ⟨"lost", ⟨0, 70, 50, 74⟩, .ocr, 1, []⟩]⟩

def numberedLayout : PageLayout ℚ :=
  ⟨0, 1, [⟨"page_1_block_1", .text, "", "", ⟨0, 10, 50, 14⟩, 1, -1, [0]⟩,
    ⟨"page_1_block_2", .table, "", "", ⟨0, 30, 60, 50⟩, 1, -1, [1]⟩]⟩

/-- Two tables that name the same block, and one that names none. -/
def recognizeThree : RecognizeTables ℚ := fun _ _ _ =>
  some (⟨0, 1, [{ detectedTable with layoutBlockId := "page_1_block_2" },
    { detectedTable with layoutBlockId := "page_1_block_2" }, detectedTable]⟩, [])

theorem tables_own_blocks_three : ∃ tables diagnostics layout',
    recognizePage recognizeThree paragraphPage numberedText numberedLayout =
      some (.ok (tables, diagnostics, layout')) ∧
    TablesOwnBlocks layout' tables ∧ tables.tables.length = 3 := by
  obtain ⟨hreturns, hown⟩ := tables_own_blocks recognizeThree paragraphPage numberedText
    numberedLayout _ _ rfl (by unfold NumberedBlocks; decide +kernel) (by decide +kernel)
  obtain ⟨⟨tables, diagnostics, layout'⟩, hresult⟩ := hreturns (by decide)
  exact ⟨tables, diagnostics, layout', hresult, hown _ _ _ hresult⟩

end Example

end DocParser.Pipeline
