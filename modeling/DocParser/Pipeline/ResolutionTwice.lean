import DocParser.Pipeline.PageConservation

/-!
# The resolution, run twice

A second run decides against the tables as the first one left them, and they have grown. So a
figure that had no owner can find one (`growing_not_idle`). `secondRun_idle_iff`: apart from such
figures a second run changes nothing.
-/

namespace DocParser.Pipeline

open Document Layout

section Twice

variable {α : Type} [Double α] (text : PageText α) (layout : PageLayout α) (tables : PageTables α)

/-- The second run, on the results of the first. -/
def secondRun : PageStructureStats × PageLayout α × PageTables α :=
  resolvePageStructure text (resolvePageStructure text layout tables).2.1
    (resolvePageStructure text layout tables).2.2

/-- No figure is merged, no line preserved, no text mode changed, no block and no table. -/
structure SecondRunIdle : Prop where
  merges : (secondRun text layout tables).1.mergedFigures = 0
  preserves : (secondRun text layout tables).1.preservedUniqueLines = 0
  sameLayout : (secondRun text layout tables).2.1 = (resolvePageStructure text layout tables).2.1
  sameTables : (secondRun text layout tables).2.2 = (resolvePageStructure text layout tables).2.2

/-- No figure that is left over has exactly one owner among the grown blocks. -/
def NoLateOwner : Prop :=
  ∀ figure ∈ layout.blocks, figure.type = .figure →
    ownerOf text layout.blocks tables.tables figure = none →
    (layout.blocks.filter fun block => owns text tables.tables figure
      (grown text layout.blocks tables.tables block).1).length ≠ 1

variable {text layout tables}

/-! ## Runs without a replacement -/

theorem ownerOf_eq_none_iff {blocks : List (LayoutBlock α)} {tables : List (Table α)}
    {figure : LayoutBlock α} : ownerOf text blocks tables figure = none ↔
      (figure.type = .figure → (blocks.filter (owns text tables figure)).length ≠ 1) := by
  unfold ownerOf
  split
  next htype =>
    rcases blocks.filter (owns text tables figure) with _ | ⟨owner, _ | ⟨other, rest⟩⟩ <;>
      simp [beq_iff_eq.mp htype]
  next htype => simp [show figure.type ≠ .figure by simpa using htype]

theorem replacements_eq_nil_iff (hids : (layout.blocks.map (·.id)).Nodup) :
    replacements text layout tables = [] ↔
      ∀ figure ∈ layout.blocks, ownerOf text layout.blocks tables.tables figure = none := by
  unfold replacements
  rw [List.filterMap_eq_nil_iff]
  constructor
  · intro h figure hfigure
    obtain ⟨index, hindex, rfl⟩ := exists_blockAt hfigure
    have hnone := h index (List.mem_range.mpr hindex)
    rw [ownerOf_eq hids, Option.map_eq_none_iff.mp hnone]
    rfl
  · intro h index hindex
    have hnone := h _ (blockAt_mem (List.mem_range.mp hindex))
    rw [ownerOf_eq hids, Option.map_eq_none_iff] at hnone
    rw [hnone]
    rfl

theorem grown_of_no_figures {blocks : List (LayoutBlock α)} {tables : List (Table α)}
    {block : LayoutBlock α} (h : figuresOf text blocks tables block = []) :
    (grown text blocks tables block).1 = block := by
  unfold grown
  rw [h]
  rfl

/-- Without a replacement the blocks stay as they are. -/
theorem resolve_layout_of_no_owner (hids : (layout.blocks.map (·.id)).Nodup)
    (h : ∀ figure ∈ layout.blocks, ownerOf text layout.blocks tables.tables figure = none) :
    (resolvePageStructure text layout tables).2.1 = layout := by
  have hremap : remappings text layout.blocks tables.tables = [] := by
    unfold remappings
    rw [List.filterMap_eq_nil_iff]
    intro figure hfigure
    rw [h figure hfigure]
    rfl
  have hfigures : ∀ block, figuresOf text layout.blocks tables.tables block = [] := by
    intro block
    unfold figuresOf
    rw [List.filter_eq_nil_iff]
    intro figure hfigure
    rw [h figure hfigure]
    simp
  have hblocks : (resolvePageStructure text layout tables).2.1.blocks = layout.blocks := by
    rw [resolve_blocks_eq hids, hremap]
    calc _ = (layout.blocks.filter fun block =>
          (ownerOf text layout.blocks tables.tables block).isNone).map id :=
          List.map_congr_left fun block _ => grown_of_no_figures (hfigures block)
      _ = layout.blocks := by
          rw [List.map_id, List.filter_eq_self]
          intro block hblock
          rw [h block hblock]
          rfl
  show { layout with blocks := (resolvePageStructure text layout tables).2.1.blocks } = layout
  rw [hblocks]

/-- Without a replacement a table changes only if its cells lose text. -/
theorem resolve_tables_of_no_owner (hnone : replacements text layout tables = [])
    (hread : ∀ owner ∈ tableBlocks layout tables, ∀ table, tables.tables[owner.2]? = some table →
      structureLosesSourceText (blockAt layout owner.1) table text = true →
        readBySource table = table) :
    (resolvePageStructure text layout tables).2.2 = tables := by
  have hregions : (merges text layout tables).regions.map (·.1) = layout.blocks := by
    unfold merges
    rw [hnone]
    show (layout.blocks.map _).map _ = _
    rw [List.map_map]
    exact List.map_id' _
  have htables : (resolvePageStructure text layout tables).2.2.tables = tables.tables := by
    refine List.ext_getElem? fun k => ?_
    rw [resolve_tables_eq, hnone, hregions]
    cases htable : tables.tables[k]? with
    | none => rfl
    | some table =>
      simp only [Option.map_some, List.any_nil, Bool.false_or]
      split
      next hany =>
        obtain ⟨owner, howner, hloses⟩ := List.any_eq_true.mp hany
        rw [Bool.and_eq_true, beq_iff_eq] at hloses
        obtain ⟨rfl, hloses⟩ := hloses
        rw [hread owner howner table htable hloses]
      · rfl
  show { tables with tables := (resolvePageStructure text layout tables).2.2.tables } = tables
  rw [htables]

/-! ## The second run -/

theorem tableOf_resolve (block : LayoutBlock α) :
    tableOf (resolvePageStructure text layout tables).2.2.tables block =
      tableOf tables.tables block := by
  have hfind : ∀ ts : List (Table α), (ts.findIdx? fun table => table.layoutBlockId == block.id) =
      (ts.map (·.layoutBlockId)).findIdx? (· == block.id) := fun ts => by
    rw [List.findIdx?_map]
    rfl
  unfold tableOf
  rw [hfind, hfind, resolve_tableNames]

theorem resolve_ids_nodup (hids : (layout.blocks.map (·.id)).Nodup) :
    ((resolvePageStructure text layout tables).2.1.blocks.map (·.id)).Nodup := by
  have hkept := congrArg (List.map Prod.fst) (@resolve_ids α _ text layout tables hids)
  simp only [List.map_map] at hkept
  have hsub : (layout.blocks.filter fun block =>
      (ownerOf text layout.blocks tables.tables block).isNone).Sublist layout.blocks :=
    List.filter_sublist
  exact (List.Perm.of_eq hkept).nodup_iff.mpr (hids.sublist (hsub.map (·.id)))

/-- A figure that is left over is as it was. -/
theorem grown_figure (hids : (layout.blocks.map (·.id)).Nodup) {figure : LayoutBlock α}
    (hfigure : figure ∈ layout.blocks) (htype : figure.type = .figure) :
    (grown text layout.blocks tables.tables figure).1 = figure := by
  refine grown_of_no_figures (List.eq_nil_iff_forall_not_mem.mpr fun other hother => ?_)
  have howns := (ownerOf_mem ((mem_figuresOf hids hfigure).mp hother).2).2
  have htable := owns_type howns
  rw [htype] at htable
  cases htable

/-- Whether a block owns a figure, after the first run. -/
theorem owns_resolve (remappedIds : List (String × String)) (figure block : LayoutBlock α) :
    owns text (resolvePageStructure text layout tables).2.2.tables
        (remapRelated remappedIds figure) (remapRelated remappedIds block) =
      owns text tables.tables figure block := by
  unfold owns
  rw [tableOf_resolve]
  obtain ⟨id, hfigure⟩ := remapRelated_eq remappedIds figure
  obtain ⟨id', hblock⟩ := remapRelated_eq remappedIds block
  rw [hfigure, hblock]
  rfl

/-- The owners of a figure in the second run are the grown blocks that own it. -/
theorem length_owners_resolve (hids : (layout.blocks.map (·.id)).Nodup)
    (figure : LayoutBlock α) :
    ((resolvePageStructure text layout tables).2.1.blocks.filter
      (owns text (resolvePageStructure text layout tables).2.2.tables
        (remapRelated (remappings text layout.blocks tables.tables) figure))).length =
      (layout.blocks.filter fun block => owns text tables.tables figure
        (grown text layout.blocks tables.tables block).1).length := by
  rw [resolve_blocks_eq hids, List.filter_map, List.length_map, List.filter_filter]
  refine congrArg List.length (List.filter_congr fun block _ => ?_)
  rw [Function.comp_apply, owns_resolve, Bool.and_comm, Bool.eq_iff_iff, Bool.and_eq_true]
  refine and_iff_right_of_imp fun howns => ?_
  have htype := owns_type howns
  rw [(grown_id block).2.1] at htype
  rw [ownerOf_not_figure (by rw [htype]; decide)]
  rfl

theorem secondRun_no_owner_iff (hids : (layout.blocks.map (·.id)).Nodup) :
    (∀ figure ∈ (resolvePageStructure text layout tables).2.1.blocks,
      ownerOf text (resolvePageStructure text layout tables).2.1.blocks
        (resolvePageStructure text layout tables).2.2.tables figure = none) ↔
      NoLateOwner text layout tables := by
  have hcase : ∀ figure ∈ layout.blocks, ownerOf text
      (resolvePageStructure text layout tables).2.1.blocks
      (resolvePageStructure text layout tables).2.2.tables
      (remapRelated (remappings text layout.blocks tables.tables)
        (grown text layout.blocks tables.tables figure).1) = none ↔
      (figure.type = .figure → (layout.blocks.filter fun block => owns text tables.tables figure
        (grown text layout.blocks tables.tables block).1).length ≠ 1) := by
    intro figure hfigure
    rw [ownerOf_eq_none_iff, (remapRelated_id _ _).2.1, (grown_id figure).2.1]
    refine imp_congr_right fun htype => ?_
    rw [grown_figure hids hfigure htype, length_owners_resolve hids]
  unfold NoLateOwner
  constructor
  · intro h figure hfigure htype hnone
    exact (hcase figure hfigure).mp
      (h _ ((mem_resolve_blocks hids).mpr ⟨figure, hfigure, hnone, rfl⟩)) htype
  · intro h block hblock
    obtain ⟨figure, hfigure, hnone, rfl⟩ := (mem_resolve_blocks hids).mp hblock
    exact (hcase figure hfigure).mpr fun htype => h figure hfigure htype hnone

/-- A table whose cells lose text is read by its source lines since the first run. -/
theorem resolve_readBySource (hids : (layout.blocks.map (·.id)).Nodup) {owner : Nat × Nat}
    (howner : owner ∈ tableBlocks (resolvePageStructure text layout tables).2.1
      (resolvePageStructure text layout tables).2.2) {table : Table α}
    (htable : (resolvePageStructure text layout tables).2.2.tables[owner.2]? = some table)
    (hloses : structureLosesSourceText
      (blockAt (resolvePageStructure text layout tables).2.1 owner.1) table text = true) :
    readBySource table = table := by
  obtain ⟨hlt, htableOf⟩ := (mem_tableBlocks_iff (resolve_ids_nodup hids)).mp howner
  obtain ⟨block, hblock, -, hresolved⟩ := (mem_resolve_blocks hids).mp (blockAt_mem hlt)
  obtain ⟨index, hindex, rfl⟩ := exists_blockAt hblock
  obtain ⟨hid, htype, hlines, -⟩ := remapRelated_id (remappings text layout.blocks tables.tables)
    (grown text layout.blocks tables.tables (blockAt layout index)).1
  rw [hresolved] at hid htype hlines
  -- the same block named the same table in the first run
  have hnamed : tableOf tables.tables (blockAt layout index) = some owner.2 := by
    rw [tableOf_resolve] at htableOf
    rw [← htableOf]
    unfold tableOf
    rw [hid, htype, (grown_id _).1, (grown_id _).2.1]
  have hfirst : (index, owner.2) ∈ tableBlocks layout tables :=
    (mem_tableBlocks_iff hids).mpr ⟨hindex, hnamed⟩
  have hmerged : ((merges text layout tables).regions.map (·.1)).getD index default =
      (grown text layout.blocks tables.tables (blockAt layout index)).1 := by
    rw [List.getD, List.getElem?_map, merges_region_eq hids hindex]
    rfl
  rw [resolve_tables_eq] at htable
  obtain ⟨old, -, heq⟩ := Option.map_eq_some_iff.mp htable
  split at heq
  · rw [← heq]
    rfl
  next hnot =>
    subst heq
    refine absurd (Bool.or_eq_true_iff.mpr (.inr (List.any_eq_true.mpr
      ⟨_, hfirst, Bool.and_eq_true_iff.mpr ⟨beq_self_eq_true _, ?_⟩⟩))) hnot
    rw [hmerged]
    unfold structureLosesSourceText sourceBytes at hloses ⊢
    rwa [hlines] at hloses

variable (text layout tables) in
/-- **A second run** changes nothing if and only if no figure that the first run leaves has
exactly one owner among the grown blocks. -/
theorem secondRun_idle_iff (hids : (layout.blocks.map (·.id)).Nodup) :
    SecondRunIdle text layout tables ↔ NoLateOwner text layout tables := by
  rw [← secondRun_no_owner_iff hids, ← replacements_eq_nil_iff (resolve_ids_nodup hids)]
  constructor
  · exact fun h => List.length_eq_zero_iff.mp h.merges
  · intro hnone
    refine ⟨congrArg List.length hnone, ?_, ?_, ?_⟩
    · show (merges text _ _).preservedUniqueLines = 0
      unfold merges
      rw [hnone]
      rfl
    · exact resolve_layout_of_no_owner (resolve_ids_nodup hids)
        ((replacements_eq_nil_iff (resolve_ids_nodup hids)).mp hnone)
    · exact resolve_tables_of_no_owner hnone fun owner howner table htable hloses =>
        resolve_readBySource hids howner htable hloses

end Twice

/-! ## The page with a growing table -/

/-- The page without the figure that the table grows into. -/
def settledLayout : PageLayout ℚ :=
  { growingLayout with blocks := growingLayout.blocks.filter fun block => block.id != "large" }

theorem secondRun_idle_iff_settled : NoLateOwner growingText settledLayout growingTables ∧
    SecondRunIdle growingText settledLayout growingTables := by
  have h : NoLateOwner growingText settledLayout growingTables := by
    unfold NoLateOwner
    decide +kernel
  exact ⟨h, (secondRun_idle_iff growingText settledLayout growingTables (by decide)).mpr h⟩

/-- The second run merges the large figure, which shares four fifths of the lines only with the
grown table. -/
theorem growing_not_idle : (growingLayout.blocks.map (·.id)).Nodup ∧
    (resolvePageStructure growingText growingLayout growingTables).1.mergedFigures = 1 ∧
    (secondRun growingText growingLayout growingTables).1.mergedFigures = 1 ∧
    ¬ SecondRunIdle growingText growingLayout growingTables := by
  have hsecond : (secondRun growingText growingLayout growingTables).1.mergedFigures = 1 := by
    decide +kernel
  refine ⟨by decide, by decide +kernel, hsecond, fun h => ?_⟩
  have hmerges := h.merges
  rw [hsecond] at hmerges
  cases hmerges

end DocParser.Pipeline
