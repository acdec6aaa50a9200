import DocParser.Pipeline.MergedRegions

/-!
# The resolution conserves the page

`page_conservation`: the resolution drops figures only, and with them no line; relations follow
the figures into their tables; and what is merged into what does not depend on the order of the
blocks, since an owner is the only one among all blocks and a grown box is an extreme of boxes.
-/

namespace DocParser.Pipeline

open Document Layout Comparators

/-! ## Extremes of boxes -/

section Boxes

variable {α : Type} [Double α]

/-- The same coordinates, if zeros of both signs are one. -/
structure SameBox (box box' : BBox α) : Prop where
  x0 : Double.Same box.x0 box'.x0
  y0 : Double.Same box.y0 box'.y0
  x1 : Double.Same box.x1 box'.x1
  y1 : Double.Same box.y1 box'.y1

theorem SameBox.refl (box : BBox α) : SameBox box box :=
  ⟨.inl rfl, .inl rfl, .inl rfl, .inl rfl⟩

theorem validBox_finite {box : BBox α} (h : validBox box = true) :
    Double.isFinite box.x0 = true ∧ Double.isFinite box.y0 = true ∧
      Double.isFinite box.x1 = true ∧ Double.isFinite box.y1 = true := by
  unfold validBox validBBox at h
  simp only [Bool.and_eq_true] at h
  obtain ⟨⟨⟨⟨⟨hx0, hy0⟩, hx1⟩, hy1⟩, -⟩, -⟩ := h
  exact ⟨hx0, hy0, hx1, hy1⟩

theorem foldl_expand (boxes : List (BBox α)) : ∀ box : BBox α, boxes.foldl expand box =
    { x0 := (boxes.map (·.x0)).foldl Double.min box.x0
      y0 := (boxes.map (·.y0)).foldl Double.min box.y0
      x1 := (boxes.map (·.x1)).foldl Double.max box.x1
      y1 := (boxes.map (·.y1)).foldl Double.max box.y1 } := by
  induction boxes with
  | nil => exact fun box => rfl
  | cons b boxes ih =>
    intro box
    rw [List.foldl_cons, ih]
    rfl

variable {boxes boxes' : List (BBox α)}

/-- Two selections of a coordinate among the same boxes. -/
theorem foldl_pick_equiv {r : α → α → Prop} [DecidableRel r]
    (hr : StrictWeakOn (fun a : α => Double.isFinite a = true) r) (f : BBox α → α)
    (hboxes : ∀ b ∈ boxes, Double.isFinite (f b) = true) (hsame : ∀ b, b ∈ boxes ↔ b ∈ boxes')
    {a : α} (ha : Double.isFinite a = true) :
    Double.isFinite ((boxes.map f).foldl (pick r) a) = true ∧
      ¬ r ((boxes.map f).foldl (pick r) a) ((boxes'.map f).foldl (pick r) a) := by
  have hfinite : ∀ x ∈ boxes.map f, Double.isFinite x = true := by
    intro x hx
    obtain ⟨b, hb, rfl⟩ := List.mem_map.mp hx
    exact hboxes b hb
  refine ⟨?_, hr.foldl_pick_congr ha hfinite fun x => ?_⟩
  · rcases List.mem_cons.mp (hr.foldl_pick _ a ha hfinite).1 with h | h
    · rw [h]
      exact ha
    · exact hfinite _ h
  · simp only [List.mem_map, hsame]

variable [OrderedDouble α]

/-- **Grown boxes** depend on the set of the boxes that they grow by. -/
theorem foldl_expand_same {box : BBox α} (hbox : validBox box = true)
    (hboxes : ∀ b ∈ boxes, validBox b = true) (hsame : ∀ b, b ∈ boxes ↔ b ∈ boxes') :
    SameBox (boxes.foldl expand box) (boxes'.foldl expand box) := by
  have hless : StrictWeakOn (fun a : α => Double.isFinite a = true) (· < ·) :=
    OrderedDouble.strictWeakOn
  have hboxes' : ∀ b ∈ boxes', validBox b = true := fun b hb => hboxes b ((hsame b).mpr hb)
  have hsame' : ∀ b, b ∈ boxes' ↔ b ∈ boxes := fun b => (hsame b).symm
  have hmin : ∀ f : BBox α → α, (∀ b, validBox b = true → Double.isFinite (f b) = true) →
      Double.Same ((boxes.map f).foldl Double.min (f box))
        ((boxes'.map f).foldl Double.min (f box)) := by
    intro f hf
    obtain ⟨hfin, hnot⟩ := foldl_pick_equiv hless f (fun b hb => hf b (hboxes b hb)) hsame
      (hf box hbox)
    obtain ⟨hfin', hnot'⟩ := foldl_pick_equiv hless f (fun b hb => hf b (hboxes' b hb)) hsame'
      (hf box hbox)
    exact .inr ⟨hfin, hfin', hnot, hnot'⟩
  have hmax : ∀ f : BBox α → α, (∀ b, validBox b = true → Double.isFinite (f b) = true) →
      Double.Same ((boxes.map f).foldl Double.max (f box))
        ((boxes'.map f).foldl Double.max (f box)) := by
    intro f hf
    obtain ⟨hfin, hnot⟩ := foldl_pick_equiv hless.flip f (fun b hb => hf b (hboxes b hb)) hsame
      (hf box hbox)
    obtain ⟨hfin', hnot'⟩ := foldl_pick_equiv hless.flip f (fun b hb => hf b (hboxes' b hb))
      hsame' (hf box hbox)
    exact .inr ⟨hfin, hfin', hnot', hnot⟩
  rw [foldl_expand, foldl_expand]
  exact ⟨hmin (·.x0) fun b h => (validBox_finite h).1,
    hmin (·.y0) fun b h => (validBox_finite h).2.1,
    hmax (·.x1) fun b h => (validBox_finite h).2.2.1,
    hmax (·.y1) fun b h => (validBox_finite h).2.2.2⟩

end Boxes

/-! ## Grown regions -/

section Growth

variable {α : Type} [Double α] {text : PageText α} {blocks blocks' : List (LayoutBlock α)}
  {tables : List (Table α)}

/-- The set of some lines depends on its members only. -/
theorem lineSet_congr {lines lines' : List Int} (h : ∀ line, line ∈ lines ↔ line ∈ lines') :
    lineSet lines = lineSet lines' := by
  have hperm : (lineSet lines).Perm (lineSet lines') :=
    (List.perm_ext_iff_of_nodup (lineSet_nodup _) (lineSet_nodup _)).mpr fun line => by
      rw [mem_lineSet, mem_lineSet, h]
  exact hperm.eq_of_pairwise' (List.pairwise_insertionSort (· ≤ ·) _)
    (List.pairwise_insertionSort (· ≤ ·) _)

theorem sourceLines_valid {block : LayoutBlock α} {line : Int}
    (h : line ∈ sourceLines block text) : validBox (lineBBox text line) = true := by
  unfold sourceLines at h
  split at h
  next hall =>
    have hline := List.all_eq_true.mp hall line (mem_lineSet.mp h)
    exact (Bool.and_eq_true_iff.mp hline).2
  · cases h

variable (text) in
/-- Merged figures leave the set of all lines, and a box that has grown by some lists of them. -/
theorem foldl_mergeFigure_region (figures : List (Region α)) : ∀ region : Region α,
    figures ≠ [] →
    (figures.foldl (fun region figure => mergeFigure text figure region) region).2 =
      lineSet (region.2 ++ figures.flatMap (·.2)) ∧
    ∃ lines : List Int,
      (∀ line, line ∈ lines ↔ line ∈ region.2 ++ figures.flatMap (·.2)) ∧
      (figures.foldl (fun region figure => mergeFigure text figure region) region).1.bbox =
        (lines.map (lineBBox text)).foldl expand region.1.bbox := by
  induction figures with
  | nil => exact fun _ hne => absurd rfl hne
  | cons figure figures ih =>
    intro region _
    have hbox : (mergeFigure text figure region).1.bbox =
        ((lineSet (region.2 ++ figure.2)).map (lineBBox text)).foldl expand region.1.bbox :=
      List.foldl_map.symm
    cases figures with
    | nil =>
      refine ⟨by simp [mergeFigure], lineSet (region.2 ++ figure.2), fun line => ?_, hbox⟩
      simp [mem_lineSet]
    | cons next rest =>
      obtain ⟨hlines, lines, hmem, hrest⟩ := ih (mergeFigure text figure region) (by simp)
      have hunion : ∀ line, line ∈ (mergeFigure text figure region).2 ++
          (next :: rest).flatMap (·.2) ↔
          line ∈ region.2 ++ (figure :: next :: rest).flatMap (·.2) := by
        intro line
        simp [mergeFigure, mem_lineSet, or_assoc]
      refine ⟨hlines.trans (lineSet_congr hunion),
        lineSet (region.2 ++ figure.2) ++ lines, fun line => ?_, ?_⟩
      · rw [List.mem_append, hmem, hunion, mem_lineSet]
        simp only [List.flatMap_cons, List.mem_append]
        tauto
      · rw [List.foldl_cons, hrest, hbox, List.map_append, List.foldl_append]

theorem mem_figuresOf (hids : (blocks.map (·.id)).Nodup) {block figure : LayoutBlock α}
    (hblock : block ∈ blocks) : figure ∈ figuresOf text blocks tables block ↔
      figure ∈ blocks ∧ ownerOf text blocks tables figure = some block := by
  unfold figuresOf
  rw [List.mem_filter, Option.any_eq_true]
  refine and_congr_right fun _ => ⟨?_, fun howner => ⟨block, howner, beq_self_eq_true _⟩⟩
  rintro ⟨owner, howner, hid⟩
  rw [howner, eq_of_id_eq hids (ownerOf_mem howner).1 hblock (beq_iff_eq.mp hid)]

/-- A block that figures are merged into has a valid box. -/
theorem validBox_of_figuresOf (hids : (blocks.map (·.id)).Nodup) {block figure : LayoutBlock α}
    (hblock : block ∈ blocks) (hfigure : figure ∈ figuresOf text blocks tables block) :
    validBox block.bbox = true := by
  have howns := (ownerOf_mem ((mem_figuresOf hids hblock).mp hfigure).2).2
  unfold owns sameVisualRegion at howns
  simp only [Bool.and_eq_true] at howns
  exact howns.2.1.1.1

theorem grown_id (block : LayoutBlock α) :
    (grown text blocks tables block).1.id = block.id ∧
      (grown text blocks tables block).1.type = block.type ∧
      (grown text blocks tables block).1.relatedBlockId = block.relatedBlockId := by
  obtain ⟨hmerged, -⟩ := foldl_mergeFigure text
    ((figuresOf text blocks tables block).map fun figure => (figure, sourceLines figure text))
    (block, sourceLines block text)
  exact ⟨hmerged.id, hmerged.type, hmerged.relatedBlockId⟩

/-! ## Another order of the blocks -/

variable (hperm : blocks'.Perm blocks)
include hperm

theorem ownerOf_perm (figure : LayoutBlock α) :
    ownerOf text blocks' tables figure = ownerOf text blocks tables figure := by
  have howners := hperm.filter (owns text tables figure)
  unfold ownerOf
  split
  · generalize blocks'.filter (owns text tables figure) = owners' at howners
    generalize blocks.filter (owns text tables figure) = owners at howners
    have hlength := howners.length_eq
    rcases owners with _ | ⟨owner, _ | ⟨other, rest⟩⟩
    · rw [howners.eq_nil]
    · rw [List.perm_singleton.mp howners]
    · rcases owners' with _ | ⟨_, _ | _⟩
      · simp at hlength
      · simp at hlength
      · rfl
  · rfl

theorem figuresOf_perm (block : LayoutBlock α) :
    (figuresOf text blocks' tables block).Perm (figuresOf text blocks tables block) := by
  unfold figuresOf
  simp only [ownerOf_perm hperm]
  exact hperm.filter _

/-- **Independence of the order.** A block grows by the same lines to the same box. -/
theorem grown_perm [OrderedDouble α] (hids : (blocks.map (·.id)).Nodup) {block : LayoutBlock α}
    (hblock : block ∈ blocks) :
    (grown text blocks' tables block).1.textLineIndices =
        (grown text blocks tables block).1.textLineIndices ∧
      SameBox (grown text blocks' tables block).1.bbox (grown text blocks tables block).1.bbox := by
  have hfigures := @figuresOf_perm α _ text blocks blocks' tables hperm block
  unfold grown
  by_cases hnone : figuresOf text blocks tables block = []
  · rw [hnone] at hfigures ⊢
    rw [hfigures.eq_nil]
    exact ⟨rfl, SameBox.refl _⟩
  have hregions := hfigures.map fun figure => (figure, sourceLines figure text)
  have hne : (figuresOf text blocks tables block).map
      (fun figure => (figure, sourceLines figure text)) ≠ [] := by simpa using hnone
  have hlines : ∀ line, line ∈ sourceLines block text ++
      ((figuresOf text blocks' tables block).map fun figure =>
        (figure, sourceLines figure text)).flatMap (·.2) ↔
      line ∈ sourceLines block text ++ ((figuresOf text blocks tables block).map fun figure =>
        (figure, sourceLines figure text)).flatMap (·.2) := fun line =>
    ((List.Perm.refl _).append (hregions.flatMap_right _)).mem_iff
  have hvalid : ∀ line ∈ sourceLines block text ++ ((figuresOf text blocks tables block).map
      fun figure => (figure, sourceLines figure text)).flatMap (·.2),
      validBox (lineBBox text line) = true := by
    intro line hline
    rcases List.mem_append.mp hline with hown | hfigure
    · exact sourceLines_valid hown
    · obtain ⟨region, hregion, hmem⟩ := List.mem_flatMap.mp hfigure
      obtain ⟨figure, -, rfl⟩ := List.mem_map.mp hregion
      exact sourceLines_valid hmem
  obtain ⟨figure, hfigure⟩ := List.exists_mem_of_ne_nil _ hnone
  have hbox := validBox_of_figuresOf hids hblock hfigure
  generalize (figuresOf text blocks' tables block).map
    (fun figure => (figure, sourceLines figure text)) = regions' at hregions hlines
  generalize (figuresOf text blocks tables block).map
    (fun figure => (figure, sourceLines figure text)) = regions at hregions hlines hne hvalid
  have hne' : regions' ≠ [] := fun h => hne (h ▸ hregions).symm.eq_nil
  obtain ⟨hset, boxLines, hmem, hbbox⟩ :=
    foldl_mergeFigure_region text regions (block, sourceLines block text) hne
  obtain ⟨hset', boxLines', hmem', hbbox'⟩ :=
    foldl_mergeFigure_region text regions' (block, sourceLines block text) hne'
  obtain ⟨-, -, hlist⟩ := foldl_mergeFigure text regions (block, sourceLines block text)
  obtain ⟨-, -, hlist'⟩ := foldl_mergeFigure text regions' (block, sourceLines block text)
  refine ⟨?_, ?_⟩
  · rw [(hlist hne).1, (hlist' hne').1, hset, hset']
    exact lineSet_congr hlines
  · rw [hbbox, hbbox']
    refine foldl_expand_same hbox (fun b hb => ?_) fun b => ?_
    · obtain ⟨line, hline, rfl⟩ := List.mem_map.mp hb
      exact hvalid line ((hlines line).mp ((hmem' line).mp hline))
    · simp only [List.mem_map, hmem, hmem', hlines]

end Growth

/-! ## Conservation -/

section Conservation

variable {α : Type} [Double α] {text : PageText α} {layout : PageLayout α} {tables : PageTables α}

/-- Each merged figure with its block and its table. -/
def mergedInto (text : PageText α) (layout : PageLayout α) (tables : PageTables α) :
    List (String × String × Nat) :=
  (replacements text layout tables).map fun r =>
    ((blockAt layout r.figure).id, (blockAt layout r.block).id, r.table)

theorem mergedInto_eq (hids : (layout.blocks.map (·.id)).Nodup) :
    mergedInto text layout tables = layout.blocks.filterMap fun figure =>
      (ownerOf text layout.blocks tables.tables figure).bind fun owner =>
        (tableOf tables.tables owner).map fun table => (figure.id, owner.id, table) := by
  conv_rhs => rw [blocks_eq_map, List.filterMap_map, ← blocks_eq_map]
  unfold mergedInto replacements
  rw [List.map_filterMap]
  refine List.filterMap_congr fun index _ => ?_
  rw [Function.comp_apply, ownerOf_eq hids]
  cases howner : figureOwner text layout tables index with
  | none => rfl
  | some owner =>
    have htable := ((mem_tableBlocks_iff hids).mp (figureOwner_spec howner).2.1).2
    simp only [Option.map_some, Option.bind_some, htable]

theorem mem_resolve_blocks (hids : (layout.blocks.map (·.id)).Nodup) {block : LayoutBlock α} :
    block ∈ (resolvePageStructure text layout tables).2.1.blocks ↔
      ∃ old ∈ layout.blocks, ownerOf text layout.blocks tables.tables old = none ∧
        remapRelated (remappings text layout.blocks tables.tables)
          (grown text layout.blocks tables.tables old).1 = block := by
  rw [resolve_blocks_eq hids]
  simp only [List.mem_map, List.mem_filter, Option.isNone_iff_eq_none, and_assoc]

omit [Double α] in
theorem remapRelated_id (remappedIds : List (String × String)) (block : LayoutBlock α) :
    (remapRelated remappedIds block).id = block.id ∧
      (remapRelated remappedIds block).type = block.type ∧
      (remapRelated remappedIds block).textLineIndices = block.textLineIndices ∧
      (remapRelated remappedIds block).bbox = block.bbox := by
  obtain ⟨id, h⟩ := remapRelated_eq remappedIds block
  rw [h]
  exact ⟨rfl, rfl, rfl, rfl⟩

/-- A block that is no figure is kept with its id and type. -/
theorem resolve_keeps (hids : (layout.blocks.map (·.id)).Nodup) {block : LayoutBlock α}
    (hblock : block ∈ layout.blocks)
    (hkept : ownerOf text layout.blocks tables.tables block = none) :
    ∃ kept ∈ (resolvePageStructure text layout tables).2.1.blocks,
      kept.id = block.id ∧ kept.type = block.type := by
  refine ⟨_, (mem_resolve_blocks hids).mpr ⟨block, hblock, hkept, rfl⟩, ?_, ?_⟩
  · rw [(remapRelated_id _ _).1, (grown_id block).1]
  · rw [(remapRelated_id _ _).2.1, (grown_id block).2.1]

theorem ownerOf_not_figure {blocks : List (LayoutBlock α)} {tables : List (Table α)}
    {block : LayoutBlock α} (h : block.type ≠ .figure) :
    ownerOf text blocks tables block = none := by
  unfold ownerOf
  rw [if_neg (by simpa using h)]

/-- The ids and types of the kept blocks, in their order. -/
theorem resolve_ids (hids : (layout.blocks.map (·.id)).Nodup) :
    ((resolvePageStructure text layout tables).2.1.blocks.map fun block =>
        (block.id, block.type)) =
      (layout.blocks.filter fun block =>
        (ownerOf text layout.blocks tables.tables block).isNone).map fun block =>
          (block.id, block.type) := by
  rw [resolve_blocks_eq hids, List.map_map]
  refine List.map_congr_left fun block _ => ?_
  rw [Function.comp_apply, (remapRelated_id _ _).1, (remapRelated_id _ _).2.1, (grown_id block).1,
    (grown_id block).2.1]

/-- A relation names no dropped figure and not its own block. -/
theorem resolve_related (hids : (layout.blocks.map (·.id)).Nodup)
    (hnamed : ∀ block ∈ layout.blocks, block.id ≠ "")
    (hself : ∀ block ∈ layout.blocks, block.relatedBlockId ≠ block.id) {block : LayoutBlock α}
    (hblock : block ∈ (resolvePageStructure text layout tables).2.1.blocks) :
    block.relatedBlockId ≠ block.id ∧ ∀ old ∈ layout.blocks, old.id = block.relatedBlockId →
      ownerOf text layout.blocks tables.tables old = none := by
  obtain ⟨own, hown, -, rfl⟩ := (mem_resolve_blocks hids).mp hblock
  obtain ⟨hid, -, hrelated⟩ := @grown_id α _ text layout.blocks tables.tables own
  rw [(remapRelated_id _ _).1, hid]
  unfold remapRelated
  cases hlookup : (remappings text layout.blocks tables.tables).lookup
      (grown text layout.blocks tables.tables own).1.relatedBlockId with
  | none =>
    dsimp only
    rw [hrelated] at hlookup ⊢
    refine ⟨hself own hown, fun old hold hnames => ?_⟩
    cases howner : ownerOf text layout.blocks tables.tables old with
    | none => rfl
    | some owner =>
      have hmem : (old.id, owner.id) ∈ remappings text layout.blocks tables.tables :=
        List.mem_filterMap.mpr ⟨old, hold, by rw [howner]; rfl⟩
      have hne := List.lookup_eq_none_iff.mp hlookup _ hmem
      simp [hnames] at hne
  | some id =>
    dsimp only
    obtain ⟨before, after, hsplit, -⟩ := List.lookup_eq_some_iff.mp hlookup
    have hmem : (_, id) ∈ remappings text layout.blocks tables.tables :=
      hsplit ▸ List.mem_append_right before (List.mem_cons_self ..)
    obtain ⟨figure, -, hfigure⟩ := List.mem_filterMap.mp hmem
    obtain ⟨owner, howner, heq⟩ := Option.map_eq_some_iff.mp hfigure
    obtain ⟨-, rfl⟩ := Prod.mk.inj heq
    obtain ⟨hin, howns⟩ := ownerOf_mem howner
    rw [hid]
    by_cases hsame : owner.id = own.id
    · -- the block would be related to itself, so it is related to none
      rw [if_pos (beq_iff_eq.mpr hsame)]
      exact ⟨(hnamed own hown).symm, fun old hold hnames => absurd hnames (hnamed old hold)⟩
    · rw [if_neg (by simpa using hsame)]
      refine ⟨hsame, fun old hold hnames => ?_⟩
      rw [eq_of_id_eq hids hold hin hnames]
      exact ownerOf_not_figure (by rw [owns_type howns]; decide)

/-- A table keeps all but its text mode. -/
def SameGrid (table' table : Table α) : Prop := table' = { table with textMode := table'.textMode }

theorem resolve_sameGrid : List.Forall₂ SameGrid
    (resolvePageStructure text layout tables).2.2.tables tables.tables := by
  have hget : ∀ k : Nat, ((resolvePageStructure text layout tables).2.2.tables)[k]? =
      tables.tables[k]? ∨ (resolvePageStructure text layout tables).2.2.tables[k]? =
        tables.tables[k]?.map readBySource := by
    intro k
    rw [resolve_tables_eq]
    cases tables.tables[k]? with
    | none => exact .inl rfl
    | some table =>
      simp only [Option.map_some]
      split
      · exact .inr rfl
      · exact .inl rfl
  have hlength : (resolvePageStructure text layout tables).2.2.tables.length =
      tables.tables.length := by
    refine Nat.le_antisymm ?_ ?_ <;> refine Nat.le_of_not_lt fun hlt => ?_
    · rcases hget tables.tables.length with h | h <;> simp [List.getElem?_eq_getElem hlt] at h
    · rcases hget (resolvePageStructure text layout tables).2.2.tables.length with h | h <;>
        simp [List.getElem?_eq_getElem hlt] at h
  refine List.forall₂_iff_get.mpr ⟨hlength, fun k hk hk' => ?_⟩
  rcases hget k with h | h <;>
    rw [List.getElem?_eq_getElem hk, List.getElem?_eq_getElem hk'] at h <;>
    · simp only [List.get_eq_getElem]
      obtain heq := Option.some.inj h
      rw [heq]
      rfl

variable (text layout tables) in
/-- The tables keep the names of their blocks. -/
theorem resolve_tableNames :
    (resolvePageStructure text layout tables).2.2.tables.map (·.layoutBlockId) =
      tables.tables.map (·.layoutBlockId) := by
  have hgrid := @resolve_sameGrid α _ text layout tables
  generalize (resolvePageStructure text layout tables).2.2.tables = ts' at hgrid ⊢
  generalize tables.tables = ts at hgrid ⊢
  induction hgrid with
  | nil => rfl
  | cons hsame _ ih => rw [List.map_cons, List.map_cons, ih, hsame]

variable (text layout tables) in
/-- **Conservation of the page.** For any lines and boxes, with distinct and non-empty ids and no
block related to itself: the resolution keeps the set of owned lines, drops figures only, leaves
no relation to a dropped block, changes no grid, and merges the same figures into the same tables
with the same lines and boxes in whatever order the blocks are given. -/
theorem page_conservation [OrderedDouble α] (hids : (layout.blocks.map (·.id)).Nodup)
    (hnamed : ∀ block ∈ layout.blocks, block.id ≠ "")
    (hself : ∀ block ∈ layout.blocks, block.relatedBlockId ≠ block.id) :
    (∀ line, line ∈ blockLines (resolvePageStructure text layout tables).2.1.blocks ↔
      line ∈ blockLines layout.blocks) ∧
    ((resolvePageStructure text layout tables).2.1.blocks.map fun block =>
      (block.id, block.type)).Sublist (layout.blocks.map fun block => (block.id, block.type)) ∧
    (∀ block ∈ layout.blocks, block.type ≠ .figure →
      ∃ kept ∈ (resolvePageStructure text layout tables).2.1.blocks,
        kept.id = block.id ∧ kept.type = block.type) ∧
    (∀ block ∈ (resolvePageStructure text layout tables).2.1.blocks,
      block.relatedBlockId ≠ block.id ∧
      ∀ old ∈ layout.blocks, old.id = block.relatedBlockId →
        ∃ kept ∈ (resolvePageStructure text layout tables).2.1.blocks, kept.id = old.id) ∧
    List.Forall₂ SameGrid (resolvePageStructure text layout tables).2.2.tables tables.tables ∧
    ∀ blocks' : List (LayoutBlock α), blocks'.Perm layout.blocks →
      (mergedInto text { layout with blocks := blocks' } tables).Perm
        (mergedInto text layout tables) ∧
      ((resolvePageStructure text { layout with blocks := blocks' } tables).2.1.blocks.map
        (·.id)).Perm ((resolvePageStructure text layout tables).2.1.blocks.map (·.id)) ∧
      ∀ block ∈ (resolvePageStructure text layout tables).2.1.blocks,
        ∃ block' ∈ (resolvePageStructure text { layout with blocks := blocks' } tables).2.1.blocks,
          block'.id = block.id ∧ block'.textLineIndices = block.textLineIndices ∧
            SameBox block'.bbox block.bbox := by
  refine ⟨mem_blockLines_resolve text layout tables, ?_, fun block hblock htype => ?_,
    fun block hblock => ?_, resolve_sameGrid, fun blocks' hperm => ?_⟩
  · rw [resolve_ids hids]
    exact List.filter_sublist.map _
  · exact resolve_keeps hids hblock (ownerOf_not_figure htype)
  · obtain ⟨hown, hnames⟩ := resolve_related hids hnamed hself hblock
    refine ⟨hown, fun old hold heq => ?_⟩
    obtain ⟨kept, hkept, hid, -⟩ := resolve_keeps hids hold (hnames old hold heq)
    exact ⟨kept, hkept, hid⟩
  · have hids' : (blocks'.map (·.id)).Nodup := (hperm.map _).nodup_iff.mpr hids
    refine ⟨?_, ?_, fun block hblock => ?_⟩
    · rw [mergedInto_eq hids, mergedInto_eq hids']
      simp only [ownerOf_perm hperm]
      exact hperm.filterMap _
    · have hkept := congrArg (List.map Prod.fst) (@resolve_ids α _ text layout tables hids)
      have hkept' := congrArg (List.map Prod.fst)
        (@resolve_ids α _ text { layout with blocks := blocks' } tables hids')
      simp only [List.map_map, ownerOf_perm hperm] at hkept hkept'
      refine (List.Perm.of_eq hkept').trans (.trans ?_ (List.Perm.of_eq hkept.symm))
      exact (hperm.filter _).map _
    · obtain ⟨old, hold, hnone, rfl⟩ := (mem_resolve_blocks hids).mp hblock
      have hgrown := @grown_perm α _ text _ _ tables.tables hperm _ hids old hold
      have hblock' := (@mem_resolve_blocks α _ text { layout with blocks := blocks' } tables hids'
        _).mpr ⟨old, hperm.mem_iff.mpr hold, (ownerOf_perm hperm old).trans hnone, rfl⟩
      refine ⟨_, hblock', ?_, ?_, ?_⟩
      · rw [(remapRelated_id _ _).1, (remapRelated_id _ _).1, (grown_id old).1, (grown_id old).1]
      · rw [(remapRelated_id _ _).2.2.1, (remapRelated_id _ _).2.2.1]
        exact hgrown.1
      · rw [(remapRelated_id _ _).2.2.2, (remapRelated_id _ _).2.2.2]
        exact hgrown.2

end Conservation

/-! ## A page with a growing table -/

section GrowingPage

def growingText : PageText ℚ :=
  ⟨0, 1, true, .pdfTextLayer, (List.range 12).map fun i =>
    ⟨"row", ⟨100, 200 + 40 * i, 400, 220 + 40 * i⟩, .pdfTextLayer, 1, []⟩⟩

def growingBlock (id : String) (type : LayoutBlockType) (related : String) (rows : Nat) :
    LayoutBlock ℚ :=
  ⟨id, type, "", related, ⟨90, 190, 410, 190 + 40 * rows⟩, 1, -1, (List.range rows).map Int.ofNat⟩

/-- A table of eight lines below two figures with ten and twelve, and a caption. -/
def growingLayout : PageLayout ℚ :=
  ⟨0, 1, [growingBlock "caption" .text "small" 0, growingBlock "large" .figure "" 12,
    growingBlock "small" .figure "" 10, growingBlock "table_block" .table "" 8]⟩

def growingTables : PageTables ℚ :=
  ⟨0, 1, [⟨"table", "table_block", 0, 1, ⟨90, 190, 410, 510⟩, 1, "", "", false, false, [],
    [⟨0, ⟨90, 190, 410, 510⟩, 1, false,
      [⟨0, 0, 1, 1, false, "cell text", ⟨90, 190, 410, 510⟩, 1, []⟩]⟩], [], .cells⟩]⟩

theorem page_conservation_growing :
    mergedInto growingText growingLayout growingTables = [("small", "table_block", 0)] ∧
    ∀ blocks' : List (LayoutBlock ℚ), blocks'.Perm growingLayout.blocks →
      (mergedInto growingText { growingLayout with blocks := blocks' } growingTables).Perm
        [("small", "table_block", 0)] := by
  have hmerged : mergedInto growingText growingLayout growingTables =
      [("small", "table_block", 0)] := by decide +kernel
  obtain ⟨-, -, -, -, -, horder⟩ := page_conservation growingText growingLayout growingTables
    (by decide) (by decide) (by decide)
  exact ⟨hmerged, fun blocks' hperm => hmerged ▸ (horder blocks' hperm).1⟩

end GrowingPage

end DocParser.Pipeline
