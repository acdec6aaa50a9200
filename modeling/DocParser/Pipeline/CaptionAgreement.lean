import DocParser.Assembly.AssemblerContract
import DocParser.Layout.Captions
import DocParser.Pipeline.PageStructure
import DocParser.ReadingOrder.CaptionPlacements

/-!
# Captions of a document

The reading order places a caption behind its figure or table, and the assembler relates the two.
`captions_agree_iff`: the document shows every placed caption as one exactly when none of them has
the label `figure_title`, which the layout and the reading order know and the assembler does not.

1. The order of a page is that of its items (`orderedLayoutBlockIndices_of_order`), so what is kept
   of a run of captions is still a run behind the target.
2. A kept block that names another one is related to it (`assemblePage_block`).
3. The type of a relation depends on the label of its first block (`relation_type`).
-/

namespace DocParser.Pipeline

open Document Assembly Layout ReadingOrder

section Definitions

variable {α : Type} [Double α]

/-- The layout blocks of a page that become document blocks, in order. -/
def keptLayoutBlocks (repeated : List String) (page : PipelinePageArtifacts α) :
    List (LayoutBlock α) :=
  (includedIndices repeated page).map (layoutBlockAt page)

/-- Two kept blocks of a page, at the places `n` and `m`, and the document blocks that they
become. The blocks of the page stand behind `offset` others. -/
structure ShownBehind (document : ParsedDocument α) (page : PipelinePageArtifacts α) (offset : Nat)
    (kept : List (LayoutBlock α)) (n m : Nat) (target caption : LayoutBlock α)
    (targetBlock captionBlock : DocumentBlock α) : Prop where
  shownTarget : kept[n]? = some target ∧ document.blocks[offset + n]? = some targetBlock ∧
    BlockOf (page, target) targetBlock
  shownCaption : kept[m]? = some caption ∧ document.blocks[offset + m]? = some captionBlock ∧
    BlockOf (page, caption) captionBlock
  behind : n < m
  run : ∀ i, n < i → i < m → ∃ other, kept[i]? = some other ∧
    IsCaptionOf page.layout other target
  relation : ∃ relation ∈ document.relations, relation.type = "caption_of" ∧
    relation.fromBlockId = captionBlock.id ∧ relation.toBlockId = targetBlock.id

/-- The placed block follows its parent and is related to it as a caption. -/
def ShownAsCaption (document : ParsedDocument α) (page : PipelinePageArtifacts α) (offset : Nat)
    (kept : List (LayoutBlock α)) (placement : ReadingOrderPlacement) : Prop :=
  ∃ n m target caption targetBlock captionBlock,
    target.id = placement.parentLayoutBlockId ∧ caption.id = placement.layoutBlockId ∧
      ShownBehind document page offset kept n m target caption targetBlock captionBlock

end Definitions

/-! ## The order of the items -/

section Items

variable {α : Type} [Double α] {page : PipelinePageArtifacts α}

omit [Double α] in
theorem mem_blockPairs {layout : PageLayout α} {index : Int} {id : String}
    (h : (index, id) ∈ layout.blocks.zipIdx.map fun p => ((p.2 : Int), p.1.id)) :
    0 ≤ index ∧ ∃ block, layout.blocks[index.toNat]? = some block ∧ block.id = id := by
  obtain ⟨⟨block, k⟩, hp, heq⟩ := List.mem_map.mp h
  obtain ⟨rfl, rfl⟩ := Prod.mk.inj heq
  exact ⟨Int.natCast_nonneg k, block, List.mem_zipIdx_iff_getElem?.mp hp, rfl⟩

/-- Every item names a block of the layout. -/
theorem item_block (h : IsReadingOrder page.layout page.readingOrder) {item : ReadingOrderItem}
    (hitem : item ∈ page.readingOrder.items) : 0 ≤ item.layoutBlockIndex ∧
      page.layout.blocks[item.layoutBlockIndex.toNat]? = some (itemBlock page.layout item) ∧
        (itemBlock page.layout item).id = item.layoutBlockId := by
  obtain ⟨hnonneg, block, hget, hid⟩ := mem_blockPairs
    (h.once.mem_iff.mp (List.mem_map_of_mem hitem))
  have hblock : itemBlock page.layout item = block := by
    unfold itemBlock
    rw [List.getD_eq_getElem?_getD, hget]
    rfl
  rw [hblock]
  exact ⟨hnonneg, hget, hid⟩

/-- **The order of a page** is that of its items. -/
theorem orderedLayoutBlockIndices_of_order (h : IsReadingOrder page.layout page.readingOrder) :
    orderedLayoutBlockIndices page =
      page.readingOrder.items.map fun item => item.layoutBlockIndex.toNat := by
  have hvalid : page.readingOrder.items.filterMap (itemIndex page.layout) =
      page.readingOrder.items.map fun item => item.layoutBlockIndex.toNat := by
    rw [← List.filterMap_eq_map]
    refine List.filterMap_congr fun item hitem => ?_
    obtain ⟨hnonneg, hget, hid⟩ := item_block h hitem
    unfold itemIndex
    rw [if_neg (not_lt.mpr hnonneg), hget]
    dsimp only
    rw [hid, beq_self_eq_true, Bool.or_true, if_pos rfl]
    rfl
  have hperm : (page.readingOrder.items.map fun item => item.layoutBlockIndex.toNat).Perm
      (List.range page.layout.blocks.length) := by
    have hmapped := h.once.map fun p : Int × String => p.1.toNat
    rw [List.map_map, List.map_map] at hmapped
    refine hmapped.trans (List.Perm.of_eq ?_)
    rw [List.range_eq_range', ← List.zipIdx_map_snd 0 page.layout.blocks]
    exact List.map_congr_left fun p _ => Int.toNat_natCast p.2
  have hreading : readingIndices page =
      page.readingOrder.items.map fun item => item.layoutBlockIndex.toNat := by
    unfold readingIndices
    rw [hvalid]
    exact eraseDups_of_nodup (hperm.nodup_iff.mpr List.nodup_range)
  have hleftover : leftoverIndices page = [] := by
    unfold leftoverIndices
    rw [List.filter_eq_nil_iff, hreading]
    intro index hindex
    simpa using hperm.mem_iff.mpr hindex
  rw [orderedLayoutBlockIndices_eq, hleftover, List.append_nil, hreading]

/-- The test of the assembler for a block that is kept. -/
def isKept (repeated : List String) (page : PipelinePageArtifacts α) (block : LayoutBlock α) :
    Bool :=
  (furnitureSignature page block).isEmpty || !repeated.contains (furnitureSignature page block)

/-- What is kept of the page, by its items. -/
theorem keptLayoutBlocks_of_order (h : IsReadingOrder page.layout page.readingOrder)
    (repeated : List String) : keptLayoutBlocks repeated page =
      (page.readingOrder.items.map (itemBlock page.layout)).filter (isKept repeated page) := by
  unfold keptLayoutBlocks includedIndices
  rw [orderedLayoutBlockIndices_of_order h, List.filter_map, List.filter_map, List.map_map]
  rfl

theorem mem_of_kept (h : IsReadingOrder page.layout page.readingOrder) {repeated : List String}
    {block : LayoutBlock α} (hblock : block ∈ keptLayoutBlocks repeated page) :
    block ∈ page.layout.blocks := by
  rw [keptLayoutBlocks_of_order h] at hblock
  obtain ⟨item, hitem, rfl⟩ := List.mem_map.mp (List.mem_filter.mp hblock).1
  exact List.mem_of_getElem? (item_block h hitem).2.1

omit [Double α] in
/-- Only headers and footers are left out. -/
theorem isKept_of_type {repeated : List String} {block : LayoutBlock α}
    (h : block.type ≠ .header ∧ block.type ≠ .footer) : isKept repeated page block = true := by
  unfold isKept furnitureSignature
  dsimp only
  split
  next htype => exact absurd htype h.1
  next htype => exact absurd htype h.2
  · rfl

/-- **Runs.** A caption is kept in a run of captions behind its target. -/
theorem kept_run (hids : (page.layout.blocks.map (·.id)).Nodup)
    (h : IsReadingOrder page.layout page.readingOrder) (repeated : List String)
    {caption target : LayoutBlock α} (hcaption : IsCaptionOf page.layout caption target) :
    ∃ front run rest, keptLayoutBlocks repeated page = front ++ target :: run ++ rest ∧
      caption ∈ run ∧ ∀ other ∈ run, IsCaptionOf page.layout other target := by
  obtain ⟨front, item, run, rest, hitems, hitem, ⟨c, hc, hcid⟩, hrun⟩ := h.captions caption
    hcaption.captionMem target hcaption.targetMem hcaption.captionLabel hcaption.targetType
    hcaption.link
  have hblock : ∀ i ∈ page.readingOrder.items, ∀ block ∈ page.layout.blocks,
      i.layoutBlockId = block.id → itemBlock page.layout i = block := by
    intro i hi block hmem heq
    obtain ⟨-, hget, hid⟩ := item_block h hi
    exact List.inj_on_of_nodup_map hids (List.mem_of_getElem? hget) hmem (hid.trans heq)
  have hmemItem : item ∈ page.readingOrder.items := by
    rw [hitems]
    simp
  have hmemRun : ∀ i ∈ run, i ∈ page.readingOrder.items := by
    intro i hi
    rw [hitems]
    simp [hi]
  have htarget := hblock item hmemItem target hcaption.targetMem hitem
  have hcaptions : ∀ other ∈ run.map (itemBlock page.layout),
      IsCaptionOf page.layout other target := by
    intro other hother
    obtain ⟨i, hi, rfl⟩ := List.mem_map.mp hother
    obtain ⟨hlabel, hlink⟩ := hrun i hi
    exact ⟨List.mem_of_getElem? (item_block h (hmemRun i hi)).2.1, hcaption.targetMem, hlabel,
      hcaption.targetType, hlink⟩
  have hkeepTarget : isKept repeated page target = true :=
    isKept_of_type (isCaptionTarget_type hcaption.targetType)
  have hkeepRun : (run.map (itemBlock page.layout)).filter (isKept repeated page) =
      run.map (itemBlock page.layout) :=
    List.filter_eq_self.mpr fun other hother =>
      isKept_of_type (isCaption_type (hcaptions other hother).captionLabel)
  refine ⟨(front.map (itemBlock page.layout)).filter (isKept repeated page),
    run.map (itemBlock page.layout),
    (rest.map (itemBlock page.layout)).filter (isKept repeated page), ?_, ?_, hcaptions⟩
  · rw [keptLayoutBlocks_of_order h, hitems, List.map_append, List.map_append, List.map_cons,
      htarget, List.filter_append, List.filter_append, List.filter_cons_of_pos hkeepTarget,
      hkeepRun]
  · rw [← hblock c (hmemRun c hc) caption hcaption.captionMem hcid]
    exact List.mem_map_of_mem hc

end Items

/-! ## The document blocks of a page -/

section Blocks

variable {α : Type} [Double α] {page : PipelinePageArtifacts α} {repeated : List String}

theorem assembleBlocks_append (repeated : List String)
    (earlier later : List (PipelinePageArtifacts α)) : ∀ count,
    assembleBlocks repeated count (earlier ++ later) = assembleBlocks repeated count earlier ++
      assembleBlocks repeated (count + (assembleBlocks repeated count earlier).length) later := by
  induction earlier with
  | nil => exact fun _ => rfl
  | cons page earlier ih =>
    intro count
    show assemblePage repeated count page ++ assembleBlocks repeated _ (earlier ++ later) = _
    rw [ih, ← List.append_assoc]
    show _ = assemblePage repeated count page ++ assembleBlocks repeated _ earlier ++
      assembleBlocks repeated (count + (assemblePage repeated count page ++
        assembleBlocks repeated _ earlier).length) later
    rw [List.length_append, Nat.add_assoc]

/-- **Blocks.** What a kept block becomes, and what it is related to. -/
theorem assemblePage_block (count : Nat) {n : Nat} {block : LayoutBlock α}
    (hids : (page.layout.blocks.map (·.id)).Nodup)
    (h : (keptLayoutBlocks repeated page)[n]? = some block) :
    ∃ documentBlock, (assemblePage repeated count page)[n]? = some documentBlock ∧
      BlockOf (page, block) documentBlock ∧
      documentBlock.id = blockId page.pageNumber (count + n) ∧
      ∀ m other, (keptLayoutBlocks repeated page)[m]? = some other →
        block.relatedBlockId = other.id → n ≠ m →
          documentBlock.relatedBlockId = blockId page.pageNumber (count + m) := by
  unfold keptLayoutBlocks at h ⊢
  rw [List.getElem?_map, Option.map_eq_some_iff] at h
  obtain ⟨index, hindex, rfl⟩ := h
  have hfind : (pageBlockIds repeated count page).find (layoutBlockAt page index).id =
      some (blockId page.pageNumber (count + n)) := pageBlockIds_find hids hindex
  refine ⟨makeDocumentBlock page (layoutBlockAt page index)
    (blockId page.pageNumber (count + n)) (pageBlockIds repeated count page), ?_,
    makeDocumentBlock_blockOf .., makeDocumentBlock_id .., fun m other hm hlink hne => ?_⟩
  · unfold assemblePage
    rw [List.getElem?_map, hindex]
    show some (makeDocumentBlock page (layoutBlockAt page index)
      (((pageBlockIds repeated count page).find (layoutBlockAt page index).id).getD "") _) = _
    rw [hfind]
    rfl
  · rw [List.getElem?_map, Option.map_eq_some_iff] at hm
    obtain ⟨index', hindex', rfl⟩ := hm
    rw [makeDocumentBlock_related_eq, hlink, pageBlockIds_find hids hindex']
    dsimp only
    rw [if_pos]
    rw [bne_iff_ne]
    intro heq
    have hsame := blockId_inj heq
    omega

/-- The ids of a page count on from the earlier blocks, also when layout ids repeat. -/
theorem assemblePage_id_range {count : Nat} {block : DocumentBlock α}
    (h : block ∈ assemblePage repeated count page) :
    ∃ k, count ≤ k ∧ k < count + (assemblePage repeated count page).length ∧
      block.id = blockId page.pageNumber k := by
  obtain ⟨index, hindex, rfl⟩ := List.mem_map.mp h
  rw [makeDocumentBlock_id]
  have hkey : (pageBlockIds repeated count page).find (layoutBlockAt page index).id ≠ none := by
    unfold RelatedBlockIds.find
    rw [Ne, List.lookup_eq_none_iff]
    push Not
    obtain ⟨n, hn⟩ := List.getElem?_of_mem hindex
    refine ⟨((layoutBlockAt page index).id, blockId page.pageNumber (count + n)),
      List.mem_reverse.mpr (List.mem_map.mpr ⟨(index, count + n), ?_, rfl⟩), by simp⟩
    rw [List.mk_add_mem_zipIdx_iff_getElem?]
    exact hn
  obtain ⟨id, hid⟩ := Option.ne_none_iff_exists'.mp hkey
  obtain ⟨p, hp, heq⟩ := List.mem_map.mp (mem_of_find hid)
  have hrange := List.mem_zipIdx hp
  refine ⟨p.2, hrange.1, ?_, ?_⟩
  · unfold assemblePage
    rw [List.length_map]
    exact hrange.2.1
  · show ((pageBlockIds repeated count page).find _).getD "" = _
    rw [hid]
    exact (Prod.mk.inj heq).2.symm

theorem assembleBlocks_id_range (pages : List (PipelinePageArtifacts α)) :
    ∀ {count : Nat} {block : DocumentBlock α}, block ∈ assembleBlocks repeated count pages →
      ∃ k pageNumber, count ≤ k ∧ k < count + (assembleBlocks repeated count pages).length ∧
        block.id = blockId pageNumber k := by
  induction pages with
  | nil => exact fun h => absurd h List.not_mem_nil
  | cons page pages ih =>
    intro count block h
    have heq : assembleBlocks repeated count (page :: pages) = assemblePage repeated count page ++
        assembleBlocks repeated (count + (assemblePage repeated count page).length) pages := rfl
    rw [heq] at h ⊢
    rw [List.length_append]
    rcases List.mem_append.mp h with h | h
    · obtain ⟨k, hle, hlt, hid⟩ := assemblePage_id_range h
      exact ⟨k, page.pageNumber, hle, by omega, hid⟩
    · obtain ⟨k, pageNumber, hle, hlt, hid⟩ := ih h
      exact ⟨k, pageNumber, by omega, by omega, hid⟩

omit [Double α] in
/-- A related block has its relation. -/
theorem exists_relation {blocks : List (DocumentBlock α)} {block : DocumentBlock α}
    (hmem : block ∈ blocks) (hrelated : isRelated block = true) :
    ∃ index, makeRelation block index ∈ assembleRelations blocks := by
  obtain ⟨index, hindex⟩ := List.getElem?_of_mem (List.mem_filter.mpr ⟨hmem, hrelated⟩)
  exact ⟨index, List.mem_map.mpr
    ⟨(block, index), List.mem_zipIdx_iff_getElem?.mpr hindex, rfl⟩⟩

omit [Double α] in
/-- A relation comes from a block, and its type from the label of the block. -/
theorem relation_type {blocks : List (DocumentBlock α)} {relation : DocumentRelation}
    (h : relation ∈ assembleRelations blocks) (htype : relation.type = "caption_of") :
    ∃ block ∈ blocks, relation.fromBlockId = block.id ∧
      (block.sourceLabel = "Caption" ∨ block.sourceLabel = "caption") := by
  obtain ⟨⟨block, index⟩, hp, rfl⟩ := List.mem_map.mp h
  refine ⟨block, (List.mem_filter.mp (List.fst_mem_of_mem_zipIdx hp)).1, rfl, ?_⟩
  unfold makeRelation at htype
  dsimp only at htype
  split_ifs at htype with hlabel
  · simpa using hlabel
  · exact absurd htype (by decide)

end Blocks

/-! ## Agreement -/

section Agreement

variable {α : Type} [Double α] {page : PipelinePageArtifacts α} {repeated : List String}
  {earlier later : List (PipelinePageArtifacts α)}

/-- The backend only returns an order for finite boxes. -/
theorem order_finite {layout : PageLayout α} {readingOrder : PageReadingOrder α}
    (h : order layout = some (true, readingOrder)) :
    ∀ block ∈ layout.blocks, hasFiniteBox block = true := by
  unfold order at h
  split_ifs at h with hfinite
  · cases h
  · exact List.all_eq_true.mp (by simpa using hfinite)

/-- The blocks of a page stand behind those of the earlier pages. -/
theorem assembleBlocks_getElem? (later : List (PipelinePageArtifacts α)) {n : Nat}
    {block : DocumentBlock α}
    (h : (assemblePage repeated (assembleBlocks repeated 0 earlier).length page)[n]? =
      some block) :
    (assembleBlocks repeated 0 (earlier ++ page :: later))[
      (assembleBlocks repeated 0 earlier).length + n]? = some block := by
  rw [assembleBlocks_append, List.getElem?_append_right (Nat.le_add_right _ _),
    Nat.add_sub_cancel_left, Nat.zero_add]
  show (assemblePage repeated _ page ++ _)[n]? = _
  rw [List.getElem?_append_left (List.getElem?_eq_some_iff.mp h).1, h]

/-- Only one block of the document has the id of a block of the page. -/
theorem block_eq_of_id {n : Nat} {block other : DocumentBlock α}
    (hids : (page.layout.blocks.map (·.id)).Nodup)
    (h : (assemblePage repeated (assembleBlocks repeated 0 earlier).length page)[n]? = some block)
    (hother : other ∈ assembleBlocks repeated 0 (earlier ++ page :: later))
    (heq : other.id = block.id) : other = block := by
  set offset := (assembleBlocks repeated 0 earlier).length with hoffset
  have hn := (List.getElem?_eq_some_iff.mp h).1
  have hblock : block.id = blockId page.pageNumber (offset + n) :=
    assemblePage_getElem_id hids h
  rw [assembleBlocks_append, Nat.zero_add, ← hoffset] at hother
  rcases List.mem_append.mp hother with hother | hother
  · obtain ⟨k, pageNumber, -, hlt, hid⟩ := assembleBlocks_id_range _ hother
    rw [heq, hblock] at hid
    have := blockId_inj hid
    omega
  · rcases List.mem_append.mp hother with hother | hother
    · obtain ⟨m, hm⟩ := List.getElem?_of_mem hother
      have hid := assemblePage_getElem_id hids hm
      rw [heq, hblock] at hid
      have hsame := blockId_inj hid
      obtain rfl : n = m := by omega
      exact Option.some.inj (hm.symm.trans h)
    · obtain ⟨k, pageNumber, hle, -, hid⟩ := assembleBlocks_id_range _ hother
      rw [heq, hblock] at hid
      have := blockId_inj hid
      omega

/-- **Shown captions.** A caption whose label the assembler knows is shown behind its target. -/
theorem shown_of_label {document : ParsedDocument α}
    (hids : (page.layout.blocks.map (·.id)).Nodup)
    (h : IsReadingOrder page.layout page.readingOrder)
    (hblocks : document.blocks = assembleBlocks repeated 0 (earlier ++ page :: later))
    (hrelations : document.relations = assembleRelations document.blocks)
    {caption target : LayoutBlock α} (hcaption : IsCaptionOf page.layout caption target)
    (hlabel : caption.sourceLabel = "Caption" ∨ caption.sourceLabel = "caption") :
    ∃ n m targetBlock captionBlock,
      ShownBehind document page (assembleBlocks repeated 0 earlier).length
        (keptLayoutBlocks repeated page) n m target caption targetBlock captionBlock := by
  obtain ⟨front, run, rest, hkept, hmem, hrun⟩ := kept_run hids h repeated hcaption
  obtain ⟨k, hk⟩ := List.getElem?_of_mem hmem
  -- the run stands right behind the target
  have hkeptRun : ∀ i other, run[i]? = some other →
      (keptLayoutBlocks repeated page)[front.length + 1 + i]? = some other := by
    intro i other hi
    rw [hkept, List.append_assoc, List.getElem?_append_right (by omega), List.cons_append,
      show front.length + 1 + i - front.length = i + 1 by omega, List.getElem?_cons_succ,
      List.getElem?_append_left (List.getElem?_eq_some_iff.mp hi).1, hi]
  have hkeptTarget : (keptLayoutBlocks repeated page)[front.length]? = some target := by
    rw [hkept, List.append_assoc, List.getElem?_append_right (Nat.le_refl _), Nat.sub_self]
    rfl
  obtain ⟨targetBlock, htarget, htargetOf, htargetId, -⟩ := assemblePage_block
    (assembleBlocks repeated 0 earlier).length hids hkeptTarget
  obtain ⟨captionBlock, hcap, hcapOf, hcapId, hrelated⟩ := assemblePage_block
    (assembleBlocks repeated 0 earlier).length hids (hkeptRun k caption hk)
  have hlink := hrelated front.length target hkeptTarget hcaption.link (by omega)
  have hcapMem := assembleBlocks_getElem? later hcap
  have hisRelated : isRelated captionBlock = true := by
    unfold isRelated
    rw [hlink, hcapId, Bool.not_eq_true', Bool.or_eq_false_iff]
    refine ⟨by simpa using blockId_ne_empty _ _, beq_false_of_ne fun heq => ?_⟩
    have := blockId_inj heq
    omega
  obtain ⟨index, hindex⟩ := exists_relation
    (List.mem_of_getElem? (hblocks ▸ hcapMem)) hisRelated
  refine ⟨front.length, front.length + 1 + k, targetBlock, captionBlock,
    ⟨hkeptTarget, hblocks ▸ assembleBlocks_getElem? later htarget, htargetOf⟩,
    ⟨hkeptRun k caption hk, hblocks ▸ hcapMem, hcapOf⟩, by omega, fun i hlow hhigh => ?_,
    makeRelation captionBlock index, hrelations ▸ hindex, ?_, rfl, hlink.trans htargetId.symm⟩
  · have hlt : i - (front.length + 1) < run.length := by
      have := (List.getElem?_eq_some_iff.mp hk).1
      omega
    refine ⟨run[i - (front.length + 1)], ?_, hrun _ (List.getElem_mem hlt)⟩
    have hget := hkeptRun _ _ (List.getElem?_eq_getElem hlt)
    rwa [show front.length + 1 + (i - (front.length + 1)) = i by omega] at hget
  · unfold makeRelation
    dsimp only
    rw [if_pos (by rw [hcapOf.sourceLabel]; simpa using hlabel)]

/-- A shown caption has a label that the assembler knows. -/
theorem label_of_shown {document : ParsedDocument α}
    (hids : (page.layout.blocks.map (·.id)).Nodup)
    (hblocks : document.blocks = assembleBlocks repeated 0 (earlier ++ page :: later))
    (hrelations : document.relations = assembleRelations document.blocks)
    {n m : Nat} {target caption : LayoutBlock α} {targetBlock captionBlock : DocumentBlock α}
    (h : ShownBehind document page (assembleBlocks repeated 0 earlier).length
      (keptLayoutBlocks repeated page) n m target caption targetBlock captionBlock) :
    caption.sourceLabel = "Caption" ∨ caption.sourceLabel = "caption" := by
  obtain ⟨relation, hmem, htype, hfrom, -⟩ := h.relation
  obtain ⟨block, hblock, hid, hlabel⟩ := relation_type (hrelations ▸ hmem) htype
  obtain ⟨hkept, hshown, hof⟩ := h.shownCaption
  obtain ⟨assembled, hassembled, -⟩ := assemblePage_block
    (assembleBlocks repeated 0 earlier).length hids hkept
  obtain rfl : assembled = captionBlock := by
    have hget := assembleBlocks_getElem? later hassembled
    rw [← hblocks, hshown] at hget
    exact (Option.some.inj hget).symm
  obtain rfl := block_eq_of_id hids hassembled (hblocks ▸ hblock) (hid.symm.trans hfrom)
  rw [hof.sourceLabel] at hlabel
  exact hlabel

/-- **Captions of a document.** Every block that the reading order places below a figure or table
is shown behind it and related to it as a caption if and only if no caption of the page has the
label `figure_title`. -/
theorem captions_agree_iff (engineVersion : String) (request : DocumentAssembleRequest α)
    (hcounts : hasMatchingPageCounts request = true)
    (hpages : makeArtifacts request = earlier ++ page :: later)
    (hids : (page.layout.blocks.map (·.id)).Nodup)
    (hempty : ∀ block ∈ page.layout.blocks, block.id ≠ "")
    (horder : order page.layout = some (true, page.readingOrder)) :
    ∃ document, assemble engineVersion request = some (document, makeArtifacts request) ∧
      ((∀ placement ∈ page.readingOrder.trace.placements, placement.parentLayoutBlockId ≠ "" →
        ShownAsCaption document page
          (assembleBlocks (repeatedFurniture (makeArtifacts request)) 0 earlier).length
          (keptLayoutBlocks (repeatedFurniture (makeArtifacts request)) page) placement) ↔
        ∀ caption target, IsCaptionOf page.layout caption target →
          caption.sourceLabel ≠ "figure_title") := by
  obtain ⟨document, hdocument, -, hblocks, hrelations⟩ := assemble_eq engineVersion hcounts
  set repeated := repeatedFurniture (makeArtifacts request) with hrepeated
  rw [hpages] at hblocks
  obtain ⟨readingOrder, hreturned, hreading⟩ :=
    reading_order_permutation page.layout (order_finite horder) hids
  obtain rfl : page.readingOrder = readingOrder := by
    rw [horder] at hreturned
    exact (Prod.mk.inj (Option.some.inj hreturned)).2
  refine ⟨document, hdocument, fun hshown caption target hcaption hlabel => ?_,
    fun hlabels placement hplacement hparent => ?_⟩
  · obtain ⟨hparent, placement, hplacement, hid, hpar⟩ :=
      (order_captions hids hempty horder caption.id target.id).mpr
        ⟨caption, target, hcaption, rfl, rfl⟩
    obtain ⟨n, m, target', caption', targetBlock, captionBlock, -, hid', hbehind⟩ :=
      hshown placement hplacement (hpar ▸ hparent)
    obtain rfl : caption' = caption := List.inj_on_of_nodup_map hids
      (mem_of_kept hreading (List.mem_of_getElem? hbehind.shownCaption.1)) hcaption.captionMem
      (hid'.trans hid)
    rcases label_of_shown hids hblocks hrelations hbehind with h | h <;>
      exact absurd (hlabel.symm.trans h) (by decide)
  · obtain ⟨caption, target, hcaption, hid, hpar⟩ :=
      (order_captions hids hempty horder placement.layoutBlockId
        placement.parentLayoutBlockId).mp ⟨hparent, placement, hplacement, rfl, rfl⟩
    have hlabel : caption.sourceLabel = "Caption" ∨ caption.sourceLabel = "caption" := by
      have hcap := hcaption.captionLabel
      unfold isCaption at hcap
      have hne := hlabels caption target hcaption
      simp only [Bool.and_eq_true, Bool.or_eq_true, beq_iff_eq] at hcap
      exact hcap.2.resolve_right hne
    obtain ⟨n, m, targetBlock, captionBlock, hbehind⟩ :=
      shown_of_label hids hreading hblocks hrelations hcaption hlabel
    exact ⟨n, m, target, caption, targetBlock, captionBlock, hpar, hid, hbehind⟩

end Agreement

/-! ## A figure with its title -/

/-- `std::hypot` where it is a whole number up to 1000. -/
def wholeHypot (x y : ℚ) : ℚ :=
  let root : Nat := ((List.range 1001).find? fun n : Nat => x * x + y * y ≤ n * n).getD 0
  root

def titledText : PageText ℚ := ⟨0, 1, true, .ocr, [⟨"Figure 1", ⟨50, 202, 250, 212⟩, .ocr, 1, []⟩]⟩

/-- The layout of a page with a figure and the block below it. -/
def titledLayout (label : String) : PageLayout ℚ :=
  let blocks := associateCaptions wholeHypot ⟨0, 1, "page_1.png", 300, 400⟩ [
    ⟨"figure", .figure, "Picture", "", ⟨50, 50, 250, 200⟩, 1, -1, []⟩,
    ⟨"title", .text, label, "", ⟨50, 202, 250, 212⟩, 1, -1, [0]⟩]
  (resolvePageStructure titledText ⟨0, 1, blocks⟩ ⟨0, 1, []⟩).2.1

def titledOrder (label : String) : PageReadingOrder ℚ :=
  ((order (titledLayout label)).map Prod.snd).getD ⟨0, 1, [], ⟨"", [], [], []⟩⟩

def titledRequest (label : String) : DocumentAssembleRequest ℚ where
  sourcePath := "in/report.pdf"
  sourceType := "pdf"
  dpi := 200
  pages := [⟨0, 1, "page_1.png", 300, 400⟩]
  pageTexts := [titledText]
  pageLayouts := [titledLayout label]
  pageReadingOrders := [titledOrder label]
  pageTables := [⟨0, 1, []⟩]
  sourceSizeBytes := none
  sourceSha256 := ""

def titledArtifacts (label : String) : PipelinePageArtifacts ℚ :=
  ⟨0, 1, ⟨0, 1, "page_1.png", 300, 400⟩, titledText, titledLayout label, titledOrder label,
    ⟨0, 1, []⟩⟩

theorem captions_agree_iff_titled :
    ∃ document, assemble "1.0" (titledRequest "Caption") =
        some (document, [titledArtifacts "Caption"]) ∧
      ∀ placement ∈ (titledArtifacts "Caption").readingOrder.trace.placements,
        placement.parentLayoutBlockId ≠ "" → ShownAsCaption document (titledArtifacts "Caption") 0
          (keptLayoutBlocks [] (titledArtifacts "Caption")) placement := by
  obtain ⟨document, hassemble, hiff⟩ := captions_agree_iff "1.0" (titledRequest "Caption") rfl
    (show makeArtifacts (titledRequest "Caption") = [] ++ titledArtifacts "Caption" :: [] from rfl)
    (by decide +kernel) (by decide +kernel) (by decide +kernel)
  have hlabels : ∀ block ∈ (titledLayout "Caption").blocks,
      block.sourceLabel ≠ "figure_title" := by decide +kernel
  have hrepeated : repeatedFurniture (makeArtifacts (titledRequest "Caption")) = [] := by
    decide +kernel
  have hshown := hiff.mpr fun caption _ hcaption => hlabels caption hcaption.captionMem
  have hoffset : (assembleBlocks [] 0 ([] : List (PipelinePageArtifacts ℚ))).length = 0 := rfl
  rw [hrepeated, hoffset] at hshown
  have hpages : makeArtifacts (titledRequest "Caption") = [titledArtifacts "Caption"] := rfl
  rw [hpages] at hassemble
  exact ⟨document, hassemble, hshown⟩

/-- The reading order places the block below the figure, and the document has no caption. -/
theorem figure_title_no_caption :
    order (titledLayout "figure_title") = some (true, titledOrder "figure_title") ∧
      ∃ document, assemble "1.0" (titledRequest "figure_title") =
          some (document, [titledArtifacts "figure_title"]) ∧
        document.relations.map (·.type) = ["related_to"] ∧
        ∃ placement ∈ (titledOrder "figure_title").trace.placements,
          placement.layoutBlockId = "title" ∧ placement.parentLayoutBlockId = "figure" ∧
            ¬ ShownAsCaption document (titledArtifacts "figure_title") 0
              (keptLayoutBlocks [] (titledArtifacts "figure_title")) placement := by
  refine ⟨by decide +kernel, ?_⟩
  obtain ⟨document, hassemble, -, hblocks, hrelations⟩ :=
    assemble_eq "1.0" (show hasMatchingPageCounts (titledRequest "figure_title") = true from rfl)
  have htypes : (assembleRelations (assembleBlocks
      (repeatedFurniture (makeArtifacts (titledRequest "figure_title"))) 0
        (makeArtifacts (titledRequest "figure_title")))).map (·.type) = ["related_to"] := by
    decide +kernel
  rw [← hblocks, ← hrelations] at htypes
  have hplaced : ∃ placement ∈ (titledOrder "figure_title").trace.placements,
      placement.layoutBlockId = "title" ∧ placement.parentLayoutBlockId = "figure" := by
    decide +kernel
  obtain ⟨placement, hmem, hid, hparent⟩ := hplaced
  have hpages : makeArtifacts (titledRequest "figure_title") =
      [titledArtifacts "figure_title"] := rfl
  rw [hpages] at hassemble
  refine ⟨document, hassemble, htypes, placement, hmem, hid, hparent, ?_⟩
  rintro ⟨n, m, target, caption, targetBlock, captionBlock, -, -, hbehind⟩
  obtain ⟨relation, hrelation, htype, -⟩ := hbehind.relation
  have hin := List.mem_map_of_mem (f := (·.type)) hrelation
  rw [htypes, htype] at hin
  exact absurd hin (by decide)

end DocParser.Pipeline
