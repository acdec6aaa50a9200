import Mathlib.Data.List.Dedup
import Mathlib.Data.List.Forall2
import DocParser.Assembly.DocumentAssembler
import DocParser.Document.PageRotation
import DocParser.Export.CoreModel

/-!
# The contract of the assembler

`orderedLayoutBlockIndices_eq`: the order of a page is that of the first valid items, then that
of the layout. `assembler_contract`: every layout block that is kept becomes one document block, ids
are unique, relations connect two blocks of the document, and the validator accepts the result.
-/

namespace DocParser.Assembly

open Document Export

/-! ## The order of a page -/

section Order

theorem foldl_insertIndex (l : List Nat) : ∀ seen : List Nat,
    l.foldl insertIndex seen = seen ++ (l.removeAll seen).eraseDups := by
  induction l with
  | nil => intro seen; simp
  | cons index l ih =>
    intro seen
    rw [List.foldl_cons, ih]
    unfold insertIndex
    by_cases h : index ∈ seen
    · rw [if_pos (by simpa using h)]
      simp [List.removeAll, h]
    · rw [if_neg (by simpa using h), List.append_assoc]
      have hfilter : l.removeAll (seen ++ [index]) =
          (l.removeAll seen).filter fun b => !b == index := by
        simp only [List.removeAll, List.filter_filter]
        refine List.filter_congr fun b _ => ?_
        by_cases hb : b = index <;> simp [hb, h]
      simp only [List.removeAll, List.filter_cons] at *
      rw [hfilter]
      simp [h, List.eraseDups_cons]

variable {α : Type} [Double α] {page : PipelinePageArtifacts α}

/-- The layout blocks that valid items of the reading order name, by their first item. -/
def readingIndices (page : PipelinePageArtifacts α) : List Nat :=
  (page.readingOrder.items.filterMap (itemIndex page.layout)).eraseDups

/-- The layout blocks that no valid item names, in layout order. -/
def leftoverIndices (page : PipelinePageArtifacts α) : List Nat :=
  (List.range page.layout.blocks.length).filter fun index => index ∉ readingIndices page

omit [Double α] in
/-- **The order of a page.** -/
theorem orderedLayoutBlockIndices_eq (page : PipelinePageArtifacts α) :
    orderedLayoutBlockIndices page = readingIndices page ++ leftoverIndices page := by
  unfold orderedLayoutBlockIndices leftoverIndices readingIndices
  rw [foldl_insertIndex, foldl_insertIndex, List.nil_append]
  have hnil : ∀ l : List Nat, l.removeAll [] = l := fun l => by simp [List.removeAll]
  rw [hnil]
  unfold List.removeAll
  rw [eraseDups_of_nodup (List.nodup_range.filter _)]
  refine congrArg _ (List.filter_congr fun index _ => ?_)
  simp only [List.elem_eq_mem, decide_not]

omit [Double α] in
theorem itemIndex_lt {layout : PageLayout α} {item : ReadingOrderItem} {index : Nat}
    (h : itemIndex layout item = some index) : index < layout.blocks.length := by
  unfold itemIndex at h
  split at h
  · cases h
  split at h
  · cases h
  next block hblock =>
    split at h
    · obtain rfl := Option.some.inj h
      exact (List.getElem?_eq_some_iff.mp hblock).1
    · cases h

omit [Double α] in
/-- The order of a page names every layout block once. -/
theorem orderedLayoutBlockIndices_perm (page : PipelinePageArtifacts α) :
    (orderedLayoutBlockIndices page).Perm (List.range page.layout.blocks.length) := by
  rw [orderedLayoutBlockIndices_eq]
  refine (List.perm_ext_iff_of_nodup ?_ List.nodup_range).mpr fun index => ?_
  · refine List.nodup_append.mpr ⟨nodup_eraseDups _, List.nodup_range.filter _, ?_⟩
    rintro a ha b hb rfl
    simpa [ha] using (List.mem_filter.mp hb).2
  · rw [List.mem_append, leftoverIndices, List.mem_filter, List.mem_range]
    constructor
    · rintro (h | h)
      · obtain ⟨item, _, hitem⟩ := List.mem_filterMap.mp ((mem_eraseDups _).mp h)
        exact itemIndex_lt hitem
      · exact h.1
    · intro h
      by_cases hr : index ∈ readingIndices page
      · exact Or.inl hr
      · exact Or.inr ⟨h, by simpa using hr⟩

end Order

/-! ## Repeated furniture -/

section Furniture

variable {α : Type} [Double α] {pages : List (PipelinePageArtifacts α)}

/-- A header or footer whose normalized text occurs, with the same type, on two pages. -/
def RepeatedFurniture (pages : List (PipelinePageArtifacts α)) (page : PipelinePageArtifacts α)
    (block : LayoutBlock α) : Prop :=
  furnitureSignature page block ≠ "" ∧
    ∃ page₁ ∈ pages, ∃ page₂ ∈ pages, page₁.pageIndex ≠ page₂.pageIndex ∧
      (∃ b ∈ page₁.layout.blocks, furnitureSignature page₁ b = furnitureSignature page block) ∧
      ∃ b ∈ page₂.layout.blocks, furnitureSignature page₂ b = furnitureSignature page block

theorem two_le_dedup_length {l : List Int} :
    2 ≤ l.dedup.length ↔ ∃ a ∈ l, ∃ b ∈ l, a ≠ b := by
  constructor
  · intro h
    match hd : l.dedup with
    | [] => rw [hd] at h; simp at h
    | [a] => rw [hd] at h; simp at h
    | a :: b :: rest =>
      have hnodup := List.nodup_dedup l
      rw [hd] at hnodup
      refine ⟨a, List.mem_dedup.mp (by rw [hd]; simp), b, List.mem_dedup.mp (by rw [hd]; simp), ?_⟩
      rintro rfl
      simp at hnodup
  · rintro ⟨a, ha, b, hb, hne⟩
    have hsub : [a, b] ⊆ l.dedup := by
      intro x hx
      rcases List.mem_cons.mp hx with rfl | hx
      · exact List.mem_dedup.mpr ha
      · exact List.mem_dedup.mpr (List.mem_singleton.mp hx ▸ hb)
    exact (List.subperm_of_subset (by simpa using hne) hsub).length_le

omit [Double α] in
theorem mem_furnitureSignatures {signature : String} {pageIndex : Int} :
    (signature, pageIndex) ∈ furnitureSignatures pages ↔ signature ≠ "" ∧
      ∃ page ∈ pages, page.pageIndex = pageIndex ∧
        ∃ b ∈ page.layout.blocks, furnitureSignature page b = signature := by
  unfold furnitureSignatures
  rw [List.mem_flatMap]
  constructor
  · rintro ⟨page, hpage, hmem⟩
    obtain ⟨b, hb, heq⟩ := List.mem_map.mp hmem
    obtain ⟨rfl, rfl⟩ := Prod.mk.inj heq
    obtain ⟨hblock, hne⟩ := List.mem_filter.mp hb
    exact ⟨by simpa using hne, page, hpage, rfl, b, hblock, rfl⟩
  · rintro ⟨hne, page, hpage, rfl, b, hb, rfl⟩
    exact ⟨page, hpage, List.mem_map.mpr ⟨b, List.mem_filter.mpr ⟨hb, by simpa using hne⟩, rfl⟩⟩

omit [Double α] in
/-- The test of the assembler for repeated furniture. -/
theorem repeated_iff {page : PipelinePageArtifacts α} {block : LayoutBlock α} :
    (!((furnitureSignature page block).isEmpty ||
      !(repeatedFurniture pages).contains (furnitureSignature page block))) = true ↔
      RepeatedFurniture pages page block := by
  have hpages : ∀ pageIndex : Int, pageIndex ∈ ((furnitureSignatures pages).filter fun p =>
      p.1 == furnitureSignature page block).map (·.2) ↔
      (furnitureSignature page block, pageIndex) ∈ furnitureSignatures pages := by
    intro pageIndex
    rw [List.mem_map]
    constructor
    · rintro ⟨⟨s, i⟩, hp, rfl⟩
      obtain ⟨hmem, hs⟩ := List.mem_filter.mp hp
      obtain rfl := beq_iff_eq.mp hs
      exact hmem
    · exact fun h => ⟨_, List.mem_filter.mpr ⟨h, by simp⟩, rfl⟩
  have htwo : 2 ≤ (((furnitureSignatures pages).filter fun p =>
      p.1 == furnitureSignature page block).map (·.2)).dedup.length ↔
      ∃ i₁ i₂, (furnitureSignature page block, i₁) ∈ furnitureSignatures pages ∧
        (furnitureSignature page block, i₂) ∈ furnitureSignatures pages ∧ i₁ ≠ i₂ := by
    rw [two_le_dedup_length]
    simp only [hpages]
    constructor
    · rintro ⟨a, ha, b, hb, hne⟩
      exact ⟨a, b, ha, hb, hne⟩
    · rintro ⟨a, b, ha, hb, hne⟩
      exact ⟨a, ha, b, hb, hne⟩
  have hmem : furnitureSignature page block ∈ repeatedFurniture pages ↔
      ∃ i₁ i₂, (furnitureSignature page block, i₁) ∈ furnitureSignatures pages ∧
        (furnitureSignature page block, i₂) ∈ furnitureSignatures pages ∧ i₁ ≠ i₂ := by
    unfold repeatedFurniture
    rw [List.mem_filter, decide_eq_true_iff, htwo, List.mem_map]
    refine ⟨fun h => h.2, fun h => ⟨?_, h⟩⟩
    obtain ⟨i, _, hi, _⟩ := h
    exact ⟨_, hi, rfl⟩
  simp only [Bool.not_eq_true', Bool.or_eq_false_iff, Bool.not_eq_false', List.contains_iff_mem,
    hmem, mem_furnitureSignatures]
  unfold RepeatedFurniture
  constructor
  · rintro ⟨hne, i₁, i₂, ⟨_, p₁, hp₁, rfl, b₁⟩, ⟨_, p₂, hp₂, rfl, b₂⟩, hi⟩
    exact ⟨by simpa using hne, p₁, hp₁, p₂, hp₂, hi, b₁, b₂⟩
  · rintro ⟨hne, p₁, hp₁, p₂, hp₂, hi, b₁, b₂⟩
    exact ⟨by simpa using hne, _, _, ⟨hne, p₁, hp₁, rfl, b₁⟩, ⟨hne, p₂, hp₂, rfl, b₂⟩, hi⟩

end Furniture

/-! ## Ids -/

/-- The counter of a block id stands behind its last separator. -/
theorem blockId_toList (pageNumber : Int) (k : Nat) : (blockId pageNumber k).toList =
    ("doc_page_" ++ toString pageNumber ++ "_block").toList ++
      '_' :: (toString (k + 1)).toList := by
  unfold blockId
  simp only [String.toList_append, List.append_assoc]
  rfl

theorem blockId_inj {pageNumber pageNumber' : Int} {k k' : Nat}
    (h : blockId pageNumber k = blockId pageNumber' k') : k = k' := by
  have hlist := congrArg String.toList h
  rw [blockId_toList, blockId_toList] at hlist
  exact Nat.succ.inj (suffix_counter_inj (by decide) hlist)

theorem blockId_ne_empty (pageNumber : Int) (k : Nat) : blockId pageNumber k ≠ "" := by
  intro h
  have hlist := congrArg String.toList h
  unfold blockId at hlist
  simp only [String.toList_append] at hlist
  cases hlist

/-- In a list with distinct keys the last assignment to a key is the only one. -/
theorem find_of_mem {ids : RelatedBlockIds} (hkeys : (ids.map Prod.fst).Nodup)
    {key value : String} (h : (key, value) ∈ ids) : ids.find key = some value := by
  unfold RelatedBlockIds.find
  have hkeys' : (ids.reverse.map Prod.fst).Nodup := by
    rw [List.map_reverse]
    exact List.nodup_reverse.mpr hkeys
  have h' : (key, value) ∈ ids.reverse := List.mem_reverse.mpr h
  obtain ⟨front, rest, heq⟩ := List.append_of_mem h'
  rw [List.lookup_eq_some_iff]
  refine ⟨front, rest, heq, fun p hp => ?_⟩
  rw [heq, List.map_append, List.map_cons, List.nodup_append] at hkeys'
  have hne := hkeys'.2.2 p.1 (List.mem_map_of_mem hp) key (List.mem_cons_self ..)
  simpa using hne.symm

theorem mem_of_find {ids : RelatedBlockIds} {key value : String} (h : ids.find key = some value) :
    (key, value) ∈ ids := by
  obtain ⟨front, rest, heq, _⟩ := List.lookup_eq_some_iff.mp h
  exact List.mem_reverse.mp (by rw [heq]; simp)

section Blocks

variable {α : Type} [Double α] {pages : List (PipelinePageArtifacts α)}
  {page : PipelinePageArtifacts α}

/-- The ids that the blocks of a page get. -/
def pageBlockIds (repeated : List String) (count : Nat) (page : PipelinePageArtifacts α) :
    RelatedBlockIds :=
  ((includedIndices repeated page).zipIdx count).map fun p =>
    ((layoutBlockAt page p.1).id, blockId page.pageNumber p.2)

theorem includedIndices_nodup (repeated : List String) (page : PipelinePageArtifacts α) :
    (includedIndices repeated page).Nodup :=
  ((orderedLayoutBlockIndices_perm page).nodup_iff.mpr List.nodup_range).filter _

theorem includedIndices_lt {repeated : List String} {index : Nat}
    (h : index ∈ includedIndices repeated page) : index < page.layout.blocks.length :=
  List.mem_range.mp ((orderedLayoutBlockIndices_perm page).mem_iff.mp (List.mem_filter.mp h).1)

theorem pageBlockIds_keys {repeated : List String} {count : Nat}
    (hids : (page.layout.blocks.map (·.id)).Nodup) :
    ((pageBlockIds repeated count page).map Prod.fst).Nodup := by
  have hmap : (pageBlockIds repeated count page).map Prod.fst =
      (includedIndices repeated page).map fun index => (layoutBlockAt page index).id := by
    unfold pageBlockIds
    rw [List.map_map]
    calc _ = (((includedIndices repeated page).zipIdx count).map Prod.fst).map
          fun index => (layoutBlockAt page index).id := by rw [List.map_map]; rfl
      _ = _ := by rw [List.zipIdx_map_fst]
  rw [hmap]
  refine (List.nodup_map_iff_inj_on (includedIndices_nodup repeated page)).mpr ?_
  intro i hi j hj heq
  have hi := includedIndices_lt hi
  have hj := includedIndices_lt hj
  simp only [layoutBlockAt, List.getD, List.getElem?_eq_getElem, hi, hj, Option.getD_some] at heq
  have hinj := List.nodup_iff_injective_getElem.mp hids
  have := @hinj ⟨i, by simpa using hi⟩ ⟨j, by simpa using hj⟩ (by simpa using heq)
  simpa using this

theorem makeDocumentBlock_id (page : PipelinePageArtifacts α)
    (layoutBlock : LayoutBlock α) (id : String) (ids : RelatedBlockIds) :
    (makeDocumentBlock page layoutBlock id ids).id = id := by
  unfold makeDocumentBlock
  dsimp only
  split
  · split <;> rfl
  · rfl

/-- The id of a kept block counts the blocks in front of it. -/
theorem pageBlockIds_find {repeated : List String} {count i index : Nat}
    (hids : (page.layout.blocks.map (·.id)).Nodup)
    (h : (includedIndices repeated page)[i]? = some index) :
    (pageBlockIds repeated count page).find (layoutBlockAt page index).id =
      some (blockId page.pageNumber (count + i)) := by
  refine find_of_mem (pageBlockIds_keys hids) (List.mem_map.mpr ⟨(index, count + i), ?_, rfl⟩)
  rw [List.mk_add_mem_zipIdx_iff_getElem?]
  exact h

/-- **The ids of a page** count on from the earlier blocks. -/
theorem assemblePage_ids (repeated : List String) (count : Nat)
    (hids : (page.layout.blocks.map (·.id)).Nodup) :
    (assemblePage repeated count page).map (·.id) =
      (List.range' count (includedIndices repeated page).length).map
        (blockId page.pageNumber) := by
  unfold assemblePage
  rw [List.map_map]
  refine List.ext_getElem (by simp) fun i hi hi' => ?_
  have hlt : i < (includedIndices repeated page).length := by simpa using hi
  simp only [List.getElem_map, Function.comp_apply, List.getElem_range', Nat.one_mul]
  rw [makeDocumentBlock_id]
  exact congrArg (Option.getD · "") (pageBlockIds_find hids (List.getElem?_eq_getElem hlt))

theorem assemblePage_getElem_id {repeated : List String} {count i : Nat} {block : DocumentBlock α}
    (hids : (page.layout.blocks.map (·.id)).Nodup)
    (h : (assemblePage repeated count page)[i]? = some block) :
    block.id = blockId page.pageNumber (count + i) := by
  have hget : ((assemblePage repeated count page).map (·.id))[i]? = some block.id := by
    rw [List.getElem?_map, h]
    rfl
  rw [assemblePage_ids repeated count hids, List.getElem?_map] at hget
  obtain ⟨k, hk, hid⟩ := Option.map_eq_some_iff.mp hget
  obtain ⟨_, hk⟩ := List.getElem?_eq_some_iff.mp hk
  rw [List.getElem_range', Nat.one_mul] at hk
  rw [← hid, hk]

/-- The id at a place of the document counts all blocks before it. -/
theorem assembleBlocks_id {repeated : List String} (pages : List (PipelinePageArtifacts α))
    (hids : ∀ page ∈ pages, (page.layout.blocks.map (·.id)).Nodup) :
    ∀ {count i : Nat} {block : DocumentBlock α},
      (assembleBlocks repeated count pages)[i]? = some block →
      ∃ pageNumber, block.id = blockId pageNumber (count + i) := by
  induction pages with
  | nil => intro count i block h; simp [assembleBlocks] at h
  | cons page rest ih =>
    intro count i block h
    unfold assembleBlocks at h
    dsimp only at h
    rw [List.getElem?_append] at h
    have hpage := assemblePage_ids repeated count
      (hids page (List.mem_cons_self ..))
    split at h
    next hlt =>
      exact ⟨page.pageNumber, assemblePage_getElem_id (hids page (List.mem_cons_self ..)) h⟩
    next hge =>
      obtain ⟨pageNumber, hid⟩ := ih (fun p hp => hids p (List.mem_cons_of_mem _ hp)) h
      refine ⟨pageNumber, ?_⟩
      rw [hid]
      congr 1
      omega

/-- **Block ids** are unique in the whole document. -/
theorem assembleBlocks_ids_nodup (repeated : List String)
    (hids : ∀ page ∈ pages, (page.layout.blocks.map (·.id)).Nodup) :
    ((assembleBlocks repeated 0 pages).map (·.id)).Nodup := by
  refine List.nodup_iff_injective_getElem.mpr fun ⟨i, hi⟩ ⟨j, hj⟩ heq => ?_
  simp only [List.getElem_map] at heq
  rw [List.length_map] at hi hj
  obtain ⟨n, hn⟩ := assembleBlocks_id pages hids (List.getElem?_eq_getElem hi)
  obtain ⟨m, hm⟩ := assembleBlocks_id pages hids (List.getElem?_eq_getElem hj)
  rw [hn, hm] at heq
  simpa using blockId_inj heq

/-! ## Blocks -/

/-- The document block that comes from a layout block of a page. -/
structure BlockOf (source : PipelinePageArtifacts α × LayoutBlock α) (block : DocumentBlock α) :
    Prop where
  type : block.type = toDocumentBlockType source.2.type
  sourceLabel : block.sourceLabel = source.2.sourceLabel
  pageIndex : block.pageIndex = source.1.pageIndex
  pageNumber : block.pageNumber = source.1.pageNumber
  pageId : block.pageId = pageId source.1.pageNumber
  bbox : block.bbox = source.2.bbox
  textLineIndices : block.textLineIndices = source.2.textLineIndices
  sourceRefs : block.sourceRefs = [⟨Assembly.pageId source.1.pageNumber, source.2.bbox,
    joinLayoutBlockText source.1.text source.2, blockTextSource source.1.text source.2⟩]

theorem makeDocumentBlock_blockOf (page : PipelinePageArtifacts α) (layoutBlock : LayoutBlock α)
    (id : String) (ids : RelatedBlockIds) :
    BlockOf (page, layoutBlock) (makeDocumentBlock page layoutBlock id ids) := by
  unfold makeDocumentBlock
  dsimp only
  split
  · split <;> exact ⟨rfl, rfl, rfl, rfl, rfl, rfl, rfl, rfl⟩
  · exact ⟨rfl, rfl, rfl, rfl, rfl, rfl, rfl, rfl⟩

theorem makeDocumentBlock_related_eq (page : PipelinePageArtifacts α)
    (layoutBlock : LayoutBlock α) (id : String) (ids : RelatedBlockIds) :
    (makeDocumentBlock page layoutBlock id ids).relatedBlockId =
      match ids.find layoutBlock.relatedBlockId with
      | none => ""
      | some related => if related != id then related else "" := by
  unfold makeDocumentBlock
  dsimp only
  split
  · split <;> rfl
  · rfl

theorem makeDocumentBlock_relatedBlockId (page : PipelinePageArtifacts α)
    (layoutBlock : LayoutBlock α) (id : String) (ids : RelatedBlockIds) :
    (makeDocumentBlock page layoutBlock id ids).relatedBlockId = "" ∨
      ids.find layoutBlock.relatedBlockId =
        some (makeDocumentBlock page layoutBlock id ids).relatedBlockId := by
  rw [makeDocumentBlock_related_eq]
  cases ids.find layoutBlock.relatedBlockId with
  | none => exact Or.inl rfl
  | some related =>
    dsimp only
    split
    · exact Or.inr rfl
    · exact Or.inl rfl

/-- The layout blocks of all pages that are kept, in the order of the document. -/
def keptBlocks (repeated : List String) (pages : List (PipelinePageArtifacts α)) :
    List (PipelinePageArtifacts α × LayoutBlock α) :=
  pages.flatMap fun page =>
    (includedIndices repeated page).map fun index => (page, layoutBlockAt page index)

theorem assembleBlocks_blockOf (repeated : List String) (pages : List (PipelinePageArtifacts α)) :
    ∀ count, List.Forall₂ BlockOf (keptBlocks repeated pages)
      (assembleBlocks repeated count pages) := by
  induction pages with
  | nil => exact fun _ => .nil
  | cons page rest ih =>
    intro count
    unfold keptBlocks assembleBlocks
    rw [List.flatMap_cons]
    refine List.rel_append ?_ (ih _)
    unfold assemblePage
    rw [List.forall₂_map_left_iff, List.forall₂_map_right_iff, List.forall₂_same]
    exact fun index _ => makeDocumentBlock_blockOf page _ _ _

/-- A block is linked to a block of its own page. -/
theorem assemblePage_related {repeated : List String} {count : Nat}
    (hids : (page.layout.blocks.map (·.id)).Nodup) {block : DocumentBlock α}
    (h : block ∈ assemblePage repeated count page) :
    block.relatedBlockId = "" ∨
      block.relatedBlockId ∈ (assemblePage repeated count page).map (·.id) := by
  obtain ⟨index, _, rfl⟩ := List.mem_map.mp h
  rcases makeDocumentBlock_relatedBlockId page (layoutBlockAt page index)
    (((pageBlockIds repeated count page).find (layoutBlockAt page index).id).getD "")
    (pageBlockIds repeated count page) with hempty | hfind
  · exact Or.inl hempty
  · refine Or.inr ?_
    rw [assemblePage_ids _ _ hids]
    obtain ⟨p, hp, heq⟩ := List.mem_map.mp (mem_of_find hfind)
    refine List.mem_map.mpr ⟨p.2, ?_, (Prod.mk.inj heq).2⟩
    have hsnd := List.zipIdx_map_snd count (includedIndices repeated page)
    rw [← hsnd]
    exact List.mem_map_of_mem hp

theorem assembleBlocks_related (repeated : List String) (pages : List (PipelinePageArtifacts α))
    (hids : ∀ page ∈ pages, (page.layout.blocks.map (·.id)).Nodup) :
    ∀ count : Nat, ∀ block ∈ assembleBlocks repeated count pages, block.relatedBlockId = "" ∨
      block.relatedBlockId ∈ (assembleBlocks repeated count pages).map (·.id) := by
  induction pages with
  | nil => intro count block h; cases h
  | cons page rest ih =>
    intro count block h
    have heq : assembleBlocks repeated count (page :: rest) = assemblePage repeated count page ++
        assembleBlocks repeated (count + (assemblePage repeated count page).length) rest := rfl
    rw [heq] at h ⊢
    rw [List.map_append]
    rcases List.mem_append.mp h with h | h
    · rcases assemblePage_related (hids page (List.mem_cons_self ..)) h with hempty | hmem
      · exact Or.inl hempty
      · exact Or.inr (List.mem_append_left _ hmem)
    · rcases ih (fun p hp => hids p (List.mem_cons_of_mem _ hp)) _ block h with hempty | hmem
      · exact Or.inl hempty
      · exact Or.inr (List.mem_append_right _ hmem)

omit [Double α] in
/-- **Relations** connect two different blocks. -/
theorem assembleRelations_valid {blocks : List (DocumentBlock α)}
    (hrelated : ∀ block ∈ blocks, block.relatedBlockId = "" ∨
      block.relatedBlockId ∈ blocks.map (·.id)) :
    ∀ relation ∈ assembleRelations blocks, ValidRelation (blocks.map (·.id)) relation := by
  intro relation h
  obtain ⟨⟨block, index⟩, hp, rfl⟩ := List.mem_map.mp h
  obtain ⟨hblock, hisRelated⟩ := List.mem_filter.mp (List.fst_mem_of_mem_zipIdx hp)
  unfold isRelated at hisRelated
  simp only [Bool.not_eq_true', Bool.or_eq_false_iff] at hisRelated
  refine ⟨?_, List.mem_map_of_mem hblock, ?_, ?_⟩
  · unfold makeRelation
    dsimp only
    split <;> decide
  · rcases hrelated block hblock with hempty | hmem
    · simp [hempty] at hisRelated
    · exact hmem
  · exact fun heq => by simpa using ne_of_beq_false hisRelated.2 heq.symm

/-! ## The contract -/

/-- What is promised about the stages before the assembly. -/
structure ValidRequest (request : DocumentAssembleRequest α) : Prop where
  counts : hasMatchingPageCounts request = true
  numbers : ∀ page ∈ request.pages, 0 < page.pageNumber
  distinctNumbers : (request.pages.map (·.pageNumber)).Nodup
  sizes : ∀ page ∈ request.pages, 0 < page.width ∧ 0 < page.height
  ids : ∀ layout ∈ request.pageLayouts, (layout.blocks.map (·.id)).Nodup ∧
    ∀ block ∈ layout.blocks, block.id ≠ ""

omit [Double α] in
theorem makeArtifacts_layout {request : DocumentAssembleRequest α}
    (h : page ∈ makeArtifacts request) : page.layout ∈ request.pageLayouts := by
  obtain ⟨p, hp, rfl⟩ := List.mem_map.mp h
  exact (List.of_mem_zip (List.of_mem_zip (List.of_mem_zip hp).2).2).1

omit [Double α] in
theorem makeArtifacts_pages {request : DocumentAssembleRequest α}
    (h : hasMatchingPageCounts request = true) :
    (makeArtifacts request).map (·.image) = request.pages := by
  unfold hasMatchingPageCounts at h
  simp only [Bool.and_eq_true, beq_iff_eq] at h
  obtain ⟨⟨⟨htexts, hlayouts⟩, horders⟩, htables⟩ := h
  unfold makeArtifacts
  rw [List.map_map]
  refine List.ext_getElem (by simp; omega) fun i hi hi' => ?_
  simp

theorem pageId_ne_empty (pageNumber : Int) : pageId pageNumber ≠ "" := by
  intro h
  have hlist := congrArg String.toList h
  unfold pageId at hlist
  rw [String.toList_append] at hlist
  cases hlist

/-- Page ids of positive numbers tell the pages apart. -/
theorem pageId_inj {m n : Int} (hm : 0 < m) (hn : 0 < n) (h : pageId m = pageId n) : m = n := by
  obtain ⟨a, rfl⟩ := Int.eq_ofNat_of_zero_le hm.le
  obtain ⟨b, rfl⟩ := Int.eq_ofNat_of_zero_le hn.le
  have hlist := congrArg String.toList h
  unfold pageId at hlist
  rw [String.toList_append, String.toList_append, List.append_cancel_left_eq] at hlist
  exact congrArg Int.ofNat (toString_nat_inj hlist)

theorem makeDocumentPage_valid [LawfulDouble α] {page : PageArtifact}
    (hnumber : 0 < page.pageNumber)
    (hsize : 0 < page.width ∧ 0 < page.height) :
    ValidPage (makeDocumentPage page : DocumentPage α) where
  id := pageId_ne_empty _
  number := hnumber
  finite := ⟨LawfulDouble.isFinite_ofInt _, LawfulDouble.isFinite_ofInt _⟩
  positive :=
    ⟨fun h => absurd (LawfulDouble.nonpos_of_ofInt_le _ h) (not_le.mpr hsize.1),
      fun h => absurd (LawfulDouble.nonpos_of_ofInt_le _ h) (not_le.mpr hsize.2)⟩

/-- The parts of an assembled document. -/
theorem assemble_eq (engineVersion : String) {request : DocumentAssembleRequest α}
    (h : hasMatchingPageCounts request = true) :
    ∃ document, assemble engineVersion request = some (document, makeArtifacts request) ∧
      document.pages = request.pages.map makeDocumentPage ∧
      document.blocks = assembleBlocks (repeatedFurniture (makeArtifacts request)) 0
        (makeArtifacts request) ∧
      document.relations = assembleRelations document.blocks := by
  unfold assemble
  rw [h]
  exact ⟨_, rfl, rfl, rfl, rfl⟩

/-- **Assembler.** Every layout block that is no repeated furniture becomes one document block,
page by page, first in the order of the valid items and then in that of the layout. Ids are
unique, relations connect two blocks of the document, and the validator accepts its pages, blocks
and relations. -/
theorem assembler_contract [LawfulDouble α] (engineVersion : String)
    (request : DocumentAssembleRequest α) (h : ValidRequest request) :
    ∃ document, ∃ removed : PipelinePageArtifacts α → LayoutBlock α → Bool,
      assemble engineVersion request = some (document, makeArtifacts request) ∧
      (∀ page ∈ makeArtifacts request, ∀ block ∈ page.layout.blocks, removed page block = true ↔
        RepeatedFurniture (makeArtifacts request) page block) ∧
      (∀ page ∈ makeArtifacts request,
        (readingIndices page ++ leftoverIndices page).Perm
          (List.range page.layout.blocks.length)) ∧
      List.Forall₂ BlockOf ((makeArtifacts request).flatMap fun page =>
        ((readingIndices page ++ leftoverIndices page).filter fun index =>
          !removed page (layoutBlockAt page index)).map fun index =>
            (page, layoutBlockAt page index)) document.blocks ∧
      (document.blocks.map (·.id)).Nodup ∧
      (∀ relation ∈ document.relations, ∃ block ∈ document.blocks, ∃ block' ∈ document.blocks,
        relation.fromBlockId = block.id ∧ relation.toBlockId = block'.id ∧ block.id ≠ block'.id) ∧
      validatePages 0 [] [] document.pages = .ok () ∧
      validateBlocks 0 [] document.blocks = .ok () ∧
      validateRelations (document.blocks.map (·.id)) 0 document.relations = .ok () := by
  set pages := makeArtifacts request with hpages
  have hids : ∀ page ∈ pages, (page.layout.blocks.map (·.id)).Nodup :=
    fun page hpage => (h.ids _ (makeArtifacts_layout hpage)).1
  have hnodup := assembleBlocks_ids_nodup (repeatedFurniture pages) hids
  have hrelations := assembleRelations_valid
    (assembleBlocks_related (repeatedFurniture pages) pages hids 0)
  obtain ⟨document, hassemble, hdocumentPages, hblocks, hrelation⟩ :=
    assemble_eq engineVersion h.counts
  rw [← hblocks] at hnodup
  rw [← hblocks, ← hrelation] at hrelations
  refine ⟨document, fun page block => !((furnitureSignature page block).isEmpty ||
    !(repeatedFurniture pages).contains (furnitureSignature page block)), hassemble,
    fun page _ block _ => repeated_iff, ?_, ?_, hnodup, ?_, ?_, ?_, ?_⟩
  · intro page _
    rw [← orderedLayoutBlockIndices_eq]
    exact orderedLayoutBlockIndices_perm page
  · have hkept : keptBlocks (repeatedFurniture pages) pages = pages.flatMap fun page =>
        ((readingIndices page ++ leftoverIndices page).filter fun index =>
          !!((furnitureSignature page (layoutBlockAt page index)).isEmpty ||
            !(repeatedFurniture pages).contains
              (furnitureSignature page (layoutBlockAt page index)))).map fun index =>
            (page, layoutBlockAt page index) := by
      unfold keptBlocks includedIndices
      simp only [orderedLayoutBlockIndices_eq, Bool.not_not]
    rw [← hkept, hblocks]
    exact assembleBlocks_blockOf _ pages 0
  · intro relation hrelation
    have hvalid := hrelations relation hrelation
    obtain ⟨block, hblock, hfrom⟩ := List.mem_map.mp hvalid.fromBlock
    obtain ⟨block', hblock', hto⟩ := List.mem_map.mp hvalid.toBlock
    exact ⟨block, hblock, block', hblock', hfrom.symm, hto.symm,
      by rw [hfrom, hto]; exact hvalid.different⟩
  · rw [hdocumentPages]
    refine validatePages_ok.mpr ⟨?_, ?_, ?_⟩
    · rw [List.forall_mem_map]
      exact fun page hpage => ⟨makeDocumentPage_valid (h.numbers page hpage) (h.sizes page hpage),
        by simp, by simp⟩
    · rw [List.map_map]
      refine (List.nodup_map_iff_inj_on h.distinctNumbers.of_map).mpr fun p hp q hq heq => ?_
      exact List.inj_on_of_nodup_map h.distinctNumbers hp hq
        (pageId_inj (h.numbers p hp) (h.numbers q hq) heq)
    · rw [List.map_map]
      exact h.distinctNumbers
  · refine validateBlocks_ok.mpr ⟨fun block hblock => ⟨?_, by simp⟩, hnodup⟩
    rw [hblocks] at hblock
    obtain ⟨i, hi⟩ := List.mem_iff_getElem?.mp hblock
    obtain ⟨pageNumber, hid⟩ := assembleBlocks_id pages hids hi
    rw [hid]
    exact blockId_ne_empty _ _
  · exact validateRelations_ok.mpr hrelations

/-- An assembled document is ready for the restoration of its coordinates, when its pages were
assembled with their working sizes. -/
theorem assembled_of_assemble {engineVersion : String} {request : DocumentAssembleRequest α}
    (h : ValidRequest request) {rotations : List PageRotation}
    (hlength : rotations.length = request.pages.length)
    (hsizes : ∀ (i : Nat) (rotation : PageRotation) (page : PageArtifact),
      rotations[i]? = some rotation → request.pages[i]? = some page →
      page.width = rotation.workingWidth ∧ page.height = rotation.workingHeight)
    {document : ParsedDocument α} {pages : List (PipelinePageArtifacts α)}
    (hassemble : assemble engineVersion request = some (document, pages)) :
    Assembled rotations document pages := by
  obtain ⟨d, hd, hpages, hblocks, _⟩ := assemble_eq engineVersion h.counts
  obtain ⟨rfl, rfl⟩ := Prod.mk.inj (Option.some.inj (hassemble.symm.trans hd))
  have himages := makeArtifacts_pages h.counts
  refine ⟨?_, ?_, ?_, ?_, ?_, ?_⟩
  · rw [hlength, ← himages, List.length_map]
  · rw [hlength, hpages, List.length_map]
  · rw [hpages, List.map_map]
    refine (List.nodup_map_iff_inj_on h.distinctNumbers.of_map).mpr fun p hp q hq heq => ?_
    exact List.inj_on_of_nodup_map h.distinctNumbers hp hq
      (pageId_inj (h.numbers p hp) (h.numbers q hq) heq)
  · intro block hblock
    have hblockOf := assembleBlocks_blockOf (repeatedFurniture (makeArtifacts request))
      (makeArtifacts request) 0
    rw [← hblocks] at hblockOf
    obtain ⟨i, hi, rfl⟩ := List.mem_iff_getElem.mp hblock
    have hi' := hblockOf.length_eq ▸ hi
    have hsource := (List.forall₂_iff_get.mp hblockOf).2 i hi' hi
    obtain ⟨page, hpage, hmem⟩ := List.mem_flatMap.mp (List.getElem_mem hi')
    obtain ⟨_, _, heq⟩ := List.mem_map.mp hmem
    have hnumber : (makeArtifacts request).map (·.pageNumber) =
        request.pages.map (·.pageNumber) := by
      rw [← himages, List.map_map]
      refine List.map_congr_left fun p hp => ?_
      obtain ⟨q, _, rfl⟩ := List.mem_map.mp hp
      rfl
    have hpageNumber : page.pageNumber ∈ request.pages.map (·.pageNumber) :=
      hnumber ▸ List.mem_map_of_mem hpage
    obtain ⟨artifact, hartifact, hnum⟩ := List.mem_map.mp hpageNumber
    have hid := hsource.pageId
    simp only [List.get_eq_getElem] at hid
    rw [hid, ← heq, hpages, List.map_map]
    exact List.mem_map.mpr ⟨artifact, hartifact, congrArg pageId hnum⟩
  · intro i rotation page hi hpage
    rw [hpages, List.getElem?_map] at hpage
    obtain ⟨artifact, hartifact, rfl⟩ := Option.map_eq_some_iff.mp hpage
    obtain ⟨hwidth, hheight⟩ := hsizes i rotation artifact hi hartifact
    exact ⟨congrArg Double.ofInt hwidth, congrArg Double.ofInt hheight⟩
  · intro i rotation page hi hpage
    refine hsizes i rotation page.image hi ?_
    rw [← himages, List.getElem?_map, hpage]
    rfl

end Blocks

/-! ## Two pages with one running header -/

def runningHeader : DocumentAssembleRequest ℚ where
  sourcePath := "in/report.pdf"
  sourceType := "pdf"
  dpi := 200
  pages := [⟨0, 1, "page_1.png", 100, 60⟩, ⟨1, 2, "page_2.png", 100, 60⟩]
  pageTexts := [
    ⟨0, 1, true, .ocr, [⟨"Report 1", ⟨0, 0, 50, 4⟩, .ocr, 1, []⟩,
      ⟨"body", ⟨0, 9, 50, 14⟩, .ocr, 1, []⟩]⟩,
    ⟨1, 2, true, .ocr, [⟨"report  2", ⟨0, 0, 50, 4⟩, .ocr, 1, []⟩]⟩]
  pageLayouts := [
    ⟨0, 1, [⟨"a", .header, "", "", ⟨0, 0, 50, 4⟩, 1, -1, [0]⟩,
      ⟨"b", .text, "Caption", "c", ⟨0, 9, 50, 14⟩, 1, -1, [1]⟩,
      ⟨"c", .figure, "", "", ⟨0, 20, 50, 40⟩, 1, -1, []⟩]⟩,
    ⟨1, 2, [⟨"a", .header, "", "", ⟨0, 0, 50, 4⟩, 1, -1, [0]⟩]⟩]
  pageReadingOrders := [
    ⟨0, 1, [⟨"c", 2, 0⟩, ⟨"c", 1, 1⟩, ⟨"", 2, 2⟩, ⟨"d", 7, 3⟩], ⟨"", [], [], []⟩⟩,
    ⟨1, 2, [], ⟨"", [], [], []⟩⟩]
  pageTables := [⟨0, 1, []⟩, ⟨1, 2, []⟩]
  sourceSizeBytes := none
  sourceSha256 := ""

theorem assembler_contract_running_header :
    ∃ document, assemble "1.0" runningHeader = some (document, makeArtifacts runningHeader) ∧
      (document.blocks.map (·.id)).Nodup ∧
      validateRelations (document.blocks.map (·.id)) 0 document.relations = .ok () := by
  obtain ⟨document, _, hassemble, _, _, _, hids, _, _, _, hrelations⟩ :=
    assembler_contract "1.0" runningHeader
      ⟨rfl, by decide, by decide, by decide, by decide⟩
  exact ⟨document, hassemble, hids, hrelations⟩

end DocParser.Assembly
