import Mathlib.Data.List.Nodup
import DocParser.Export.JsonDocument

/-!
# The contract of the JSON exporter

`Contract` speaks of the emitted value alone, as a consumer reads it. `json_contract` says that a
document that is serialized at all is serialized to a value that keeps it: part of it is due to
the validator, the rest to the emitting functions, which drop what does not fit.
-/

namespace DocParser.Export

open Document

/-! ## Reading a manifest -/

section Reading

variable {α : Type}

/-- The rows of the table of an emitted block. -/
def rowsOf (block : Json α) : List (Json α) := ((block.field "table").map (Json.list "rows")).getD []

/-- The cells of the table of an emitted block. -/
def cellsOf (block : Json α) : List (Json α) := (rowsOf block).flatMap (Json.list "cells")

/-- All source references in an emitted block. -/
def referencesOf (block : Json α) : List (Json α) :=
  block.list "source_refs" ++ (cellsOf block).flatMap (Json.list "source_refs")

/-- The value, if it is there, is the id of an emitted page. -/
def NamesPage (manifest : Json α) (pageId : Option (Json α)) : Prop :=
  ∀ v, pageId = some v → ∃ page ∈ manifest.list "pages", page.field "id" = some v

/-- The value, if it is there, is the id of an emitted block. -/
def NamesBlock (manifest : Json α) (blockId : Option (Json α)) : Prop :=
  ∀ v, blockId = some v → ∃ block ∈ manifest.list "blocks", block.field "id" = some v

variable [Double α]

/-- The box, if it is there, has a positive area within the emitted page with the id. -/
def FitsPage (manifest : Json α) (pageId bbox : Option (Json α)) : Prop :=
  ∀ v, bbox = some v → ∃ page ∈ manifest.list "pages", ∃ id width height x0 y0 x1 y1,
    pageId = some id ∧ page.field "id" = some id ∧ page.field "width" = some (.number width) ∧
    page.field "height" = some (.number height) ∧
    v = .array [.number x0, .number y0, .number x1, .number y1] ∧
    0 ≤ x0 ∧ x0 < x1 ∧ x1 ≤ width ∧ 0 ≤ y0 ∧ y0 < y1 ∧ y1 ≤ height

/-- The score, if it is there, lies between 0 and 1. -/
def ScoreInRange (score : Option (Json α)) : Prop :=
  ∀ v, score = some v → ∃ s, v.field "value" = some (.number s) ∧ 0 ≤ s ∧ s ≤ 1

/-- How often a warning occurred: once when it does not say. -/
def Occurrences (warning : Json α) (n : Int) : Prop :=
  warning.field "occurrence_count" = some (.int n) ∨
    warning.field "occurrence_count" = none ∧ n = 1

/-- The contract of an emitted manifest. -/
structure Contract (manifest : Json α) : Prop where
  pageIds : ((manifest.list "pages").map (Json.field "id")).Nodup
  blockIds : ((manifest.list "blocks").map (Json.field "id")).Nodup
  blockPages : ∀ block ∈ manifest.list "blocks", NamesPage manifest (block.field "page_id")
  references : ∀ block ∈ manifest.list "blocks", ∀ ref ∈ referencesOf block,
    (∃ id, ref.field "page_id" = some id) ∧ NamesPage manifest (ref.field "page_id") ∧
      FitsPage manifest (ref.field "page_id") (ref.field "bbox")
  boxes : ∀ block ∈ manifest.list "blocks",
    ∀ part ∈ block :: (rowsOf block ++ cellsOf block),
      FitsPage manifest (block.field "page_id") (part.field "bbox")
  scores : ∀ block ∈ manifest.list "blocks", ∀ part ∈ block :: cellsOf block,
    ScoreInRange (part.field "score")
  relations : ∀ relation ∈ manifest.list "relations",
    ∃ fromId toId, relation.field "from_block_id" = some (.string fromId) ∧
      relation.field "to_block_id" = some (.string toId) ∧ fromId ≠ toId ∧
      NamesBlock manifest (relation.field "from_block_id") ∧
      NamesBlock manifest (relation.field "to_block_id")
  warningPlaces : ∀ warning ∈ manifest.list "warnings",
    NamesPage manifest (warning.field "page_id") ∧
      NamesBlock manifest (warning.field "block_id") ∧
      ∀ id ∈ warning.list "page_ids", NamesPage manifest (some id)
  warningPages : ∀ warning ∈ manifest.list "warnings", (warning.list "page_ids").Nodup ∧
    ∃ n, Occurrences warning n ∧ (warning.list "page_ids").length ≤ n
  explained : manifest.field "status" = some (.string "partial") → manifest.list "warnings" ≠ []

end Reading

/-! ## What the parts emit -/

section Parts

variable {α : Type} [Double α] {document : ParsedDocument α}

theorem list_pages : (manifestToJson document).list "pages" = document.pages.map pageToJson := by
  refine Json.list_of_field ?_
  unfold manifestToJson
  rw [Json.field_setIf_ne (by decide)]
  simp [pagesToJson]

theorem list_blocks : (manifestToJson document).list "blocks" =
    document.blocks.map (documentBlockToJson (pageLookup document.pages)) := by
  refine Json.list_of_field ?_
  unfold manifestToJson
  rw [Json.field_setIf_ne (by decide)]
  simp [documentBlocksToJson]

theorem list_warnings : (manifestToJson document).list "warnings" =
    document.warnings.map warningToJson := by
  refine Json.list_of_field ?_
  unfold manifestToJson
  rw [Json.field_setIf_ne (by decide)]
  simp [warningsToJson]

theorem field_status : (manifestToJson document).field "status" =
    some (.string (documentStatusToString document.status)) := by
  unfold manifestToJson
  rw [Json.field_setIf_ne (by decide)]
  simp

theorem list_relations : (manifestToJson document).list "relations" =
    document.relations.map relationToJson :=
  Json.list_setIf_self (by simp) (by simp) (by simp)

variable {pages : PageLookup α}

omit [Double α] in
theorem page_fields (page : DocumentPage α) :
    (pageToJson page).field "id" = some (.string page.id) ∧
      (pageToJson page).field "width" = some (.number page.width) ∧
      (pageToJson page).field "height" = some (.number page.height) := by
  unfold pageToJson
  simp [Json.field_setIf_ne]

theorem block_id (block : DocumentBlock α) :
    (documentBlockToJson pages block).field "id" = some (.string block.id) := by
  simp [documentBlockToJson, Json.field_setIf_ne]

theorem block_page (block : DocumentBlock α) :
    (documentBlockToJson pages block).field "page_id" =
      if !(resolvedPageId block.pageId block.pageNumber pages).isEmpty then
        some (.string (resolvedPageId block.pageId block.pageNumber pages))
      else none := by
  simp only [documentBlockToJson]
  repeat rw [Json.field_setIf_ne (by decide)]
  exact Json.field_setIf_self (by simp) (by simp) _ _

theorem block_bbox (block : DocumentBlock α) :
    (documentBlockToJson pages block).field "bbox" =
      if !(resolvedPageId block.pageId block.pageNumber pages).isEmpty &&
        bboxFitsPage block.bbox (resolvedPageId block.pageId block.pageNumber pages) pages then
        some (bboxToJson block.bbox)
      else none := by
  simp only [documentBlockToJson]
  repeat rw [Json.field_setIf_ne (by decide)]
  exact Json.field_setIf_self (by simp) (by simp [Json.field_setIf_ne]) _ _

theorem block_score (block : DocumentBlock α) :
    (documentBlockToJson pages block).field "score" =
      if isScore block.confidence then some (scoreToJson block.confidence "model_score")
      else none := by
  simp only [documentBlockToJson]
  repeat rw [Json.field_setIf_ne (by decide)]
  exact Json.field_setIf_self (by simp) (by simp [Json.field_setIf_ne]) _ _

theorem block_references (block : DocumentBlock α) :
    (documentBlockToJson pages block).list "source_refs" =
      sourceRefsToJson block.sourceRefs pages := by
  simp only [documentBlockToJson]
  repeat rw [Json.list_setIf_ne (by decide)]
  exact Json.list_setIf_self (by simp) (by simp [Json.field_setIf_ne]) (by simp)

theorem table_rows (block : DocumentBlock α) (pageId : String) :
    (tableToJson block pageId pages).list "rows" =
      block.tableRows.map (tableRowToJson pageId pages) := by
  simp only [tableToJson]
  repeat rw [Json.list_setIf_ne (by decide)]
  exact Json.list_of_field (by simp [tableRowsToJson])

theorem rowsOf_block (block : DocumentBlock α) :
    rowsOf (documentBlockToJson pages block) = block.tableRows.map
      (tableRowToJson (resolvedPageId block.pageId block.pageNumber pages) pages) := by
  unfold rowsOf
  simp only [documentBlockToJson]
  rw [Json.field_setIf_self (by simp) (by simp [Json.field_setIf_ne])]
  split
  · exact table_rows block _
  next h =>
    have hrows : block.tableRows = [] := by
      simp only [Bool.or_eq_true, not_or, Bool.not_eq_true, Bool.not_eq_false'] at h
      exact List.isEmpty_iff.mp h.2
    rw [hrows]
    rfl

theorem row_bbox (pageId : String) (row : TableRow α) :
    (tableRowToJson pageId pages row).field "bbox" =
      if bboxFitsPage row.bbox pageId pages then some (bboxToJson row.bbox) else none :=
  Json.field_setIf_self (by simp) (by simp) _ _

theorem row_cells (pageId : String) (row : TableRow α) :
    (tableRowToJson pageId pages row).list "cells" =
      row.cells.map (tableCellToJson pageId pages) := by
  unfold tableRowToJson
  rw [Json.list_setIf_ne (by decide)]
  exact Json.list_of_field (by simp)

theorem cellsOf_block (block : DocumentBlock α) :
    cellsOf (documentBlockToJson pages block) = (block.tableRows.flatMap (·.cells)).map
      (tableCellToJson (resolvedPageId block.pageId block.pageNumber pages) pages) := by
  unfold cellsOf
  rw [rowsOf_block, List.flatMap_map, List.map_flatMap]
  exact List.flatMap_congr fun row _ => row_cells _ row

theorem cell_bbox (pageId : String) (cell : TableCell α) :
    (tableCellToJson pageId pages cell).field "bbox" =
      if bboxFitsPage cell.bbox pageId pages then some (bboxToJson cell.bbox) else none := by
  simp only [tableCellToJson]
  repeat rw [Json.field_setIf_ne (by decide)]
  exact Json.field_setIf_self (by simp) (by simp) _ _

theorem cell_score (pageId : String) (cell : TableCell α) :
    (tableCellToJson pageId pages cell).field "score" =
      if isScore cell.confidence then some (scoreToJson cell.confidence "model_score")
      else none := by
  simp only [tableCellToJson]
  rw [Json.field_setIf_ne (by decide)]
  exact Json.field_setIf_self (by simp) (by simp [Json.field_setIf_ne]) _ _

theorem cell_references (pageId : String) (cell : TableCell α) :
    (tableCellToJson pageId pages cell).list "source_refs" =
      sourceRefsToJson cell.sourceRefs pages :=
  Json.list_setIf_self (by simp) (by simp [Json.field_setIf_ne]) (by simp)

/-- The references in a block are those of the model whose page is declared. -/
theorem mem_referencesOf {block : DocumentBlock α} {ref : Json α}
    (h : ref ∈ referencesOf (documentBlockToJson pages block)) :
    ∃ r : SourceReference α, r.pageId ∈ pages.ids ∧ ref = sourceRefToJson pages r := by
  have hrefs : ∀ {refs : List (SourceReference α)}, ref ∈ sourceRefsToJson refs pages →
      ∃ r : SourceReference α, r.pageId ∈ pages.ids ∧ ref = sourceRefToJson pages r := by
    intro refs href
    obtain ⟨r, hr, rfl⟩ := List.mem_map.mp href
    exact ⟨r, by simpa using (List.mem_filter.mp hr).2, rfl⟩
  rcases List.mem_append.mp h with h | h
  · rw [block_references] at h
    exact hrefs h
  · rw [cellsOf_block, List.flatMap_map] at h
    obtain ⟨cell, _, hcell⟩ := List.mem_flatMap.mp h
    rw [cell_references] at hcell
    exact hrefs hcell

theorem reference_page (r : SourceReference α) :
    (sourceRefToJson pages r).field "page_id" = some (.string r.pageId) := by
  simp [sourceRefToJson, Json.field_setIf_ne]

theorem reference_bbox (r : SourceReference α) :
    (sourceRefToJson pages r).field "bbox" =
      if bboxFitsPage r.bbox r.pageId pages then some (bboxToJson r.bbox) else none := by
  unfold sourceRefToJson
  rw [Json.field_setIf_ne (by decide)]
  exact Json.field_setIf_self (by simp) (by simp) _ _

omit [Double α] in
theorem relation_ends (relation : DocumentRelation) :
    (relationToJson relation : Json α).field "from_block_id" =
        some (.string relation.fromBlockId) ∧
      (relationToJson relation : Json α).field "to_block_id" =
        some (.string relation.toBlockId) := by
  unfold relationToJson
  simp [Json.field_setIf_ne]

omit [Double α] in
theorem warning_page (warning : DocumentWarning) :
    (warningToJson warning : Json α).field "page_id" =
      if !warning.pageId.isEmpty then some (.string warning.pageId) else none := by
  simp only [warningToJson]
  repeat rw [Json.field_setIf_ne (by decide)]
  exact Json.field_setIf_self (by simp) (by simp [Json.field_setIf_ne]) _ _

omit [Double α] in
theorem warning_block (warning : DocumentWarning) :
    (warningToJson warning : Json α).field "block_id" =
      if !warning.blockId.isEmpty then some (.string warning.blockId) else none := by
  simp only [warningToJson]
  repeat rw [Json.field_setIf_ne (by decide)]
  exact Json.field_setIf_self (by simp) (by simp [Json.field_setIf_ne]) _ _

omit [Double α] in
theorem warning_occurrences (warning : DocumentWarning) :
    (warningToJson warning : Json α).field "occurrence_count" =
      if decide (1 < warning.occurrenceCount) then some (.int warning.occurrenceCount)
      else none := by
  simp only [warningToJson]
  repeat rw [Json.field_setIf_ne (by decide)]
  exact Json.field_setIf_self (by simp) (by simp [Json.field_setIf_ne]) _ _

omit [Double α] in
theorem warning_pages (warning : DocumentWarning) :
    (warningToJson warning : Json α).list "page_ids" = warning.pageIds.map .string := by
  simp only [warningToJson]
  rw [Json.list_setIf_ne (by decide)]
  exact Json.list_setIf_self (by simp) (by simp [Json.field_setIf_ne]) (by simp)

/-! ## The references resolve -/

theorem namesPage_of_mem {id : String} (h : id ∈ document.pages.map (·.id)) :
    NamesPage (manifestToJson document) (some (.string id)) := by
  intro v hv
  obtain rfl := Option.some.inj hv
  obtain ⟨page, hpage, rfl⟩ := List.mem_map.mp h
  exact ⟨pageToJson page, by rw [list_pages]; exact List.mem_map_of_mem hpage,
    (page_fields page).1⟩

theorem namesBlock_of_mem {id : String} (h : id ∈ document.blocks.map (·.id)) :
    NamesBlock (manifestToJson document) (some (.string id)) := by
  intro v hv
  obtain rfl := Option.some.inj hv
  obtain ⟨block, hblock, rfl⟩ := List.mem_map.mp h
  exact ⟨documentBlockToJson (pageLookup document.pages) block,
    by rw [list_blocks]; exact List.mem_map_of_mem hblock, block_id block⟩

omit [Double α] in
/-- A resolved page id that is not empty is that of a declared page. -/
theorem resolvedPageId_mem {declared : List (DocumentPage α)} {pageId : String}
    {pageNumber : Int} (h : (resolvedPageId pageId pageNumber (pageLookup declared)) ≠ "") :
    resolvedPageId pageId pageNumber (pageLookup declared) ∈ declared.map (·.id) := by
  unfold resolvedPageId at *
  split at h
  next hc =>
    rw [if_pos hc]
    simp only [Bool.and_eq_true, List.contains_iff_mem] at hc
    exact hc.2
  next hc =>
    rw [if_neg hc]
    cases hlookup : (pageLookup declared).idsByNumber.lookup pageNumber with
    | none => rw [hlookup] at h; exact absurd rfl h
    | some id =>
      obtain ⟨_, _, heq, _⟩ := List.lookup_eq_some_iff.mp hlookup
      have hmem : (pageNumber, id) ∈ (pageLookup declared).idsByNumber := by
        rw [heq]
        simp
      obtain ⟨page, hpage, hp⟩ := List.mem_map.mp hmem
      exact List.mem_map.mpr ⟨page, hpage, (Prod.mk.inj hp).2⟩

/-- A box that fits is emitted within the page that it refers to. -/
theorem fitsPage_of_fits {bbox : BBox α} {id : String}
    (h : bboxFitsPage bbox id (pageLookup document.pages) = true) :
    FitsPage (manifestToJson document) (some (.string id)) (some (bboxToJson bbox)) := by
  unfold bboxFitsPage at h
  split at h
  · cases h
  next width height hlookup =>
    obtain ⟨_, _, heq, _⟩ := List.lookup_eq_some_iff.mp hlookup
    have hmem : (id, width, height) ∈ (pageLookup document.pages).dimensionsById := by
      rw [heq]
      simp
    obtain ⟨page, hpage, hp⟩ := List.mem_map.mp hmem
    obtain ⟨rfl, hsize⟩ := Prod.mk.inj hp
    obtain ⟨rfl, rfl⟩ := Prod.mk.inj hsize
    unfold hasPositiveArea at h
    simp only [Bool.and_eq_true, decide_eq_true_eq] at h
    obtain ⟨⟨⟨⟨⟨⟨_, hx0⟩, hy0⟩, hx⟩, hy⟩, hx1⟩, hy1⟩ := h
    intro v hv
    obtain rfl := Option.some.inj hv
    obtain ⟨hid, hwidth, hheight⟩ := page_fields page
    exact ⟨pageToJson page, by rw [list_pages]; exact List.mem_map_of_mem hpage, _, _, _, _, _, _,
      _, rfl, hid, hwidth, hheight, rfl, hx0, hx, hx1, hy0, hy, hy1⟩

theorem fitsPage_none (pageId : Option (Json α)) :
    FitsPage (manifestToJson document) pageId none := fun _ hv => by cases hv

/-- A box that is emitted only where it fits keeps the box law. -/
theorem fitsPage_if {bbox : BBox α} {id : String} :
    FitsPage (manifestToJson document) (some (.string id))
      (if bboxFitsPage bbox id (pageLookup document.pages) then some (bboxToJson bbox)
      else none) := by
  split
  next h => exact fitsPage_of_fits h
  · exact fitsPage_none _

theorem scoreInRange_if (value : α) :
    ScoreInRange (if isScore value then some (scoreToJson value "model_score") else none) := by
  intro v hv
  split at hv
  next h =>
    obtain rfl := Option.some.inj hv
    unfold isScore at h
    simp only [Bool.and_eq_true, decide_eq_true_eq] at h
    exact ⟨value, by simp [scoreToJson], h.1.2, h.2⟩
  · cases hv

/-- A box in a block keeps the box law on the page of the block, if the block has one. -/
theorem fitsPage_in_block (hid : ∀ page ∈ document.pages, page.id ≠ "") (block : DocumentBlock α)
    (bbox : BBox α) :
    FitsPage (manifestToJson document)
      ((documentBlockToJson (pageLookup document.pages) block).field "page_id")
      (if bboxFitsPage bbox (resolvedPageId block.pageId block.pageNumber
          (pageLookup document.pages)) (pageLookup document.pages) then some (bboxToJson bbox)
        else none) := by
  rw [block_page]
  by_cases hempty : resolvedPageId block.pageId block.pageNumber (pageLookup document.pages) = ""
  · -- no page has an empty id, so nothing fits
    have hno : bboxFitsPage bbox "" (pageLookup document.pages) = false := by
      unfold bboxFitsPage
      have hlookup : (pageLookup document.pages).dimensionsById.lookup "" = none := by
        refine List.lookup_eq_none_iff.mpr fun p hp => ?_
        obtain ⟨page, hpage, rfl⟩ := List.mem_map.mp hp
        simpa using (hid page hpage).symm
      rw [hlookup]
    rw [hempty, hno]
    exact fitsPage_none _
  · rw [if_pos (by simpa using hempty)]
    exact fitsPage_if

end Parts

/-! ## The contract -/

section Soundness

variable {α : Type} [Double α] {document : ParsedDocument α}

theorem list_page_ids : ((manifestToJson document).list "pages").map (Json.field "id") =
    (document.pages.map (·.id)).map fun id => some (.string id) := by
  rw [list_pages, List.map_map, List.map_map]
  exact List.map_congr_left fun page _ => (page_fields page).1

/-- **The manifest** of a valid document keeps the contract. -/
theorem contract_of_valid (h : ValidCoreModel document) : Contract (manifestToJson document) where
  pageIds := by
    rw [list_page_ids]
    exact List.Nodup.map (fun a b hab => by simpa using hab) h.pageIds
  blockIds := by
    have hmap : (document.blocks.map (documentBlockToJson (pageLookup document.pages))).map
        (Json.field "id") = (document.blocks.map (·.id)).map fun id => some (.string id) := by
      rw [List.map_map, List.map_map]
      exact List.map_congr_left fun block _ => block_id block
    rw [list_blocks, hmap]
    exact List.Nodup.map (fun a b hab => by simpa using hab) h.blockIds
  blockPages := by
    rw [list_blocks, List.forall_mem_map]
    intro block _
    rw [block_page]
    split
    next hne => exact namesPage_of_mem (resolvedPageId_mem (by simpa using hne))
    · exact fun _ hv => by cases hv
  references := by
    rw [list_blocks, List.forall_mem_map]
    intro block _ ref href
    obtain ⟨r, hr, rfl⟩ := mem_referencesOf href
    rw [reference_page, reference_bbox]
    exact ⟨⟨_, rfl⟩, namesPage_of_mem hr, fitsPage_if⟩
  boxes := by
    have hid : ∀ page ∈ document.pages, page.id ≠ "" := fun page hpage => (h.pages page hpage).id
    rw [list_blocks, List.forall_mem_map]
    intro block _ part hpart
    rcases List.mem_cons.mp hpart with rfl | hpart
    · have hblock := fitsPage_in_block hid block block.bbox
      rw [block_bbox]
      intro v hv
      split at hv
      next hc =>
        rw [Bool.and_eq_true] at hc
        rw [if_pos hc.2] at hblock
        exact hblock v hv
      · cases hv
    rcases List.mem_append.mp hpart with hpart | hpart
    · rw [rowsOf_block] at hpart
      obtain ⟨row, _, rfl⟩ := List.mem_map.mp hpart
      rw [row_bbox]
      exact fitsPage_in_block hid block row.bbox
    · rw [cellsOf_block] at hpart
      obtain ⟨cell, _, rfl⟩ := List.mem_map.mp hpart
      rw [cell_bbox]
      exact fitsPage_in_block hid block cell.bbox
  scores := by
    rw [list_blocks, List.forall_mem_map]
    intro block _ part hpart
    rcases List.mem_cons.mp hpart with rfl | hpart
    · rw [block_score]
      exact scoreInRange_if _
    · rw [cellsOf_block] at hpart
      obtain ⟨cell, _, rfl⟩ := List.mem_map.mp hpart
      rw [cell_score]
      exact scoreInRange_if _
  relations := by
    rw [list_relations, List.forall_mem_map]
    intro relation hrelation
    obtain ⟨hfrom, hto⟩ := relation_ends (α := α) relation
    have hvalid := h.relations relation hrelation
    rw [hfrom, hto]
    exact ⟨_, _, rfl, rfl, hvalid.different, namesBlock_of_mem hvalid.fromBlock,
      namesBlock_of_mem hvalid.toBlock⟩
  warningPlaces := by
    rw [list_warnings, List.forall_mem_map]
    intro warning hwarning
    have hvalid := h.warnings warning hwarning
    rw [warning_page, warning_block, warning_pages]
    refine ⟨?_, ?_, ?_⟩
    · split
      next hne => exact namesPage_of_mem (hvalid.page (by simpa using hne))
      · exact fun _ hv => by cases hv
    · split
      next hne => exact namesBlock_of_mem (hvalid.block (by simpa using hne))
      · exact fun _ hv => by cases hv
    · rw [List.forall_mem_map]
      exact fun id hid => namesPage_of_mem (hvalid.pages id hid)
  warningPages := by
    rw [list_warnings, List.forall_mem_map]
    intro warning hwarning
    have hvalid := h.warnings warning hwarning
    rw [warning_pages, List.length_map]
    refine ⟨List.Nodup.map (fun a b hab => by simpa using hab) hvalid.pagesOnce,
      warning.occurrenceCount, ?_, by exact_mod_cast hvalid.enough⟩
    unfold Occurrences
    rw [warning_occurrences]
    by_cases hone : 1 < warning.occurrenceCount
    · exact Or.inl (by simp [hone])
    · have hoccurs := hvalid.occurs
      exact Or.inr ⟨by simp [hone], by omega⟩
  explained := by
    rw [field_status, list_warnings]
    intro hstatus
    have hpartial : document.status = .partially := by
      cases hs : document.status with
      | partially => rfl
      | complete => rw [hs] at hstatus; simp [documentStatusToString] at hstatus
    simpa using h.explained hpartial

/-- **JSON contract.** What is serialized without debug data is the text of the manifest of the
document. It declares the pages of the document and keeps the contract. -/
theorem json_contract (dump : Json α → Except String String)
    (document : Option (ParsedDocument α)) (text : String)
    (h : serialize dump document = .ok text) :
    ∃ d, document = some d ∧ dump (manifestToJson d) = .ok text ∧
      ((manifestToJson d).list "pages").map (Json.field "id") =
        d.pages.map (fun page => some (.string page.id)) ∧
      Contract (manifestToJson d) := by
  obtain ⟨d, hd, hvalid, hdump⟩ := serialize_ok h
  refine ⟨d, hd, hdump, ?_, contract_of_valid hvalid⟩
  rw [list_page_ids, List.map_map]
  rfl

end Soundness

/-! ## A document of one line -/

def oneLine : ParsedDocument ℚ where
  source := ⟨"", "pdf", "", "", none, ""⟩
  dpi := 0
  blocks := [⟨"b", .paragraph, "", "", 0, 1, ⟨1, 2, 3, 4⟩, 2, "line", [0], "", "", false, false, [],
    "", [⟨"other", ⟨1, 2, 3, 4⟩, "line", .ocr⟩]⟩]
  documentId := ""
  status := .complete
  producer := ⟨"", "", "", ""⟩
  pages := [⟨"p", 1, 100, 60, "", "", ""⟩]
  relations := []
  warnings := []

/-- What `dump(2)` writes for it. The score 2 and the reference to another page are dropped. -/
def oneLineText : String :=
  "\x7b\n  \"$schema\": " ++
    "\"https://github.com/ChNanAn/technical-doc-parser/schemas/document.v1.schema.json\"," ++
  "\n  \"blocks\": [\n    \x7b\n      \"bbox\": [\n        1.0,\n        2.0,\n        3.0,\n" ++
  "        4.0\n      ],\n      \"id\": \"b\",\n      \"page_id\": \"p\",\n" ++
  "      \"text\": \"line\",\n      \"type\": \"paragraph\"\n    \x7d\n  ],\n" ++
  "  \"coordinate_space\": \x7b\n    \"bbox_format\": \"xyxy\",\n" ++
  "    \"origin\": \"top_left\",\n    \"unit\": \"pixel\"\n  \x7d,\n" ++
  "  \"document_id\": \"document\",\n  \"pages\": [\n    \x7b\n      \"height\": 60.0,\n" ++
  "      \"id\": \"p\",\n      \"number\": 1,\n      \"width\": 100.0\n    \x7d\n  ],\n" ++
  "  \"producer\": \x7b\n    \"name\": \"technical-doc-parser\",\n" ++
  "    \"version\": \"unknown\"\n  \x7d,\n  \"schema_version\": 1,\n" ++
  "  \"source\": \x7b\n    \"media_type\": \"application/pdf\"\n  \x7d,\n" ++
  "  \"status\": \"complete\",\n  \"warnings\": []\n\x7d"

theorem json_contract_one_line :
    ∃ d, some oneLine = some d ∧ (Except.ok oneLineText : Except String String) = .ok oneLineText ∧
      ((manifestToJson d).list "pages").map (Json.field "id") =
        d.pages.map (fun page => some (.string page.id)) ∧
      Contract (manifestToJson d) :=
  json_contract (fun _ => .ok oneLineText) (some oneLine) oneLineText rfl

end DocParser.Export
