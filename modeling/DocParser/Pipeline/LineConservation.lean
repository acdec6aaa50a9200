import DocParser.Assembly.AssemblerContract
import DocParser.Layout.Recovery
import DocParser.Pipeline.PageStructure

/-!
# No line is lost

A page is recovered, resolved and assembled. `line_conservation`: every line with visible text and
a valid box is in a block of the document, or it was skipped for a reason that the stages name.
-/

namespace DocParser.Pipeline

open Document Layout Assembly

section Pages

variable {α : Type} [Double α]

/-- What the stages before the recovery have found on a page, and its reading order. -/
structure PageInput (α : Type) where
  page : PageArtifact
  text : PageText α
  layout : PageLayout α
  tables : PageTables α
  readingOrder : PageReadingOrder α
  deriving DecidableEq, Repr

/-- A page after the recovery and the resolution. -/
def preparePage (input : PageInput α) : Option (PageInput α) := do
  let (_, recovered) ← recoverUnassignedTextLines input.text input.page input.layout
  let (_, layout, tables) := resolvePageStructure input.text recovered input.tables
  return { input with layout := layout, tables := tables }

/-- The request for a document of some pages. -/
def requestFor (source : DocumentAssembleRequest α) (pages : List (PageInput α)) :
    DocumentAssembleRequest α :=
  { source with
    pages := pages.map (·.page)
    pageTexts := pages.map (·.text)
    pageLayouts := pages.map (·.layout)
    pageReadingOrders := pages.map (·.readingOrder)
    pageTables := pages.map (·.tables) }

def PageInput.artifacts (input : PageInput α) : PipelinePageArtifacts α where
  pageIndex := input.page.pageIndex
  pageNumber := input.page.pageNumber
  image := input.page
  text := input.text
  layout := input.layout
  readingOrder := input.readingOrder
  tables := input.tables

omit [Double α] in
theorem makeArtifacts_requestFor (source : DocumentAssembleRequest α)
    (pages : List (PageInput α)) :
    makeArtifacts (requestFor source pages) = pages.map PageInput.artifacts := by
  unfold makeArtifacts requestFor
  refine List.ext_getElem (by simp) fun i hi hi' => ?_
  simp only [List.getElem_map, List.getElem_zip]
  rfl

omit [Double α] in
theorem requestFor_counts (source : DocumentAssembleRequest α) (pages : List (PageInput α)) :
    hasMatchingPageCounts (requestFor source pages) = true := by
  simp [hasMatchingPageCounts, requestFor]

end Pages

/-! ## Parts of joined lines -/

section JoinedLines

variable {α : Type} {text : PageText α}

theorem infix_joinPart (joined : String) (index : Int) :
    joined.toList <:+: (match lineAt? text index with
      | none => joined
      | some line => appendPart joined line.text).toList := by
  cases lineAt? text index with
  | none => exact List.infix_rfl
  | some line =>
    refine List.IsPrefix.isInfix ?_
    simp only [appendPart, String.toList_append]
    split
    · exact List.prefix_append _ _
    · rw [String.toList_append, List.append_assoc]
      exact List.prefix_append _ _

/-- What is joined stays joined. -/
theorem infix_joinParts (indices : List Int) : ∀ {joined : String} {part : List Char},
    part <:+: joined.toList → part <:+: (indices.foldl (fun joined index =>
      match lineAt? text index with
      | none => joined
      | some line => appendPart joined line.text) joined).toList := by
  induction indices with
  | nil => exact fun h => h
  | cons i indices ih => exact fun hpart => ih (hpart.trans (infix_joinPart _ i))

/-- The text of a line is part of the joined text. -/
theorem infix_joinLines {index : Int} {line : TextLine α} (hline : lineAt? text index = some line)
    {indices : List Int} (h : index ∈ indices) :
    line.text.toList <:+: (joinLines text indices).toList := by
  obtain ⟨front, rest, rfl⟩ := List.append_of_mem h
  unfold joinLines
  rw [List.foldl_append, List.foldl_cons]
  refine infix_joinParts rest ?_
  rw [hline]
  simp only [appendPart, String.toList_append]
  exact (List.suffix_append _ _).isInfix

end JoinedLines

/-! ## Conservation -/

section Conservation

variable {α : Type} [Double α]

/-- A visible line is owned after the resolution or was skipped by the recovery. -/
theorem owned_or_skipped {input page : PageInput α} (h : preparePage input = some page)
    {index : Int} (hrange : inRange input.text index = true)
    (hvisible : hasVisibleLine input.text index = true) :
    index ∈ blockLines page.layout.blocks ∨
      index ∈ skippedFurnitureLines input.text input.layout.blocks ∨
      index ∈ skippedMarginaliaLines input.text input.page input.layout.blocks := by
  unfold preparePage at h
  obtain ⟨⟨stats, recovered⟩, hrecover, hpage⟩ := Option.bind_eq_some_iff.mp h
  obtain rfl := Option.some.inj hpage
  have hresolve := mem_blockLines_resolve input.text recovered input.tables index
  have hlines := (recover_perm hrecover).mem_iff (a := index)
  rw [List.mem_append] at hlines
  by_cases howned : index ∈ blockLines input.layout.blocks
  · exact Or.inl (hresolve.mpr (hlines.mpr (Or.inl howned)))
  · rcases skipped_or_recovered input.page
      (mem_unassignedLines.mpr ⟨hrange, howned, hvisible⟩) with hskip | hskip | hrecovered
    · exact Or.inr (Or.inl hskip)
    · exact Or.inr (Or.inr hskip)
    · exact Or.inl (hresolve.mpr (hlines.mpr (Or.inr hrecovered)))

/-- Pages with lines in range are recovered and resolved. -/
theorem exists_preparePage (inputs : List (PageInput α))
    (h : ∀ input ∈ inputs, ∀ index ∈ blockLines input.layout.blocks,
      inRange input.text index = true) :
    ∃ pages, List.Forall₂ (fun input page => preparePage input = some page) inputs pages := by
  induction inputs with
  | nil => exact ⟨[], .nil⟩
  | cons input inputs ih =>
    obtain ⟨pages, hpages⟩ := ih fun i hi => h i (List.mem_cons_of_mem _ hi)
    obtain ⟨result, hresult⟩ := recover_of_inRange input.page
      (h input (List.mem_cons_self ..))
    exact ⟨_ :: pages, .cons (by unfold preparePage; rw [hresult]; rfl) hpages⟩

theorem preparePage_text {input page : PageInput α} (h : preparePage input = some page) :
    page.text = input.text := by
  unfold preparePage at h
  obtain ⟨_, _, hpage⟩ := Option.bind_eq_some_iff.mp h
  obtain rfl := Option.some.inj hpage
  rfl

/-- Every layout block that is no repeated furniture becomes a block of the document. -/
theorem exists_blockOf {pages : List (PipelinePageArtifacts α)} {page : PipelinePageArtifacts α}
    (hpage : page ∈ pages) {layoutBlock : LayoutBlock α}
    (hblock : layoutBlock ∈ page.layout.blocks)
    (hkept : ¬ RepeatedFurniture pages page layoutBlock) :
    ∃ block ∈ assembleBlocks (repeatedFurniture pages) 0 pages,
      BlockOf (page, layoutBlock) block := by
  obtain ⟨i, hi, rfl⟩ := List.mem_iff_getElem.mp hblock
  have hat : layoutBlockAt page i = page.layout.blocks[i] := by
    rw [layoutBlockAt, List.getD, List.getElem?_eq_getElem hi, Option.getD_some]
  have hincluded : i ∈ includedIndices (repeatedFurniture pages) page := by
    refine List.mem_filter.mpr ⟨?_, ?_⟩
    · exact (orderedLayoutBlockIndices_perm page).mem_iff.mpr (List.mem_range.mpr hi)
    · rw [← repeated_iff, Bool.not_eq_true', Bool.not_eq_false] at hkept
      rwa [hat]
  have hmem : (page, page.layout.blocks[i]) ∈ keptBlocks (repeatedFurniture pages) pages :=
    List.mem_flatMap.mpr ⟨page, hpage, List.mem_map.mpr ⟨i, hincluded, by rw [hat]⟩⟩
  have hblocks := assembleBlocks_blockOf (repeatedFurniture pages) pages 0
  obtain ⟨k, hk, heq⟩ := List.mem_iff_getElem.mp hmem
  have hk' := hblocks.length_eq ▸ hk
  refine ⟨_, List.getElem_mem hk', ?_⟩
  have hget := (List.forall₂_iff_get.mp hblocks).2 k hk hk'
  simp only [List.get_eq_getElem, heq] at hget
  exact hget

omit [Double α] in
theorem RepeatedFurniture.type_eq {pages : List (PipelinePageArtifacts α)}
    {page : PipelinePageArtifacts α} {layoutBlock : LayoutBlock α}
    (h : RepeatedFurniture pages page layoutBlock) :
    layoutBlock.type = .header ∨ layoutBlock.type = .footer := by
  have hsignature := h.1
  unfold furnitureSignature at hsignature
  cases htype : layoutBlock.type with
  | header => exact Or.inl rfl
  | footer => exact Or.inr rfl
  | _ => simp [htype] at hsignature

/-- **Line conservation.** The pages are recovered, resolved and assembled without an error. Then
each line of a page with visible text and a valid box is in a block of the document that comes
from this page, and is part of the text that the block refers to; or the recovery skipped it; or
all its blocks are headers or footers that repeat on other pages. -/
theorem line_conservation (engineVersion : String) (source : DocumentAssembleRequest α)
    (inputs : List (PageInput α))
    (h : ∀ input ∈ inputs, ∀ index ∈ blockLines input.layout.blocks,
      inRange input.text index = true) :
    ∃ pages document,
      List.Forall₂ (fun input page => preparePage input = some page) inputs pages ∧
      assemble engineVersion (requestFor source pages) =
        some (document, pages.map PageInput.artifacts) ∧
      List.Forall₂ (fun input page => ∀ index, inRange input.text index = true →
        hasVisibleLine input.text index = true →
        (∃ layoutBlock ∈ page.layout.blocks, ∃ block ∈ document.blocks,
          BlockOf (page.artifacts, layoutBlock) block ∧ index ∈ block.textLineIndices ∧
          ∃ reference rest, block.sourceRefs = reference :: rest ∧
            (lineAt input.text index).text.toList <:+: reference.text.toList) ∨
        index ∈ skippedFurnitureLines input.text input.layout.blocks ∨
        index ∈ skippedMarginaliaLines input.text input.page input.layout.blocks ∨
        index ∈ blockLines page.layout.blocks ∧
          ∀ layoutBlock ∈ page.layout.blocks, index ∈ layoutBlock.textLineIndices →
            (layoutBlock.type = .header ∨ layoutBlock.type = .footer) ∧
            RepeatedFurniture (pages.map PageInput.artifacts) page.artifacts layoutBlock)
        inputs pages := by
  obtain ⟨pages, hpages⟩ := exists_preparePage inputs h
  obtain ⟨document, hassemble, -, hblocks, -⟩ :=
    assemble_eq engineVersion (requestFor_counts source pages)
  rw [makeArtifacts_requestFor] at hassemble hblocks
  refine ⟨pages, document, hpages, hassemble, ?_⟩
  refine List.forall₂_iff_get.mpr ⟨hpages.length_eq, fun i hi hi' index hrange hvisible => ?_⟩
  have hpage := (List.forall₂_iff_get.mp hpages).2 i hi hi'
  set input := inputs.get ⟨i, hi⟩
  set page := pages.get ⟨i, hi'⟩ with hpageEq
  have hmem : page.artifacts ∈ pages.map PageInput.artifacts :=
    List.mem_map_of_mem (List.get_mem pages _)
  rcases owned_or_skipped hpage hrange hvisible with howned | hskip | hskip
  · by_cases hkept : ∃ layoutBlock ∈ page.layout.blocks, index ∈ layoutBlock.textLineIndices ∧
        ¬ RepeatedFurniture (pages.map PageInput.artifacts) page.artifacts layoutBlock
    · obtain ⟨layoutBlock, hlayoutBlock, hindex, hnot⟩ := hkept
      obtain ⟨block, hblock, hof⟩ := exists_blockOf hmem hlayoutBlock hnot
      rw [← hblocks] at hblock
      refine Or.inl ⟨layoutBlock, hlayoutBlock, block, hblock, hof, ?_, _, _, hof.sourceRefs, ?_⟩
      · rw [hof.textLineIndices]
        exact hindex
      · have hline : lineAt? page.text index = some (lineAt input.text index) := by
          obtain ⟨hnonneg, hlt⟩ := inRange_iff.mp hrange
          rw [preparePage_text hpage, lineAt?, if_neg (by omega), lineAt, List.getD,
            List.getElem?_eq_getElem hlt, Option.getD_some]
        exact infix_joinLines hline hindex
    · refine Or.inr (Or.inr (Or.inr ⟨howned, fun layoutBlock hlayoutBlock hindex => ?_⟩))
      have hrepeated : RepeatedFurniture (pages.map PageInput.artifacts) page.artifacts
          layoutBlock :=
        not_not.mp fun hnot => hkept ⟨layoutBlock, hlayoutBlock, hindex, hnot⟩
      exact ⟨RepeatedFurniture.type_eq hrepeated, hrepeated⟩
  · exact Or.inr (Or.inl hskip)
  · exact Or.inr (Or.inr (Or.inl hskip))

end Conservation

/-! ## A page with a line that no block lists -/

def scannedPage : PageInput ℚ where
  page := ⟨0, 1, "page_1.png", 100, 100⟩
  text := ⟨0, 1, true, .ocr, [⟨"Report", ⟨0, 0, 50, 4⟩, .ocr, 1, []⟩,
    ⟨"body", ⟨0, 40, 50, 44⟩, .ocr, 1, []⟩, ⟨" ", ⟨0, 50, 50, 54⟩, .ocr, 1, []⟩]⟩
  layout := ⟨0, 1, [⟨"a", .header, "", "", ⟨0, 0, 50, 4⟩, 1, -1, [0]⟩]⟩
  tables := ⟨0, 1, []⟩
  readingOrder := ⟨0, 1, [], ⟨"", [], [], []⟩⟩

theorem line_conservation_scanned_page :
    ∃ pages document,
      List.Forall₂ (fun input page => preparePage input = some page) [scannedPage] pages ∧
      assemble "1.0" (requestFor runningHeader pages) =
        some (document, pages.map PageInput.artifacts) := by
  obtain ⟨pages, document, hpages, hassemble, -⟩ :=
    line_conservation "1.0" runningHeader [scannedPage] (by decide)
  exact ⟨pages, document, hpages, hassemble⟩

end DocParser.Pipeline
