import DocParser.Common.Status
import DocParser.Layout.Recovery
import DocParser.Pipeline.PageStructure

/-!
# The table recognition stage

A table that names no free block of the layout gets a block of its own, which lists the lines that
its box covers; blocks that list them already keep them. `single_ownership` bounds how often a line
is listed when the page has been recovered and resolved.
-/

namespace DocParser.Pipeline

open Document Layout

section Definitions

variable {α : Type} [Double α]

def lineCoverage (line table : BBox α) : α := overlapOverLine line table

/-- A box that covers half of a line. -/
def coversLine (text : PageText α) (bbox : BBox α) (index : Int) : Bool :=
  decide (0.5 ≤ lineCoverage (lineBBox text index) bbox)

structure Attachment (α : Type) where
  blocks : List (LayoutBlock α)
  assignedLayoutBlocks : List String
  tables : List (Table α)

/-- The block that a table names, if no earlier table has taken it. -/
def freeBlock (s : Attachment α) (table : Table α) : Option (LayoutBlock α) :=
  match s.blocks.find? fun block =>
      !table.layoutBlockId.isEmpty && block.id == table.layoutBlockId with
  | none => none
  | some existing => if s.assignedLayoutBlocks.contains existing.id then none else some existing

/-- A block of its own for a table, behind `blockCount` others. -/
def detectedBlock (text : PageText α) (pageNumber : Int) (blockCount : Nat) (table : Table α) :
    LayoutBlock α where
  id := "page_" ++ toString pageNumber ++ "_block_" ++ toString (blockCount + 1)
  type := .table
  sourceLabel := if table.sourceLabel.isEmpty then "table detector" else table.sourceLabel
  relatedBlockId := ""
  bbox := table.bbox
  confidence := table.confidence
  readingOrderHint := -1
  textLineIndices := ((List.range text.lines.length).map Int.ofNat).filter (coversLine text table.bbox)

def attachTable (text : PageText α) (pageNumber : Int) (s : Attachment α) (table : Table α) :
    Attachment α :=
  match freeBlock s table with
  | some existing =>
    { s with
      assignedLayoutBlocks := existing.id :: s.assignedLayoutBlocks
      tables := s.tables ++ [table] }
  | none =>
    let block := detectedBlock text pageNumber s.blocks.length table
    { blocks := s.blocks ++ [block]
      assignedLayoutBlocks := block.id :: s.assignedLayoutBlocks
      tables := s.tables ++ [{ table with layoutBlockId := block.id }] }

def attachDetectedTables (text : PageText α) (layout : PageLayout α) (tables : PageTables α) :
    PageLayout α × PageTables α :=
  let attached := tables.tables.foldl (attachTable text layout.pageNumber) ⟨layout.blocks, [], []⟩
  ({ layout with blocks := attached.blocks }, { tables with tables := attached.tables })

/-- What `ITableBackend::recognize` finds on a page, or `none` when it fails. -/
abbrev RecognizeTables (α : Type) :=
  PageArtifact → PageText α → PageLayout α → Option (PageTables α × List Diagnostic)

/-- `recognizePage`. `none` is a recovery that reads a line that there is not. -/
def recognizePage (recognize : RecognizeTables α) (page : PageArtifact) (text : PageText α)
    (layout : PageLayout α) :
    Option (Except Status (PageTables α × List Diagnostic × PageLayout α)) :=
  match recognize page text layout with
  | none => some (.error (.error "table.recognition_failed"
      ("table recognition failed for page " ++ toString page.pageNumber)))
  | some (tables, diagnostics) =>
    let (attached, tables) := attachDetectedTables text layout tables
    match recoverUnassignedTextLines text page attached with
    | none => none
    | some (_, recovered) =>
      let (_, layout, tables) := resolvePageStructure text recovered tables
      some (.ok (tables, diagnostics, layout))

/-! ## Links between pages -/

def continuationCandidate (previous : Table α) (previousPage : PageArtifact) (next : Table α)
    (nextPage : PageArtifact) : Bool :=
  if previousPage.height ≤ 0 ∨ nextPage.height ≤ 0 ∨ previousPage.width ≤ 0 ∨ nextPage.width ≤ 0
  then false
  else
    let touchesBottom := decide (Double.ofInt previousPage.height * 0.82 ≤ previous.bbox.y1)
    let touchesTop := decide (next.bbox.y0 ≤ Double.ofInt nextPage.height * 0.18)
    let left := previous.bbox.x0 / Double.ofInt previousPage.width -
      next.bbox.x0 / Double.ofInt nextPage.width
    let right := previous.bbox.x1 / Double.ofInt previousPage.width -
      next.bbox.x1 / Double.ofInt nextPage.width
    let aligned := decide (Double.abs left ≤ 0.08) && decide (Double.abs right ≤ 0.08)
    let compatibleColumns := previous.columns.isEmpty || next.columns.isEmpty ||
      previous.columns.length == next.columns.length
    touchesBottom && touchesTop && aligned && compatibleColumns

/-- The table at an index of its page, linked to the next page. -/
def linkPrevious (index : Nat) (previous : Table α) : Table α :=
  { previous with
    continuationGroupId :=
      if previous.continuationGroupId.isEmpty then
        "table_group_page_" ++ toString previous.pageNumber ++ "_" ++ toString (index + 1)
      else previous.continuationGroupId
    continuesOnNextPage := true }

def linkNext (previous next : Table α) : Table α :=
  { next with
    continuationGroupId := previous.continuationGroupId
    continuesFromPreviousPage := true }

/-- The tables of a page from `index` on, each linked to the first table that may continue it. -/
def linkTables (previousPage nextPage : PageArtifact) :
    Nat → List (Table α) → List (Table α) → List (Table α) × List (Table α)
  | _, [], next => ([], next)
  | index, previous :: rest, next =>
    match next.findIdx? fun table => continuationCandidate previous previousPage table nextPage with
    | none =>
      let (rest, next) := linkTables previousPage nextPage (index + 1) rest next
      (previous :: rest, next)
    | some target =>
      let previous := linkPrevious index previous
      let (rest, next) := linkTables previousPage nextPage (index + 1) rest
        (next.modify target (linkNext previous))
      (previous :: rest, next)

def linkCrossPageTables : List PageArtifact → List (PageTables α) → List (PageTables α)
  | previousPage :: nextPage :: pages, previous :: next :: tables =>
    let (previousTables, nextTables) :=
      linkTables previousPage nextPage 0 previous.tables next.tables
    { previous with tables := previousTables } ::
      linkCrossPageTables (nextPage :: pages) ({ next with tables := nextTables } :: tables)
  | _, tables => tables

def linkPages (pages : List PageArtifact) (tables : List (PageTables α)) :
    Except Status (List (PageTables α)) :=
  if pages.length ≠ tables.length then
    .error (.error "table.page_count_mismatch" "page and table counts must match before linking")
  else .ok (linkCrossPageTables pages tables)

end Definitions

/-! ## Owners of a line -/

section Owners

variable {α : Type} [Double α] {text : PageText α}

/-- The tables that get a block of their own. -/
def detachedTables (text : PageText α) (pageNumber : Int) :
    Attachment α → List (Table α) → List (Table α)
  | _, [] => []
  | s, table :: rest =>
    (if (freeBlock s table).isNone then [table] else []) ++
      detachedTables text pageNumber (attachTable text pageNumber s table) rest

variable (text) in
theorem count_detectedBlock (pageNumber : Int) (blockCount : Nat) (table : Table α) (line : Int) :
    (detectedBlock text pageNumber blockCount table).textLineIndices.count line ≤
      if coversLine text table.bbox line then 1 else 0 := by
  have hnodup : (detectedBlock text pageNumber blockCount table).textLineIndices.Nodup :=
    List.Nodup.filter _ (List.Nodup.map (fun _ _ h => Int.ofNat.inj h) List.nodup_range)
  split
  · exact List.nodup_iff_count_le_one.mp hnodup line
  next hcovers =>
    refine (List.count_eq_zero_of_not_mem fun hmem => hcovers ?_).le
    exact (List.mem_filter.mp hmem).2

variable (text) in
/-- A line is listed once more by each table that gets a block of its own over it. -/
theorem count_attach (pageNumber : Int) (line : Int) (tables : List (Table α)) :
    ∀ s : Attachment α,
      (blockLines (tables.foldl (attachTable text pageNumber) s).blocks).count line ≤
        (blockLines s.blocks).count line +
          (detachedTables text pageNumber s tables).countP fun table =>
            coversLine text table.bbox line := by
  induction tables with
  | nil => exact fun s => Nat.le_refl _
  | cons table tables ih =>
    intro s
    have hrest := ih (attachTable text pageNumber s table)
    rw [List.foldl_cons]
    unfold detachedTables
    rw [List.countP_append]
    have hstep : (blockLines (attachTable text pageNumber s table).blocks).count line ≤
        (blockLines s.blocks).count line +
          List.countP (fun table => coversLine text table.bbox line)
            (if (freeBlock s table).isNone then [table] else []) := by
      unfold attachTable
      cases freeBlock s table with
      | some existing => exact Nat.le_refl _
      | none =>
        have hblock := count_detectedBlock text pageNumber s.blocks.length table line
        unfold blockLines
        rw [List.flatMap_append, List.count_append]
        refine Nat.add_le_add_left ?_ _
        simpa [List.countP_cons] using hblock
    omega

/-- The recovery gives a line to a block only if no block lists it. -/
theorem count_recover {page : PageArtifact} {layout layout' : PageLayout α}
    {stats : LayoutRecoveryStats}
    (h : recoverUnassignedTextLines text page layout = some (stats, layout')) (line : Int) :
    (blockLines layout'.blocks).count line ≤ max 1 ((blockLines layout.blocks).count line) := by
  rw [(recover_perm h).count_eq, List.count_append]
  have hnodup : (recoveredLines text page layout.blocks).Nodup :=
    (recoveredLines_sublist _).nodup (unassignedLines_nodup _)
  by_cases hline : line ∈ recoveredLines text page layout.blocks
  · have hunowned := (mem_unassignedLines.mp ((recoveredLines_sublist _).subset hline)).2.1
    rw [List.count_eq_zero_of_not_mem hunowned, List.count_eq_one_of_mem hnodup hline]
    exact Nat.le_max_left _ _
  · rw [List.count_eq_zero_of_not_mem hline]
    exact Nat.le_max_right _ _

/-- **Owners of a line.** After the stage a line is listed at most once, or at most as often as
by the blocks of the layout and by the tables that get a block of their own over it. -/
theorem single_ownership (recognize : RecognizeTables α) (page : PageArtifact)
    (layout : PageLayout α) (detected : PageTables α) (diagnostics : List Diagnostic)
    (hdetected : recognize page text layout = some (detected, diagnostics))
    (tables : PageTables α) (layout' : PageLayout α)
    (h : recognizePage recognize page text layout = some (.ok (tables, diagnostics, layout')))
    (line : Int) :
    (blockLines layout'.blocks).count line ≤
      max 1 ((blockLines layout.blocks).count line +
        (detachedTables text layout.pageNumber ⟨layout.blocks, [], []⟩ detected.tables).countP
          fun table => coversLine text table.bbox line) := by
  unfold recognizePage at h
  rw [hdetected] at h
  dsimp only at h
  split at h
  · cases h
  next stats recovered hrecover =>
    cases h
    have hattach := count_attach text layout.pageNumber line detected.tables
      ⟨layout.blocks, [], []⟩
    have hrecovered := count_recover hrecover line
    have hresolved := count_blockLines_resolve text recovered
      (attachDetectedTables text layout detected).2 line
    refine hresolved.trans (hrecovered.trans ?_)
    exact max_le_max (Nat.le_refl 1) hattach

end Owners

/-! ## A table over a paragraph -/

def paragraphText : PageText ℚ :=
  ⟨0, 1, true, .ocr, [⟨"total", ⟨0, 40, 50, 44⟩, .ocr, 1, []⟩]⟩

def paragraphLayout : PageLayout ℚ :=
  ⟨0, 1, [⟨"a", .text, "", "", ⟨0, 40, 50, 44⟩, 1, -1, [0]⟩]⟩

def detectedTable : Table ℚ :=
  ⟨"t", "", 0, 1, ⟨0, 30, 60, 60⟩, 1, "", "", false, false, [], [], [], .cells⟩

def paragraphPage : PageArtifact := ⟨0, 1, "page_1.png", 100, 100⟩

def recognizeOver : RecognizeTables ℚ := fun _ _ _ => some (⟨0, 1, [detectedTable]⟩, [])

theorem single_ownership_fails : (blockLines paragraphLayout.blocks).Nodup ∧
    ∃ tables layout', recognizePage recognizeOver paragraphPage paragraphText paragraphLayout =
      some (.ok (tables, [], layout')) ∧ (blockLines layout'.blocks).count 0 = 2 := by
  refine ⟨by decide, _, _, rfl, by decide +kernel⟩

theorem single_ownership_paragraph : ∃ tables layout',
    recognizePage recognizeOver paragraphPage paragraphText paragraphLayout =
      some (.ok (tables, [], layout')) ∧ (blockLines layout'.blocks).count 0 ≤ 2 :=
  ⟨_, _, rfl, (@single_ownership ℚ _ paragraphText recognizeOver paragraphPage paragraphLayout _ _ rfl
    _ _ rfl 0).trans (by decide +kernel)⟩

end DocParser.Pipeline
