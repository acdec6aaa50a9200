import DocParser.Pipeline.RestoredDocument

/-!
# The loop over the pages

The loop keeps what the assembler asks for: upright pages with a size, one result of each stage for
each page, tables with a block of their own, and diagnostics about these pages
(`processPages_kept`). It stops with a status only.
-/

namespace DocParser.Pipeline

open Assembly Document Emission Image Layout

/-! ## What backends promise -/

/-- A run that stops with a status. -/
def Stop.IsStatus (reason : Stop) : Prop := ∃ status, reason = .failed status

def HasSize (page : StoredPage) : Prop := 0 < page.width ∧ 0 < page.height

section Promises

variable {α : Type} [Double α]

/-- A layout of numbered blocks that list lines of the page, and diagnostics about the page. -/
structure LayoutKept (page : PageArtifact) (text : PageText α) (layout : PageLayout α)
    (diagnostics : List Diagnostic) : Prop where
  numbered : NumberedBlocks layout.pageNumber layout.blocks
  lines : ∀ index ∈ blockLines layout.blocks, inRange text index = true
  diagnostics : ∀ diagnostic ∈ diagnostics, Reportable [page.pageNumber] diagnostic

/-- Tables that name no block of another type, and diagnostics about the page. -/
structure TablesKept (page : PageArtifact) (layout : PageLayout α) (tables : PageTables α)
    (diagnostics : List Diagnostic) : Prop where
  names : ∀ table ∈ tables.tables, ∀ block ∈ layout.blocks, block.id = table.layoutBlockId →
    block.type = .table
  diagnostics : ∀ diagnostic ∈ diagnostics, Reportable [page.pageNumber] diagnostic

/-- What a run needs of its services. -/
structure ContractServices (services : PipelineServices α) : Prop where
  pageCount : ∀ path source, services.document.openSource path = some source →
    source.pageCount < 2 ^ 31
  pages : ∀ renderer, services.document.renderer = some renderer →
    (∀ request pages, renderer.renderPages request = some pages → ∀ page ∈ pages, HasSize page) ∧
      ∀ request index page, renderer.renderPage request index = some page → HasSize page
  layout : ∀ read (page : StoredPage) text layout diagnostics,
    services.layout read page text = some (layout, diagnostics) →
      LayoutKept page.toPageArtifact text layout diagnostics
  tables : ∀ read (page : StoredPage) text layout tables diagnostics,
    services.table read page text layout = some (tables, diagnostics) →
      NumberedBlocks layout.pageNumber layout.blocks →
        TablesKept page.toPageArtifact layout tables diagnostics

end Promises

/-! ## The table stage -/

section TableStage

variable {α : Type} [Double α] {page : PageArtifact} {text : PageText α} {layout : PageLayout α}

/-- A name that stands for a block of the page. -/
theorem layoutId_ne_empty {pageNumber : Int} {id : String}
    (h : (∃ k, id = TextLayoutModel.blockId pageNumber k) ∨
      ∃ line, id = fallbackId pageNumber line) : id ≠ "" := by
  rintro rfl
  rcases h with ⟨k, hk⟩ | ⟨line, hline⟩
  · have hlist := congrArg String.toList hk
    unfold TextLayoutModel.blockId at hlist
    simp only [String.toList_append] at hlist
    cases hlist
  · have hlist := congrArg String.toList hline
    unfold fallbackId at hlist
    simp only [String.toList_append] at hlist
    cases hlist

variable (page) in
theorem recognizePage_fails (recognize : RecognizeTables α)
    (h : recognize page text layout = none) : ∃ status,
      recognizePage recognize page text layout = some (.error status) := by
  unfold recognizePage
  rw [h]
  exact ⟨_, rfl⟩

variable (page) in
/-- **A page** with numbered blocks is recognized, and its tables own their blocks. -/
theorem recognizePage_kept (recognize : RecognizeTables α) {detected : PageTables α}
    {diagnostics : List Diagnostic}
    (hdetected : recognize page text layout = some (detected, diagnostics))
    (hnumbered : NumberedBlocks layout.pageNumber layout.blocks)
    (hlines : ∀ index ∈ blockLines layout.blocks, inRange text index = true)
    (hnames : ∀ table ∈ detected.tables, ∀ block ∈ layout.blocks,
      block.id = table.layoutBlockId → block.type = .table) :
    ∃ tables layout', recognizePage recognize page text layout =
        some (.ok (tables, diagnostics, layout')) ∧
      TablesOwnBlocks layout' tables ∧ ∀ block ∈ layout'.blocks, block.id ≠ "" := by
  have hattached : Attached layout.pageNumber layout.blocks
      (detected.tables.foldl (attachTable text layout.pageNumber) ⟨layout.blocks, [], []⟩) :=
    Attached.foldl detected.tables (Attached.init hnumbered) hnames
  have hattachedLines : ∀ index ∈ blockLines (attachDetectedTables text layout detected).1.blocks,
      inRange text index = true := attach_inRange text layout.pageNumber detected.tables _ hlines
  obtain ⟨⟨stats, recovered⟩, hrecover⟩ := recover_of_inRange page hattachedLines
  obtain ⟨new, hkeys, -, hnew⟩ := recover_keys hrecover
  have hids := recover_nodup hattached.numbered hrecover
  have hne : ∀ block ∈ recovered.blocks, block.id ≠ "" := by
    intro block hblock
    have hkey := List.mem_map_of_mem (f := blockKey) hblock
    rw [hkeys, List.mem_append] at hkey
    rcases hkey with hkey | hkey
    · obtain ⟨old, hold, heq⟩ := List.mem_map.mp hkey
      obtain ⟨k, -, hk⟩ := hattached.numbered.id_of_mem hold
      exact layoutId_ne_empty (.inl ⟨k, (congrArg Prod.fst heq).symm.trans hk⟩)
    · obtain ⟨added, hadded, heq⟩ := List.mem_map.mp hkey
      obtain ⟨line, hline⟩ := hnew added hadded
      exact layoutId_ne_empty (.inr ⟨line, (congrArg Prod.fst heq).symm.trans hline⟩)
  have hown : TablesOwnBlocks
      (resolvePageStructure text recovered (attachDetectedTables text layout detected).2).2.1
      (resolvePageStructure text recovered (attachDetectedTables text layout detected).2).2.2 :=
    resolve_ownBlocks hids hattached.nodup fun table htable => by
      rw [hkeys]
      exact List.mem_append_left _ (hattached.named table htable)
  refine ⟨_, _, ?_, hown, fun block hblock => ?_⟩
  · unfold recognizePage
    rw [hdetected]
    dsimp only
    rw [hrecover]
  · obtain ⟨old, hold, -, rfl⟩ := (mem_resolve_blocks hids).mp hblock
    rw [(remapRelated_id _ _).1, (grown_id old).1]
    exact hne old hold

theorem linkTables_names (previousPage nextPage : PageArtifact) (previous : List (Table α)) :
    ∀ (index : Nat) (next : List (Table α)),
      (linkTables previousPage nextPage index previous next).1.map (·.layoutBlockId) =
          previous.map (·.layoutBlockId) ∧
        (linkTables previousPage nextPage index previous next).2.map (·.layoutBlockId) =
          next.map (·.layoutBlockId) := by
  induction previous with
  | nil => exact fun _ _ => ⟨rfl, rfl⟩
  | cons table previous ih =>
    intro index next
    unfold linkTables
    split
    · obtain ⟨hfst, hsnd⟩ := ih (index + 1) next
      exact ⟨congrArg (table.layoutBlockId :: ·) hfst, hsnd⟩
    next target _ =>
      obtain ⟨hfst, hsnd⟩ := ih (index + 1) (next.modify target (linkNext (linkPrevious index table)))
      refine ⟨congrArg (table.layoutBlockId :: ·) hfst, hsnd.trans (List.ext_getElem? fun k => ?_)⟩
      rw [List.getElem?_map, List.getElem?_map, List.getElem?_modify]
      cases next[k]? with
      | none => rfl
      | some other =>
        show some (Table.layoutBlockId (if target = k then _ else other)) = _
        split_ifs
        · rfl
        · rfl

/-- **Links** change no name of a block. -/
theorem linkCrossPageTables_names (tables : List (PageTables α)) : ∀ pages : List PageArtifact,
    (linkCrossPageTables pages tables).map (fun page => page.tables.map (·.layoutBlockId)) =
      tables.map fun page => page.tables.map (·.layoutBlockId) := by
  induction htables : tables.length generalizing tables with
  | zero =>
    intro pages
    obtain rfl := List.length_eq_zero_iff.mp htables
    cases pages with
    | nil => rfl
    | cons page pages => cases pages <;> rfl
  | succ n ih =>
    intro pages
    unfold linkCrossPageTables
    split
    next previousPage nextPage pages previous next tables =>
      dsimp only
      obtain ⟨hfst, hsnd⟩ := linkTables_names previousPage nextPage previous.tables 0 next.tables
      rw [List.map_cons, List.map_cons, ih _ (by simpa using htables), hfst, List.map_cons,
        List.map_cons, hsnd]
    · rfl

end TableStage

/-! ## The pages -/

section Steps

variable {E : Stop → Prop}

theorem yields_notify (event : StageEvent) : Yields (fun _ => True) E (notify event) :=
  .emitted _

theorem yields_called (call : SourceCall) : Yields (fun _ => True) E (called call) := .emitted _

theorem yields_stageFailed {τ : Type} {P : τ → Prop} {stage code message : String}
    {retryable : Bool} : Yields P Stop.IsStatus (stageFailed stage code message retryable) :=
  .after (yields_notify _) fun _ => .stopped ⟨_, rfl⟩

theorem yields_deadlineStatus {options : PipelineRunOptions} {clock : RunClock}
    {checkpoint : Checkpoint} {stage : Stage} :
    Yields (fun _ => True) Stop.IsStatus (deadlineStatus options clock checkpoint stage) := by
  unfold deadlineStatus
  split_ifs
  · exact yields_stageFailed
  · exact .returning trivial

theorem yields_begin (stage : PageStage) :
    Yields (fun begun => begun.diagnostics = stage.diagnostics) E stage.begin := by
  unfold PageStage.begin
  split_ifs
  · exact .returning rfl
  · exact .after (yields_notify _) fun _ => .returning rfl

theorem yields_warnings (stage : PageStage) (values : List Diagnostic) :
    Yields (fun warned => warned.diagnostics = stage.diagnostics ++ values) E
      (stage.warnings values) :=
  .after (.emittedAll _) fun _ => .returning rfl

theorem yields_complete (stage : PageStage) : Yields (fun _ => True) E stage.complete := by
  unfold PageStage.complete PageStage.beginUnreached
  refine .after ?_ fun _ => yields_notify _
  split_ifs
  · exact .returning trivial
  · exact .bind (yields_begin stage) fun _ _ => yields_notify _

end Steps

section Pages

variable {α : Type} [Double α]

/-- The pages of a renderer that renders the document at once. -/
structure LegacyKept (renderer : PageRenderer) (pageCount : Nat) (pages : List StoredPage) : Prop where
  count : renderer.supportsPageRendering = false → pages.length = pageCount
  sizes : ∀ page ∈ pages, HasSize page

/-- The vectors after `index` pages; `current` holds the correction of a page that is in work. -/
structure PagesKept (renderer : PageRenderer) (pageCount index : Nat)
    (current : List PageRotation) (pages : PageRun α) : Prop where
  legacy : LegacyKept renderer pageCount pages.legacyPages
  numbers : pages.renderedPages.map (·.pageNumber) = pageNumbers index
  texts : pages.pageTexts.length = index
  layouts : pages.pageLayouts.length = index
  images : pages.sourceImagePaths.length = index + current.length
  upright : ∃ done, pages.pageRotations = done ++ current ∧
    List.Forall₂ Upright (pages.renderedPages.map (·.toPageArtifact)) done
  owned : List.Forall₂ TablesOwnBlocks pages.pageLayouts pages.pageTables
  ids : ∀ layout ∈ pages.pageLayouts, ∀ block ∈ layout.blocks, block.id ≠ ""

/-- What the stages have reported is about the first `count` pages. -/
structure ReportsKept (count : Nat) (text layout table : PageStage) : Prop where
  text : ∀ diagnostic ∈ text.diagnostics, Reportable (pageNumbers count) diagnostic
  layout : ∀ diagnostic ∈ layout.diagnostics, Reportable (pageNumbers count) diagnostic
  table : ∀ diagnostic ∈ table.diagnostics, Reportable (pageNumbers count) diagnostic

/-- The invariant of the loop. -/
structure Kept (renderer : PageRenderer) (pageCount index : Nat) (current : List PageRotation)
    (pages : PageRun α) : Prop where
  vectors : PagesKept renderer pageCount index current pages
  reports : ReportsKept (index + current.length) pages.text pages.layout pages.table

variable {renderer : PageRenderer} {pageCount index : Nat} {current : List PageRotation}
  {pages : PageRun α}

omit [Double α] in
theorem PagesKept.stages (h : PagesKept renderer pageCount index current pages)
    (text layout table : PageStage) : PagesKept renderer pageCount index current
      { pages with text := text, layout := layout, table := table } :=
  ⟨h.legacy, h.numbers, h.texts, h.layouts, h.images, h.upright, h.owned, h.ids⟩

/-- Diagnostics of a page that is in work or done can be reported. -/
theorem reportable_append {count : Nat} {old new : List Diagnostic} {page : PageArtifact}
    (hold : ∀ diagnostic ∈ old, Reportable (pageNumbers count) diagnostic)
    (hnew : ∀ diagnostic ∈ new, Reportable [page.pageNumber] diagnostic)
    (hpage : page.pageNumber ∈ pageNumbers count) :
    ∀ diagnostic ∈ old ++ new, Reportable (pageNumbers count) diagnostic := by
  intro diagnostic hmem
  rcases List.mem_append.mp hmem with hmem | hmem
  · exact hold diagnostic hmem
  · exact (hnew diagnostic hmem).mono fun n hn => List.mem_singleton.mp hn ▸ hpage

theorem mem_pageNumbers_next (index : Nat) : (index : Int) + 1 ∈ pageNumbers (index + 1) :=
  mem_pageNumbers.mpr ⟨by omega, by omega⟩

theorem ReportsKept.next {count : Nat} {text layout table : PageStage}
    (h : ReportsKept count text layout table) : ReportsKept (count + 1) text layout table := by
  have hsub : pageNumbers count ⊆ pageNumbers (count + 1) := fun n hn => by
    rw [pageNumbers_succ]
    exact List.mem_append_left _ hn
  exact ⟨fun d hd => (h.text d hd).mono hsub, fun d hd => (h.layout d hd).mono hsub,
    fun d hd => (h.table d hd).mono hsub⟩

variable {env : Environment} {options : PipelineRunOptions} {services : PipelineServices α}

/-! ### Rendering -/

omit [Double α] in
theorem takePage_kept
    (hsize : ∀ request page, renderer.renderPage request index = some page → HasSize page)
    (hindex : index < pageCount) (h : Kept renderer pageCount index current pages) :
    Yields (fun r => HasSize r.1 ∧ Kept renderer pageCount index current r.2) Stop.IsStatus
      (takePage options renderer index pages) := by
  unfold takePage
  split
  · refine .after (yields_called _) fun _ => ?_
    split
    · exact yields_stageFailed
    next page hpage => exact .returning ⟨hsize _ page hpage, h⟩
  next hlegacy =>
    have hcount := h.vectors.legacy.count (by simpa using hlegacy)
    split
    next hnone =>
      rw [List.getElem?_eq_none_iff] at hnone
      omega
    next page hpage =>
      have hold := h.vectors.legacy.sizes
      obtain ⟨⟨-, hnumbers, htexts, hlayouts, himages, hupright, howned, hids⟩, hreports⟩ := h
      refine .returning ⟨hold page (List.mem_of_getElem? hpage), ⟨⟨?_, ?_⟩, hnumbers, htexts,
        hlayouts, himages, hupright, howned, hids⟩, hreports⟩
      · exact fun _ => by rw [List.length_set, hcount]
      · intro other hother
        rcases List.mem_or_eq_of_mem_set hother with hmem | rfl
        · exact hold other hmem
        · exact hold page (List.mem_of_getElem? hpage)

theorem preprocessDebugImage_page {page page' : RenderedPage}
    (h : preprocessDebugImage env options page = some page') :
    page'.toStoredPage = page.toStoredPage := by
  unfold preprocessDebugImage at h
  dsimp only at h
  split_ifs at h
  · obtain rfl := Option.some.inj h
    rfl
  · obtain rfl := Option.some.inj h
    rfl

omit [Double α] in
theorem renderStep_kept
    (hsize : ∀ request page, renderer.renderPage request index = some page → HasSize page)
    (hindex : index < pageCount) (h : Kept renderer pageCount index current pages) :
    Yields (fun r => HasSize r.1.toStoredPage ∧ r.1.pageNumber = (index : Int) + 1 ∧
        Kept renderer pageCount index current r.2) Stop.IsStatus
      (renderStep env options renderer index pages) := by
  unfold renderStep
  refine .after yields_deadlineStatus fun _ => (takePage_kept hsize hindex h).bind ?_
  rintro ⟨page, rendered⟩ ⟨hpage, hkept⟩
  dsimp only at hpage hkept ⊢
  split_ifs with hidentity
  · exact yields_stageFailed
  · refine .after (yields_notify _) fun _ => ?_
    split
    · exact yields_stageFailed
    next page' hdebug =>
      have hsame := preprocessDebugImage_page hdebug
      refine .after (yields_notify _) fun _ => .returning ⟨?_, ?_, hkept⟩
      · exact hsame ▸ hpage
      · have hnumber : page'.pageNumber = page.pageNumber :=
          congrArg (fun p : StoredPage => p.pageNumber) hsame
        rw [hnumber]
        omega

/-! ### Text -/

omit [Double α] in
theorem takeNativeText_kept (hindex : index < pageCount)
    (h : Kept renderer pageCount index current pages) :
    Yields (fun r => Kept renderer pageCount index current r.2) Stop.IsStatus
      (takeNativeText options services pageCount index pages) := by
  have htexts : ∀ (texts : List (NativeText α)) (loaded : Bool),
      Kept renderer pageCount index current
        { pages with legacyTexts := texts, legacyTextLoaded := loaded } := fun _ _ =>
    ⟨⟨h.vectors.legacy, h.vectors.numbers, h.vectors.texts, h.vectors.layouts, h.vectors.images,
      h.vectors.upright, h.vectors.owned, h.vectors.ids⟩, h.reports⟩
  unfold takeNativeText
  split
  · exact .returning h
  next native _ =>
    split_ifs
    · refine .after (yields_called _) fun _ => ?_
      split
      · exact .returning h
      · exact .returning h
    · unfold takeLegacyText
      have hloaded : Yields (fun r => ∃ texts loaded,
          r.2 = { pages with legacyTexts := texts, legacyTextLoaded := loaded }) Stop.IsStatus
          (loadLegacyTexts options native pages) := by
        unfold loadLegacyTexts
        split_ifs with hload
        · exact .returning ⟨pages.legacyTexts, pages.legacyTextLoaded, rfl⟩
        · refine .after (yields_called _) fun _ => ?_
          split
          · exact .returning ⟨pages.legacyTexts, true, rfl⟩
          next texts _ => exact .returning ⟨texts, true, rfl⟩
      refine hloaded.bind ?_
      rintro ⟨extracted, after⟩ ⟨texts, loaded, rfl⟩
      dsimp only
      split_ifs with hextracted hcount
      · exact .returning (htexts _ _)
      · exact .returning (htexts _ _)
      · split
        next hnone =>
          rw [List.getElem?_eq_none_iff] at hnone
          omega
        · exact .returning (htexts _ _)

theorem extractPage_diagnostics {ocr : OcrBackend α} {read : ReadImage} {dpi : Int}
    {page : StoredPage} {native : NativeText α} {extraction : PageTextExtraction α}
    (h : extractPage ocr read dpi page native = .ok extraction) :
    ∀ diagnostic ∈ extraction.diagnostics, Reportable [page.pageNumber] diagnostic := by
  unfold extractPage at h
  dsimp only at h
  split at h
  · cases h
  split at h
  · obtain rfl := Except.ok.inj h
    exact fun d hd => absurd hd List.not_mem_nil
  split at h
  · split at h
    · obtain rfl := Except.ok.inj h
      intro d hd
      obtain rfl := List.mem_singleton.mp hd
      have hcode : "OCR_ENHANCEMENT_FAILED" ≠ "" := by decide
      have hmessage : "OCR enhancement failed; retained usable native text" ≠ "" := by decide
      exact ⟨hcode, hmessage, .inr (List.mem_singleton_self _)⟩
    · cases h
  · obtain rfl := Except.ok.inj h
    exact fun d hd => absurd hd List.not_mem_nil

theorem make_eq_ok {width height degrees : Int} {rotation : PageRotation}
    (h : PageRotation.make width height degrees = .ok rotation) :
    rotation.sourceWidth = width ∧ rotation.sourceHeight = height := by
  unfold PageRotation.make at h
  split_ifs at h
  obtain rfl := Except.ok.inj h
  exact ⟨rfl, rfl⟩

theorem orientPage_kept {page : RenderedPage} {rotation : PageRotation} (text : PageText α)
    (hsize : HasSize page.toStoredPage) (hwidth : rotation.sourceWidth = page.width)
    (hheight : rotation.sourceHeight = page.height) :
    Yields (fun r => r.1.pageNumber = page.pageNumber ∧ Upright r.1.toPageArtifact rotation)
      Stop.IsStatus (orientPage env options page rotation text) := by
  have hpositive : 0 < rotation.sourceWidth ∧ 0 < rotation.sourceHeight :=
    ⟨hwidth ▸ hsize.1, hheight ▸ hsize.2⟩
  unfold orientPage
  split_ifs with hdegrees himages
  · refine .returning ⟨rfl, ?_, ?_, hpositive⟩
    · rw [PageRotation.workingWidth_of_upright hdegrees, hwidth]
    · rw [PageRotation.workingHeight_of_upright hdegrees, hheight]
  · exact yields_stageFailed
  · split
    · exact yields_stageFailed
    next view hview =>
      unfold prepareView at hview
      rw [if_neg hdegrees] at hview
      dsimp only at hview
      split_ifs at hview
      obtain ⟨path, -, rfl⟩ := Option.map_eq_some_iff.mp hview
      exact .returning ⟨rfl, rfl, rfl, hpositive⟩

theorem textStep_kept (hindex : index < pageCount) {page : RenderedPage}
    (hsize : HasSize page.toStoredPage) (hnumber : page.pageNumber = (index : Int) + 1)
    (h : Kept renderer pageCount index [] pages) :
    Yields (fun r => r.1.pageNumber = (index : Int) + 1 ∧ ∃ rotation,
        Upright r.1.toPageArtifact rotation ∧ Kept renderer pageCount index [rotation] r.2.2)
      Stop.IsStatus (textStep env options services pageCount index page pages) := by
  unfold textStep
  refine (yields_begin pages.text).bind fun begun hbegun => ?_
  refine .after yields_deadlineStatus fun _ => ?_
  have hstart : Kept renderer pageCount index [] { pages with text := begun } := by
    refine ⟨h.vectors.stages begun pages.layout pages.table, ?_, h.reports.layout, h.reports.table⟩
    exact hbegun ▸ h.reports.text
  refine (takeNativeText_kept hindex hstart).bind ?_
  rintro ⟨native, taken⟩ hkept
  dsimp only at hkept ⊢
  split
  · exact yields_stageFailed
  next extraction hextraction =>
    split
    · exact yields_stageFailed
    next rotation hrotation =>
      obtain ⟨hwidth, hheight⟩ := make_eq_ok hrotation
      refine (orientPage_kept _ hsize hwidth hheight).bind ?_
      rintro ⟨working, value⟩ ⟨hsame, hupright⟩
      refine (yields_warnings taken.text extraction.diagnostics).bind fun text htext => ?_
      refine .after (yields_notify _) fun _ => .returning ⟨hsame.trans hnumber, rotation, hupright,
        ?_, ?_⟩
      · obtain ⟨⟨hlegacy, hnumbers, htexts, hlayouts, himages, ⟨done, hdone, hall⟩, howned, hids⟩,
          -⟩ := hkept
        rw [List.append_nil] at hdone
        refine ⟨hlegacy, hnumbers, htexts, hlayouts, ?_, ⟨done, ?_, hall⟩, howned, hids⟩
        · rw [List.length_append, himages]
          rfl
        · rw [hdone]
      · have hnext := hkept.reports.next
        have hdiagnostics : ∀ d ∈ extraction.diagnostics, Reportable [page.pageNumber] d := by
          cases native with
          | error status => cases hextraction
          | ok native => exact extractPage_diagnostics hextraction
        refine ⟨?_, hnext.layout, hnext.table⟩
        rw [htext]
        exact reportable_append hnext.text hdiagnostics
          (hnumber ▸ mem_pageNumbers_next index)

/-! ### Layout and tables -/

theorem analyzePage_kept {read : ReadImage} {page : StoredPage} {text : PageText α}
    {layout : PageLayout α} {diagnostics : List Diagnostic}
    (hservices : ∀ layout diagnostics, services.layout read page text = some (layout, diagnostics) →
      LayoutKept page.toPageArtifact text layout diagnostics)
    (h : analyzePage services.layout read page text = .ok (layout, diagnostics)) :
    LayoutKept page.toPageArtifact text layout diagnostics := by
  unfold analyzePage at h
  split at h
  · cases h
  next result found hfound =>
    obtain ⟨hnumbered, hlines, hdiagnostics⟩ := hservices result found hfound
    have hok : (Except.ok ({ result with blocks := (refineEdgeFurniture page.toPageArtifact
          (refineMultiColumnTextLineOrder text result.blocks).2).2 }, found) :
            Except Status (PageLayout α × List Diagnostic)) =
        .ok (layout, diagnostics) := h
    obtain ⟨hlayout, rfl⟩ := Prod.mk.inj (Except.ok.inj hok)
    have hblocks : layout.blocks = (refineEdgeFurniture page.toPageArtifact
        (refineMultiColumnTextLineOrder text result.blocks).2).2 := by rw [← hlayout]
    have hnumber : layout.pageNumber = result.pageNumber := by rw [← hlayout]
    have hlinesOf := refineEdgeFurniture_lines page.toPageArtifact
      (refineMultiColumnTextLineOrder text result.blocks).2
    have hids : (refineMultiColumnTextLineOrder text result.blocks).2.map (·.id) =
        result.blocks.map (·.id) := by
      rw [refined_blocks, List.map_map]
      refine List.map_congr_left fun block _ => ?_
      obtain ⟨lines, heq, -⟩ := refineBlock_perm text block
      rw [Function.comp_apply, heq]
    rw [← hblocks] at hlinesOf
    have hrefined : layout.blocks.map (·.id) = result.blocks.map (·.id) := by
      have hfst := congrArg (List.map Prod.fst) hlinesOf
      rw [List.map_map, List.map_map] at hfst
      exact hfst.trans hids
    refine ⟨?_, fun index hindex => ?_, hdiagnostics⟩
    · unfold NumberedBlocks at hnumbered ⊢
      have hcount := congrArg List.length hrefined
      rw [List.length_map, List.length_map] at hcount
      rw [hrefined, hcount, hnumber]
      exact hnumbered
    · have hsnd := congrArg (List.flatMap Prod.snd) hlinesOf
      rw [List.flatMap_map, List.flatMap_map] at hsnd
      have hsame : blockLines layout.blocks =
          blockLines (refineMultiColumnTextLineOrder text result.blocks).2 := hsnd
      have hperm : (blockLines layout.blocks).Perm (blockLines result.blocks) :=
        hsame ▸ refineMultiColumnTextLineOrder_perm result.blocks
      exact hlines index (hperm.mem_iff.mp hindex)

variable {rotation : PageRotation}

theorem layoutStep_kept (hservices : ContractServices services) {page : RenderedPage}
    {text : PageText α} (hnumber : page.pageNumber = (index : Int) + 1)
    (h : Kept renderer pageCount index [rotation] pages) :
    Yields (fun r => NumberedBlocks r.1.pageNumber r.1.blocks ∧
        (∀ line ∈ blockLines r.1.blocks, inRange text line = true) ∧
        Kept renderer pageCount index [rotation] r.2) Stop.IsStatus
      (layoutStep env options services index page text pages) := by
  unfold layoutStep
  refine (yields_begin pages.layout).bind fun begun hbegun => ?_
  refine .after yields_deadlineStatus fun _ => ?_
  split
  · exact yields_stageFailed
  next layout diagnostics hanalyzed =>
    obtain ⟨hnumbered, hlines, hdiagnostics⟩ := analyzePage_kept
      (fun layout diagnostics => hservices.layout _ _ _ layout diagnostics) hanalyzed
    refine (yields_warnings begun diagnostics).bind fun warned hwarned => ?_
    refine .after (yields_notify _) fun _ => .returning ⟨hnumbered, hlines,
      h.vectors.stages pages.text warned pages.table, h.reports.text, ?_, h.reports.table⟩
    rw [hwarned, hbegun]
    exact reportable_append h.reports.layout hdiagnostics (hnumber ▸ mem_pageNumbers_next index)

theorem tableStep_kept (hservices : ContractServices services) {page : RenderedPage}
    {text : PageText α} {layout : PageLayout α} (hnumber : page.pageNumber = (index : Int) + 1)
    (hupright : Upright page.toPageArtifact rotation)
    (hnumbered : NumberedBlocks layout.pageNumber layout.blocks)
    (hlines : ∀ line ∈ blockLines layout.blocks, inRange text line = true)
    (h : Kept renderer pageCount index [rotation] pages) :
    Yields (Kept renderer pageCount (index + 1) []) Stop.IsStatus
      (tableStep env options services index page text layout pages) := by
  unfold tableStep
  refine (yields_begin pages.table).bind fun begun hbegun => ?_
  refine .after yields_deadlineStatus fun _ => ?_
  cases hdetected : services.table (env.readImage options) page.toStoredPage text layout with
  | none =>
    obtain ⟨status, hfails⟩ := recognizePage_fails page.toPageArtifact
      (fun _ => services.table (env.readImage options) page.toStoredPage) hdetected
    rw [hfails]
    exact yields_stageFailed
  | some found =>
    obtain ⟨detected, diagnostics⟩ := found
    obtain ⟨hnames, hdiagnostics⟩ := hservices.tables _ _ _ _ _ _ hdetected hnumbered
    obtain ⟨tables, layout', hrecognized, howns, hids⟩ := recognizePage_kept
      page.toPageArtifact
      (fun _ => services.table (env.readImage options) page.toStoredPage) hdetected hnumbered hlines
      hnames
    rw [hrecognized]
    refine (yields_warnings begun diagnostics).bind fun warned hwarned => ?_
    refine .after (yields_notify _) fun _ => .returning ⟨?_, ?_⟩
    · obtain ⟨hlegacy, hnumbers, htexts, hlayouts, himages, ⟨done, hdone, hall⟩, howned, hne⟩ :=
        h.vectors
      refine ⟨hlegacy, ?_, ?_, ?_, himages, ⟨done ++ [rotation], ?_, ?_⟩,
        List.rel_append howned (.cons howns .nil), ?_⟩
      · rw [List.map_append, hnumbers, pageNumbers_succ]
        exact congrArg _ (congrArg (· :: []) hnumber)
      · rw [List.length_append, htexts]
        rfl
      · rw [List.length_append, hlayouts]
        rfl
      · rw [hdone, List.append_nil]
      · rw [List.map_append]
        exact List.rel_append hall (.cons hupright .nil)
      · intro other hother
        rcases List.mem_append.mp hother with hother | hother
        · exact hne other hother
        · obtain rfl := List.mem_singleton.mp hother
          exact hids
    · refine ⟨h.reports.text, h.reports.layout, ?_⟩
      rw [hwarned, hbegun]
      exact reportable_append h.reports.table hdiagnostics (hnumber ▸ mem_pageNumbers_next index)

/-! ### The loop -/

theorem processPage_kept (hservices : ContractServices services)
    (hsize : ∀ request page, renderer.renderPage request index = some page → HasSize page)
    (hindex : index < pageCount) (h : Kept renderer pageCount index [] pages) :
    Yields (Kept renderer pageCount (index + 1) []) Stop.IsStatus
      (processPage env options services renderer pageCount index pages) := by
  unfold processPage
  refine (renderStep_kept hsize hindex h).bind ?_
  rintro ⟨page, rendered⟩ ⟨hpage, hnumber, hkept⟩
  refine (textStep_kept hindex hpage hnumber hkept).bind ?_
  rintro ⟨working, text, extracted⟩ ⟨hnumber, rotation, hupright, hkept⟩
  refine (layoutStep_kept hservices hnumber hkept).bind ?_
  rintro ⟨layout, analyzed⟩ ⟨hnumbered, hlines, hkept⟩
  exact tableStep_kept hservices hnumber hupright hnumbered hlines hkept

/-- **The loop over the pages** keeps the invariant and stops with a status only. -/
theorem processPages_kept (hservices : ContractServices services)
    (hsize : ∀ request index page, renderer.renderPage request index = some page → HasSize page) :
    ∀ (remaining index : Nat) (pages : PageRun α), index + remaining = pageCount →
      Kept renderer pageCount index [] pages →
      Yields (Kept renderer pageCount pageCount []) Stop.IsStatus
        (processPages env options services renderer pageCount remaining index pages) := by
  intro remaining
  induction remaining with
  | zero =>
    rintro index pages rfl h
    exact .returning h
  | succ remaining ih =>
    intro index pages hcount h
    refine (processPage_kept hservices (fun request page => hsize request index page) (by omega)
      h).bind fun after hafter => ?_
    exact ih (index + 1) after (by omega) hafter

omit [Double α] in
theorem beginPages_kept (provenance : RunProvenance)
    (hsizes : ∀ request pages, renderer.renderPages request = some pages →
      ∀ page ∈ pages, HasSize page) :
    Yields (Kept renderer pageCount 0 []) Stop.IsStatus
      (beginPages (α := α) options provenance renderer pageCount) := by
  have hlegacy : Yields (LegacyKept renderer pageCount) Stop.IsStatus
      (renderLegacyPages options renderer pageCount) := by
    unfold renderLegacyPages
    split_ifs with hsupports
    · exact .returning ⟨fun hno => absurd (hsupports.symm.trans hno) (by decide),
        fun page hpage => absurd hpage List.not_mem_nil⟩
    · refine .after (yields_called _) fun _ => ?_
      split
      · exact yields_stageFailed
      next rendered hrendered =>
        split_ifs with hcount
        · exact yields_stageFailed
        · exact .returning ⟨fun _ => not_not.mp hcount, hsizes _ rendered hrendered⟩
  unfold beginPages
  refine (yields_begin _).bind fun begun hbegun => hlegacy.bind fun legacy hkept => ?_
  have hnone : ∀ diagnostic ∈ ([] : List Diagnostic),
      Reportable (pageNumbers 0) diagnostic := fun _ hmem => absurd hmem List.not_mem_nil
  exact .returning ⟨⟨hkept, rfl, rfl, rfl, rfl, ⟨[], rfl, .nil⟩, .nil,
    fun _ hmem => absurd hmem List.not_mem_nil⟩, ⟨hnone, hnone, hnone⟩⟩

/-! ### After the pages -/

theorem finishPages_kept (h : Kept renderer pageCount pageCount [] pages) :
    Yields (Kept renderer pageCount pageCount []) Stop.IsStatus
      (finishPages env options pages) := by
  obtain ⟨⟨hlegacy, hnumbers, htexts, hlayouts, himages, hupright, howned, hids⟩, hreports⟩ := h
  unfold finishPages
  refine .after (yields_complete _) fun _ => .after (yields_complete _) fun _ =>
    .after (yields_complete _) fun _ => .after yields_deadlineStatus fun _ => ?_
  split
  · exact yields_stageFailed
  next linked hlinked =>
    refine .after (yields_complete _) fun _ => .returning ⟨⟨hlegacy, hnumbers, htexts, hlayouts,
      himages, hupright, ?_, hids⟩, hreports⟩
    unfold linkPages at hlinked
    split_ifs at hlinked
    obtain rfl := Except.ok.inj hlinked
    have hnames := linkCrossPageTables_names pages.pageTables
      (pages.renderedPages.map (·.toPageArtifact))
    have hlength := congrArg List.length hnames
    rw [List.length_map, List.length_map] at hlength
    refine List.forall₂_iff_get.mpr ⟨howned.length_eq.trans hlength.symm, fun i hi hi' => ?_⟩
    have hold := (List.forall₂_iff_get.mp howned).2 i hi (hlength ▸ hi')
    refine hold.congr rfl ?_
    have hget := congrArg (fun names : List (List String) => names[i]?) hnames
    rw [List.getElem?_map, List.getElem?_map, List.getElem?_eq_getElem hi',
      List.getElem?_eq_getElem (hlength ▸ hi')] at hget
    exact Option.some.inj hget

omit [Double α] in
theorem orderStep_kept : Yields (fun orders => orders.length = pages.renderedPages.length)
    Stop.IsStatus (orderStep env options services pages) := by
  unfold orderStep
  refine .after yields_deadlineStatus fun _ => .after (yields_notify _) fun _ => ?_
  split
  · exact yields_stageFailed
  next orders horders =>
    refine .after (yields_notify _) fun _ => .after (yields_notify _) fun _ => .returning ?_
    rw [orderStage_length horders, List.length_map]

variable (options) in
omit [Double α] in
/-- What the stages leave is what the assembler asks for. -/
theorem validRequest_kept (h : Kept renderer pageCount pageCount [] pages)
    {orders : List (PageReadingOrder α)} (horders : orders.length = pages.renderedPages.length)
    (source : OpenedSource) (fingerprint : FileFingerprint) :
    ValidRequest (assembleRequest options source fingerprint pages orders) ∧
      List.Forall₂ Upright (assembleRequest options source fingerprint pages orders).pages
        pages.pageRotations := by
  obtain ⟨⟨hlegacy, hnumbers, htexts, hlayouts, himages, ⟨done, hdone, hall⟩, howned, hids⟩, -⟩ := h
  rw [List.append_nil] at hdone
  subst hdone
  have hcount : pages.renderedPages.length = pageCount := by
    have hlength := congrArg List.length hnumbers
    unfold pageNumbers at hlength
    rwa [List.length_map, List.length_map, List.length_range] at hlength
  have hnumbersOf : (pages.renderedPages.map (·.toPageArtifact)).map (·.pageNumber) =
      pageNumbers pageCount := by
    rw [← hnumbers, List.map_map]
    rfl
  refine ⟨⟨?_, ?_, ?_, ?_, ?_⟩, hall⟩
  · unfold hasMatchingPageCounts assembleRequest
    dsimp only
    rw [List.length_map, hcount, htexts, hlayouts, horders, hcount, ← howned.length_eq, hlayouts]
    simp
  · intro page hpage
    have hmem := List.mem_map_of_mem (f := fun p : PageArtifact => p.pageNumber) hpage
    exact (mem_pageNumbers.mp (hnumbersOf ▸ hmem)).1
  · exact hnumbersOf ▸ pageNumbers_nodup pageCount
  · intro page hpage
    obtain ⟨i, hi, rfl⟩ := List.mem_iff_getElem.mp hpage
    exact ((List.forall₂_iff_get.mp hall).2 i hi (hall.length_eq ▸ hi)).size
  · intro layout hlayout
    obtain ⟨i, hi, rfl⟩ := List.mem_iff_getElem.mp hlayout
    exact ⟨((List.forall₂_iff_get.mp howned).2 i hi (howned.length_eq ▸ hi)).ids,
      hids _ (List.getElem_mem hi)⟩

end Pages

end DocParser.Pipeline
