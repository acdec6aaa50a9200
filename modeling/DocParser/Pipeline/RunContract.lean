import DocParser.Export.JsonContract
import DocParser.Layout.TextLayoutModel
import DocParser.Pipeline.PageLoop
import DocParser.Pipeline.PageModes
import DocParser.Table.TextTableBackend

/-!
# The contract of a run

`run_contract`: a run ends with a status or with a document that the exporter accepts. The backends
that need no model keep their part of it (`textServices_contract`).
-/

namespace DocParser.Pipeline

open Assembly Document Emission Export Image Layout

section Contract

variable {α : Type} [Double α]

/-- What a run leaves. -/
structure RunContract (options : PipelineRunOptions) (parsed : ParsedRun α) : Prop where
  valid : ValidCoreModel parsed.document
  manifest : Contract (manifestToJson parsed.document)
  pages : ∃ count, parsed.document.pages.map (·.number) = pageNumbers count ∧
    parsed.pages.map (·.pageNumber) = pageNumbers count ∧ parsed.files.length = count
  tables : ∀ page ∈ parsed.pages, TablesOwnBlocks page.layout page.tables
  explained : parsed.document.status = .partially ↔ parsed.document.warnings ≠ []
  run : parsed.document.producer.runId = options.runId
  digest : validSha256 parsed.document.source.sha256 = true

variable {env : Environment} {options : PipelineRunOptions} {renderer : PageRenderer}
  {pageCount : Nat} {pages : PageRun α}

theorem assembleStep_kept [LawfulDouble α] (h : Kept renderer pageCount pageCount [] pages)
    (hcount : pageCount < 2 ^ 31) {orders : List (PageReadingOrder α)}
    (horders : orders.length = pages.renderedPages.length) (source : OpenedSource)
    {fingerprint : FileFingerprint} (hdigest : validSha256 fingerprint.sha256 = true)
    (provenance : RunProvenance) :
    Yields (RunContract options) Stop.IsStatus
      (assembleStep env options source fingerprint provenance pages orders) := by
  obtain ⟨hrequest, hupright⟩ := validRequest_kept options h horders source fingerprint
  obtain ⟨assembled, hassemble, -⟩ := assemble_eq env.engineVersion hrequest.counts
  obtain ⟨document, artifacts, place, hrestore, hrestored⟩ := restoreSourceCoordinates_spec
    (assembled_upright hrequest hupright hassemble)
  obtain ⟨hvalid, hstatus, hsource, hkeys⟩ :=
    restored_valid hrequest hupright hdigest hassemble hrestore
  obtain ⟨hpageNumbers, howns⟩ := restored_artifacts hrequest.counts hupright h.vectors.owned
    hrestored
  have hnumbers : (assembleRequest options source fingerprint pages orders).pages.map
      (·.pageNumber) = pageNumbers pageCount := by
    rw [← h.vectors.numbers]
    exact List.map_map
  have hids : document.pages.map (·.id) = (pageNumbers pageCount).map Assembly.pageId := by
    have hfst := congrArg (List.map Prod.fst) hkeys
    rw [List.map_map, List.map_map] at hfst
    rw [← hnumbers, List.map_map]
    exact hfst
  have hdocumentNumbers : document.pages.map (·.number) = pageNumbers pageCount := by
    have hsnd := congrArg (List.map Prod.snd) hkeys
    rw [List.map_map, List.map_map] at hsnd
    exact hsnd.trans hnumbers
  have hreports : ∀ diagnostic ∈ runDiagnostics pages,
      Reportable (pageNumbers pageCount) diagnostic := by
    intro diagnostic hmem
    rcases List.mem_append.mp hmem with hmem | hmem
    · rcases List.mem_append.mp hmem with hmem | hmem
      · exact h.reports.text diagnostic hmem
      · exact h.reports.layout diagnostic hmem
    · exact h.reports.table diagnostic hmem
  have hfew : (pageNumbers pageCount).length ≤ maximumCount := by
    unfold pageNumbers maximumCount
    rw [List.length_map, List.length_range]
    omega
  unfold assembleStep
  refine .after yields_deadlineStatus fun _ => .after (yields_notify _) fun _ => ?_
  rw [hassemble]
  dsimp only
  rw [hrestore]
  dsimp only
  refine .after (yields_notify _) fun _ => .after (yields_notify _) fun _ => .returning ?_
  obtain ⟨hcomplete, hexplained⟩ := applyRunMetadata_valid options
    (recordDiagnostics (runDiagnostics pages) provenance) hvalid hstatus hids hreports hfew
  refine ⟨hcomplete, contract_of_valid hcomplete, ⟨pageCount, hdocumentNumbers,
    hpageNumbers.trans hnumbers, ?_⟩, howns, hexplained, rfl, ?_⟩
  · have hrendered := congrArg List.length h.vectors.numbers
    unfold pageNumbers at hrendered
    rw [List.length_map, List.length_map, List.length_range] at hrendered
    show (List.zipWith _ pages.renderedPages pages.sourceImagePaths).length = pageCount
    rw [List.length_zipWith, hrendered, h.vectors.images]
    exact Nat.min_self pageCount
  · show validSha256 document.source.sha256 = true
    rw [hsource]
    exact hdigest

end Contract

/-! ## The run -/

section Run

variable {α : Type} [Double α] {env : Environment} {options : PipelineRunOptions}

/-- The services of the caller, or those that the registry creates, keep their part. -/
def ServicesKept (options : PipelineRunOptions) (services : Option (PipelineServices α))
    (registry : Option (BackendRegistry α)) : Prop :=
  (∀ s, services = some s → ContractServices s) ∧
    ∀ create s provenance, registry = some create →
      create options.backends = .ok (s, provenance) → ContractServices s

omit [Double α] in
theorem openDocument_kept {services : PipelineServices α} (hservices : ContractServices services)
    (provenance : RunProvenance) :
    Yields (fun r => r.1.pageCount < 2 ^ 31 ∧ validSha256 r.2.sha256 = true) Stop.IsStatus
      (openDocument env options services provenance) := by
  unfold openDocument
  refine .after (yields_notify _) fun _ => ?_
  split
  · exact yields_stageFailed
  next source hsource =>
    have hchecked : Yields (fun fingerprint => validSha256 fingerprint.sha256 = true)
        Stop.IsStatus (checkSource env options source) := by
      unfold checkSource
      split
      · exact yields_stageFailed
      next fingerprint hfingerprint =>
        split_ifs
        · exact yields_stageFailed
        · refine .returning ?_
          unfold fingerprintFile at hfingerprint
          split at hfingerprint
          · cases hfingerprint
          · cases hfingerprint
          · obtain rfl := Except.ok.inj hfingerprint
            exact validSha256_fingerprint _
    refine hchecked.bind fun fingerprint hdigest => .after (yields_notify _) fun _ =>
      .after (yields_notify _) fun _ => .returning ⟨hservices.pageCount _ _ hsource, hdigest⟩

theorem parsePages_kept [LawfulDouble α] {services : PipelineServices α}
    (hservices : ContractServices services) {source : OpenedSource}
    (hcount : source.pageCount < 2 ^ 31) {fingerprint : FileFingerprint}
    (hdigest : validSha256 fingerprint.sha256 = true) (provenance : RunProvenance) :
    Yields (RunContract options) Stop.IsStatus
      (parsePages env options services source fingerprint provenance) := by
  unfold parsePages
  refine .after yields_deadlineStatus fun _ => ?_
  split
  · exact yields_stageFailed
  next renderer hrenderer =>
    obtain ⟨hall, hone⟩ := hservices.pages renderer hrenderer
    split_ifs
    · exact yields_stageFailed
    · refine (beginPages_kept provenance hall).bind fun begun hbegun => ?_
      refine (processPages_kept hservices hone _ 0 begun (Nat.zero_add _) hbegun).bind
        fun processed hprocessed => ?_
      refine (finishPages_kept hprocessed).bind fun finished hfinished => ?_
      refine orderStep_kept.bind fun orders horders => ?_
      exact assembleStep_kept hfinished (by omega) horders source hdigest provenance

/-- **The contract of a run.** With services that keep their part, a run ends with a status or with
a document that the exporter accepts: its pages are numbered from 1, the page artifacts stand at
the same places, every table has a block of its own, and the document is partial exactly if it
warns of something. -/
theorem run_contract [LawfulDouble α] (env : Environment) (options : PipelineRunOptions)
    (services : Option (PipelineServices α)) (serviceProvenance : Option RunProvenance)
    (registry : Option (BackendRegistry α)) (h : ServicesKept options services registry) :
    Yields (RunContract options) Stop.IsStatus
      (parseInternal env options services serviceProvenance registry) := by
  have hconfigured : Yields (fun r => ContractServices r.1) Stop.IsStatus
      (configure options services serviceProvenance registry) := by
    unfold configure
    refine .after (yields_notify _) fun _ => ?_
    have hcreated : Yields (fun r => ContractServices r.1) Stop.IsStatus
        (createServices options services registry) := by
      unfold createServices
      split
      · exact .returning (h.1 _ rfl)
      · exact yields_stageFailed
      next create =>
        split
        · exact .after (yields_notify _) fun _ => .stopped ⟨_, rfl⟩
        next created hcreated => exact .returning (h.2 create created.1 created.2 rfl hcreated)
    refine hcreated.bind ?_
    rintro ⟨created, provenance⟩ hkept
    exact .after (yields_notify _) fun _ => .after (yields_notify _) fun _ =>
      .after (yields_notify _) fun _ => .returning hkept
  unfold parseInternal
  refine hconfigured.bind ?_
  rintro ⟨created, provenance⟩ hservices
  refine (openDocument_kept hservices provenance).bind ?_
  rintro ⟨source, fingerprint⟩ ⟨hcount, hdigest⟩
  exact parsePages_kept hservices hcount hdigest provenance

end Run

/-! ## Backends without a model -/

section TextBackends

variable {α : Type} [Double α] (sort : List (TextSpan α) → List (TextSpan α))

/-- `TextLayoutModelBackend` -/
def textLayout : LayoutBackend α := fun _ page text =>
  some (TextLayoutModel.analyze sort page.toPageArtifact text, [])

/-- `TextTableStructureBackend` -/
def textTables : TableBackend α := fun _ page text layout =>
  some (TextTable.recognize sort page.toPageArtifact text layout, [])

variable {page : PageArtifact} {text : PageText α}

/-- The blocks of the loop over the lines are numbered and list the lines that were placed. -/
theorem placeLine_kept {blocks : List (LayoutBlock α)} (type : LayoutBlockType)
    (previous candidate : TextLayoutModel.LineCandidate α)
    (hnumbered : NumberedBlocks page.pageNumber blocks) :
    NumberedBlocks page.pageNumber
        (TextLayoutModel.placeLine page blocks type previous candidate) ∧
      blockLines (TextLayoutModel.placeLine page blocks type previous candidate) =
        blockLines blocks ++ [candidate.index] := by
  have hnew : NumberedBlocks page.pageNumber
        (blocks ++ [TextLayoutModel.startBlock page blocks.length type candidate]) ∧
      blockLines (blocks ++ [TextLayoutModel.startBlock page blocks.length type candidate]) =
        blockLines blocks ++ [candidate.index] :=
    ⟨TextLayoutModel.ids_concat hnumbered rfl, List.flatMap_append⟩
  unfold TextLayoutModel.placeLine
  cases hlast : blocks.getLast? with
  | none =>
    obtain rfl := List.getLast?_eq_none_iff.mp hlast
    exact hnew
  | some last =>
    obtain ⟨front, rfl⟩ := List.getLast?_eq_some_iff.mp hlast
    dsimp only
    split_ifs
    · rw [List.dropLast_concat]
      constructor
      · unfold NumberedBlocks at hnumbered ⊢
        rw [List.map_append, List.length_append] at hnumbered ⊢
        exact hnumbered
      · unfold blockLines
        rw [List.flatMap_append, List.flatMap_append, List.append_assoc, List.flatMap_singleton,
          List.flatMap_singleton]
        rfl
    · exact hnew

variable (page text) in
theorem analyzeLines_kept (medianHeight : α)
    (candidates : List (TextLayoutModel.LineCandidate α)) :
    ∀ state : TextLayoutModel.AnalyzeState α, NumberedBlocks page.pageNumber state.blocks →
      NumberedBlocks page.pageNumber (candidates.foldl
        (TextLayoutModel.analyzeLine sort page text medianHeight) state).blocks ∧
      blockLines (candidates.foldl
        (TextLayoutModel.analyzeLine sort page text medianHeight) state).blocks =
          blockLines state.blocks ++ candidates.map (·.index) := by
  induction candidates with
  | nil => exact fun state h => ⟨h, (List.append_nil _).symm⟩
  | cons candidate candidates ih =>
    intro state h
    obtain ⟨hnumbered, hlines⟩ := placeLine_kept
      (TextLayoutModel.classifyLine sort page (lineAt text candidate.index) candidate
        medianHeight (!state.sawBodyLine &&
          decide (Double.ofInt (max 0 page.height) * 0.08 ≤ candidate.bbox.y0)))
      state.previousLine candidate h
    obtain ⟨hnumbered', hlines'⟩ := ih
      (TextLayoutModel.analyzeLine sort page text medianHeight state candidate) hnumbered
    refine ⟨hnumbered', hlines'.trans ?_⟩
    show blockLines (TextLayoutModel.placeLine page state.blocks _ state.previousLine candidate) ++
      _ = _
    rw [hlines, List.append_assoc]
    rfl

/-- **The text layout** numbers its blocks and lists lines of the page. -/
theorem textLayout_kept (page : PageArtifact) (text : PageText α) :
    LayoutKept page text (TextLayoutModel.analyze sort page text) [] := by
  have hnone : ∀ diagnostic ∈ ([] : List Diagnostic), Reportable [page.pageNumber] diagnostic :=
    fun _ hmem => absurd hmem List.not_mem_nil
  obtain ⟨hnumbered, hlines⟩ := analyzeLines_kept sort page text
    (TextLayoutModel.medianLineHeight (TextLayoutModel.lineCandidates text))
    (TextLayoutModel.lineCandidates text) ⟨[], false, default⟩ rfl
  unfold TextLayoutModel.analyze
  dsimp only
  split_ifs
  · exact ⟨rfl, fun index hindex => absurd hindex List.not_mem_nil, hnone⟩
  · exact ⟨rfl, fun index hindex => absurd hindex List.not_mem_nil, hnone⟩
  · refine ⟨hnumbered, fun index hindex => ?_, hnone⟩
    rw [hlines] at hindex
    obtain ⟨line, hline, -⟩ := TextLayoutModel.mem_candidate_indices.mp hindex
    unfold lineAt? at hline
    split at hline
    · cases hline
    · exact inRange_iff.mpr ⟨by omega, (List.getElem?_eq_some_iff.mp hline).1⟩

/-- **The text tables** name table blocks. -/
theorem textTables_kept (page : PageArtifact) (text : PageText α) {layout : PageLayout α}
    (hids : (layout.blocks.map (·.id)).Nodup) :
    TablesKept page layout (TextTable.recognize sort page text layout) [] := by
  refine ⟨fun table htable block hblock hid => ?_, fun _ hmem => absurd hmem List.not_mem_nil⟩
  rw [TextTable.recognize_tables] at htable
  obtain ⟨⟨source, k⟩, hsource, rfl⟩ := List.mem_map.mp htable
  obtain ⟨hmem, htype, -⟩ := TextTable.mem_filledBlocks.mp (List.fst_mem_of_mem_zipIdx hsource)
  exact List.inj_on_of_nodup_map hids hblock hmem hid ▸ htype

variable (document : DocumentSourceBundle α) (ocr : OcrBackend α)
  (readingOrder : ReadingOrderBackend α)

/-- Services without a model. -/
def textServices : PipelineServices α where
  document := document
  ocr := ocr
  layout := textLayout sort
  readingOrder := readingOrder
  table := textTables sort

/-- A source whose page count is an `int` and whose pages have a size. -/
structure SourceKept : Prop where
  pageCount : ∀ path source, document.openSource path = some source → source.pageCount < 2 ^ 31
  pages : ∀ renderer, document.renderer = some renderer →
    (∀ request pages, renderer.renderPages request = some pages → ∀ page ∈ pages, HasSize page) ∧
      ∀ request index page, renderer.renderPage request index = some page → HasSize page

variable {document}

theorem textServices_contract (h : SourceKept document) :
    ContractServices (textServices sort document ocr readingOrder) where
  pageCount := h.pageCount
  pages := h.pages
  layout read page text layout diagnostics hsome := by
    obtain ⟨rfl, rfl⟩ := Prod.mk.inj (Option.some.inj hsome)
    exact textLayout_kept sort page.toPageArtifact text
  tables read page text layout tables diagnostics hsome hnumbered := by
    obtain ⟨rfl, rfl⟩ := Prod.mk.inj (Option.some.inj hsome)
    exact textTables_kept sort page.toPageArtifact text hnumbered.nodup

end TextBackends

/-! ## A scan with a table -/

/-- Each page has a heading and a line of a table. -/
def sheetText (page : StoredPage) : NativeText ℚ :=
  { (emptyText page.pageIndex.toNat : NativeText ℚ) with
    hasText := true
    preferredSource := .ocr
    lines := [⟨"Prices", ⟨10, 20, 60, 26⟩, .ocr, 1, []⟩,
      ⟨"Total ... 5", ⟨10, 40, 90, 44⟩, .ocr, 1, []⟩] }

def sheetServices : PipelineServices ℚ :=
  textServices TextTable.sortByLeftEdge scanServices.document
    ⟨fun _ page _ => some ⟨sheetText page, 0⟩, ""⟩ scanServices.readingOrder

theorem scan_source_kept : SourceKept scanServices.document where
  pageCount path source h := by
    obtain rfl := Option.some.inj h
    show (2 : Int) < 2 ^ 31
    decide
  pages renderer h := by
    have hsize : (0 : Int) < 100 := by decide
    obtain rfl := Option.some.inj h
    refine ⟨fun request pages hpages page hpage => ?_, fun request index page hpage => ?_⟩
    · obtain rfl := Option.some.inj hpages
      rcases List.mem_cons.mp hpage with rfl | hpage
      · exact ⟨hsize, hsize⟩
      · obtain rfl := List.mem_singleton.mp hpage
        exact ⟨hsize, hsize⟩
    · obtain rfl := Option.some.inj hpage
      exact ⟨hsize, hsize⟩

theorem run_contract_sheet : ∃ parsed,
    (parseInternal scanEnvironment scanOptions (some sheetServices) none none).result =
      .ok parsed ∧ RunContract scanOptions parsed := by
  have hkept : ServicesKept scanOptions (some sheetServices) none := by
    refine ⟨fun s hs => ?_, fun create s provenance hcreate => by cases hcreate⟩
    obtain rfl := Option.some.inj hs
    exact textServices_contract _ _ _ scan_source_kept
  have hok : (parseInternal scanEnvironment scanOptions (some sheetServices) none
      none).result.isOk = true := by decide +kernel
  cases hparsed : (parseInternal scanEnvironment scanOptions (some sheetServices) none
      none).result with
  | error stopped =>
    rw [hparsed] at hok
    cases hok
  | ok parsed =>
    exact ⟨parsed, rfl, (run_contract scanEnvironment scanOptions (some sheetServices) none none
      hkept).value parsed hparsed⟩

end DocParser.Pipeline
