import DocParser.Assembly.AssemblerContract
import DocParser.Document.Warnings
import DocParser.Pipeline.Stages

/-!
# The document pipeline

`parseInternal`, with what it reports and how it ends. Pages are rendered and their native text is
extracted one by one, or for the whole document at once and then moved out of the vectors of the
results; the other stages are executed page by page.
-/

namespace DocParser.Pipeline

open Assembly Document Emission Image

/-! ## Services and environment -/

/-- A document source after `open`. -/
structure OpenedSource where
  sourcePath : String
  sourceType : String
  pageCount : Int
  deriving DecidableEq, Repr

structure DocumentSourceBundle (α : Type) where
  openSource : String → Option OpenedSource
  renderer : Option PageRenderer
  nativeTextExtractor : Option (NativeTextExtractor α)

structure PipelineServices (α : Type) where
  document : DocumentSourceBundle α
  ocr : OcrBackend α
  layout : LayoutBackend α
  readingOrder : ReadingOrderBackend α
  table : TableBackend α

/-- `createPipelineServices` over a registry. -/
abbrev BackendRegistry (α : Type) :=
  BackendOptions → Except Status (PipelineServices α × RunProvenance)

/-- What a run reads of the machine it runs on and of its build. -/
structure Environment where
  clock : RunClock
  readFile : String → FileContents
  /-- `cv::imread` of the file of a page. -/
  readDisk : ReadImage
  /-- `readPageImage` through a cache with a budget. -/
  readCached : SizeT → ReadImage
  preprocessToFile : Mat → String → Bool
  writeCorrected : Mat → Int → Option String
  enableOpenCv : Bool
  enableOnnxRuntime : Bool
  engineVersion : String

namespace Environment

variable (env : Environment)

/-- The build has a cache of page images and can turn them. -/
def hasPageImages : Bool := env.enableOpenCv || env.enableOnnxRuntime

def readImage (options : PipelineRunOptions) : ReadImage :=
  if env.hasPageImages then env.readCached options.imageCacheBytes else env.readDisk

end Environment

/-- A run provenance as it is constructed by default. -/
def RunProvenance.initial : RunProvenance where
  runId := ""
  engineName := "technical-doc-parser"
  engineVersion := "unknown"
  gitRevision := ""
  backends := ⟨⟨"auto", "auto", "auto", "auto", ""⟩, ⟨"auto", "auto", "auto", "auto", ""⟩, ""⟩
  models := []
  fallbacks := []

def resolvedBackend (resolved requested : String) : String :=
  if resolved.isEmpty then requested else resolved

/-! ## Pages -/

structure DebugImageArtifact where
  name : String
  relativeImage : String
  outputPath : String
  deriving DecidableEq, Repr

structure RenderedPage extends StoredPage where
  debugImages : List DebugImageArtifact

/-- The vectors and stages that the loop over the pages works on. -/
structure PageRun (α : Type) where
  render : PageStage
  text : PageStage
  layout : PageStage
  table : PageStage
  legacyPages : List StoredPage
  legacyTexts : List (NativeText α)
  legacyTextLoaded : Bool
  renderedPages : List RenderedPage
  pageTexts : List (PageText α)
  pageLayouts : List (PageLayout α)
  pageTables : List (PageTables α)
  pageRotations : List PageRotation
  sourceImagePaths : List String

/-- The files of a page. -/
structure PageFiles where
  outputPath : String
  debugImages : List DebugImageArtifact
  deriving DecidableEq, Repr

/-- What a successful run leaves: the document, the page artifacts and the provenance. -/
structure ParsedRun (α : Type) where
  document : ParsedDocument α
  pages : List (PipelinePageArtifacts α)
  files : List PageFiles
  provenance : RunProvenance
  deriving DecidableEq, Repr

/-- `operator/` of paths. -/
def joinPath (directory name : String) : String :=
  if directory.isEmpty || directory.toList.getLast? == some '/' then directory ++ name
  else directory ++ "/" ++ name

/-- A page whose strings were moved away. -/
def movedPage (page : StoredPage) : StoredPage :=
  { page with relativeImage := "", outputPath := "" }

section Definitions

variable {α : Type} [Double α]

def movedText (text : NativeText α) : NativeText α := { text with lines := [] }

/-- A text as the stage prepares it for an extractor. -/
def emptyText (index : Nat) : NativeText α where
  pageIndex := index
  pageNumber := index + 1
  hasText := false
  preferredSource := .unknown
  lines := []
  extractionSignals := ⟨0, 0, 0, Vector.replicate 32 0⟩

/-! ## Diagnostics -/

/-- The fallback that a diagnostic reports. -/
def fallbackOf (diagnostic : Diagnostic) : Option FallbackProvenance := do
  let failed ← diagnostic.details.lookup "failed_backend"
  let fallback ← diagnostic.details.lookup "fallback_backend"
  return ⟨diagnostic.stage, diagnostic.pageNumber, failed, fallback,
    (diagnostic.details.lookup "reason").getD diagnostic.message⟩

/-- `recordDiagnostics`, without the calls of the observer. -/
def recordDiagnostics (diagnostics : List Diagnostic) (provenance : RunProvenance) :
    RunProvenance :=
  { provenance with fallbacks := provenance.fallbacks ++ diagnostics.filterMap fallbackOf }

def runWarning (diagnostic : Diagnostic) : DocumentWarning where
  code := diagnostic.code
  message := diagnostic.message
  stage := diagnostic.stage
  pageId := if 0 < diagnostic.pageNumber then "page_" ++ toString diagnostic.pageNumber else ""
  blockId := ""
  details := diagnostic.details
  occurrenceCount := 1
  pageIds := []

def applyRunMetadata (options : PipelineRunOptions) (diagnostics : List Diagnostic)
    (provenance : RunProvenance) (document : ParsedDocument α) : ParsedDocument α :=
  let warnings := aggregateWarnings (diagnostics.map runWarning)
  { document with
    producer := ⟨provenance.engineName, provenance.engineVersion, provenance.gitRevision,
      options.runId⟩
    warnings := warnings
    status := if warnings.isEmpty then document.status else .partially }

variable (env : Environment) (options : PipelineRunOptions)

/-! ## Before the pages -/

/-- The services of the caller, or those that the registry creates. -/
def createServices (services : Option (PipelineServices α)) (registry : Option (BackendRegistry α)) :
    Run (PipelineServices α × RunProvenance) :=
  match services, registry with
  | some services, _ => pure (services, .initial)
  | none, none =>
    stageFailed Stage.configure.name "configure.backend_registry_required"
      "pipeline service creation requires an explicit backend registry" false
  | none, some registry =>
    match registry options.backends with
    | .error status => do
      notify (.failed ⟨status.stage, status.code, status.message, status.retryable⟩)
      stop (.failed status)
    | .ok created => pure created

def configure (services : Option (PipelineServices α)) (serviceProvenance : Option RunProvenance)
    (registry : Option (BackendRegistry α)) : Run (PipelineServices α × RunProvenance) := do
  notify (.started ⟨.configure, "registry", 1⟩)
  let (services, created) ← createServices options services registry
  let provenance := { serviceProvenance.getD created with runId := options.runId }
  notify (.progress ⟨.configure, 1, 1⟩)
  notify (.completed .configure)
  notify (.runConfigured provenance)
  pure (services, provenance)

variable (services : PipelineServices α)

/-- The checks on the opened document. -/
def checkSource (source : OpenedSource) : Run FileFingerprint :=
  match fingerprintFile source.sourcePath (env.readFile source.sourcePath) with
  | .error status => stageFailed Stage.opening.name status.code status.message status.retryable
  | .ok fingerprint =>
    if 0 < options.maximumPages ∧ options.maximumPages < source.pageCount then
      stageFailed Stage.opening.name "maximum_pages_exceeded"
        ("document has " ++ toString source.pageCount ++ " pages; limit is " ++
          toString options.maximumPages) false
    else pure fingerprint

def openDocument (provenance : RunProvenance) : Run (OpenedSource × FileFingerprint) := do
  notify (.started ⟨.opening,
    resolvedBackend provenance.backends.resolved.document options.backends.document, 1⟩)
  match services.document.openSource options.inputPath with
  | none =>
    stageFailed Stage.opening.name "open_document_failed" "failed to open input document" false
  | some source =>
    let fingerprint ← checkSource env options source
    notify (.progress ⟨.opening, 1, 1⟩)
    notify (.completed .opening)
    pure (source, fingerprint)

def renderRequest : RenderRequest :=
  ⟨options.dpi, options.outputDirectory, joinPath options.outputDirectory "pages"⟩

/-- The pages of a renderer that only renders whole documents. -/
def renderLegacyPages (renderer : PageRenderer) (pageCount : Nat) : Run (List StoredPage) := do
  if renderer.supportsPageRendering then pure []
  else
    called .renderPages
    match renderer.renderPages (renderRequest options) with
    | none => stageFailed Stage.render.name "render_failed" "failed to render page artifacts" true
    | some pages =>
      if pages.length ≠ pageCount then
        stageFailed Stage.render.name "render.page_count_mismatch"
          "rendered page count does not match the document" false
      else pure pages

/-- The four stages over all pages, of which the first one starts now. -/
def beginPages (provenance : RunProvenance) (renderer : PageRenderer) (pageCount : Nat) :
    Run (PageRun α) := do
  let resolved := provenance.backends.resolved
  let requested := options.backends
  let render ← (PageStage.new .render
    (resolvedBackend resolved.document requested.document) pageCount).begin
  let legacyPages ← renderLegacyPages options renderer pageCount
  pure {
    render := render
    text := .new .text (resolvedBackend resolved.ocr requested.ocr) pageCount
    layout := .new .layout (resolvedBackend resolved.layout requested.layout) pageCount
    table := .new .table (resolvedBackend resolved.table requested.table) pageCount
    legacyPages := legacyPages
    legacyTexts := []
    legacyTextLoaded := false
    renderedPages := []
    pageTexts := []
    pageLayouts := []
    pageTables := []
    pageRotations := []
    sourceImagePaths := [] }

/-! ## One page -/

def debugImageName (pageNumber : Int) : String :=
  "page_" ++ toString pageNumber ++ "_preprocessed.png"

/-- `none` when the debug image cannot be written. -/
def preprocessDebugImage (page : RenderedPage) : Option RenderedPage :=
  if !options.debug || !env.enableOpenCv then some page
  else
    let outputPath :=
      joinPath (joinPath options.outputDirectory "debug") (debugImageName page.pageNumber)
    if env.preprocessToFile (env.readImage options page.toStoredPage) outputPath then
      some { page with
        debugImages := page.debugImages ++
          [⟨"preprocessed", "debug/" ++ debugImageName page.pageNumber, outputPath⟩] }
    else none

/-- The image of a page: rendered now, or moved from the legacy pages. -/
def takePage (renderer : PageRenderer) (index : Nat) (pages : PageRun α) :
    Run (StoredPage × PageRun α) := do
  if renderer.supportsPageRendering then
    called (.renderPage index)
    match renderer.renderPage (renderRequest options) index with
    | none =>
      stageFailed Stage.render.name "render_failed"
        ("failed to render page " ++ toString (index + 1)) true
    | some page => pure (page, pages)
  else
    match pages.legacyPages[index]? with
    | none => stop .undefined
    | some page =>
      pure (page, { pages with legacyPages := pages.legacyPages.set index (movedPage page) })

def renderStep (renderer : PageRenderer) (index : Nat) (pages : PageRun α) :
    Run (RenderedPage × PageRun α) := do
  deadlineStatus options env.clock (.beforeRender index) .render
  let (page, pages) ← takePage options renderer index pages
  if page.pageIndex ≠ index ∨ page.pageNumber ≠ index + 1 then
    stageFailed Stage.render.name "render.page_identity_mismatch"
      ("rendered page identity does not match page " ++ toString (index + 1)) false
  else
    notify (.artifactReady ⟨.render, "page_image", page.outputPath, page.pageNumber⟩)
    match preprocessDebugImage env options ⟨page, []⟩ with
    | none =>
      stageFailed Stage.render.name "preprocess_failed"
        "failed to write debug preprocessing images" false
    | some page =>
      pages.render.progress (index + 1)
      pure (page, pages)

def nativeExtractionFailed (index : Nat) : Status :=
  .error "text.native_extraction_failed"
    ("native text extraction failed for page " ++ toString (index + 1))

/-- The texts of an extractor that only reads whole documents are loaded on first use; the result
says whether that went well. -/
def loadLegacyTexts (native : NativeTextExtractor α) (pages : PageRun α) :
    Run (Bool × PageRun α) := do
  if pages.legacyTextLoaded then pure (true, pages)
  else
    called .extractNativeText
    match native.extractNativeText options.dpi with
    | none => pure (false, { pages with legacyTextLoaded := true })
    | some texts => pure (true, { pages with legacyTexts := texts, legacyTextLoaded := true })

/-- The native text of a page, moved from the legacy texts. -/
def takeLegacyText (native : NativeTextExtractor α) (pageCount index : Nat) (pages : PageRun α) :
    Run (Except Status (NativeText α) × PageRun α) := do
  let (extracted, pages) ← loadLegacyTexts options native pages
  if !extracted then pure (.error (nativeExtractionFailed index), pages)
  else if pages.legacyTexts.length ≠ pageCount then
    pure (.error (.error "text.page_count_mismatch"
      "native text page count does not match page artifacts"), pages)
  else
    match pages.legacyTexts[index]? with
    | none => stop .undefined
    | some text =>
      pure (.ok text, { pages with legacyTexts := pages.legacyTexts.set index (movedText text) })

/-- The native text of a page, which is empty without an extractor. -/
def takeNativeText (pageCount index : Nat) (pages : PageRun α) :
    Run (Except Status (NativeText α) × PageRun α) :=
  match services.document.nativeTextExtractor with
  | none => pure (.ok (emptyText index), pages)
  | some native =>
    if native.supportsPageTextExtraction then do
      called (.extractPageNativeText index)
      match native.extractPageNativeText options.dpi index with
      | none => pure (.error (nativeExtractionFailed index), pages)
      | some text => pure (.ok text, pages)
    else takeLegacyText options native pageCount index pages

/-- The page and its text as the later stages see them, upright. -/
def orientPage (page : RenderedPage) (rotation : PageRotation) (text : PageText α) :
    Run (RenderedPage × PageText α) :=
  if rotation.degrees = 0 then pure (page, text)
  else if !env.hasPageImages then
    stageFailed Stage.text.name "text.orientation_unavailable"
      "corrected page images require OpenCV" false
  else
    match prepareView env.writeCorrected (env.readImage options) rotation page.toStoredPage with
    | none =>
      stageFailed Stage.text.name "text.orientation_failed"
        ("failed to prepare corrected page image for page " ++ toString page.pageNumber) false
    | some view => pure ({ page with toStoredPage := view }, rotation.textToWorking text)

def textStep (pageCount index : Nat) (page : RenderedPage) (pages : PageRun α) :
    Run (RenderedPage × PageText α × PageRun α) := do
  let text ← pages.text.begin
  deadlineStatus options env.clock (.beforeText index) .text
  let (native, pages) ← takeNativeText options services pageCount index { pages with text := text }
  match native.bind
      (extractPage services.ocr (env.readImage options) options.dpi page.toStoredPage) with
  | .error status => stageFailed Stage.text.name status.code status.message status.retryable
  | .ok extraction =>
    match PageRotation.make page.width page.height extraction.clockwiseCorrectionDegrees with
    | .error what => stageFailed Stage.text.name "text.orientation_invalid" what false
    | .ok rotation =>
      let (working, value) ← orientPage env options page rotation extraction.value
      let text ← pages.text.warnings extraction.diagnostics
      text.progress (index + 1)
      pure (working, value, { pages with
        text := text
        pageRotations := pages.pageRotations ++ [rotation]
        sourceImagePaths := pages.sourceImagePaths ++ [page.outputPath] })

def layoutStep (index : Nat) (page : RenderedPage) (text : PageText α) (pages : PageRun α) :
    Run (PageLayout α × PageRun α) := do
  let layout ← pages.layout.begin
  deadlineStatus options env.clock (.beforeLayout index) .layout
  match analyzePage services.layout (env.readImage options) page.toStoredPage text with
  | .error status => stageFailed Stage.layout.name status.code status.message status.retryable
  | .ok (value, diagnostics) =>
    let layout ← layout.warnings diagnostics
    layout.progress (index + 1)
    pure (value, { pages with layout := layout })

def tableStep (index : Nat) (page : RenderedPage) (text : PageText α) (layout : PageLayout α)
    (pages : PageRun α) : Run (PageRun α) := do
  let table ← pages.table.begin
  deadlineStatus options env.clock (.beforeTable index) .table
  match recognizePage (fun _ => services.table (env.readImage options) page.toStoredPage)
      page.toPageArtifact text layout with
  | none => stop .undefined
  | some (.error status) =>
    stageFailed Stage.table.name status.code status.message status.retryable
  | some (.ok (value, diagnostics, layout)) =>
    let table ← table.warnings diagnostics
    table.progress (index + 1)
    pure { pages with
      table := table
      renderedPages := pages.renderedPages ++ [page]
      pageTexts := pages.pageTexts ++ [text]
      pageLayouts := pages.pageLayouts ++ [layout]
      pageTables := pages.pageTables ++ [value] }

def processPage (renderer : PageRenderer) (pageCount index : Nat) (pages : PageRun α) :
    Run (PageRun α) := do
  let (page, pages) ← renderStep env options renderer index pages
  let (page, text, pages) ← textStep env options services pageCount index page pages
  let (layout, pages) ← layoutStep env options services index page text pages
  tableStep env options services index page text layout pages

/-- The loop over the pages, from an index on. -/
def processPages (renderer : PageRenderer) (pageCount : Nat) :
    Nat → Nat → PageRun α → Run (PageRun α)
  | 0, _, pages => pure pages
  | remaining + 1, index, pages => do
    let pages ← processPage env options services renderer pageCount index pages
    processPages renderer pageCount remaining (index + 1) pages

/-! ## After the pages -/

/-- The ends of the stages over all pages; the tables are linked before theirs. -/
def finishPages (pages : PageRun α) : Run (PageRun α) := do
  pages.render.complete
  pages.text.complete
  pages.layout.complete
  deadlineStatus options env.clock .beforeLinks .table
  match linkPages (pages.renderedPages.map (·.toPageArtifact)) pages.pageTables with
  | .error status => stageFailed Stage.table.name status.code status.message false
  | .ok linked =>
    pages.table.complete
    pure { pages with pageTables := linked }

/-- The reading order of all pages, whose images are read from their files again. -/
def orderStep (pages : PageRun α) : Run (List (PageReadingOrder α)) := do
  deadlineStatus options env.clock .beforeReadingOrder .readingOrder
  let total : Int := pages.renderedPages.length
  notify (.started ⟨.readingOrder, "docling-like", total⟩)
  match orderStage services.readingOrder env.readDisk (pages.renderedPages.map (·.toStoredPage))
      pages.pageLayouts with
  | .error status =>
    stageFailed Stage.readingOrder.name status.code status.message status.retryable
  | .ok orders =>
    notify (.progress ⟨.readingOrder, orders.length, total⟩)
    notify (.completed .readingOrder)
    pure orders

def assembleRequest (source : OpenedSource) (fingerprint : FileFingerprint) (pages : PageRun α)
    (orders : List (PageReadingOrder α)) : DocumentAssembleRequest α where
  sourcePath := source.sourcePath
  sourceType := source.sourceType
  dpi := options.dpi
  pages := pages.renderedPages.map (·.toPageArtifact)
  pageTexts := pages.pageTexts
  pageLayouts := pages.pageLayouts
  pageReadingOrders := orders
  pageTables := pages.pageTables
  sourceSizeBytes := some fingerprint.sizeBytes
  sourceSha256 := fingerprint.sha256

/-- The diagnostics of the stages over all pages, stage by stage. -/
def runDiagnostics (pages : PageRun α) : List Diagnostic :=
  pages.text.diagnostics ++ pages.layout.diagnostics ++ pages.table.diagnostics

def assembleStep (source : OpenedSource) (fingerprint : FileFingerprint)
    (provenance : RunProvenance) (pages : PageRun α) (orders : List (PageReadingOrder α)) :
    Run (ParsedRun α) := do
  deadlineStatus options env.clock .beforeAssembly .assembly
  notify (.started ⟨.assembly, "document-assembler", 1⟩)
  match assemble env.engineVersion (assembleRequest options source fingerprint pages orders) with
  | none =>
    stageFailed Stage.assembly.name "assembly_failed" "failed to assemble document" false
  | some (document, artifacts) =>
    match restoreSourceCoordinates document artifacts pages.pageRotations with
    | .error what => stop (.thrown what)
    | .ok (document, artifacts) =>
      let provenance := recordDiagnostics (runDiagnostics pages) provenance
      notify (.progress ⟨.assembly, 1, 1⟩)
      notify (.completed .assembly)
      pure {
        document := applyRunMetadata options (runDiagnostics pages) provenance document
        pages := artifacts
        files := pages.renderedPages.zipWith
          (fun page path => ⟨path, page.debugImages⟩) pages.sourceImagePaths
        provenance := provenance }

/-- The part of a run in which pages are rendered. -/
def parsePages (source : OpenedSource) (fingerprint : FileFingerprint)
    (provenance : RunProvenance) : Run (ParsedRun α) := do
  deadlineStatus options env.clock .beforePages .render
  match services.document.renderer with
  | none =>
    stageFailed Stage.render.name "renderer_unavailable" "document source cannot render pages" false
  | some renderer =>
    if source.pageCount < 0 then
      stageFailed Stage.render.name "render.invalid_page_count"
        "document page count must be non-negative" false
    else
      let pageCount := source.pageCount.toNat
      let pages ← beginPages options provenance renderer pageCount
      let pages ← processPages env options services renderer pageCount pageCount 0 pages
      let pages ← finishPages env options pages
      let orders ← orderStep env options services pages
      assembleStep env options source fingerprint provenance pages orders

/-- `DocumentPipeline::parseInternal`. `run` calls it with a registry, `parse` with services and
their provenance. -/
def parseInternal (services : Option (PipelineServices α)) (serviceProvenance : Option RunProvenance)
    (registry : Option (BackendRegistry α)) : Run (ParsedRun α) := do
  let (services, provenance) ← configure options services serviceProvenance registry
  let (source, fingerprint) ← openDocument env options services provenance
  parsePages env options services source fingerprint provenance

end Definitions

end DocParser.Pipeline
