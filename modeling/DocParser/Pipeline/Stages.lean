import DocParser.Common.FileFingerprint
import DocParser.Document.PageRotation
import DocParser.Layout.EdgeFurniture
import DocParser.Pipeline.StageEvents
import DocParser.Pipeline.TableRecognition
import DocParser.Pipeline.TextQuality

/-!
# The stages of a page

What each stage makes of the answer of its backend. A backend is an oracle, which may read images
of pages through the reader that it is given.
-/

namespace DocParser.Pipeline

open Document Image Layout

/-- How the image of a page is read: through a cache, or from its file. -/
abbrev ReadImage := StoredPage → Mat

/-! ## Backends -/

structure RenderRequest where
  dpi : Int
  outputRoot : String
  pagesDir : String
  deriving DecidableEq, Repr

/-- `IPageRenderer`. The bitmaps that it hands to the image cache are left out. -/
structure PageRenderer where
  supportsPageRendering : Bool
  renderPages : RenderRequest → Option (List StoredPage)
  renderPage : RenderRequest → Nat → Option StoredPage

/-- `INativeTextExtractor`, for a resolution. -/
structure NativeTextExtractor (α : Type) where
  supportsPageTextExtraction : Bool
  extractNativeText : Int → Option (List (NativeText α))
  extractPageNativeText : Int → Nat → Option (NativeText α)

structure OcrResult (α : Type) where
  pageText : NativeText α
  clockwiseCorrectionDegrees : Int
  deriving DecidableEq, Repr

structure OcrBackend (α : Type) where
  recognize : ReadImage → StoredPage → Int → Option (OcrResult α)
  unavailableReason : String

abbrev LayoutBackend (α : Type) :=
  ReadImage → StoredPage → PageText α → Option (PageLayout α × List Diagnostic)

abbrev TableBackend (α : Type) :=
  ReadImage → StoredPage → PageText α → PageLayout α → Option (PageTables α × List Diagnostic)

abbrev ReadingOrderBackend (α : Type) :=
  ReadImage → StoredPage → PageLayout α → Option (PageReadingOrder α)

/-! ## Fingerprints of files -/

/-- What reading a file gives: its bytes in the pieces they are read in. -/
inductive FileContents
  | unreadable
  | broken
  | complete (chunks : List (List Fips180.Byte))

structure FileFingerprint where
  sizeBytes : Nat
  sha256 : String
  deriving DecidableEq, Repr

def fingerprintFile (path : String) : FileContents → Except Status FileFingerprint
  | .unreadable => .error (.error "source.fingerprint_open_failed"
      ("failed to open source for fingerprinting: " ++ path))
  | .broken => .error (.error "source.fingerprint_read_failed"
      ("failed while reading source for fingerprinting: " ++ path))
  | .complete chunks => .ok ⟨(chunks.map List.length).sum, String.ofList (fingerprint chunks)⟩

section Definitions

variable {α : Type} [Double α]

/-! ## Text -/

structure PageTextExtraction (α : Type) where
  value : PageText α
  diagnostics : List Diagnostic
  clockwiseCorrectionDegrees : Int
  deriving DecidableEq, Repr

/-- The warning about a page whose sparse native text is kept without OCR. -/
def ocrEnhancementFailed (page : PageArtifact) (reason : String) : Diagnostic where
  code := "OCR_ENHANCEMENT_FAILED"
  message := "OCR enhancement failed; retained usable native text"
  stage := "text"
  pageNumber := page.pageNumber
  details := [("fallback", "native_text"), ("reason", reason)]

def ocrFailedMessage (ocr : OcrBackend α) (page : PageArtifact) : String :=
  if ocr.unavailableReason.isEmpty then "OCR failed for page " ++ toString page.pageNumber
  else "OCR is required for page " ++ toString page.pageNumber ++ ": " ++ ocr.unavailableReason

/-- `TextExtractionStage::extractPage` -/
def extractPage (ocr : OcrBackend α) (read : ReadImage) (dpi : Int) (page : StoredPage)
    (native : NativeText α) : Except Status (PageTextExtraction α) :=
  let config := NativeTextQualityConfig.standard
  let quality := NativeTextQualityPolicy.evaluate config page.toPageArtifact native
  if dpi ≤ 0 then .error (.error "text.invalid_dpi" "render DPI must be positive")
  else if quality.action = .useNative then .ok ⟨native.toPageText, [], 0⟩
  else
    match ocr.recognize read page dpi with
    | none =>
      if quality.action = .mergeOcr then
        .ok ⟨native.toPageText, [ocrEnhancementFailed page.toPageArtifact quality.reason], 0⟩
      else .error (.error "text.ocr_failed" (ocrFailedMessage ocr page.toPageArtifact))
    | some result =>
      let text :=
        if quality.action = .mergeOcr then
          (NativeTextQualityPolicy.merge config native result.pageText.toPageText).text
        else result.pageText
      .ok ⟨text.toPageText, [], result.clockwiseCorrectionDegrees⟩

/-- `OrientedPageView::prepare`; `writeCorrected` turns an image and stores it at a new path. -/
def prepareView (writeCorrected : Mat → Int → Option String) (read : ReadImage)
    (rotation : PageRotation) (source : StoredPage) : Option StoredPage :=
  if rotation.degrees = 0 then some source
  else
    let input := read source
    if input.isEmpty || Int.ofNat input.cols != rotation.sourceWidth ||
        Int.ofNat input.rows != rotation.sourceHeight then none
    else
      (writeCorrected input rotation.degrees).map fun path =>
        { source with
          outputPath := path
          width := rotation.workingWidth
          height := rotation.workingHeight }

/-! ## Layout and reading order -/

/-- `LayoutAnalysisStage::analyzePage` -/
def analyzePage (layout : LayoutBackend α) (read : ReadImage) (page : StoredPage)
    (text : PageText α) : Except Status (PageLayout α × List Diagnostic) :=
  match layout read page text with
  | none => .error (.error "layout.analysis_failed"
      ("layout analysis failed for page " ++ toString page.pageNumber))
  | some (result, diagnostics) =>
    let (_, ordered) := refineMultiColumnTextLineOrder text result.blocks
    let (_, blocks) := refineEdgeFurniture page.toPageArtifact ordered
    .ok ({ result with blocks := blocks }, diagnostics)

/-- The loop of the stage, from a page on. -/
def orderPages (order : ReadingOrderBackend α) (read : ReadImage) :
    Nat → List (StoredPage × PageLayout α) → Except Status (List (PageReadingOrder α))
  | _, [] => .ok []
  | index, (page, layout) :: rest =>
    match order read page layout with
    | none => .error (.error "reading_order.backend_failed"
        ("reading order failed for page " ++ toString (index + 1)))
    | some readingOrder => do
      let readingOrders ← orderPages order read (index + 1) rest
      return readingOrder :: readingOrders

/-- `ReadingOrderStage::order` -/
def orderStage (order : ReadingOrderBackend α) (read : ReadImage) (pages : List StoredPage)
    (layouts : List (PageLayout α)) : Except Status (List (PageReadingOrder α)) :=
  if pages.length ≠ layouts.length then
    .error (.error "reading_order.page_count_mismatch"
      "page artifact count does not match layout count")
  else orderPages order read 0 (pages.zip layouts)

/-! ## Counts of pages -/

omit [Double α] in
theorem orderPages_length (order : ReadingOrderBackend α) (read : ReadImage)
    (l : List (StoredPage × PageLayout α)) : ∀ (index : Nat) (orders : List (PageReadingOrder α)),
    orderPages order read index l = .ok orders → orders.length = l.length := by
  induction l with
  | nil =>
    intro index orders h
    obtain rfl := Except.ok.inj h
    rfl
  | cons p rest ih =>
    intro index orders h
    unfold orderPages at h
    split at h
    · cases h
    · obtain ⟨others, hothers, hcons⟩ := ok_of_bind h
      obtain rfl := Except.ok.inj hcons
      rw [List.length_cons, List.length_cons, ih _ _ hothers]

omit [Double α] in
/-- Every page gets one reading order, or the stage fails. -/
theorem orderStage_length {order : ReadingOrderBackend α} {read : ReadImage}
    {pages : List StoredPage} {layouts : List (PageLayout α)}
    {orders : List (PageReadingOrder α)} (h : orderStage order read pages layouts = .ok orders) :
    orders.length = pages.length := by
  unfold orderStage at h
  split_ifs at h with hcounts
  have hlengths := not_not.mp hcounts
  rw [orderPages_length order read _ 0 orders h, List.length_zip, hlengths, Nat.min_self]

end Definitions

end DocParser.Pipeline
