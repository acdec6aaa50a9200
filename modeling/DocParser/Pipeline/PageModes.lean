import DocParser.Pipeline.ParseProtocol

/-!
# Page by page, or the whole document

A renderer and an extractor may work page by page or on whole documents, and images are read
through caches of any budget. `page_modes_agree`: when the oracles answer alike in both ways, the
modes succeed together and give the same document and artifacts. The pages and texts that are
still to be moved out of the vectors of a run are those of the oracles (`Ready`).
-/

namespace DocParser.Pipeline

open Document Emission Image

/-! ## Modes -/

/-- What may differ between two runs over the same oracles. -/
structure RunMode where
  pageRendering : Bool
  pageText : Bool
  imageCacheBytes : SizeT
  clock : RunClock

namespace RunMode

variable {α : Type} (mode : RunMode)

def environment (env : Environment) : Environment := { env with clock := mode.clock }

def options (options : PipelineRunOptions) : PipelineRunOptions :=
  { options with imageCacheBytes := mode.imageCacheBytes }

def renderer (renderer : PageRenderer) : PageRenderer :=
  { renderer with supportsPageRendering := mode.pageRendering }

def extractor (native : NativeTextExtractor α) : NativeTextExtractor α :=
  { native with supportsPageTextExtraction := mode.pageText }

def services (services : PipelineServices α) : PipelineServices α :=
  { services with
    document := { services.document with
      renderer := services.document.renderer.map mode.renderer
      nativeTextExtractor := services.document.nativeTextExtractor.map mode.extractor } }

def registry (registry : BackendRegistry α) : BackendRegistry α := fun options =>
  (registry options).map fun created => (mode.services created.1, created.2)

@[simp] theorem options_dpi (options : PipelineRunOptions) :
    (mode.options options).dpi = options.dpi := rfl

@[simp] theorem services_renderer (services : PipelineServices α) :
    (mode.services services).document.renderer =
      services.document.renderer.map mode.renderer := rfl

@[simp] theorem services_ocr (services : PipelineServices α) :
    (mode.services services).ocr = services.ocr := rfl

@[simp] theorem services_layout (services : PipelineServices α) :
    (mode.services services).layout = services.layout := rfl

@[simp] theorem services_table (services : PipelineServices α) :
    (mode.services services).table = services.table := rfl

end RunMode

/-- The answers for a whole document are the lists of those for its pages. -/
structure PageOracles {α : Type} (services : PipelineServices α) : Prop where
  rendering : ∀ renderer path source request, services.document.renderer = some renderer →
    services.document.openSource path = some source →
    renderer.renderPages request =
      (List.range source.pageCount.toNat).mapM (renderer.renderPage request)
  text : ∀ native path source dpi, services.document.nativeTextExtractor = some native →
    services.document.openSource path = some source →
    native.extractNativeText dpi =
      (List.range source.pageCount.toNat).mapM (native.extractPageNativeText dpi)

/-! ## Lists of answers -/

section Answers

variable {σ τ : Type}

theorem mapM_eq_some {f : σ → Option τ} {l : List σ} {answers : List τ} :
    l.mapM f = some answers ↔ l.map f = answers.map some := by
  induction l generalizing answers with
  | nil => cases answers <;> simp
  | cons a l ih =>
    rw [List.mapM_cons, List.map_cons]
    cases ha : f a with
    | none => cases answers <;> simp
    | some b =>
      cases answers with
      | nil => cases l.mapM f <;> simp
      | cons c answers =>
        rw [List.map_cons, List.cons.injEq, ← ih]
        cases l.mapM f <;> simp

/-- The answers for a range are those for its indices. -/
theorem getElem?_of_mapM_range {f : Nat → Option τ} {n : Nat} {answers : List τ}
    (h : (List.range n).mapM f = some answers) :
    answers.length = n ∧ ∀ j < n, answers[j]? = f j := by
  have hmap := mapM_eq_some.mp h
  have hlength : answers.length = n := by simpa using (congrArg List.length hmap).symm
  refine ⟨hlength, fun j hj => ?_⟩
  have hj' : j < answers.length := hlength.symm ▸ hj
  have hget := congrArg (fun l : List (Option τ) => l[j]?) hmap
  simp only [List.getElem?_map, List.getElem?_range hj, Option.map_some,
    List.getElem?_eq_getElem hj'] at hget
  rw [List.getElem?_eq_getElem hj']
  exact (Option.some.inj hget).symm

theorem mapM_range_of_isSome {f : Nat → Option τ} {n : Nat} (h : ∀ j < n, (f j).isSome) :
    ∃ answers, (List.range n).mapM f = some answers := by
  induction n with
  | zero => exact ⟨[], rfl⟩
  | succ n ih =>
    obtain ⟨answers, hanswers⟩ := ih fun j hj => h j (by omega)
    obtain ⟨last, hlast⟩ := Option.isSome_iff_exists.mp (h n (by omega))
    refine ⟨answers ++ [last], ?_⟩
    rw [List.range_succ, List.mapM_append, hanswers]
    simp [hlast]

end Answers

/-! ## Pages and texts that remain -/

section Remaining

variable {α : Type} [Double α] (options : PipelineRunOptions) (services : PipelineServices α)
  (renderer : PageRenderer) (pageCount : Nat) (mode : RunMode)

/-- The answer of the renderer for a page. -/
def renderedPage (index : Nat) : Option StoredPage :=
  renderer.renderPage (renderRequest options) index

omit [Double α] in
/-- The answer of the extractor for a page, if there is one. -/
def extractedText (index : Nat) : Option (NativeText α) :=
  match services.document.nativeTextExtractor with
  | none => some (emptyText index)
  | some native => native.extractPageNativeText options.dpi index

/-- The legacy pages and texts from an index on are those of the oracles. -/
structure Ready (pageIndex textIndex : Nat) (pages : PageRun α) : Prop where
  rendered : mode.pageRendering = false → ∀ j, pageIndex ≤ j → j < pageCount →
    pages.legacyPages[j]? = renderedPage options renderer j
  extracted : pages.legacyTextLoaded = true → pages.legacyTexts.length = pageCount ∧
    ∀ j, textIndex ≤ j → j < pageCount →
      pages.legacyTexts[j]? = extractedText options services j

/-- All answers that a whole document needs. -/
structure Supplied : Prop where
  rendered : ∀ j < pageCount, (renderedPage options renderer j).isSome
  extracted : ∀ j < pageCount, (extractedText options services j).isSome

variable {options services renderer pageCount mode} {pageIndex textIndex index : Nat}
  {pages : PageRun α}

omit [Double α] in
theorem takePage_returns (h : Ready options services renderer pageCount mode index textIndex pages)
    (hindex : index < pageCount) :
    Returns (fun r => renderedPage options renderer index = some r.1 ∧
        (∃ legacyPages, r.2 = { pages with legacyPages := legacyPages }) ∧
        Ready options services renderer pageCount mode (index + 1) textIndex r.2)
      (takePage (mode.options options) (mode.renderer renderer) index pages) := by
  unfold takePage
  split_ifs with hmode
  · refine Returns.after fun _ => ?_
    split
    · exact Returns.after fun _ => Returns.stopped _
    next page hpage =>
      refine Returns.returning ⟨hpage, ⟨_, rfl⟩, ⟨?_, h.extracted⟩⟩
      intro hwhole
      exact absurd (hmode.symm.trans hwhole) (by decide)
  · have hwhole : mode.pageRendering = false := Bool.not_eq_true _ ▸ hmode
    split
    · exact Returns.stopped _
    next page hpage =>
      refine Returns.returning ⟨?_, ⟨_, rfl⟩, ⟨?_, h.extracted⟩⟩
      · rw [← h.rendered hwhole index (le_refl _) hindex, hpage]
      · intro _ j hj hlt
        show (pages.legacyPages.set index (movedPage page))[j]? = _
        rw [List.getElem?_set_ne (by omega)]
        exact h.rendered hwhole j (by omega) hlt

omit [Double α] in
theorem takePage_result (h : Ready options services renderer pageCount mode index textIndex pages)
    (hindex : index < pageCount) {page : StoredPage}
    (hpage : renderedPage options renderer index = some page) :
    ∃ pages', (takePage (mode.options options) (mode.renderer renderer) index pages).result =
      .ok (page, pages') := by
  unfold takePage
  split_ifs with hmode
  · rw [result_bind_ok (a := ()) rfl]
    have hcall : (mode.renderer renderer).renderPage (renderRequest (mode.options options)) index =
        some page := hpage
    rw [hcall]
    exact ⟨pages, rfl⟩
  · have hwhole : mode.pageRendering = false := Bool.not_eq_true _ ▸ hmode
    rw [(h.rendered hwhole index (le_refl _) hindex).trans hpage]
    exact ⟨_, rfl⟩

/-- The extractor answers for the document as for its pages. -/
def TextByPage (options : PipelineRunOptions) (services : PipelineServices α) (pageCount : Nat) :
    Prop :=
  ∀ native, services.document.nativeTextExtractor = some native →
    native.extractNativeText options.dpi =
      (List.range pageCount).mapM (native.extractPageNativeText options.dpi)

omit [Double α] in
theorem extractedText_eq {native : NativeTextExtractor α}
    (hnative : services.document.nativeTextExtractor = some native) (index : Nat) :
    extractedText options services index = native.extractPageNativeText options.dpi index := by
  unfold extractedText
  rw [hnative]

omit [Double α] in
theorem loadLegacyTexts_returns {native : NativeTextExtractor α}
    (hnative : services.document.nativeTextExtractor = some native)
    (htext : TextByPage options services pageCount)
    (h : Ready options services renderer pageCount mode pageIndex textIndex pages) :
    Returns (fun r => r.1 = true →
        (∃ legacyTexts loaded,
          r.2 = { pages with legacyTexts := legacyTexts, legacyTextLoaded := loaded }) ∧
        r.2.legacyTextLoaded = true ∧
        Ready options services renderer pageCount mode pageIndex textIndex r.2)
      (loadLegacyTexts (mode.options options) (mode.extractor native) pages) := by
  unfold loadLegacyTexts
  split_ifs with hloaded
  · exact Returns.returning fun _ => ⟨⟨_, _, rfl⟩, hloaded, h⟩
  · refine Returns.after fun _ => ?_
    split
    · exact Returns.returning fun hfalse => by cases hfalse
    next texts htexts =>
      refine Returns.returning fun _ => ⟨⟨_, _, rfl⟩, rfl, h.rendered, fun _ => ?_⟩
      obtain ⟨hlength, hget⟩ := getElem?_of_mapM_range ((htext native hnative).symm.trans htexts)
      refine ⟨hlength, fun j _ hlt => ?_⟩
      rw [extractedText_eq hnative]
      exact hget j hlt

omit [Double α] in
theorem Ready.nextText (h : Ready options services renderer pageCount mode pageIndex index pages) :
    Ready options services renderer pageCount mode pageIndex (index + 1) pages :=
  ⟨h.rendered, fun hloaded => ⟨(h.extracted hloaded).1,
    fun j hj => (h.extracted hloaded).2 j (by omega)⟩⟩

omit [Double α] in
theorem takeNativeText_returns (htext : TextByPage options services pageCount)
    (h : Ready options services renderer pageCount mode pageIndex index pages)
    (hindex : index < pageCount) :
    Returns (fun r => ∀ text, r.1 = .ok text →
        extractedText options services index = some text ∧
        (∃ legacyTexts loaded,
          r.2 = { pages with legacyTexts := legacyTexts, legacyTextLoaded := loaded }) ∧
        Ready options services renderer pageCount mode pageIndex (index + 1) r.2)
      (takeNativeText (mode.options options) (mode.services services) pageCount index pages) := by
  unfold takeNativeText
  cases hnative : services.document.nativeTextExtractor with
  | none =>
    have hnone : (mode.services services).document.nativeTextExtractor = none := by
      show services.document.nativeTextExtractor.map mode.extractor = none
      rw [hnative]
      rfl
    rw [hnone]
    refine Returns.returning fun text htake => ⟨?_, ⟨_, _, rfl⟩, h.nextText⟩
    unfold extractedText
    rw [hnative, ← Except.ok.inj htake]
  | some native =>
    have hsome : (mode.services services).document.nativeTextExtractor =
        some (mode.extractor native) := by
      show services.document.nativeTextExtractor.map mode.extractor = _
      rw [hnative]
      rfl
    rw [hsome]
    dsimp only
    split_ifs with hmode
    · refine Returns.after fun _ => ?_
      split
      · exact Returns.returning fun text htake => by cases htake
      next text hextract =>
        refine Returns.returning fun text' htake => ⟨?_, ⟨_, _, rfl⟩, h.nextText⟩
        rw [extractedText_eq hnative, ← Except.ok.inj htake]
        exact hextract
    · unfold takeLegacyText
      refine (loadLegacyTexts_returns hnative htext h).bind ?_
      rintro ⟨extracted, pages'⟩ hload
      dsimp only at hload ⊢
      split_ifs with hextracted hlength
      · exact Returns.returning fun text htake => by cases htake
      · exact Returns.returning fun text htake => by cases htake
      · obtain ⟨⟨legacyTexts, loaded, rfl⟩, hloaded, hready⟩ := hload (by simpa using hextracted)
        split
        · exact Returns.stopped _
        next text hget =>
          obtain ⟨hcount, hall⟩ := hready.extracted hloaded
          refine Returns.returning fun text' htake => ⟨?_, ⟨_, _, rfl⟩, hready.rendered, fun _ => ?_⟩
          · obtain rfl := Except.ok.inj htake
            rw [← hall index (le_refl _) hindex]
            exact hget
          · refine ⟨(List.length_set ..).trans hcount, fun j hj hlt => ?_⟩
            show (legacyTexts.set index (movedText text))[j]? = _
            rw [List.getElem?_set_ne (by omega)]
            exact hall j (by omega) hlt

omit [Double α] in
/-- When every page has a text, a page gets its own. -/
theorem takeNativeText_result (htext : TextByPage options services pageCount)
    (hsupplied : Supplied options services renderer pageCount)
    (h : Ready options services renderer pageCount mode pageIndex index pages)
    (hindex : index < pageCount) {text : NativeText α}
    (hextracted : extractedText options services index = some text) :
    ∃ pages', (takeNativeText (mode.options options) (mode.services services) pageCount index
      pages).result = .ok (.ok text, pages') := by
  unfold takeNativeText
  cases hnative : services.document.nativeTextExtractor with
  | none =>
    have hnone : (mode.services services).document.nativeTextExtractor = none := by
      show services.document.nativeTextExtractor.map mode.extractor = none
      rw [hnative]
      rfl
    unfold extractedText at hextracted
    rw [hnative] at hextracted
    rw [hnone, Option.some.inj hextracted]
    exact ⟨pages, rfl⟩
  | some native =>
    have hsome : (mode.services services).document.nativeTextExtractor =
        some (mode.extractor native) := by
      show services.document.nativeTextExtractor.map mode.extractor = _
      rw [hnative]
      rfl
    rw [hsome]
    dsimp only
    rw [extractedText_eq hnative] at hextracted
    split_ifs with hmode
    · rw [result_bind_ok (a := ()) rfl]
      have hcall : (mode.extractor native).extractPageNativeText (mode.options options).dpi index =
          some text := hextracted
      rw [hcall]
      exact ⟨pages, rfl⟩
    · have hload : ∃ pages', (loadLegacyTexts (mode.options options) (mode.extractor native)
          pages).result = .ok (true, pages') := by
        unfold loadLegacyTexts
        split_ifs with hloaded
        · exact ⟨pages, rfl⟩
        · obtain ⟨texts, htexts⟩ := mapM_range_of_isSome fun j hj =>
            @extractedText_eq α options services native hnative j ▸ hsupplied.extracted j hj
          have hcall : (mode.extractor native).extractNativeText (mode.options options).dpi =
              some texts := (htext native hnative).trans htexts
          rw [result_bind_ok (a := ()) rfl, hcall]
          exact ⟨_, rfl⟩
      obtain ⟨pages', hpages'⟩ := hload
      obtain ⟨-, hloaded, hready⟩ := loadLegacyTexts_returns hnative htext h _ hpages' rfl
      obtain ⟨hcount, hall⟩ := hready.extracted hloaded
      unfold takeLegacyText
      rw [result_bind_ok hpages']
      have hget : pages'.legacyTexts[index]? = some text := by
        rw [hall index (le_refl _) hindex, extractedText_eq hnative, hextracted]
      simp only [Bool.not_true, Bool.false_eq_true, if_false, hcount, ne_eq, not_true_eq_false, hget]
      exact ⟨_, rfl⟩

end Remaining

/-! ## Two runs side by side -/

section Runs

variable {α : Type} [Double α] {env : Environment} {options : PipelineRunOptions}
  {services : PipelineServices α} {renderer : PageRenderer} {pageCount : Nat}
  {mode mode' : RunMode} {pageIndex textIndex index : Nat} {pages pages' : PageRun α}

/-- Reading an image through a cache is reading it from its file. -/
def CacheReadsDisk (env : Environment) : Prop :=
  ∀ budget page, env.readCached budget page = env.readDisk page

/-- A mode meets every deadline that another mode meets. -/
def MeetsDeadlines (options : PipelineRunOptions) (mode mode' : RunMode) : Prop :=
  ∀ checkpoint, expired options mode'.clock checkpoint = true →
    expired options mode.clock checkpoint = true

variable (options services renderer pageCount mode mode') in
/-- Two runs that have done the same, and whose remaining pages and texts are alike. -/
def Similar (pageIndex textIndex : Nat) (pages pages' : PageRun α) : Prop :=
  (∃ legacyPages legacyTexts loaded, pages' = { pages with
    legacyPages := legacyPages, legacyTexts := legacyTexts, legacyTextLoaded := loaded }) ∧
  Ready options services renderer pageCount mode pageIndex textIndex pages ∧
  Ready options services renderer pageCount mode' pageIndex textIndex pages'

theorem readImage_mode (hcache : CacheReadsDisk env) (mode : RunMode) :
    (mode.environment env).readImage (mode.options options) = env.readDisk := by
  unfold Environment.readImage
  split_ifs
  · exact funext (hcache mode.imageCacheBytes)
  · rfl

theorem preprocess_mode (hcache : CacheReadsDisk env) (mode mode' : RunMode) (page : RenderedPage) :
    preprocessDebugImage (mode.environment env) (mode.options options) page =
      preprocessDebugImage (mode'.environment env) (mode'.options options) page := by
  unfold preprocessDebugImage
  rw [readImage_mode hcache mode, readImage_mode hcache mode']
  rfl

/-- A run that fails asks nothing of another one. -/
theorem failed_refines {σ τ : Type} {R : σ → τ → Prop} {stage code message : String}
    {retryable : Bool} (y : Run τ) : Refines R (stageFailed stage code message retryable) y := by
  intro a ha
  cases ha

theorem deadline_refines (hclock : MeetsDeadlines options mode mode') (checkpoint : Checkpoint)
    (stage : Stage) :
    Refines Eq (deadlineStatus (mode.options options) mode.clock checkpoint stage)
      (deadlineStatus (mode'.options options) mode'.clock checkpoint stage) := by
  unfold deadlineStatus
  split_ifs with h h'
  · exact failed_refines _
  · exact failed_refines _
  · exact absurd (hclock checkpoint (by assumption)) h
  · exact Refines.refl _

omit [Double α] in
theorem takePage_refines (h : Similar options services renderer pageCount mode mode' index
    textIndex pages pages') (hindex : index < pageCount) :
    Refines (fun r r' => r.1 = r'.1 ∧ Similar options services renderer pageCount mode mode'
        (index + 1) textIndex r.2 r'.2)
      (takePage (mode.options options) (mode.renderer renderer) index pages)
      (takePage (mode'.options options) (mode'.renderer renderer) index pages') := by
  obtain ⟨⟨legacyPages, legacyTexts, loaded, rfl⟩, hready, hready'⟩ := h
  refine Refines.of_returns (takePage_returns hready hindex) ?_
  rintro ⟨page, after⟩ ⟨hpage, ⟨_, rfl⟩, hready⟩
  obtain ⟨after', hresult⟩ := takePage_result hready' hindex hpage
  obtain ⟨-, ⟨_, heq⟩, hready'⟩ := takePage_returns hready' hindex _ hresult
  obtain rfl : after' = _ := heq
  exact ⟨_, hresult, rfl, ⟨_, _, _, rfl⟩, hready, hready'⟩

omit [Double α] in
theorem renderStep_refines (hcache : CacheReadsDisk env) (hclock : MeetsDeadlines options mode mode')
    (h : Similar options services renderer pageCount mode mode' index textIndex pages pages')
    (hindex : index < pageCount) :
    Refines (fun r r' => r.1 = r'.1 ∧ Similar options services renderer pageCount mode mode'
        (index + 1) textIndex r.2 r'.2)
      (renderStep (mode.environment env) (mode.options options) (mode.renderer renderer) index pages)
      (renderStep (mode'.environment env) (mode'.options options) (mode'.renderer renderer) index
        pages') := by
  unfold renderStep
  refine (deadline_refines hclock _ _).bind fun _ _ _ => ?_
  refine (takePage_refines h hindex).bind ?_
  rintro ⟨page, after⟩ ⟨page', after'⟩ ⟨rfl, hsimilar⟩
  dsimp only at hsimilar ⊢
  split_ifs
  · exact failed_refines _
  · refine Refines.bind_same _ fun _ _ => ?_
    rw [preprocess_mode hcache mode mode']
    split
    · exact failed_refines _
    · obtain ⟨⟨_, _, _, rfl⟩, -, -⟩ := id hsimilar
      exact Refines.bind_same _ fun _ _ => Refines.returning ⟨rfl, hsimilar⟩

omit [Double α] in
theorem takeNativeText_refines (htext : TextByPage options services pageCount)
    (hsupplied : Supplied options services renderer pageCount)
    (h : Similar options services renderer pageCount mode mode' pageIndex index pages pages')
    (hindex : index < pageCount) :
    Refines (fun r r' => (∃ text, r.1 = .ok text ∧ r'.1 = .ok text ∧
        Similar options services renderer pageCount mode mode' pageIndex (index + 1) r.2 r'.2) ∨
          ∃ status, r.1 = .error status)
      (takeNativeText (mode.options options) (mode.services services) pageCount index pages)
      (takeNativeText (mode'.options options) (mode'.services services) pageCount index pages') := by
  obtain ⟨⟨legacyPages, legacyTexts, loaded, rfl⟩, hready, hready'⟩ := h
  obtain ⟨first, hfirst⟩ := Option.isSome_iff_exists.mp (hsupplied.extracted index hindex)
  obtain ⟨after', hresult⟩ := takeNativeText_result htext hsupplied hready' hindex hfirst
  refine Refines.of_returns (takeNativeText_returns htext hready hindex) ?_
  rintro ⟨taken, after⟩ htaken
  cases taken with
  | error status => exact ⟨_, hresult, Or.inr ⟨status, rfl⟩⟩
  | ok text =>
    obtain ⟨hextracted, ⟨_, _, rfl⟩, hready⟩ := htaken text rfl
    obtain rfl := Option.some.inj (hfirst.symm.trans hextracted)
    obtain ⟨-, ⟨_, _, heq⟩, hready'⟩ :=
      takeNativeText_returns htext hready' hindex _ hresult _ rfl
    obtain rfl : after' = _ := heq
    exact ⟨_, hresult, Or.inl ⟨first, rfl, rfl, ⟨_, _, _, rfl⟩, hready, hready'⟩⟩

theorem orientPage_mode (hcache : CacheReadsDisk env) (mode mode' : RunMode) (page : RenderedPage)
    (rotation : PageRotation) (text : PageText α) :
    orientPage (mode.environment env) (mode.options options) page rotation text =
      orientPage (mode'.environment env) (mode'.options options) page rotation text := by
  unfold orientPage
  rw [readImage_mode hcache mode, readImage_mode hcache mode']
  rfl

theorem textStep_refines (hcache : CacheReadsDisk env) (hclock : MeetsDeadlines options mode mode')
    (htext : TextByPage options services pageCount)
    (hsupplied : Supplied options services renderer pageCount)
    (h : Similar options services renderer pageCount mode mode' pageIndex index pages pages')
    (hindex : index < pageCount) (page : RenderedPage) :
    Refines (fun r r' => r.1 = r'.1 ∧ r.2.1 = r'.2.1 ∧
        Similar options services renderer pageCount mode mode' pageIndex (index + 1) r.2.2 r'.2.2)
      (textStep (mode.environment env) (mode.options options) (mode.services services) pageCount
        index page pages)
      (textStep (mode'.environment env) (mode'.options options) (mode'.services services) pageCount
        index page pages') := by
  obtain ⟨⟨legacyPages, legacyTexts, loaded, rfl⟩, hready, hready'⟩ := h
  unfold textStep
  refine Refines.bind_same _ fun begun _ => ?_
  refine (deadline_refines hclock _ _).bind fun _ _ _ => ?_
  have hbegun : Similar options services renderer pageCount mode mode' pageIndex index
      { pages with text := begun } { pages with
        text := begun, legacyPages := legacyPages, legacyTexts := legacyTexts,
        legacyTextLoaded := loaded } :=
    ⟨⟨_, _, _, rfl⟩, ⟨hready.rendered, hready.extracted⟩, ⟨hready'.rendered, hready'.extracted⟩⟩
  refine (takeNativeText_refines htext hsupplied hbegun hindex).bind ?_
  rintro ⟨taken, after⟩ ⟨taken', after'⟩ (⟨text, htaken, htaken', hsimilar⟩ | ⟨status, htaken⟩)
  · dsimp only at htaken htaken' hsimilar ⊢
    subst htaken htaken'
    simp only [readImage_mode hcache, RunMode.options_dpi, RunMode.services_ocr, Except.bind]
    split
    · exact failed_refines _
    · split
      · exact failed_refines _
      · rw [orientPage_mode hcache mode mode']
        obtain ⟨⟨_, _, _, rfl⟩, hready, hready'⟩ := hsimilar
        refine Refines.bind_same _ fun working _ => ?_
        refine Refines.bind_same _ fun warned _ => ?_
        refine Refines.bind_same _ fun _ _ => Refines.returning ⟨rfl, rfl, ⟨_, _, _, rfl⟩, ?_, ?_⟩
        · exact ⟨hready.rendered, hready.extracted⟩
        · exact ⟨hready'.rendered, hready'.extracted⟩
  · dsimp only at htaken
    subst htaken
    exact failed_refines _

theorem layoutStep_refines (hcache : CacheReadsDisk env) (hclock : MeetsDeadlines options mode mode')
    (h : Similar options services renderer pageCount mode mode' pageIndex textIndex pages pages')
    (index : Nat) (page : RenderedPage) (text : PageText α) :
    Refines (fun r r' => r.1 = r'.1 ∧ Similar options services renderer pageCount mode mode'
        pageIndex textIndex r.2 r'.2)
      (layoutStep (mode.environment env) (mode.options options) (mode.services services) index page
        text pages)
      (layoutStep (mode'.environment env) (mode'.options options) (mode'.services services) index
        page text pages') := by
  obtain ⟨⟨_, _, _, rfl⟩, hready, hready'⟩ := h
  unfold layoutStep
  rw [readImage_mode hcache mode, readImage_mode hcache mode']
  refine Refines.bind_same _ fun begun _ => ?_
  refine (deadline_refines hclock _ _).bind fun _ _ _ => ?_
  simp only [RunMode.services_layout]
  split
  · exact failed_refines _
  · refine Refines.bind_same _ fun warned _ => ?_
    refine Refines.bind_same _ fun _ _ => Refines.returning ⟨rfl, ⟨_, _, _, rfl⟩, ?_, ?_⟩
    · exact ⟨hready.rendered, hready.extracted⟩
    · exact ⟨hready'.rendered, hready'.extracted⟩

theorem tableStep_refines (hcache : CacheReadsDisk env) (hclock : MeetsDeadlines options mode mode')
    (h : Similar options services renderer pageCount mode mode' pageIndex textIndex pages pages')
    (index : Nat) (page : RenderedPage) (text : PageText α) (layout : PageLayout α) :
    Refines (Similar options services renderer pageCount mode mode' pageIndex textIndex)
      (tableStep (mode.environment env) (mode.options options) (mode.services services) index page
        text layout pages)
      (tableStep (mode'.environment env) (mode'.options options) (mode'.services services) index
        page text layout pages') := by
  obtain ⟨⟨_, _, _, rfl⟩, hready, hready'⟩ := h
  unfold tableStep
  rw [readImage_mode hcache mode, readImage_mode hcache mode']
  refine Refines.bind_same _ fun begun _ => ?_
  refine (deadline_refines hclock _ _).bind fun _ _ _ => ?_
  simp only [RunMode.services_table]
  split
  · exact Refines.stopped _ _
  · exact failed_refines _
  · refine Refines.bind_same _ fun warned _ => ?_
    refine Refines.bind_same _ fun _ _ => Refines.returning ⟨⟨_, _, _, rfl⟩, ?_, ?_⟩
    · exact ⟨hready.rendered, hready.extracted⟩
    · exact ⟨hready'.rendered, hready'.extracted⟩

/-- **One page** in two modes. -/
theorem processPage_refines (hcache : CacheReadsDisk env) (hclock : MeetsDeadlines options mode mode')
    (htext : TextByPage options services pageCount)
    (hsupplied : Supplied options services renderer pageCount)
    (h : Similar options services renderer pageCount mode mode' index index pages pages')
    (hindex : index < pageCount) :
    Refines (Similar options services renderer pageCount mode mode' (index + 1) (index + 1))
      (processPage (mode.environment env) (mode.options options) (mode.services services)
        (mode.renderer renderer) pageCount index pages)
      (processPage (mode'.environment env) (mode'.options options) (mode'.services services)
        (mode'.renderer renderer) pageCount index pages') := by
  unfold processPage
  refine (renderStep_refines hcache hclock h hindex).bind ?_
  rintro ⟨page, rendered⟩ ⟨_, rendered'⟩ ⟨rfl, h⟩
  refine (textStep_refines hcache hclock htext hsupplied h hindex page).bind ?_
  rintro ⟨page, text, extracted⟩ ⟨_, _, extracted'⟩ ⟨rfl, rfl, h⟩
  refine (layoutStep_refines hcache hclock h index page text).bind ?_
  rintro ⟨layout, analyzed⟩ ⟨_, analyzed'⟩ ⟨rfl, h⟩
  exact tableStep_refines hcache hclock h index page text layout

/-- **All pages** in two modes, by induction on those that remain. -/
theorem processPages_refines (hcache : CacheReadsDisk env)
    (hclock : MeetsDeadlines options mode mode') (htext : TextByPage options services pageCount)
    (hsupplied : Supplied options services renderer pageCount) :
    ∀ (remaining index : Nat) (pages pages' : PageRun α), index + remaining = pageCount →
      Similar options services renderer pageCount mode mode' index index pages pages' →
      Refines (Similar options services renderer pageCount mode mode' pageCount pageCount)
        (processPages (mode.environment env) (mode.options options) (mode.services services)
          (mode.renderer renderer) pageCount remaining index pages)
        (processPages (mode'.environment env) (mode'.options options) (mode'.services services)
          (mode'.renderer renderer) pageCount remaining index pages') := by
  intro remaining
  induction remaining with
  | zero =>
    intro index pages pages' hcount h
    obtain rfl : index = pageCount := hcount
    exact Refines.returning h
  | succ remaining ih =>
    intro index pages pages' hcount h
    refine (processPage_refines hcache hclock htext hsupplied h (by omega)).bind
      fun after after' h => ?_
    exact ih (index + 1) after after' (by omega) h

/-! ## A run that succeeds has had every page and text -/

omit [Double α] in
theorem renderStep_returns
    (h : Ready options services renderer pageCount mode index index pages)
    (hindex : index < pageCount) :
    Returns (fun r => (renderedPage options renderer index).isSome ∧
        Ready options services renderer pageCount mode (index + 1) index r.2)
      (renderStep (mode.environment env) (mode.options options) (mode.renderer renderer) index
        pages) := by
  unfold renderStep
  refine Returns.after fun _ => (takePage_returns h hindex).bind ?_
  rintro ⟨page, after⟩ ⟨hpage, -, hready⟩
  dsimp only at hpage hready ⊢
  split_ifs
  · exact Returns.after fun _ => Returns.stopped _
  · refine Returns.after fun _ => ?_
    split
    · exact Returns.after fun _ => Returns.stopped _
    · exact Returns.after fun _ => Returns.returning ⟨by rw [hpage]; rfl, hready⟩

theorem textStep_returns (htext : TextByPage options services pageCount)
    (h : Ready options services renderer pageCount mode (index + 1) index pages)
    (hindex : index < pageCount) (page : RenderedPage) :
    Returns (fun r => (extractedText options services index).isSome ∧
        Ready options services renderer pageCount mode (index + 1) (index + 1) r.2.2)
      (textStep (mode.environment env) (mode.options options) (mode.services services) pageCount
        index page pages) := by
  unfold textStep
  refine Returns.after fun begun => Returns.after fun _ => ?_
  have hbegun : Ready options services renderer pageCount mode (index + 1) index
      { pages with text := begun } := ⟨h.rendered, h.extracted⟩
  refine (takeNativeText_returns htext hbegun hindex).bind ?_
  rintro ⟨taken, after⟩ htaken
  cases taken with
  | error status => exact Returns.after fun _ => Returns.stopped _
  | ok text =>
    obtain ⟨htext, -, hready⟩ := htaken text rfl
    dsimp only
    split
    · exact Returns.after fun _ => Returns.stopped _
    · split
      · exact Returns.after fun _ => Returns.stopped _
      · refine Returns.after fun _ => Returns.after fun _ => Returns.after fun _ => ?_
        exact Returns.returning ⟨by rw [htext]; rfl, hready.rendered, hready.extracted⟩

theorem layoutStep_returns
    (h : Ready options services renderer pageCount mode (index + 1) (index + 1) pages)
    (page : RenderedPage) (text : PageText α) :
    Returns (fun r => Ready options services renderer pageCount mode (index + 1) (index + 1) r.2)
      (layoutStep (mode.environment env) (mode.options options) (mode.services services) index page
        text pages) := by
  unfold layoutStep
  refine Returns.after fun _ => Returns.after fun _ => ?_
  split
  · exact Returns.after fun _ => Returns.stopped _
  · refine Returns.after fun _ => Returns.after fun _ => ?_
    exact Returns.returning ⟨h.rendered, h.extracted⟩

theorem processPage_returns (htext : TextByPage options services pageCount)
    (h : Ready options services renderer pageCount mode index index pages)
    (hindex : index < pageCount) :
    Returns (fun after => (renderedPage options renderer index).isSome ∧
        (extractedText options services index).isSome ∧
        Ready options services renderer pageCount mode (index + 1) (index + 1) after)
      (processPage (mode.environment env) (mode.options options) (mode.services services)
        (mode.renderer renderer) pageCount index pages) := by
  unfold processPage
  refine (renderStep_returns h hindex).bind ?_
  rintro ⟨page, rendered⟩ ⟨hpage, hready⟩
  refine (textStep_returns htext hready hindex page).bind ?_
  rintro ⟨page, text, extracted⟩ ⟨htext, hready⟩
  refine (layoutStep_returns hready page text).bind ?_
  rintro ⟨layout, analyzed⟩ hready
  unfold tableStep
  refine Returns.after fun _ => Returns.after fun _ => ?_
  split
  · exact Returns.stopped _
  · exact Returns.after fun _ => Returns.stopped _
  · refine Returns.after fun _ => Returns.after fun _ => ?_
    exact Returns.returning ⟨hpage, htext, hready.rendered, hready.extracted⟩

theorem processPages_returns (htext : TextByPage options services pageCount) :
    ∀ (remaining index : Nat) (pages : PageRun α), index + remaining = pageCount →
      Ready options services renderer pageCount mode index index pages →
      Returns (fun _ => ∀ j, index ≤ j → j < pageCount → (renderedPage options renderer j).isSome ∧
          (extractedText options services j).isSome)
        (processPages (mode.environment env) (mode.options options) (mode.services services)
          (mode.renderer renderer) pageCount remaining index pages) := by
  intro remaining
  induction remaining with
  | zero =>
    intro index pages hcount _
    exact Returns.returning fun j hj hlt => absurd hlt (by omega)
  | succ remaining ih =>
    intro index pages hcount h
    refine (processPage_returns htext h (by omega)).bind fun after hafter => ?_
    obtain ⟨hpage, hextracted, hready⟩ := hafter
    refine (ih (index + 1) after (by omega) hready).mono fun _ hrest j hj hlt => ?_
    rcases Nat.lt_or_ge index j with hlater | hhere
    · exact hrest j hlater hlt
    · obtain rfl : j = index := by omega
      exact ⟨hpage, hextracted⟩

/-! ## Before and after the pages -/

/-- The renderer answers for the document as for its pages. -/
def RenderByPage (options : PipelineRunOptions) (renderer : PageRenderer) (pageCount : Nat) : Prop :=
  renderer.renderPages (renderRequest options) =
    (List.range pageCount).mapM (renderer.renderPage (renderRequest options))

/-- The legacy pages of a renderer that does not render page by page. -/
def LegacyReady (options : PipelineRunOptions) (renderer : PageRenderer) (pageCount : Nat)
    (mode : RunMode) (legacyPages : List StoredPage) : Prop :=
  mode.pageRendering = false → ∀ j < pageCount,
    legacyPages[j]? = renderedPage options renderer j

theorem renderLegacyPages_returns (hrender : RenderByPage options renderer pageCount) :
    Returns (LegacyReady options renderer pageCount mode)
      (renderLegacyPages (mode.options options) (mode.renderer renderer) pageCount) := by
  unfold renderLegacyPages
  split_ifs with hmode
  · exact Returns.returning fun hwhole => absurd (hmode.symm.trans hwhole) (by decide)
  · refine Returns.after fun _ => ?_
    split
    · exact Returns.after fun _ => Returns.stopped _
    next legacyPages hpages =>
      split_ifs
      · exact Returns.after fun _ => Returns.stopped _
      · exact Returns.returning fun _ => (getElem?_of_mapM_range (hrender.symm.trans hpages)).2

theorem renderLegacyPages_result (mode : RunMode)
    (hrender : RenderByPage options renderer pageCount)
    (hpages : ∀ j < pageCount, (renderedPage options renderer j).isSome) :
    ∃ legacyPages, (renderLegacyPages (mode.options options) (mode.renderer renderer)
      pageCount).result = .ok legacyPages := by
  unfold renderLegacyPages
  split_ifs
  · exact ⟨[], rfl⟩
  · obtain ⟨legacyPages, hall⟩ := mapM_range_of_isSome hpages
    have hcall : (mode.renderer renderer).renderPages (renderRequest (mode.options options)) =
        some legacyPages := hrender.trans hall
    have hlength := (getElem?_of_mapM_range hall).1
    rw [result_bind_ok (a := ()) rfl, hcall]
    simp only [hlength, ne_eq, not_true_eq_false, if_false]
    exact ⟨legacyPages, rfl⟩

theorem renderLegacyPages_refines (hrender : RenderByPage options renderer pageCount)
    (hpages : ∀ j < pageCount, (renderedPage options renderer j).isSome) :
    Refines (fun legacyPages legacyPages' =>
        LegacyReady options renderer pageCount mode legacyPages ∧
        LegacyReady options renderer pageCount mode' legacyPages')
      (renderLegacyPages (mode.options options) (mode.renderer renderer) pageCount)
      (renderLegacyPages (mode'.options options) (mode'.renderer renderer) pageCount) := by
  obtain ⟨legacyPages', hresult⟩ := renderLegacyPages_result mode' hrender hpages
  refine Refines.of_returns (renderLegacyPages_returns hrender) fun legacyPages hlegacy => ?_
  exact ⟨legacyPages', hresult, hlegacy, renderLegacyPages_returns hrender _ hresult⟩

variable (services) in
omit [Double α] in
theorem beginPages_returns (hrender : RenderByPage options renderer pageCount)
    (provenance : RunProvenance) :
    Returns (Ready options services renderer pageCount mode 0 0)
      (beginPages (mode.options options) provenance (mode.renderer renderer) pageCount) := by
  unfold beginPages
  refine Returns.after fun _ => (renderLegacyPages_returns hrender).bind fun legacyPages hlegacy => ?_
  exact Returns.returning ⟨fun hwhole j _ hlt => hlegacy hwhole j hlt, nofun⟩

omit [Double α] in
theorem beginPages_refines (hrender : RenderByPage options renderer pageCount)
    (hsupplied : Supplied options services renderer pageCount) (provenance : RunProvenance) :
    Refines (Similar options services renderer pageCount mode mode' 0 0)
      (beginPages (mode.options options) provenance (mode.renderer renderer) pageCount)
      (beginPages (mode'.options options) provenance (mode'.renderer renderer) pageCount) := by
  unfold beginPages
  refine Refines.bind_same _ fun render _ => ?_
  refine (renderLegacyPages_refines hrender hsupplied.rendered).bind ?_
  rintro legacyPages legacyPages' ⟨hlegacy, hlegacy'⟩
  refine Refines.returning ⟨⟨legacyPages', [], false, rfl⟩, ?_, ?_⟩
  · exact ⟨fun hwhole j _ hlt => hlegacy hwhole j hlt, nofun⟩
  · exact ⟨fun hwhole j _ hlt => hlegacy' hwhole j hlt, nofun⟩

theorem finishPages_refines (hclock : MeetsDeadlines options mode mode')
    (h : Similar options services renderer pageCount mode mode' pageIndex textIndex pages pages') :
    Refines (Similar options services renderer pageCount mode mode' pageIndex textIndex)
      (finishPages (mode.environment env) (mode.options options) pages)
      (finishPages (mode'.environment env) (mode'.options options) pages') := by
  obtain ⟨⟨_, _, _, rfl⟩, hready, hready'⟩ := h
  unfold finishPages
  refine Refines.bind_same _ fun _ _ => Refines.bind_same _ fun _ _ => ?_
  refine Refines.bind_same _ fun _ _ => (deadline_refines hclock _ _).bind fun _ _ _ => ?_
  dsimp only
  split
  · exact failed_refines _
  · refine Refines.bind_same _ fun _ _ => Refines.returning ⟨⟨_, _, _, rfl⟩, ?_, ?_⟩
    · exact ⟨hready.rendered, hready.extracted⟩
    · exact ⟨hready'.rendered, hready'.extracted⟩

omit [Double α] in
theorem orderStep_refines (hclock : MeetsDeadlines options mode mode')
    (h : Similar options services renderer pageCount mode mode' pageIndex textIndex pages pages') :
    Refines Eq
      (orderStep (mode.environment env) (mode.options options) (mode.services services) pages)
      (orderStep (mode'.environment env) (mode'.options options) (mode'.services services)
        pages') := by
  obtain ⟨⟨_, _, _, rfl⟩, -, -⟩ := h
  unfold orderStep
  exact (deadline_refines hclock _ _).bind fun _ _ _ => Refines.refl _

theorem assembleStep_refines (hclock : MeetsDeadlines options mode mode')
    (h : Similar options services renderer pageCount mode mode' pageIndex textIndex pages pages')
    (source : OpenedSource) (fingerprint : FileFingerprint) (provenance : RunProvenance)
    (orders : List (PageReadingOrder α)) :
    Refines Eq
      (assembleStep (mode.environment env) (mode.options options) source fingerprint provenance pages
        orders)
      (assembleStep (mode'.environment env) (mode'.options options) source fingerprint provenance
        pages' orders) := by
  obtain ⟨⟨_, _, _, rfl⟩, -, -⟩ := h
  unfold assembleStep
  exact (deadline_refines hclock _ _).bind fun _ _ _ => Refines.refl _

omit [Double α] in
theorem PageOracles.byPage (h : PageOracles services) (options : PipelineRunOptions)
    {path : String} {source : OpenedSource}
    (hsource : services.document.openSource path = some source) :
    TextByPage options services source.pageCount.toNat ∧
      ∀ renderer, services.document.renderer = some renderer →
        RenderByPage options renderer source.pageCount.toNat :=
  ⟨fun native hnative => h.text native path source _ hnative hsource,
    fun renderer hrenderer => h.rendering renderer path source _ hrenderer hsource⟩

/-- **From the pages on**, in two modes. -/
theorem parsePages_refines (hcache : CacheReadsDisk env) (hclock : MeetsDeadlines options mode mode')
    (horacles : PageOracles services) {source : OpenedSource}
    (hsource : services.document.openSource options.inputPath = some source)
    (fingerprint : FileFingerprint) (provenance : RunProvenance) :
    Refines Eq
      (parsePages (mode.environment env) (mode.options options) (mode.services services) source
        fingerprint provenance)
      (parsePages (mode'.environment env) (mode'.options options) (mode'.services services) source
        fingerprint provenance) := by
  obtain ⟨htext, hrendering⟩ := horacles.byPage options hsource
  unfold parsePages
  refine (deadline_refines hclock _ _).bind fun _ _ _ => ?_
  simp only [RunMode.services_renderer]
  cases hrenderer : services.document.renderer with
  | none => exact failed_refines _
  | some renderer =>
    have hrender := hrendering renderer hrenderer
    dsimp only [Option.map_some]
    split_ifs with hnegative
    · exact failed_refines _
    · generalize source.pageCount.toNat = pageCount at htext hrender ⊢
      -- that the first run succeeds says that the oracles answer for every page
      intro parsed hparsed
      have hsupplied : Supplied options services renderer pageCount := by
        obtain ⟨pages, hbegin, hrest⟩ := ok_of_bind_ok hparsed
        obtain ⟨after, hpages, -⟩ := ok_of_bind_ok hrest
        have hready := beginPages_returns services hrender provenance pages hbegin
        have hall := processPages_returns htext pageCount 0 pages (Nat.zero_add _) hready after hpages
        exact ⟨fun j hj => (hall j (Nat.zero_le _) hj).1, fun j hj => (hall j (Nat.zero_le _) hj).2⟩
      refine (beginPages_refines hrender hsupplied provenance).bind (fun pages pages' h => ?_) parsed
        hparsed
      refine (processPages_refines hcache hclock htext hsupplied pageCount 0 pages pages'
        (Nat.zero_add _) h).bind fun pages pages' h => ?_
      refine (finishPages_refines hclock h).bind fun pages pages' h => ?_
      refine (orderStep_refines hclock h).bind ?_
      rintro orders _ rfl
      exact assembleStep_refines hclock h source fingerprint provenance orders

/-! ## Whole runs -/

/-- The services that a run can use: those of the caller, or those that the registry creates. -/
def Available (options : PipelineRunOptions) (services : Option (PipelineServices α))
    (registry : Option (BackendRegistry α)) (candidate : PipelineServices α) : Prop :=
  services = some candidate ∨
    ∃ create provenance, registry = some create ∧
      create options.backends = .ok (candidate, provenance)

/-- What two modes of the same services have in common. -/
def SameServices (options : PipelineRunOptions) (services : Option (PipelineServices α))
    (registry : Option (BackendRegistry α)) (mode mode' : RunMode)
    (created created' : PipelineServices α × RunProvenance) : Prop :=
  ∃ candidate provenance, Available options services registry candidate ∧
    created = (mode.services candidate, provenance) ∧
    created' = (mode'.services candidate, provenance)

variable {candidates : Option (PipelineServices α)} {registry : Option (BackendRegistry α)}

omit [Double α] in
theorem createServices_refines :
    Refines (SameServices options candidates registry mode mode')
      (createServices (mode.options options) (candidates.map mode.services)
        (registry.map mode.registry))
      (createServices (mode'.options options) (candidates.map mode'.services)
        (registry.map mode'.registry)) := by
  unfold createServices
  cases candidates with
  | some candidate =>
    exact Refines.returning ⟨candidate, .initial, Or.inl rfl, rfl, rfl⟩
  | none =>
    cases registry with
    | none => exact failed_refines _
    | some create =>
      dsimp only [Option.map_none, Option.map_some, RunMode.registry, RunMode.options]
      cases hcreate : create options.backends with
      | error status =>
        intro created hcreated
        cases hcreated
      | ok created =>
        obtain ⟨candidate, provenance⟩ := created
        exact Refines.returning
          ⟨candidate, provenance, Or.inr ⟨create, provenance, rfl, hcreate⟩, rfl, rfl⟩

omit [Double α] in
theorem configure_refines (serviceProvenance : Option RunProvenance) :
    Refines (SameServices options candidates registry mode mode')
      (configure (mode.options options) (candidates.map mode.services) serviceProvenance
        (registry.map mode.registry))
      (configure (mode'.options options) (candidates.map mode'.services) serviceProvenance
        (registry.map mode'.registry)) := by
  unfold configure
  refine Refines.bind_same _ fun _ _ => createServices_refines.bind ?_
  rintro _ _ ⟨candidate, provenance, havailable, rfl, rfl⟩
  refine Refines.bind_same _ fun _ _ => Refines.bind_same _ fun _ _ => ?_
  refine Refines.bind_same _ fun _ _ => Refines.returning ?_
  exact ⟨candidate, _, havailable, rfl, rfl⟩

omit [Double α] in
/-- The document is opened in the same way, and it is the one that the oracles are about. -/
theorem openDocument_returns (provenance : RunProvenance) :
    Returns (fun opened => services.document.openSource options.inputPath = some opened.1)
      (openDocument (mode.environment env) (mode.options options) (mode.services services)
        provenance) := by
  unfold openDocument
  refine Returns.after fun _ => ?_
  have hsame : (mode.services services).document.openSource (mode.options options).inputPath =
      services.document.openSource options.inputPath := rfl
  rw [hsame]
  cases services.document.openSource options.inputPath with
  | none => exact Returns.after fun _ => Returns.stopped _
  | some source =>
    exact Returns.after fun _ => Returns.after fun _ => Returns.after fun _ => Returns.returning rfl

theorem parseInternal_refines (hcache : CacheReadsDisk env)
    (hclock : MeetsDeadlines options mode mode')
    (horacles : ∀ candidate, Available options candidates registry candidate → PageOracles candidate)
    (serviceProvenance : Option RunProvenance) :
    Refines Eq
      (parseInternal (mode.environment env) (mode.options options) (candidates.map mode.services)
        serviceProvenance (registry.map mode.registry))
      (parseInternal (mode'.environment env) (mode'.options options)
        (candidates.map mode'.services) serviceProvenance (registry.map mode'.registry)) := by
  unfold parseInternal
  refine (configure_refines serviceProvenance).bind ?_
  rintro _ _ ⟨candidate, provenance, havailable, rfl, rfl⟩
  refine Refines.bind_same _ fun opened hopened => ?_
  obtain ⟨source, fingerprint⟩ := opened
  exact parsePages_refines hcache hclock (horacles candidate havailable)
    (openDocument_returns provenance _ hopened) fingerprint provenance

/-- **The modes agree.** When a run succeeds in one mode, then it succeeds in any other one that
meets the same deadlines, with the same document, artifacts and provenance; in either mode the
renderer and the extractor are asked at most once for a whole document. -/
theorem page_modes_agree (hcache : CacheReadsDisk env) (hclock : MeetsDeadlines options mode mode')
    (horacles : ∀ candidate, Available options candidates registry candidate → PageOracles candidate)
    (serviceProvenance : Option RunProvenance) {parsed : ParsedRun α}
    (hparsed : (parseInternal (mode.environment env) (mode.options options)
      (candidates.map mode.services) serviceProvenance (registry.map mode.registry)).result =
        .ok parsed) :
    (parseInternal (mode'.environment env) (mode'.options options) (candidates.map mode'.services)
      serviceProvenance (registry.map mode'.registry)).result = .ok parsed ∧
    ∀ used ∈ [mode, mode'],
      let trace := (parseInternal (used.environment env) (used.options options)
        (candidates.map used.services) serviceProvenance (registry.map used.registry)).emitted
      trace.count (.call .renderPages) ≤ 1 ∧ trace.count (.call .extractNativeText) ≤ 1 := by
  obtain ⟨_, hparsed', rfl⟩ := parseInternal_refines hcache hclock horacles serviceProvenance _ hparsed
  exact ⟨hparsed', fun used _ => whole_document_calls _ _ _ _ _⟩

end Runs

/-! ## A scan of two pages -/

def scanRenderer : PageRenderer where
  supportsPageRendering := true
  renderPages request := (List.range 2).mapM fun index =>
    some ⟨⟨index, index + 1, "page.png", 100, 100⟩, joinPath request.pagesDir "page.png"⟩
  renderPage request index :=
    some ⟨⟨index, index + 1, "page.png", 100, 100⟩, joinPath request.pagesDir "page.png"⟩

def scanExtractor : NativeTextExtractor ℚ where
  supportsPageTextExtraction := true
  extractNativeText _ := (List.range 2).mapM fun index => some (emptyText index)
  extractPageNativeText _ index := some (emptyText index)

def scanServices : PipelineServices ℚ where
  document := ⟨fun path => some ⟨path, "pdf", 2⟩, some scanRenderer, some scanExtractor⟩
  ocr := ⟨fun _ page _ => some ⟨emptyText page.pageIndex.toNat, 0⟩, ""⟩
  layout _ page _ := some (⟨page.pageIndex, page.pageNumber, []⟩, [])
  table _ page _ _ := some (⟨page.pageIndex, page.pageNumber, []⟩, [])
  readingOrder _ page _ := some ⟨page.pageIndex, page.pageNumber, [], ⟨"", [], [], []⟩⟩

def scanEnvironment : Environment where
  clock _ := 0
  readFile _ := .complete []
  readDisk _ := .empty
  readCached _ _ := .empty
  preprocessToFile _ _ := true
  writeCorrected _ _ := none
  enableOpenCv := true
  enableOnnxRuntime := false
  engineVersion := "1.0"

def scanOptions : PipelineRunOptions :=
  ⟨"scan.pdf", "out", 200, false, 60, 0, "run", 0, ⟨"auto", "auto", "auto", "auto", ""⟩⟩

def pageWise : RunMode := ⟨true, true, 0, fun _ => 0⟩

def wholeDocument : RunMode := ⟨false, false, 1024, fun _ => 0⟩

theorem scan_oracles : PageOracles scanServices := by
  constructor
  · intro renderer path source request hrenderer hsource
    cases hrenderer
    cases hsource
    rfl
  · intro native path source dpi hnative hsource
    cases hnative
    cases hsource
    rfl

theorem page_modes_agree_scan : ∃ parsed,
    (parseInternal (wholeDocument.environment scanEnvironment) (wholeDocument.options scanOptions)
      ((some scanServices).map wholeDocument.services) none
      ((none : Option (BackendRegistry ℚ)).map wholeDocument.registry)).result = .ok parsed := by
  have hok : (parseInternal (pageWise.environment scanEnvironment) (pageWise.options scanOptions)
      ((some scanServices).map pageWise.services) none
      ((none : Option (BackendRegistry ℚ)).map pageWise.registry)).result.isOk = true := by
    decide +kernel
  cases hparsed : (parseInternal (pageWise.environment scanEnvironment)
      (pageWise.options scanOptions) ((some scanServices).map pageWise.services) none
      ((none : Option (BackendRegistry ℚ)).map pageWise.registry)).result with
  | error stopped =>
    rw [hparsed] at hok
    cases hok
  | ok parsed =>
    have horacles : ∀ candidate, Available scanOptions (some scanServices) none candidate →
        PageOracles candidate := by
      rintro candidate (hgiven | ⟨create, provenance, hcreate, -⟩)
      · obtain rfl := Option.some.inj hgiven
        exact scan_oracles
      · cases hcreate
    exact ⟨parsed, (page_modes_agree (fun _ _ => rfl) (fun _ h => h) horacles none hparsed).1⟩

end DocParser.Pipeline
