import DocParser.Common.Status
import DocParser.Image.PageImageCache
import DocParser.Lib.Emission

/-!
# Events of a run

A run emits what it reports to its observer, and the calls of the renderer and of the native text
extractor. It returns, fails with a status, or ends in a way that the code does not handle. The
texts of the log and the durations of the stages are left out.
-/

namespace DocParser.Pipeline

open Image Emission

/-! ## Options and provenance -/

structure BackendOptions where
  document : String
  ocr : String
  layout : String
  table : String
  registryConfig : String
  deriving DecidableEq, Repr

structure PipelineRunOptions where
  inputPath : String
  outputDirectory : String
  dpi : Int
  debug : Bool
  timeoutSeconds : Int
  maximumPages : Int
  runId : String
  imageCacheBytes : SizeT
  backends : BackendOptions
  deriving DecidableEq, Repr

structure BackendResolution where
  requested : BackendOptions
  resolved : BackendOptions
  configSource : String
  deriving DecidableEq, Repr

structure ModelProvenance where
  stage : String
  backend : String
  role : String
  path : String
  profile : String
  deriving DecidableEq, Repr

structure FallbackProvenance where
  stage : String
  pageNumber : Int
  failedBackend : String
  fallbackBackend : String
  reason : String
  deriving DecidableEq, Repr

structure RunProvenance where
  runId : String
  engineName : String
  engineVersion : String
  gitRevision : String
  backends : BackendResolution
  models : List ModelProvenance
  fallbacks : List FallbackProvenance
  deriving DecidableEq, Repr

/-! ## Events -/

/-- The stages that a run reports on. -/
inductive Stage
  | configure | opening | render | text | layout | table | readingOrder | assembly
  deriving DecidableEq, Repr

def Stage.name : Stage → String
  | .configure => "configure"
  | .opening => "open"
  | .render => "render"
  | .text => "text"
  | .layout => "layout"
  | .table => "table"
  | .readingOrder => "reading_order"
  | .assembly => "assembly"

structure StageStartedInfo where
  stage : Stage
  backend : String
  total : Int
  deriving DecidableEq, Repr

structure StageProgressInfo where
  stage : Stage
  completed : Int
  total : Int
  deriving DecidableEq, Repr

structure StageArtifactInfo where
  stage : Stage
  kind : String
  path : String
  pageNumber : Int
  deriving DecidableEq, Repr

structure StageFailedInfo where
  stage : String
  code : String
  message : String
  retryable : Bool
  deriving DecidableEq, Repr

/-- The calls of an observer. -/
inductive StageEvent
  | runConfigured (provenance : RunProvenance)
  | warning (diagnostic : Diagnostic)
  | started (info : StageStartedInfo)
  | progress (info : StageProgressInfo)
  | artifactReady (info : StageArtifactInfo)
  | completed (stage : Stage)
  | failed (info : StageFailedInfo)
  deriving DecidableEq, Repr

/-- The calls of the renderer and of the native text extractor. -/
inductive SourceCall
  | renderPages
  | renderPage (index : Nat)
  | extractNativeText
  | extractPageNativeText (index : Nat)
  deriving DecidableEq, Repr

inductive Observation
  | event (event : StageEvent)
  | call (call : SourceCall)
  deriving DecidableEq, Repr

/-- How a run ends without a document: with a status, with an exception that leaves it, or with a
read of a line that there is not. -/
inductive Stop
  | failed (status : Status)
  | thrown (what : String)
  | undefined
  deriving DecidableEq, Repr

abbrev Run (τ : Type) := Program Observation Stop τ

def notify (event : StageEvent) : Run Unit := emit (.event event)

def called (call : SourceCall) : Run Unit := emit (.call call)

/-- `stageFailed`: a failure is reported once, and the run stops. -/
def stageFailed {τ : Type} (stage code message : String) (retryable : Bool) : Run τ := do
  notify (.failed ⟨stage, code, message, retryable⟩)
  stop (.failed ⟨code, message, stage, retryable⟩)

/-! ## Deadlines -/

/-- Where a run looks at the clock; the pages count from 0. -/
inductive Checkpoint
  | beforePages
  | beforeRender (index : Nat)
  | beforeText (index : Nat)
  | beforeLayout (index : Nat)
  | beforeTable (index : Nat)
  | beforeLinks
  | beforeReadingOrder
  | beforeAssembly
  deriving DecidableEq, Repr

/-- The nanoseconds since the start of the run. -/
abbrev RunClock := Checkpoint → Int

/-- The deadline has passed at a checkpoint. -/
def expired (options : PipelineRunOptions) (clock : RunClock) (checkpoint : Checkpoint) : Bool :=
  decide (0 < options.timeoutSeconds) &&
    decide (options.timeoutSeconds * 1000000000 ≤ clock checkpoint)

def deadlineStatus (options : PipelineRunOptions) (clock : RunClock) (checkpoint : Checkpoint)
    (nextStage : Stage) : Run Unit :=
  if expired options clock checkpoint then
    stageFailed nextStage.name "run_timeout"
      ("pipeline exceeded its " ++ toString options.timeoutSeconds ++ " second deadline") false
  else pure ()

/-! ## Stages over all pages -/

/-- A stage that is executed page by page, and reported on once. -/
structure PageStage where
  info : StageStartedInfo
  started : Bool
  diagnostics : List Diagnostic
  deriving DecidableEq, Repr

namespace PageStage

def new (stage : Stage) (backend : String) (total : Int) : PageStage :=
  ⟨⟨stage, backend, total⟩, false, []⟩

def begin (stage : PageStage) : Run PageStage := do
  if stage.started then pure stage
  else
    notify (.started stage.info)
    pure { stage with started := true }

def progress (stage : PageStage) (completed : Int) : Run Unit :=
  notify (.progress ⟨stage.info.stage, completed, stage.info.total⟩)

def warnings (stage : PageStage) (values : List Diagnostic) : Run PageStage := do
  emitAll (values.map fun value => .event (.warning value))
  pure { stage with diagnostics := stage.diagnostics ++ values }

/-- A stage that no page has reached starts at its end. -/
def beginUnreached (stage : PageStage) : Run Unit :=
  if stage.started then pure ()
  else do
    let _ ← stage.begin
    stage.progress 0

def complete (stage : PageStage) : Run Unit := do
  stage.beginUnreached
  notify (.completed stage.info.stage)

end PageStage

end DocParser.Pipeline
