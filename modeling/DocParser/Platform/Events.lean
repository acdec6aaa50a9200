import Mathlib.Tactic.Basic

/-!
# Worker events and the cached run state

An event is what `WorkerStageObserver::publish` encodes, without the payload that no reader
of the platform looks at (timestamps, progress counters, artifact ids). It travels as JSON; the
model passes the value itself.
-/

namespace DocParser.Platform

/-- The event types of the worker protocol. -/
inductive EventType
  | jobStarted | runConfigured | stageStarted | stageProgress | stageWarning | artifactReady
  | stageCompleted | stageFailed | jobSucceeded | jobFailed | jobCancelled
  deriving DecidableEq, Repr

def EventType.name : EventType → String
  | .jobStarted => "job_started"
  | .runConfigured => "run_configured"
  | .stageStarted => "stage_started"
  | .stageProgress => "stage_progress"
  | .stageWarning => "stage_warning"
  | .artifactReady => "artifact_ready"
  | .stageCompleted => "stage_completed"
  | .stageFailed => "stage_failed"
  | .jobSucceeded => "job_succeeded"
  | .jobFailed => "job_failed"
  | .jobCancelled => "job_cancelled"

/-- `job_succeeded`, `job_failed` and `job_cancelled` end an attempt. -/
def EventType.isTerminal : EventType → Bool
  | .jobSucceeded | .jobFailed | .jobCancelled => true
  | _ => false

inductive RunStatus
  | queued | running | succeeded | failed | cancelled
  deriving DecidableEq, Repr

def RunStatus.isTerminal : RunStatus → Bool
  | .succeeded | .failed | .cancelled => true
  | _ => false

structure Event where
  type : EventType
  jobId : String
  runId : String
  attemptId : String
  sequence : Nat
  executionId : Option String
  stage : Option String
  error : Option String
  deriving DecidableEq, Repr

/-- The `run:<id>` hash. A missing field is `none`, a missing key is `RunHash.empty`. -/
structure RunHash where
  status : Option RunStatus
  stage : Option String
  error : Option String
  executionId : Option String
  lastEvent : Option Event
  deriving DecidableEq, Repr

namespace RunHash

def empty : RunHash := ⟨none, none, none, none, none⟩

/-- `HSET` of the fields that `state` gives. -/
def hset (h state : RunHash) : RunHash where
  status := state.status <|> h.status
  stage := state.stage <|> h.stage
  error := state.error <|> h.error
  executionId := state.executionId <|> h.executionId
  lastEvent := state.lastEvent <|> h.lastEvent

end RunHash

/-- The status that an event writes to the run hash. -/
def EventType.cachedStatus : EventType → Option RunStatus
  | .jobSucceeded => some .succeeded
  | .jobFailed => some .failed
  | .jobCancelled => some .cancelled
  | .jobStarted | .stageStarted => some .running
  | _ => none

/-- The state map of `WorkerStageObserver::publish`. A stage or an error of the event itself
overrides the empty values that job events write. -/
def Event.state (event : Event) : RunHash where
  status := event.type.cachedStatus
  stage := event.stage <|> if event.type = .jobStarted then some "" else none
  error := event.error <|>
    if event.type = .jobStarted ∨ event.type = .jobCancelled then some "" else none
  executionId := event.executionId
  lastEvent := some event

end DocParser.Platform
