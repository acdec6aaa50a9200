import Mathlib.Tactic.SplitIfs
import DocParser.Platform.Events

/-!
# Run rows

The columns of `runs` that carry the state of a run, the projection of a worker event to an
update of them, and `update_run`. An update is one atomic statement: it either changes the row
or, when its `WHERE` clause excludes the row, nothing.
-/

namespace DocParser.Platform

structure RunRow where
  attemptId : String
  status : RunStatus
  stage : Option String
  error : Option String
  executionId : Option String
  lastEventSequence : Nat
  cancelRequested : Bool
  cancelDelivered : Bool
  cancelCleaned : Bool
  deriving DecidableEq, Repr

/-- A row as `create_run` inserts it. -/
def RunRow.queued (attemptId : String) : RunRow :=
  ⟨attemptId, .queued, none, none, none, 0, false, false, false⟩

structure RunProjection where
  runId : String
  attemptId : String
  sequence : Nat
  status : RunStatus
  stage : Option String
  error : Option String
  executionId : Option String
  deriving DecidableEq, Repr

/-- `STATE_EVENT_STATUSES`; the other event types only inform. -/
def EventType.projectedStatus : EventType → Option RunStatus
  | .jobStarted | .stageStarted | .stageProgress | .artifactReady | .stageCompleted
  | .stageFailed => some .running
  | .jobSucceeded => some .succeeded
  | .jobFailed => some .failed
  | .jobCancelled => some .cancelled
  | .runConfigured | .stageWarning => none

/-- `re.fullmatch(r"execution_[1-9][0-9]*", s)`. -/
def isExecutionId (s : String) : Bool :=
  "execution_".toList.isPrefixOf s.toList &&
    match s.toList.drop 10 with
    | [] => false
    | c :: cs => c.isDigit && c != '0' && cs.all Char.isDigit

/-- `_projected_run_state`. An error is the reason why the event is discarded. -/
def projectedRunState (event : Event) : Except String (Option RunProjection) :=
  if event.runId = "" then .error "run_id must be a non-empty string"
  else if event.attemptId = "" then .error "attempt_id must be a non-empty string"
  else if event.sequence < 1 then .error "sequence must be a positive integer"
  else if event.executionId.any (!isExecutionId ·) then .error "invalid execution_id"
  else .ok (event.type.projectedStatus.map fun status =>
    ⟨event.runId, event.attemptId, event.sequence, status, event.stage, event.error,
      event.executionId⟩)

namespace RunRow

/-- The `WHERE` clause of `update_run`. -/
def Accepts (row : RunRow) (p : RunProjection) : Prop :=
  row.attemptId = p.attemptId ∧ row.lastEventSequence < p.sequence ∧
    (row.status.isTerminal = false ∨ row.status = p.status)

instance (row : RunRow) (p : RunProjection) : Decidable (row.Accepts p) :=
  inferInstanceAs (Decidable (_ ∧ _ ∧ _))

/-- `update_run` on the row of its run. The first event of another execution replaces stage and
error, a later one keeps what it does not name. -/
def update (row : RunRow) (p : RunProjection) : RunRow :=
  if row.Accepts p then
    let switched := p.executionId ≠ none ∧ row.executionId ≠ p.executionId
    { row with
      status := p.status
      stage := if switched then p.stage else p.stage <|> row.stage
      error := if p.status = .cancelled then none
        else if switched then p.error else p.error <|> row.error
      executionId := p.executionId <|> row.executionId
      lastEventSequence := p.sequence }
  else row

/-- `_project_entry`: the update that an event makes on the row of its run. -/
def project (row : RunRow) (event : Event) : RunRow :=
  match projectedRunState event with
  | .ok (some p) => row.update p
  | _ => row

variable {row : RunRow} {p : RunProjection} {event : Event}

@[simp] theorem update_attemptId : (row.update p).attemptId = row.attemptId := by
  unfold update; split_ifs <;> rfl

@[simp] theorem update_cancelDelivered :
    (row.update p).cancelDelivered = row.cancelDelivered := by
  unfold update; split_ifs <;> rfl

@[simp] theorem update_cancelCleaned : (row.update p).cancelCleaned = row.cancelCleaned := by
  unfold update; split_ifs <;> rfl

/-- A terminal status never changes. -/
theorem update_status_of_terminal (h : row.status.isTerminal = true) :
    (row.update p).status = row.status := by
  unfold update
  by_cases hacc : row.Accepts p
  · rw [if_pos hacc]
    rcases hacc.2.2 with hn | heq
    · rw [h] at hn; cases hn
    · exact heq.symm
  · rw [if_neg hacc]

/-- A projection is an update or changes nothing. -/
theorem project_cases (row : RunRow) (event : Event) :
    row.project event = row ∨ ∃ p, projectedRunState event = .ok (some p) ∧
      row.project event = row.update p := by
  unfold project
  split
  next p hp => exact Or.inr ⟨p, hp, rfl⟩
  · exact Or.inl rfl

@[simp] theorem project_cancelDelivered :
    (row.project event).cancelDelivered = row.cancelDelivered := by
  rcases project_cases row event with h | ⟨p, _, h⟩ <;> rw [h]
  exact update_cancelDelivered

@[simp] theorem project_cancelCleaned :
    (row.project event).cancelCleaned = row.cancelCleaned := by
  rcases project_cases row event with h | ⟨p, _, h⟩ <;> rw [h]
  exact update_cancelCleaned

theorem project_status_of_terminal (h : row.status.isTerminal = true) :
    (row.project event).status = row.status := by
  rcases project_cases row event with heq | ⟨p, _, heq⟩ <;> rw [heq]
  exact update_status_of_terminal h

end RunRow

end DocParser.Platform
