import DocParser.Lib.History
import DocParser.Lib.Transition
import DocParser.Platform.EnqueueJob

/-!
# The job outbox

Dispatchers move jobs from the outbox table to the job stream. A dispatcher selects and locks
an unpublished row, evaluates the enqueue script, sets `published_at` and commits; later it
deletes the delivery marker of a published row and records that in a second transaction. The
script takes effect while its transaction is open or not at all, but a deletion that a
dispatcher gave up may still arrive at any time. `outboxes` is the system of any number of
dispatchers, with every command lost, refused or aborted at every point. A row is never deleted.
-/

namespace DocParser.Platform

open Redis

/-- A row of `job_outbox`. `published` says that `published_at` is set. -/
structure OutboxRow where
  job : OutboxJob
  published : Bool
  markerCleaned : Bool
  deriving DecidableEq, Repr

/-- Where a dispatcher stands in `dispatch_once`. -/
inductive DispatchPhase
  | idle
  | selected (job : OutboxJob)
  | sent (job : OutboxJob)
  | answered (job : OutboxJob) (reply : Option StreamId)
  | updated (job : OutboxJob)
  | listing
  | cleaning (jobIds : List String)
  | deleting (jobId : String) (jobIds : List String)
  | deleted (jobId : String) (jobIds : List String)
  deriving DecidableEq, Repr

namespace DispatchPhase

/-- The job whose row the open transaction has locked. -/
def holds : DispatchPhase → Option OutboxJob
  | selected job | sent job | answered job _ | updated job => some job
  | _ => none

/-- The job that the script reported as delivered. -/
def delivered : DispatchPhase → Option OutboxJob
  | answered job (some _) | updated job => some job
  | _ => none

/-- The rows that the dispatcher read as published and is cleaning up. -/
def cleanup : DispatchPhase → List String
  | cleaning jobIds => jobIds
  | deleting jobId jobIds | deleted jobId jobIds => jobId :: jobIds
  | _ => []

end DispatchPhase

/-- What happened to the jobs of the outbox, over all dispatchers. -/
inductive DeliveryFact
  | appended (job : OutboxJob) (id : StreamId)
  | markerSet (jobId : String)
  | markerDeleted (jobId : String)
  | published (jobId : String)
  deriving DecidableEq, Repr

/-- The table with its row locks, the dispatchers, and the deletions on their way to Redis. -/
structure Outbox where
  rows : String → Option OutboxRow
  locks : String → Option Nat
  dispatchers : Nat → DispatchPhase
  deletes : List (Nat × String)
  history : List DeliveryFact

structure OutboxState where
  redis : RedisState
  outbox : Outbox

/-- The facts that a run of the script establishes. -/
def Enqueued.facts (job : OutboxJob) : Enqueued → List DeliveryFact
  | added id => [.appended job id, .markerSet job.jobId]
  | _ => []

namespace Outbox

variable (o : Outbox)

def setPhase (d : Nat) (p : DispatchPhase) : Outbox :=
  { o with dispatchers := Function.update o.dispatchers d p }

def setRow (jobId : String) (row : OutboxRow) : Outbox :=
  { o with rows := Function.update o.rows jobId (some row) }

def setLock (jobId : String) (holder : Option Nat) : Outbox :=
  { o with locks := Function.update o.locks jobId holder }

def log (facts : List DeliveryFact) : Outbox := { o with history := o.history ++ facts }

/-- The transaction of dispatcher `d` ends without a change of the table. -/
def rollback (d : Nat) : Outbox :=
  match (o.dispatchers d).holds with
  | some job => o.setLock job.jobId none
  | none => o

/-- `UPDATE job_outbox SET published_at=NOW()`, committed. -/
def commit (job : OutboxJob) (row : OutboxRow) : Outbox :=
  ((o.setRow job.jobId { row with published := true }).setLock job.jobId none).log
    [.published job.jobId]

/-- The marker of a job is deleted; the command of dispatcher `d` leaves the network. -/
def deleteEffect (d : Nat) (jobId : String) : Outbox :=
  { o.log [.markerDeleted jobId] with deletes := o.deletes.erase (d, jobId) }

def Published (jobId : String) : Prop :=
  ∃ row, o.rows jobId = some row ∧ row.published = true

end Outbox

inductive OutboxLabel
  | insert (job : OutboxJob)
  | dispatcher (d : Nat)
  | rest
  deriving DecidableEq, Repr

/-- One step of a dispatcher or of somebody else. -/
inductive OutboxStep (maximumLength : Nat) : OutboxState → OutboxLabel → OutboxState → Prop
  /-- `create_run`: both keys of the table are unique. -/
  | insert (r : RedisState) (o : Outbox) (job : OutboxJob) :
      o.rows job.jobId = none → (∀ jobId row, o.rows jobId = some row → row.job.runId ≠ job.runId) →
      OutboxStep maximumLength ⟨r, o⟩ (.insert job) ⟨r, o.setRow job.jobId ⟨job, false, false⟩⟩
  /-- `SELECT … FOR UPDATE SKIP LOCKED`. A row that another transaction just changed may be
  passed over, so no order among the rows is promised. -/
  | select (r : RedisState) (o : Outbox) (d : Nat) (row : OutboxRow) :
      o.dispatchers d = .idle → o.rows row.job.jobId = some row → row.published = false →
      o.locks row.job.jobId = none →
      OutboxStep maximumLength ⟨r, o⟩ (.dispatcher d)
        ⟨r, (o.setLock row.job.jobId (some d)).setPhase d (.selected row.job)⟩
  | selectNone (r : RedisState) (o : Outbox) (d : Nat) : o.dispatchers d = .idle →
      OutboxStep maximumLength ⟨r, o⟩ (.dispatcher d) ⟨r, o.setPhase d .listing⟩
  | send (r : RedisState) (o : Outbox) (d : Nat) (job : OutboxJob) :
      o.dispatchers d = .selected job →
      OutboxStep maximumLength ⟨r, o⟩ (.dispatcher d) ⟨r, o.setPhase d (.sent job)⟩
  | eval (r : RedisState) (o : Outbox) (d : Nat) (job : OutboxJob) (id : StreamId) :
      o.dispatchers d = .sent job → r.jobs.lastId < id →
      OutboxStep maximumLength ⟨r, o⟩ (.dispatcher d)
        ⟨(enqueueJob maximumLength job id r).1,
          (o.log ((enqueueJob maximumLength job id r).2.facts job)).setPhase d
            (.answered job (enqueueJob maximumLength job id r).2.reply)⟩
  /-- The stream is full: the transaction ends without an update. -/
  | full (r : RedisState) (o : Outbox) (d : Nat) (job : OutboxJob) :
      o.dispatchers d = .answered job none →
      OutboxStep maximumLength ⟨r, o⟩ (.dispatcher d) ⟨r, (o.rollback d).setPhase d .listing⟩
  | update (r : RedisState) (o : Outbox) (d : Nat) (job : OutboxJob) (id : StreamId) :
      o.dispatchers d = .answered job (some id) →
      OutboxStep maximumLength ⟨r, o⟩ (.dispatcher d) ⟨r, o.setPhase d (.updated job)⟩
  /-- The commit succeeds; the dispatcher may or may not learn of it. -/
  | commit (r : RedisState) (o : Outbox) (d : Nat) (job : OutboxJob) (row : OutboxRow)
      (learns : Bool) :
      o.dispatchers d = .updated job → o.rows job.jobId = some row →
      OutboxStep maximumLength ⟨r, o⟩ (.dispatcher d)
        ⟨r, (o.commit job row).setPhase d (if learns then .listing else .idle)⟩
  /-- An exception, an aborted commit or a crash, at any point. -/
  | fail (r : RedisState) (o : Outbox) (d : Nat) :
      OutboxStep maximumLength ⟨r, o⟩ (.dispatcher d) ⟨r, (o.rollback d).setPhase d .idle⟩
  /-- `published_outbox_jobs` reads committed rows without locking them. -/
  | list (r : RedisState) (o : Outbox) (d : Nat) (jobIds : List String) :
      o.dispatchers d = .listing → jobIds.length ≤ 50 →
      (∀ jobId ∈ jobIds, ∃ row, o.rows jobId = some row ∧ row.published = true ∧
        row.markerCleaned = false) →
      OutboxStep maximumLength ⟨r, o⟩ (.dispatcher d) ⟨r, o.setPhase d (.cleaning jobIds)⟩
  | sendDelete (r : RedisState) (o : Outbox) (d : Nat) (jobId : String) (jobIds : List String) :
      o.dispatchers d = .cleaning (jobId :: jobIds) →
      OutboxStep maximumLength ⟨r, o⟩ (.dispatcher d)
        ⟨r, { o.setPhase d (.deleting jobId jobIds) with deletes := o.deletes ++ [(d, jobId)] }⟩
  | done (r : RedisState) (o : Outbox) (d : Nat) : o.dispatchers d = .cleaning [] →
      OutboxStep maximumLength ⟨r, o⟩ (.dispatcher d) ⟨r, o.setPhase d .idle⟩
  | deleteReply (r : RedisState) (o : Outbox) (d : Nat) (jobId : String) (jobIds : List String) :
      o.dispatchers d = .deleting jobId jobIds → (d, jobId) ∈ o.deletes →
      OutboxStep maximumLength ⟨r, o⟩ (.dispatcher d)
        ⟨r.setDispatched jobId none, (o.deleteEffect d jobId).setPhase d (.deleted jobId jobIds)⟩
  /-- The deletion takes effect without an answer, perhaps long after it was given up. -/
  | deleteLate (r : RedisState) (o : Outbox) (d : Nat) (jobId : String) :
      (d, jobId) ∈ o.deletes →
      OutboxStep maximumLength ⟨r, o⟩ (.dispatcher d)
        ⟨r.setDispatched jobId none, o.deleteEffect d jobId⟩
  | deleteDrop (r : RedisState) (o : Outbox) (d : Nat) (jobId : String) :
      (d, jobId) ∈ o.deletes →
      OutboxStep maximumLength ⟨r, o⟩ (.dispatcher d)
        ⟨r, { o with deletes := o.deletes.erase (d, jobId) }⟩
  /-- `mark_outbox_marker_cleaned`. -/
  | mark (r : RedisState) (o : Outbox) (d : Nat) (jobId : String) (jobIds : List String)
      (row : OutboxRow) :
      o.dispatchers d = .deleted jobId jobIds → o.rows jobId = some row →
      row.published = true → o.locks jobId = none →
      OutboxStep maximumLength ⟨r, o⟩ (.dispatcher d)
        ⟨r, (o.setRow jobId { row with markerCleaned := true }).setPhase d (.cleaning jobIds)⟩
  /-- Workers, projectors and expiry change the rest of Redis. Only the enqueue script appends
  to the stream, and only dispatchers touch delivery markers. -/
  | rest (r r' : RedisState) (o : Outbox) :
      r'.dispatched = r.dispatched → r'.jobs.entries.Sublist r.jobs.entries →
      OutboxStep maximumLength ⟨r, o⟩ .rest ⟨r', o⟩

/-- No job, no marker, and all dispatchers idle. -/
structure OutboxState.Fresh (s : OutboxState) : Prop where
  rows : ∀ jobId, s.outbox.rows jobId = none
  locks : ∀ jobId, s.outbox.locks jobId = none
  markers : ∀ jobId, s.redis.dispatched jobId = none
  entries : s.redis.jobs.entries = []
  dispatchers : ∀ d, s.outbox.dispatchers d = .idle
  deletes : s.outbox.deletes = []
  history : s.outbox.history = []

def outboxes (maximumLength : Nat) : Transition.System OutboxState OutboxLabel where
  init := OutboxState.Fresh
  step := OutboxStep maximumLength

end DocParser.Platform
