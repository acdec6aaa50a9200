import DocParser.Platform.OutboxInvariant
import DocParser.Platform.RunRows
import DocParser.Platform.Worker

/-!
# Cancellation of runs

A cancellation is requested in the database, delivered as a marker in Redis and cleaned up once
the run has ended. Delivery and clean-up are transactions that lock the row of the run and talk
to Redis while they hold it; their commands take effect before the transaction ends or not at
all. `service` is the whole platform around them: workers, outbox dispatchers, projectors and
any number of processes that cancel, each failing at any point.
-/

namespace DocParser.Platform

open Redis

/-- `REQUEST_CANCELLATION`: the reply says whether the run was still active in the cache. -/
def requestCancellation (runId attemptId : String) (st : RedisState) : RedisState × Bool :=
  if (st.runs runId).status.any RunStatus.isTerminal then (st, false)
  else (st.setCancel runId (some attemptId), true)

/-- Where a process stands in `dispatch_cancellations` or `cleanup_cancellations`. -/
inductive CancelPhase
  | idle
  | selected (runId attemptId : String) (status : RunStatus)
  | sent (runId attemptId : String)
  | published (runId : String)
  | delivering (runId : String)
  | cleaning (runId : String)
  | removing (runId : String)
  | removed (runId : String)
  | finishing (runId : String)
  deriving DecidableEq, Repr

namespace CancelPhase

/-- The run whose row a delivery has locked. -/
def delivers : CancelPhase → Option String
  | selected runId _ _ | sent runId _ | published runId | delivering runId => some runId
  | _ => none

/-- The run whose row a clean-up has locked. -/
def cleans : CancelPhase → Option String
  | cleaning runId | removing runId | removed runId | finishing runId => some runId
  | _ => none

def holds (p : CancelPhase) : Option String := p.delivers <|> p.cleans

end CancelPhase

/-- What happened to the runs: markers set and removed, events accepted from workers, terminal
statuses and clean-ups committed. -/
inductive RunFact
  | marked (runId attemptId : String)
  | unmarked (runId : String)
  | accepted (event : Event)
  | ended (runId : String)
  | cleaned (runId : String)
  deriving DecidableEq, Repr

/-- The table of runs with its row locks, and the processes that cancel. -/
structure Cancellations where
  runs : String → Option RunRow
  locks : String → Option Nat
  processes : Nat → CancelPhase
  history : List RunFact

namespace Cancellations

variable (c : Cancellations)

def setPhase (d : Nat) (p : CancelPhase) : Cancellations :=
  { c with processes := Function.update c.processes d p }

def setRow (runId : String) (row : RunRow) : Cancellations :=
  { c with runs := Function.update c.runs runId (some row) }

def setLock (runId : String) (holder : Option Nat) : Cancellations :=
  { c with locks := Function.update c.locks runId holder }

def log (facts : List RunFact) : Cancellations := { c with history := c.history ++ facts }

/-- The transaction of process `d` ends without a change of the table. -/
def rollback (d : Nat) : Cancellations :=
  match (c.processes d).holds with
  | some runId => c.setLock runId none
  | none => c

end Cancellations

/-- The facts that a projected row establishes. -/
def RunRow.facts (row : RunRow) (runId : String) : List RunFact :=
  if row.status.isTerminal then [.ended runId] else []

/-- One step on the runs: a request, a process that cancels, or a projector. -/
inductive CancelStep : RedisState → Cancellations → RedisState → Cancellations → Prop
  /-- `request_cancellation`. Every statement on a row waits for its lock. -/
  | request (r : RedisState) (c : Cancellations) (runId : String) (row : RunRow) :
      c.runs runId = some row → c.locks runId = none → row.cancelRequested = false →
      row.status.isTerminal = false →
      CancelStep r c r (c.setRow runId { row with cancelRequested := true })
  | select (r : RedisState) (c : Cancellations) (d : Nat) (runId : String) (row : RunRow) :
      c.processes d = .idle → c.runs runId = some row → c.locks runId = none →
      row.cancelRequested = true → row.cancelDelivered = false →
      CancelStep r c r ((c.setLock runId (some d)).setPhase d
        (.selected runId row.attemptId row.status))
  | send (r : RedisState) (c : Cancellations) (d : Nat) (runId attemptId : String)
      (status : RunStatus) :
      c.processes d = .selected runId attemptId status → status.isTerminal = false →
      CancelStep r c r (c.setPhase d (.sent runId attemptId))
  /-- A run that ended in the meantime gets no marker. -/
  | skip (r : RedisState) (c : Cancellations) (d : Nat) (runId attemptId : String)
      (status : RunStatus) :
      c.processes d = .selected runId attemptId status → status.isTerminal = true →
      CancelStep r c r (c.setPhase d (.published runId))
  | eval (r : RedisState) (c : Cancellations) (d : Nat) (runId attemptId : String) :
      c.processes d = .sent runId attemptId →
      CancelStep r c (requestCancellation runId attemptId r).1
        ((c.log (if (requestCancellation runId attemptId r).2 then [.marked runId attemptId]
          else [])).setPhase d (.published runId))
  | deliver (r : RedisState) (c : Cancellations) (d : Nat) (runId : String) :
      c.processes d = .published runId →
      CancelStep r c r (c.setPhase d (.delivering runId))
  | commitDelivery (r : RedisState) (c : Cancellations) (d : Nat) (runId : String)
      (row : RunRow) :
      c.processes d = .delivering runId → c.runs runId = some row →
      CancelStep r c r (((c.setRow runId { row with cancelDelivered := true }).setLock
        runId none).setPhase d .idle)
  | selectCleanup (r : RedisState) (c : Cancellations) (d : Nat) (runId : String)
      (row : RunRow) :
      c.processes d = .idle → c.runs runId = some row → c.locks runId = none →
      row.cancelRequested = true → row.cancelCleaned = false → row.status.isTerminal = true →
      CancelStep r c r ((c.setLock runId (some d)).setPhase d (.cleaning runId))
  | sendRemove (r : RedisState) (c : Cancellations) (d : Nat) (runId : String) :
      c.processes d = .cleaning runId →
      CancelStep r c r (c.setPhase d (.removing runId))
  | remove (r : RedisState) (c : Cancellations) (d : Nat) (runId : String) :
      c.processes d = .removing runId →
      CancelStep r c (r.setCancel runId none)
        ((c.log [.unmarked runId]).setPhase d (.removed runId))
  | clean (r : RedisState) (c : Cancellations) (d : Nat) (runId : String) :
      c.processes d = .removed runId →
      CancelStep r c r (c.setPhase d (.finishing runId))
  | commitCleanup (r : RedisState) (c : Cancellations) (d : Nat) (runId : String)
      (row : RunRow) :
      c.processes d = .finishing runId → c.runs runId = some row →
      CancelStep r c r ((((c.setRow runId
        { row with cancelCleaned := true, cancelDelivered := true }).setLock runId none).log
          [.cleaned runId]).setPhase d .idle)
  /-- An exception, an aborted commit, a lost reply or a crash, at any point. -/
  | fail (r : RedisState) (c : Cancellations) (d : Nat) :
      CancelStep r c r ((c.rollback d).setPhase d .idle)
  /-- A projector delivers an accepted event, in any order and any number of times. -/
  | project (r : RedisState) (c : Cancellations) (event : Event) (row : RunRow) :
      .accepted event ∈ c.history → c.runs event.runId = some row →
      c.locks event.runId = none →
      CancelStep r c r ((c.setRow event.runId (row.project event)).log
        ((row.project event).facts event.runId))

/-! ## The whole platform -/

structure ServiceState where
  platform : PlatformState
  outbox : Outbox
  cancel : Cancellations

namespace ServiceState

variable (s : ServiceState)

def redis : RedisState := s.platform.job.redis

def setRedis (redis : RedisState) : ServiceState :=
  { s with platform := { s.platform with job := { s.platform.job with redis := redis } } }

end ServiceState

def Fact.event? : Fact → Option Event
  | accepted _ _ event => some event
  | acquired _ _ => none

/-- The events that Redis accepted from workers between two states of the job group. -/
def newEvents (s t : JobState) : List Event :=
  (t.history.drop s.history.length).filterMap Fact.event?

inductive ServiceLabel
  | worker (l : PlatformLabel)
  | createRun (job : OutboxJob)
  | dispatcher (d : Nat)
  | cancel
  | expire (runId : String)

inductive ServiceStep (group : String) (maximumLength : Nat) :
    ServiceState → ServiceLabel → ServiceState → Prop
  | worker (s : ServiceState) (l : PlatformLabel) (p : PlatformState) :
      l ≠ .rest → PlatformStep group s.platform l p →
      ServiceStep group maximumLength s (.worker l)
        { s with
          platform := p
          cancel := s.cancel.log ((newEvents s.platform.job p.job).map .accepted) }
  /-- `create_run` inserts the run and its outbox row in one transaction. -/
  | createRun (s : ServiceState) (job : OutboxJob) (o : Outbox) :
      OutboxStep maximumLength ⟨s.redis, s.outbox⟩ (.insert job) ⟨s.redis, o⟩ →
      s.cancel.runs job.runId = none →
      ServiceStep group maximumLength s (.createRun job)
        { s with outbox := o, cancel := s.cancel.setRow job.runId (.queued job.attemptId) }
  | dispatcher (s : ServiceState) (d : Nat) (r : RedisState) (o : Outbox) :
      OutboxStep maximumLength ⟨s.redis, s.outbox⟩ (.dispatcher d) ⟨r, o⟩ →
      ServiceStep group maximumLength s (.dispatcher d) { s.setRedis r with outbox := o }
  | cancel (s : ServiceState) (r : RedisState) (c : Cancellations) :
      CancelStep s.redis s.cancel r c →
      ServiceStep group maximumLength s .cancel { s.setRedis r with cancel := c }
  /-- The cache of a run expires. -/
  | expire (s : ServiceState) (runId : String) :
      ServiceStep group maximumLength s (.expire runId)
        (s.setRedis (s.redis.setRun runId .empty))

/-- No run, no job, no marker; the group exists. -/
structure ServiceState.Fresh (group : String) (s : ServiceState) : Prop where
  platform : (Platform.platform group).init s.platform
  outbox : OutboxState.Fresh ⟨s.redis, s.outbox⟩
  runs : ∀ runId, s.cancel.runs runId = none
  locks : ∀ runId, s.cancel.locks runId = none
  markers : ∀ runId, s.redis.cancels runId = none
  processes : ∀ d, s.cancel.processes d = .idle
  history : s.cancel.history = []

def service (group : String) (maximumLength : Nat) :
    Transition.System ServiceState ServiceLabel where
  init := ServiceState.Fresh group
  step := ServiceStep group maximumLength

end DocParser.Platform
