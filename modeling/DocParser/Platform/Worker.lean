import Mathlib.Data.List.Basic
import DocParser.Platform.LeaseInvariant

/-!
# Workers over the job group

The loop of the worker's `main` as a state machine, and the system of any number of workers.
A worker sends one command at a time on its own connection and renews its lease on a second
one. A command in flight may be executed once at any later moment or never, and its reply may
be lost; the worker may stop at any point, and a restart is a new worker. `refinement` maps
every step of this system to a step of the job group.
-/

namespace DocParser.Platform

open Redis

/-- The job, run and attempt that a worker publishes for. -/
structure JobIdentity where
  jobId : String
  runId : String
  attemptId : String
  deriving DecidableEq, Repr

/-- The identity in the queue message itself; older messages name it in the Job document. -/
def JobFields.identity? (fields : JobFields) : Option JobIdentity := do
  return ⟨← fields.jobId, ← fields.runId, ← fields.attemptId⟩

/-- `WorkerStageObserver`: the identity and the sequence of the last event it numbered. -/
structure WorkerStageObserver where
  identity : JobIdentity
  executionId : String
  sequence : Nat
  deriving DecidableEq, Repr

/-- Numbers the next event, as `WorkerStageObserver::publish` does before it sends it. -/
def WorkerStageObserver.next (o : WorkerStageObserver) (type : EventType)
    (stage error : Option String) : WorkerStageObserver × Event :=
  ({ o with sequence := o.sequence + 1 },
    ⟨type, o.identity.jobId, o.identity.runId, o.identity.attemptId, o.sequence + 1,
      some o.executionId, stage, error⟩)

/-- Where the execution of a leased job stands. -/
inductive JobStage
  | starting | processing | finishing (succeeded : Bool) | cancelling
  deriving DecidableEq, Repr

structure Execution where
  lease : RedisJobLease
  observer : WorkerStageObserver
  stage : JobStage
  deriving DecidableEq, Repr

inductive Phase
  | top
  | reclaiming
  | reading
  | awaitRead
  | taken (id : StreamId) (fields : JobFields)
  | awaitAcknowledge
  | awaitAcquire (id : StreamId) (fields : JobFields)
  | leased (fields : JobFields) (lease : RedisJobLease)
  | running (e : Execution)
  | publishing (e : Execution)
  | dead
  deriving DecidableEq, Repr

structure Worker where
  consumer : String
  leaseMs : Nat
  cursor : Option StreamId
  lost : Bool
  phase : Phase
  deriving DecidableEq, Repr

namespace Worker

def fresh (consumer : String) (leaseMs : Nat) : Worker := ⟨consumer, leaseMs, none, false, .top⟩

def goto (w : Worker) (phase : Phase) : Worker := { w with phase := phase }

/-- The lease that the renewal thread looks after. -/
def lease? (w : Worker) : Option RedisJobLease :=
  match w.phase with
  | .leased _ lease => some lease
  | .running e | .publishing e => some e.lease
  | _ => none

def publish (w : Worker) (e : Execution) (type : EventType) (stage error : Option String) :
    Command × Worker :=
  let numbered := e.observer.next type stage error
  (.publish e.lease e.observer.identity.runId numbered.2,
    w.goto (.publishing { e with observer := numbered.1 }))

/-- The event types that the stages of a run report. -/
def isStageEvent : EventType → Bool
  | .runConfigured | .stageStarted | .stageProgress | .stageWarning | .artifactReady
  | .stageCompleted | .stageFailed => true
  | _ => false

/-- A worker sends a command. -/
inductive Sends : Worker → Command → Worker → Prop
  | reclaim (w : Worker) : w.phase = .top →
      Sends w (.reclaim w.consumer w.leaseMs w.cursor) (w.goto .reclaiming)
  | read (w : Worker) : w.phase = .reading → Sends w (.read w.consumer) (w.goto .awaitRead)
  /-- A message without a job path is acknowledged unread. -/
  | acknowledge (w : Worker) (id : StreamId) (fields : JobFields) :
      w.phase = .taken id fields → fields.jobPath = none →
      Sends w (.acknowledge id) (w.goto .awaitAcknowledge)
  | acquire (w : Worker) (id : StreamId) (fields : JobFields) (path : String) :
      w.phase = .taken id fields → fields.jobPath = some path →
      Sends w (.acquire w.consumer id w.leaseMs (fields.runId.getD "") (fields.attemptId.getD ""))
        (w.goto (.awaitAcquire id fields))
  | started (w : Worker) (e : Execution) : w.phase = .running e → e.stage = .starting →
      Sends w (w.publish e .jobStarted none none).1 (w.publish e .jobStarted none none).2
  | progress (w : Worker) (e : Execution) (type : EventType) (stage error : Option String) :
      w.phase = .running e → e.stage = .processing → isStageEvent type = true →
      Sends w (w.publish e type stage error).1 (w.publish e type stage error).2
  | terminal (w : Worker) (e : Execution) (succeeded : Bool) (error : Option String) :
      w.phase = .running e → e.stage = .finishing succeeded → w.lost = false →
      Sends w (w.publish e (if succeeded then .jobSucceeded else .jobFailed) none error).1
        (w.publish e (if succeeded then .jobSucceeded else .jobFailed) none error).2
  | cancelled (w : Worker) (e : Execution) : w.phase = .running e → e.stage = .cancelling →
      Sends w (w.publish e .jobCancelled none none).1 (w.publish e .jobCancelled none none).2
  /-- The renewal thread. -/
  | renew (w : Worker) (lease : RedisJobLease) : w.lease? = some lease →
      Sends w (.renew lease) w

/-- Steps of a worker that no other party sees. -/
inductive Internal : Worker → Worker → Prop
  | observe (w : Worker) (fields : JobFields) (lease : RedisJobLease) (identity : JobIdentity) :
      w.phase = .leased fields lease → (∀ i ∈ fields.identity?, i = identity) →
      Internal w (w.goto (.running
        ⟨lease, ⟨identity, "execution_" ++ toString lease.generation, lease.sequence⟩,
          .starting⟩))
  /-- Without a trustworthy identity the message stays pending. -/
  | skip (w : Worker) (fields : JobFields) (lease : RedisJobLease) :
      w.phase = .leased fields lease → Internal w (w.goto .top)
  /-- The job ends, by its result or by an exception before it started. -/
  | finish (w : Worker) (e : Execution) (succeeded : Bool) :
      w.phase = .running e → e.stage = .processing ∨ e.stage = .starting ∧ succeeded = false →
      Internal w (w.goto (.running { e with stage := .finishing succeeded }))
  | lost (w : Worker) (e : Execution) (succeeded : Bool) :
      w.phase = .running e → e.stage = .finishing succeeded → w.lost = true →
      Internal w (w.goto .dead)

/-- The reply to a publication: accepted, refused for a cancellation, or an exception. -/
def afterPublish (e : Execution) (accepted : Option Bool) : Phase :=
  match e.stage, accepted with
  | .starting, some true | .processing, some true => .running { e with stage := .processing }
  | .finishing _, some true | .cancelling, some true => .top
  | .finishing _, some false => .running { e with stage := .cancelling }
  | .starting, _ | .processing, _ => .running { e with stage := .finishing false }
  | .finishing _, none | .cancelling, _ => .dead

/-- What a worker does when a command raises instead of answering. -/
def fail (w : Worker) (c : Command) : Worker :=
  match c, w.phase with
  | .renew _, _ => { w with lost := true }
  | _, .publishing e => w.goto (afterPublish e none)
  | _, _ => w.goto .dead

/-- What a worker does with the reply to a command. -/
def receive (w : Worker) (c : Command) (r : Reply) : Worker :=
  match r, w.phase with
  | .claimed cursor (some (id, fields)), .reclaiming =>
    { w with cursor := cursor, phase := .taken id fields }
  | .claimed cursor none, .reclaiming => { w with cursor := cursor, phase := .reading }
  | .message (some (id, fields)), .awaitRead => w.goto (.taken id fields)
  | .message none, .awaitRead => w.goto .top
  | .acknowledged, .awaitAcknowledge => w.goto .top
  | .acquired none, .awaitAcquire _ _ => w.goto .top
  | .acquired (some (generation, sequence)), .awaitAcquire id fields =>
    { w with
      lost := false
      phase := .leased fields ⟨id, w.consumer, generation, sequence, w.leaseMs⟩ }
  | .published accepted, .publishing e => w.goto (afterPublish e (some accepted))
  | .renewed live, _ => if live then w else { w with lost := true }
  | _, _ => w.fail c

end Worker

/-! ## The system of workers -/

structure PlatformState where
  job : JobState
  workers : Nat → Option Worker
  inflight : List (Nat × Command)

inductive PlatformLabel
  | start (i : Nat)
  | send (i : Nat) (c : Command)
  | internal (i : Nat)
  | reply (i : Nat) (c : Command) (now : Nat)
  | loseReply (i : Nat) (c : Command) (now : Nat)
  | drop (i : Nat) (c : Command)
  | crash (i : Nat)
  | rest

def PlatformState.setWorker (s : PlatformState) (i : Nat) (w : Worker) : PlatformState :=
  { s with workers := Function.update s.workers i (some w) }

/-- A command leaves the network; `job` is the job group after it. -/
def PlatformState.answer (s : PlatformState) (i : Nat) (c : Command) (job : JobState)
    (react : Worker → Worker) : PlatformState where
  job := job
  workers := Function.update s.workers i ((s.workers i).map react)
  inflight := s.inflight.erase (i, c)

inductive PlatformStep (group : String) : PlatformState → PlatformLabel → PlatformState → Prop
  | start (s : PlatformState) (i : Nat) (consumer : String) (leaseMs : Nat) :
      s.workers i = none →
      PlatformStep group s (.start i) (s.setWorker i (.fresh consumer leaseMs))
  | send (s : PlatformState) (i : Nat) (w w' : Worker) (c : Command) :
      s.workers i = some w → w.Sends c w' →
      PlatformStep group s (.send i c)
        { s.setWorker i w' with inflight := s.inflight ++ [(i, c)] }
  | internal (s : PlatformState) (i : Nat) (w w' : Worker) :
      s.workers i = some w → w.Internal w' →
      PlatformStep group s (.internal i) (s.setWorker i w')
  | reply (s : PlatformState) (i : Nat) (c : Command) (now : Nat) :
      (i, c) ∈ s.inflight →
      PlatformStep group s (.reply i c now)
        (s.answer i c (s.job.exec group c now)
          fun w => w.receive c (s.job.redis.exec group c now).2)
  /-- The command takes effect but its reply does not arrive. -/
  | loseReply (s : PlatformState) (i : Nat) (c : Command) (now : Nat) :
      (i, c) ∈ s.inflight →
      PlatformStep group s (.loseReply i c now)
        (s.answer i c (s.job.exec group c now) fun w => w.fail c)
  /-- The command never reaches Redis. -/
  | drop (s : PlatformState) (i : Nat) (c : Command) :
      (i, c) ∈ s.inflight →
      PlatformStep group s (.drop i c) (s.answer i c s.job fun w => w.fail c)
  /-- A worker may outlive its own timeouts: its commands stay in flight when it stops. -/
  | crash (s : PlatformState) (i : Nat) (w : Worker) :
      s.workers i = some w →
      PlatformStep group s (.crash i) (s.setWorker i (w.goto .dead))
  | rest (s : PlatformState) (redis : RedisState) :
      s.job.redis.SameGroup redis →
      PlatformStep group s .rest { s with job := { s.job with redis := redis } }

/-- Any number of workers over a group in which nothing was delivered yet. -/
def platform (group : String) : Transition.System PlatformState PlatformLabel where
  init s := s.job.Fresh group ∧ (∀ i, s.workers i = none) ∧ s.inflight = []
  step := PlatformStep group

/-- Every step of the workers is a step of the job group or leaves it alone. -/
theorem refinement (group : String) :
    Transition.Simulation (platform group) (jobGroup group) PlatformState.job where
  init := fun _ h => h.1
  step := by
    intro s l t _ hst
    cases hst with
    | start i consumer leaseMs _ => exact Or.inl rfl
    | send i w w' c _ _ => exact Or.inl rfl
    | internal i w w' _ _ => exact Or.inl rfl
    | reply i c now _ => exact Or.inr ⟨.command c now, .command s.job c now⟩
    | loseReply i c now _ => exact Or.inr ⟨.command c now, .command s.job c now⟩
    | drop i c _ => exact Or.inl rfl
    | crash i w _ => exact Or.inl rfl
    | rest redis h => exact Or.inr ⟨.rest, .rest s.job redis h⟩

end DocParser.Platform
