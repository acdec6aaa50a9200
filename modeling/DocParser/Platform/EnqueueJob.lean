import Mathlib.Data.List.MinMax
import DocParser.Lib.Binary64
import DocParser.Platform.JobScripts

/-!
# The enqueue script

`ENQUEUE_JOB` of the dispatcher. A delivery marker in Redis makes the script idempotent: while
the marker of a job is set the script only returns the entry id it holds. Before it appends, the
script trims the stream below everything that some group still needs.
-/

namespace DocParser.Platform

open Redis

/-- The columns of an outbox row that the message carries. -/
structure OutboxJob where
  jobId : String
  runId : String
  attemptId : String
  jobPath : String
  deriving DecidableEq, Repr

def OutboxJob.fields (job : OutboxJob) : JobFields :=
  ⟨some job.jobId, some job.runId, some job.attemptId, some job.jobPath⟩

/-- The order of ids in the script, which reads their parts as doubles. -/
def before (a b : StreamId) : Bool :=
  decide (Binary64.nearest a.ms < Binary64.nearest b.ms) ||
    decide (Binary64.nearest a.ms = Binary64.nearest b.ms) &&
      decide (Binary64.nearest a.seq < Binary64.nearest b.seq)

/-- The first id that a group still needs: its oldest pending entry, or else the id after the
last delivered one. -/
def trimBound (g : Group) : StreamId :=
  match (g.pending.map (·.id)).min? with
  | some id => id
  | none =>
    ⟨g.lastDelivered.ms, Binary64.nearest (Binary64.nearest g.lastDelivered.seq + 1)⟩

/-- The loop over `XINFO GROUPS`. -/
def trimFloor (groups : List Group) : Option StreamId :=
  groups.foldl (fun floor g =>
    match floor with
    | none => some (trimBound g)
    | some f => if before (trimBound g) f then some (trimBound g) else some f) none

def trimJobs (jobs : Stream JobFields) : Stream JobFields :=
  match trimFloor jobs.groups with
  | none => jobs
  | some floor => if floor ≠ ⟨0, 0⟩ then jobs.xtrimMinId floor else jobs

/-- How the script ends. Its reply is the entry id, or nil when the stream is full. -/
inductive Enqueued
  | previous (id : StreamId)
  | full
  | added (id : StreamId)
  deriving DecidableEq, Repr

def Enqueued.reply : Enqueued → Option StreamId
  | previous id | added id => some id
  | full => none

/-- What the script writes to the run hash. -/
def queuedRun : RunHash := { RunHash.empty with status := some .queued, stage := some "" }

/-- `ENQUEUE_JOB`; `id` is the entry id that `XADD *` picks. -/
def enqueueJob (maximumLength : Nat) (job : OutboxJob) (id : StreamId) (st : RedisState) :
    RedisState × Enqueued :=
  match st.dispatched job.jobId with
  | some previous => (st, .previous previous)
  | none =>
    let st := st.setJobs (trimJobs st.jobs)
    if maximumLength ≤ st.jobs.xlen then (st, .full)
    else
      let st := st.setJobs (st.jobs.xadd id job.fields)
      let st := st.setRun job.runId ((st.runs job.runId).hset queuedRun)
      (st.setDispatched job.jobId (some id), .added id)

/-! ## What the script leaves alone -/

@[simp] theorem trimJobs_groups (jobs : Stream JobFields) : (trimJobs jobs).groups = jobs.groups := by
  unfold trimJobs
  split
  · rfl
  · split_ifs <;> rfl

theorem trimJobs_sublist (jobs : Stream JobFields) :
    (trimJobs jobs).entries.Sublist jobs.entries := by
  unfold trimJobs
  split
  · exact .refl _
  · split_ifs
    · exact List.filter_sublist
    · exact .refl _

variable (maximumLength : Nat) (job : OutboxJob) (id : StreamId) (st : RedisState)

theorem enqueueJob_sameGroup : st.SameGroup (enqueueJob maximumLength job id st).1 := by
  unfold enqueueJob
  split
  · exact ⟨rfl, rfl⟩
  · dsimp only
    split_ifs
    · exact ⟨rfl, trimJobs_groups st.jobs⟩
    · exact ⟨rfl, trimJobs_groups st.jobs⟩

/-- **The three ends of the script.** A marker that is set comes back unchanged, a full stream
changes no marker, and an appended entry sets the marker of its job. -/
theorem enqueueJob_cases :
    (∃ previous, st.dispatched job.jobId = some previous ∧
      enqueueJob maximumLength job id st = (st, .previous previous)) ∨
    (st.dispatched job.jobId = none ∧
      enqueueJob maximumLength job id st = (st.setJobs (trimJobs st.jobs), .full)) ∨
    (∃ st', st.dispatched job.jobId = none ∧
      enqueueJob maximumLength job id st = (st', .added id) ∧
      st'.dispatched = Function.update st.dispatched job.jobId (some id) ∧
      st'.jobs = (trimJobs st.jobs).xadd id job.fields ∧
      st'.leases = st.leases ∧ st'.cancels = st.cancels ∧ st'.events = st.events) := by
  unfold enqueueJob
  cases hmarker : st.dispatched job.jobId with
  | some previous => exact Or.inl ⟨previous, rfl, rfl⟩
  | none =>
    dsimp only
    split_ifs
    · exact Or.inr (Or.inl ⟨rfl, rfl⟩)
    · exact Or.inr (Or.inr ⟨_, rfl, rfl, rfl, rfl, rfl, rfl, rfl⟩)

end DocParser.Platform
