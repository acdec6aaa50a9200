import DocParser.Lib.RedisStream
import DocParser.Platform.Events

/-!
# The Redis scripts of the job group

The keys that workers share, and the scripts that change them, each as one function of the
state before it and of the clock reading `now` that it takes. Keys of different families never
alias, so each family is a field of `RedisState`; the type checks at the head of
`publishEvent` therefore always pass. The lease of a message is the hash
`job-execution:<stream>:<group>:<id>`, one per message of the configured group.
-/

namespace DocParser.Platform

open Redis

/-- The fields of a job message. Older queue messages lack the identities. -/
structure JobFields where
  jobId : Option String
  runId : Option String
  attemptId : Option String
  jobPath : Option String
  deriving DecidableEq, Repr

/-- The execution lease of a message. -/
structure LeaseHash where
  generation : Nat
  consumer : String
  untilMs : Nat
  sequence : Nat
  deriving DecidableEq, Repr

structure RedisState where
  jobs : Stream JobFields
  leases : StreamId → Option LeaseHash
  runs : String → RunHash
  cancels : String → Option String
  dispatched : String → Option StreamId
  events : List Event

/-- What a worker remembers of a lease it acquired. -/
structure RedisJobLease where
  messageId : StreamId
  consumer : String
  generation : Nat
  sequence : Nat
  durationMs : Nat
  deriving DecidableEq, Repr

inductive ScriptError
  | noGroup | jobLeaseLost | jobSequenceRegression
  deriving DecidableEq, Repr

namespace RedisState

variable (st : RedisState)

/-- `tonumber(HGET key 'until_ms' or '0')`. -/
def untilMs (id : StreamId) : Nat := ((st.leases id).map (·.untilMs)).getD 0

/-- `tonumber(HGET key 'sequence' or '0')`. -/
def sequence (id : StreamId) : Nat := ((st.leases id).map (·.sequence)).getD 0

def setJobs (jobs : Stream JobFields) : RedisState := { st with jobs := jobs }

def setLease (id : StreamId) (lease : Option LeaseHash) : RedisState :=
  { st with leases := Function.update st.leases id lease }

def setRun (runId : String) (run : RunHash) : RedisState :=
  { st with runs := Function.update st.runs runId run }

def setCancel (runId : String) (marker : Option String) : RedisState :=
  { st with cancels := Function.update st.cancels runId marker }

def setDispatched (jobId : String) (marker : Option StreamId) : RedisState :=
  { st with dispatched := Function.update st.dispatched jobId marker }

/-- Leases and groups are as before: only workers change them. -/
structure SameGroup (st' : RedisState) : Prop where
  leases : st'.leases = st.leases
  groups : st'.jobs.groups = st.jobs.groups

/-- `XACK` in the job group. -/
def xack (g : Group) (id : StreamId) : RedisState := st.setJobs (st.jobs.setGroup (g.ack id))

end RedisState

/-! ## Reclaiming -/

/-- The loop of `reclaimJobScript` over the pending entries it listed. It returns at the first
successful `XCLAIM` of a message without a live lease. -/
def reclaimEntries (group consumer : String) (idleMs now : Nat) :
    List PendingEntry → RedisState → Option StreamId →
      RedisState × Option StreamId × Option (StreamId × JobFields)
  | [], st, cursor => (st, cursor, none)
  | entry :: entries, st, _ =>
    match st.jobs.group? group with
    | none => (st, some entry.id, none)
    | some g =>
      if st.untilMs entry.id ≤ now then
        let claimed := st.jobs.xclaim g consumer idleMs entry.id now
        match claimed.2 with
        | some message => (st.setJobs claimed.1, some entry.id, some message)
        | none => reclaimEntries group consumer idleMs now entries (st.setJobs claimed.1)
            (some entry.id)
      else reclaimEntries group consumer idleMs now entries st (some entry.id)

/-- `reclaimJobScript`. The cursor `none` is `-`. -/
def reclaimJob (group consumer : String) (idleMs : Nat) (cursor : Option StreamId) (now : Nat)
    (st : RedisState) :
    RedisState × Except ScriptError (Option StreamId × Option (StreamId × JobFields)) :=
  match st.jobs.group? group with
  | none => (st, .error .noGroup)
  | some g =>
    let entries := g.pendingRange now idleMs cursor 32
    match reclaimEntries group consumer idleMs now entries st none with
    | (st', cursor', some message) => (st', .ok (cursor', some message))
    | (st', cursor', none) =>
      (st', .ok (if entries.length < 32 then none else cursor', none))

/-! ## Acquiring and renewing -/

/-- The sequence that a new lease resumes from, or `none` when the run hash says that this
attempt already ended. -/
def resumeSequence (st : RedisState) (id : StreamId) (runId attemptId : String) : Option Nat :=
  match (st.runs runId).lastEvent with
  | none => some (st.sequence id)
  | some event =>
    if event.attemptId = attemptId then
      if event.type.isTerminal then none else some (max (st.sequence id) event.sequence)
    else some (st.sequence id)

/-- `acquireJobScript`: the new generation and the sequence to resume from, if acquired. -/
def acquireJob (group consumer : String) (id : StreamId) (leaseMs : Nat)
    (runId attemptId : String) (now : Nat) (st : RedisState) :
    RedisState × Except ScriptError (Option (Nat × Nat)) :=
  match st.jobs.group? group with
  | none => (st, .error .noGroup)
  | some g =>
    if g.owner id ≠ some consumer then (st, .ok none)
    else if now < st.untilMs id then (st, .ok none)
    else
      match resumeSequence st id runId attemptId with
      | none => ((st.xack g id).setLease id none, .ok none)
      | some sequence =>
        -- `HINCRBY` of a missing field starts from zero
        let generation := ((st.leases id).map (·.generation)).getD 0 + 1
        (st.setLease id (some ⟨generation, consumer, now + leaseMs, sequence⟩),
          .ok (some (generation, sequence)))

/-- The lease that a fenced script accepts: same generation and consumer, and not expired. -/
def RedisState.liveLease (st : RedisState) (lease : RedisJobLease) (now : Nat) :
    Option LeaseHash :=
  match st.leases lease.messageId with
  | none => none
  | some hash =>
    if hash.generation = lease.generation ∧ hash.consumer = lease.consumer ∧ now < hash.untilMs
    then some hash else none

/-- `renewJobScript`. -/
def renewJob (lease : RedisJobLease) (now : Nat) (st : RedisState) : RedisState × Bool :=
  match st.liveLease lease now with
  | none => (st, false)
  | some hash =>
    (st.setLease lease.messageId (some { hash with untilMs := now + lease.durationMs }), true)

/-! ## Publishing -/

/-- The writes of the publication script that happen with or without a lease. -/
def RedisState.append (st : RedisState) (runId : String) (event : Event) : RedisState :=
  { st.setRun runId ((st.runs runId).hset event.state) with events := st.events ++ [event] }

/-- The end of the publication script under a lease: a terminal event acknowledges the message
and deletes the lease, every other one records its sequence. -/
def RedisState.settle (st : RedisState) (g : Group) (id : StreamId) (hash : LeaseHash)
    (event : Event) : RedisState :=
  if event.type.isTerminal then (st.xack g id).setLease id none
  else st.setLease id (some { hash with sequence := event.sequence })

/-- The script of `RedisClient::publishEvent`. `false` is the reply `0`: the run is being
cancelled and only `job_cancelled` is accepted. -/
def publishEvent (group : String) (lease : Option RedisJobLease) (runId : String) (event : Event)
    (now : Nat) (st : RedisState) : RedisState × Except ScriptError Bool :=
  match lease with
  | none => (st.append runId event, .ok true)
  | some lease =>
    match st.liveLease lease now with
    | none => (st, .error .jobLeaseLost)
    | some hash =>
      match st.jobs.group? group with
      | none => (st, .error .noGroup)
      | some g =>
        if g.owner lease.messageId ≠ some lease.consumer then (st, .error .jobLeaseLost)
        else if event.sequence ≤ hash.sequence then (st, .error .jobSequenceRegression)
        else if event.type ≠ .jobCancelled ∧ st.cancels runId = some event.attemptId then
          (st, .ok false)
        else ((st.append runId event).settle g lease.messageId hash event, .ok true)

/-! ## Reading and acknowledging -/

/-- `RedisClient::readGroup`. -/
def readGroup (group consumer : String) (now : Nat) (st : RedisState) :
    RedisState × Except ScriptError (Option (StreamId × JobFields)) :=
  match st.jobs.group? group with
  | none => (st, .error .noGroup)
  | some g =>
    let read := st.jobs.xreadgroup g consumer now
    (st.setJobs read.1, .ok read.2)

/-- `RedisClient::acknowledge`. -/
def acknowledge (group : String) (id : StreamId) (st : RedisState) : RedisState :=
  match st.jobs.group? group with
  | none => st
  | some g => st.xack g id

end DocParser.Platform
