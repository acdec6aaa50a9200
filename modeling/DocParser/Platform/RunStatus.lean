import DocParser.Platform.CancellationDecisive
import DocParser.Platform.Projection

/-!
# The status of a run

`GET /api/v1/runs/{run_id}` merges the row of the run with the run hash, which it reads later.
Two scripts write the hash, projectors write the row. `response_eq_cached`: the status of a
response is the one in the hash when the response is made, whatever the row said; the hash never
goes back, so successive responses do not: `run_status_follows`.
-/

namespace DocParser.Platform

open Redis

/-! ## The response -/

/-- The fields of `RunResponse` that come from the row and from the hash. -/
structure RunResponse where
  attemptId : String
  executionId : Option String
  cancelRequested : Bool
  status : RunStatus
  stage : Option String
  error : Option String
  deriving DecidableEq, Repr

/-- `s or None`. -/
def orNone (s : Option String) : Option String := s.filter (· ≠ "")

/-- `response_from_record`. A stale cache cannot undo a durable terminal state. -/
def responseFromRecord (record : RunRow) (state : RunHash) : RunResponse :=
  let state := if record.status.isTerminal then .empty else state
  { attemptId := record.attemptId
    executionId := orNone state.executionId <|> record.executionId
    cancelRequested := record.cancelRequested
    status := state.status.getD record.status
    stage := orNone (state.stage <|> record.stage)
    error := orNone (state.error <|> record.error) }

/-- `run_response` on the row that it read first and the hash that it read then, which is `none`
when Redis cannot be reached. -/
def runResponse (record : RunRow) (state : Option RunHash) : RunResponse :=
  responseFromRecord record (state.getD .empty)

/-- `queued < running < terminal`. -/
def RunStatus.rank : RunStatus → Nat
  | .queued => 0
  | .running => 1
  | .succeeded | .failed | .cancelled => 2

/-- A status that may be shown after another one. -/
structure RunStatus.Follows (later earlier : RunStatus) : Prop where
  le : earlier.rank ≤ later.rank
  terminal : earlier.isTerminal = true → later = earlier

namespace RunStatus

variable {a b c : RunStatus}

theorem Follows.refl (a : RunStatus) : a.Follows a := ⟨le_rfl, fun _ => rfl⟩

theorem Follows.trans (hcb : c.Follows b) (hba : b.Follows a) : c.Follows a := by
  refine ⟨hba.le.trans hcb.le, fun ha => ?_⟩
  have hb := hba.terminal ha
  rw [← hb] at ha ⊢
  exact hcb.terminal ha

theorem follows_queued (a : RunStatus) : a.Follows .queued := ⟨Nat.zero_le _, nofun⟩

theorem follows_of_rank (ha : a.isTerminal = false) (h : a.rank ≤ b.rank) : b.Follows a := by
  refine ⟨h, fun ht => ?_⟩
  rw [ha] at ht
  cases ht

theorem rank_le_one (h : a.isTerminal = false) : a.rank ≤ 1 := by
  cases a with
  | queued | running => decide
  | succeeded | failed | cancelled => cases h

theorem rank_of_terminal (h : a.isTerminal = true) : a.rank = 2 := by
  cases a with
  | queued | running => cases h
  | succeeded | failed | cancelled => rfl

end RunStatus

/-! ## Writers of the run hash -/

/-- An event that ends an attempt writes the status that it projects to, any other one writes
`running` or nothing. -/
theorem EventType.cachedStatus_cases (type : EventType) :
    (type.isTerminal = true ∧ type.cachedStatus = type.projectedStatus ∧
        type.cachedStatus ≠ none) ∨
      type.isTerminal = false ∧ (type.cachedStatus = none ∨ type.cachedStatus = some .running) := by
  cases type with
  | jobSucceeded | jobFailed | jobCancelled => exact Or.inl ⟨rfl, rfl, nofun⟩
  | jobStarted | stageStarted => exact Or.inr ⟨rfl, Or.inr rfl⟩
  | runConfigured | stageProgress | stageWarning | artifactReady | stageCompleted
  | stageFailed => exact Or.inr ⟨rfl, Or.inl rfl⟩

section Writers

variable {group : String} {st : RedisState}

theorem reclaimEntries_runs (group consumer : String) (idleMs now : Nat)
    (entries : List PendingEntry) : ∀ (st : RedisState) (cursor : Option StreamId),
      (reclaimEntries group consumer idleMs now entries st cursor).1.runs = st.runs := by
  induction entries with
  | nil => exact fun st _ => rfl
  | cons entry entries ih =>
    intro st cursor
    unfold reclaimEntries
    cases st.jobs.group? group with
    | none => rfl
    | some g =>
      dsimp only
      split_ifs
      · cases (st.jobs.xclaim g consumer idleMs entry.id now).2 with
        | some message => rfl
        | none => exact ih (st.setJobs _) (some entry.id)
      · exact ih st (some entry.id)

/-- An accepted event is the one write of a worker to a run hash, and its message is pending. -/
structure Accepts (group : String) (st st' : RedisState) (lease : RedisJobLease) (runId : String)
    (event : Event) : Prop where
  runs : st'.runs = Function.update st.runs runId ((st.runs runId).hset event.state)
  pending : ∃ g, st.jobs.group? group = some g ∧ g.owner lease.messageId ≠ none

variable (group st) in
theorem publishEvent_runs (lease : RedisJobLease) (runId : String) (event : Event) (now : Nat) :
    ((publishEvent group (some lease) runId event now st).1 = st ∧
        (publishEvent group (some lease) runId event now st).2 ≠ .ok true) ∨
      ((publishEvent group (some lease) runId event now st).2 = .ok true ∧
        Accepts group st (publishEvent group (some lease) runId event now st).1 lease runId
          event) := by
  unfold publishEvent
  dsimp only
  cases st.liveLease lease now with
  | none => exact Or.inl ⟨rfl, nofun⟩
  | some hash =>
    dsimp only
    cases hg : st.jobs.group? group with
    | none => exact Or.inl ⟨rfl, nofun⟩
    | some g =>
      dsimp only
      split_ifs with howner hsequence hcancel
      · exact Or.inl ⟨rfl, nofun⟩
      · exact Or.inl ⟨rfl, nofun⟩
      · exact Or.inl ⟨rfl, by simp⟩
      · refine Or.inr ⟨rfl, ?_, g, hg, fun hnone => howner (by rw [hnone]; exact nofun)⟩
        unfold RedisState.settle
        split_ifs <;> rfl

variable (group st) in
/-- What a command does to the run hashes. -/
theorem exec_runs (c : Command) (now : Nat) :
    ((st.exec group c now).1.runs = st.runs ∧
        (c.facts (st.exec group c now).2).filterMap Fact.event? = []) ∨
      ∃ lease runId event, c = .publish lease runId event ∧
        c.facts (st.exec group c now).2 = [.accepted lease.messageId lease.generation event] ∧
        Accepts group st (st.exec group c now).1 lease runId event := by
  have hquiet : ∀ r : Reply, (∀ lease runId event, c ≠ .publish lease runId event) →
      (c.facts r).filterMap Fact.event? = [] := fun r hne =>
    (c.facts_events r).resolve_right fun ⟨lease, runId, event, heq, _⟩ =>
      hne lease runId event heq
  cases c with
  | publish lease runId event =>
    unfold RedisState.exec
    dsimp only
    rcases publishEvent_runs group st lease runId event now with
      ⟨hsame, hrefused⟩ | ⟨hok, haccepts⟩
    · refine Or.inl ⟨by rw [hsame], ?_⟩
      cases hreply : (publishEvent group (some lease) runId event now st).2 with
      | error reason => rfl
      | ok accepted =>
        cases accepted with
        | false => rfl
        | true => exact absurd hreply hrefused
    · refine Or.inr ⟨lease, runId, event, rfl, ?_, haccepts⟩
      rw [hok]
      rfl
  | reclaim consumer idleMs cursor =>
    refine Or.inl ⟨?_, ?_⟩
    · show (reclaimJob group consumer idleMs cursor now st).1.runs = st.runs
      unfold reclaimJob
      cases st.jobs.group? group with
      | none => rfl
      | some g =>
        have hruns := reclaimEntries_runs group consumer idleMs now
          (g.pendingRange now idleMs cursor 32) st none
        dsimp only
        split <;> rename_i heq <;> rw [heq] at hruns <;> exact hruns
    · exact hquiet _ fun _ _ _ heq => by cases heq
  | read consumer =>
    refine Or.inl ⟨?_, ?_⟩
    · show (readGroup group consumer now st).1.runs = st.runs
      unfold readGroup
      cases st.jobs.group? group <;> rfl
    · exact hquiet _ fun _ _ _ heq => by cases heq
  | acquire consumer id leaseMs runId attemptId =>
    refine Or.inl ⟨?_, ?_⟩
    · show (acquireJob group consumer id leaseMs runId attemptId now st).1.runs = st.runs
      unfold acquireJob
      cases st.jobs.group? group with
      | none => rfl
      | some g =>
        dsimp only
        split_ifs
        · rfl
        · rfl
        · cases resumeSequence st id runId attemptId <;> rfl
    · exact hquiet _ fun _ _ _ heq => by cases heq
  | renew lease =>
    refine Or.inl ⟨?_, rfl⟩
    show (renewJob lease now st).1.runs = st.runs
    unfold renewJob
    cases st.liveLease lease now <;> rfl
  | acknowledge id =>
    refine Or.inl ⟨?_, rfl⟩
    show (acknowledge group id st).runs = st.runs
    unfold acknowledge
    cases st.jobs.group? group <;> rfl

theorem CancelStep.runs {r r' : RedisState} {c c' : Cancellations}
    (hst : CancelStep r c r' c') : r'.runs = r.runs := by
  cases hst with
  | eval d runId attemptId =>
    rcases requestCancellation_cases runId attemptId r with heq | heq <;> rw [heq]
    rfl
  | _ => rfl

/-- A dispatcher writes the run hash when it appends the job of the run. -/
theorem OutboxStep.runs_cases {maximumLength d : Nat} {r r' : RedisState} {o o' : Outbox}
    (hst : OutboxStep maximumLength ⟨r, o⟩ (.dispatcher d) ⟨r', o'⟩) :
    (r'.runs = r.runs ∧
        ∀ job id, .appended job id ∈ o'.history ↔ .appended job id ∈ o.history) ∨
      ∃ job id, o'.history = o.history ++ [.appended job id, .markerSet job.jobId] ∧
        r'.runs = Function.update r.runs job.runId ((r.runs job.runId).hset queuedRun) := by
  have hlog : ∀ (o : Outbox) (f : DeliveryFact), (∀ job id, f ≠ .appended job id) →
      ∀ job id, .appended job id ∈ o.history ++ [f] ↔ .appended job id ∈ o.history := by
    intro o f hf job id
    rw [List.mem_append, List.mem_singleton]
    exact or_iff_left fun heq => hf job id heq.symm
  have hnil : ∀ f : DeliveryFact, f ∈ o.history ++ [] ↔ f ∈ o.history := fun f => by
    rw [List.append_nil]
  cases hst with
  | eval _ _ _ job id hd hid =>
    unfold enqueueJob
    cases r.dispatched job.jobId with
    | some previous => exact Or.inl ⟨rfl, fun _ _ => hnil _⟩
    | none =>
      dsimp only
      split_ifs
      · exact Or.inl ⟨rfl, fun _ _ => hnil _⟩
      · exact Or.inr ⟨job, id, rfl, rfl⟩
  | deleteReply | deleteLate | commit => exact Or.inl ⟨rfl, hlog _ _ nofun⟩
  | full | fail =>
    refine Or.inl ⟨rfl, fun job id => ?_⟩
    show _ ∈ (o.rollback d).history ↔ _
    rw [Outbox.rollback_history]
  | select | selectNone | send | update | list | sendDelete | done | deleteDrop | mark =>
    exact Or.inl ⟨rfl, fun _ _ => Iff.rfl⟩

/-- What a step on the runs does to the row of one run. -/
theorem CancelStep.row_cases {r r' : RedisState} {c c' : Cancellations} {runId : String}
    {row' : RunRow} (hst : CancelStep r c r' c') (hrow' : c'.runs runId = some row') :
    ∃ row, c.runs runId = some row ∧ (row'.status = row.status ∨
      ∃ event, .accepted event ∈ c.history ∧ event.runId = runId ∧
        row' = row.project event) := by
  have hset : ∀ (x' : RunRow) {i : String} {x : RunRow}, c.runs i = some x →
      x'.status = x.status →
      Function.update c.runs i (some x') runId = some row' →
      ∃ row, c.runs runId = some row ∧ (row'.status = row.status ∨
        ∃ event, .accepted event ∈ c.history ∧ event.runId = runId ∧
          row' = row.project event) := by
    intro x' i x hx hstatus hupdate
    by_cases hi : runId = i
    · subst hi
      rw [Function.update_self] at hupdate
      cases hupdate
      exact ⟨x, hx, Or.inl hstatus⟩
    · rw [Function.update_of_ne hi] at hupdate
      exact ⟨row', hupdate, Or.inl rfl⟩
  cases hst with
  | request i row hrow => exact hset { row with cancelRequested := true } hrow rfl hrow'
  | commitDelivery d i row _ hrow =>
    exact hset { row with cancelDelivered := true } hrow rfl hrow'
  | commitCleanup d i row _ hrow =>
    exact hset { row with cancelCleaned := true, cancelDelivered := true } hrow rfl hrow'
  | project event row hevent hrow _ =>
    change Function.update c.runs event.runId (some (row.project event)) runId = some row' at hrow'
    by_cases hi : runId = event.runId
    · subst hi
      rw [Function.update_self] at hrow'
      cases hrow'
      exact ⟨row, hrow, Or.inr ⟨event, hevent, rfl, rfl⟩⟩
    · rw [Function.update_of_ne hi] at hrow'
      exact ⟨row', hrow', Or.inl rfl⟩
  | fail d =>
    refine ⟨row', ?_, Or.inl rfl⟩
    change (c.rollback d).runs runId = some row' at hrow'
    unfold Cancellations.rollback at hrow'
    split at hrow' <;> exact hrow'
  | _ => exact ⟨row', hrow', Or.inl rfl⟩

end Writers

/-! ## The hash and the history -/

/-- The service while the hash of a run does not expire. No earlier run had its id. -/
def unexpired (group : String) (maximumLength : Nat) (runId : String) :
    Transition.System ServiceState ServiceLabel where
  init s := s.Fresh group ∧ s.redis.runs runId = .empty
  step s l t := ServiceStep group maximumLength s l t ∧ l ≠ .expire runId

theorem unexpired_service (group : String) (maximumLength : Nat) (runId : String) :
    Transition.Simulation (unexpired group maximumLength runId) (service group maximumLength)
      id where
  init := fun _ h => h.1
  step := fun _ l _ _ hst => Or.inr ⟨l, hst.1⟩

/-- An event of the run was accepted. -/
def ServiceState.HasAccepted (s : ServiceState) (runId : String) (event : Event) : Prop :=
  event.runId = runId ∧ ∃ id g, .accepted id g event ∈ s.platform.job.history

/-- What the hash and the row of a run say of the history. -/
structure Cached (runId : String) (s : ServiceState) : Prop where
  appended : (s.redis.runs runId).status = none ↔
    ∀ job id, .appended job id ∈ s.outbox.history → job.runId ≠ runId
  /-- The hash has the status of the terminal event. -/
  ended : ∀ event, s.HasAccepted runId event → event.type.isTerminal = true →
    (s.redis.runs runId).status = event.type.projectedStatus
  terminal : ∀ status, (s.redis.runs runId).status = some status → status.isTerminal = true →
    ∃ event, s.HasAccepted runId event ∧ event.type.isTerminal = true
  row : ∀ row, s.cancel.runs runId = some row → row.status = .queued ∨
    ∃ event, s.HasAccepted runId event ∧ event.type.projectedStatus = some row.status

/-- The status in the hash. -/
def ServiceState.cached (s : ServiceState) (runId : String) : RunStatus :=
  (s.redis.runs runId).status.getD .queued

section Invariant

variable {group : String} {maximumLength : Nat} {runId : String} {s t : ServiceState}

/-- An accepted event comes after the append of its job. -/
theorem ServiceParts.appended_of_accepted (h : ServiceParts group s) {event : Event}
    (haccepted : s.HasAccepted runId event) :
    ∃ job id, .appended job id ∈ s.outbox.history ∧ job.runId = runId := by
  obtain ⟨hrun, id, g, hmem⟩ := haccepted
  obtain ⟨job, happended, hjob, -⟩ := h.origin.accepted id g event hmem
  exact ⟨job, id, happended, hjob.trans hrun⟩

/-- A step that leaves the hash and the history of the run alone. -/
theorem Cached.congr (h : Cached runId s) (hruns : t.redis.runs runId = s.redis.runs runId)
    (houtbox : ∀ job id, job.runId = runId →
      (.appended job id ∈ t.outbox.history ↔ .appended job id ∈ s.outbox.history))
    (haccepted : ∀ event, t.HasAccepted runId event ↔ s.HasAccepted runId event)
    (hrow : ∀ row, t.cancel.runs runId = some row → row.status = .queued ∨
      ∃ event, s.HasAccepted runId event ∧ event.type.projectedStatus = some row.status) :
    Cached runId t := by
  refine ⟨?_, fun event hevent => ?_, fun status hstatus hterminal => ?_, fun row hr => ?_⟩
  · rw [hruns, h.appended]
    refine ⟨fun hall job id hmem heq => ?_, fun hall job id hmem heq => ?_⟩
    · exact hall job id ((houtbox job id heq).mp hmem) heq
    · exact hall job id ((houtbox job id heq).mpr hmem) heq
  · rw [hruns]
    exact h.ended event ((haccepted event).mp hevent)
  · rw [hruns] at hstatus
    obtain ⟨event, hevent, hends⟩ := h.terminal status hstatus hterminal
    exact ⟨event, (haccepted event).mpr hevent, hends⟩
  · rcases hrow row hr with hqueued | ⟨event, hevent, hprojected⟩
    · exact Or.inl hqueued
    · exact Or.inr ⟨event, (haccepted event).mpr hevent, hprojected⟩

/-- What a step does to the status in the hash. -/
def Advances (runId : String) (s t : ServiceState) : Prop :=
  Cached runId t ∧ (t.cached runId).Follows (s.cached runId) ∧
    ((s.redis.runs runId).status ≠ none → (t.redis.runs runId).status ≠ none)

theorem Advances.of_congr (h : Cached runId t)
    (hruns : t.redis.runs runId = s.redis.runs runId) : Advances runId s t := by
  refine ⟨h, ?_, ?_⟩
  · unfold ServiceState.cached
    rw [hruns]
    exact .refl _
  · rw [hruns]
    exact id

/-- Nothing is accepted for a run whose hash says that it is over. -/
theorem Cached.not_terminal (h : Cached runId s) (hparts : ServiceParts group s) {id : StreamId}
    {attemptId : String} (hpublishes : s.outbox.Publishes id runId attemptId)
    (hpending : ∃ g, s.redis.jobs.group? group = some g ∧ g.owner id ≠ none) {status : RunStatus}
    (hstatus : (s.redis.runs runId).status = some status) : status.isTerminal = false := by
  refine Bool.eq_false_iff.mpr fun hterminal => ?_
  obtain ⟨event, ⟨hrun, id', g', hmem⟩, hends⟩ := h.terminal status hstatus hterminal
  have horigin := hparts.origin.accepted id' g' event hmem
  rw [hrun] at horigin
  have hid : id' = id := hparts.outbox.ledger.message_unique horigin hpublishes
  obtain ⟨g, hg, hnone⟩ := (hparts.job.fencing id).released event
    (mem_acceptedOf.mpr ⟨g', hid ▸ hmem⟩) hends
  obtain ⟨g'', hg'', howner⟩ := hpending
  rw [show s.redis.jobs.group? group = some g from hg] at hg''
  cases hg''
  exact howner hnone

/-- The facts that a command adds to the history. -/
theorem hasAccepted_append {facts : List Fact} {event : Event}
    (hhistory : t.platform.job.history = s.platform.job.history ++ facts) :
    t.HasAccepted runId event ↔ s.HasAccepted runId event ∨
      event.runId = runId ∧ ∃ id g, .accepted id g event ∈ facts := by
  unfold ServiceState.HasAccepted
  rw [hhistory]
  constructor
  · rintro ⟨hrun, id, g, hmem⟩
    rcases List.mem_append.mp hmem with hold | hnew
    · exact Or.inl ⟨hrun, id, g, hold⟩
    · exact Or.inr ⟨hrun, id, g, hnew⟩
  · rintro (⟨hrun, id, g, hmem⟩ | ⟨hrun, id, g, hmem⟩)
    · exact ⟨hrun, id, g, List.mem_append_left _ hmem⟩
    · exact ⟨hrun, id, g, List.mem_append_right _ hmem⟩

/-- What an accepted event makes of a status that is not terminal. -/
theorem status_of_accepted {old : RunStatus} (hopen : old.isTerminal = false) (type : EventType) :
    ∃ new, (type.cachedStatus <|> some old) = some new ∧ new.Follows old ∧
      new.isTerminal = type.isTerminal ∧
      (type.isTerminal = true → type.projectedStatus = some new) := by
  rcases type.cachedStatus_cases with ⟨hterminal, hprojected, hsome⟩ | ⟨hnot, hcached⟩
  · obtain ⟨new, hnew⟩ := Option.ne_none_iff_exists'.mp hsome
    have hend : new.isTerminal = true :=
      (projectedStatus_isTerminal (hprojected.symm.trans hnew)).trans hterminal
    refine ⟨new, by rw [hnew]; rfl, RunStatus.follows_of_rank hopen ?_, by rw [hend, hterminal],
      fun _ => hprojected.symm.trans hnew⟩
    rw [RunStatus.rank_of_terminal hend]
    exact (RunStatus.rank_le_one hopen).trans one_le_two
  · have hquiet : ∀ new : RunStatus, type.isTerminal = true → type.projectedStatus = some new :=
      fun new hterminal => by rw [hnot] at hterminal; cases hterminal
    rcases hcached with hnone | hrunning
    · exact ⟨old, by rw [hnone]; rfl, .refl old, by rw [hopen, hnot], hquiet old⟩
    · exact ⟨.running, by rw [hrunning]; rfl,
        RunStatus.follows_of_rank hopen (RunStatus.rank_le_one hopen), hnot.symm,
        hquiet .running⟩

/-- **An accepted event of the run.** -/
theorem Cached.accept (h : Cached runId s) (hparts : ServiceParts group s)
    {lease : RedisJobLease} {event : Event} (hrun : event.runId = runId)
    (hpublishes : s.outbox.Publishes lease.messageId runId event.attemptId)
    (haccepts : Accepts group s.redis t.redis lease runId event)
    (hhistory : t.platform.job.history = s.platform.job.history ++
      [.accepted lease.messageId lease.generation event])
    (houtbox : t.outbox = s.outbox) (hrows : t.cancel.runs = s.cancel.runs) :
    Advances runId s t := by
  obtain ⟨job, hmem, hjob, -⟩ := id hpublishes
  have hsome : (s.redis.runs runId).status ≠ none := fun hnone =>
    h.appended.mp hnone job _ hmem hjob
  obtain ⟨old, hold⟩ := Option.ne_none_iff_exists'.mp hsome
  have hopen := h.not_terminal hparts hpublishes haccepts.pending hold
  obtain ⟨new, hnew, hfollows, hterminal, hprojected⟩ := status_of_accepted hopen event.type
  have hstatus : (t.redis.runs runId).status = some new := by
    rw [haccepts.runs, Function.update_self, ← hnew, ← hold]
    rfl
  have haccepted : ∀ e, t.HasAccepted runId e ↔ s.HasAccepted runId e ∨ e = event := by
    intro e
    rw [hasAccepted_append hhistory]
    refine or_congr_right ⟨?_, ?_⟩
    · rintro ⟨-, id, g, hfact⟩
      exact (Fact.accepted.inj (List.mem_singleton.mp hfact)).2.2
    · rintro rfl
      exact ⟨hrun, _, _, List.mem_singleton_self _⟩
  -- the hash would have the status of an earlier end
  have hunended : ∀ e, s.HasAccepted runId e → e.type.isTerminal = false := by
    intro e he
    refine Bool.eq_false_iff.mpr fun hend => ?_
    have heq := h.ended e he hend
    rw [hold] at heq
    rw [projectedStatus_isTerminal heq.symm, hend] at hopen
    cases hopen
  refine ⟨⟨?_, fun e he hend => ?_, fun status hs hend => ?_, fun row hrow => ?_⟩, ?_, ?_⟩
  · rw [hstatus, houtbox]
    exact ⟨nofun, fun hall => absurd hjob (hall job _ hmem)⟩
  · rcases (haccepted e).mp he with he | rfl
    · rw [hunended e he] at hend
      cases hend
    · rw [hstatus, hprojected hend]
  · rw [hstatus] at hs
    cases hs
    exact ⟨event, (haccepted event).mpr (Or.inr rfl), hterminal.symm.trans hend⟩
  · rw [hrows] at hrow
    rcases h.row row hrow with hqueued | ⟨e, he, hshown⟩
    · exact Or.inl hqueued
    · exact Or.inr ⟨e, (haccepted e).mpr (Or.inl he), hshown⟩
  · unfold ServiceState.cached
    rw [hstatus, hold]
    exact hfollows
  · rw [hstatus]
    exact fun _ => nofun

/-- **Worker steps.** -/
theorem Cached.worker (h : Cached runId s) (hparts : ServiceParts group s) {l : PlatformLabel}
    {p : PlatformState} (hl : l ≠ .rest) (hst : PlatformStep group s.platform l p)
    (cancel : Cancellations) (hrows : cancel.runs = s.cancel.runs) :
    Advances runId s { s with platform := p, cancel := cancel } := by
  have hkeep : ∀ row, cancel.runs runId = some row → row.status = .queued ∨
      ∃ event, s.HasAccepted runId event ∧ event.type.projectedStatus = some row.status := by
    rw [hrows]
    exact h.row
  rcases hst.job_cases hl with heq | ⟨i, c, now, hmem, heq⟩
  · have hruns : p.job.redis.runs runId = s.redis.runs runId := by rw [heq]; rfl
    refine .of_congr (h.congr hruns (fun _ _ _ => Iff.rfl) (fun event => ?_) hkeep) hruns
    unfold ServiceState.HasAccepted
    rw [heq]
  · have hhistory : p.job.history = s.platform.job.history ++
        c.facts (s.platform.job.redis.exec group c now).2 := by rw [heq]; rfl
    have hredis : p.job.redis = (s.platform.job.redis.exec group c now).1 := by rw [heq]; rfl
    rcases exec_runs group s.platform.job.redis c now with
      ⟨hsame, hquiet⟩ | ⟨lease, runId', event, rfl, hfacts, haccepts⟩
    · have hruns : p.job.redis.runs runId = s.redis.runs runId := by rw [hredis, hsame]; rfl
      refine .of_congr (h.congr hruns (fun _ _ _ => Iff.rfl) (fun event => ?_) hkeep) hruns
      rw [hasAccepted_append hhistory, or_iff_left]
      rintro ⟨-, id, g, hfact⟩
      have hevent : event ∈ (c.facts (s.platform.job.redis.exec group c now).2).filterMap
          Fact.event? := List.mem_filterMap.mpr ⟨_, hfact, rfl⟩
      rw [hquiet] at hevent
      cases hevent
    · obtain ⟨hpublishes, hrun⟩ := hparts.origin.command i _ hmem
      rw [hfacts] at hhistory
      rw [← hredis] at haccepts
      by_cases hthis : event.runId = runId
      · rw [← hrun, hthis] at haccepts
        rw [hthis] at hpublishes
        exact h.accept hparts hthis hpublishes haccepts hhistory rfl hrows
      · have hruns : p.job.redis.runs runId = s.redis.runs runId := by
          rw [haccepts.runs, Function.update_of_ne (fun heq => hthis (hrun.trans heq.symm))]
          rfl
        refine .of_congr (h.congr hruns (fun _ _ _ => Iff.rfl) (fun e => ?_) hkeep) hruns
        rw [hasAccepted_append hhistory, or_iff_left]
        rintro ⟨he, id, g, hfact⟩
        rw [(Fact.accepted.inj (List.mem_singleton.mp hfact)).2.2] at he
        exact hthis he

/-- **The enqueue script** finds a hash without a status. -/
theorem Cached.enqueue (h : Cached runId s) (hparts : ServiceParts group s)
    (ht : LedgerInv t.redis t.outbox) {job : OutboxJob} {id : StreamId} (hrun : job.runId = runId)
    (hhistory : t.outbox.history =
      s.outbox.history ++ [.appended job id, .markerSet job.jobId])
    (hruns : t.redis.runs = Function.update s.redis.runs job.runId
      ((s.redis.runs job.runId).hset queuedRun))
    (hplatform : t.platform.job.history = s.platform.job.history)
    (hrows : t.cancel.runs = s.cancel.runs) : Advances runId s t := by
  have hnew : .appended job id ∈ t.outbox.history := by
    rw [hhistory]
    exact List.mem_append_right _ List.mem_cons_self
  -- the run has one job, and that is appended once
  have hfirst : ∀ job' id', .appended job' id' ∈ s.outbox.history → job'.runId ≠ runId := by
    intro job' id' hmem heq
    obtain ⟨row, hrow, rfl⟩ := ht.appended job id hnew
    obtain ⟨row', hrow', rfl⟩ := ht.appended job' id' (by
      rw [hhistory]
      exact List.mem_append_left _ hmem)
    exact ht.justified _ _ _ hhistory _ id' hmem
      (ht.unique _ _ row' row hrow' hrow (heq.trans hrun.symm))
  have hnone := h.appended.mpr hfirst
  have hunaccepted : ∀ event, ¬s.HasAccepted runId event := by
    intro event hevent
    obtain ⟨job', id', hmem, heq⟩ := hparts.appended_of_accepted hevent
    exact hfirst job' id' hmem heq
  have haccepted : ∀ event, ¬t.HasAccepted runId event := by
    intro event
    unfold ServiceState.HasAccepted
    rw [hplatform]
    exact hunaccepted event
  have hstatus : (t.redis.runs runId).status = some .queued := by
    rw [hruns, hrun, Function.update_self]
    rfl
  refine ⟨⟨?_, fun event he => absurd he (haccepted event), fun status hs hend => ?_,
    fun row hrow => ?_⟩, ?_, ?_⟩
  · rw [hstatus]
    exact ⟨nofun, fun hall => absurd hrun (hall job id hnew)⟩
  · rw [hstatus] at hs
    cases hs
    cases hend
  · rw [hrows] at hrow
    rcases h.row row hrow with hqueued | ⟨event, he, -⟩
    · exact Or.inl hqueued
    · exact absurd he (hunaccepted event)
  · unfold ServiceState.cached
    rw [hnone]
    exact RunStatus.follows_queued _
  · rw [hstatus]
    exact fun _ => nofun

/-- **Steps on the rows.** A projector shows an event that was accepted. -/
theorem Cached.cancel (h : Cached runId s) (hinv : ServiceInv s) {r : RedisState}
    {c : Cancellations} (hst : CancelStep s.redis s.cancel r c) :
    Advances runId s { s.setRedis r with cancel := c } := by
  have hruns : r.runs runId = s.redis.runs runId := congrFun hst.runs runId
  refine .of_congr (h.congr hruns (fun _ _ _ => Iff.rfl) (fun _ => Iff.rfl) ?_) hruns
  intro row' hrow'
  obtain ⟨row, hrow, hsame | ⟨event, hevent, hrun, heq⟩⟩ := hst.row_cases hrow'
  · rw [hsame]
    exact h.row row hrow
  · have haccepted : s.HasAccepted runId event := by
      have hmem : event ∈ s.cancel.history.filterMap RunFact.event? :=
        List.mem_filterMap.mpr ⟨_, hevent, rfl⟩
      rw [hinv.complete] at hmem
      obtain ⟨fact, hfact, hfe⟩ := List.mem_filterMap.mp hmem
      cases fact with
      | acquired id g => cases hfe
      | accepted id g e =>
        cases hfe
        exact ⟨hrun, id, g, hfact⟩
    rw [heq]
    rcases row.project_cases event with hkeep | ⟨p, hp, hupdate⟩
    · rw [hkeep]
      exact h.row row hrow
    · rw [hupdate]
      by_cases haccepts : row.Accepts p
      · refine Or.inr ⟨event, haccepted, ?_⟩
        rw [(RunRow.update_eq haccepts).1]
        exact (projection_fields hp).2.2.1
      · rw [RunRow.update_of_not_accepts haccepts]
        exact h.row row hrow

/-- **Step lemma.** -/
theorem Cached.step (hs : (service group maximumLength).Reachable s) (h : Cached runId s)
    {l : ServiceLabel} (hst : ServiceStep group maximumLength s l t) (hl : l ≠ .expire runId) :
    Advances runId s t := by
  have hparts := service_parts hs
  have ht := (service_parts (hs.step hst)).outbox.ledger
  cases hst with
  | worker l p hrest hp => exact h.worker hparts hrest hp _ rfl
  | createRun job o ho hnone =>
    cases ho
    refine .of_congr (h.congr rfl (fun _ _ _ => Iff.rfl) (fun _ => Iff.rfl) ?_) rfl
    intro row hrow
    change Function.update s.cancel.runs job.runId _ runId = some row at hrow
    by_cases heq : runId = job.runId
    · rw [heq, Function.update_self] at hrow
      cases hrow
      exact Or.inl rfl
    · rw [Function.update_of_ne heq] at hrow
      exact h.row row hrow
  | dispatcher d r o ho =>
    rcases ho.runs_cases with ⟨hsame, hhistory⟩ | ⟨job, id, hhistory, hruns⟩
    · have hruns : r.runs runId = s.redis.runs runId := congrFun hsame runId
      exact .of_congr (h.congr hruns (fun job id _ => hhistory job id) (fun _ => Iff.rfl) h.row)
        hruns
    · by_cases hrun : job.runId = runId
      · exact h.enqueue hparts ht hrun hhistory hruns rfl rfl
      · have hother : r.runs runId = s.redis.runs runId := by
          rw [hruns, Function.update_of_ne (Ne.symm hrun)]
        refine .of_congr (h.congr hother (fun job' id' hthis => ?_) (fun _ => Iff.rfl) h.row) hother
        show _ ∈ o.history ↔ _
        rw [hhistory, List.mem_append, or_iff_left]
        intro hmem
        rcases List.mem_cons.mp hmem with heq | hmem
        · rw [(DeliveryFact.appended.inj heq).1] at hthis
          exact hrun hthis
        · cases List.mem_singleton.mp hmem
  | cancel r c hc => exact h.cancel (service_invariant hs) hc
  | expire runId' =>
    have hruns : (s.redis.setRun runId' .empty).runs runId = s.redis.runs runId :=
      Function.update_of_ne (fun heq => hl (by rw [heq])) ..
    exact .of_congr (h.congr hruns (fun _ _ _ => Iff.rfl) (fun _ => Iff.rfl) h.row) hruns

/-- **Run lemma.** -/
theorem cached_reachable (hs : (unexpired group maximumLength runId).Reachable s) :
    Cached runId s := by
  refine hs.invariant (fun s hinit => ?_) fun s l t hr h hst => ?_
  · obtain ⟨hfresh, hempty⟩ := hinit
    have hunaccepted : ∀ event, ¬s.HasAccepted runId event := by
      rintro event ⟨-, id, g, hmem⟩
      rw [hfresh.platform.1.history] at hmem
      cases hmem
    refine ⟨?_, fun event he => absurd he (hunaccepted event), fun status hstatus => ?_,
      fun row hrow => ?_⟩
    · rw [hempty, hfresh.outbox.history]
      exact ⟨fun _ _ _ => nofun, fun _ => rfl⟩
    · rw [hempty] at hstatus
      cases hstatus
    · rw [hfresh.runs] at hrow
      cases hrow
  · exact (Cached.step ((unexpired_service group maximumLength runId).reachable hr) h hst.1 hst.2).1

theorem Run.advances {ls : List ServiceLabel}
    (hs : (unexpired group maximumLength runId).Reachable s)
    (hrun : (unexpired group maximumLength runId).Run s ls t) : Advances runId s t := by
  have hadvances := hrun.preserves (P := fun u => Advances runId s u) ?_ hs
    (.of_congr (cached_reachable hs) rfl)
  · exact hadvances
  · intro u l v hu ⟨hc, hfollows, hsome⟩ hst
    obtain ⟨hc', hfollows', hsome'⟩ :=
      Cached.step ((unexpired_service group maximumLength runId).reachable hu) hc hst.1 hst.2
    exact ⟨hc', hfollows'.trans hfollows, hsome' ∘ hsome⟩

/-! ## Successive responses -/

/-- A row that is over has the status in the hash. -/
theorem Cached.row_terminal (h : Cached runId s) {row : RunRow}
    (hrow : s.cancel.runs runId = some row) (hterminal : row.status.isTerminal = true) :
    s.cached runId = row.status := by
  rcases h.row row hrow with hqueued | ⟨event, hevent, hprojected⟩
  · rw [hqueued] at hterminal
    cases hterminal
  · have hend := (projectedStatus_isTerminal hprojected).symm.trans hterminal
    unfold ServiceState.cached
    rw [h.ended event hevent hend, hprojected]
    rfl

/-- The status of a response is the one in the hash when it is made. -/
theorem response_eq_cached {ls : List ServiceLabel}
    (hs : (unexpired group maximumLength runId).Reachable s)
    (hrun : (unexpired group maximumLength runId).Run s ls t) {row : RunRow}
    (hrow : s.cancel.runs runId = some row) :
    (runResponse row (some (t.redis.runs runId))).status = t.cached runId := by
  have h := cached_reachable hs
  obtain ⟨-, hfollows, hsome⟩ := Run.advances hs hrun
  show ((if row.status.isTerminal then RunHash.empty else t.redis.runs runId).status).getD
    row.status = t.cached runId
  split_ifs with hterminal
  · have hcached := h.row_terminal hrow hterminal
    rw [hfollows.terminal (hcached ▸ hterminal), hcached]
    rfl
  · unfold ServiceState.cached
    cases hstatus : (t.redis.runs runId).status with
    | some status => rfl
    | none =>
      -- without a status in the hash no job was appended, so no event was accepted
      have hnone : (s.redis.runs runId).status = none := by
        by_contra hne
        exact hsome hne hstatus
      rcases h.row row hrow with hqueued | ⟨event, hevent, -⟩
      · exact hqueued
      · obtain ⟨job, id, hmem, heq⟩ := (service_parts
          ((unexpired_service group maximumLength runId).reachable hs)).appended_of_accepted hevent
        exact absurd heq (h.appended.mp hnone job id hmem)

end Invariant

/-- The statuses that one `GET` after another returns in a run of the service from `s` on. Each
reads the row, and some steps later the hash. -/
inductive Polls (S : Transition.System ServiceState ServiceLabel) (runId : String) :
    ServiceState → List RunStatus → Prop
  | nil (s : ServiceState) : Polls S runId s []
  | step {s t : ServiceState} {l : ServiceLabel} {statuses : List RunStatus} :
      S.step s l t → Polls S runId t statuses → Polls S runId s statuses
  | get {s t : ServiceState} {ls : List ServiceLabel} {row : RunRow} {status : RunStatus}
      {statuses : List RunStatus} :
      s.cancel.runs runId = some row → S.Run s ls t →
      (runResponse row (some (t.redis.runs runId))).status = status →
      Polls S runId t statuses → Polls S runId s (status :: statuses)

theorem Polls.follows {group : String} {maximumLength : Nat} {runId : String} {s : ServiceState}
    {statuses : List RunStatus}
    (h : Polls (unexpired group maximumLength runId) runId s statuses)
    (hs : (unexpired group maximumLength runId).Reachable s) :
    statuses.Pairwise (fun earlier later => later.Follows earlier) ∧
      ∀ status ∈ statuses, status.Follows (s.cached runId) := by
  induction h with
  | nil => exact ⟨.nil, nofun⟩
  | step hst _ ih =>
    obtain ⟨hpairwise, hall⟩ := ih (hs.step hst)
    have hadvances := (Run.advances hs (.cons hst (.nil _))).2.1
    exact ⟨hpairwise, fun status hmem => (hall status hmem).trans hadvances⟩
  | get hrow hrun hstatus _ ih =>
    obtain ⟨hpairwise, hall⟩ := ih (hs.run hrun)
    have hadvances := (Run.advances hs hrun).2.1
    rw [response_eq_cached hs hrun hrow] at hstatus
    rw [← hstatus]
    refine ⟨.cons hall hpairwise, fun status hmem => ?_⟩
    rcases List.mem_cons.mp hmem with rfl | hmem
    · exact hadvances
    · exact (hall status hmem).trans hadvances

/-- **The status of a run never goes back.** -/
theorem run_status_follows (group : String) (maximumLength : Nat) (runId : String)
    {s : ServiceState} {statuses : List RunStatus}
    (hs : (unexpired group maximumLength runId).Reachable s)
    (h : Polls (unexpired group maximumLength runId) runId s statuses) :
    statuses.Pairwise fun earlier later => later.Follows earlier :=
  (h.follows hs).1

/-- A run is asked for before it is enqueued, in the queue, while it runs and after it failed. -/
theorem run_status_follows_failed_job :
    Polls (unexpired "workers" 10 "run") "run" quietService
        [.queued, .queued, .running, .failed] ∧
      [RunStatus.queued, .queued, .running, .failed].Pairwise
        fun earlier later => later.Follows earlier := by
  have hinit : (unexpired "workers" 10 "run").Reachable quietService :=
    .init ⟨⟨⟨⟨fun _ => rfl, ⟨_, rfl, rfl⟩, rfl⟩, fun _ => rfl, rfl⟩,
      ⟨fun _ => rfl, fun _ => rfl, fun _ => rfl, rfl, fun _ => rfl, rfl, rfl⟩,
      fun _ => rfl, fun _ => rfl, fun _ => rfl, fun _ => rfl, rfl⟩, rfl⟩
  have hpolls : Polls (unexpired "workers" 10 "run") "run" quietService
      [.queued, .queued, .running, .failed] := by
    refine .step ⟨ServiceStep.createRun _ queuedJob _
      (OutboxStep.insert _ _ queuedJob rfl (fun _ _ h => by cases h)) rfl, nofun⟩ ?_
    refine .get rfl (.nil _) rfl ?_
    refine .step ⟨ServiceStep.dispatcher _ 0 _ _
      (OutboxStep.select _ _ 0 ⟨queuedJob, false, false⟩ rfl rfl rfl rfl), nofun⟩ ?_
    refine .step ⟨ServiceStep.dispatcher _ 0 _ _ (OutboxStep.send _ _ 0 _ rfl), nofun⟩ ?_
    refine .step ⟨ServiceStep.dispatcher _ 0 _ _
      (OutboxStep.eval _ _ 0 _ ⟨1, 0⟩ rfl (by decide)), nofun⟩ ?_
    refine .get rfl (.nil _) rfl ?_
    refine .step ⟨ServiceStep.worker _ _ _ (fun h => by cases h)
      (PlatformStep.start _ 0 "worker-1" 1000 rfl), nofun⟩ ?_
    refine .step ⟨ServiceStep.worker _ _ _ (fun h => by cases h)
      (PlatformStep.send _ 0 _ _ _ rfl (Worker.Sends.reclaim _ rfl)), nofun⟩ ?_
    refine .step ⟨ServiceStep.worker _ _ _ (fun h => by cases h)
      (PlatformStep.reply _ 0 _ 5 (List.mem_singleton_self _)), nofun⟩ ?_
    refine .step ⟨ServiceStep.worker _ _ _ (fun h => by cases h)
      (PlatformStep.send _ 0 _ _ _ rfl (Worker.Sends.read _ rfl)), nofun⟩ ?_
    refine .step ⟨ServiceStep.worker _ _ _ (fun h => by cases h)
      (PlatformStep.reply _ 0 _ 6 (List.mem_singleton_self _)), nofun⟩ ?_
    refine .step ⟨ServiceStep.worker _ _ _ (fun h => by cases h)
      (PlatformStep.send _ 0 _ _ _ rfl (Worker.Sends.acquire _ _ _ _ rfl rfl)), nofun⟩ ?_
    refine .step ⟨ServiceStep.worker _ _ _ (fun h => by cases h)
      (PlatformStep.reply _ 0 _ 7 (List.mem_singleton_self _)), nofun⟩ ?_
    refine .step ⟨ServiceStep.worker _ _ _ (fun h => by cases h) (PlatformStep.internal _ 0 _ _ rfl
      (Worker.Internal.observe _ _ _ ⟨"job", "run", "attempt"⟩ rfl (by decide))), nofun⟩ ?_
    refine .step ⟨ServiceStep.worker _ _ _ (fun h => by cases h)
      (PlatformStep.send _ 0 _ _ _ rfl (Worker.Sends.started _ _ rfl rfl)), nofun⟩ ?_
    refine .step ⟨ServiceStep.worker _ _ _ (fun h => by cases h)
      (PlatformStep.reply _ 0 _ 8 (List.mem_singleton_self _)), nofun⟩ ?_
    refine .get rfl (.nil _) rfl ?_
    refine .step ⟨ServiceStep.worker _ _ _ (fun h => by cases h) (PlatformStep.internal _ 0 _ _ rfl
      (Worker.Internal.finish _ _ false rfl (Or.inl rfl))), nofun⟩ ?_
    refine .step ⟨ServiceStep.worker _ _ _ (fun h => by cases h)
      (PlatformStep.send _ 0 _ _ _ rfl (Worker.Sends.terminal _ _ _ none rfl rfl rfl)), nofun⟩ ?_
    refine .step ⟨ServiceStep.worker _ _ _ (fun h => by cases h)
      (PlatformStep.reply _ 0 _ 9 (List.mem_singleton_self _)), nofun⟩ ?_
    exact .get rfl (.nil _) rfl (.nil _)
  exact ⟨hpolls, run_status_follows "workers" 10 "run" hinit hpolls⟩

end DocParser.Platform
