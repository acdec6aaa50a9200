import DocParser.Platform.Cancellation

/-!
# Where messages and events come from

The service simulates the workers alone and the dispatchers alone, so both invariants hold of
it. Between them stands the origin of what workers publish: a worker only holds messages that
the outbox appended, and the run and the attempt of its events are those of its message
(`OriginInv`). With one message per run, this turns statements about messages into statements
about runs.
-/

namespace DocParser.Platform

open Redis

/-! ## What workers leave alone -/

/-- Workers change no marker and add no job. -/
structure RedisState.SameApi (st st' : RedisState) : Prop where
  dispatched : st'.dispatched = st.dispatched
  cancels : st'.cancels = st.cancels
  entries : st'.jobs.entries = st.jobs.entries

theorem RedisState.SameApi.refl (st : RedisState) : st.SameApi st := ⟨rfl, rfl, rfl⟩

section Commands

variable {group : String} {st : RedisState}

/-- `XCLAIM` leaves the entries alone and returns one of them. -/
theorem xclaim_entries (s : Stream JobFields) (g : Group) (consumer : String) (idleMs : Nat)
    (id : StreamId) (now : Nat) :
    (s.xclaim g consumer idleMs id now).1.entries = s.entries ∧
      ∀ m, (s.xclaim g consumer idleMs id now).2 = some m → m ∈ s.entries := by
  unfold Stream.xclaim
  cases hf : s.fields? id with
  | none => exact ⟨rfl, nofun⟩
  | some fields =>
    dsimp only
    split
    · exact ⟨rfl, nofun⟩
    · split_ifs
      · refine ⟨rfl, fun m hm => ?_⟩
        obtain rfl := Option.some.inj hm
        unfold Stream.fields? at hf
        obtain ⟨e, he, hfe⟩ := Option.map_eq_some_iff.mp hf
        have hid : e.1 = id := by simpa using List.find?_some he
        subst hid
        subst hfe
        exact List.mem_of_find?_eq_some he
      · exact ⟨rfl, nofun⟩

variable (group) in
theorem reclaimEntries_frame (consumer : String) (idleMs now : Nat)
    (entries : List PendingEntry) : ∀ (st : RedisState) (cursor : Option StreamId),
      st.SameApi (reclaimEntries group consumer idleMs now entries st cursor).1 ∧
      ∀ m, (reclaimEntries group consumer idleMs now entries st cursor).2.2 = some m →
        m ∈ st.jobs.entries := by
  induction entries with
  | nil => exact fun st _ => ⟨.refl st, fun m hm => by cases hm⟩
  | cons entry entries ih =>
    intro st cursor
    unfold reclaimEntries
    cases hg : st.jobs.group? group with
    | none => exact ⟨.refl st, fun m hm => by cases hm⟩
    | some g =>
      obtain ⟨hsame, hmem⟩ := xclaim_entries st.jobs g consumer idleMs entry.id now
      dsimp only
      split_ifs
      · cases hc : (st.jobs.xclaim g consumer idleMs entry.id now).2 with
        | some message =>
          refine ⟨⟨rfl, rfl, hsame⟩, fun m hm => ?_⟩
          obtain rfl : message = m := Option.some.inj hm
          exact hmem message hc
        | none =>
          obtain ⟨hapi, hm⟩ := ih (st.setJobs _) (some entry.id)
          exact ⟨⟨hapi.dispatched, hapi.cancels, hapi.entries.trans hsame⟩,
            fun m h => hsame ▸ hm m h⟩
      · exact ih st (some entry.id)

/-- The message that a reply hands out. -/
def Reply.handed : Reply → Option (StreamId × JobFields)
  | .claimed _ m => m
  | .message m => m
  | _ => none

variable (group st)

theorem reclaimJob_frame (consumer : String) (idleMs : Nat) (cursor : Option StreamId) (now : Nat) :
    st.SameApi (reclaimJob group consumer idleMs cursor now st).1 ∧
      ∀ m, (Except.reply (fun p => .claimed p.1 p.2)
          (reclaimJob group consumer idleMs cursor now st).2).handed = some m →
        m ∈ st.jobs.entries := by
  unfold reclaimJob
  cases hg : st.jobs.group? group with
  | none => exact ⟨.refl st, fun m hm => by cases hm⟩
  | some g =>
    obtain ⟨hapi, hmem⟩ := reclaimEntries_frame group consumer idleMs now
      (g.pendingRange now idleMs cursor 32) st none
    dsimp only
    split
    next st' cursor' message heq =>
      rw [heq] at hapi hmem
      exact ⟨hapi, hmem⟩
    next st' cursor' heq =>
      rw [heq] at hapi
      exact ⟨hapi, fun m hm => by cases hm⟩

theorem readGroup_frame (consumer : String) (now : Nat) :
    st.SameApi (readGroup group consumer now st).1 ∧
      ∀ m, (Except.reply .message (readGroup group consumer now st).2).handed = some m →
        m ∈ st.jobs.entries := by
  unfold readGroup
  cases hg : st.jobs.group? group with
  | none => exact ⟨.refl st, fun m hm => by cases hm⟩
  | some g =>
    dsimp only
    unfold Stream.xreadgroup
    cases hn : st.jobs.next? g with
    | none => exact ⟨⟨rfl, rfl, rfl⟩, fun m hm => by cases hm⟩
    | some e =>
      refine ⟨⟨rfl, rfl, rfl⟩, fun m hm => ?_⟩
      cases hm
      exact List.mem_of_find?_eq_some hn

theorem acquireJob_frame (consumer : String) (id : StreamId) (leaseMs : Nat)
    (runId attemptId : String) (now : Nat) :
    st.SameApi (acquireJob group consumer id leaseMs runId attemptId now st).1 := by
  unfold acquireJob
  cases hg : st.jobs.group? group with
  | none => exact .refl st
  | some g =>
    dsimp only
    split_ifs
    · exact .refl st
    · exact .refl st
    · split
      · exact ⟨rfl, rfl, rfl⟩
      · exact ⟨rfl, rfl, rfl⟩

theorem renewJob_frame (lease : RedisJobLease) (now : Nat) :
    st.SameApi (renewJob lease now st).1 := by
  unfold renewJob
  split
  · exact .refl st
  · exact ⟨rfl, rfl, rfl⟩

theorem publishEvent_frame (lease : RedisJobLease) (runId : String) (event : Event) (now : Nat) :
    st.SameApi (publishEvent group (some lease) runId event now st).1 := by
  unfold publishEvent
  dsimp only
  split
  · exact .refl st
  · split
    · exact .refl st
    · split_ifs
      · exact .refl st
      · exact .refl st
      · exact .refl st
      · unfold RedisState.settle
        split_ifs
        · exact ⟨rfl, rfl, rfl⟩
        · exact ⟨rfl, rfl, rfl⟩

theorem acknowledge_frame (id : StreamId) : st.SameApi (acknowledge group id st) := by
  unfold acknowledge
  split
  · exact .refl st
  · exact ⟨rfl, rfl, rfl⟩

/-- A command keeps the keys of the API, and the message it answers with is an entry. -/
theorem exec_frame (c : Command) (now : Nat) :
    st.SameApi (st.exec group c now).1 ∧
      ∀ m, (st.exec group c now).2.handed = some m → m ∈ st.jobs.entries := by
  have hnone : ∀ {α : Type} (f : α → Reply) (x : Except ScriptError α),
      (∀ a, (f a).handed = none) → (Except.reply f x).handed = none := by
    intro α f x hf
    cases x with
    | ok a => exact hf a
    | error e => rfl
  cases c with
  | reclaim consumer idleMs cursor => exact reclaimJob_frame group st consumer idleMs cursor now
  | read consumer => exact readGroup_frame group st consumer now
  | acquire consumer id leaseMs runId attemptId =>
    refine ⟨acquireJob_frame group st consumer id leaseMs runId attemptId now, fun m hm => ?_⟩
    cases (hnone Reply.acquired _ fun _ => rfl).symm.trans hm
  | renew lease => exact ⟨renewJob_frame st lease now, fun m hm => by cases hm⟩
  | publish lease runId event =>
    refine ⟨publishEvent_frame group st lease runId event now, fun m hm => ?_⟩
    cases (hnone Reply.published _ fun _ => rfl).symm.trans hm
  | acknowledge id => exact ⟨acknowledge_frame group st id, fun m hm => by cases hm⟩

variable {group st}

/-- An event is accepted under a lease only if no marker of its attempt is set, unless it is
the cancellation itself. -/
theorem facts_publish {lease : RedisJobLease} {runId : String} {event : Event} {now : Nat}
    {f : Fact} (h : f ∈ Command.facts (.publish lease runId event)
      (st.exec group (.publish lease runId event) now).2) :
    f = .accepted lease.messageId lease.generation event ∧
      (st.cancels runId = some event.attemptId → event.type = .jobCancelled) := by
  unfold RedisState.exec publishEvent at h
  dsimp only at h
  split at h
  · cases h
  · split at h
    · cases h
    · split_ifs at h with howner hseq hcancel
      · cases h
      · cases h
      · cases h
      · refine ⟨List.mem_singleton.mp h, fun hmark => ?_⟩
        by_contra hne
        exact hcancel ⟨hne, hmark⟩

end Commands

/-- A step of the workers leaves the job group alone or runs one command in flight. -/
theorem PlatformStep.job_cases {group : String} {s t : PlatformState} {l : PlatformLabel}
    (hst : PlatformStep group s l t) (hl : l ≠ .rest) :
    t.job = s.job ∨ ∃ i c now, (i, c) ∈ s.inflight ∧ t.job = s.job.exec group c now := by
  cases hst with
  | reply i c now hmem => exact Or.inr ⟨i, c, now, hmem, rfl⟩
  | loseReply i c now hmem => exact Or.inr ⟨i, c, now, hmem, rfl⟩
  | rest redis _ => exact absurd rfl hl
  | start | send | internal | drop | crash => exact Or.inl rfl

theorem OutboxStep.frame {maximumLength d : Nat} {r r' : RedisState} {o o' : Outbox}
    (hst : OutboxStep maximumLength ⟨r, o⟩ (.dispatcher d) ⟨r', o'⟩) :
    r.SameGroup r' ∧ r'.cancels = r.cancels ∧ ∀ f ∈ o.history, f ∈ o'.history := by
  cases hst with
  | eval _ _ _ job id hd hid =>
    refine ⟨enqueueJob_sameGroup maximumLength job id r, ?_,
      fun f hf => List.mem_append_left _ hf⟩
    rcases enqueueJob_cases maximumLength job id r with
      ⟨_, _, heq⟩ | ⟨_, heq⟩ | ⟨r', _, heq, _, _, _, hc, _⟩
    · rw [heq]
    · rw [heq]; rfl
    · rw [heq]; exact hc
  | deleteReply | deleteLate | commit =>
    exact ⟨⟨rfl, rfl⟩, rfl, fun f hf => List.mem_append_left _ hf⟩
  | full | fail =>
    refine ⟨⟨rfl, rfl⟩, rfl, fun f hf => ?_⟩
    show f ∈ (o.rollback d).history
    rw [Outbox.rollback_history]
    exact hf
  | select | selectNone | send | update | list | sendDelete | done | deleteDrop | mark =>
    exact ⟨⟨rfl, rfl⟩, rfl, fun f hf => hf⟩

theorem CancelStep.frame {r r' : RedisState} {c c' : Cancellations}
    (hst : CancelStep r c r' c') :
    r'.leases = r.leases ∧ r'.jobs = r.jobs ∧ r'.dispatched = r.dispatched := by
  cases hst with
  | eval =>
    unfold requestCancellation
    split_ifs
    · exact ⟨rfl, rfl, rfl⟩
    · exact ⟨rfl, rfl, rfl⟩
  | _ => exact ⟨rfl, rfl, rfl⟩

/-! ## The service and its parts -/

/-- The service seen by the workers. -/
theorem service_platform (group : String) (maximumLength : Nat) :
    Transition.Simulation (service group maximumLength) (platform group)
      ServiceState.platform where
  init := fun _ h => h.platform
  step := by
    intro s l t _ hst
    cases hst with
    | worker l p hl hp => exact Or.inr ⟨l, hp⟩
    | createRun job o _ _ => exact Or.inl rfl
    | dispatcher d r o ho => exact Or.inr ⟨.rest, .rest s.platform r ho.frame.1⟩
    | cancel r c hc =>
      obtain ⟨hl, hj, _⟩ := hc.frame
      exact Or.inr ⟨.rest, .rest s.platform r ⟨hl, by rw [hj]; rfl⟩⟩
    | expire runId => exact Or.inr ⟨.rest, .rest s.platform _ ⟨rfl, rfl⟩⟩

/-- The service seen by the dispatchers. -/
theorem service_outboxes (group : String) (maximumLength : Nat) :
    Transition.Simulation (service group maximumLength) (outboxes maximumLength)
      (fun s => ⟨s.redis, s.outbox⟩) where
  init := fun _ h => h.outbox
  step := by
    intro s l t _ hst
    cases hst with
    | worker l p hl hp =>
      refine Or.inr ⟨.rest, ?_⟩
      rcases hp.job_cases hl with heq | ⟨i, c, now, _, heq⟩
      · refine .rest _ _ _ ?_ ?_ <;> rw [ServiceState.redis, heq] <;> exact .refl _
      · obtain ⟨hapi, _⟩ := exec_frame group s.platform.job.redis c now
        refine .rest _ _ _ ?_ ?_
        · show p.job.redis.dispatched = _
          rw [heq]
          exact hapi.dispatched
        · show p.job.redis.jobs.entries.Sublist _
          rw [heq]
          show List.Sublist (s.platform.job.redis.exec group c now).1.jobs.entries _
          rw [hapi.entries]
          exact .refl _
    | createRun job o ho _ => exact Or.inr ⟨_, ho⟩
    | dispatcher d r o ho => exact Or.inr ⟨_, ho⟩
    | cancel r c hc =>
      obtain ⟨_, hj, hd⟩ := hc.frame
      exact Or.inr ⟨.rest, .rest _ _ _ hd (by
        show r.jobs.entries.Sublist s.redis.jobs.entries
        rw [hj])⟩
    | expire runId => exact Or.inr ⟨.rest, .rest _ _ _ rfl (.refl _)⟩

/-! ## The origin of events -/

/-- The message `id` was appended for a job with these fields. -/
def Outbox.Delivered (o : Outbox) (id : StreamId) (fields : JobFields) : Prop :=
  ∃ job, .appended job id ∈ o.history ∧ fields = job.fields

/-- The message `id` was appended for this attempt of a run. -/
def Outbox.Publishes (o : Outbox) (id : StreamId) (runId attemptId : String) : Prop :=
  ∃ job, .appended job id ∈ o.history ∧ job.runId = runId ∧ job.attemptId = attemptId

/-- What a worker holds comes from the outbox. -/
def Phase.Origin (o : Outbox) : Phase → Prop
  | .taken id fields | .awaitAcquire id fields => o.Delivered id fields
  | .leased fields lease => o.Delivered lease.messageId fields
  | .running e | .publishing e =>
    o.Publishes e.lease.messageId e.observer.identity.runId e.observer.identity.attemptId
  | _ => True

/-- An event in flight is one of the run and attempt of its message. -/
def Command.Origin (o : Outbox) : Command → Prop
  | .publish lease runId event =>
    o.Publishes lease.messageId event.runId event.attemptId ∧ event.runId = runId
  | _ => True

structure OriginInv (p : PlatformState) (o : Outbox) : Prop where
  phase : ∀ i w, p.workers i = some w → w.phase.Origin o
  command : ∀ i c, (i, c) ∈ p.inflight → c.Origin o
  accepted : ∀ id g event, .accepted id g event ∈ p.job.history →
    o.Publishes id event.runId event.attemptId

section Origin

variable {o o' : Outbox} {w w' : Worker} {c : Command}

theorem OriginInv.mono {p : PlatformState} (h : OriginInv p o)
    (hsub : ∀ f ∈ o.history, f ∈ o'.history) : OriginInv p o' := by
  have hdel : ∀ {id fields}, o.Delivered id fields → o'.Delivered id fields :=
    fun ⟨job, hmem, hf⟩ => ⟨job, hsub _ hmem, hf⟩
  have hpub : ∀ {id runId attemptId}, o.Publishes id runId attemptId →
      o'.Publishes id runId attemptId := fun ⟨job, hmem, hr⟩ => ⟨job, hsub _ hmem, hr⟩
  refine ⟨fun i w hw => ?_, fun i c hc => ?_, fun id g event hm => hpub (h.accepted _ _ _ hm)⟩
  · have hold := h.phase i w hw
    cases hp : w.phase <;> rw [hp] at hold
    case taken | awaitAcquire | leased => exact hdel hold
    case running | publishing => exact hpub hold
    all_goals exact trivial
  · have hold := h.command i c hc
    cases c
    case publish => exact ⟨hpub hold.1, hold.2⟩
    all_goals exact trivial

theorem Worker.Sends.origin (h : w.phase.Origin o) (hs : w.Sends c w') :
    c.Origin o ∧ w'.phase.Origin o := by
  cases hs with
  | reclaim hp => exact ⟨trivial, trivial⟩
  | read hp => exact ⟨trivial, trivial⟩
  | acknowledge id fields hp hnone => exact ⟨trivial, trivial⟩
  | acquire id fields path hp hpath => rw [hp] at h; exact ⟨trivial, h⟩
  | started e hp hstage => rw [hp] at h; exact ⟨⟨h, rfl⟩, h⟩
  | progress e type stage error hp hstage htype => rw [hp] at h; exact ⟨⟨h, rfl⟩, h⟩
  | terminal e succeeded error hp hstage hlost => rw [hp] at h; exact ⟨⟨h, rfl⟩, h⟩
  | cancelled e hp hstage => rw [hp] at h; exact ⟨⟨h, rfl⟩, h⟩
  | renew lease hl => exact ⟨trivial, h⟩

theorem Worker.Internal.origin (h : w.phase.Origin o) (hi : w.Internal w') :
    w'.phase.Origin o := by
  cases hi with
  | observe fields lease identity hp hid =>
    rw [hp] at h
    obtain ⟨job, hmem, rfl⟩ := h
    obtain rfl := hid ⟨job.jobId, job.runId, job.attemptId⟩ rfl
    exact ⟨job, hmem, rfl, rfl⟩
  | skip fields lease hp => exact trivial
  | finish e succeeded hp hstage => rw [hp] at h; exact h
  | lost e succeeded hp hstage hlost => exact trivial

theorem afterPublish_origin {e : Execution} (h : (Phase.publishing e).Origin o)
    (accepted : Option Bool) : (Worker.afterPublish e accepted).Origin o := by
  have hstage : ∀ stage, (Phase.running { e with stage := stage }).Origin o := fun _ => h
  unfold Worker.afterPublish
  cases e.stage <;> rcases accepted with _ | _ | _ <;> first | exact hstage _ | exact trivial

theorem Worker.fail_origin (h : w.phase.Origin o) (c : Command) :
    (w.fail c).phase.Origin o := by
  unfold Worker.fail
  split
  · exact h
  next e hp =>
    rw [hp] at h
    exact afterPublish_origin h none
  · exact trivial

/-- A reply hands out only messages that the outbox appended. -/
theorem Worker.receive_origin (h : w.phase.Origin o) (c : Command) {r : Reply}
    (hm : ∀ m, r.handed = some m → o.Delivered m.1 m.2) : (w.receive c r).phase.Origin o := by
  unfold Worker.receive
  split
  next cursor id fields hp => exact hm (id, fields) rfl
  next cursor hp => exact trivial
  next id fields hp => exact hm (id, fields) rfl
  next hp => exact trivial
  next hp => exact trivial
  next hp => exact trivial
  next generation sequence id fields hp => rw [hp] at h; exact h
  next accepted e hp => rw [hp] at h; exact afterPublish_origin h (some accepted)
  next live _ =>
    split_ifs
    · exact h
    · exact h
  · exact fail_origin h c

end Origin

/-! ## The origin invariant -/

/-- Every entry of the stream was appended by the outbox. -/
theorem OutboxInv.entry_delivered {s : OutboxState} (h : OutboxInv s) {id : StreamId}
    {fields : JobFields} (hmem : (id, fields) ∈ s.redis.jobs.entries) :
    s.outbox.Delivered id fields := by
  obtain ⟨f, hf, heq⟩ := List.mem_filterMap.mp (h.ledger.stream.subset hmem)
  cases f with
  | appended job i =>
    obtain ⟨rfl, rfl⟩ := Prod.mk.inj (Option.some.inj heq)
    exact ⟨job, hf, rfl⟩
  | markerSet | markerDeleted | published => cases heq

theorem facts_origin {group : String} {o : Outbox} {st : RedisState} {c : Command} {now : Nat}
    (hc : c.Origin o) {id : StreamId} {g : Nat} {event : Event}
    (hm : .accepted id g event ∈ c.facts (st.exec group c now).2) :
    o.Publishes id event.runId event.attemptId := by
  cases c with
  | publish lease runId e =>
    obtain ⟨heq, _⟩ := facts_publish hm
    cases heq
    exact hc.1
  | acquire consumer i leaseMs runId attemptId =>
    unfold RedisState.exec at hm
    dsimp only at hm
    cases hx : (acquireJob group consumer i leaseMs runId attemptId now st).2 with
    | error e => rw [hx] at hm; cases hm
    | ok reply =>
      rw [hx] at hm
      cases reply with
      | none => cases hm
      | some acquired => cases List.mem_singleton.mp hm
  | reclaim | read | renew | acknowledge => cases hm

/-- Workers keep the origin invariant while every entry comes from the outbox. -/
theorem OriginInv.worker {group : String} {o : Outbox} {p q : PlatformState} {l : PlatformLabel}
    (h : OriginInv p o) (hl : l ≠ .rest) (hst : PlatformStep group p l q)
    (hentries : ∀ id fields, (id, fields) ∈ p.job.redis.jobs.entries → o.Delivered id fields) :
    OriginInv q o := by
  have hupdate : ∀ {f : Nat → Option Worker} {i : Nat} {x : Option Worker},
      (∀ w, x = some w → w.phase.Origin o) →
      (∀ j w, f j = some w → w.phase.Origin o) →
      ∀ j w, Function.update f i x j = some w → w.phase.Origin o := by
    intro f i x hx hf j w hw
    by_cases hj : j = i
    · subst hj
      rw [Function.update_self] at hw
      exact hx w hw
    · rw [Function.update_of_ne hj] at hw
      exact hf j w hw
  have hexec : ∀ i c now, (i, c) ∈ p.inflight → ∀ id g event,
      .accepted id g event ∈ (p.job.exec group c now).history →
      o.Publishes id event.runId event.attemptId := by
    intro i c now hmem id g event hm
    rcases List.mem_append.mp hm with hm | hm
    · exact h.accepted id g event hm
    · exact facts_origin (h.command i c hmem) hm
  have hanswer : ∀ {i : Nat} {react : Worker → Worker},
      (∀ w : Worker, w.phase.Origin o → (react w).phase.Origin o) →
      ∀ j w, Function.update p.workers i ((p.workers i).map react) j = some w →
        w.phase.Origin o := by
    intro i react hreact
    refine hupdate (fun w hw => ?_) h.phase
    obtain ⟨w', hw', rfl⟩ := Option.map_eq_some_iff.mp hw
    exact hreact w' (h.phase i w' hw')
  cases hst with
  | start i consumer leaseMs hnone =>
    refine ⟨hupdate (fun w hw => ?_) h.phase, h.command, h.accepted⟩
    cases hw
    exact trivial
  | send i w w' c hw hs =>
    obtain ⟨hc, hw'⟩ := hs.origin (h.phase i w hw)
    refine ⟨hupdate (fun x hx => ?_) h.phase, fun j x hx => ?_, h.accepted⟩
    · cases hx
      exact hw'
    · rcases List.mem_append.mp hx with hx | hx
      · exact h.command j x hx
      · obtain ⟨rfl, rfl⟩ := Prod.mk.inj (List.mem_singleton.mp hx)
        exact hc
  | internal i w w' hw hi =>
    refine ⟨hupdate (fun x hx => ?_) h.phase, h.command, h.accepted⟩
    cases hx
    exact hi.origin (h.phase i w hw)
  | reply i c now hmem =>
    obtain ⟨_, hhanded⟩ := exec_frame group p.job.redis c now
    exact ⟨hanswer fun w hw => Worker.receive_origin hw c fun m hm =>
        hentries m.1 m.2 (hhanded m hm),
      fun j x hx => h.command j x (List.mem_of_mem_erase hx), hexec i c now hmem⟩
  | loseReply i c now hmem =>
    exact ⟨hanswer fun w hw => Worker.fail_origin hw c,
      fun j x hx => h.command j x (List.mem_of_mem_erase hx), hexec i c now hmem⟩
  | drop i c hmem =>
    exact ⟨hanswer fun w hw => Worker.fail_origin hw c,
      fun j x hx => h.command j x (List.mem_of_mem_erase hx), h.accepted⟩
  | crash i w hw =>
    refine ⟨hupdate (fun x hx => ?_) h.phase, h.command, h.accepted⟩
    cases hx
    exact trivial
  | rest redis _ => exact absurd rfl hl

/-- Both invariants of the parts hold of the service, and so does the origin invariant. -/
structure ServiceParts (group : String) (s : ServiceState) : Prop where
  job : JobInv group s.platform.job
  outbox : OutboxInv ⟨s.redis, s.outbox⟩
  origin : OriginInv s.platform s.outbox

theorem service_parts {group : String} {maximumLength : Nat} {s : ServiceState}
    (h : (service group maximumLength).Reachable s) : ServiceParts group s := by
  have hjob : ∀ {s}, (service group maximumLength).Reachable s → JobInv group s.platform.job :=
    fun h => jobGroup_invariant ((refinement group).reachable
      ((service_platform group maximumLength).reachable h))
  have houtbox : ∀ {s}, (service group maximumLength).Reachable s →
      OutboxInv ⟨s.redis, s.outbox⟩ :=
    fun h => outboxes_invariant ((service_outboxes group maximumLength).reachable h)
  refine ⟨hjob h, houtbox h, ?_⟩
  refine h.invariant (I := fun s => OriginInv s.platform s.outbox) (fun s hi => ?_)
    fun s l t hr hi hst => ?_
  · obtain ⟨hfresh, hworkers, hinflight⟩ := hi.platform
    refine ⟨fun i w hw => ?_, fun i c hc => ?_, fun id g event hm => ?_⟩
    · rw [hworkers] at hw; cases hw
    · rw [hinflight] at hc; cases hc
    · rw [hfresh.history] at hm; cases hm
  · cases hst with
    | worker l p hl hp =>
      exact hi.worker hl hp fun id fields hmem => (houtbox hr).entry_delivered hmem
    | createRun job o ho _ =>
      cases ho
      exact ⟨hi.phase, hi.command, hi.accepted⟩
    | dispatcher d r o ho =>
      have hi' := hi.mono ho.frame.2.2
      exact ⟨hi'.phase, hi'.command, hi'.accepted⟩
    | cancel r c _ => exact ⟨hi.phase, hi.command, hi.accepted⟩
    | expire runId => exact ⟨hi.phase, hi.command, hi.accepted⟩

end DocParser.Platform
