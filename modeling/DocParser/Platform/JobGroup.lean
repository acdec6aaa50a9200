import DocParser.Lib.Transition
import DocParser.Platform.JobScripts

/-!
# The job group as a transition system

Every command that a worker sends to Redis is one value of `Command`, and `RedisState.exec`
runs it as one atomic step. `jobGroup` is the system in which any client may send any command
at any time with any clock reading, next to the steps of the rest of the platform; it keeps the
history of acquired leases and of events accepted under one. `exec_spec` says once what a
command can do to a message, and all that follows about leases is derived from it.
-/

namespace DocParser.Platform

open Redis

/-- The commands of `RedisClient` on the job group. -/
inductive Command
  | reclaim (consumer : String) (idleMs : Nat) (cursor : Option StreamId)
  | read (consumer : String)
  | acquire (consumer : String) (id : StreamId) (leaseMs : Nat) (runId attemptId : String)
  | renew (lease : RedisJobLease)
  | publish (lease : RedisJobLease) (runId : String) (event : Event)
  | acknowledge (id : StreamId)
  deriving DecidableEq, Repr

inductive Reply
  | claimed (cursor : Option StreamId) (message : Option (StreamId × JobFields))
  | message (message : Option (StreamId × JobFields))
  | acquired (lease : Option (Nat × Nat))
  | renewed (live : Bool)
  | published (accepted : Bool)
  | acknowledged
  | error (reason : ScriptError)
  deriving DecidableEq, Repr

/-- What the platform remembers of a message: the leases handed out and the events accepted
under a lease, in order. -/
inductive Fact
  | acquired (id : StreamId) (generation : Nat)
  | accepted (id : StreamId) (generation : Nat) (event : Event)
  deriving DecidableEq, Repr

def Fact.id : Fact → StreamId
  | acquired id _ => id
  | accepted id _ _ => id

@[simp] theorem Fact.id_acquired (id : StreamId) (n : Nat) : (acquired id n).id = id := rfl

@[simp] theorem Fact.id_accepted (id : StreamId) (n : Nat) (event : Event) :
    (accepted id n event).id = id := rfl

def Except.reply {α : Type} (f : α → Reply) : Except ScriptError α → Reply
  | .ok a => f a
  | .error e => .error e

/-- One command as one atomic step. -/
def RedisState.exec (group : String) (c : Command) (now : Nat) (st : RedisState) :
    RedisState × Reply :=
  match c with
  | .reclaim consumer idleMs cursor =>
    let r := reclaimJob group consumer idleMs cursor now st
    (r.1, Except.reply (fun p => .claimed p.1 p.2) r.2)
  | .read consumer =>
    let r := readGroup group consumer now st
    (r.1, Except.reply .message r.2)
  | .acquire consumer id leaseMs runId attemptId =>
    let r := acquireJob group consumer id leaseMs runId attemptId now st
    (r.1, Except.reply .acquired r.2)
  | .renew lease =>
    let r := renewJob lease now st
    (r.1, .renewed r.2)
  | .publish lease runId event =>
    let r := publishEvent group (some lease) runId event now st
    (r.1, Except.reply .published r.2)
  | .acknowledge id => (acknowledge group id st, .acknowledged)

/-- The facts that a command establishes, read off its reply. -/
def Command.facts : Command → Reply → List Fact
  | .acquire _ id _ _ _, .acquired (some (generation, _)) => [.acquired id generation]
  | .publish lease _ event, .published true => [.accepted lease.messageId lease.generation event]
  | _, _ => []

/-- Redis together with the history of the job group. -/
structure JobState where
  redis : RedisState
  history : List Fact

/-- Steps of the job group: a command of any client, or the rest of the platform. -/
inductive JobLabel
  | command (c : Command) (now : Nat)
  | rest

def JobState.exec (group : String) (c : Command) (now : Nat) (s : JobState) : JobState where
  redis := (s.redis.exec group c now).1
  history := s.history ++ c.facts (s.redis.exec group c now).2

inductive JobStep (group : String) : JobState → JobLabel → JobState → Prop
  | command (s : JobState) (c : Command) (now : Nat) :
      JobStep group s (.command c now) (s.exec group c now)
  /-- The API enqueues and trims jobs, sets and removes markers and caches runs, but it has no
  command on the group or on a lease. -/
  | rest (s : JobState) (redis : RedisState) :
      s.redis.SameGroup redis → JobStep group s .rest { s with redis := redis }

/-- The group exists, no job was delivered yet and no lease exists. -/
structure JobState.Fresh (group : String) (s : JobState) : Prop where
  leases : ∀ id, s.redis.leases id = none
  pending : ∃ g, s.redis.jobs.group? group = some g ∧ g.pending = []
  history : s.history = []

def jobGroup (group : String) : Transition.System JobState JobLabel where
  init := JobState.Fresh group
  step := JobStep group

/-! ## What a command can do -/

/-- The lease of a message survives a step up to its expiry, or the message is gone. -/
def LeaseKept (g : Group) (id : StreamId) (old new : Option LeaseHash) : Prop :=
  new = old ∨ (∃ hash untilMs, old = some hash ∧ new = some { hash with untilMs := untilMs }) ∨
    (new = none ∧ g.Gone id)

/-- The four kinds of effect of a command: no fact, a lease acquired, an event accepted, an
attempt ended. -/
inductive Effect (group : String) (g : Group) (st : RedisState) :
    RedisState → List Fact → Prop
  | quiet (st' : RedisState) (g' : Group) :
      st'.jobs.group? group = some g' → g.Evolves g' →
      (∀ id, LeaseKept g' id (st.leases id) (st'.leases id)) → Effect group g st st' []
  | acquired (st' : RedisState) (id : StreamId) (consumer : String) (hash : LeaseHash) :
      st'.jobs.group? group = some g → g.owner id = some consumer →
      hash.generation = ((st.leases id).map (·.generation)).getD 0 + 1 →
      st.sequence id ≤ hash.sequence →
      st'.leases = Function.update st.leases id (some hash) →
      Effect group g st st' [.acquired id hash.generation]
  | accepted (st' : RedisState) (id : StreamId) (hash : LeaseHash) (event : Event) :
      st'.jobs.group? group = some g → st.leases id = some hash →
      hash.sequence < event.sequence → event.type.isTerminal = false →
      st'.leases = Function.update st.leases id (some { hash with sequence := event.sequence }) →
      Effect group g st st' [.accepted id hash.generation event]
  | ended (st' : RedisState) (id : StreamId) (consumer : String) (hash : LeaseHash)
      (event : Event) :
      st'.jobs.group? group = some (g.ack id) → g.owner id = some consumer →
      st.leases id = some hash → hash.sequence < event.sequence →
      event.type.isTerminal = true → st'.leases = Function.update st.leases id none →
      Effect group g st st' [.accepted id hash.generation event]

variable {group : String} {g : Group} {st : RedisState}

/-- A lease has counted from zero. -/
theorem Effect.positive {st' : RedisState} {facts : List Fact} (h : Effect group g st st' facts)
    {id : StreamId} {n : Nat} {event : Event} (hfact : .accepted id n event ∈ facts) :
    0 < event.sequence := by
  cases h with
  | quiet => cases hfact
  | acquired => cases List.mem_singleton.mp hfact
  | accepted id hash event hg hlease hsequence =>
    cases List.mem_singleton.mp hfact
    exact Nat.zero_lt_of_lt hsequence
  | ended id consumer hash event hg howner hlease hsequence =>
    cases List.mem_singleton.mp hfact
    exact Nat.zero_lt_of_lt hsequence

theorem LeaseKept.same {id : StreamId} {lease : Option LeaseHash} : LeaseKept g id lease lease :=
  Or.inl rfl

theorem Effect.unchanged (hg : st.jobs.group? group = some g) : Effect group g st st [] :=
  .quiet st g hg (.refl g) fun _ => .same

theorem liveLease_some {lease : RedisJobLease} {now : Nat} {hash : LeaseHash}
    (h : st.liveLease lease now = some hash) :
    st.leases lease.messageId = some hash ∧ hash.generation = lease.generation := by
  unfold RedisState.liveLease at h
  split at h
  · cases h
  next hash' hl =>
    split at h
    next hc => cases h; exact ⟨hl, hc.1⟩
    · cases h

theorem reclaimEntries_spec (consumer : String) (idleMs now : Nat) (entries : List PendingEntry) :
    ∀ (st : RedisState) (g : Group) (cursor : Option StreamId),
      st.jobs.group? group = some g →
      ∃ g', (reclaimEntries group consumer idleMs now entries st cursor).1.jobs.group? group =
          some g' ∧ g.Evolves g' ∧
        (reclaimEntries group consumer idleMs now entries st cursor).1.leases = st.leases := by
  induction entries with
  | nil => intro st g cursor hg; exact ⟨g, hg, .refl g, rfl⟩
  | cons entry entries ih =>
    intro st g cursor hg
    unfold reclaimEntries
    rw [hg]
    dsimp only
    split
    · obtain ⟨g₁, hg₁, he₁⟩ := Stream.xclaim_group? hg consumer idleMs entry.id now
      split
      · exact ⟨g₁, hg₁, he₁, rfl⟩
      · obtain ⟨g₂, hg₂, he₂, hl₂⟩ := ih (st.setJobs _) g₁ (some entry.id) hg₁
        exact ⟨g₂, hg₂, he₁.trans he₂, hl₂⟩
    · exact ih st g (some entry.id) hg

theorem reclaimJob_spec (hg : st.jobs.group? group = some g) (consumer : String) (idleMs : Nat)
    (cursor : Option StreamId) (now : Nat) :
    Effect group g st (reclaimJob group consumer idleMs cursor now st).1 [] := by
  obtain ⟨g', hg', he, hl⟩ :=
    reclaimEntries_spec consumer idleMs now (g.pendingRange now idleMs cursor 32) st g none hg
  have hst : (reclaimJob group consumer idleMs cursor now st).1 =
      (reclaimEntries group consumer idleMs now (g.pendingRange now idleMs cursor 32) st
        none).1 := by
    unfold reclaimJob
    rw [hg]
    dsimp only
    split
    all_goals rename_i heq; rw [heq]
  rw [hst]
  exact .quiet _ g' hg' he fun id => Or.inl (by rw [hl])

theorem readGroup_spec (hg : st.jobs.group? group = some g) (consumer : String) (now : Nat) :
    Effect group g st (readGroup group consumer now st).1 [] := by
  obtain ⟨g', hg', he⟩ := Stream.xreadgroup_group? hg consumer now
  unfold readGroup
  rw [hg]
  exact .quiet _ g' hg' he fun _ => .same

theorem acknowledge_spec (hg : st.jobs.group? group = some g) (id : StreamId) :
    Effect group g st (acknowledge group id st) [] := by
  unfold acknowledge
  rw [hg]
  exact .quiet _ (g.ack id) (Stream.group?_setGroup hg rfl) (.ack g id) fun _ => .same

theorem renewJob_spec (hg : st.jobs.group? group = some g) (lease : RedisJobLease) (now : Nat) :
    Effect group g st (renewJob lease now st).1 [] := by
  unfold renewJob
  split
  · exact .unchanged hg
  next hash hlive =>
    refine .quiet _ g hg (.refl g) fun id => ?_
    by_cases hid : id = lease.messageId
    · subst hid
      exact Or.inr (Or.inl ⟨hash, now + lease.durationMs, (liveLease_some hlive).1,
        by simp only [RedisState.setLease, Function.update_self]⟩)
    · exact Or.inl (by simp only [RedisState.setLease, Function.update_of_ne hid])

theorem acquireJob_spec (hg : st.jobs.group? group = some g) (hd : g.Delivered)
    (consumer : String) (id : StreamId) (leaseMs : Nat) (runId attemptId : String) (now : Nat) :
    Effect group g st (acquireJob group consumer id leaseMs runId attemptId now st).1
      (Command.facts (.acquire consumer id leaseMs runId attemptId)
        (Except.reply .acquired
          (acquireJob group consumer id leaseMs runId attemptId now st).2)) := by
  unfold acquireJob
  rw [hg]
  dsimp only
  split_ifs with howner hlive
  · exact .unchanged hg
  · exact .unchanged hg
  rw [not_not] at howner
  have hseq : ∀ sequence, resumeSequence st id runId attemptId = some sequence →
      st.sequence id ≤ sequence := by
    intro sequence h
    unfold resumeSequence at h
    split at h
    · simp only [Option.some.injEq] at h; omega
    split_ifs at h <;> simp only [Option.some.injEq] at h <;> omega
  split
  · -- the attempt ended before: the message is acknowledged and its lease deleted
    refine .quiet _ (g.ack id) (Stream.group?_setGroup hg rfl) (.ack g id) fun i => ?_
    by_cases hi : i = id
    · subst hi
      exact Or.inr (Or.inr ⟨by simp only [RedisState.setLease, Function.update_self],
        .of_ack (Group.le_lastDelivered_of_owner hd howner)⟩)
    · exact Or.inl (by
        simp only [RedisState.setLease, Function.update_of_ne hi, RedisState.xack,
          RedisState.setJobs])
  next sequence hresume =>
    show Effect group g st (st.setLease id (some _)) [.acquired id _]
    exact .acquired (st.setLease id _) id consumer
      ⟨_, consumer, now + leaseMs, sequence⟩ hg howner rfl (hseq sequence hresume) rfl

theorem publishEvent_spec (hg : st.jobs.group? group = some g) (lease : RedisJobLease)
    (runId : String) (event : Event) (now : Nat) :
    Effect group g st (publishEvent group (some lease) runId event now st).1
      (Command.facts (.publish lease runId event)
        (Except.reply .published
          (publishEvent group (some lease) runId event now st).2)) := by
  unfold publishEvent
  dsimp only
  split
  · exact .unchanged hg
  next hash hlive =>
    obtain ⟨hl, hgen⟩ := liveLease_some hlive
    rw [hg]
    dsimp only
    split_ifs with howner hseq hcancel
    · exact .unchanged hg
    · exact .unchanged hg
    · exact .unchanged hg
    rw [not_not] at howner
    have hfacts : Command.facts (.publish lease runId event)
        (Except.reply .published (Except.ok true)) =
          [.accepted lease.messageId hash.generation event] := by
      rw [hgen]; exact rfl
    rw [hfacts]
    cases hterm : event.type.isTerminal with
    | false =>
      refine .accepted _ lease.messageId hash event ?_ hl (by omega) hterm ?_
      · simp only [RedisState.settle, hterm, Bool.false_eq_true, if_false]
        exact hg
      · simp only [RedisState.settle, hterm, Bool.false_eq_true, if_false, RedisState.setLease,
          RedisState.append, RedisState.setRun]
    | true =>
      refine .ended _ lease.messageId lease.consumer hash event ?_ howner hl (by omega) hterm ?_
      · simp only [RedisState.settle, hterm, if_true]
        exact Stream.group?_setGroup hg rfl
      · simp only [RedisState.settle, hterm, if_true, RedisState.setLease, RedisState.xack,
          RedisState.setJobs, RedisState.append, RedisState.setRun]

/-- **What a command can do.** -/
theorem exec_spec (hg : st.jobs.group? group = some g) (hd : g.Delivered) (c : Command)
    (now : Nat) :
    Effect group g st (st.exec group c now).1 (c.facts (st.exec group c now).2) := by
  have hnone : ∀ (r : RedisState × Reply), Effect group g st r.1 [] → c.facts r.2 = [] →
      Effect group g st r.1 (c.facts r.2) := fun r h hf => hf ▸ h
  cases c with
  | reclaim consumer idleMs cursor =>
    exact hnone _ (reclaimJob_spec hg consumer idleMs cursor now) rfl
  | read consumer => exact hnone _ (readGroup_spec hg consumer now) rfl
  | acquire consumer id leaseMs runId attemptId =>
    exact acquireJob_spec hg hd consumer id leaseMs runId attemptId now
  | renew lease => exact hnone _ (renewJob_spec hg lease now) rfl
  | publish lease runId event => exact publishEvent_spec hg lease runId event now
  | acknowledge id => exact hnone _ (acknowledge_spec hg id) rfl

end DocParser.Platform
