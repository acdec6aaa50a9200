import DocParser.Platform.EnqueueJob
import DocParser.Platform.Worker

/-!
# Lease fencing

What the lease invariant means for the events that readers of a run see. `LeaseFencing` is
stated over the history of one message: its accepted events have increasing sequences, an
acquired lease shuts out all older generations, and the first terminal event is the last thing
that ever happens to the message.
-/

namespace DocParser.Platform

open Redis

/-- The events accepted for a message under a lease, oldest first. -/
def acceptedOf (id : StreamId) (history : List Fact) : List Event :=
  (factsOf id history).filterMap fun
    | .accepted _ _ event => some event
    | .acquired _ _ => none

structure LeaseFencing (group : String) (s : JobState) (id : StreamId) : Prop where
  /-- Accepted events have strictly increasing sequences. -/
  increasing : (acceptedOf id s.history).Pairwise fun a b => a.sequence < b.sequence
  /-- Once a lease was acquired, no event of an older generation is accepted. -/
  fenced : ∀ pre post generation g event, s.history = pre ++ .acquired id generation :: post →
    .accepted id g event ∈ post → generation ≤ g
  /-- At most one terminal event is accepted. -/
  terminalOnce : (acceptedOf id s.history).countP (·.type.isTerminal) ≤ 1
  /-- A message whose attempt ended is not pending. -/
  released : ∀ event ∈ acceptedOf id s.history, event.type.isTerminal = true →
    ∃ g, s.redis.jobs.group? group = some g ∧ g.owner id = none
  /-- After a terminal event no lease was acquired. -/
  closed : ∀ pre post g event generation, s.history = pre ++ .accepted id g event :: post →
    event.type.isTerminal = true → .acquired id generation ∉ post
  /-- Nor can anybody acquire one now. -/
  refused : ∀ event ∈ acceptedOf id s.history, event.type.isTerminal = true →
    ∀ consumer leaseMs runId attemptId now,
      (acquireJob group consumer id leaseMs runId attemptId now s.redis).2 = .ok none

/-! ## Reading the invariant -/

theorem mem_acceptedOf {id : StreamId} {history : List Fact} {event : Event} :
    event ∈ acceptedOf id history ↔ ∃ g, .accepted id g event ∈ history := by
  simp only [acceptedOf, factsOf, List.mem_filterMap, List.mem_filter, decide_eq_true_eq]
  constructor
  · rintro ⟨f, ⟨hf, hid⟩, heq⟩
    cases f with
    | acquired i g => cases heq
    | accepted i g e =>
      obtain rfl : e = event := Option.some.inj heq
      obtain rfl : i = id := hid
      exact ⟨g, hf⟩
  · rintro ⟨g, hg⟩
    exact ⟨_, ⟨hg, rfl⟩, rfl⟩

/-- Facts about one message, one after the other in the history, precede each other. -/
theorem precedes_of_split {id : StreamId} {history pre post : List Fact} {a b : Fact}
    (h : (factsOf id history).Pairwise Fact.Precedes) (hsplit : history = pre ++ a :: post)
    (ha : a.id = id) (hb : b.id = id) (hmem : b ∈ post) : a.Precedes b := by
  have hsub : factsOf id history = factsOf id pre ++ a :: factsOf id post := by
    rw [hsplit, factsOf_append]
    unfold factsOf
    rw [List.filter_cons_of_pos (by simpa using ha)]
  rw [hsub, List.pairwise_append, List.pairwise_cons] at h
  exact h.2.1.1 b (List.mem_filter.mpr ⟨hmem, by simpa using hb⟩)

theorem acceptedOf_pairwise {id : StreamId} {history : List Fact}
    (h : (factsOf id history).Pairwise Fact.Precedes) :
    (acceptedOf id history).Pairwise fun a b =>
      a.sequence < b.sequence ∧ a.type.isTerminal = false := by
  unfold acceptedOf
  refine h.filterMap _ fun a b hab x hx y hy => ?_
  cases a with
  | acquired i g => cases hx
  | accepted i g e =>
    cases b with
    | acquired j k => cases hy
    | accepted j k e' =>
      obtain rfl : e = x := Option.some.inj hx
      obtain rfl : e' = y := Option.some.inj hy
      exact ⟨hab.sequence _ rfl _ rfl, hab.terminal⟩

theorem countP_terminal_le_one {events : List Event}
    (h : events.Pairwise fun a _ => a.type.isTerminal = false) :
    events.countP (·.type.isTerminal) ≤ 1 := by
  induction events with
  | nil => simp
  | cons e events ih =>
    rw [List.pairwise_cons] at h
    cases he : e.type.isTerminal with
    | false => simpa [List.countP_cons, he] using ih h.2
    | true =>
      have hnil : events = [] := List.eq_nil_iff_forall_not_mem.mpr fun b hb => by
        have := h.1 b hb
        simp [he] at this
      simp [hnil, he]

/-- A message with a terminal event is gone from the group. -/
theorem MessageInv.gone_of_terminal {g : Group} {id : StreamId} {lease : Option LeaseHash}
    {facts : List Fact} (h : MessageInv g id lease facts) {f : Fact} (hf : f ∈ facts)
    (hterm : f.isTerminal = true) : g.Gone id := by
  refine h.gone ?_ (List.ne_nil_of_mem hf)
  cases lease with
  | none => rfl
  | some hash =>
    have := (h.bounds hash rfl).terminal f hf
    rw [hterm] at this
    cases this

theorem JobInv.fencing {group : String} {s : JobState} (h : JobInv group s) (id : StreamId) :
    LeaseFencing group s id := by
  obtain ⟨g, hg, _, hm⟩ := h.group
  have hord := (hm id).ordered
  have hgone : ∀ event ∈ acceptedOf id s.history, event.type.isTerminal = true → g.Gone id := by
    intro event he hterm
    obtain ⟨n, hn⟩ := mem_acceptedOf.mp he
    exact (hm id).gone_of_terminal (List.mem_filter.mpr ⟨hn, by simp⟩) hterm
  refine ⟨?_, ?_, ?_, ?_, ?_, ?_⟩
  · exact (acceptedOf_pairwise hord).imp fun h => h.1
  · intro pre post generation n event hsplit hmem
    exact (precedes_of_split hord hsplit rfl rfl hmem).generation
  · exact countP_terminal_le_one ((acceptedOf_pairwise hord).imp fun h => h.2)
  · exact fun event he hterm => ⟨g, hg, (hgone event he hterm).1⟩
  · intro pre post n event generation hsplit hterm hmem
    have := (precedes_of_split hord hsplit rfl rfl hmem).terminal
    rw [show Fact.isTerminal (.accepted id n event) = true from hterm] at this
    cases this
  · intro event he hterm consumer leaseMs runId attemptId now
    have hnone := (hgone event he hterm).1
    unfold acquireJob
    rw [hg]
    dsimp only
    rw [if_pos (by rw [hnone]; exact nofun)]

/-- An accepted event has a positive sequence. -/
theorem accepted_positive {group : String} {s : JobState} (h : (jobGroup group).Reachable s) :
    ∀ id n event, .accepted id n event ∈ s.history → 0 < event.sequence := by
  refine h.invariant (I := fun s => ∀ id n event, .accepted id n event ∈ s.history →
    0 < event.sequence) (fun s hinit id n event hmem => ?_) fun s l t hs ih hst => ?_
  · rw [hinit.history] at hmem
    cases hmem
  · obtain ⟨g, hg, hdelivered, -⟩ := (jobGroup_invariant hs).group
    cases hst with
    | command c now =>
      intro id n event hmem
      rcases List.mem_append.mp hmem with hold | hnew
      · exact ih id n event hold
      · exact (exec_spec hg hdelivered c now).positive hnew
    | rest redis hsame => exact ih

/-- **Lease fencing.** In every state that any number of workers can reach, through any
interleaving of commands, clock readings, lost replies, pauses, crashes and restarts, every
message of the stream is fenced. -/
theorem lease_fencing (group : String) {s : PlatformState}
    (h : (platform group).Reachable s) (id : StreamId) : LeaseFencing group s.job id :=
  (jobGroup_invariant ((refinement group).reachable h)).fencing id

/-- No worker and no job, only the group. -/
def quietPlatform : PlatformState where
  job := ⟨⟨⟨[], ⟨0, 0⟩, [⟨"workers", ⟨0, 0⟩, []⟩]⟩, fun _ => none, fun _ => .empty,
    fun _ => none, fun _ => none, []⟩, []⟩
  workers := fun _ => none
  inflight := []

/-- A worker that fails its job: the reply to the terminal event is lost. -/
theorem lease_fencing_failed_job :
    ∃ s, (platform "workers").Reachable s ∧
      (acceptedOf ⟨1, 0⟩ s.job.history).map (·.type) = [.jobStarted, .jobFailed] ∧
      LeaseFencing "workers" s.job ⟨1, 0⟩ := by
  have h0 : (platform "workers").Reachable quietPlatform :=
    .init ⟨⟨fun _ => rfl, ⟨_, rfl, rfl⟩, rfl⟩, fun _ => rfl, rfl⟩
  have h1 := h0.step (PlatformStep.start _ 0 "worker-1" 1000 rfl)
  have h2 := h1.step (PlatformStep.rest _ _
    (enqueueJob_sameGroup 10 ⟨"job", "run", "attempt", "/job.json"⟩ ⟨1, 0⟩ _))
  have h3 := h2.step (PlatformStep.send _ 0 _ _ _ rfl (Worker.Sends.reclaim _ rfl))
  have h4 := h3.step (PlatformStep.reply _ 0 _ 5 (List.mem_singleton_self _))
  have h5 := h4.step (PlatformStep.send _ 0 _ _ _ rfl (Worker.Sends.read _ rfl))
  have h6 := h5.step (PlatformStep.reply _ 0 _ 6 (List.mem_singleton_self _))
  have h7 := h6.step (PlatformStep.send _ 0 _ _ _ rfl (Worker.Sends.acquire _ _ _ _ rfl rfl))
  have h8 := h7.step (PlatformStep.reply _ 0 _ 7 (List.mem_singleton_self _))
  have h9 := h8.step (PlatformStep.internal _ 0 _ _ rfl
    (Worker.Internal.observe _ _ _ ⟨"job", "run", "attempt"⟩ rfl (by decide)))
  have h10 := h9.step (PlatformStep.send _ 0 _ _ _ rfl (Worker.Sends.started _ _ rfl rfl))
  have h11 := h10.step (PlatformStep.reply _ 0 _ 8 (List.mem_singleton_self _))
  have h12 := h11.step (PlatformStep.internal _ 0 _ _ rfl
    (Worker.Internal.finish _ _ false rfl (Or.inl rfl)))
  have h13 := h12.step (PlatformStep.send _ 0 _ _ _ rfl
    (Worker.Sends.terminal _ _ _ none rfl rfl rfl))
  have h14 := h13.step (PlatformStep.loseReply _ 0 _ 9 (List.mem_singleton_self _))
  exact ⟨_, h14, rfl, lease_fencing "workers" h14 ⟨1, 0⟩⟩

end DocParser.Platform
