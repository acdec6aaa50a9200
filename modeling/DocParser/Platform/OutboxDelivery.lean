import DocParser.Platform.OutboxInvariant

/-!
# Exactly-once delivery of jobs

What the outbox invariant means for one job. `OutboxDelivery` is stated over the history:
the job is appended at most once, it was appended exactly once when its row is published, and
its marker is deleted only after that and never set again. `OutboxInv.recorded` says that the
history is what happened: the facts that a step adds to it are the entries that it appends to the
stream, the markers that it changes and the rows that it publishes.
-/

namespace DocParser.Platform

open Redis

/-- The appends of one job, as facts of the history. -/
def DeliveryFact.appends (jobId : String) : DeliveryFact → Bool
  | appended job _ => job.jobId = jobId
  | _ => false

structure OutboxDelivery (o : Outbox) (jobId : String) : Prop where
  /-- A job is appended to the stream at most once. -/
  once : o.history.countP (DeliveryFact.appends jobId) ≤ 1
  /-- When `published_at` is committed, exactly one entry was appended. -/
  delivered : o.Published jobId → o.history.countP (DeliveryFact.appends jobId) = 1
  /-- The marker is deleted only after `published_at` was committed. -/
  deletedAfter : ∀ pre post, o.history = pre ++ .markerDeleted jobId :: post →
    .published jobId ∈ pre
  /-- A deleted marker is never set again. -/
  neverAgain : ∀ pre post, o.history = pre ++ .markerDeleted jobId :: post →
    .markerSet jobId ∉ post

/-- What a step does to Redis and to the table, against the facts that it adds. -/
structure Recorded (s t : OutboxState) (facts : List DeliveryFact) : Prop where
  history : t.outbox.history = s.outbox.history ++ facts
  /-- The appended entries stand at the end of the stream; others only leave it. -/
  entries : ∃ kept, kept.Sublist s.redis.jobs.entries ∧
    t.redis.jobs.entries = kept ++ facts.filterMap DeliveryFact.entry?
  markerSet : ∀ jobId, .markerSet jobId ∈ facts ↔
    s.redis.dispatched jobId = none ∧ t.redis.dispatched jobId ≠ none
  markerUnset : ∀ jobId, s.redis.dispatched jobId ≠ none → t.redis.dispatched jobId = none →
    .markerDeleted jobId ∈ facts
  markerDeleted : ∀ jobId, .markerDeleted jobId ∈ facts → t.redis.dispatched jobId = none
  published : ∀ jobId, .published jobId ∈ facts ↔
    ¬ s.outbox.Published jobId ∧ t.outbox.Published jobId

/-! ## What is recorded -/

section Recording

variable {r r' : RedisState} {o o' : Outbox}

/-- A step that no fact is about. -/
theorem Recorded.quiet (hhistory : o'.history = o.history)
    (hentries : r'.jobs.entries.Sublist r.jobs.entries) (hmarkers : r'.dispatched = r.dispatched)
    (hpublished : ∀ jobId, o'.Published jobId → o.Published jobId) :
    Recorded ⟨r, o⟩ ⟨r', o'⟩ [] where
  history := hhistory.trans (List.append_nil _).symm
  entries := ⟨_, hentries, (List.append_nil _).symm⟩
  markerSet jobId := by
    refine iff_of_false List.not_mem_nil fun ⟨hnone, hset⟩ => hset ?_
    exact (congrFun hmarkers jobId).trans hnone
  markerUnset jobId hset hnone := absurd ((congrFun hmarkers jobId).symm.trans hnone) hset
  markerDeleted _ h := absurd h List.not_mem_nil
  published jobId := iff_of_false List.not_mem_nil fun ⟨hnot, h⟩ => hnot (hpublished jobId h)

theorem Recorded.delete (jobId : String)
    (hhistory : o'.history = o.history ++ [.markerDeleted jobId])
    (hpublished : o'.Published = o.Published) :
    Recorded ⟨r, o⟩ ⟨r.setDispatched jobId none, o'⟩ [.markerDeleted jobId] where
  history := hhistory
  entries := ⟨_, .refl _, (List.append_nil _).symm⟩
  markerSet i := by
    refine iff_of_false (by simp) fun ⟨hnone, hset⟩ => hset ?_
    show Function.update r.dispatched jobId none i = none
    by_cases hi : i = jobId
    · rw [hi, Function.update_self]
    · rw [Function.update_of_ne hi]
      exact hnone
  markerUnset i hset hnone := by
    by_cases hi : i = jobId
    · rw [hi]
      exact List.mem_singleton_self _
    · exact absurd ((Function.update_of_ne hi ..).symm.trans hnone) hset
  markerDeleted i hi := by
    obtain rfl := DeliveryFact.markerDeleted.inj (List.mem_singleton.mp hi)
    exact Function.update_self ..
  published i := by
    refine iff_of_false (by simp) fun ⟨hnot, h⟩ => hnot ?_
    rw [← hpublished]
    exact h

/-- **The script** appends an entry to the stream exactly if the history says so. -/
theorem Recorded.eval (maximumLength : Nat) (job : OutboxJob) (id : StreamId) (d : Nat)
    (p : DispatchPhase) :
    Recorded ⟨r, o⟩ ⟨(enqueueJob maximumLength job id r).1,
      (o.log ((enqueueJob maximumLength job id r).2.facts job)).setPhase d p⟩
      ((enqueueJob maximumLength job id r).2.facts job) := by
  rcases enqueueJob_cases maximumLength job id r with
    ⟨previous, _, heq⟩ | ⟨_, heq⟩ | ⟨r', hnone, heq, hmarkers, hjobs, -⟩
  · rw [heq]
    exact .quiet (List.append_nil _) (.refl _) rfl fun _ h => h
  · rw [heq]
    exact .quiet (List.append_nil _) (trimJobs_sublist _) rfl fun _ h => h
  · rw [heq]
    refine ⟨rfl, ⟨(trimJobs r.jobs).entries, trimJobs_sublist _, ?_⟩, fun jobId => ?_,
      fun jobId hset hunset => ?_, fun jobId h => ?_, fun jobId => ?_⟩
    · show r'.jobs.entries = _
      rw [hjobs]
      rfl
    · show _ ∈ [DeliveryFact.appended job id, .markerSet job.jobId] ↔
        r.dispatched jobId = none ∧ r'.dispatched jobId ≠ none
      rw [hmarkers]
      by_cases hj : jobId = job.jobId
      · rw [hj, Function.update_self]
        exact iff_of_true (by simp) ⟨hnone, Option.some_ne_none _⟩
      · rw [Function.update_of_ne hj]
        exact iff_of_false (by simpa using hj) fun ⟨h, hne⟩ => hne h
    · change r'.dispatched jobId = none at hunset
      rw [hmarkers] at hunset
      by_cases hj : jobId = job.jobId
      · rw [hj, Function.update_self] at hunset
        cases hunset
      · rw [Function.update_of_ne hj] at hunset
        exact absurd hunset hset
    · have hmem : DeliveryFact.markerDeleted jobId ∈
          [DeliveryFact.appended job id, .markerSet job.jobId] := h
      simp at hmem
    · have hmem : DeliveryFact.published jobId ∉
          [DeliveryFact.appended job id, .markerSet job.jobId] := by simp
      exact iff_of_false hmem fun ⟨hnot, h⟩ => hnot h

/-- The commit publishes a job that no transaction has published before. -/
theorem Recorded.commit (h : OutboxInv ⟨r, o⟩) {d : Nat} {job : OutboxJob} {row : OutboxRow}
    (hd : o.dispatchers d = .updated job) (p : DispatchPhase) :
    Recorded ⟨r, o⟩ ⟨r, (o.commit job row).setPhase d p⟩ [.published job.jobId] where
  history := rfl
  entries := ⟨_, .refl _, (List.append_nil _).symm⟩
  markerSet jobId := iff_of_false (by simp) fun ⟨hnone, hset⟩ => hset hnone
  markerUnset jobId hset hnone := absurd hnone hset
  markerDeleted jobId h := by simp at h
  published jobId := by
    rw [List.mem_singleton, DeliveryFact.published.injEq]
    by_cases hj : jobId = job.jobId
    · subst hj
      refine iff_of_true rfl ⟨fun ⟨x, hx, hp⟩ => ?_, Outbox.published_setRow_self rfl⟩
      have hi : DispatcherInv r o d (.updated job) := hd ▸ h.dispatcher d
      obtain ⟨-, y, hy, -, hunpublished⟩ := hi.held job rfl
      rw [hy] at hx
      obtain rfl := Option.some.inj hx
      rw [hunpublished] at hp
      cases hp
    · exact iff_of_false hj fun ⟨hnot, hp⟩ => hnot ((Outbox.published_setRow_of_ne hj).mp hp)

end Recording

/-- **Every step** adds to the history what it does, and nothing else. -/
theorem OutboxInv.recorded {maximumLength : Nat} {s t : OutboxState} {l : OutboxLabel}
    (h : OutboxInv s) (hst : OutboxStep maximumLength s l t) : ∃ facts, Recorded s t facts := by
  have hrollback : ∀ (o : Outbox) (d : Nat) (p : DispatchPhase) jobId,
      ((o.rollback d).setPhase d p).Published jobId → o.Published jobId := by
    rintro o d p jobId ⟨row, hrow, hpub⟩
    change (o.rollback d).rows jobId = some row at hrow
    rw [Outbox.rollback_rows] at hrow
    exact ⟨row, hrow, hpub⟩
  cases hst with
  | insert r o job hnone hrun =>
    refine ⟨[], .quiet rfl (.refl _) rfl fun jobId ⟨row, hrow, hpub⟩ => ?_⟩
    change Function.update o.rows job.jobId _ jobId = some row at hrow
    by_cases hj : jobId = job.jobId
    · rw [hj, Function.update_self] at hrow
      cases hrow
      cases hpub
    · rw [Function.update_of_ne hj] at hrow
      exact ⟨row, hrow, hpub⟩
  | eval r o d job id _ _ => exact ⟨_, .eval maximumLength job id d _⟩
  | commit r o d job row learns hd _ => exact ⟨_, .commit h hd _⟩
  | full r o d job _ => exact ⟨[], .quiet Outbox.rollback_history (.refl _) rfl (hrollback o d _)⟩
  | fail r o d => exact ⟨[], .quiet Outbox.rollback_history (.refl _) rfl (hrollback o d _)⟩
  | deleteReply r o d jobId jobIds _ _ => exact ⟨_, .delete jobId rfl rfl⟩
  | deleteLate r o d jobId _ => exact ⟨_, .delete jobId rfl rfl⟩
  | mark r o d jobId jobIds row _ hrow hpub _ =>
    refine ⟨[], .quiet rfl (.refl _) rfl fun i hp => ?_⟩
    by_cases hi : i = jobId
    · rw [hi]
      exact ⟨row, hrow, hpub⟩
    · exact (Outbox.published_setRow_of_ne hi).mp hp
  | rest r r' o hmarkers hentries => exact ⟨[], .quiet rfl hentries hmarkers fun _ h => h⟩
  | select | selectNone | send | update | list | sendDelete | done | deleteDrop =>
    exact ⟨[], .quiet rfl (.refl _) rfl fun _ h => h⟩

/-! ## Reading the invariant -/

theorem DeliveryFact.appends_eq_true {jobId : String} {f : DeliveryFact} :
    f.appends jobId = true ↔ ∃ job id, f = .appended job id ∧ job.jobId = jobId := by
  cases f with
  | appended job id => simp [appends]
  | markerSet | markerDeleted | published => simp [appends]

theorem OutboxInv.delivery {s : OutboxState} (h : OutboxInv s) (jobId : String) :
    OutboxDelivery s.outbox jobId := by
  have hj := h.ledger.justified
  have honce : s.outbox.history.countP (DeliveryFact.appends jobId) ≤ 1 := by
    refine hj.countP_le_one fun before f hrule hf g hg => ?_
    obtain ⟨job, id, rfl, rfl⟩ := DeliveryFact.appends_eq_true.mp hf
    rw [Bool.eq_false_iff]
    intro hgt
    obtain ⟨job', id', rfl, heq⟩ := DeliveryFact.appends_eq_true.mp hgt
    exact hrule job' id' hg heq
  refine ⟨honce, fun hpub => le_antisymm honce ?_, fun pre post heq => hj _ _ _ heq,
    fun pre post heq hset => ?_⟩
  · obtain ⟨before, hbefore, job, id, hmem, hid⟩ :=
      hj.at_mem ((h.ledger.published jobId).mpr hpub)
    exact List.countP_pos_iff.mpr
      ⟨_, hbefore _ hmem, DeliveryFact.appends_eq_true.mpr ⟨job, id, rfl, hid⟩⟩
  · -- the publication stands before the deletion, so also before the marker
    have hpub : .published jobId ∈ pre := hj _ _ _ heq
    obtain ⟨mid, rest, rfl⟩ := List.append_of_mem hset
    refine hj (pre ++ .markerDeleted jobId :: mid) (.markerSet jobId) rest ?_
      (List.mem_append_left _ hpub)
    rw [heq, List.append_assoc, List.cons_append]

/-- **Exactly-once delivery.** In every state that any number of dispatchers can reach, every
outbox job was delivered at most once, and exactly once if it is published; the stream holds no
entry that was not appended so, and the next step does to the stream, the markers and the table
what it adds to the history. -/
theorem outbox_delivery (maximumLength : Nat) {s : OutboxState}
    (h : (outboxes maximumLength).Reachable s) :
    (∀ jobId, OutboxDelivery s.outbox jobId) ∧
      s.redis.jobs.entries.Sublist (s.outbox.history.filterMap DeliveryFact.entry?) ∧
      ∀ l t, OutboxStep maximumLength s l t → ∃ facts, Recorded s t facts := by
  have hinv := outboxes_invariant h
  exact ⟨hinv.delivery, hinv.ledger.stream, fun _ _ => hinv.recorded⟩

def queuedJob : OutboxJob := ⟨"job", "run", "attempt", "/job.json"⟩

def quietOutbox : OutboxState where
  redis := ⟨.empty, fun _ => none, fun _ => .empty, fun _ => none, fun _ => none, []⟩
  outbox := ⟨fun _ => none, fun _ => none, fun _ => .idle, [], []⟩

/-- The first dispatcher loses the reply of the script, the second one finishes the job. -/
theorem outbox_delivery_lost_reply :
    ∃ s, (outboxes 10).Reachable s ∧
      s.outbox.history = [.appended queuedJob ⟨1, 0⟩, .markerSet "job", .published "job",
        .markerDeleted "job"] ∧
      s.redis.jobs.entries = [(⟨1, 0⟩, queuedJob.fields)] ∧
      (∀ jobId, OutboxDelivery s.outbox jobId) ∧
      ∀ l t, OutboxStep 10 s l t → ∃ facts, Recorded s t facts := by
  have h0 : (outboxes 10).Reachable quietOutbox :=
    .init ⟨fun _ => rfl, fun _ => rfl, fun _ => rfl, rfl, fun _ => rfl, rfl, rfl⟩
  have h1 := h0.step (OutboxStep.insert _ _ queuedJob rfl
    (fun _ _ h => by cases h))
  have h2 := h1.step (OutboxStep.select _ _ 0 ⟨queuedJob, false, false⟩ rfl rfl rfl rfl)
  have h3 := h2.step (OutboxStep.send _ _ 0 _ rfl)
  have h4 := h3.step (OutboxStep.eval _ _ 0 _ ⟨1, 0⟩ rfl (by decide))
  have h5 := h4.step (OutboxStep.fail _ _ 0)
  have h6 := h5.step (OutboxStep.select _ _ 1 ⟨queuedJob, false, false⟩ rfl rfl rfl rfl)
  have h7 := h6.step (OutboxStep.send _ _ 1 _ rfl)
  have h8 := h7.step (OutboxStep.eval _ _ 1 _ ⟨2, 0⟩ rfl (by decide))
  have h9 := h8.step (OutboxStep.update _ _ 1 _ ⟨1, 0⟩ rfl)
  have h10 := h9.step (OutboxStep.commit _ _ 1 _ _ true rfl rfl)
  have h11 := h10.step (OutboxStep.list _ _ 1 ["job"] rfl (by decide)
    (fun jobId h => by obtain rfl := List.mem_singleton.mp h; exact ⟨_, rfl, rfl, rfl⟩))
  have h12 := h11.step (OutboxStep.sendDelete _ _ 1 _ _ rfl)
  have h13 := h12.step (OutboxStep.deleteReply _ _ 1 "job" [] rfl (by decide))
  exact ⟨_, h13, rfl, rfl, (outbox_delivery 10 h13).1, (outbox_delivery 10 h13).2.2⟩

end DocParser.Platform
