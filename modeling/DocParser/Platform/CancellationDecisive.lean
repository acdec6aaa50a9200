import DocParser.Platform.CancellationInvariant
import DocParser.Platform.LeaseFencing
import DocParser.Platform.OutboxDelivery

/-!
# Cancellation is decisive

The invariants of the parts, put together for one run. `CancellationDecisive` is stated over
the history of markers, accepted events and commits: while a marker holds an attempt only its
cancellation is accepted, an attempt ends at most once, a marker is removed only after the end
of its run is durable, and a run that was cleaned up never gets one again.
-/

namespace DocParser.Platform

open Redis

def RunFact.event? : RunFact → Option Event
  | accepted event => some event
  | _ => none

/-- A terminal event of one attempt of a run. -/
def Event.ends (runId attemptId : String) (event : Event) : Bool :=
  event.type.isTerminal && event.runId = runId && event.attemptId = attemptId

structure CancellationDecisive (s : ServiceState) (runId attemptId : String) : Prop where
  /-- The marker in Redis is the last one that the history set. -/
  marker : s.redis.cancels runId = markerOf runId s.cancel.history
  /-- The history holds the events that Redis accepted under a lease. -/
  complete : s.cancel.history.filterMap RunFact.event? =
    s.platform.job.history.filterMap Fact.event?
  /-- While the marker holds the attempt, only its cancellation is accepted. -/
  decisive : ∀ pre event post, s.cancel.history = pre ++ .accepted event :: post →
    event.runId = runId → event.attemptId = attemptId →
    markerOf runId pre = some attemptId → event.type = .jobCancelled
  /-- An attempt gets at most one terminal event. -/
  terminalOnce :
    (s.cancel.history.filterMap RunFact.event?).countP (Event.ends runId attemptId) ≤ 1
  /-- An end in the history is durable in the database. -/
  durable : .ended runId ∈ s.cancel.history ↔
    ∃ row, s.cancel.runs runId = some row ∧ row.status.isTerminal = true
  /-- The marker is removed only after the end of the run. -/
  removed : ∀ pre post, s.cancel.history = pre ++ .unmarked runId :: post → .ended runId ∈ pre
  /-- A clean-up in the history is committed. -/
  committed : .cleaned runId ∈ s.cancel.history ↔
    ∃ row, s.cancel.runs runId = some row ∧ row.cancelCleaned = true
  /-- After the clean-up no marker is set. -/
  closed : ∀ pre post attempt, s.cancel.history = pre ++ .cleaned runId :: post →
    .marked runId attempt ∉ post

/-! ## Worker steps -/

/-- A command establishes at most one accepted event, and then it is a publication. -/
theorem Command.facts_events (c : Command) (r : Reply) :
    (c.facts r).filterMap Fact.event? = [] ∨
      ∃ lease runId event, c = .publish lease runId event ∧
        c.facts r = [.accepted lease.messageId lease.generation event] := by
  unfold facts
  split
  · exact Or.inl rfl
  · exact Or.inr ⟨_, _, _, rfl, rfl⟩
  · exact Or.inl rfl

theorem newEvents_exec (group : String) (s : JobState) (c : Command) (now : Nat) :
    newEvents s (s.exec group c now) =
      (c.facts (s.redis.exec group c now).2).filterMap Fact.event? := by
  unfold newEvents JobState.exec
  rw [List.drop_left]

theorem newEvents_self (s : JobState) : newEvents s s = [] := by
  unfold newEvents
  rw [List.drop_length]
  rfl

theorem ProcessInv.log {c : Cancellations} {d : Nat} {p : CancelPhase} (h : ProcessInv c d p)
    (facts : List RunFact) : ProcessInv (c.log facts) d p :=
  ⟨h.holds, h.delivers, h.cleans⟩

theorem CancelInv.worker {group : String} {o : Outbox} {p q : PlatformState}
    {c : Cancellations} {l : PlatformLabel} (h : CancelInv p.job.redis c) (ho : OriginInv p o)
    (hl : l ≠ .rest) (hst : PlatformStep group p l q) :
    CancelInv q.job.redis (c.log ((newEvents p.job q.job).map .accepted)) := by
  have hquiet : ∀ r : RedisState, r.cancels = p.job.redis.cancels →
      CancelInv r (c.log []) := fun r hc =>
    ⟨h.ledger.congr rfl (List.append_nil _) hc, fun d => (h.process d).log []⟩
  rcases hst.job_cases hl with heq | ⟨i, cmd, now, hmem, heq⟩
  · rw [heq, newEvents_self]
    exact hquiet _ rfl
  · rw [heq, newEvents_exec]
    obtain ⟨hapi, _⟩ := exec_frame group p.job.redis cmd now
    rcases cmd.facts_events (p.job.redis.exec group cmd now).2 with
      hnone | ⟨lease, runId, event, rfl, hfacts⟩
    · rw [hnone]
      exact hquiet _ hapi.cancels
    · obtain ⟨_, hmark⟩ := @facts_publish group p.job.redis lease runId event now _ (by
        rw [hfacts]; exact List.mem_singleton_self _)
      have hrun : event.runId = runId := (ho.command i _ hmem).2
      rw [hfacts]
      refine ⟨h.ledger.log (fun hm => hmark ?_) (fun j => ?_) nofun nofun,
        fun d => (h.process d).log _⟩
      · rw [← hrun, h.ledger.marker]
        exact hm
      · exact congrFun hapi.cancels j

/-- The invariant of the service that cancellation rests on. -/
structure ServiceInv (s : ServiceState) : Prop where
  cancel : CancelInv s.redis s.cancel
  complete : s.cancel.history.filterMap RunFact.event? =
    s.platform.job.history.filterMap Fact.event?

theorem RunLedger.history_events {r r' : RedisState} {c c' : Cancellations}
    (hst : CancelStep r c r' c') :
    c'.history.filterMap RunFact.event? = c.history.filterMap RunFact.event? := by
  have hlog : ∀ facts : List RunFact, facts.filterMap RunFact.event? = [] →
      (c.history ++ facts).filterMap RunFact.event? = c.history.filterMap RunFact.event? := by
    intro facts hf
    rw [List.filterMap_append, hf, List.append_nil]
  cases hst with
  | eval d runId attemptId hd =>
    refine hlog _ ?_
    rcases requestCancellation_cases runId attemptId r with heq | heq <;> rw [heq] <;> rfl
  | remove => exact hlog _ rfl
  | commitCleanup => exact hlog _ rfl
  | fail d =>
    show (c.rollback d).history.filterMap _ = _
    unfold Cancellations.rollback
    split <;> rfl
  | project event row =>
    refine hlog _ ?_
    unfold RunRow.facts
    split_ifs <;> rfl
  | request | select | send | skip | deliver | commitDelivery | selectCleanup | sendRemove
  | clean => rfl

theorem service_invariant {group : String} {maximumLength : Nat} {s : ServiceState}
    (h : (service group maximumLength).Reachable s) : ServiceInv s := by
  refine h.invariant (fun s hi => ?_) fun s l t hr hi hst => ?_
  · refine ⟨⟨⟨?_, ?_, ?_, ?_, ?_⟩, fun d => ?_⟩, ?_⟩
    · rw [hi.history]; exact .nil
    · intro runId; rw [hi.markers, hi.history]; rfl
    · intro runId
      rw [hi.history, hi.runs]
      exact ⟨nofun, fun ⟨_, hrow, _⟩ => nomatch hrow⟩
    · intro runId
      rw [hi.history, hi.runs]
      exact ⟨nofun, fun ⟨_, hrow, _⟩ => nomatch hrow⟩
    · intro runId row hrow; rw [hi.runs] at hrow; cases hrow
    · rw [hi.processes]; exact .free rfl
    · rw [hi.history, hi.platform.1.history]; rfl
  · cases hst with
    | worker l p hl hp =>
      refine ⟨hi.cancel.worker (service_parts hr).origin hl hp, ?_⟩
      show (s.cancel.history ++ _).filterMap _ = _
      rw [List.filterMap_append, hi.complete, List.filterMap_map]
      have hid : ∀ es : List Event, es.filterMap (RunFact.event? ∘ RunFact.accepted) = es :=
        fun es => List.filterMap_some
      rw [hid]
      rcases hp.job_cases hl with heq | ⟨i, c, now, _, heq⟩
      · rw [heq, newEvents_self, List.append_nil]
      · rw [heq, newEvents_exec, ← List.filterMap_append]
        rfl
    | createRun job o ho hnone =>
      refine ⟨⟨hi.cancel.ledger.insert hnone job.attemptId, fun d => ?_⟩, hi.complete⟩
      refine (hi.cancel.process d).other fun i x hl hx => ⟨hl, ?_⟩
      have hne : i ≠ job.runId := by
        rintro rfl
        rw [hnone] at hx
        cases hx
      show Function.update s.cancel.runs job.runId _ i = some x
      rw [Function.update_of_ne hne]
      exact hx
    | dispatcher d r o ho =>
      exact ⟨⟨hi.cancel.ledger.congr rfl rfl ho.frame.2.1, hi.cancel.process⟩, hi.complete⟩
    | cancel r c hc =>
      exact ⟨hi.cancel.step hc, (RunLedger.history_events hc).trans hi.complete⟩
    | expire runId =>
      exact ⟨⟨hi.cancel.ledger.congr rfl rfl rfl, hi.cancel.process⟩, hi.complete⟩

/-! ## One message per run -/

/-- A job is appended once, so its message is unique. -/
theorem LedgerInv.message_unique {r : RedisState} {o : Outbox} (h : LedgerInv r o)
    {id id' : StreamId} {runId a a' : String} (hp : o.Publishes id runId a)
    (hp' : o.Publishes id' runId a') : id = id' := by
  obtain ⟨job, hmem, hrun, _⟩ := hp
  obtain ⟨job', hmem', hrun', _⟩ := hp'
  obtain ⟨row, hrow, rfl⟩ := h.appended job id hmem
  obtain ⟨row', hrow', rfl⟩ := h.appended job' id' hmem'
  have hjob : row.job.jobId = row'.job.jobId :=
    h.unique _ _ row row' hrow hrow' (hrun.trans hrun'.symm)
  have heq : DeliveryFact.appended row.job id = .appended row'.job id' :=
    h.justified.eq_of_exclude hmem hmem' (fun before hm hrule => hrule _ _ hm hjob)
      fun before hm hrule => hrule _ _ hm hjob.symm
  exact (DeliveryFact.appended.inj heq).2

/-- An attempt ends at most once: all its events belong to one message. -/
theorem ServiceParts.terminal_once {group : String} {s : ServiceState}
    (h : ServiceParts group s) (runId attemptId : String) :
    (s.platform.job.history.filterMap Fact.event?).countP (Event.ends runId attemptId) ≤ 1 := by
  by_cases hex : ∃ event ∈ s.platform.job.history.filterMap Fact.event?,
      event.ends runId attemptId = true
  · obtain ⟨event, hmem, hends⟩ := hex
    obtain ⟨f, hf, hfe⟩ := List.mem_filterMap.mp hmem
    cases f with
    | acquired => cases hfe
    | accepted id g e =>
      obtain rfl : e = event := Option.some.inj hfe
      refine le_trans ?_ (h.job.fencing id).terminalOnce
      unfold acceptedOf factsOf
      rw [List.countP_filterMap, List.countP_filterMap, List.countP_filter]
      refine List.countP_mono_left fun f' hf' hend => ?_
      cases f' with
      | acquired => cases hend
      | accepted id' g' e' =>
        simp only [Event.ends, Bool.and_eq_true, decide_eq_true_eq] at hends
        have hend' : e'.ends runId attemptId = true := hend
        simp only [Event.ends, Bool.and_eq_true, decide_eq_true_eq] at hend'
        have hid : id' = id := by
          have hp' := h.origin.accepted id' g' e' hf'
          have hp := h.origin.accepted id g e hf
          rw [hend'.1.2] at hp'
          rw [hends.1.2] at hp
          exact h.outbox.ledger.message_unique hp' hp
        simp [hid, hend'.1.1]
  · rw [List.countP_eq_zero.mpr fun e he hend => hex ⟨e, he, hend⟩]
    exact Nat.zero_le 1

/-- **Cancellation is decisive.** In every state that the platform can reach. -/
theorem cancellation_decisive (group : String) (maximumLength : Nat) {s : ServiceState}
    (h : (service group maximumLength).Reachable s) (runId attemptId : String) :
    CancellationDecisive s runId attemptId := by
  obtain ⟨⟨hledger, _⟩, hcomplete⟩ := service_invariant h
  refine ⟨hledger.marker runId, hcomplete, ?_, ?_, hledger.ended runId, ?_,
    hledger.cleaned runId, ?_⟩
  · rintro pre event post heq rfl rfl hmark
    exact hledger.justified pre _ post heq hmark
  · rw [hcomplete]
    exact (service_parts h).terminal_once runId attemptId
  · exact fun pre post heq => hledger.justified pre _ post heq
  · intro pre post attempt heq hmem
    obtain ⟨before, hclean, hrule⟩ := hledger.justified.later heq hmem
    exact hrule hclean

def quietService : ServiceState where
  platform := quietPlatform
  outbox := quietOutbox.outbox
  cancel := ⟨fun _ => none, fun _ => none, fun _ => .idle, []⟩

/-- A running job is cancelled: its failure is refused, its cancellation accepted, projected and
cleaned up. -/
theorem cancellation_decisive_running_job :
    ∃ s, (service "workers" 10).Reachable s ∧
      (s.cancel.history.filterMap RunFact.event?).map (·.type) = [.jobStarted, .jobCancelled] ∧
      .cleaned "run" ∈ s.cancel.history ∧
      CancellationDecisive s "run" "attempt" := by
  have h0 : (service "workers" 10).Reachable quietService :=
    .init ⟨⟨⟨fun _ => rfl, ⟨_, rfl, rfl⟩, rfl⟩, fun _ => rfl, rfl⟩,
      ⟨fun _ => rfl, fun _ => rfl, fun _ => rfl, rfl, fun _ => rfl, rfl, rfl⟩,
      fun _ => rfl, fun _ => rfl, fun _ => rfl, fun _ => rfl, rfl⟩
  have h1 := h0.step (ServiceStep.createRun _ queuedJob _
    (OutboxStep.insert _ _ queuedJob rfl (fun _ _ h => by cases h)) rfl)
  have h2 := h1.step (ServiceStep.dispatcher _ 0 _ _
    (OutboxStep.select _ _ 0 ⟨queuedJob, false, false⟩ rfl rfl rfl rfl))
  have h3 := h2.step (ServiceStep.dispatcher _ 0 _ _ (OutboxStep.send _ _ 0 _ rfl))
  have h4 := h3.step (ServiceStep.dispatcher _ 0 _ _
    (OutboxStep.eval _ _ 0 _ ⟨1, 0⟩ rfl (by decide)))
  have h5 := h4.step (ServiceStep.worker _ _ _ (fun h => by cases h)
    (PlatformStep.start _ 0 "worker-1" 1000 rfl))
  have h6 := h5.step (ServiceStep.worker _ _ _ (fun h => by cases h)
    (PlatformStep.send _ 0 _ _ _ rfl (Worker.Sends.reclaim _ rfl)))
  have h7 := h6.step (ServiceStep.worker _ _ _ (fun h => by cases h)
    (PlatformStep.reply _ 0 _ 5 (List.mem_singleton_self _)))
  have h8 := h7.step (ServiceStep.worker _ _ _ (fun h => by cases h)
    (PlatformStep.send _ 0 _ _ _ rfl (Worker.Sends.read _ rfl)))
  have h9 := h8.step (ServiceStep.worker _ _ _ (fun h => by cases h)
    (PlatformStep.reply _ 0 _ 6 (List.mem_singleton_self _)))
  have h10 := h9.step (ServiceStep.worker _ _ _ (fun h => by cases h)
    (PlatformStep.send _ 0 _ _ _ rfl (Worker.Sends.acquire _ _ _ _ rfl rfl)))
  have h11 := h10.step (ServiceStep.worker _ _ _ (fun h => by cases h)
    (PlatformStep.reply _ 0 _ 7 (List.mem_singleton_self _)))
  have h12 := h11.step (ServiceStep.worker _ _ _ (fun h => by cases h)
    (PlatformStep.internal _ 0 _ _ rfl
      (Worker.Internal.observe _ _ _ ⟨"job", "run", "attempt"⟩ rfl (by decide))))
  have h13 := h12.step (ServiceStep.worker _ _ _ (fun h => by cases h)
    (PlatformStep.send _ 0 _ _ _ rfl (Worker.Sends.started _ _ rfl rfl)))
  have h14 := h13.step (ServiceStep.worker _ _ _ (fun h => by cases h)
    (PlatformStep.reply _ 0 _ 8 (List.mem_singleton_self _)))
  have h15 := h14.step (ServiceStep.cancel _ _ _ (CancelStep.request _ _ "run"
    ⟨"attempt", .queued, none, none, none, 0, false, false, false⟩ rfl rfl rfl rfl))
  have h16 := h15.step (ServiceStep.cancel _ _ _ (CancelStep.select _ _ 3 "run"
    ⟨"attempt", .queued, none, none, none, 0, true, false, false⟩ rfl rfl rfl rfl rfl))
  have h17 := h16.step (ServiceStep.cancel _ _ _ (CancelStep.send _ _ 3 _ _ _ rfl rfl))
  have h18 := h17.step (ServiceStep.cancel _ _ _ (CancelStep.eval _ _ 3 _ _ rfl))
  have h19 := h18.step (ServiceStep.cancel _ _ _ (CancelStep.deliver _ _ 3 _ rfl))
  have h20 := h19.step (ServiceStep.cancel _ _ _ (CancelStep.commitDelivery _ _ 3 _
    ⟨"attempt", .queued, none, none, none, 0, true, false, false⟩ rfl rfl))
  have h21 := h20.step (ServiceStep.worker _ _ _ (fun h => by cases h)
    (PlatformStep.internal _ 0 _ _ rfl (Worker.Internal.finish _ _ true rfl (Or.inl rfl))))
  have h22 := h21.step (ServiceStep.worker _ _ _ (fun h => by cases h)
    (PlatformStep.send _ 0 _ _ _ rfl (Worker.Sends.terminal _ _ _ none rfl rfl rfl)))
  have h23 := h22.step (ServiceStep.worker _ _ _ (fun h => by cases h)
    (PlatformStep.reply _ 0 _ 9 (List.mem_singleton_self _)))
  have h24 := h23.step (ServiceStep.worker _ _ _ (fun h => by cases h)
    (PlatformStep.send _ 0 _ _ _ rfl (Worker.Sends.cancelled _ _ rfl rfl)))
  have h25 := h24.step (ServiceStep.worker _ _ _ (fun h => by cases h)
    (PlatformStep.reply _ 0 _ 10 (List.mem_singleton_self _)))
  have h26 := h25.step (ServiceStep.cancel _ _ _ (CancelStep.project _ _
    ⟨.jobCancelled, "job", "run", "attempt", 3, some "execution_1", none, none⟩
    ⟨"attempt", .queued, none, none, none, 0, true, true, false⟩ (by decide) rfl rfl))
  have h27 := h26.step (ServiceStep.cancel _ _ _ (CancelStep.selectCleanup _ _ 3 "run"
    ⟨"attempt", .cancelled, none, none, some "execution_1", 3, true, true, false⟩
    rfl (by decide +kernel) rfl rfl rfl rfl))
  have h28 := h27.step (ServiceStep.cancel _ _ _ (CancelStep.sendRemove _ _ 3 _ rfl))
  have h29 := h28.step (ServiceStep.cancel _ _ _ (CancelStep.remove _ _ 3 _ rfl))
  have h30 := h29.step (ServiceStep.cancel _ _ _ (CancelStep.clean _ _ 3 _ rfl))
  have h31 := h30.step (ServiceStep.cancel _ _ _ (CancelStep.commitCleanup _ _ 3 _
    ⟨"attempt", .cancelled, none, none, some "execution_1", 3, true, true, false⟩
    rfl (by decide +kernel)))
  exact ⟨_, h31, by decide +kernel, by decide +kernel,
    cancellation_decisive "workers" 10 h31 "run" "attempt"⟩

end DocParser.Platform
