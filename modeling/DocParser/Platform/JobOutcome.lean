import DocParser.Pipeline.PageModes
import DocParser.Platform.JobExecution

/-!
# The outcome of a job

What the log of an execution says of the run: its reports keep the protocol of the stages, and all
of them are published and followed by the result if nothing is refused or lost. `job_execution`
puts this together with what any worker of the platform publishes.
-/

namespace DocParser.Platform

open Emission Pipeline

/-! ## What is reported -/

/-- The stage event of a report. The export is no stage of the pipeline. -/
def Report.event? : Report → Option StageEvent
  | .stage event => some event
  | _ => none

def Report.isFailure : Report → Bool
  | .stage (.failed _) => true
  | _ => false

/-- The stage events keep their protocol, and nothing follows a failure. -/
structure WellReported (calls : List Report) : Prop where
  protocol : StageProtocol (calls.filterMap Report.event?)
  failure : calls.Pairwise fun report _ => report.isFailure = false

section Reported

variable {calls calls' : List Report} {trace : List Observation} {m : Monitor}

theorem protocol_front {front all : List StageEvent} (h : StageProtocol all)
    (hfront : front <+: all) : StageProtocol front := by
  obtain ⟨rest, rfl⟩ := hfront
  refine ⟨fun stage => ?_, fun stage => ?_, fun before info back heq => ?_⟩
  · exact ((List.sublist_append_left front rest).countP_le).trans (h.started_once stage)
  · exact ((List.sublist_append_left front rest).countP_le).trans (h.completed_once stage)
  · exact h.progress before info (back ++ rest) (by rw [heq, List.append_assoc, List.cons_append])

theorem WellReported.front (h : WellReported calls) (hfront : calls' <+: calls) :
    WellReported calls' where
  protocol := protocol_front h.protocol (hfront.filterMap _)
  failure := h.failure.sublist hfront.sublist

theorem stage_event? (trace : List Observation) :
    ((events trace).map Report.stage).filterMap Report.event? = events trace := by
  rw [List.filterMap_map]
  exact List.filterMap_some

theorem isFailure_of_not_failed {event : StageEvent} (h : ∀ info, event ≠ .failed info) :
    (Report.stage event).isFailure = false := by
  cases event with
  | failed info => exact absurd rfl (h info)
  | runConfigured | warning | started | progress | artifactReady | completed => rfl

theorem live_reports (hrun : run Monitor.step trace .initial = some m) (hlive : m.failure = none) :
    ∀ report ∈ (events trace).map Report.stage, report.isFailure = false := by
  intro report hreport
  obtain ⟨event, hevent, rfl⟩ := List.mem_map.mp hreport
  refine isFailure_of_not_failed fun info heq => ?_
  have hsaw := failureSaw_of_run hrun
  unfold FailureSaw at hsaw
  rw [hlive] at hsaw
  exact hsaw info (mem_events.mp (heq ▸ hevent))

theorem pairwise_of_forall (h : ∀ report ∈ calls, report.isFailure = false) :
    calls.Pairwise fun report _ => report.isFailure = false :=
  List.pairwise_iff_forall_sublist.mpr fun {a _} hsub =>
    h a (hsub.subset List.mem_cons_self)

/-- What a run of the pipeline reports. -/
theorem wellReported_of_run (hrun : run Monitor.step trace .initial = some m) :
    WellReported ((events trace).map .stage) := by
  refine ⟨(stage_event? trace).symm ▸ Monitor.protocol hrun, ?_⟩
  cases hfailure : m.failure with
  | none => exact pairwise_of_forall (live_reports hrun hfailure)
  | some code =>
    have hsaw := failureSaw_of_run hrun
    unfold FailureSaw at hsaw
    rw [hfailure] at hsaw
    obtain ⟨before, info, rfl, -, hbefore⟩ := hsaw
    have hquiet : ∀ report ∈ (events before).map Report.stage, report.isFailure = false := by
      intro report hreport
      obtain ⟨event, hevent, rfl⟩ := List.mem_map.mp hreport
      exact isFailure_of_not_failed fun other heq =>
        hbefore other (mem_events.mp (heq ▸ hevent))
    have hsplit : events (before ++ [.event (.failed info)]) = events before ++ [.failed info] :=
      List.filterMap_append
    rw [hsplit, List.map_append]
    exact List.pairwise_append.mpr ⟨pairwise_of_forall hquiet, List.pairwise_singleton _ _,
      fun report hreport _ _ => hquiet report hreport⟩

theorem run_failed (hrun : run Monitor.step trace .initial = some m) (hlive : m.failure = none)
    (info : StageFailedInfo) :
    run Monitor.step (trace ++ [.event (.failed info)]) .initial =
      some { m with failure := some info.code } := by
  rw [run_append, hrun]
  show (Monitor.step m (.event (.failed info))).bind _ = _
  unfold Monitor.step
  rw [hlive]
  rfl

section Jobs

variable {α : Type} [Double α] (job : Job α)

omit [Double α] in
theorem exportReports_reports (parsed : ParsedRun α) :
    (job.exportReports parsed).1.Pairwise (fun report _ => report.isFailure = false) ∧
      ((job.exportReports parsed).1.filterMap Report.event? = [] ∨
        ∃ info, (job.exportReports parsed).1.filterMap Report.event? = [.failed info]) := by
  unfold Job.exportReports failedReport
  split_ifs
  · exact ⟨List.pairwise_singleton _ _, .inr ⟨_, rfl⟩⟩
  split
  · exact ⟨List.pairwise_pair.mpr rfl, .inr ⟨_, rfl⟩⟩
  split
  · exact ⟨List.pairwise_singleton _ _, .inl rfl⟩
  · exact ⟨List.pairwise_pair.mpr rfl, .inr ⟨_, rfl⟩⟩
  · refine ⟨pairwise_of_forall fun report hreport => ?_, .inl rfl⟩
    simp only [List.mem_cons, List.not_mem_nil, or_false] at hreport
    rcases hreport with rfl | rfl | rfl | rfl | rfl | rfl <;> rfl

omit [Double α] in
/-- What is reported of a document that was parsed. -/
theorem exported_wellReported (hrun : run Monitor.step trace .initial = some m)
    (hlive : m.failure = none) (parsed : ParsedRun α) :
    WellReported ((events trace).map .stage ++ (job.exportReports parsed).1) := by
  obtain ⟨hpairwise, hevents⟩ := exportReports_reports job parsed
  have hquiet := live_reports hrun hlive
  refine ⟨?_, List.pairwise_append.mpr ⟨pairwise_of_forall hquiet, hpairwise,
    fun report hreport _ _ => hquiet report hreport⟩⟩
  rw [List.filterMap_append, stage_event?]
  rcases hevents with hevents | ⟨info, hevents⟩
  · rw [hevents, List.append_nil]
    exact Monitor.protocol hrun
  · rw [hevents]
    have hsplit : events (trace ++ [.event (.failed info)]) = events trace ++ [.failed info] :=
      List.filterMap_append
    exact hsplit ▸ Monitor.protocol (run_failed hrun hlive info)

/-- **The reports of a job** keep the protocol, whatever the job is. -/
theorem Job.reportsFor_wellReported (preparation : Job.Preparation) :
    WellReported (job.reportsFor preparation) := by
  have hempty : run Monitor.step [] Monitor.initial = some .initial := rfl
  cases preparation with
  | invalid what => exact wellReported_of_run hempty
  | unusable what => exact wellReported_of_run hempty
  | exhausted => exact wellReported_of_run (run_failed hempty rfl _)
  | ready =>
    show WellReported job.reports
    unfold Job.reports
    cases hlookup : job.lookup with
    | error failure =>
      have hstarted : run Monitor.step [.event (.started ⟨.configure, "registry", 1⟩)]
          Monitor.initial = some (Monitor.initial.enter .configure (.running 1 0)) := rfl
      cases failure with
      | reported status => exact wellReported_of_run (run_failed hstarted rfl _)
      | raised what => exact wellReported_of_run hempty
    | ok engine =>
      obtain ⟨m, hrun, hresult⟩ := wp_parseInternal job.environment job.options (some engine.1)
        (some engine.2) none
      dsimp only
      cases hparse : (job.parse engine).result with
      | error reason =>
        show WellReported (_ ++ [])
        rw [List.append_nil]
        exact wellReported_of_run hrun
      | ok parsed =>
        have hreached : (job.parse engine).result = .ok parsed → m.failure = none := by
          intro hok
          unfold Job.parse at hok
          rw [hok] at hresult
          exact hresult.live
        exact exported_wellReported job hrun (hreached hparse) parsed

end Jobs

end Reported

/-! ## A platform that accepts everything -/

/-- Nothing is refused or lost. -/
structure JobEnvironment.Accepts (env : JobEnvironment) : Prop where
  answer : ∀ i, env.answer i = .accepted
  manifest : ∀ i, env.manifest i = none
  lost : env.lost = false

section Accepted

variable {env : JobEnvironment}

theorem publish_accepts (henv : env.Accepts) (r : Reporter) (type : EventType)
    (name : Option String) (error : Option EventError) (report : Option Report) :
    (r.publish env type name error report).2 = none ∧
      reports (r.publish env type name error report).1.log = reports r.log ++ report.toList := by
  refine ⟨congrArg PublishAnswer.caught (henv.answer _), ?_⟩
  unfold Reporter.publish
  dsimp only
  rw [reports_append]
  cases report <;> rfl

theorem tell_accepts (henv : env.Accepts) (r : Reporter) (report : Report) :
    (r.tell env report).2 = none ∧
      reports (r.tell env report).1.log = reports r.log ++ [report] := by
  unfold Reporter.tell
  dsimp only
  rw [henv.manifest, ite_self]
  exact publish_accepts henv { r with lastError := report.error.getD r.lastError } _ _ _
    (some report)

theorem deliver_accepts (henv : env.Accepts) (calls : List Report) (r : Reporter) :
    (r.deliver env calls).2 = none ∧
      reports (r.deliver env calls).1.log = reports r.log ++ calls := by
  induction calls generalizing r with
  | nil => exact ⟨rfl, (List.append_nil _).symm⟩
  | cons report rest ih =>
    obtain ⟨hcaught, hreports⟩ := tell_accepts henv r report
    unfold Reporter.deliver
    rcases htell : r.tell env report with ⟨r', caught⟩
    rw [htell] at hcaught hreports
    obtain rfl : caught = none := hcaught
    obtain ⟨hrest, hrests⟩ := ih r'
    exact ⟨hrest, by rw [hrests, hreports, List.append_assoc]; rfl⟩

section Jobs

variable {α : Type} [Double α] (job : Job α)

/-- The behaviour of the parse is defined. -/
def Job.IsDefined : Prop :=
  ∀ engine, job.lookup = .ok engine → (job.parse engine).result ≠ .error .undefined

omit [Double α] in
theorem exportReports_error {parsed : ParsedRun α}
    (h : (job.exportReports parsed).2 ≠ .returned (.ok ()))
    {write : ParsedRun α → Option Failure}
    (helapsed : ¬(0 < job.options.timeoutSeconds ∧ job.elapsed = true))
    (hwrite : job.exporter = some write) : write parsed ≠ none := by
  intro hnone
  apply h
  unfold Job.exportReports
  rw [if_neg helapsed, hwrite]
  dsimp only
  rw [hnone]

theorem engineReports_defined (failure : Failure) :
    (Job.engineReports failure).2 ≠ .undefined := by
  cases failure with
  | reported status => exact fun h => by cases h
  | raised what => exact fun h => by cases h

omit [Double α] in
theorem exportReports_defined (parsed : ParsedRun α) :
    (job.exportReports parsed).2 ≠ .undefined := by
  unfold Job.exportReports
  split_ifs
  · exact fun h => by cases h
  split
  · exact fun h => by cases h
  split
  · exact fun h => by cases h
  · exact fun h => by cases h
  · exact fun h => by cases h

/-- How the processor ends when nothing is refused or lost. -/
theorem process_accepts (henv : env.Accepts) (hdefined : job.IsDefined) (r : Reporter) :
    (job.process env r).2 ≠ .undefined ∧
      ((job.process env r).2 = .returned (.ok ()) ↔ job.Succeeds) ∧
      reports (job.process env r).1.log = reports r.log ++ job.reports := by
  unfold Job.process Job.reports
  cases hlookup : job.lookup with
  | error failure =>
    dsimp only
    obtain ⟨hcaught, hreports⟩ := deliver_accepts henv (Job.engineReports failure).1 r
    rcases hdeliver : r.deliver env (Job.engineReports failure).1 with ⟨r', caught⟩
    rw [hdeliver] at hcaught hreports
    obtain rfl : caught = none := hcaught
    refine ⟨engineReports_defined failure, iff_of_false (engineReports_not_ok failure) ?_,
      hreports⟩
    intro ⟨_, _, _, h, _⟩
    rw [hlookup] at h
    cases h
  | ok engine =>
    dsimp only
    obtain ⟨hcaught, hreports⟩ :=
      deliver_accepts henv ((events (job.parse engine).emitted).map .stage) r
    rcases hdeliver : r.deliver env ((events (job.parse engine).emitted).map .stage) with
      ⟨r', caught⟩
    rw [hdeliver] at hcaught hreports
    obtain rfl : caught = none := hcaught
    cases hresult : (job.parse engine).result with
    | error stopped =>
      have hnot : ¬job.Succeeds := by
        intro ⟨engine', parsed, _, h, hparsed, _⟩
        obtain rfl := Except.ok.inj (hlookup.symm.trans h)
        rw [hresult] at hparsed
        cases hparsed
      have hall : reports r'.log = reports r.log ++
          ((events (job.parse engine).emitted).map .stage ++
            job.reportsAfter (.error stopped)) := by
        rw [hreports]
        show _ = reports r.log ++ (_ ++ [])
        rw [List.append_nil]
      cases stopped with
      | failed status =>
        exact ⟨(fun h => by cases h), iff_of_false (fun h => by cases h) hnot, hall⟩
      | thrown what =>
        exact ⟨(fun h => by cases h), iff_of_false (fun h => by cases h) hnot, hall⟩
      | undefined => exact absurd hresult (hdefined engine hlookup)
    | ok parsed =>
      dsimp only
      obtain ⟨hcaught', hreports'⟩ := deliver_accepts henv (job.exportReports parsed).1 r'
      rcases hdeliver' : r'.deliver env (job.exportReports parsed).1 with ⟨r'', caught⟩
      rw [hdeliver'] at hcaught' hreports'
      obtain rfl : caught = none := hcaught'
      refine ⟨exportReports_defined job parsed, ⟨fun hok => ?_, fun ⟨engine', parsed', write, h,
        hparsed, helapsed, hwrite, hnone⟩ => ?_⟩, ?_⟩
      · obtain ⟨helapsed, write, hwrite, hnone⟩ := exportReports_ok hok
        exact ⟨engine, parsed, write, hlookup, hresult, helapsed, hwrite, hnone⟩
      · obtain rfl := Except.ok.inj (hlookup.symm.trans h)
        obtain rfl := Except.ok.inj (hresult.symm.trans hparsed)
        by_contra hnot
        exact exportReports_error job hnot helapsed hwrite hnone
      · rw [hreports', hreports, List.append_assoc]
        rfl

/-- What `try` reports, and whether the job has succeeded. -/
theorem attempt_accepts (henv : env.Accepts) (hdefined : job.IsDefined) (r : Reporter)
    (preparation : Job.Preparation) :
    ∃ succeeded message, (job.attempt env r preparation).2 = some (succeeded, message) ∧
      (succeeded = true ↔ preparation = .ready ∧ job.Succeeds) ∧
      reports (job.attempt env r preparation).1.log =
        reports r.log ++ job.reportsFor preparation := by
  obtain ⟨hcaught, hreports⟩ : (r.publishJobEvent env .jobStarted "").2 = none ∧
      reports (r.publishJobEvent env .jobStarted "").1.log = reports r.log ++ [] := by
    rw [publishJobEvent_plain env r (by decide)]
    exact publish_accepts henv r .jobStarted none none none
  rw [List.append_nil] at hreports
  have hfailed : ∀ {preparation : Job.Preparation}, preparation ≠ .ready →
      (false = true ↔ preparation = .ready ∧ job.Succeeds) :=
    fun h => ⟨Bool.noConfusion, fun hready => absurd hready.1 h⟩
  unfold Job.attempt
  rcases hstart : r.publishJobEvent env .jobStarted "" with ⟨r', caught⟩
  rw [hstart] at hcaught hreports
  obtain rfl : caught = none := hcaught
  have hreports' : reports r'.log = reports r.log := hreports
  cases preparation with
  | invalid what =>
    exact ⟨false, what, rfl, hfailed Job.Preparation.noConfusion, (List.append_nil _).symm⟩
  | unusable what =>
    exact ⟨false, what, rfl, hfailed Job.Preparation.noConfusion,
      hreports'.trans (List.append_nil _).symm⟩
  | exhausted =>
    dsimp only
    obtain ⟨htold, htolds⟩ := tell_accepts henv r' exhaustedReport
    unfold exhaustedReport at htold htolds
    split
    next r'' caught htell =>
      rw [htell] at htold
      cases htold
    next r'' htell =>
      rw [htell] at htolds
      exact ⟨false, "", rfl, hfailed Job.Preparation.noConfusion, by rw [htolds, hreports']; rfl⟩
  | ready =>
    dsimp only
    obtain ⟨hending, hsucceeds, hprocessed⟩ := process_accepts job henv hdefined r'
    rcases hprocess : job.process env r' with ⟨r'', ending⟩
    rw [hprocess] at hending hsucceeds hprocessed
    have hall : reports r''.log = reports r.log ++ job.reportsFor .ready := by
      rw [hprocessed, hreports']
      rfl
    have hfails : ending ≠ .returned (.ok ()) →
        (false = true ↔ Job.Preparation.ready = .ready ∧ job.Succeeds) :=
      fun h => ⟨Bool.noConfusion, fun hready => absurd (hsucceeds.mpr hready.2) h⟩
    cases ending with
    | returned status =>
      cases status with
      | ok => exact ⟨true, "", rfl, ⟨fun _ => ⟨rfl, hsucceeds.mp rfl⟩, fun _ => rfl⟩, hall⟩
      | error status =>
        exact ⟨false, status.message, rfl, hfails (fun h => by cases h), hall⟩
    | thrown caught => exact ⟨false, caught.failureMessage, rfl, hfails (fun h => by cases h), hall⟩
    | undefined => exact absurd rfl hending

omit [Double α] in
theorem conclude_accepts (henv : env.Accepts) (r : Reporter) (succeeded : Bool)
    (message : String) :
    (Job.conclude env r succeeded message).2 = .finished ∧
      ∃ p : Publication, (Job.conclude env r succeeded message).1.log = r.log ++ [p] ∧
        p.event.type = (if succeeded then .jobSucceeded else .jobFailed) ∧ p.report = none := by
  unfold Job.conclude
  rw [henv.lost, if_neg Bool.false_ne_true]
  set type : EventType := if succeeded then .jobSucceeded else .jobFailed
  obtain ⟨error, hpublish⟩ : ∃ error, r.publishJobEvent env type message =
      r.publish env type none error none := ⟨_, rfl⟩
  have hcaught := (publish_accepts henv r type none error none).1
  rw [hpublish]
  rcases hpublished : r.publish env type none error none with ⟨r', caught⟩
  rw [hpublished] at hcaught
  obtain rfl : caught = none := hcaught
  exact ⟨rfl, _, (congrArg (fun result => result.1.log) hpublished).symm, rfl, rfl⟩

end Jobs

end Accepted

/-! ## The execution -/

section Execution

variable {α : Type} [Double α] (job : Job α)

/-- What a job has published, and how it ended. -/
structure JobRun (env : JobEnvironment) (preparation : Job.Preparation)
    (start : WorkerStageObserver) (outcome : Job.Outcome) (log : List Publication) : Prop where
  /-- The events are numbered one after the other, those too that are lost. -/
  numbered : ∀ i p, log[i]? = some p →
    IsNext { start with sequence := start.sequence + i } p.event
  reported : reports log <+: job.reportsFor preparation
  wellReported : WellReported (reports log)
  /-- After a publication that is not accepted only the end of a failed job is published, and after
  the end only the cancellation if the end was refused. -/
  order : log.Pairwise Publication.Precedes
  /-- The worker goes on only if the end was stored. -/
  ended : outcome = .finished → ∃ before p, log = before ++ [p] ∧
    p.event.type.isTerminal = true ∧ p.answer = .accepted
  cancelled : ∀ q ∈ log, q.event.type = .jobCancelled →
    ∃ p ∈ log, (p.event.type = .jobSucceeded ∨ p.event.type = .jobFailed) ∧ p.answer = .refused
  succeeded : ∀ p ∈ log, p.event.type = .jobSucceeded →
    preparation = .ready ∧ reports log = job.reports ∧ job.Succeeds
  undisturbed : env.Accepts → job.IsDefined → outcome = .finished ∧
    reports log = job.reportsFor preparation ∧
    ∃ before p, log = before ++ [p] ∧
      (p.event.type = .jobSucceeded ∧ preparation = .ready ∧ job.Succeeds ∨
        p.event.type = .jobFailed ∧ ¬(preparation = .ready ∧ job.Succeeds))

theorem Stands.open {w : Worker} {r : Reporter} {stage : JobStage} (h : Stands w r stage) :
    ∃ e, w.phase = .running e ∧ e.stage = stage ∧ e.observer = r.observer :=
  let ⟨_, hphase⟩ := h.phase
  ⟨_, hphase, rfl, rfl⟩

/-- The end of an execution, and what was reported. -/
structure Executed (preparation : Job.Preparation) (outcome : Job.Outcome)
    (log : List Publication) (w : Worker) : Prop where
  phase : w.phase = outcome.phase
  reported : reports log <+: job.reportsFor preparation
  succeeded : ∀ p ∈ log, p.event.type = .jobSucceeded →
    preparation = .ready ∧ reports log = job.reports ∧ job.Succeeds

theorem execute_reaches {w : Worker} {r : Reporter} (env : JobEnvironment)
    (hw : Stands w r .starting) (preparation : Job.Preparation) :
    Reaches w r (job.execute env r preparation).1
      (Executed job preparation (job.execute env r preparation).2) := by
  obtain ⟨log, w', hlog, hpublishes, hattempted⟩ := attempt_reaches job env hw preparation
  obtain ⟨stage, hstands, hstage, hending⟩ := hattempted.stands
  obtain ⟨e, hphase, hstart, -⟩ := hw.open
  obtain ⟨e', hphase', hstage', -⟩ := hstands.open
  have hworks := hpublishes.works hphase (.inl hstart)
  rw [hstart, hphase'] at hworks
  have hquiet := hworks.quiet (.inl rfl) (hstage'.trans_ne hstage)
  have hopen : ∀ {p : Publication}, p ∈ log → p.event.type = .jobSucceeded → False := by
    intro p hp htype
    have hnot := hquiet p hp
    rw [htype] at hnot
    cases hnot
  unfold Job.execute
  rcases hattempt : job.attempt env r preparation with ⟨r', _ | ⟨succeeded, message⟩⟩
  · rw [hattempt] at hlog
    refine ⟨log ++ [], w'.goto .dead, by rw [hlog, List.append_nil],
      hpublishes.trans (.crash (.nil _)), rfl, ?_, fun p hp htype => ?_⟩
    · rw [List.append_nil]
      exact hattempted.reported
    · rw [List.append_nil] at hp
      exact (hopen hp htype).elim
  · rw [hattempt] at hlog hstands hending hattempted
    obtain rfl := hending succeeded message rfl
    obtain ⟨log', w'', hlog', hpublishes', hconcluded⟩ := conclude_reaches env message hstands
    have hreports : reports (log ++ log') = reports log := by
      rw [reports_append, hconcluded.unreported, List.append_nil]
    refine ⟨log ++ log', w'', by rw [hlog', hlog, List.append_assoc],
      hpublishes.trans hpublishes', hconcluded.phase, ?_, fun p hp htype => ?_⟩
    · rw [hreports]
      exact hattempted.reported
    · rcases List.mem_append.mp hp with hp | hp
      · exact (hopen hp htype).elim
      · have hfinishes := hpublishes'.finishes hphase' hstage'
        obtain rfl := (hfinishes.type hp).1 htype
        rw [hreports]
        exact hattempted.succeeded message rfl

theorem execute_accepts {env : JobEnvironment} (henv : env.Accepts) (hdefined : job.IsDefined)
    (r : Reporter) (preparation : Job.Preparation) :
    (job.execute env r preparation).2 = .finished ∧
      reports (job.execute env r preparation).1.log =
        reports r.log ++ job.reportsFor preparation ∧
      ∃ before p, (job.execute env r preparation).1.log = before ++ [p] ∧
        (p.event.type = .jobSucceeded ∧ preparation = .ready ∧ job.Succeeds ∨
          p.event.type = .jobFailed ∧ ¬(preparation = .ready ∧ job.Succeeds)) := by
  obtain ⟨succeeded, message, hresult, hsucceeds, hreports⟩ :=
    attempt_accepts job henv hdefined r preparation
  unfold Job.execute
  rcases hattempt : job.attempt env r preparation with ⟨r', result⟩
  rw [hattempt] at hresult hreports
  obtain rfl : result = some (succeeded, message) := hresult
  obtain ⟨houtcome, p, hlog, htype, hreport⟩ := conclude_accepts henv r' succeeded message
  refine ⟨houtcome, ?_, r'.log, p, hlog, ?_⟩
  · show reports (Job.conclude env r' succeeded message).1.log = _
    rw [hlog, reports_append, reports_unreported hreport, List.append_nil, hreports]
  · cases succeeded with
    | true => exact .inl ⟨htype, hsucceeds.mp rfl⟩
    | false => exact .inr ⟨htype, fun h => Bool.false_ne_true (hsucceeds.mpr h)⟩

/-- **The execution of a job.** The code that runs a job is a worker of the platform, whatever the
platform answers, and its log follows the protocol of jobs and that of their stages. -/
theorem job_execution (env : JobEnvironment) (lease : RedisJobLease) (identity : JobIdentity)
    (preparation : Job.Preparation) (consumer : String) (leaseMs : Nat)
    (cursor : Option Redis.StreamId) :
    let start := reporter lease identity
    let run := job.execute env start preparation
    (∃ w', Publishes ⟨consumer, leaseMs, cursor, false, .running ⟨lease, start.observer, .starting⟩⟩
      run.1.log w' ∧ w'.phase = run.2.phase) ∧
    JobRun job env preparation start.observer run.2 run.1.log := by
  intro start run
  set w : Worker := ⟨consumer, leaseMs, cursor, false, .running ⟨lease, start.observer, .starting⟩⟩
  have hw : Stands w start .starting := ⟨rfl, lease, rfl⟩
  obtain ⟨log, w', hlog, hpublishes, hexecuted⟩ := execute_reaches job env hw preparation
  obtain rfl : run.1.log = log := hlog
  have hordered := (hpublishes.works rfl (.inl rfl)).ordered (.inl rfl)
  refine ⟨⟨w', hpublishes, hexecuted.phase⟩, hpublishes.numbered rfl, hexecuted.reported,
    (job.reportsFor_wellReported preparation).front hexecuted.reported, hordered.order,
    fun houtcome => ?_, hordered.cancelled, hexecuted.succeeded, fun henv hdefined =>
      execute_accepts job henv hdefined start preparation⟩
  exact hordered.ended (hexecuted.phase.trans (congrArg Job.Outcome.phase houtcome))

end Execution

/-! ## A scan -/

def scanJob : Job ℚ where
  lookup := .ok (scanServices,
    ⟨"run", "engine", "1.0", "", ⟨scanOptions.backends, scanOptions.backends, ""⟩, [], []⟩)
  environment := scanEnvironment
  options := scanOptions
  elapsed := false
  exporter := some fun _ => none

def scanReporter : Reporter :=
  reporter ⟨⟨1, 0⟩, "worker", 1, 0, 30000⟩ ⟨"job", "run", "attempt"⟩

/-- The first publications are accepted, and then the job is cancelled. -/
def cancelledAfter (accepted : Nat) : JobEnvironment where
  answer i := if i < accepted then .accepted else if i < accepted + 2 then .refused else .accepted
  manifest _ := none
  lost := false

def neverCancelled : JobEnvironment := ⟨fun _ => .accepted, fun _ => none, false⟩

/-- The scan is parsed and exported; with a cancellation at its third event it ends as cancelled,
and without usable options it fails after its start. -/
theorem job_execution_scan :
    let run := scanJob.execute neverCancelled scanReporter .ready
    let cancelled := scanJob.execute (cancelledAfter 2) scanReporter .ready
    let failed := scanJob.execute neverCancelled scanReporter (.unusable "no pipeline")
    JobRun scanJob neverCancelled .ready scanReporter.observer run.2 run.1.log ∧
      run.1.log.getLast?.map (·.event.type) = some .jobSucceeded ∧
    JobRun scanJob (cancelledAfter 2) .ready scanReporter.observer cancelled.2 cancelled.1.log ∧
      cancelled.1.log.map (·.event.type) =
        [.jobStarted, .stageStarted, .stageProgress, .jobFailed, .jobCancelled] ∧
    JobRun scanJob neverCancelled (.unusable "no pipeline") scanReporter.observer failed.2
        failed.1.log ∧
      failed.1.log.map (·.event.type) = [.jobStarted, .jobFailed] :=
  ⟨(job_execution scanJob neverCancelled ⟨⟨1, 0⟩, "worker", 1, 0, 30000⟩
      ⟨"job", "run", "attempt"⟩ .ready "worker" 30000 none).2, by decide +kernel,
    (job_execution scanJob (cancelledAfter 2) ⟨⟨1, 0⟩, "worker", 1, 0, 30000⟩
      ⟨"job", "run", "attempt"⟩ .ready "worker" 30000 none).2, by decide +kernel,
    (job_execution scanJob neverCancelled ⟨⟨1, 0⟩, "worker", 1, 0, 30000⟩
      ⟨"job", "run", "attempt"⟩ (.unusable "no pipeline") "worker" 30000 none).2,
    by decide +kernel⟩

end DocParser.Platform
