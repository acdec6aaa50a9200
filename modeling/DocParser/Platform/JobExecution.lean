import DocParser.Pipeline.ParseProtocol
import DocParser.Platform.JobPublications

/-!
# The execution of a job

What a worker does under a lease: it reports the start, parses and exports with an observer that
publishes every call, and reports the end. Any publication may be accepted, refused because the job
is cancelled, or raise, and an exception leaves the stage that it meets. `attempt_reaches` and
`conclude_reaches`: this code is one of the workers of the platform.
-/

namespace DocParser.Platform

open Emission Pipeline

/-! ## The observer -/

/-- What the platform answers to the publications by their place, which manifests cannot be written
before them, and whether the lease was found to be lost. -/
structure JobEnvironment where
  answer : Nat → PublishAnswer
  manifest : Nat → Option String
  lost : Bool

/-- An exception of the observer. -/
inductive Caught
  | cancellation
  | exception (what : String)
  deriving DecidableEq, Repr

/-- `what()` -/
def Caught.what : Caught → String
  | cancellation => "Job cancellation requested"
  | exception what => what

/-- `failure_message` in the handlers of `main`. -/
def Caught.failureMessage : Caught → String
  | cancellation => ""
  | exception what => what

def PublishAnswer.caught : PublishAnswer → Option Caught
  | accepted => none
  | refused => some .cancellation
  | raised what => some (.exception what)

/-- The observer with its last error, and all that it has published. -/
structure Reporter where
  observer : WorkerStageObserver
  lastError : EventError
  log : List Publication
  deriving DecidableEq, Repr

namespace Reporter

variable (env : JobEnvironment) (r : Reporter)

/-- `publish`: the event is numbered before anything can fail. -/
def publish (type : EventType) (stage : Option String) (error : Option EventError)
    (report : Option Report) : Reporter × Option Caught :=
  let numbered := r.observer.next type stage (error.map EventError.message)
  let answer := env.answer r.log.length
  ({ r with observer := numbered.1, log := r.log ++ [⟨numbered.2, error, report, answer⟩] },
    answer.caught)

def publishJobEvent (type : EventType) (message : String) : Reporter × Option Caught :=
  let effective :=
    if message.isEmpty && type == .jobFailed then r.lastError.message else message
  let usesStageError := !r.lastError.message.isEmpty && effective == r.lastError.message
  let error : EventError := ⟨if usesStageError then r.lastError.code else "worker_failure",
    effective, usesStageError && r.lastError.retryable⟩
  r.publish env type none (if effective.isEmpty then none else some error) none

/-- A call of the observer. -/
def tell (report : Report) : Reporter × Option Caught :=
  let r := { r with lastError := report.error.getD r.lastError }
  match if report.isArtifact then env.manifest r.log.length else none with
  | some what => (r, some (.exception what))
  | none => r.publish env report.type report.stageName report.error (some report)

/-- Calls in order, up to the first that raises. -/
def deliver (r : Reporter) : List Report → Reporter × Option Caught
  | [] => (r, none)
  | report :: rest =>
    match r.tell env report with
    | (r, some caught) => (r, some caught)
    | (r, none) => deliver r rest

end Reporter

/-! ## The job -/

section Definitions

variable {α : Type} [Double α]

/-- How a call fails that gives a status. -/
inductive Failure
  | reported (status : Status)
  | raised (what : String)

/-- What a job depends on: the engine that the cache finds or how it fails to, the environment of
the pipeline, and the exporter, which may be missing and may fail. -/
structure Job (α : Type) where
  lookup : Except Failure (PipelineServices α × RunProvenance)
  environment : Environment
  options : PipelineRunOptions
  /-- The deadline had passed after the parse. -/
  elapsed : Bool
  exporter : Option (ParsedRun α → Option Failure)

/-- How the processor ends. -/
inductive Ending
  | returned (status : Except Status Unit)
  | thrown (caught : Caught)
  | undefined

/-- `stageFailed` of the processor. -/
def failedReport (stage code message : String) (retryable : Bool) : Report × Ending :=
  (.stage (.failed ⟨stage, code, message, retryable⟩),
    .returned (.error ⟨code, message, stage, retryable⟩))

/-- `DocumentEngine::parse` turns every exception into a status, a cancellation too. -/
def parseException (what : String) : Status :=
  ⟨"engine.parse_exception", "document parsing raised an exception: " ++ what, "engine", false⟩

namespace Job

variable (job : Job α)

def parse (engine : PipelineServices α × RunProvenance) : Run (ParsedRun α) :=
  parseInternal job.environment job.options (some engine.1) (some engine.2) none

/-- What the processor reports without an engine. -/
def engineReports : Failure → List Report × Ending
  | .reported status =>
    let failed := failedReport (if status.stage.isEmpty then "configure" else status.stage)
      status.code status.message status.retryable
    ([.stage (.started ⟨.configure, "registry", 1⟩), failed.1], failed.2)
  | .raised what => ([], .thrown (.exception what))

/-- What the processor reports after a parse. -/
def exportReports (parsed : ParsedRun α) : List Report × Ending :=
  if 0 < job.options.timeoutSeconds ∧ job.elapsed then
    let failed := failedReport "export" "run_timeout" ("pipeline exceeded its " ++
      toString job.options.timeoutSeconds ++ " second deadline") false
    ([failed.1], failed.2)
  else
    match job.exporter with
    | none =>
      let failed := failedReport "export" "exporter_unavailable" "no document exporter is enabled"
        false
      ([.exportStarted, failed.1], failed.2)
    | some write =>
      match write parsed with
      | some (.raised what) => ([.exportStarted], .thrown (.exception what))
      | some (.reported status) =>
        let failed := failedReport (if status.stage.isEmpty then "export" else status.stage)
          status.code status.message status.retryable
        ([.exportStarted, failed.1], failed.2)
      | none =>
        let directory := job.options.outputDirectory
        ([.exportStarted, .exportArtifact "document_json" (joinPath directory "document.json"),
          .exportArtifact "document_markdown" (joinPath directory "document.md"),
          .exportArtifact "document_html" (joinPath directory "document.html"),
          .exportProgress, .exportCompleted], .returned (.ok ()))

/-- `WorkerDocumentProcessor::process` -/
def process (env : JobEnvironment) (r : Reporter) : Reporter × Ending :=
  match job.lookup with
  | .error failure =>
    match r.deliver env (engineReports failure).1 with
    | (r, some caught) => (r, .thrown caught)
    | (r, none) => (r, (engineReports failure).2)
  | .ok engine =>
    match r.deliver env ((events (job.parse engine).emitted).map .stage),
      (job.parse engine).result with
    | (r, some caught), _ => (r, .returned (.error (parseException caught.what)))
    | (r, none), .error (.failed status) => (r, .returned (.error status))
    | (r, none), .error (.thrown what) => (r, .returned (.error (parseException what)))
    | (r, none), .error .undefined => (r, .undefined)
    | (r, none), .ok parsed =>
      match r.deliver env (job.exportReports parsed).1 with
      | (r, some caught) => (r, .thrown caught)
      | (r, none) => (r, (job.exportReports parsed).2)

/-- What `main` finds in the Job document and the lease. -/
inductive Preparation
  /-- The Job document is missing, malformed or out of its limits: nothing is started. -/
  | invalid (what : String)
  /-- The lease is one too many. -/
  | exhausted
  /-- `optionsFromJob` raises, which is after the start. -/
  | unusable (what : String)
  | ready
  deriving DecidableEq, Repr

/-- The body of `try` in `main`, with its handlers: whether the job has succeeded, and
`failure_message`. -/
def attempt (env : JobEnvironment) (r : Reporter) :
    Preparation → Reporter × Option (Bool × String)
  | .invalid what => (r, some (false, what))
  | .exhausted =>
    match r.publishJobEvent env .jobStarted "" with
    | (r, some caught) => (r, some (false, caught.failureMessage))
    | (r, none) =>
      match r.tell env (.stage (.failed ⟨"configure", "worker.recovery_exhausted",
        "Worker execution recovery limit exceeded", false⟩)) with
      | (r, some caught) => (r, some (false, caught.failureMessage))
      | (r, none) => (r, some (false, ""))
  | .unusable what =>
    match r.publishJobEvent env .jobStarted "" with
    | (r, some caught) => (r, some (false, caught.failureMessage))
    | (r, none) => (r, some (false, what))
  | .ready =>
    match r.publishJobEvent env .jobStarted "" with
    | (r, some caught) => (r, some (false, caught.failureMessage))
    | (r, none) =>
      match job.process env r with
      | (r, .returned (.ok ())) => (r, some (true, ""))
      | (r, .returned (.error status)) => (r, some (false, status.message))
      | (r, .thrown caught) => (r, some (false, caught.failureMessage))
      | (r, .undefined) => (r, none)

/-- Whether the worker goes on to the next message. -/
inductive Outcome
  | finished
  | died
  deriving DecidableEq, Repr

/-- The terminal publication. -/
def conclude (env : JobEnvironment) (r : Reporter) (succeeded : Bool) (message : String) :
    Reporter × Outcome :=
  if env.lost then (r, .died)
  else
    match r.publishJobEvent env (if succeeded then .jobSucceeded else .jobFailed) message with
    | (r, none) => (r, .finished)
    | (r, some (.exception _)) => (r, .died)
    | (r, some .cancellation) =>
      match r.publishJobEvent env .jobCancelled "" with
      | (r, none) => (r, .finished)
      | (r, some _) => (r, .died)

/-- What `main` does with a job that it has leased and whose identity it knows. -/
def execute (env : JobEnvironment) (r : Reporter) (preparation : Preparation) :
    Reporter × Outcome :=
  match job.attempt env r preparation with
  | (r, none) => (r, .died)
  | (r, some (succeeded, message)) => conclude env r succeeded message

end Job

/-- The observer under a lease. -/
def reporter (lease : RedisJobLease) (identity : JobIdentity) : Reporter where
  observer := ⟨identity, "execution_" ++ toString lease.generation, lease.sequence⟩
  lastError := ⟨"", "", false⟩
  log := []

end Definitions

/-! ## A worker of the platform -/

section Refinement

/-- A worker with the observer of the code, at a stage of the job. -/
structure Stands (w : Worker) (r : Reporter) (stage : JobStage) : Prop where
  live : w.lost = false
  phase : ∃ lease, w.phase = .running ⟨lease, r.observer, stage⟩

variable {w : Worker} {r r' : Reporter} {stage : JobStage} {env : JobEnvironment}

/-- **One publication** is a command of the worker and what it makes of the answer. -/
theorem Stands.publish (hw : Stands w r stage) (env : JobEnvironment) (type : EventType)
    (name : Option String) (error : Option EventError) (report : Option Report)
    (hsend : ∀ e : Execution, w.phase = .running e → e.stage = stage →
      w.Sends (w.publish e type name (error.map EventError.message)).1
        (w.publish e type name (error.map EventError.message)).2) :
    ∃ p w' lease, (r.publish env type name error report).1.log = r.log ++ [p] ∧
      Publishes w [p] w' ∧ w'.lost = false ∧
      p.report = report ∧ (r.publish env type name error report).2 = p.answer.caught ∧
      w'.phase = Worker.afterPublish
        ⟨lease, (r.publish env type name error report).1.observer, stage⟩ p.answer.reply := by
  obtain ⟨lease, hphase⟩ := hw.phase
  have hsends := hsend _ hphase rfl
  refine ⟨⟨_, error, report, env.answer r.log.length⟩, _, lease, rfl,
    .publish hsends (.nil _), ?_, rfl, rfl, ?_⟩
  · unfold PublishAnswer.react
    cases (env.answer r.log.length).reply with
    | none => exact hw.live
    | some stored => exact hw.live
  · unfold PublishAnswer.react
    cases (env.answer r.log.length).reply with
    | none => rfl
    | some stored => rfl

/-- Where a worker stands after calls that may have raised. -/
def StandsAfter (w : Worker) (r : Reporter) : Option Caught → Prop
  | none => Stands w r .processing
  | some _ => Stands w r .processing ∨ Stands w r (.finishing false)

/-- What a log reports of the run. -/
def reports (log : List Publication) : List Report := log.filterMap Publication.report

theorem reports_append (log log' : List Publication) :
    reports (log ++ log') = reports log ++ reports log' :=
  List.filterMap_append

/-- The code goes from one reporter to another while a worker publishes the same. -/
def Reaches (w : Worker) (r r' : Reporter) (after : List Publication → Worker → Prop) : Prop :=
  ∃ log w', r'.log = r.log ++ log ∧ Publishes w log w' ∧ after log w'

theorem Reaches.here {after : List Publication → Worker → Prop} (h : after [] w) :
    Reaches w r r after :=
  ⟨[], w, (List.append_nil _).symm, .nil w, h⟩

theorem Reaches.trans {r'' : Reporter} {between after : List Publication → Worker → Prop}
    (h : Reaches w r r' between)
    (h' : ∀ log w', between log w' → Reaches w' r' r'' fun log' => after (log ++ log')) :
    Reaches w r r'' after := by
  obtain ⟨log, w', hlog, hpublishes, hbetween⟩ := h
  obtain ⟨log', w'', hlog', hpublishes', hafter⟩ := h' log w' hbetween
  exact ⟨log ++ log', w'', by rw [hlog', hlog, List.append_assoc], hpublishes.trans hpublishes',
    hafter⟩

theorem Reaches.mono {after after' : List Publication → Worker → Prop} (h : Reaches w r r' after)
    (himp : ∀ log w', after log w' → after' log w') : Reaches w r r' after' :=
  let ⟨log, w', hlog, hpublishes, hafter⟩ := h
  ⟨log, w', hlog, hpublishes, himp log w' hafter⟩

theorem Report.type_isStageEvent (report : Report) : Worker.isStageEvent report.type = true := by
  cases report with
  | stage event => cases event <;> rfl
  | exportStarted | exportArtifact _ _ | exportProgress | exportCompleted => rfl

/-- Calls that were made up to the first that raised, and the worker after them. -/
structure Delivered (calls : List Report) (r : Reporter) (caught : Option Caught)
    (log : List Publication) (w : Worker) : Prop where
  stands : StandsAfter w r caught
  reported : reports log <+: calls
  all : caught = none → reports log = calls

theorem tell_reaches (hw : Stands w r .processing) (env : JobEnvironment) (report : Report) :
    Reaches w r (r.tell env report).1
      (Delivered [report] (r.tell env report).1 (r.tell env report).2) := by
  have hw' : Stands w { r with lastError := report.error.getD r.lastError } .processing :=
    ⟨hw.live, hw.phase⟩
  unfold Reporter.tell
  dsimp only
  split
  · exact .here ⟨.inl hw', List.nil_prefix, fun h => by cases h⟩
  · obtain ⟨p, w', lease, hlog, hpublishes, hlive, hreport, hcaught, hphase⟩ := hw'.publish env
      report.type report.stageName report.error (some report) fun e he hstage =>
        .progress w e report.type _ _ he hstage report.type_isStageEvent
    have hreports : reports [p] = [report] := by
      show List.filterMap Publication.report [p] = [report]
      rw [List.filterMap_cons, hreport]
      rfl
    refine ⟨[p], w', hlog, hpublishes, ?_, hreports ▸ List.prefix_rfl, fun _ => hreports⟩
    rw [hcaught]
    cases hanswer : p.answer with
    | accepted =>
      rw [hanswer] at hphase
      exact ⟨hlive, lease, hphase⟩
    | refused =>
      rw [hanswer] at hphase
      exact .inr ⟨hlive, lease, hphase⟩
    | raised what =>
      rw [hanswer] at hphase
      exact .inr ⟨hlive, lease, hphase⟩

theorem deliver_reaches (calls : List Report) (env : JobEnvironment) :
    ∀ {w : Worker} {r : Reporter}, Stands w r .processing →
      Reaches w r (r.deliver env calls).1
        (Delivered calls (r.deliver env calls).1 (r.deliver env calls).2) := by
  induction calls with
  | nil => exact fun hw => .here ⟨hw, List.prefix_rfl, fun _ => rfl⟩
  | cons report rest ih =>
    intro w r hw
    have htold := tell_reaches hw env report
    unfold Reporter.deliver
    rcases htell : r.tell env report with ⟨r', _ | caught⟩
    · rw [htell] at htold
      refine htold.trans fun log w' hlog => (ih hlog.stands).mono fun log' w'' hlog' => ?_
      have hfirst := hlog.all rfl
      refine ⟨hlog'.stands, ?_, fun hnone => ?_⟩
      · rw [reports_append, hfirst]
        exact List.prefix_append_right_inj [report] |>.mpr hlog'.reported
      · rw [reports_append, hfirst, hlog'.all hnone]
        rfl
    · rw [htell] at htold
      refine htold.mono fun log w' hlog => ⟨hlog.stands, ?_, fun h => by cases h⟩
      exact hlog.reported.trans (List.prefix_append [report] rest)

/-- The first and the last events of a job may carry no error. -/
theorem publishJobEvent_plain (env : JobEnvironment) (r : Reporter) {type : EventType}
    (h : type ≠ .jobFailed) :
    r.publishJobEvent env type "" = r.publish env type none none none := by
  unfold Reporter.publishJobEvent
  have htype : (type == .jobFailed) = false := beq_eq_false_iff_ne.mpr h
  dsimp only
  rw [htype]
  rfl

theorem reports_unreported {p : Publication} (h : p.report = none) : reports [p] = [] := by
  show List.filterMap Publication.report [p] = []
  rw [List.filterMap_cons, h]
  rfl

theorem started_reaches (hw : Stands w r .starting) (env : JobEnvironment) :
    Reaches w r (r.publishJobEvent env .jobStarted "").1
      (Delivered [] (r.publishJobEvent env .jobStarted "").1
        (r.publishJobEvent env .jobStarted "").2) := by
  rw [publishJobEvent_plain env r (by decide)]
  obtain ⟨p, w', lease, hlog, hpublishes, hlive, hreport, hcaught, hphase⟩ := hw.publish env
    .jobStarted none none none fun e he hstage => .started w e he hstage
  have hreports := reports_unreported hreport
  refine ⟨[p], w', hlog, hpublishes, ?_, hreports ▸ List.prefix_rfl, fun _ => hreports⟩
  rw [hcaught]
  cases hanswer : p.answer with
  | accepted =>
    rw [hanswer] at hphase
    exact ⟨hlive, lease, hphase⟩
  | refused =>
    rw [hanswer] at hphase
    exact .inr ⟨hlive, lease, hphase⟩
  | raised what =>
    rw [hanswer] at hphase
    exact .inr ⟨hlive, lease, hphase⟩

section Jobs

variable {α : Type} [Double α] (job : Job α)

/-- The engine was found, and the document was parsed in time and written. -/
def Job.Succeeds : Prop :=
  ∃ engine parsed write, job.lookup = .ok engine ∧ (job.parse engine).result = .ok parsed ∧
    ¬(0 < job.options.timeoutSeconds ∧ job.elapsed = true) ∧ job.exporter = some write ∧
    write parsed = none

def Job.reportsAfter : Except Stop (ParsedRun α) → List Report
  | .ok parsed => (job.exportReports parsed).1
  | .error _ => []

/-- All that the processor reports when nothing raises. -/
def Job.reports : List Report :=
  match job.lookup with
  | .error failure => (Job.engineReports failure).1
  | .ok engine => (events (job.parse engine).emitted).map .stage ++
    job.reportsAfter (job.parse engine).result

def exhaustedReport : Report :=
  .stage (.failed ⟨"configure", "worker.recovery_exhausted",
    "Worker execution recovery limit exceeded", false⟩)

def Job.reportsFor : Job.Preparation → List Report
  | .invalid _ | .unusable _ => []
  | .exhausted => [exhaustedReport]
  | .ready => job.reports

/-- Where a worker stands when the processor is done, and what was reported. -/
structure Processed (r : Reporter) (ending : Ending) (log : List Publication) (w : Worker) :
    Prop where
  stands : Stands w r .processing ∨ Stands w r (.finishing false)
  reported : reports log <+: job.reports
  succeeded : ending = .returned (.ok ()) →
    Stands w r .processing ∧ reports log = job.reports ∧ job.Succeeds

omit [Double α] in
theorem exportReports_ok {job : Job α} {parsed : ParsedRun α}
    (h : (job.exportReports parsed).2 = .returned (.ok ())) :
    ¬(0 < job.options.timeoutSeconds ∧ job.elapsed = true) ∧
      ∃ write, job.exporter = some write ∧ write parsed = none := by
  unfold Job.exportReports at h
  split_ifs at h with helapsed
  · cases h
  · split at h
    · cases h
    next write hwrite =>
      split at h
      · cases h
      · cases h
      next hnone => exact ⟨helapsed, write, hwrite, hnone⟩

theorem engineReports_not_ok (failure : Failure) :
    (Job.engineReports failure).2 ≠ .returned (.ok ()) := by
  cases failure with
  | reported status => exact fun h => by cases h
  | raised what => exact fun h => by cases h

theorem process_reaches (env : JobEnvironment) (hw : Stands w r .processing) :
    Reaches w r (job.process env r).1
      (Processed job (job.process env r).1 (job.process env r).2) := by
  have hraised : ∀ {calls : List Report} {w' : Worker} {r' : Reporter} {caught : Option Caught}
      {log : List Publication} {ending : Ending}, Delivered calls r' caught log w' →
      calls <+: job.reports → ending ≠ .returned (.ok ()) → Processed job r' ending log w' := by
    intro calls w' r' caught log ending h hcalls hending
    refine ⟨?_, h.reported.trans hcalls, fun heq => absurd heq hending⟩
    cases caught with
    | none => exact .inl h.stands
    | some _ => exact h.stands
  unfold Job.process
  cases hlookup : job.lookup with
  | error failure =>
    have hreports : job.reports = (Job.engineReports failure).1 := by
      unfold Job.reports
      rw [hlookup]
    have hdelivered := deliver_reaches (Job.engineReports failure).1 env hw
    dsimp only
    rcases hdeliver : r.deliver env (Job.engineReports failure).1 with ⟨r', _ | caught⟩
    · rw [hdeliver] at hdelivered
      exact hdelivered.mono fun log w' h => hraised h (hreports ▸ List.prefix_rfl)
        (engineReports_not_ok failure)
    · rw [hdeliver] at hdelivered
      exact hdelivered.mono fun log w' h => hraised h (hreports ▸ List.prefix_rfl)
        fun heq => by cases heq
  | ok engine =>
    have hreports : job.reports = (events (job.parse engine).emitted).map .stage ++
        job.reportsAfter (job.parse engine).result := by
      unfold Job.reports
      rw [hlookup]
    have hdelivered := deliver_reaches ((events (job.parse engine).emitted).map .stage) env hw
    have hfront : (events (job.parse engine).emitted).map .stage <+: job.reports := by
      rw [hreports]
      exact List.prefix_append _ _
    dsimp only
    rcases hdeliver : r.deliver env ((events (job.parse engine).emitted).map .stage) with
      ⟨r', _ | caught⟩
    · rw [hdeliver] at hdelivered
      cases hresult : (job.parse engine).result with
      | error stopped =>
        cases stopped with
        | failed status =>
          exact hdelivered.mono fun log w' h => hraised h hfront fun heq => by cases heq
        | thrown what =>
          exact hdelivered.mono fun log w' h => hraised h hfront fun heq => by cases heq
        | undefined =>
          exact hdelivered.mono fun log w' h => hraised h hfront fun heq => by cases heq
      | ok parsed =>
        rw [hresult] at hreports
        dsimp only [Job.reportsAfter] at hreports ⊢
        refine hdelivered.trans fun log w' hlog => ?_
        have hparsed := hlog.all rfl
        have hexported := deliver_reaches (job.exportReports parsed).1 env hlog.stands
        have hall : ∀ {log' : List Publication}, reports log' <+: (job.exportReports parsed).1 →
            reports (log ++ log') <+: job.reports := by
          intro log' h
          rw [reports_append, hparsed, hreports]
          exact (List.prefix_append_right_inj _).mpr h
        rcases hexport : r'.deliver env (job.exportReports parsed).1 with ⟨r'', _ | caught⟩
        · rw [hexport] at hexported
          refine hexported.mono fun log' w'' hlog' => ⟨.inl hlog'.stands, hall hlog'.reported,
            fun hending => ⟨hlog'.stands, ?_, ?_⟩⟩
          · rw [reports_append, hparsed, hreports, hlog'.all rfl]
          · obtain ⟨helapsed, write, hwrite, hnone⟩ := exportReports_ok hending
            exact ⟨engine, parsed, write, hlookup, hresult, helapsed, hwrite, hnone⟩
        · rw [hexport] at hexported
          exact hexported.mono fun log' w'' hlog' => ⟨hlog'.stands, hall hlog'.reported,
            fun hending => by cases hending⟩
    · rw [hdeliver] at hdelivered
      exact hdelivered.mono fun log w' h => hraised h hfront fun heq => by cases heq

/-- The end of `try`, and what was reported. -/
structure Attempted (preparation : Job.Preparation) (r : Reporter)
    (result : Option (Bool × String)) (log : List Publication) (w : Worker) : Prop where
  stands : ∃ stage, Stands w r stage ∧ stage ≠ .cancelling ∧
    ∀ succeeded message, result = some (succeeded, message) → stage = .finishing succeeded
  reported : reports log <+: job.reportsFor preparation
  succeeded : ∀ message, result = some (true, message) →
    preparation = .ready ∧ reports log = job.reports ∧ job.Succeeds

theorem Stands.attempted {succeeded : Bool} {message : String}
    (hw : Stands w r (.finishing succeeded)) :
    ∃ stage, Stands w r stage ∧ stage ≠ .cancelling ∧
      ∀ succeeded' message', some (succeeded, message) = some (succeeded', message') →
        stage = .finishing succeeded' := by
  refine ⟨_, hw, JobStage.noConfusion, fun succeeded' message' heq => ?_⟩
  rw [(Prod.mk.inj (Option.some.inj heq)).1]

/-- A job that is over, one way or the other. -/
theorem Stands.finish (hw : Stands w r stage) (succeeded : Bool)
    (h : stage = .processing ∨ stage = .starting ∧ succeeded = false) :
    Reaches w r r fun log w' => log = [] ∧ Stands w' r (.finishing succeeded) := by
  obtain ⟨lease, hphase⟩ := hw.phase
  exact ⟨[], _, (List.append_nil _).symm,
    .internal (.finish w _ succeeded hphase h) (.nil _), rfl, hw.live, lease, rfl⟩

/-- A job that has failed. -/
theorem fails_reaches {preparation : Job.Preparation} {log : List Publication} (message : String)
    (hw : Stands w r .processing ∨ Stands w r (.finishing false))
    (hreported : reports log <+: job.reportsFor preparation) :
    Reaches w r r fun log' =>
      Attempted job preparation r (some (false, message)) (log ++ log') := by
  have hfinishing : Reaches w r r fun log' w' => log' = [] ∧ Stands w' r (.finishing false) := by
    rcases hw with hw | hw
    · exact hw.finish false (.inl rfl)
    · exact .here ⟨rfl, hw⟩
  refine hfinishing.mono fun log' w' h => ?_
  obtain ⟨rfl, hw'⟩ := h
  rw [List.append_nil]
  exact ⟨hw'.attempted, hreported, fun message' heq => by cases heq⟩

theorem attempt_reaches (env : JobEnvironment) (hw : Stands w r .starting)
    (preparation : Job.Preparation) :
    Reaches w r (job.attempt env r preparation).1 (Attempted job preparation
      (job.attempt env r preparation).1 (job.attempt env r preparation).2) := by
  have hstarted := started_reaches hw env
  have hnone : ∀ {log : List Publication} {preparation : Job.Preparation},
      reports log <+: [] → reports log <+: job.reportsFor preparation := fun h =>
    h.trans List.nil_prefix
  have hafter : ∀ {log log' : List Publication}, reports log = [] →
      reports (log ++ log') = reports log' := by
    intro log log' h
    rw [reports_append, h]
    rfl
  cases preparation with
  | invalid what =>
    refine (hw.finish false (.inr ⟨rfl, rfl⟩)).mono fun log w' h => ?_
    obtain ⟨rfl, hw'⟩ := h
    exact ⟨hw'.attempted, List.nil_prefix, fun message heq => by cases heq⟩
  | exhausted =>
    unfold Job.attempt
    rcases hstart : r.publishJobEvent env .jobStarted "" with ⟨r', _ | caught⟩
    · rw [hstart] at hstarted
      refine hstarted.trans fun log w' hlog => ?_
      have htold := tell_reaches hlog.stands env exhaustedReport
      unfold exhaustedReport at htold
      dsimp only
      split
      next r'' caught htell =>
        rw [htell] at htold
        refine htold.trans fun log' w'' hlog' => ?_
        have hreported : reports (log ++ log') <+: job.reportsFor .exhausted := by
          rw [hafter (hlog.all rfl)]
          exact hlog'.reported
        exact (fails_reaches job _ hlog'.stands hreported).mono fun log'' w₃ h => by
          rwa [List.append_assoc] at h
      next r'' htell =>
        rw [htell] at htold
        refine htold.trans fun log' w'' hlog' => ?_
        have hreported : reports (log ++ log') <+: job.reportsFor .exhausted := by
          rw [hafter (hlog.all rfl)]
          exact hlog'.reported
        exact (fails_reaches job _ (.inl hlog'.stands) hreported).mono fun log'' w₃ h => by
          rwa [List.append_assoc] at h
    · rw [hstart] at hstarted
      exact hstarted.trans fun log w' hlog => fails_reaches job _ hlog.stands (hnone hlog.reported)
  | unusable what =>
    unfold Job.attempt
    rcases hstart : r.publishJobEvent env .jobStarted "" with ⟨r', _ | caught⟩
    · rw [hstart] at hstarted
      exact hstarted.trans fun log w' hlog =>
        fails_reaches job what (.inl hlog.stands) (hnone hlog.reported)
    · rw [hstart] at hstarted
      exact hstarted.trans fun log w' hlog => fails_reaches job _ hlog.stands (hnone hlog.reported)
  | ready =>
    unfold Job.attempt
    rcases hstart : r.publishJobEvent env .jobStarted "" with ⟨r', _ | caught⟩
    · rw [hstart] at hstarted
      refine hstarted.trans fun log w' hlog => ?_
      have hprocessed := process_reaches job env hlog.stands
      have hreported : ∀ {log' : List Publication}, reports log' <+: job.reports →
          reports (log ++ log') <+: job.reportsFor .ready := by
        intro log' h
        rw [hafter (hlog.all rfl)]
        exact h
      have hfails : ∀ {r'' : Reporter} {ending : Ending} (message : String),
          Reaches w' r' r'' (Processed job r'' ending) →
          Reaches w' r' r'' fun log' =>
            Attempted job .ready r'' (some (false, message)) (log ++ log') := by
        intro r'' ending message h
        refine h.trans fun log' w'' hlog' => ?_
        exact (fails_reaches job message hlog'.stands (hreported hlog'.reported)).mono
          fun log'' w₃ h => by rwa [List.append_assoc] at h
      dsimp only
      split
      next r'' hprocess =>
        rw [hprocess] at hprocessed
        refine hprocessed.trans fun log' w'' hlog' => ?_
        obtain ⟨hstands, hall, hsucceeds⟩ := hlog'.succeeded rfl
        refine (hstands.finish true (.inl rfl)).mono fun log'' w₃ h => ?_
        obtain ⟨rfl, hw₃⟩ := h
        rw [List.append_nil]
        refine ⟨hw₃.attempted, hreported hlog'.reported, fun message heq => ⟨rfl, ?_, hsucceeds⟩⟩
        rw [hafter (hlog.all rfl)]
        exact hall
      next r'' status hprocess =>
        rw [hprocess] at hprocessed
        exact hfails _ hprocessed
      next r'' caught hprocess =>
        rw [hprocess] at hprocessed
        exact hfails _ hprocessed
      next r'' hprocess =>
        rw [hprocess] at hprocessed
        refine hprocessed.mono fun log' w'' hlog' => ⟨?_, hreported hlog'.reported, ?_⟩
        · rcases hlog'.stands with hstands | hstands
          · exact ⟨_, hstands, JobStage.noConfusion, fun _ _ heq => by cases heq⟩
          · exact ⟨_, hstands, JobStage.noConfusion, fun _ _ heq => by cases heq⟩
        · intro message heq
          cases heq
    · rw [hstart] at hstarted
      exact hstarted.trans fun log w' hlog => fails_reaches job _ hlog.stands (hnone hlog.reported)

/-- Where an outcome leaves the worker. -/
def Job.Outcome.phase : Job.Outcome → Phase
  | .finished => .top
  | .died => .dead

/-- The end of an execution reports no more of the run. -/
structure Concluded (outcome : Job.Outcome) (log : List Publication) (w : Worker) : Prop where
  phase : w.phase = outcome.phase
  unreported : reports log = []

theorem cancelled_reaches (env : JobEnvironment) (hw : Stands w r .cancelling)
    {outcome : Job.Outcome} (houtcome : outcome =
      if (r.publishJobEvent env .jobCancelled "").2 = none then .finished else .died) :
    Reaches w r (r.publishJobEvent env .jobCancelled "").1 (Concluded outcome) := by
  rw [publishJobEvent_plain env r (by decide)] at houtcome ⊢
  obtain ⟨p, w', lease, hlog, hpublishes, hlive, hreport, hcaught, hphase⟩ := hw.publish env
    .jobCancelled none none none fun e he hstage => .cancelled w e he hstage
  refine ⟨[p], w', hlog, hpublishes, ?_, reports_unreported hreport⟩
  rw [hcaught] at houtcome
  rw [hphase, houtcome]
  cases p.answer <;> rfl

theorem conclude_reaches (env : JobEnvironment) {succeeded : Bool} (message : String)
    (hw : Stands w r (.finishing succeeded)) :
    Reaches w r (Job.conclude env r succeeded message).1
      (Concluded (Job.conclude env r succeeded message).2) := by
  unfold Job.conclude
  by_cases hlost : env.lost = true
  · rw [if_pos hlost]
    obtain ⟨lease, hphase⟩ := hw.phase
    have hlease : w.lease? = some lease := by
      unfold Worker.lease?
      rw [hphase]
    exact ⟨[], _, (List.append_nil _).symm,
      .lose hlease (.internal (.lost _ _ succeeded hphase rfl rfl) (.nil _)), rfl, rfl⟩
  · rw [if_neg hlost]
    set type : EventType := if succeeded then .jobSucceeded else .jobFailed with htype
    obtain ⟨error, hpublish⟩ : ∃ error, r.publishJobEvent env type message =
        r.publish env type none error none := ⟨_, rfl⟩
    rw [hpublish]
    obtain ⟨p, w', lease, hlog, hpublishes, hlive, hreport, hcaught, hphase⟩ := hw.publish env
      type none error none fun e he hstage => htype ▸ .terminal w e succeeded _ he hstage hw.live
    rcases hpublished : r.publish env type none error none with ⟨r', caught⟩
    rw [hpublished] at hlog hcaught hphase
    obtain rfl : caught = p.answer.caught := hcaught
    have hreports := reports_unreported hreport
    cases hanswer : p.answer with
    | accepted =>
      rw [hanswer] at hphase
      exact ⟨[p], w', hlog, hpublishes, hphase, hreports⟩
    | raised what =>
      rw [hanswer] at hphase
      exact ⟨[p], w', hlog, hpublishes, hphase, hreports⟩
    | refused =>
      rw [hanswer] at hphase
      have hcancelled := cancelled_reaches env (r := r') ⟨hlive, lease, hphase⟩ rfl
      have hjoin : ∀ {r'' : Reporter} {outcome : Job.Outcome},
          Reaches w' r' r'' (Concluded outcome) → Reaches w r r'' (Concluded outcome) := by
        intro r'' outcome ⟨log', w'', hlog', hpublishes', h⟩
        refine ⟨[p] ++ log', w'', by rw [hlog', hlog, List.append_assoc],
          hpublishes.trans hpublishes', h.phase, ?_⟩
        rw [reports_append, hreports, h.unreported]
        rfl
      dsimp only [PublishAnswer.caught]
      rcases hcancel : r'.publishJobEvent env .jobCancelled "" with ⟨r'', _ | caught⟩
      · rw [hcancel] at hcancelled
        exact hjoin hcancelled
      · rw [hcancel] at hcancelled
        exact hjoin hcancelled

end Jobs

end Refinement

end DocParser.Platform
