import DocParser.Pipeline.StageEvents
import DocParser.Platform.Worker

/-!
# The publications of a job

What a worker of the platform publishes under one lease. Its log is a word of a small language:
work that stops at the first publication that is not accepted, then an end that is published once,
or twice if the first is refused for a cancellation. `Publishes.works` and `Publishes.numbered` say
this of any worker.
-/

namespace DocParser.Platform

open Pipeline

/-! ## Reports -/

/-- The error of an event, and the last one that a stage has reported. -/
structure EventError where
  code : String
  message : String
  retryable : Bool
  deriving DecidableEq, Repr

/-- A call of the observer: by the pipeline, or by the export that follows it. -/
inductive Report
  | stage (event : StageEvent)
  | exportStarted
  | exportArtifact (kind path : String)
  | exportProgress
  | exportCompleted
  deriving DecidableEq, Repr

namespace Report

def type : Report → EventType
  | stage (.runConfigured _) => .runConfigured
  | stage (.warning _) => .stageWarning
  | stage (.started _) | exportStarted => .stageStarted
  | stage (.progress _) | exportProgress => .stageProgress
  | stage (.artifactReady _) | exportArtifact _ _ => .artifactReady
  | stage (.completed _) | exportCompleted => .stageCompleted
  | stage (.failed _) => .stageFailed

/-- The member `stage` of the event. -/
def stageName : Report → Option String
  | stage (.runConfigured _) => none
  | stage (.warning diagnostic) => some diagnostic.stage
  | stage (.started info) => some info.stage.name
  | stage (.progress info) => some info.stage.name
  | stage (.artifactReady info) => some info.stage.name
  | stage (.completed completed) => some completed.name
  | stage (.failed info) => some info.stage
  | _ => some "export"

def error : Report → Option EventError
  | stage (.failed info) => some ⟨info.code, info.message, info.retryable⟩
  | _ => none

/-- The manifest of an artifact is written before its event is published. -/
def isArtifact : Report → Bool
  | stage (.artifactReady _) | exportArtifact _ _ => true
  | _ => false

end Report

/-! ## Publications -/

/-- How the publication of an event ends. One that raises may or may not have been stored. -/
inductive PublishAnswer
  | accepted
  | refused
  | raised (what : String)
  deriving DecidableEq, Repr

structure Publication where
  event : Event
  error : Option EventError
  report : Option Report
  answer : PublishAnswer
  deriving DecidableEq, Repr

/-! ## What a worker publishes -/

/-- What a worker sees of the answer to a publication. -/
def PublishAnswer.reply : PublishAnswer → Option Bool
  | accepted => some true
  | refused => some false
  | raised _ => none

/-- What a worker makes of the answer. -/
def PublishAnswer.react (answer : PublishAnswer) (w : Worker) (c : Command) : Worker :=
  match answer.reply with
  | some stored => w.receive c (.published stored)
  | none => w.fail c

/-- A worker goes from one state to another and publishes on the way. -/
inductive Publishes : Worker → List Publication → Worker → Prop
  | nil (w : Worker) : Publishes w [] w
  | publish {w w' w'' : Worker} {lease : RedisJobLease} {runId : String} {p : Publication}
      {log : List Publication} : w.Sends (.publish lease runId p.event) w' →
      Publishes (p.answer.react w' (.publish lease runId p.event)) log w'' →
      Publishes w (p :: log) w''
  | internal {w w' w'' : Worker} {log : List Publication} :
      w.Internal w' → Publishes w' log w'' → Publishes w log w''
  /-- The renewal thread finds the lease lost. -/
  | lose {w w' : Worker} {lease : RedisJobLease} {log : List Publication} :
      w.lease? = some lease → Publishes (w.fail (.renew lease)) log w' → Publishes w log w'
  | crash {w w' : Worker} {log : List Publication} :
      Publishes (w.goto .dead) log w' → Publishes w log w'

theorem Publishes.trans {w w' w'' : Worker} {log log' : List Publication}
    (h : Publishes w log w') (h' : Publishes w' log' w'') : Publishes w (log ++ log') w'' := by
  induction h with
  | nil => exact h'
  | publish hsend _ ih => exact .publish hsend (ih h')
  | internal hstep _ ih => exact .internal hstep (ih h')
  | lose hlease _ ih => exact .lose hlease (ih h')
  | crash _ ih => exact .crash (ih h')

/-! ## One publication -/

section Steps

variable {w w' w'' : Worker} {lease : RedisJobLease} {runId : String} {event : Event}
  {e : Execution} {log : List Publication}

/-- The observer after the next event. -/
def WorkerStageObserver.advance (o : WorkerStageObserver) : WorkerStageObserver :=
  { o with sequence := o.sequence + 1 }

/-- The identity, the number and the execution of the next event. -/
structure IsNext (o : WorkerStageObserver) (event : Event) : Prop where
  jobId : event.jobId = o.identity.jobId
  runId : event.runId = o.identity.runId
  attemptId : event.attemptId = o.identity.attemptId
  sequence : event.sequence = o.sequence + 1
  executionId : event.executionId = some o.executionId

/-- Which events belong to a stage of a job. -/
def JobStage.Publishes : JobStage → EventType → Prop
  | .starting, type => type = .jobStarted
  | .processing, type => Worker.isStageEvent type = true
  | .finishing succeeded, type => type = if succeeded then .jobSucceeded else .jobFailed
  | .cancelling, type => type = .jobCancelled

/-- A worker that sends a publication. -/
structure SendsPublication (w : Worker) (e : Execution) (event : Event) (w' : Worker) : Prop where
  phase : w.phase = .running e
  numbered : IsNext e.observer event
  type : e.stage.Publishes event.type
  after : w' = w.goto (.publishing { e with observer := e.observer.advance })

theorem sends_publication (h : w.Sends (.publish lease runId event) w') :
    ∃ e, SendsPublication w e event w' := by
  generalize hc : Command.publish lease runId event = c at h
  cases h with
  | started e hphase hstage =>
    cases hc
    exact ⟨e, hphase, ⟨rfl, rfl, rfl, rfl, rfl⟩, by rw [hstage]; rfl, rfl⟩
  | progress e type stage error hphase hstage htype =>
    cases hc
    exact ⟨e, hphase, ⟨rfl, rfl, rfl, rfl, rfl⟩, by rw [hstage]; exact htype, rfl⟩
  | terminal e succeeded error hphase hstage hlost =>
    cases hc
    exact ⟨e, hphase, ⟨rfl, rfl, rfl, rfl, rfl⟩, by rw [hstage]; rfl, rfl⟩
  | cancelled e hphase hstage =>
    cases hc
    exact ⟨e, hphase, ⟨rfl, rfl, rfl, rfl, rfl⟩, by rw [hstage]; rfl, rfl⟩
  | reclaim | read | acknowledge | acquire | renew => cases hc

theorem react_phase (answer : PublishAnswer) (h : w.phase = .publishing e) :
    (answer.react w (.publish lease runId event)).phase = Worker.afterPublish e answer.reply := by
  unfold PublishAnswer.react
  cases answer.reply with
  | none =>
    unfold Worker.fail
    dsimp only
    rw [h]
    rfl
  | some stored =>
    unfold Worker.receive
    dsimp only
    rw [h]
    rfl

/-- A job goes to its end by a step that no other party sees. -/
theorem internal_running (h : w.Internal w') (hphase : w.phase = .running e) :
    w'.phase = .dead ∧ (∃ succeeded, e.stage = .finishing succeeded) ∨
    ∃ succeeded, w'.phase = .running { e with stage := .finishing succeeded } ∧
      (e.stage = .processing ∨ e.stage = .starting ∧ succeeded = false) := by
  cases h with
  | observe fields lease identity hleased _ =>
    rw [hphase] at hleased
    cases hleased
  | skip fields lease hleased =>
    rw [hphase] at hleased
    cases hleased
  | finish e' succeeded hrunning hstage =>
    obtain rfl := Phase.running.inj (hphase.symm.trans hrunning)
    exact .inr ⟨succeeded, rfl, hstage⟩
  | lost e' succeeded hrunning hstage _ =>
    obtain rfl := Phase.running.inj (hphase.symm.trans hrunning)
    exact .inl ⟨rfl, succeeded, hstage⟩

/-- Under a lease that is over nothing is published. -/
theorem Publishes.over (h : Publishes w log w') (hover : w.phase = .top ∨ w.phase = .dead) :
    log = [] ∧ (w'.phase = w.phase ∨ w'.phase = .dead) := by
  induction h with
  | nil => exact ⟨rfl, .inl rfl⟩
  | publish hsend _ _ =>
    obtain ⟨e, hsends⟩ := sends_publication hsend
    have hphase := hsends.phase
    rcases hover with hover | hover
    · rw [hover] at hphase
      cases hphase
    · rw [hover] at hphase
      cases hphase
  | internal hstep _ _ =>
    cases hstep with
    | observe _ _ _ hphase _ | skip _ _ hphase | finish _ _ hphase _ | lost _ _ hphase _ _ =>
      rcases hover with hover | hover
      · rw [hover] at hphase
        cases hphase
      · rw [hover] at hphase
        cases hphase
  | lose _ _ ih => exact ih hover
  | crash _ ih =>
    obtain ⟨hlog, hphase | hphase⟩ := ih (.inr rfl)
    · exact ⟨hlog, .inr hphase⟩
    · exact ⟨hlog, .inr hphase⟩

theorem afterPublish_cases (e : Execution) (reply : Option Bool) :
    (∃ stage, Worker.afterPublish e reply = .running { e with stage := stage }) ∨
      Worker.afterPublish e reply = .top ∨ Worker.afterPublish e reply = .dead := by
  unfold Worker.afterPublish
  split
  · exact .inl ⟨_, rfl⟩
  · exact .inl ⟨_, rfl⟩
  · exact .inr (.inl rfl)
  · exact .inr (.inl rfl)
  · exact .inl ⟨_, rfl⟩
  · exact .inl ⟨_, rfl⟩
  · exact .inl ⟨_, rfl⟩
  · exact .inr (.inr rfl)
  · exact .inr (.inr rfl)

end Steps

/-! ## The language of the stages -/

/-- Publications from a cancellation on. -/
inductive Cancels : List Publication → Phase → Prop
  | waiting (e : Execution) : e.stage = .cancelling → Cancels [] (.running e)
  | dead : Cancels [] .dead
  | told (p : Publication) : JobStage.cancelling.Publishes p.event.type →
      p.answer = .accepted → Cancels [p] .top
  | lost (p : Publication) : JobStage.cancelling.Publishes p.event.type → Cancels [p] .dead

/-- Publications from the end of a job on. -/
inductive Finishes (succeeded : Bool) : List Publication → Phase → Prop
  | waiting (e : Execution) : e.stage = .finishing succeeded → Finishes succeeded [] (.running e)
  | dead : Finishes succeeded [] .dead
  | told (p : Publication) : (JobStage.finishing succeeded).Publishes p.event.type →
      p.answer = .accepted → Finishes succeeded [p] .top
  | lost (p : Publication) : (JobStage.finishing succeeded).Publishes p.event.type →
      p.answer ≠ .refused → Finishes succeeded [p] .dead
  | refused (p : Publication) (log : List Publication) (final : Phase) :
      (JobStage.finishing succeeded).Publishes p.event.type → p.answer = .refused →
      Cancels log final → Finishes succeeded (p :: log) final

/-- Publications of a job that has not ended. -/
inductive Works : JobStage → List Publication → Phase → Prop
  | waiting (e : Execution) : Works e.stage [] (.running e)
  | dead (stage : JobStage) : Works stage [] .dead
  | accepted (stage : JobStage) (p : Publication) (log : List Publication) (final : Phase) :
      stage.Publishes p.event.type → p.answer = .accepted → Works .processing log final →
      Works stage (p :: log) final
  | stopped (stage : JobStage) (p : Publication) (log : List Publication) (final : Phase) :
      stage.Publishes p.event.type → p.answer ≠ .accepted → Finishes false log final →
      Works stage (p :: log) final
  | finished (stage : JobStage) (succeeded : Bool) (log : List Publication) (final : Phase) :
      (stage = .starting → succeeded = false) → Finishes succeeded log final →
      Works stage log final

section Language

variable {w w' : Worker} {e : Execution} {log : List Publication}

/-- What is published from a running job, and the phase after the answer. -/
theorem publish_running {lease : RedisJobLease} {runId : String} {p : Publication}
    (hsend : w.Sends (.publish lease runId p.event) w') (hphase : w.phase = .running e) :
    IsNext e.observer p.event ∧ e.stage.Publishes p.event.type ∧
      (p.answer.react w' (.publish lease runId p.event)).phase =
        Worker.afterPublish { e with observer := e.observer.advance } p.answer.reply := by
  obtain ⟨e', hsends⟩ := sends_publication hsend
  obtain rfl := Phase.running.inj (hphase.symm.trans hsends.phase)
  exact ⟨hsends.numbered, hsends.type, react_phase p.answer (by rw [hsends.after]; rfl)⟩

theorem Publishes.cancels (h : Publishes w log w') (hphase : w.phase = .running e)
    (hstage : e.stage = .cancelling) : Cancels log w'.phase := by
  induction h with
  | nil w => exact hphase ▸ .waiting e hstage
  | @publish w w' w'' lease runId p log hsend hrest _ =>
    obtain ⟨-, htype, hreact⟩ := publish_running hsend hphase
    unfold Worker.afterPublish at hreact
    dsimp only at hreact
    rw [hstage] at htype hreact
    cases hanswer : p.answer with
    | accepted =>
      rw [hanswer] at hreact hrest
      obtain ⟨rfl, hfinal | hfinal⟩ := hrest.over (.inl hreact)
      · exact (hfinal.trans hreact) ▸ .told p htype hanswer
      · exact hfinal ▸ .lost p htype
    | refused | raised _ =>
      rw [hanswer] at hreact hrest
      obtain ⟨rfl, hfinal | hfinal⟩ := hrest.over (.inr hreact)
      · exact (hfinal.trans hreact) ▸ .lost p htype
      · exact hfinal ▸ .lost p htype
  | internal hstep _ _ =>
    rcases internal_running hstep hphase with ⟨-, succeeded, hfinishing⟩ |
      ⟨succeeded, -, hprocessing | ⟨hstarting, -⟩⟩
    · rw [hstage] at hfinishing
      cases hfinishing
    · rw [hstage] at hprocessing
      cases hprocessing
    · rw [hstage] at hstarting
      cases hstarting
  | lose _ _ ih => exact ih hphase
  | crash hrest _ =>
    obtain ⟨rfl, hfinal | hfinal⟩ := hrest.over (.inr rfl)
    · exact hfinal ▸ .dead
    · exact hfinal ▸ .dead

theorem Publishes.finishes {succeeded : Bool} (h : Publishes w log w')
    (hphase : w.phase = .running e) (hstage : e.stage = .finishing succeeded) :
    Finishes succeeded log w'.phase := by
  induction h with
  | nil w => exact hphase ▸ .waiting e hstage
  | @publish w w' w'' lease runId p log hsend hrest _ =>
    obtain ⟨-, htype, hreact⟩ := publish_running hsend hphase
    unfold Worker.afterPublish at hreact
    dsimp only at hreact
    rw [hstage] at htype hreact
    cases hanswer : p.answer with
    | accepted =>
      rw [hanswer] at hreact hrest
      obtain ⟨rfl, hfinal | hfinal⟩ := hrest.over (.inl hreact)
      · exact (hfinal.trans hreact) ▸ .told p htype hanswer
      · exact hfinal ▸ .lost p htype (by rw [hanswer]; decide)
    | refused =>
      rw [hanswer] at hreact hrest
      exact .refused p log _ htype hanswer (hrest.cancels hreact rfl)
    | raised what =>
      rw [hanswer] at hreact hrest
      have hnot : p.answer ≠ .refused := by
        rw [hanswer]
        exact PublishAnswer.noConfusion
      obtain ⟨rfl, hfinal | hfinal⟩ := hrest.over (.inr hreact)
      · exact (hfinal.trans hreact) ▸ .lost p htype hnot
      · exact hfinal ▸ .lost p htype hnot
  | internal hstep hrest _ =>
    rcases internal_running hstep hphase with ⟨hdead, -⟩ |
      ⟨_, -, hprocessing | ⟨hstarting, -⟩⟩
    · obtain ⟨rfl, hfinal | hfinal⟩ := hrest.over (.inr hdead)
      · exact (hfinal.trans hdead) ▸ .dead
      · exact hfinal ▸ .dead
    · rw [hstage] at hprocessing
      cases hprocessing
    · rw [hstage] at hstarting
      cases hstarting
  | lose _ _ ih => exact ih hphase
  | crash hrest _ =>
    obtain ⟨rfl, hfinal | hfinal⟩ := hrest.over (.inr rfl)
    · exact hfinal ▸ .dead
    · exact hfinal ▸ .dead

/-- **The language of a job.** -/
theorem Publishes.works (h : Publishes w log w') (hphase : w.phase = .running e)
    (hstage : e.stage = .starting ∨ e.stage = .processing) :
    Works e.stage log w'.phase := by
  induction h generalizing e with
  | nil w => exact hphase ▸ .waiting e
  | @publish w w' w'' lease runId p log hsend hrest ih =>
    obtain ⟨-, htype, hreact⟩ := publish_running hsend hphase
    unfold Worker.afterPublish at hreact
    dsimp only at hreact
    cases hanswer : p.answer with
    | accepted =>
      have hnext : (p.answer.react w' (.publish lease runId p.event)).phase = .running
          { e with observer := e.observer.advance, stage := .processing } := by
        rw [hanswer] at hreact ⊢
        rcases hstage with hstage | hstage <;> rw [hstage] at hreact <;> exact hreact
      exact .accepted _ p log _ htype hanswer (ih hnext (.inr rfl))
    | refused | raised _ =>
      have hnext : (p.answer.react w' (.publish lease runId p.event)).phase = .running
          { e with observer := e.observer.advance, stage := .finishing false } := by
        rw [hanswer] at hreact ⊢
        rcases hstage with hstage | hstage <;> rw [hstage] at hreact <;> exact hreact
      exact .stopped _ p log _ htype (by rw [hanswer]; exact PublishAnswer.noConfusion)
        (hrest.finishes hnext rfl)
  | internal hstep hrest _ =>
    rcases internal_running hstep hphase with ⟨-, succeeded, hfinishing⟩ |
      ⟨succeeded, hnext, hprocessing | ⟨-, hfailed⟩⟩
    · rcases hstage with hstage | hstage
      · rw [hstage] at hfinishing
        cases hfinishing
      · rw [hstage] at hfinishing
        cases hfinishing
    · refine .finished _ succeeded _ _ (fun hstarting => ?_) (hrest.finishes hnext rfl)
      rw [hprocessing] at hstarting
      cases hstarting
    · exact .finished _ succeeded _ _ (fun _ => hfailed) (hrest.finishes hnext rfl)
  | lose _ _ ih => exact ih hphase hstage
  | crash hrest _ =>
    obtain ⟨rfl, hfinal | hfinal⟩ := hrest.over (.inr rfl)
    · exact hfinal ▸ .dead _
    · exact hfinal ▸ .dead _

theorem IsNext.advance {o : WorkerStageObserver} {i : Nat} {event : Event}
    (h : IsNext { o.advance with sequence := o.advance.sequence + i } event) :
    IsNext { o with sequence := o.sequence + (i + 1) } event := by
  refine ⟨h.jobId, h.runId, h.attemptId, h.sequence.trans ?_, h.executionId⟩
  show o.sequence + 1 + i + 1 = o.sequence + (i + 1) + 1
  omega

/-- The events of a job are numbered one after the other, whatever becomes of them. -/
theorem Publishes.numbered (h : Publishes w log w') (hphase : w.phase = .running e) :
    ∀ i p, log[i]? = some p →
      IsNext { e.observer with sequence := e.observer.sequence + i } p.event := by
  induction h generalizing e with
  | nil w =>
    intro i p hp
    cases hp
  | @publish w w' w'' lease runId p log hsend hrest ih =>
    obtain ⟨hnumbered, -, hreact⟩ := publish_running hsend hphase
    intro i q hq
    cases i with
    | zero =>
      obtain rfl := Option.some.inj hq
      exact hnumbered
    | succ i =>
      have hq' : log[i]? = some q := hq
      rcases afterPublish_cases { e with observer := e.observer.advance } p.answer.reply with
        ⟨stage, hnext⟩ | hover
      · exact (ih (hreact.trans hnext) i q hq').advance
      · obtain ⟨rfl, -⟩ := hrest.over (hover.imp hreact.trans hreact.trans)
        cases hq'
  | internal hstep hrest ih =>
    rcases internal_running hstep hphase with ⟨hdead, -⟩ | ⟨succeeded, hnext, -⟩
    · obtain ⟨rfl, -⟩ := hrest.over (.inr hdead)
      intro i p hp
      cases hp
    · have hrun := ih hnext
      exact hrun
  | lose _ _ ih => exact ih hphase
  | crash hrest _ =>
    obtain ⟨rfl, -⟩ := hrest.over (.inr rfl)
    intro i p hp
    cases hp

/-- What may follow a publication: only the end of a failed job if it was not accepted, and only
the cancellation if it was the end and was refused. -/
def Publication.Precedes (p q : Publication) : Prop :=
  (p.answer ≠ .accepted → q.event.type = .jobFailed ∨ q.event.type = .jobCancelled) ∧
    (p.event.type.isTerminal = true → p.answer = .refused ∧ q.event.type = .jobCancelled)

/-- A word of the language, as a reader of the log sees it. -/
structure Ordered (log : List Publication) (final : Phase) : Prop where
  order : log.Pairwise Publication.Precedes
  ended : final = .top → ∃ before p, log = before ++ [p] ∧ p.event.type.isTerminal = true ∧
    p.answer = .accepted
  cancelled : ∀ q ∈ log, q.event.type = .jobCancelled →
    ∃ p ∈ log, (p.event.type = .jobSucceeded ∨ p.event.type = .jobFailed) ∧ p.answer = .refused

variable {final : Phase} {stage : JobStage} {succeeded : Bool}

theorem Cancels.type (h : Cancels log final) {q : Publication} (hq : q ∈ log) :
    q.event.type = .jobCancelled := by
  cases h with
  | waiting | dead => cases hq
  | told p htype | lost p htype =>
    obtain rfl := List.mem_singleton.mp hq
    exact htype

theorem Cancels.ended (h : Cancels log .top) :
    ∃ p, log = [p] ∧ p.event.type = .jobCancelled ∧ p.answer = .accepted := by
  cases h with
  | told p htype hanswer => exact ⟨p, rfl, htype, hanswer⟩

theorem finishing_type {type : EventType} (h : (JobStage.finishing succeeded).Publishes type) :
    type.isTerminal = true ∧ (type = .jobSucceeded ∨ type = .jobFailed) ∧
      (type = .jobSucceeded → succeeded = true) ∧
      (succeeded = false → type = .jobFailed) := by
  obtain rfl : type = if succeeded then .jobSucceeded else .jobFailed := h
  cases succeeded <;> decide

theorem Ordered.nil (hfinal : final ≠ .top) : Ordered [] final :=
  ⟨.nil, fun h => absurd h hfinal, fun _ hq => absurd hq List.not_mem_nil⟩

/-- One more publication before the end. -/
theorem Ordered.cons {p : Publication} (h : Ordered log final)
    (hquiet : p.event.type.isTerminal = false)
    (hafter : p.answer ≠ .accepted → ∀ q ∈ log,
      q.event.type = .jobFailed ∨ q.event.type = .jobCancelled) : Ordered (p :: log) final := by
  refine ⟨List.pairwise_cons.mpr ⟨fun q hq => ⟨fun hnot => hafter hnot q hq, fun hend => ?_⟩,
    h.order⟩, fun hfinal => ?_, fun q hq hcancelled => ?_⟩
  · rw [hquiet] at hend
    cases hend
  · obtain ⟨before, last, rfl, hlast⟩ := h.ended hfinal
    exact ⟨p :: before, last, rfl, hlast⟩
  · rcases List.mem_cons.mp hq with rfl | hq
    · rw [hcancelled] at hquiet
      cases hquiet
    · obtain ⟨first, hfirst, hrefused⟩ := h.cancelled q hq hcancelled
      exact ⟨first, List.mem_cons_of_mem _ hfirst, hrefused⟩

theorem Finishes.ordered (h : Finishes succeeded log final) : Ordered log final := by
  cases h with
  | waiting | dead => exact .nil Phase.noConfusion
  | told p htype hanswer =>
    obtain ⟨hterminal, hend, -⟩ := finishing_type htype
    refine ⟨List.pairwise_singleton _ _, fun _ => ⟨[], p, rfl, hterminal, hanswer⟩,
      fun q hq hcancelled => ?_⟩
    obtain rfl := List.mem_singleton.mp hq
    rw [hcancelled] at hend
    rcases hend with hend | hend <;> cases hend
  | lost p htype hanswer =>
    obtain ⟨-, hend, -⟩ := finishing_type htype
    refine ⟨List.pairwise_singleton _ _, Phase.noConfusion, fun q hq hcancelled => ?_⟩
    obtain rfl := List.mem_singleton.mp hq
    rw [hcancelled] at hend
    rcases hend with hend | hend <;> cases hend
  | refused p log final htype hanswer hcancels =>
    obtain ⟨hterminal, hend, -⟩ := finishing_type htype
    refine ⟨List.pairwise_cons.mpr ⟨fun q hq => ?_, ?_⟩, fun hfinal => ?_,
      fun q _ _ => ⟨p, List.mem_cons_self, hend, hanswer⟩⟩
    · exact ⟨fun _ => .inr (hcancels.type hq), fun _ => ⟨hanswer, hcancels.type hq⟩⟩
    · cases hcancels with
      | waiting | dead => exact .nil
      | told q | lost q => exact List.pairwise_singleton _ _
    · obtain ⟨q, rfl, htype', hanswer'⟩ := Cancels.ended (hfinal ▸ hcancels)
      exact ⟨[p], q, rfl, htype' ▸ rfl, hanswer'⟩

/-- The end of a failed job. -/
theorem Finishes.type (h : Finishes succeeded log final) {q : Publication} (hq : q ∈ log) :
    (q.event.type = .jobSucceeded → succeeded = true) ∧
      (succeeded = false → q.event.type = .jobFailed ∨ q.event.type = .jobCancelled) := by
  have hfirst : ∀ {p : Publication}, (JobStage.finishing succeeded).Publishes p.event.type →
      (p.event.type = .jobSucceeded → succeeded = true) ∧
        (succeeded = false → p.event.type = .jobFailed ∨ p.event.type = .jobCancelled) :=
    fun htype => ⟨(finishing_type htype).2.2.1, fun h => .inl ((finishing_type htype).2.2.2 h)⟩
  cases h with
  | waiting | dead => cases hq
  | told p htype | lost p htype =>
    obtain rfl := List.mem_singleton.mp hq
    exact hfirst htype
  | refused p log final htype hanswer hcancels =>
    rcases List.mem_cons.mp hq with rfl | hq
    · exact hfirst htype
    · have hcancelled := hcancels.type hq
      refine ⟨fun hsucceeded => ?_, fun _ => .inr hcancelled⟩
      rw [hcancelled] at hsucceeded
      cases hsucceeded

/-- Before the end of a job. -/
def JobStage.IsOpen (stage : JobStage) : Prop := stage = .starting ∨ stage = .processing

theorem JobStage.IsOpen.quiet (hopen : stage.IsOpen) {type : EventType}
    (h : stage.Publishes type) : type.isTerminal = false := by
  rcases hopen with rfl | rfl
  · obtain rfl : type = .jobStarted := h
    rfl
  · have htype : Worker.isStageEvent type = true := h
    cases type <;> first | rfl | cases htype

theorem Works.ordered (h : Works stage log final) (hopen : stage.IsOpen) : Ordered log final := by
  induction h with
  | waiting | dead => exact .nil Phase.noConfusion
  | accepted stage p log final htype hanswer _ ih =>
    exact (ih (.inr rfl)).cons (hopen.quiet htype) fun hnot => absurd hanswer hnot
  | stopped stage p log final htype _ hfinishes =>
    exact hfinishes.ordered.cons (hopen.quiet htype) fun _ q hq => (hfinishes.type hq).2 rfl
  | finished stage succeeded log final _ hfinishes => exact hfinishes.ordered

/-- A job that is not over has published no end. -/
theorem Finishes.nil_of_running (h : Finishes succeeded log (.running e))
    (hstage : e.stage ≠ .cancelling) : log = [] := by
  cases h with
  | waiting => rfl
  | refused p log _ _ _ hcancels =>
    cases hcancels with
    | waiting _ hcancelling => exact absurd hcancelling hstage

theorem Works.quiet (h : Works stage log (.running e)) (hopen : stage.IsOpen)
    (hstage : e.stage ≠ .cancelling) : ∀ p ∈ log, p.event.type.isTerminal = false := by
  generalize hfinal : Phase.running e = final at h
  induction h with
  | waiting | dead => exact List.forall_mem_nil _
  | accepted stage p log final htype _ _ ih =>
    exact List.forall_mem_cons.mpr ⟨hopen.quiet htype, ih (.inr rfl) hfinal⟩
  | stopped stage p log final htype _ hfinishes =>
    subst hfinal
    obtain rfl := hfinishes.nil_of_running hstage
    exact List.forall_mem_cons.mpr ⟨hopen.quiet htype, List.forall_mem_nil _⟩
  | finished stage succeeded log final _ hfinishes =>
    subst hfinal
    obtain rfl := hfinishes.nil_of_running hstage
    exact List.forall_mem_nil _

end Language

end DocParser.Platform
