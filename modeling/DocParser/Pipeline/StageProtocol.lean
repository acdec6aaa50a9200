import DocParser.Pipeline.StageEvents
import Mathlib.Logic.Function.Basic

/-!
# The protocol of stage events

What an observer may rely on, as a monitor that reads a run: the phase of each stage, whether the
renderer and the extractor were asked for the whole document, and the failure that was reported.
`Monitor.protocol` says of the events of a run what the monitor enforces.
-/

namespace DocParser.Pipeline

open Emission

/-- The events among the observations of a run. -/
def events (trace : List Observation) : List StageEvent :=
  trace.filterMap fun
    | .event event => some event
    | .call _ => none

/-! ## The monitor -/

inductive Phase
  | idle
  | running (total last : Int)
  | done
  deriving DecidableEq, Repr

/-- The stage whose phase an event changes. -/
def StageEvent.stage : StageEvent → Option Stage
  | .started info => some info.stage
  | .progress info => some info.stage
  | .completed stage => some stage
  | _ => none

def Phase.next : Phase → StageEvent → Option Phase
  | .idle, .started info => some (.running info.total 0)
  | .running total last, .progress info =>
    if info.total = total ∧ last ≤ info.completed ∧ info.completed ≤ total then
      some (.running total info.completed)
    else none
  | .running _ _, .completed _ => some .done
  | _, _ => none

theorem Phase.next_progress {total last : Int} {info : StageProgressInfo} {phase : Phase}
    (h : (Phase.running total last).next (.progress info) = some phase) :
    (info.total = total ∧ last ≤ info.completed ∧ info.completed ≤ total) ∧
      phase = .running total info.completed := by
  have h' : (if info.total = total ∧ last ≤ info.completed ∧ info.completed ≤ total then
      some (Phase.running total info.completed) else none) = some phase := h
  split_ifs at h' with hcheck
  exact ⟨hcheck, (Option.some.inj h').symm⟩

/-- The phase of one stage, which the events of other stages leave alone. -/
def phaseStep (stage : Stage) (phase : Phase) (event : StageEvent) : Option Phase :=
  if event.stage = some stage then phase.next event else some phase

structure Monitor where
  phase : Stage → Phase
  wholeRender : Bool
  wholeText : Bool
  failure : Option String

namespace Monitor

def initial : Monitor := ⟨fun _ => .idle, false, false, none⟩

def enter (m : Monitor) (stage : Stage) (phase : Phase) : Monitor :=
  { m with phase := Function.update m.phase stage phase }

def observe (m : Monitor) (event : StageEvent) : Option Monitor :=
  match event.stage with
  | some stage => ((m.phase stage).next event).map (m.enter stage)
  | none =>
    match event with
    | .failed info => some { m with failure := some info.code }
    | _ => some m

/-- Nothing may follow a failure, and no document is rendered or read as a whole twice. -/
def step (m : Monitor) (o : Observation) : Option Monitor :=
  match m.failure, o with
  | some _, _ => none
  | none, .event event => m.observe event
  | none, .call .renderPages => if m.wholeRender then none else some { m with wholeRender := true }
  | none, .call .extractNativeText => if m.wholeText then none else some { m with wholeText := true }
  | none, .call _ => some m

section Steps

variable {m : Monitor} {stage other : Stage} {phase phase' : Phase}

@[simp] theorem enter_phase_self : (m.enter stage phase).phase stage = phase := by
  unfold enter
  exact Function.update_self _ _ _

theorem enter_phase_of_ne (h : other ≠ stage) : (m.enter stage phase).phase other = m.phase other := by
  unfold enter
  exact Function.update_of_ne h _ _

@[simp] theorem enter_enter : (m.enter stage phase).enter stage phase' = m.enter stage phase' := by
  unfold enter
  simp only [Function.update_idem]

@[simp] theorem enter_failure : (m.enter stage phase).failure = m.failure := rfl

@[simp] theorem enter_wholeRender : (m.enter stage phase).wholeRender = m.wholeRender := rfl

@[simp] theorem enter_wholeText : (m.enter stage phase).wholeText = m.wholeText := rfl

theorem enter_self (h : m.phase stage = phase) : m.enter stage phase = m := by
  subst h
  unfold enter
  rw [Function.update_eq_self]

/-- What the monitor does when it reads on. -/
inductive Reads : Monitor → Observation → Monitor → Prop
  | moved {m : Monitor} {event : StageEvent} {stage : Stage} {phase : Phase} :
    event.stage = some stage → (m.phase stage).next event = some phase →
      Reads m (.event event) (m.enter stage phase)
  | ignored {m : Monitor} {event : StageEvent} : event.stage = none →
      (∀ info, event ≠ .failed info) → Reads m (.event event) m
  | failed {m : Monitor} {info : StageFailedInfo} :
      Reads m (.event (.failed info)) { m with failure := some info.code }
  | rendered {m : Monitor} : m.wholeRender = false →
      Reads m (.call .renderPages) { m with wholeRender := true }
  | extracted {m : Monitor} : m.wholeText = false →
      Reads m (.call .extractNativeText) { m with wholeText := true }
  | paged {m : Monitor} {call : SourceCall} : call ≠ .renderPages → call ≠ .extractNativeText →
      Reads m (.call call) m

theorem reads_of_observe {event : StageEvent} {m' : Monitor} (h : m.observe event = some m') :
    Reads m (.event event) m' := by
  unfold observe at h
  cases hstage : event.stage with
  | some stage =>
    rw [hstage] at h
    obtain ⟨phase, hnext, rfl⟩ := Option.map_eq_some_iff.mp h
    exact .moved hstage hnext
  | none =>
    rw [hstage] at h
    dsimp only at h
    split at h
    · obtain rfl := Option.some.inj h
      exact .failed
    next hne =>
      obtain rfl := Option.some.inj h
      exact .ignored hstage hne

/-- **Inversion.** The monitor has seen no failure yet, and reads on in one of six ways. -/
theorem reads_of_step {o : Observation} {m' : Monitor} (h : m.step o = some m') :
    m.failure = none ∧ Reads m o m' := by
  unfold step at h
  split at h
  · cases h
  next hlive => exact ⟨hlive, reads_of_observe h⟩
  next hlive =>
    split_ifs at h with hflag
    obtain rfl := Option.some.inj h
    exact ⟨hlive, .rendered (Bool.not_eq_true _ ▸ hflag)⟩
  next hlive =>
    split_ifs at h with hflag
    obtain rfl := Option.some.inj h
    exact ⟨hlive, .extracted (Bool.not_eq_true _ ▸ hflag)⟩
  next call hrender hextract hlive =>
    obtain rfl := Option.some.inj h
    exact ⟨hlive, .paged hrender hextract⟩

theorem step_event {event : StageEvent} (hlive : m.failure = none) :
    m.step (.event event) = m.observe event := by
  unfold step
  rw [hlive]

/-! ## One stage -/

/-- What the monitor reads moves every stage by its own phase step. -/
theorem Reads.phaseStep {o : Observation} {m' : Monitor} (h : Reads m o m') (stage : Stage) :
    run (phaseStep stage) (events [o]) (m.phase stage) = some (m'.phase stage) := by
  cases h with
  | @moved event own phase hown hnext =>
    show (Pipeline.phaseStep stage (m.phase stage) event).bind _ = _
    unfold Pipeline.phaseStep
    rw [hown]
    by_cases heq : own = stage
    · subst heq
      rw [if_pos rfl, hnext, enter_phase_self]
      rfl
    · rw [if_neg (by simpa using heq), enter_phase_of_ne (Ne.symm heq)]
      rfl
  | @ignored event hnone _ =>
    show (Pipeline.phaseStep stage (m.phase stage) event).bind _ = _
    unfold Pipeline.phaseStep
    rw [hnone, if_neg (by simp)]
    rfl
  | failed => rfl
  | rendered _ => rfl
  | extracted _ => rfl
  | paged _ _ => rfl

/-- **Projection.** The run of a monitor is a run of each stage over the events. -/
theorem run_phaseStep {trace : List Observation} {m m' : Monitor}
    (h : run step trace m = some m') (stage : Stage) :
    run (phaseStep stage) (events trace) (m.phase stage) = some (m'.phase stage) := by
  refine run_invariant step (I := fun trace m' =>
    run (phaseStep stage) (events trace) (m.phase stage) = some (m'.phase stage)) rfl
    (fun trace t o t' _ ih hstep => ?_) h
  have happend : events (trace ++ [o]) = events trace ++ events [o] := List.filterMap_append
  rw [happend, run_append, ih]
  exact (reads_of_step hstep).2.phaseStep stage

end Steps

end Monitor

/-! ## The events of one stage -/

section OneStage

def isStart (stage : Stage) : StageEvent → Bool
  | .started info => info.stage == stage
  | _ => false

def isCompletion (stage : Stage) : StageEvent → Bool
  | .completed completed => completed == stage
  | _ => false

variable {stage : Stage} {trace : List StageEvent}

/-- What the events say of a stage in a phase. -/
structure Saw (stage : Stage) (trace : List StageEvent) (phase : Phase) : Prop where
  starts : trace.countP (isStart stage) = if phase = .idle then 0 else 1
  completions : trace.countP (isCompletion stage) = if phase = .done then 1 else 0
  silent : phase = .idle → ∀ info, .progress info ∈ trace → info.stage ≠ stage
  running : ∀ total last, phase = .running total last →
    (∃ backend, .started ⟨stage, backend, total⟩ ∈ trace) ∧
      ∀ info, .progress info ∈ trace → info.stage = stage → info.completed ≤ last

theorem saw_nil : Saw stage [] .idle where
  starts := rfl
  completions := rfl
  silent _ _ h := by cases h
  running _ _ h := by cases h

/-- An event of another stage changes nothing. -/
theorem Saw.other {phase : Phase} {event : StageEvent} (h : Saw stage trace phase)
    (hevent : event.stage ≠ some stage) : Saw stage (trace ++ [event]) phase := by
  have hprogress : ∀ info, .progress info ∈ trace ++ [event] → info.stage = stage →
      .progress info ∈ trace := by
    intro info hinfo hstage
    rcases List.mem_append.mp hinfo with hold | hnew
    · exact hold
    · obtain rfl := List.mem_singleton.mp hnew
      exact absurd (congrArg some hstage) hevent
  refine ⟨?_, ?_, ?_, ?_⟩
  · rw [List.countP_append, h.starts]
    cases event <;> simp_all [isStart, StageEvent.stage]
  · rw [List.countP_append, h.completions]
    cases event <;> simp_all [isCompletion, StageEvent.stage]
  · exact fun hidle info hinfo hstage => h.silent hidle info (hprogress info hinfo hstage) hstage
  · intro total last hphase
    obtain ⟨⟨backend, hstarted⟩, hlast⟩ := h.running total last hphase
    exact ⟨⟨backend, List.mem_append_left _ hstarted⟩,
      fun info hinfo hstage => hlast info (hprogress info hinfo hstage) hstage⟩

/-- An event of the stage itself. -/
theorem Saw.own {phase phase' : Phase} {event : StageEvent} (h : Saw stage trace phase)
    (hevent : event.stage = some stage) (hnext : phase.next event = some phase') :
    Saw stage (trace ++ [event]) phase' := by
  cases phase with
  | idle =>
    cases event with
    | started info =>
      obtain rfl := Option.some.inj hnext
      obtain rfl := Option.some.inj hevent
      refine ⟨?_, ?_, (fun hidle => by cases hidle), ?_⟩
      · rw [List.countP_append, h.starts]
        simp [isStart]
      · rw [List.countP_append, h.completions]
        simp [isCompletion]
      · rintro total last ⟨⟩
        refine ⟨⟨info.backend, List.mem_append_right _ (List.mem_singleton.mpr rfl)⟩, ?_⟩
        intro other hother hstage
        rcases List.mem_append.mp hother with hold | hnew
        · exact absurd hstage (h.silent rfl other hold)
        · cases List.mem_singleton.mp hnew
    | _ => cases hnext
  | running total last =>
    cases event with
    | progress info =>
      obtain ⟨hcheck, rfl⟩ := Phase.next_progress hnext
      obtain rfl := Option.some.inj hevent
      refine ⟨?_, ?_, (fun hidle => by cases hidle), ?_⟩
      · rw [List.countP_append, h.starts]
        simp [isStart]
      · rw [List.countP_append, h.completions]
        simp [isCompletion]
      · rintro _ _ ⟨⟩
        obtain ⟨⟨backend, hstarted⟩, hlast⟩ := h.running total last rfl
        refine ⟨⟨backend, List.mem_append_left _ hstarted⟩, ?_⟩
        intro other hother hstage
        rcases List.mem_append.mp hother with hold | hnew
        · exact (hlast other hold hstage).trans hcheck.2.1
        · cases List.mem_singleton.mp hnew
          exact le_refl _
    | completed own =>
      obtain rfl := Option.some.inj hnext
      obtain rfl := Option.some.inj hevent
      refine ⟨?_, ?_, (fun hidle => by cases hidle), (fun _ _ hphase => by cases hphase)⟩
      · rw [List.countP_append, h.starts]
        simp [isStart]
      · rw [List.countP_append, h.completions]
        simp [isCompletion]
    | _ => cases hnext
  | done => cases event <;> cases hnext

theorem saw_of_run {phase : Phase} (h : run (phaseStep stage) trace .idle = some phase) :
    Saw stage trace phase := by
  refine run_invariant (phaseStep stage) (I := Saw stage) saw_nil
    (fun trace t event t' _ hsaw hstep => ?_) h
  unfold phaseStep at hstep
  split_ifs at hstep with hevent
  · exact hsaw.own hevent hstep
  · obtain rfl := Option.some.inj hstep
    exact hsaw.other hevent

end OneStage

/-! ## Failures and calls -/

section Failures

/-- A failure that was reported is the last observation, and the only failure. -/
def FailureSaw (trace : List Observation) (m : Monitor) : Prop :=
  match m.failure with
  | none => ∀ info, .event (.failed info) ∉ trace
  | some code => ∃ before info, trace = before ++ [.event (.failed info)] ∧ info.code = code ∧
      ∀ other, .event (.failed other) ∉ before

theorem failureSaw_of_run {trace : List Observation} {m : Monitor}
    (h : run Monitor.step trace .initial = some m) : FailureSaw trace m := by
  refine run_invariant Monitor.step (I := FailureSaw) ?_ (fun trace t o t' _ hsaw hstep => ?_) h
  · exact fun _ h => by cases h
  obtain ⟨hlive, hreads⟩ := Monitor.reads_of_step hstep
  have hnone : ∀ info, .event (.failed info) ∉ trace := by
    unfold FailureSaw at hsaw
    rw [hlive] at hsaw
    exact hsaw
  -- only a failure itself ends the trace with one
  have hquiet : t'.failure = none → (∀ info, o ≠ .event (.failed info)) →
      FailureSaw (trace ++ [o]) t' := by
    intro hlive' hne
    unfold FailureSaw
    rw [hlive']
    intro info hinfo
    rcases List.mem_append.mp hinfo with hold | hnew
    · exact hnone info hold
    · exact hne info (List.mem_singleton.mp hnew).symm
  cases hreads with
  | moved hstage _ =>
    refine hquiet hlive fun info heq => ?_
    obtain rfl := Observation.event.inj heq
    cases hstage
  | ignored _ hne => exact hquiet hlive fun info heq => hne info (Observation.event.inj heq)
  | @failed info => exact ⟨trace, info, rfl, rfl, hnone⟩
  | rendered _ => exact hquiet hlive fun _ h => by cases h
  | extracted _ => exact hquiet hlive fun _ h => by cases h
  | paged _ _ => exact hquiet hlive fun _ h => by cases h

/-- The whole-document calls are counted by their flags. -/
theorem calls_of_run {trace : List Observation} {m : Monitor}
    (h : run Monitor.step trace .initial = some m) :
    trace.count (.call .renderPages) = m.wholeRender.toNat ∧
      trace.count (.call .extractNativeText) = m.wholeText.toNat := by
  refine run_invariant Monitor.step (I := fun trace m =>
    trace.count (.call .renderPages) = m.wholeRender.toNat ∧
      trace.count (.call .extractNativeText) = m.wholeText.toNat) ⟨rfl, rfl⟩
    (fun trace t o t' _ ih hstep => ?_) h
  rw [List.count_append, List.count_append, ih.1, ih.2]
  cases (Monitor.reads_of_step hstep).2 with
  | moved _ _ => exact ⟨rfl, rfl⟩
  | ignored _ _ => exact ⟨rfl, rfl⟩
  | failed => exact ⟨rfl, rfl⟩
  | rendered hflag => simp [hflag]
  | extracted hflag => simp [hflag]
  | paged hrender hextract => simp [hrender, hextract]

end Failures

/-! ## What the monitor enforces -/

/-- No stage starts or completes twice, and its progress lies between, never goes back and never
exceeds its total. -/
structure StageProtocol (trace : List StageEvent) : Prop where
  started_once : ∀ stage, trace.countP (isStart stage) ≤ 1
  completed_once : ∀ stage, trace.countP (isCompletion stage) ≤ 1
  progress : ∀ front info back, trace = front ++ .progress info :: back →
    (∃ backend, .started ⟨info.stage, backend, info.total⟩ ∈ front) ∧
      .completed info.stage ∉ front ∧ info.completed ≤ info.total ∧
      ∀ earlier, .progress earlier ∈ front → earlier.stage = info.stage →
        earlier.completed ≤ info.completed

theorem Monitor.protocol {trace : List Observation} {m : Monitor}
    (h : run Monitor.step trace .initial = some m) : StageProtocol (events trace) where
  started_once stage := by
    rw [(saw_of_run (Monitor.run_phaseStep h stage)).starts]
    split_ifs <;> omega
  completed_once stage := by
    rw [(saw_of_run (Monitor.run_phaseStep h stage)).completions]
    split_ifs <;> omega
  progress front info back heq := by
    have hrun := Monitor.run_phaseStep h info.stage
    rw [heq] at hrun
    obtain ⟨phase, phase', hfront, hstep, -⟩ := run_split _ hrun
    have hsaw := saw_of_run hfront
    have hnext : phase.next (.progress info) = some phase' := by
      unfold phaseStep at hstep
      rwa [if_pos (show (StageEvent.progress info).stage = some info.stage from rfl)] at hstep
    cases phase with
    | idle => cases hnext
    | done => cases hnext
    | running total last =>
      obtain ⟨⟨htotal, hlast, hle⟩, -⟩ := Phase.next_progress hnext
      subst htotal
      obtain ⟨hstarted, hearlier⟩ := hsaw.running _ _ rfl
      refine ⟨hstarted, ?_, hle, fun earlier hmem hstage => (hearlier earlier hmem hstage).trans hlast⟩
      intro hcompleted
      have hzero : front.countP (isCompletion info.stage) = 0 := hsaw.completions
      rw [List.countP_eq_zero] at hzero
      exact hzero _ hcompleted (by simp [isCompletion])

end DocParser.Pipeline
