import Mathlib.Order.Nat
import DocParser.Lib.Transition
import DocParser.Platform.RunRows

/-!
# Projection of worker events

Any number of projectors read the entries of the event stream and write them to the run row, one
atomic update an entry. Entries come late, in any order and again after a crash.
`projection_convergence`: the row ends up at the last event that changes the status.
-/

namespace DocParser.Platform

/-! ## The projectors -/

/-- The row of a run, the entry that each projector works on, and the entries whose update was
made so far. -/
structure Projectors where
  row : RunRow
  entry : Nat → Option Event
  projected : List Event

/-- The update that an entry makes on the row of a run. -/
def Projectors.apply (runId : String) (s : Projectors) (event : Event) : Projectors :=
  { s with
    row := if event.runId = runId then s.row.project event else s.row
    projected := s.projected ++ [event] }

/-- A step of projector `d`. -/
inductive ProjectorStep (runId : String) (stream : List Event) :
    Projectors → Nat → Projectors → Prop
  /-- Reading gives new entries, pending ones and those of other projectors. -/
  | receive (s : Projectors) (d : Nat) (event : Event) :
      event ∈ stream → s.entry d = none →
      ProjectorStep runId stream s d { s with entry := Function.update s.entry d (some event) }
  | update (s : Projectors) (d : Nat) (event : Event) :
      s.entry d = some event → ProjectorStep runId stream s d (s.apply runId event)
  /-- The entry is acknowledged, or the projector crashes with it. -/
  | release (s : Projectors) (d : Nat) :
      ProjectorStep runId stream s d { s with entry := Function.update s.entry d none }

/-- The projectors of a stream, and the row that `create_run` inserted for an attempt. -/
def projectors (runId attemptId : String) (stream : List Event) :
    Transition.System Projectors Nat where
  init s := s.row = .queued attemptId ∧ (∀ d, s.entry d = none) ∧ s.projected = []
  step := ProjectorStep runId stream

/-! ## One update -/

/-- What an event projects to has its run, attempt, sequence, status and execution. -/
theorem projection_fields {event : Event} {p : RunProjection}
    (h : projectedRunState event = .ok (some p)) :
    p.attemptId = event.attemptId ∧ p.sequence = event.sequence ∧
      event.type.projectedStatus = some p.status ∧ p.executionId = event.executionId ∧
      0 < event.sequence := by
  unfold projectedRunState at h
  split_ifs at h with hrun hattempt hsequence hexecution
  obtain ⟨status, hstatus, rfl⟩ := Option.map_eq_some_iff.mp (Except.ok.inj h)
  exact ⟨rfl, rfl, hstatus, rfl, by omega⟩

theorem projectedStatus_isTerminal {type : EventType} {status : RunStatus}
    (h : type.projectedStatus = some status) : status.isTerminal = type.isTerminal := by
  cases type <;> cases h <;> rfl

theorem RunRow.update_eq {row : RunRow} {p : RunProjection} (h : row.Accepts p) :
    (row.update p).status = p.status ∧ (row.update p).lastEventSequence = p.sequence ∧
      (row.update p).executionId = (p.executionId <|> row.executionId) := by
  unfold RunRow.update
  rw [if_pos h]
  exact ⟨rfl, rfl, rfl⟩

theorem RunRow.update_of_not_accepts {row : RunRow} {p : RunProjection} (h : ¬row.Accepts p) :
    row.update p = row := if_neg h

theorem RunRow.le_project (row : RunRow) (event : Event) :
    row.lastEventSequence ≤ (row.project event).lastEventSequence := by
  rcases row.project_cases event with heq | ⟨p, -, heq⟩ <;> rw [heq]
  by_cases haccepts : row.Accepts p
  · have hlast := (RunRow.update_eq haccepts).2.1
    have hlt := haccepts.2.1
    omega
  · rw [RunRow.update_of_not_accepts haccepts]

@[simp] theorem RunRow.project_attemptId (row : RunRow) (event : Event) :
    (row.project event).attemptId = row.attemptId := by
  rcases row.project_cases event with heq | ⟨p, -, heq⟩ <;> rw [heq]
  exact update_attemptId

/-- **Other attempts.** An event of another attempt leaves the row as it is. -/
theorem RunRow.project_of_attempt_ne {row : RunRow} {event : Event}
    (h : event.attemptId ≠ row.attemptId) : row.project event = row := by
  rcases row.project_cases event with heq | ⟨p, hp, heq⟩
  · exact heq
  · have hattempt := (projection_fields hp).1
    rw [heq, RunRow.update_of_not_accepts]
    exact fun haccepts => h (hattempt.symm.trans haccepts.1.symm)

/-! ## The row and the events -/

section Rows

variable (runId attemptId : String) (stream : List Event)

/-- The events of the attempt. -/
def OfAttempt (event : Event) : Prop :=
  event ∈ stream ∧ event.runId = runId ∧ event.attemptId = attemptId

/-- The events of the attempt that change the status. Others only inform or are discarded. -/
def Changing (event : Event) : Prop :=
  OfAttempt runId attemptId stream event ∧ ∃ p, projectedRunState event = .ok (some p)

/-- The events of an attempt as its worker numbers them: no sequence twice, and nothing after a
terminal event. -/
structure Numbered : Prop where
  distinct : ∀ event other, OfAttempt runId attemptId stream event →
    OfAttempt runId attemptId stream other → event.sequence = other.sequence → event = other
  terminal : ∀ event other, OfAttempt runId attemptId stream event →
    OfAttempt runId attemptId stream other → event.type.isTerminal = true → other ≠ event →
    other.sequence < event.sequence

/-- What the row shows of the event that it took last. -/
structure Shows (row : RunRow) (event : Event) : Prop where
  status : event.type.projectedStatus = some row.status
  sequence : row.lastEventSequence = event.sequence
  execution : ∀ executionId, event.executionId = some executionId →
    row.executionId = some executionId

/-- The row is as inserted or shows an event, and no event that was projected is past it. -/
structure Projected (s : Projectors) : Prop where
  attempt : s.row.attemptId = attemptId
  entries : ∀ d event, s.entry d = some event → event ∈ stream
  shows : s.row = .queued attemptId ∨
    ∃ event, Changing runId attemptId stream event ∧ Shows s.row event
  upTo : ∀ event ∈ s.projected, Changing runId attemptId stream event →
    event.sequence ≤ s.row.lastEventSequence

end Rows

variable {runId attemptId : String} {stream : List Event}

theorem Shows.update {row : RunRow} {event : Event} {p : RunProjection}
    (hp : projectedRunState event = .ok (some p)) (h : row.Accepts p) :
    Shows (row.update p) event := by
  obtain ⟨-, hsequence, hstatus, hexecution, -⟩ := projection_fields hp
  obtain ⟨hrow, hlast, hid⟩ := RunRow.update_eq h
  refine ⟨by rw [hstatus, hrow], by rw [hlast, hsequence], fun executionId hevent => ?_⟩
  rw [hid, hexecution, hevent]
  rfl

/-- A row that is terminal is past every event of its attempt. -/
theorem Shows.le_of_terminal (hn : Numbered runId attemptId stream) {row : RunRow}
    {event other : Event} (h : Shows row event) (hevent : OfAttempt runId attemptId stream event)
    (hother : OfAttempt runId attemptId stream other) (hrow : row.status.isTerminal = true) :
    other.sequence ≤ row.lastEventSequence := by
  have hterminal : event.type.isTerminal = true := by
    rw [← projectedStatus_isTerminal h.status, hrow]
  rw [h.sequence]
  by_cases heq : other = event
  · rw [heq]
  · exact (hn.terminal event other hevent hother hterminal heq).le

/-- An event that the row refuses is not past it. -/
theorem Projected.le_of_not_accepts (hn : Numbered runId attemptId stream) {s : Projectors}
    (h : Projected runId attemptId stream s) {event : Event} {p : RunProjection}
    (hevent : OfAttempt runId attemptId stream event)
    (hp : projectedRunState event = .ok (some p)) (hrefused : ¬s.row.Accepts p) :
    event.sequence ≤ s.row.lastEventSequence := by
  obtain ⟨hattempt, hsequence, -⟩ := projection_fields hp
  by_contra hpast
  have hterminal : s.row.status.isTerminal = true := by
    by_contra hopen
    refine hrefused ⟨by rw [h.attempt, hattempt, hevent.2.2], by omega, Or.inl ?_⟩
    exact Bool.eq_false_iff.mpr hopen
  rcases h.shows with hqueued | ⟨shown, hshown, hshows⟩
  · rw [hqueued] at hterminal
    cases hterminal
  · exact hpast (hshows.le_of_terminal hn hshown.1 hevent hterminal)

theorem Projectors.apply_row {s : Projectors} {event : Event} {p : RunProjection}
    (hrun : event.runId = runId) (hp : projectedRunState event = .ok (some p)) :
    (s.apply runId event).row = s.row.update p := by
  unfold Projectors.apply RunRow.project
  rw [hp]
  exact if_pos hrun

/-- Informational events, those that are discarded and those of other attempts write nothing. -/
theorem Projected.apply_row_of_not_changing {s : Projectors}
    (h : Projected runId attemptId stream s) {event : Event} (hstream : event ∈ stream)
    (hquiet : ¬Changing runId attemptId stream event) : (s.apply runId event).row = s.row := by
  unfold Projectors.apply
  dsimp only
  split_ifs with hrun
  · by_cases hattempt : event.attemptId = attemptId
    · rcases s.row.project_cases event with heq | ⟨p, hp, -⟩
      · exact heq
      · exact absurd ⟨⟨hstream, hrun, hattempt⟩, p, hp⟩ hquiet
    · exact RunRow.project_of_attempt_ne (by rwa [h.attempt])
  · rfl

/-- An update that leaves the row alone. -/
theorem Projected.keep {s : Projectors} (h : Projected runId attemptId stream s) {event : Event}
    (hrow : (s.apply runId event).row = s.row)
    (hupTo : Changing runId attemptId stream event → event.sequence ≤ s.row.lastEventSequence) :
    Projected runId attemptId stream (s.apply runId event) := by
  refine ⟨hrow ▸ h.attempt, h.entries, hrow ▸ h.shows, fun other hother hchanging => ?_⟩
  rw [hrow]
  rcases List.mem_append.mp hother with hold | hnew
  · exact h.upTo other hold hchanging
  · cases List.mem_singleton.mp hnew
    exact hupTo hchanging

/-- **Step lemma** for the update with an entry of the stream. -/
theorem Projected.apply (hn : Numbered runId attemptId stream) {s : Projectors}
    (h : Projected runId attemptId stream s) {event : Event} (hstream : event ∈ stream) :
    Projected runId attemptId stream (s.apply runId event) := by
  by_cases hchanging : Changing runId attemptId stream event
  · obtain ⟨hof, p, hp⟩ := hchanging
    have hrow := Projectors.apply_row (s := s) hof.2.1 hp
    by_cases haccepts : s.row.Accepts p
    · have hshows := Shows.update hp haccepts
      have hlt := haccepts.2.1
      have hlast := (RunRow.update_eq haccepts).2.1
      refine ⟨?_, h.entries, Or.inr ⟨event, ⟨hof, p, hp⟩, hrow ▸ hshows⟩, ?_⟩
      · rw [hrow, RunRow.update_attemptId, h.attempt]
      · intro other hother hchanging
        rw [hrow]
        rcases List.mem_append.mp hother with hold | hnew
        · have hle := h.upTo other hold hchanging
          omega
        · cases List.mem_singleton.mp hnew
          exact hshows.sequence.ge
    · rw [RunRow.update_of_not_accepts haccepts] at hrow
      exact h.keep hrow fun _ => h.le_of_not_accepts hn hof hp haccepts
  · exact h.keep (h.apply_row_of_not_changing hstream hchanging) fun hc => absurd hc hchanging

/-! ## Runs -/

/-- **Run lemma.** Every reachable row is as inserted or shows an event of its attempt. -/
theorem projected_reachable (hn : Numbered runId attemptId stream) {s : Projectors}
    (hs : (projectors runId attemptId stream).Reachable s) :
    Projected runId attemptId stream s := by
  refine hs.invariant ?_ ?_
  · rintro s ⟨hrow, hentry, hprojected⟩
    refine ⟨by rw [hrow]; rfl, fun d event h => ?_, Or.inl hrow, ?_⟩
    · rw [hentry d] at h
      cases h
    · rw [hprojected]
      exact nofun
  · intro s d t _ h hst
    cases hst with
    | receive event hevent _ =>
      refine ⟨h.attempt, fun d' event' hd' => ?_, h.shows, h.upTo⟩
      by_cases heq : d' = d
      · cases heq
        dsimp only at hd'
        rw [Function.update_self] at hd'
        cases hd'
        exact hevent
      · dsimp only at hd'
        rw [Function.update_of_ne heq] at hd'
        exact h.entries d' event' hd'
    | update event hentry => exact h.apply hn (h.entries d event hentry)
    | release =>
      refine ⟨h.attempt, fun d' event' hd' => ?_, h.shows, h.upTo⟩
      by_cases heq : d' = d
      · cases heq
        dsimp only at hd'
        rw [Function.update_self] at hd'
        cases hd'
      · dsimp only at hd'
        rw [Function.update_of_ne heq] at hd'
        exact h.entries d' event' hd'

/-- A step leaves the row alone or projects an event. -/
theorem ProjectorStep.row_cases {s t : Projectors} {d : Nat}
    (hst : ProjectorStep runId stream s d t) :
    t.row = s.row ∨ ∃ event, t.row = s.row.project event := by
  cases hst with
  | receive event _ _ => exact Or.inl rfl
  | update event _ =>
    by_cases hrun : event.runId = runId
    · exact Or.inr ⟨event, if_pos hrun⟩
    · exact Or.inl (if_neg hrun)
  | release => exact Or.inl rfl

theorem Run.le_lastEventSequence {s t : Projectors} {ls : List Nat}
    (h : (projectors runId attemptId stream).Run s ls t) :
    s.row.lastEventSequence ≤ t.row.lastEventSequence := by
  induction h with
  | nil => exact le_rfl
  | cons hst _ ih =>
    refine le_trans ?_ ih
    rcases hst.row_cases with heq | ⟨event, heq⟩ <;> rw [heq]
    exact RunRow.le_project _ event

theorem Run.status_of_terminal {s t : Projectors} {ls : List Nat}
    (h : (projectors runId attemptId stream).Run s ls t) (hs : s.row.status.isTerminal = true) :
    t.row.status = s.row.status := by
  induction h with
  | nil => rfl
  | cons hst _ ih =>
    rcases hst.row_cases with heq | ⟨event, heq⟩
    · rw [heq] at ih
      exact ih hs
    · rw [heq, RunRow.project_status_of_terminal hs] at ih
      exact ih hs

/-- What holds of the row of a run, whatever the order and the duplication of its entries. -/
structure ProjectionConvergence (runId attemptId : String) (stream : List Event) : Prop where
  monotone : ∀ s t ls, (projectors runId attemptId stream).Reachable s →
    (projectors runId attemptId stream).Run s ls t →
    s.row.lastEventSequence ≤ t.row.lastEventSequence
  terminal : ∀ s t ls, (projectors runId attemptId stream).Reachable s →
    (projectors runId attemptId stream).Run s ls t → s.row.status.isTerminal = true →
    t.row.status = s.row.status
  /-- An update with an event of another attempt, or of another run, changes no column. -/
  otherAttempts : ∀ s event, (projectors runId attemptId stream).Reachable s →
    ¬(event.runId = runId ∧ event.attemptId = attemptId) → (s.apply runId event).row = s.row
  /-- Once every event was projected, the row shows the last one that changes the status. -/
  converges : ∀ s, (projectors runId attemptId stream).Reachable s →
    (∀ event, OfAttempt runId attemptId stream event → event ∈ s.projected) →
    ∀ last, Changing runId attemptId stream last →
    (∀ event, Changing runId attemptId stream event → event.sequence ≤ last.sequence) →
    Shows s.row last
  /-- Without such an event it stays as inserted. -/
  untouched : ∀ s, (projectors runId attemptId stream).Reachable s →
    (∀ event, ¬Changing runId attemptId stream event) → s.row = .queued attemptId

theorem Projected.shows_last (hn : Numbered runId attemptId stream) {s : Projectors}
    (h : Projected runId attemptId stream s)
    (hall : ∀ event, OfAttempt runId attemptId stream event → event ∈ s.projected) {last : Event}
    (hlast : Changing runId attemptId stream last)
    (hmax : ∀ event, Changing runId attemptId stream event → event.sequence ≤ last.sequence) :
    Shows s.row last := by
  have hle := h.upTo last (hall last hlast.1) hlast
  rcases h.shows with hqueued | ⟨event, hevent, hshows⟩
  · obtain ⟨p, hp⟩ := hlast.2
    have hpos := (projection_fields hp).2.2.2.2
    rw [hqueued] at hle
    exact absurd hpos (Nat.not_lt.mpr hle)
  · have hsequence := hshows.sequence
    have heq : event = last := by
      refine hn.distinct event last hevent.1 hlast.1 ?_
      have := hmax event hevent
      omega
    exact heq ▸ hshows

/-- **Projection convergence.** -/
theorem projection_convergence (runId attemptId : String) (stream : List Event)
    (hn : Numbered runId attemptId stream) : ProjectionConvergence runId attemptId stream where
  monotone _ _ _ _ hrun := Run.le_lastEventSequence hrun
  terminal _ _ _ _ hrun hs := Run.status_of_terminal hrun hs
  otherAttempts s event hs hother := by
    have hattempt := (projected_reachable hn hs).attempt
    unfold Projectors.apply
    dsimp only
    split_ifs with hrun
    · refine RunRow.project_of_attempt_ne fun heq => hother ⟨hrun, ?_⟩
      rw [heq, hattempt]
    · rfl
  converges s hs hall last hlast hmax :=
    (projected_reachable hn hs).shows_last hn hall hlast hmax
  untouched s hs hnone := by
    rcases (projected_reachable hn hs).shows with hqueued | ⟨event, hevent, -⟩
    · exact hqueued
    · exact absurd hevent (hnone event)

/-- A run that starts and fails. -/
def failedAttempt : List Event :=
  [⟨.jobStarted, "job", "run", "attempt", 1, some "execution_1", none, none⟩,
    ⟨.stageWarning, "job", "run", "attempt", 2, some "execution_1", some "layout", none⟩,
    ⟨.jobFailed, "job", "run", "attempt", 3, some "execution_1", none, some "no renderer"⟩]

/-- The failure is projected first, and the start comes late and twice. -/
theorem projection_convergence_failedAttempt :
    ∃ s, (projectors "run" "attempt" failedAttempt).Reachable s ∧
      s.projected.map (·.sequence) = [3, 1, 1] ∧ s.row.lastEventSequence = 3 ∧
      ProjectionConvergence "run" "attempt" failedAttempt := by
  have hn : Numbered "run" "attempt" failedAttempt := by
    have hdistinct : ∀ event ∈ failedAttempt, ∀ other ∈ failedAttempt,
        event.sequence = other.sequence → event = other := by decide
    have hterminal : ∀ event ∈ failedAttempt, ∀ other ∈ failedAttempt,
        event.type.isTerminal = true → other ≠ event → other.sequence < event.sequence := by
      decide
    exact ⟨fun event other hevent hother => hdistinct event hevent.1 other hother.1,
      fun event other hevent hother => hterminal event hevent.1 other hother.1⟩
  have hinit : (projectors "run" "attempt" failedAttempt).Reachable
      ⟨.queued "attempt", fun _ => none, []⟩ := .init ⟨rfl, fun _ => rfl, rfl⟩
  have h1 := hinit.step (ProjectorStep.receive _ 0 failedAttempt[2] (by decide) rfl)
  have h2 := h1.step (ProjectorStep.receive _ 1 failedAttempt[0] (by decide) rfl)
  have h3 := h2.step (ProjectorStep.update _ 0 failedAttempt[2] rfl)
  have h4 := h3.step (ProjectorStep.update _ 1 failedAttempt[0] rfl)
  have h5 := h4.step (ProjectorStep.update _ 1 failedAttempt[0] rfl)
  exact ⟨_, h5, by decide, by decide, projection_convergence "run" "attempt" failedAttempt hn⟩

end DocParser.Platform
