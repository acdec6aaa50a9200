import DocParser.Pipeline.DocumentPipeline
import DocParser.Pipeline.StageProtocol

/-!
# The events of the pipeline

`parseInternal` keeps the protocol of stage events. Every part of it gets a rule that says what it
makes of the monitor: before and after the pages the stages take their turns (`Reached`), and
between them four stages are open at once (`InPages`).
-/

namespace DocParser.Pipeline

open Document Emission Image

/-- The monitor at the end of a run that stops: it has seen the failure that the run returns. -/
def Ends (reason : Stop) (m : Monitor) : Prop :=
  match reason with
  | .failed status => m.failure = some status.code
  | .thrown _ => m.failure = none
  | .undefined => m.failure = none

/-! ## Single observations -/

section Observations

variable {m : Monitor} {Q : Unit → Monitor → Prop} {total last : Int}

theorem wp_notify {event : StageEvent} {m' : Monitor} (hlive : m.failure = none)
    (hobserve : m.observe event = some m') (hQ : Q () m') :
    wp Monitor.step (notify event) Q Ends m :=
  wp_emit.mpr ⟨m', (Monitor.step_event hlive).trans hobserve, hQ⟩

theorem wp_started {info : StageStartedInfo} (hlive : m.failure = none)
    (hidle : m.phase info.stage = .idle) (hQ : Q () (m.enter info.stage (.running info.total 0))) :
    wp Monitor.step (notify (.started info)) Q Ends m := by
  refine wp_notify hlive ?_ hQ
  show ((m.phase info.stage).next (.started info)).map (m.enter info.stage) = _
  rw [hidle]
  rfl

theorem wp_progress {info : StageProgressInfo} (hlive : m.failure = none)
    (hphase : m.phase info.stage = .running total last) (htotal : info.total = total)
    (hlast : last ≤ info.completed) (hle : info.completed ≤ total)
    (hQ : Q () (m.enter info.stage (.running total info.completed))) :
    wp Monitor.step (notify (.progress info)) Q Ends m := by
  refine wp_notify hlive ?_ hQ
  show ((m.phase info.stage).next (.progress info)).map (m.enter info.stage) = _
  rw [hphase]
  show (if info.total = total ∧ last ≤ info.completed ∧ info.completed ≤ total then
    some (Phase.running total info.completed) else none).map (m.enter info.stage) = _
  rw [if_pos ⟨htotal, hlast, hle⟩]
  rfl

theorem wp_completed {stage : Stage} (hlive : m.failure = none)
    (hphase : m.phase stage = .running total last) (hQ : Q () (m.enter stage .done)) :
    wp Monitor.step (notify (.completed stage)) Q Ends m := by
  refine wp_notify hlive ?_ hQ
  show ((m.phase stage).next (.completed stage)).map (m.enter stage) = _
  rw [hphase]
  rfl

/-- A failure ends the run, whatever was to come. -/
theorem wp_stageFailed {τ : Type} {Q : τ → Monitor → Prop} {stage code message : String}
    {retryable : Bool} (hlive : m.failure = none) :
    wp Monitor.step (stageFailed stage code message retryable) Q Ends m := by
  unfold stageFailed
  exact wp_bind.mpr (wp_notify hlive rfl (wp_stop.mpr rfl))

theorem wp_deadlineStatus {options : PipelineRunOptions} {clock : RunClock}
    {checkpoint : Checkpoint} {stage : Stage} (hlive : m.failure = none) (hQ : Q () m) :
    wp Monitor.step (deadlineStatus options clock checkpoint stage) Q Ends m := by
  unfold deadlineStatus
  split_ifs
  · exact wp_stageFailed hlive
  · exact wp_pure.mpr hQ

theorem wp_called {call : SourceCall} (m' : Monitor) (hstep : m.step (.call call) = some m')
    (hQ : Q () m') : wp Monitor.step (called call) Q Ends m :=
  wp_emit.mpr ⟨m', hstep, hQ⟩

end Observations

/-! ## Stages over all pages -/

/-- The phase of a stage over all pages, whose progress has not gone beyond a bound. -/
structure PageStage.Tracks (page : PageStage) (stage : Stage) (total bound : Int) (phase : Phase) :
    Prop where
  ofStage : page.info.stage = stage
  ofTotal : page.info.total = total
  idle : page.started = false → phase = .idle
  running : page.started = true → ∃ last ≤ bound, phase = .running total last

section PageStages

variable {m : Monitor} {page : PageStage} {stage : Stage} {total bound : Int}

theorem PageStage.Tracks.mono {phase : Phase} {bound' : Int}
    (h : page.Tracks stage total bound phase) (hbound : bound ≤ bound') :
    page.Tracks stage total bound' phase := by
  refine ⟨h.ofStage, h.ofTotal, h.idle, fun hstarted => ?_⟩
  obtain ⟨last, hlast, hphase⟩ := h.running hstarted
  exact ⟨last, hlast.trans hbound, hphase⟩

variable (stage total bound) in
/-- Whether it starts now or has started before, the stage runs. -/
theorem wp_begin {Q : PageStage → Monitor → Prop} (hlive : m.failure = none)
    (h : page.Tracks stage total bound (m.phase stage)) (hbound : 0 ≤ bound)
    (hQ : ∀ last ≤ bound,
      Q { page with started := true } (m.enter stage (.running total last))) :
    wp Monitor.step page.begin Q Ends m := by
  unfold PageStage.begin
  split_ifs with hstarted
  · obtain ⟨last, hlast, hphase⟩ := h.running hstarted
    have hsame : { page with started := true } = page := by rw [← hstarted]
    refine wp_pure.mpr ?_
    have := hQ last hlast
    rwa [hsame, Monitor.enter_self hphase] at this
  · have hidle := h.idle (Bool.not_eq_true _ ▸ hstarted)
    refine wp_bind.mpr (wp_started hlive (by rw [h.ofStage]; exact hidle) (wp_pure.mpr ?_))
    rw [h.ofStage, h.ofTotal]
    exact hQ 0 hbound

theorem wp_pageProgress {Q : Unit → Monitor → Prop} {last completed : Int}
    (hlive : m.failure = none) (hstage : page.info.stage = stage) (htotal : page.info.total = total)
    (hphase : m.phase stage = .running total last) (hlast : last ≤ completed)
    (hle : completed ≤ total) (hQ : Q () (m.enter stage (.running total completed))) :
    wp Monitor.step (page.progress completed) Q Ends m := by
  subst hstage
  exact wp_progress hlive hphase htotal hlast hle hQ

theorem wp_warnings {Q : PageStage → Monitor → Prop} {values : List Diagnostic}
    (hlive : m.failure = none)
    (hQ : Q { page with diagnostics := page.diagnostics ++ values } m) :
    wp Monitor.step (page.warnings values) Q Ends m := by
  unfold PageStage.warnings
  refine wp_bind.mpr (wp_emitAll (fun o ho => ?_) (wp_pure.mpr hQ))
  obtain ⟨value, -, rfl⟩ := List.mem_map.mp ho
  exact (Monitor.step_event hlive).trans rfl

variable (stage) in
/-- A stage ends, also one that no page has reached. -/
theorem wp_complete {Q : Unit → Monitor → Prop} (hlive : m.failure = none)
    (h : page.Tracks stage total bound (m.phase stage)) (htotal : 0 ≤ total)
    (hQ : Q () (m.enter stage .done)) : wp Monitor.step page.complete Q Ends m := by
  have hstage := h.ofStage
  subst hstage
  have hcompleted : ∀ last, wp Monitor.step (notify (.completed page.info.stage)) Q Ends
      (m.enter page.info.stage (.running total last)) := fun last =>
    wp_completed hlive Monitor.enter_phase_self (by rwa [Monitor.enter_enter])
  unfold PageStage.complete PageStage.beginUnreached
  refine wp_bind.mpr ?_
  split_ifs with hstarted
  · obtain ⟨last, -, hphase⟩ := h.running hstarted
    refine wp_pure.mpr ?_
    have := hcompleted last
    rwa [Monitor.enter_self hphase] at this
  · have hidle := h.idle (Bool.not_eq_true _ ▸ hstarted)
    refine wp_bind.mpr (wp_begin page.info.stage total 0 hlive
      ⟨rfl, h.ofTotal, fun _ => hidle, fun hcontra => absurd hcontra hstarted⟩ (le_refl 0) ?_)
    intro last hlast
    refine wp_pageProgress hlive rfl h.ofTotal Monitor.enter_phase_self hlast htotal ?_
    rw [Monitor.enter_enter]
    exact hcompleted 0

end PageStages

/-! ## Stages in turn -/

/-- Some stages wait, and all others are done. -/
structure Reached (waiting : List Stage) (m : Monitor) : Prop where
  live : m.failure = none
  phases : ∀ stage, m.phase stage = if stage ∈ waiting then .idle else .done

section Turns

variable {m : Monitor} {stage : Stage} {waiting : List Stage}

theorem Reached.next (h : Reached (stage :: waiting) m) (hstage : stage ∉ waiting) :
    Reached waiting (m.enter stage .done) := by
  refine ⟨h.live, fun other => ?_⟩
  by_cases heq : other = stage
  · subst heq
    rw [Monitor.enter_phase_self, if_neg hstage]
  · rw [Monitor.enter_phase_of_ne heq, h.phases]
    simp [heq]

theorem Reached.idle (h : Reached (stage :: waiting) m) : m.phase stage = .idle := by
  rw [h.phases, if_pos List.mem_cons_self]

/-- The end of a stage that reports its progress once. -/
theorem wp_stageEnd {τ : Type} {Q : τ → Monitor → Prop} {rest : Run τ} {total last : Int}
    (hlive : m.failure = none) (hphase : m.phase stage = .running total last) (hlast : last ≤ total)
    (hQ : wp Monitor.step rest Q Ends (m.enter stage .done)) :
    wp Monitor.step (do
      notify (.progress ⟨stage, total, total⟩)
      notify (.completed stage)
      rest) Q Ends m := by
  refine wp_bind.mpr (wp_progress hlive hphase rfl hlast (le_refl total) ?_)
  refine wp_bind.mpr (wp_completed hlive Monitor.enter_phase_self ?_)
  rwa [Monitor.enter_enter]

end Turns

/-- The monitor while the pages are processed. -/
structure InPages {α : Type} (total bound : Int) (pages : PageRun α) (m : Monitor) : Prop where
  live : m.failure = none
  configured : m.phase .configure = .done
  opened : m.phase .opening = .done
  render : pages.render.Tracks .render total bound (m.phase .render)
  text : pages.text.Tracks .text total bound (m.phase .text)
  layout : pages.layout.Tracks .layout total bound (m.phase .layout)
  table : pages.table.Tracks .table total bound (m.phase .table)
  unordered : m.phase .readingOrder = .idle
  unassembled : m.phase .assembly = .idle
  rendering : pages.render.started = true
  wholeText : m.wholeText = true → pages.legacyTextLoaded = true

section Pages

variable {α : Type} {total bound : Int} {pages : PageRun α} {m : Monitor}

theorem InPages.mono {bound' : Int} (h : InPages total bound pages m) (hbound : bound ≤ bound') :
    InPages total bound' pages m :=
  { h with
    render := h.render.mono hbound
    text := h.text.mono hbound
    layout := h.layout.mono hbound
    table := h.table.mono hbound }

/-- A stage that runs keeps its place among the others. -/
theorem Tracks.running {page : PageStage} {stage : Stage} {last : Int} {phase : Phase}
    (h : page.Tracks stage total bound phase) (hlast : last ≤ bound) (diagnostics : List Diagnostic) :
    PageStage.Tracks { page with started := true, diagnostics := diagnostics } stage total bound
      (.running total last) :=
  ⟨h.ofStage, h.ofTotal, (fun h => by cases h), fun _ => ⟨last, hlast, rfl⟩⟩

theorem InPages.enterRender {last : Int} (h : InPages total bound pages m) (hlast : last ≤ bound) :
    InPages total bound pages (m.enter .render (.running total last)) :=
  { h with
    render := by
      rw [Monitor.enter_phase_self]
      exact ⟨h.render.ofStage, h.render.ofTotal, fun hidle => absurd (h.rendering) (by simp [hidle]),
        fun _ => ⟨last, hlast, rfl⟩⟩ }

theorem InPages.enterText {last : Int} (h : InPages total bound pages m) (hlast : last ≤ bound)
    (diagnostics : List Diagnostic) :
    InPages total bound
      { pages with text := { pages.text with started := true, diagnostics := diagnostics } }
      (m.enter .text (.running total last)) :=
  { h with
    text := by
      rw [Monitor.enter_phase_self]
      exact Tracks.running h.text hlast diagnostics }

theorem InPages.enterLayout {last : Int} (h : InPages total bound pages m) (hlast : last ≤ bound)
    (diagnostics : List Diagnostic) :
    InPages total bound
      { pages with layout := { pages.layout with started := true, diagnostics := diagnostics } }
      (m.enter .layout (.running total last)) :=
  { h with
    layout := by
      rw [Monitor.enter_phase_self]
      exact Tracks.running h.layout hlast diagnostics }

theorem InPages.enterTable {last : Int} (h : InPages total bound pages m) (hlast : last ≤ bound)
    (diagnostics : List Diagnostic) :
    InPages total bound
      { pages with table := { pages.table with started := true, diagnostics := diagnostics } }
      (m.enter .table (.running total last)) :=
  { h with
    table := by
      rw [Monitor.enter_phase_self]
      exact Tracks.running h.table hlast diagnostics }

end Pages

/-! ## Before the pages -/

section Before

variable {α : Type} [Double α] (env : Environment) (options : PipelineRunOptions) {m : Monitor}

omit [Double α] in
theorem wp_createServices (services : Option (PipelineServices α))
    (registry : Option (BackendRegistry α)) {Q : PipelineServices α × RunProvenance → Monitor → Prop}
    (hlive : m.failure = none) (hQ : ∀ created, Q created m) :
    wp Monitor.step (createServices options services registry) Q Ends m := by
  unfold createServices
  split
  · exact wp_pure.mpr (hQ _)
  · exact wp_stageFailed hlive
  · split
    · exact wp_bind.mpr (wp_notify hlive rfl (wp_stop.mpr rfl))
    · exact wp_pure.mpr (hQ _)

omit [Double α] in
theorem wp_configure (services : Option (PipelineServices α))
    (serviceProvenance : Option RunProvenance) (registry : Option (BackendRegistry α)) :
    wp Monitor.step (configure options services serviceProvenance registry)
      (fun _ m => m = Monitor.initial.enter .configure .done) Ends .initial := by
  unfold configure
  refine wp_bind.mpr (wp_started rfl rfl ?_)
  refine wp_bind.mpr (wp_createServices options services registry rfl fun created => ?_)
  refine wp_stageEnd rfl Monitor.enter_phase_self (by decide) ?_
  rw [Monitor.enter_enter]
  exact wp_bind.mpr (wp_notify rfl rfl (wp_pure.mpr rfl))

omit [Double α] in
theorem wp_openDocument (services : PipelineServices α) (provenance : RunProvenance)
    {waiting : List Stage} {Q : OpenedSource × FileFingerprint → Monitor → Prop}
    (h : Reached (.opening :: waiting) m) (hQ : ∀ r, Q r (m.enter .opening .done)) :
    wp Monitor.step (openDocument env options services provenance) Q Ends m := by
  unfold openDocument
  refine wp_bind.mpr (wp_started h.live h.idle ?_)
  split
  · exact wp_stageFailed h.live
  · refine wp_bind.mpr ?_
    unfold checkSource
    split
    · exact wp_stageFailed h.live
    · split_ifs
      · exact wp_stageFailed h.live
      · refine wp_pure.mpr (wp_stageEnd h.live Monitor.enter_phase_self (by decide) ?_)
        rw [Monitor.enter_enter]
        exact wp_pure.mpr (hQ _)

theorem wp_renderLegacyPages (renderer : PageRenderer) (pageCount : Nat)
    {Q : List StoredPage → Monitor → Prop} (hlive : m.failure = none)
    (hwhole : m.wholeRender = false)
    (hQ : ∀ pages whole, Q pages { m with wholeRender := whole }) :
    wp Monitor.step (renderLegacyPages options renderer pageCount) Q Ends m := by
  unfold renderLegacyPages
  split_ifs
  · exact wp_pure.mpr (hQ _ m.wholeRender)
  · refine wp_bind.mpr (wp_called { m with wholeRender := true } ?_ ?_)
    · unfold Monitor.step
      rw [hlive, hwhole]
      rfl
    · split
      · exact wp_stageFailed hlive
      · split_ifs
        · exact wp_stageFailed hlive
        · exact wp_pure.mpr (hQ _ true)

omit [Double α] in
theorem wp_beginPages (provenance : RunProvenance) (renderer : PageRenderer) (pageCount : Nat)
    (h : Reached [.render, .text, .layout, .table, .readingOrder, .assembly] m)
    (hrender : m.wholeRender = false) (htext : m.wholeText = false) :
    wp Monitor.step (beginPages options provenance renderer pageCount : Run (PageRun α))
      (fun pages m => InPages pageCount 0 pages m) Ends m := by
  have hwaits : ∀ stage ∈ [Stage.render, .text, .layout, .table, .readingOrder, .assembly],
      m.phase stage = .idle := fun stage hstage => (h.phases stage).trans (if_pos hstage)
  unfold beginPages
  refine wp_bind.mpr (wp_begin .render pageCount 0 h.live
    ⟨rfl, rfl, fun _ => h.idle, fun hstarted => by cases hstarted⟩ (le_refl 0) ?_)
  intro last hlast
  refine wp_bind.mpr (wp_renderLegacyPages options renderer pageCount h.live hrender ?_)
  intro pages whole
  refine wp_pure.mpr ?_
  have hidle : ∀ (stage : Stage) (backend : String), m.phase stage = .idle →
      (PageStage.new stage backend pageCount).Tracks stage pageCount 0 (m.phase stage) :=
    fun stage backend hphase => ⟨rfl, rfl, fun _ => hphase, fun hstarted => by cases hstarted⟩
  exact {
    live := h.live
    configured := (h.phases .configure).trans (if_neg (by decide))
    opened := (h.phases .opening).trans (if_neg (by decide))
    render := by
      refine ⟨rfl, rfl, (fun hstarted => by cases hstarted), fun _ => ⟨last, hlast, ?_⟩⟩
      show (m.enter .render (.running pageCount last)).phase .render = _
      exact Monitor.enter_phase_self
    text := hidle .text _ (hwaits _ (by decide))
    layout := hidle .layout _ (hwaits _ (by decide))
    table := hidle .table _ (hwaits _ (by decide))
    unordered := hwaits _ (by decide)
    unassembled := hwaits _ (by decide)
    rendering := rfl
    wholeText := fun hcontra => absurd (htext.symm.trans hcontra) (by decide) }

end Before

/-! ## One page -/

section Page

variable {α : Type} [Double α] (env : Environment) (options : PipelineRunOptions)
  (services : PipelineServices α) (renderer : PageRenderer) {pages : PageRun α} {m : Monitor}
  {total bound : Int}

omit [Double α] in
/-- Pages are rendered one by one, or were rendered before. -/
theorem wp_takePage (index : Nat) (h : InPages total bound pages m)
    {Q : StoredPage × PageRun α → Monitor → Prop}
    (hQ : ∀ page pages', InPages total bound pages' m → Q (page, pages') m) :
    wp Monitor.step (takePage options renderer index pages) Q Ends m := by
  unfold takePage
  split_ifs
  · refine wp_bind.mpr (wp_called m ?_ ?_)
    · unfold Monitor.step
      rw [h.live]
    · split
      · exact wp_stageFailed h.live
      · exact wp_pure.mpr (hQ _ _ h)
  · split
    · exact wp_stop.mpr h.live
    · exact wp_pure.mpr (hQ _ _ { h with })

omit [Double α] in
theorem wp_renderStep (index : Nat) (h : InPages total index pages m)
    (hindex : (index : Int) < total) :
    wp Monitor.step (renderStep env options renderer index pages)
      (fun r m => InPages total (index + 1) r.2 m) Ends m := by
  unfold renderStep
  refine wp_bind.mpr (wp_deadlineStatus h.live ?_)
  refine wp_bind.mpr (wp_takePage options renderer index h fun page pages' h => ?_)
  dsimp only
  split_ifs
  · exact wp_stageFailed h.live
  · refine wp_bind.mpr (wp_notify h.live rfl ?_)
    split
    · exact wp_stageFailed h.live
    · obtain ⟨last, hlast, hphase⟩ := h.render.running h.rendering
      refine wp_bind.mpr (wp_pageProgress h.live h.render.ofStage h.render.ofTotal hphase
        (by omega) hindex (wp_pure.mpr ?_))
      exact (h.mono (by omega)).enterRender (le_refl _)

omit [Double α] in
/-- The whole document is read only when it was not before. -/
theorem wp_loadLegacyTexts (native : NativeTextExtractor α) (h : InPages total bound pages m)
    {Q : Bool × PageRun α → Monitor → Prop}
    (hQ : ∀ r m', InPages total bound r.2 m' → r.2.text = pages.text →
      m'.phase = m.phase → Q r m') :
    wp Monitor.step (loadLegacyTexts options native pages) Q Ends m := by
  unfold loadLegacyTexts
  split_ifs with hloaded
  · exact wp_pure.mpr (hQ _ _ h rfl rfl)
  · have hwhole : m.wholeText = false := by
      by_contra hcontra
      exact hloaded (h.wholeText (Bool.not_eq_false _ ▸ hcontra))
    refine wp_bind.mpr (wp_called { m with wholeText := true } ?_ ?_)
    · unfold Monitor.step
      rw [h.live, hwhole]
      rfl
    · split
      · exact wp_pure.mpr (hQ _ _ { h with wholeText := fun _ => rfl } rfl rfl)
      · exact wp_pure.mpr (hQ _ _ { h with wholeText := fun _ => rfl } rfl rfl)

omit [Double α] in
theorem wp_takeNativeText (pageCount index : Nat) (h : InPages total bound pages m)
    {Q : Except Status (NativeText α) × PageRun α → Monitor → Prop}
    (hQ : ∀ r m', InPages total bound r.2 m' → r.2.text = pages.text →
      m'.phase = m.phase → Q r m') :
    wp Monitor.step (takeNativeText options services pageCount index pages) Q Ends m := by
  unfold takeNativeText
  split
  · exact wp_pure.mpr (hQ _ _ h rfl rfl)
  · split_ifs
    · refine wp_bind.mpr (wp_called m ?_ ?_)
      · unfold Monitor.step
        rw [h.live]
      · split
        · exact wp_pure.mpr (hQ _ _ h rfl rfl)
        · exact wp_pure.mpr (hQ _ _ h rfl rfl)
    · unfold takeLegacyText
      refine wp_bind.mpr (wp_loadLegacyTexts options _ h ?_)
      rintro ⟨extracted, pages'⟩ m' h' htext hphase
      dsimp only
      split_ifs
      · exact wp_pure.mpr (hQ (_, pages') m' h' htext hphase)
      · exact wp_pure.mpr (hQ (_, pages') m' h' htext hphase)
      · split
        · exact wp_stop.mpr h'.live
        · exact wp_pure.mpr (hQ _ _ { h' with } htext hphase)

theorem wp_orientPage (page : RenderedPage) (rotation : PageRotation) (text : PageText α)
    {Q : RenderedPage × PageText α → Monitor → Prop} (hlive : m.failure = none)
    (hQ : ∀ r, Q r m) : wp Monitor.step (orientPage env options page rotation text) Q Ends m := by
  unfold orientPage
  split_ifs
  · exact wp_pure.mpr (hQ _)
  · exact wp_stageFailed hlive
  · split
    · exact wp_stageFailed hlive
    · exact wp_pure.mpr (hQ _)

theorem wp_textStep (pageCount index : Nat) (page : RenderedPage)
    (h : InPages total (index + 1) pages m) (hindex : (index : Int) < total) :
    wp Monitor.step (textStep env options services pageCount index page pages)
      (fun r m => InPages total (index + 1) r.2.2 m) Ends m := by
  unfold textStep
  refine wp_bind.mpr (wp_begin _ _ _ h.live h.text (by omega) fun last hlast => ?_)
  have hbegun := h.enterText hlast pages.text.diagnostics
  refine wp_bind.mpr (wp_deadlineStatus hbegun.live ?_)
  refine wp_bind.mpr (wp_takeNativeText options services pageCount index hbegun ?_)
  intro r m' h' htext hphase
  dsimp only
  have hrunning : m'.phase .text = .running total last := by
    rw [hphase]
    exact Monitor.enter_phase_self
  split
  · exact wp_stageFailed h'.live
  next extraction _ =>
    split
    · exact wp_stageFailed h'.live
    · refine wp_bind.mpr (wp_orientPage env options page _ _ h'.live fun working => ?_)
      refine wp_bind.mpr (wp_warnings h'.live ?_)
      refine wp_bind.mpr (wp_pageProgress h'.live h'.text.ofStage h'.text.ofTotal hrunning hlast
        hindex (wp_pure.mpr ?_))
      have hstarted : r.2.text.started = true := by rw [htext]
      have hdone := h'.enterText (le_refl _) (r.2.text.diagnostics ++ extraction.diagnostics)
      rw [← hstarted] at hdone
      exact { hdone with }

theorem wp_layoutStep (index : Nat) (page : RenderedPage) (text : PageText α)
    (h : InPages total (index + 1) pages m) (hindex : (index : Int) < total) :
    wp Monitor.step (layoutStep env options services index page text pages)
      (fun r m => InPages total (index + 1) r.2 m) Ends m := by
  unfold layoutStep
  refine wp_bind.mpr (wp_begin _ _ _ h.live h.layout (by omega) fun last hlast => ?_)
  have hbegun := h.enterLayout hlast pages.layout.diagnostics
  refine wp_bind.mpr (wp_deadlineStatus hbegun.live ?_)
  split
  · exact wp_stageFailed hbegun.live
  · refine wp_bind.mpr (wp_warnings hbegun.live ?_)
    refine wp_bind.mpr (wp_pageProgress hbegun.live h.layout.ofStage h.layout.ofTotal
      Monitor.enter_phase_self hlast hindex (wp_pure.mpr ?_))
    rw [Monitor.enter_enter]
    exact h.enterLayout (le_refl _) _

theorem wp_tableStep (index : Nat) (page : RenderedPage) (text : PageText α)
    (layout : PageLayout α) (h : InPages total (index + 1) pages m)
    (hindex : (index : Int) < total) :
    wp Monitor.step (tableStep env options services index page text layout pages)
      (fun pages m => InPages total (index + 1) pages m) Ends m := by
  unfold tableStep
  refine wp_bind.mpr (wp_begin _ _ _ h.live h.table (by omega) fun last hlast => ?_)
  have hbegun := h.enterTable hlast pages.table.diagnostics
  refine wp_bind.mpr (wp_deadlineStatus hbegun.live ?_)
  split
  · exact wp_stop.mpr hbegun.live
  · exact wp_stageFailed hbegun.live
  · refine wp_bind.mpr (wp_warnings hbegun.live ?_)
    refine wp_bind.mpr (wp_pageProgress hbegun.live h.table.ofStage h.table.ofTotal
      Monitor.enter_phase_self hlast hindex (wp_pure.mpr ?_))
    rw [Monitor.enter_enter]
    exact { h.enterTable (le_refl _) _ with }

/-- **One page.** All four stages come one page further. -/
theorem wp_processPage (pageCount index : Nat) (h : InPages pageCount index pages m)
    (hindex : index < pageCount) :
    wp Monitor.step (processPage env options services renderer pageCount index pages)
      (fun pages m => InPages pageCount (index + 1 : Nat) pages m) Ends m := by
  have hlt : (index : Int) < pageCount := Int.ofNat_lt.mpr hindex
  unfold processPage
  refine wp_bind.mpr (wp_mono (wp_renderStep env options renderer index h hlt) fun r m h => ?_)
  refine wp_bind.mpr (wp_mono (wp_textStep env options services pageCount index _ h hlt)
    fun r m h => ?_)
  refine wp_bind.mpr (wp_mono (wp_layoutStep env options services index _ _ h hlt) fun r m h => ?_)
  exact wp_tableStep env options services index _ _ _ h hlt

/-- **All pages**, by induction on those that remain. -/
theorem wp_processPages (pageCount : Nat) : ∀ (remaining index : Nat) (pages : PageRun α)
    (m : Monitor), InPages pageCount index pages m → index + remaining = pageCount →
    wp Monitor.step (processPages env options services renderer pageCount remaining index pages)
      (fun pages m => InPages pageCount pageCount pages m) Ends m := by
  intro remaining
  induction remaining with
  | zero =>
    intro index pages m h hcount
    obtain rfl : index = pageCount := hcount
    exact wp_pure.mpr h
  | succ remaining ih =>
    intro index pages m h hcount
    exact wp_bind.mpr (wp_mono (wp_processPage env options services renderer pageCount index h
      (by omega)) fun pages m h => ih (index + 1) pages m h (by omega))

end Page

/-! ## After the pages -/

section After

variable {α : Type} [Double α] (env : Environment) (options : PipelineRunOptions)
  (services : PipelineServices α) {pages : PageRun α} {m : Monitor}

theorem wp_finishPages {total bound : Int} (h : InPages total bound pages m) (htotal : 0 ≤ total) :
    wp Monitor.step (finishPages env options pages)
      (fun _ m => Reached [.readingOrder, .assembly] m) Ends m := by
  unfold finishPages
  refine wp_bind.mpr (wp_complete .render h.live h.render htotal ?_)
  refine wp_bind.mpr (wp_complete .text h.live h.text htotal ?_)
  refine wp_bind.mpr (wp_complete .layout h.live h.layout htotal ?_)
  refine wp_bind.mpr (wp_deadlineStatus h.live ?_)
  split
  · exact wp_stageFailed h.live
  · refine wp_bind.mpr (wp_complete .table h.live h.table htotal (wp_pure.mpr ?_))
    refine ⟨h.live, fun stage => ?_⟩
    cases stage with
    | configure => exact h.configured
    | opening => exact h.opened
    | readingOrder => exact h.unordered
    | assembly => exact h.unassembled
    | render | text | layout | table => rfl

omit [Double α] in
theorem wp_orderStep {waiting : List Stage} (h : Reached (.readingOrder :: waiting) m)
    (hstage : .readingOrder ∉ waiting) :
    wp Monitor.step (orderStep env options services pages) (fun _ m => Reached waiting m) Ends m := by
  unfold orderStep
  refine wp_bind.mpr (wp_deadlineStatus h.live ?_)
  refine wp_bind.mpr (wp_started h.live h.idle ?_)
  split
  · exact wp_stageFailed h.live
  next orders horders =>
    have hlength : orders.length = pages.renderedPages.length := by
      rw [orderStage_length horders, List.length_map]
    rw [hlength]
    refine wp_stageEnd h.live Monitor.enter_phase_self (Int.natCast_nonneg _) (wp_pure.mpr ?_)
    rw [Monitor.enter_enter]
    exact h.next hstage

theorem wp_assembleStep (source : OpenedSource) (fingerprint : FileFingerprint)
    (provenance : RunProvenance) (orders : List (PageReadingOrder α)) {waiting : List Stage}
    (h : Reached (.assembly :: waiting) m) (hstage : .assembly ∉ waiting) :
    wp Monitor.step (assembleStep env options source fingerprint provenance pages orders)
      (fun _ m => Reached waiting m) Ends m := by
  unfold assembleStep
  refine wp_bind.mpr (wp_deadlineStatus h.live ?_)
  refine wp_bind.mpr (wp_started h.live h.idle ?_)
  split
  · exact wp_stageFailed h.live
  · split
    · exact wp_stop.mpr h.live
    · refine wp_stageEnd h.live Monitor.enter_phase_self (by decide) (wp_pure.mpr ?_)
      rw [Monitor.enter_enter]
      exact h.next hstage

theorem wp_parsePages (source : OpenedSource) (fingerprint : FileFingerprint)
    (provenance : RunProvenance)
    (h : Reached [.render, .text, .layout, .table, .readingOrder, .assembly] m)
    (hrender : m.wholeRender = false) (htext : m.wholeText = false) :
    wp Monitor.step (parsePages env options services source fingerprint provenance)
      (fun _ m => Reached [] m) Ends m := by
  unfold parsePages
  refine wp_bind.mpr (wp_deadlineStatus h.live ?_)
  split
  · exact wp_stageFailed h.live
  next renderer _ =>
    split_ifs
    · exact wp_stageFailed h.live
    · refine wp_bind.mpr (wp_mono (wp_beginPages options provenance renderer _ h hrender htext)
        fun pages m h => ?_)
      refine wp_bind.mpr (wp_mono (wp_processPages env options services renderer _ _ 0 pages m h
        (Nat.zero_add _)) fun pages m h => ?_)
      refine wp_bind.mpr (wp_mono (wp_finishPages env options h (Int.natCast_nonneg _))
        fun pages m h => ?_)
      refine wp_bind.mpr (wp_mono (wp_orderStep env options services h (by decide))
        fun orders m h => ?_)
      exact wp_assembleStep env options source fingerprint provenance orders h (by decide)

theorem wp_parseInternal (services : Option (PipelineServices α))
    (serviceProvenance : Option RunProvenance) (registry : Option (BackendRegistry α)) :
    wp Monitor.step (parseInternal env options services serviceProvenance registry)
      (fun _ m => Reached [] m) Ends .initial := by
  have hinitial : Reached [.configure, .opening, .render, .text, .layout, .table, .readingOrder,
      .assembly] Monitor.initial := ⟨rfl, fun stage => by cases stage <;> rfl⟩
  have hconfigured := hinitial.next (by decide)
  unfold parseInternal
  refine wp_bind.mpr (wp_mono (wp_configure options services serviceProvenance registry)
    fun created m h => ?_)
  subst h
  refine wp_bind.mpr (wp_openDocument env options _ _ hconfigured fun opened => ?_)
  exact wp_parsePages env options _ _ _ _ (hconfigured.next (by decide)) rfl rfl

end After

/-! ## The events of a run -/

section Runs

variable {α : Type} [Double α] (env : Environment) (options : PipelineRunOptions)
  (services : Option (PipelineServices α)) (serviceProvenance : Option RunProvenance)
  (registry : Option (BackendRegistry α))

theorem mem_events {event : StageEvent} {trace : List Observation} :
    event ∈ events trace ↔ .event event ∈ trace := by
  unfold events
  rw [List.mem_filterMap]
  constructor
  · rintro ⟨o, ho, heq⟩
    cases o with
    | event event' => obtain rfl := Option.some.inj heq; exact ho
    | call call => cases heq
  · exact fun h => ⟨_, h, rfl⟩

/-- A run that fails has reported so last and only once, with the code that it returns. A run that
succeeds has reported no failure, and the start and the completion of every stage. -/
def ReportsOutcome {τ : Type} (trace : List StageEvent) : Except Stop τ → Prop
  | .ok _ => (∀ info, .failed info ∉ trace) ∧
      ∀ stage, trace.countP (isStart stage) = 1 ∧ trace.countP (isCompletion stage) = 1
  | .error (.failed status) => ∃ before info, trace = before ++ [.failed info] ∧
      info.code = status.code ∧ ∀ other, .failed other ∉ before
  | .error _ => ∀ info, .failed info ∉ trace

/-- **Stage events.** Stages start and complete at most once, and report their progress between,
upwards and up to their total; and the outcome of the run is reported. -/
theorem stage_event_protocol :
    StageProtocol (events (parseInternal env options services serviceProvenance registry).emitted) ∧
    ReportsOutcome (events (parseInternal env options services serviceProvenance registry).emitted)
      (parseInternal env options services serviceProvenance registry).result := by
  obtain ⟨m, hrun, hresult⟩ := wp_parseInternal env options services serviceProvenance registry
  generalize parseInternal env options services serviceProvenance registry = parse at *
  have hfailure := failureSaw_of_run hrun
  have hsilent : m.failure = none → ∀ info, .failed info ∉ events parse.emitted := by
    intro hnone info hinfo
    unfold FailureSaw at hfailure
    rw [hnone] at hfailure
    exact hfailure info (mem_events.mp hinfo)
  refine ⟨Monitor.protocol hrun, ?_⟩
  cases hparse : parse.result with
  | ok parsed =>
    rw [hparse] at hresult
    refine ⟨hsilent hresult.live, fun stage => ?_⟩
    have hsaw := saw_of_run (Monitor.run_phaseStep hrun stage)
    have hdone : m.phase stage = .done := (hresult.phases stage).trans (if_neg (by simp))
    rw [hdone] at hsaw
    exact ⟨hsaw.starts, hsaw.completions⟩
  | error reason =>
    rw [hparse] at hresult
    cases reason with
    | failed status =>
      have hcode : m.failure = some status.code := hresult
      unfold FailureSaw at hfailure
      rw [hcode] at hfailure
      obtain ⟨before, info, heq, hinfo, hothers⟩ := hfailure
      refine ⟨events before, info, ?_, hinfo, fun other h => hothers other (mem_events.mp h)⟩
      rw [heq]
      exact List.filterMap_append
    | thrown _ => exact hsilent hresult
    | undefined => exact hsilent hresult

/-- The renderer and the extractor are asked at most once for a whole document. -/
theorem whole_document_calls :
    let trace := (parseInternal env options services serviceProvenance registry).emitted
    trace.count (.call .renderPages) ≤ 1 ∧ trace.count (.call .extractNativeText) ≤ 1 := by
  obtain ⟨m, hrun, -⟩ := wp_parseInternal env options services serviceProvenance registry
  obtain ⟨hrender, htext⟩ := calls_of_run hrun
  exact ⟨hrender.trans_le (Bool.toNat_le _), htext.trans_le (Bool.toNat_le _)⟩

end Runs

end DocParser.Pipeline
