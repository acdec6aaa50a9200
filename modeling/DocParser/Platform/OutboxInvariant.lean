import DocParser.Platform.Outbox

/-!
# What the outbox keeps

`LedgerInv` ties the table, the delivery markers and the stream to the history: an unpublished
job has a marker exactly if it was appended, and a published one was appended before.
`DispatcherInv` says what a dispatcher may rely on at each point of its transaction. A step of
one dispatcher leaves what the others hold alone (`Untouched`), so `OutboxInv.step` looks only
at the dispatcher that moves.
-/

namespace DocParser.Platform

open Redis

/-- When a fact may follow the facts before it. -/
def deliveryRule (before : List DeliveryFact) : DeliveryFact → Prop
  | .appended job _ => ∀ job' id', .appended job' id' ∈ before → job'.jobId ≠ job.jobId
  | .markerSet jobId => .published jobId ∉ before
  | .markerDeleted jobId => .published jobId ∈ before
  | .published jobId => ∃ job id, .appended job id ∈ before ∧ job.jobId = jobId

/-- The entry that a fact added to the stream. -/
def DeliveryFact.entry? : DeliveryFact → Option (StreamId × JobFields)
  | appended job id => some (id, job.fields)
  | _ => none

def Outbox.Appended (o : Outbox) (jobId : String) : Prop :=
  ∃ job id, .appended job id ∈ o.history ∧ job.jobId = jobId

structure LedgerInv (r : RedisState) (o : Outbox) : Prop where
  justified : History.Justified deliveryRule o.history
  keyed : ∀ jobId row, o.rows jobId = some row → row.job.jobId = jobId
  unique : ∀ i j row row', o.rows i = some row → o.rows j = some row' →
    row.job.runId = row'.job.runId → i = j
  appended : ∀ job id, .appended job id ∈ o.history →
    ∃ row, o.rows job.jobId = some row ∧ row.job = job
  published : ∀ jobId, .published jobId ∈ o.history ↔ o.Published jobId
  marker : ∀ jobId, ¬ o.Published jobId → (r.dispatched jobId ≠ none ↔ o.Appended jobId)
  stream : r.jobs.entries.Sublist (o.history.filterMap DeliveryFact.entry?)

/-- What dispatcher `d` in phase `p` may rely on. -/
structure DispatcherInv (r : RedisState) (o : Outbox) (d : Nat) (p : DispatchPhase) : Prop where
  held : ∀ job, p.holds = some job → o.locks job.jobId = some d ∧
    ∃ row, o.rows job.jobId = some row ∧ row.job = job ∧ row.published = false
  delivered : ∀ job, p.delivered = some job → r.dispatched job.jobId ≠ none
  cleanup : ∀ jobId ∈ p.cleanup, o.Published jobId

structure OutboxInv (s : OutboxState) : Prop where
  ledger : LedgerInv s.redis s.outbox
  dispatcher : ∀ d, DispatcherInv s.redis s.outbox d (s.outbox.dispatchers d)
  deletes : ∀ d jobId, (d, jobId) ∈ s.outbox.deletes → s.outbox.Published jobId

/-- A step leaves alone what dispatchers other than `d` rely on. -/
structure Untouched (d : Nat) (s t : OutboxState) : Prop where
  locked : ∀ jobId e row, s.outbox.locks jobId = some e → e ≠ d →
    s.outbox.rows jobId = some row →
    t.outbox.locks jobId = some e ∧ t.outbox.rows jobId = some row
  published : ∀ jobId, s.outbox.Published jobId → t.outbox.Published jobId
  markers : ∀ jobId, s.redis.dispatched jobId ≠ none → t.redis.dispatched jobId = none →
    s.outbox.Published jobId

theorem DispatchPhase.holds_of_delivered {p : DispatchPhase} {job : OutboxJob}
    (h : p.delivered = some job) : p.holds = some job := by
  cases p with
  | answered j reply =>
    cases reply with
    | none => cases h
    | some id => exact h
  | updated j => exact h
  | idle | selected | sent | listing | cleaning | deleting | deleted => cases h

section Frame

variable {d e : Nat} {s t : OutboxState} {p : DispatchPhase}

theorem DispatcherInv.other (h : DispatcherInv s.redis s.outbox e p) (hu : Untouched d s t)
    (hne : e ≠ d) : DispatcherInv t.redis t.outbox e p := by
  refine ⟨fun job hp => ?_, fun job hp hnone => ?_, fun jobId hj => hu.published _ (h.cleanup _ hj)⟩
  · obtain ⟨hlock, row, hrow, hjob, hpub⟩ := h.held job hp
    obtain ⟨hlock', hrow'⟩ := hu.locked _ _ row hlock hne hrow
    exact ⟨hlock', row, hrow', hjob, hpub⟩
  · obtain ⟨_, row, hrow, _, hpub⟩ := h.held job (DispatchPhase.holds_of_delivered hp)
    obtain ⟨row', hrow', hpub'⟩ := hu.markers _ (h.delivered job hp) hnone
    rw [hrow] at hrow'
    cases hrow'
    rw [hpub] at hpub'
    cases hpub'

theorem LedgerInv.congr {r r' : RedisState} {o o' : Outbox} (h : LedgerInv r o)
    (hrows : o'.rows = o.rows) (hhist : o'.history = o.history)
    (hmarker : r'.dispatched = r.dispatched) (hstream : r'.jobs.entries.Sublist r.jobs.entries) :
    LedgerInv r' o' := by
  have hpub : o'.Published = o.Published := by
    funext jobId; unfold Outbox.Published; rw [hrows]
  have happ : o'.Appended = o.Appended := by
    funext jobId; unfold Outbox.Appended; rw [hhist]
  refine ⟨?_, ?_, ?_, ?_, ?_, ?_, ?_⟩
  · rw [hhist]; exact h.justified
  · rw [hrows]; exact h.keyed
  · rw [hrows]; exact h.unique
  · rw [hhist, hrows]; exact h.appended
  · rw [hhist, hpub]; exact h.published
  · rw [hpub, happ, hmarker]; exact h.marker
  · rw [hhist]; exact hstream.trans h.stream

/-- The invariant after dispatcher `d` moved to phase `p`, from what the step did itself. -/
theorem OutboxInv.of_step {r' : RedisState} {o' : Outbox} (h : OutboxInv s)
    (hu : Untouched d s ⟨r', o'⟩) (hledger : LedgerInv r' o')
    (hothers : o'.dispatchers = s.outbox.dispatchers) (hself : DispatcherInv r' o' d p)
    (hdeletes : o'.deletes = s.outbox.deletes) : OutboxInv ⟨r', o'.setPhase d p⟩ := by
  refine ⟨hledger.congr rfl rfl rfl (.refl _), fun e => ?_, fun e jobId hmem => ?_⟩
  · by_cases he : e = d
    · subst he
      have hphase : (o'.setPhase e p).dispatchers e = p := Function.update_self ..
      show DispatcherInv r' (o'.setPhase e p) e ((o'.setPhase e p).dispatchers e)
      rw [hphase]
      exact ⟨hself.held, hself.delivered, hself.cleanup⟩
    · have hphase : (o'.setPhase d p).dispatchers e = s.outbox.dispatchers e := by
        rw [← hothers]; exact Function.update_of_ne he ..
      show DispatcherInv r' (o'.setPhase d p) e ((o'.setPhase d p).dispatchers e)
      rw [hphase]
      have hi := (h.dispatcher e).other hu he
      exact ⟨hi.held, hi.delivered, hi.cleanup⟩
  · change (e, jobId) ∈ o'.deletes at hmem
    rw [hdeletes] at hmem
    exact hu.published _ (h.deletes e jobId hmem)

end Frame

/-! ## The ledger under the steps that change it -/

section Ledger

variable {r : RedisState} {o : Outbox} {job : OutboxJob} {row : OutboxRow}

theorem LedgerInv.insert (h : LedgerInv r o) (hnone : o.rows job.jobId = none)
    (hrun : ∀ jobId row, o.rows jobId = some row → row.job.runId ≠ job.runId) :
    LedgerInv r (o.setRow job.jobId ⟨job, false, false⟩) := by
  have hget : ∀ {jobId row}, Function.update o.rows job.jobId (some ⟨job, false, false⟩) jobId =
      some row → (jobId = job.jobId ∧ row = ⟨job, false, false⟩) ∨ o.rows jobId = some row := by
    intro jobId row heq
    by_cases hj : jobId = job.jobId
    · subst hj
      rw [Function.update_self] at heq
      exact Or.inl ⟨rfl, (Option.some.inj heq).symm⟩
    · rw [Function.update_of_ne hj] at heq
      exact Or.inr heq
  have hpub : ∀ jobId, (o.setRow job.jobId ⟨job, false, false⟩).Published jobId ↔
      o.Published jobId := by
    intro jobId
    constructor
    · rintro ⟨row, hrow, hp⟩
      rcases hget hrow with ⟨_, rfl⟩ | hold
      · cases hp
      · exact ⟨row, hold, hp⟩
    · rintro ⟨row, hrow, hp⟩
      refine ⟨row, ?_, hp⟩
      have hne : jobId ≠ job.jobId := fun heq => by rw [heq, hnone] at hrow; cases hrow
      show Function.update o.rows job.jobId _ jobId = some row
      rw [Function.update_of_ne hne]
      exact hrow
  refine ⟨h.justified, fun jobId row heq => ?_, fun i j row row' hi hj heq => ?_,
    fun job' id hmem => ?_, fun jobId => (h.published jobId).trans (hpub jobId).symm,
    fun jobId hn => h.marker jobId fun hp => hn ((hpub jobId).mpr hp), h.stream⟩
  · rcases hget heq with ⟨rfl, rfl⟩ | hold
    · rfl
    · exact h.keyed jobId row hold
  · rcases hget hi with ⟨rfl, rfl⟩ | hi' <;> rcases hget hj with ⟨rfl, rfl⟩ | hj'
    · rfl
    · exact absurd heq.symm (hrun j row' hj')
    · exact absurd heq (hrun i row hi')
    · exact h.unique i j row row' hi' hj' heq
  · obtain ⟨row, hrow, hjob⟩ := h.appended job' id hmem
    refine ⟨row, ?_, hjob⟩
    have hne : job'.jobId ≠ job.jobId := fun heq => by rw [heq, hnone] at hrow; cases hrow
    show Function.update o.rows job.jobId _ job'.jobId = some row
    rw [Function.update_of_ne hne]
    exact hrow

/-- Setting flags of a row that exists keeps the keys of the table. -/
theorem LedgerInv.setRow_rows (h : LedgerInv r o) (hrow : o.rows job.jobId = some row)
    (row' : OutboxRow) (hjob : row'.job = row.job) :
    (∀ jobId x, (o.setRow job.jobId row').rows jobId = some x → x.job.jobId = jobId) ∧
    (∀ i j x y, (o.setRow job.jobId row').rows i = some x →
      (o.setRow job.jobId row').rows j = some y → x.job.runId = y.job.runId → i = j) ∧
    (∀ job' id, .appended job' id ∈ o.history →
      ∃ x, (o.setRow job.jobId row').rows job'.jobId = some x ∧ x.job = job') := by
  have hget : ∀ {jobId x}, (o.setRow job.jobId row').rows jobId = some x →
      ∃ y, o.rows jobId = some y ∧ y.job = x.job := by
    intro jobId x heq
    change Function.update o.rows job.jobId (some row') jobId = some x at heq
    by_cases hj : jobId = job.jobId
    · subst hj
      rw [Function.update_self] at heq
      cases heq
      exact ⟨row, hrow, hjob.symm⟩
    · rw [Function.update_of_ne hj] at heq
      exact ⟨x, heq, rfl⟩
  refine ⟨fun jobId x heq => ?_, fun i j x y hi hj heq => ?_, fun job' id hmem => ?_⟩
  · obtain ⟨y, hy, hxy⟩ := hget heq
    rw [← hxy]; exact h.keyed jobId y hy
  · obtain ⟨x', hx, hxx⟩ := hget hi
    obtain ⟨y', hy, hyy⟩ := hget hj
    exact h.unique i j x' y' hx hy (by rw [hxx, hyy]; exact heq)
  · obtain ⟨x, hx, hxjob⟩ := h.appended job' id hmem
    by_cases hj : job'.jobId = job.jobId
    · refine ⟨row', ?_, ?_⟩
      · show Function.update o.rows job.jobId (some row') job'.jobId = some row'
        rw [hj, Function.update_self]
      · rw [hj, hrow] at hx
        cases hx
        rw [hjob]; exact hxjob
    · refine ⟨x, ?_, hxjob⟩
      show Function.update o.rows job.jobId (some row') job'.jobId = some x
      rw [Function.update_of_ne hj]
      exact hx

theorem Outbox.published_setRow_self {jobId : String} (hp : row.published = true) :
    (o.setRow jobId row).Published jobId :=
  ⟨row, Function.update_self .., hp⟩

theorem Outbox.published_setRow_of_ne {i jobId : String} (hne : i ≠ jobId) :
    (o.setRow jobId row).Published i ↔ o.Published i := by
  unfold Published setRow
  dsimp only
  rw [Function.update_of_ne hne]

theorem LedgerInv.commit (h : LedgerInv r o) (hrow : o.rows job.jobId = some row)
    (hmarker : r.dispatched job.jobId ≠ none) (hpub : row.published = false) :
    LedgerInv r (o.commit job row) := by
  have hn : ¬ o.Published job.jobId := by
    rintro ⟨x, hx, hp⟩
    rw [hrow] at hx
    cases hx
    rw [hpub] at hp
    cases hp
  obtain ⟨hkeyed, hunique, happended⟩ :=
    h.setRow_rows hrow { row with published := true } rfl
  have happ : o.Appended job.jobId := (h.marker _ hn).mp hmarker
  refine ⟨h.justified.concat happ, hkeyed, hunique, fun job' id hmem => ?_, fun jobId => ?_,
    fun jobId hn' => ?_, ?_⟩
  · rcases List.mem_append.mp hmem with hmem | hmem
    · exact happended job' id hmem
    · simp at hmem
  · show _ ∈ o.history ++ [_] ↔ (o.setRow job.jobId { row with published := true }).Published jobId
    rw [List.mem_append, List.mem_singleton, DeliveryFact.published.injEq]
    by_cases hj : jobId = job.jobId
    · subst hj
      exact ⟨fun _ => Outbox.published_setRow_self rfl, fun _ => Or.inr rfl⟩
    · rw [Outbox.published_setRow_of_ne hj, h.published]
      exact ⟨fun hor => hor.resolve_right hj, Or.inl⟩
  · change ¬ (o.setRow job.jobId { row with published := true }).Published jobId at hn'
    have hj : jobId ≠ job.jobId := fun heq => hn' (heq ▸ Outbox.published_setRow_self rfl)
    rw [Outbox.published_setRow_of_ne hj] at hn'
    rw [h.marker jobId hn']
    unfold Outbox.Appended Outbox.commit Outbox.log
    simp only [List.mem_append, List.mem_singleton, reduceCtorEq, or_false]
    exact Iff.rfl
  · show r.jobs.entries.Sublist ((o.history ++ [_]).filterMap _)
    rw [List.filterMap_append]
    exact h.stream.trans (List.sublist_append_left _ _)

theorem LedgerInv.mark (h : LedgerInv r o) {jobId : String} (hrow : o.rows jobId = some row)
    (hpub : row.published = true) :
    LedgerInv r (o.setRow jobId { row with markerCleaned := true }) := by
  obtain rfl : row.job.jobId = jobId := h.keyed jobId row hrow
  obtain ⟨hkeyed, hunique, happended⟩ :=
    h.setRow_rows hrow { row with markerCleaned := true } rfl
  have hp : ∀ i, (o.setRow row.job.jobId { row with markerCleaned := true }).Published i ↔
      o.Published i := by
    intro i
    by_cases hi : i = row.job.jobId
    · subst hi
      exact ⟨fun _ => ⟨row, hrow, hpub⟩, fun _ => Outbox.published_setRow_self hpub⟩
    · exact Outbox.published_setRow_of_ne hi
  exact ⟨h.justified, hkeyed, hunique, happended, fun i => (h.published i).trans (hp i).symm,
    fun i hn => h.marker i fun hpi => hn ((hp i).mpr hpi), h.stream⟩

theorem LedgerInv.delete (h : LedgerInv r o) (d : Nat) {jobId : String}
    (hpub : o.Published jobId) :
    LedgerInv (r.setDispatched jobId none) (o.deleteEffect d jobId) := by
  have hmem : ∀ f, f ∈ o.history ++ [DeliveryFact.markerDeleted jobId] ↔
      f ∈ o.history ∨ f = .markerDeleted jobId := fun f => by
    rw [List.mem_append, List.mem_singleton]
  refine ⟨h.justified.concat ((h.published jobId).mpr hpub), h.keyed, h.unique,
    fun job' id hm => h.appended job' id (((hmem _).mp hm).resolve_right nofun),
    fun i => ?_, fun i hn => ?_, ?_⟩
  · refine Iff.trans ?_ (h.published i)
    exact (hmem _).trans ⟨fun hor => hor.resolve_right nofun, Or.inl⟩
  · have hi : i ≠ jobId := fun heq => hn (heq ▸ hpub)
    have happ : (o.deleteEffect d jobId).Appended i ↔ o.Appended i := by
      unfold Outbox.Appended Outbox.deleteEffect Outbox.log
      simp only [List.mem_append, List.mem_singleton, reduceCtorEq, or_false]
    rw [happ, ← h.marker i hn]
    show Function.update r.dispatched jobId none i ≠ none ↔ _
    rw [Function.update_of_ne hi]
  · show r.jobs.entries.Sublist ((o.history ++ [_]).filterMap _)
    rw [List.filterMap_append]
    exact h.stream.trans (List.sublist_append_left _ _)

/-- The script keeps the ledger, and its job has a marker unless the stream is full. -/
theorem LedgerInv.eval (h : LedgerInv r o) (maximumLength : Nat) (id : StreamId)
    (hrow : o.rows job.jobId = some row) (hjob : row.job = job) (hpub : row.published = false) :
    LedgerInv (enqueueJob maximumLength job id r).1
      (o.log ((enqueueJob maximumLength job id r).2.facts job)) ∧
    ((enqueueJob maximumLength job id r).2.reply ≠ none →
      (enqueueJob maximumLength job id r).1.dispatched job.jobId ≠ none) := by
  have hn : ¬ o.Published job.jobId := by
    rintro ⟨x, hx, hp⟩
    rw [hrow] at hx
    cases hx
    rw [hpub] at hp
    cases hp
  have hlog : ∀ r' : RedisState, r'.dispatched = r.dispatched →
      r'.jobs.entries.Sublist r.jobs.entries → LedgerInv r' (o.log []) := fun r' hd hs =>
    h.congr rfl (List.append_nil _) hd hs
  rcases enqueueJob_cases maximumLength job id r with
    ⟨previous, hprev, heq⟩ | ⟨_, heq⟩ | ⟨r', hnone, heq, hd, hs, _⟩
  · rw [heq]
    exact ⟨hlog r rfl (.refl _), fun _ => by rw [hprev]; exact nofun⟩
  · rw [heq]
    exact ⟨hlog _ rfl (trimJobs_sublist r.jobs), fun hne => absurd rfl hne⟩
  · rw [heq]
    have happ : ¬ o.Appended job.jobId := fun ha => (h.marker _ hn).mpr ha hnone
    have hmem : ∀ f, f ∈ o.history ++ [DeliveryFact.appended job id, .markerSet job.jobId] ↔
        f ∈ o.history ∨ f = .appended job id ∨ f = .markerSet job.jobId := fun f => by
      rw [List.mem_append, List.mem_cons, List.mem_singleton]
    refine ⟨⟨?_, h.keyed, h.unique, fun job' id' hm => ?_, fun i => ?_, fun i hni => ?_, ?_⟩,
      fun _ => by rw [hd, Function.update_self]; exact nofun⟩
    · show History.Justified deliveryRule (o.history ++ ([_] ++ [_]))
      rw [← List.append_assoc]
      refine (h.justified.concat ?_).concat ?_
      · exact fun job' id' hm heq' => happ ⟨job', id', hm, heq'⟩
      · intro hm
        rcases List.mem_append.mp hm with hm | hm
        · exact hn ((h.published _).mp hm)
        · simp at hm
    · rcases (hmem _).mp hm with hm | heq' | heq'
      · exact h.appended job' id' hm
      · cases heq'
        exact ⟨row, hrow, hjob⟩
      · cases heq'
    · refine Iff.trans ?_ (h.published i)
      exact (hmem _).trans ⟨fun hor => hor.resolve_right (by simp), Or.inl⟩
    · rw [hd]
      by_cases hi : i = job.jobId
      · subst hi
        rw [Function.update_self]
        exact ⟨fun _ => ⟨job, id, (hmem _).mpr (Or.inr (Or.inl rfl)), rfl⟩, fun _ => nofun⟩
      · rw [Function.update_of_ne hi, h.marker i hni]
        constructor
        · rintro ⟨job', id', hm, hj⟩
          exact ⟨job', id', (hmem _).mpr (Or.inl hm), hj⟩
        · rintro ⟨job', id', hm, hj⟩
          rcases (hmem _).mp hm with hm | heq' | heq'
          · exact ⟨job', id', hm, hj⟩
          · cases heq'
            exact absurd hj.symm hi
          · cases heq'
    · rw [hs]
      show ((trimJobs r.jobs).entries ++ [(id, job.fields)]).Sublist
        ((o.history ++ [_, _]).filterMap _)
      rw [List.filterMap_append]
      exact ((trimJobs_sublist r.jobs).trans h.stream).append (.refl _)

end Ledger

/-! ## Steps -/

section Steps

variable {r r' : RedisState} {o o' : Outbox} {d : Nat} {p : DispatchPhase}

/-- A transaction that ends unlocks only the row it held. -/
theorem OutboxInv.rollback_locks (h : OutboxInv ⟨r, o⟩) {jobId : String} {e : Nat}
    (hlock : o.locks jobId = some e) (hne : e ≠ d) : (o.rollback d).locks jobId = some e := by
  unfold Outbox.rollback
  split
  next job hjob =>
    have hj : jobId ≠ job.jobId := by
      rintro rfl
      have := ((h.dispatcher d).held job hjob).1
      rw [hlock] at this
      exact hne (Option.some.inj this)
    show Function.update o.locks job.jobId none jobId = some e
    rw [Function.update_of_ne hj]
    exact hlock
  · exact hlock

@[simp] theorem Outbox.rollback_rows : (o.rollback d).rows = o.rows := by
  unfold rollback; split <;> rfl

@[simp] theorem Outbox.rollback_history : (o.rollback d).history = o.history := by
  unfold rollback; split <;> rfl

@[simp] theorem Outbox.rollback_dispatchers :
    (o.rollback d).dispatchers = o.dispatchers := by
  unfold rollback; split <;> rfl

@[simp] theorem Outbox.rollback_deletes : (o.rollback d).deletes = o.deletes := by
  unfold rollback; split <;> rfl

/-- A phase that holds no row and cleans nothing asks for nothing. -/
theorem DispatcherInv.free (hh : p.holds = none) (hc : p.cleanup = []) :
    DispatcherInv r o d p := by
  refine ⟨fun job hp => ?_, fun job hp => ?_, fun jobId hj => ?_⟩
  · rw [hh] at hp; cases hp
  · rw [DispatchPhase.holds_of_delivered hp] at hh; cases hh
  · rw [hc] at hj; cases hj

/-- A step that only moves dispatcher `d` to another phase. -/
theorem OutboxInv.setPhase (h : OutboxInv ⟨r, o⟩) (hp : DispatcherInv r o d p) :
    OutboxInv ⟨r, o.setPhase d p⟩ := by
  exact h.of_step ⟨fun _ _ _ hl _ hr => ⟨hl, hr⟩, fun _ hj => hj,
    fun _ hsome hnone => absurd hnone hsome⟩ h.ledger rfl hp rfl

/-- A transaction that ends without a change. -/
theorem OutboxInv.rollback (h : OutboxInv ⟨r, o⟩) (hh : p.holds = none) (hc : p.cleanup = []) :
    OutboxInv ⟨r, (o.rollback d).setPhase d p⟩ := by
  have hpub : (o.rollback d).Published = o.Published := by
    unfold Outbox.Published
    rw [Outbox.rollback_rows]
  refine h.of_step ⟨fun jobId e row hl hne hr => ⟨h.rollback_locks hl hne, ?_⟩,
    fun _ hj => by rw [hpub]; exact hj, fun _ hsome hnone => absurd hnone hsome⟩
    (h.ledger.congr Outbox.rollback_rows Outbox.rollback_history rfl (.refl _))
    Outbox.rollback_dispatchers (.free hh hc) Outbox.rollback_deletes
  show (o.rollback d).rows jobId = some row
  rw [Outbox.rollback_rows]
  exact hr

theorem OutboxInv.select (h : OutboxInv ⟨r, o⟩) {row : OutboxRow}
    (hrow : o.rows row.job.jobId = some row) (hpub : row.published = false)
    (hfree : o.locks row.job.jobId = none) :
    OutboxInv ⟨r, (o.setLock row.job.jobId (some d)).setPhase d (.selected row.job)⟩ := by
  refine h.of_step ⟨fun jobId e x hl _ hr => ⟨?_, hr⟩, fun _ hj => hj,
    fun _ hsome hnone => absurd hnone hsome⟩ (h.ledger.congr rfl rfl rfl (.refl _)) rfl ?_ rfl
  · have hj : jobId ≠ row.job.jobId := by
      rintro rfl
      change o.locks row.job.jobId = some e at hl
      rw [hfree] at hl
      cases hl
    show Function.update o.locks row.job.jobId (some d) jobId = some e
    rw [Function.update_of_ne hj]
    exact hl
  · refine ⟨fun job hjob => ?_, nofun, nofun⟩
    obtain rfl : row.job = job := Option.some.inj hjob
    exact ⟨Function.update_self .., row, hrow, rfl, hpub⟩

theorem OutboxInv.eval (h : OutboxInv ⟨r, o⟩) (maximumLength : Nat) {job : OutboxJob}
    (id : StreamId) (hd : o.dispatchers d = .sent job) :
    OutboxInv ⟨(enqueueJob maximumLength job id r).1,
      (o.log ((enqueueJob maximumLength job id r).2.facts job)).setPhase d
        (.answered job (enqueueJob maximumLength job id r).2.reply)⟩ := by
  obtain ⟨hlock, row, hrow, hjob, hpub⟩ := (h.dispatcher d).held job (by
    show (o.dispatchers d).holds = some job
    rw [hd]
    rfl)
  obtain ⟨hledger, hmarker⟩ := h.ledger.eval maximumLength id hrow hjob hpub
  have hkeeps : ∀ jobId, r.dispatched jobId ≠ none →
      (enqueueJob maximumLength job id r).1.dispatched jobId ≠ none := by
    intro jobId hsome
    rcases enqueueJob_cases maximumLength job id r with
      ⟨_, _, heq⟩ | ⟨_, heq⟩ | ⟨r', _, heq, hd', _⟩
    · rw [heq]; exact hsome
    · rw [heq]; exact hsome
    · rw [heq, hd']
      by_cases hj : jobId = job.jobId
      · rw [hj, Function.update_self]; exact nofun
      · rw [Function.update_of_ne hj]; exact hsome
  refine h.of_step ⟨fun _ _ _ hl _ hr => ⟨hl, hr⟩, fun _ hj => hj,
    fun jobId hsome hnone => absurd hnone (hkeeps jobId hsome)⟩ hledger rfl
    ⟨fun job' heq => ?_, fun job' heq => ?_, nofun⟩ rfl
  · obtain rfl : job = job' := Option.some.inj heq
    exact ⟨hlock, row, hrow, hjob, hpub⟩
  · cases hreply : (enqueueJob maximumLength job id r).2.reply with
    | none => rw [hreply] at heq; cases heq
    | some reply =>
      rw [hreply] at heq
      obtain rfl : job = job' := Option.some.inj heq
      exact hmarker (by rw [hreply]; exact nofun)

theorem OutboxInv.commit (h : OutboxInv ⟨r, o⟩) {job : OutboxJob} {row : OutboxRow}
    (hd : o.dispatchers d = .updated job) (hrow : o.rows job.jobId = some row)
    (hh : p.holds = none) (hc : p.cleanup = []) :
    OutboxInv ⟨r, (o.commit job row).setPhase d p⟩ := by
  have hi : DispatcherInv r o d (.updated job) := hd ▸ h.dispatcher d
  obtain ⟨hlock, x, hx, _, hpub⟩ := hi.held job rfl
  rw [hrow] at hx
  cases hx
  have hledger := h.ledger.commit hrow (hi.delivered job rfl) hpub
  refine h.of_step ⟨fun jobId e x hl hne hr => ?_, fun jobId hp => ?_,
    fun _ hsome hnone => absurd hnone hsome⟩ hledger rfl (.free hh hc) rfl
  · have hj : jobId ≠ job.jobId := by
      rintro rfl
      change o.locks job.jobId = some e at hl
      rw [hlock] at hl
      exact hne (Option.some.inj hl).symm
    refine ⟨?_, ?_⟩
    · show Function.update o.locks job.jobId none jobId = some e
      rw [Function.update_of_ne hj]
      exact hl
    · show Function.update o.rows job.jobId _ jobId = some x
      rw [Function.update_of_ne hj]
      exact hr
  · show (o.setRow job.jobId { row with published := true }).Published jobId
    by_cases hj : jobId = job.jobId
    · rw [hj]; exact Outbox.published_setRow_self rfl
    · exact (Outbox.published_setRow_of_ne hj).mpr hp

/-- A deletion takes effect. The job is published, so no transaction relies on its marker. -/
theorem OutboxInv.delete (h : OutboxInv ⟨r, o⟩) {e : Nat} {jobId : String}
    (hmem : (e, jobId) ∈ o.deletes) :
    OutboxInv ⟨r.setDispatched jobId none, o.deleteEffect e jobId⟩ := by
  have hpub : o.Published jobId := h.deletes e jobId hmem
  have hu : ∀ d, Untouched d ⟨r, o⟩ ⟨r.setDispatched jobId none, o.deleteEffect e jobId⟩ :=
    fun d => ⟨fun _ _ _ hl _ hr => ⟨hl, hr⟩, fun _ hj => hj, fun i hsome hnone => by
      by_cases hi : i = jobId
      · rw [hi]; exact hpub
      · refine absurd ?_ hsome
        change Function.update r.dispatched jobId none i = none at hnone
        rw [Function.update_of_ne hi] at hnone
        exact hnone⟩
  exact ⟨h.ledger.delete e hpub, fun d => (h.dispatcher d).other (hu (d + 1)) (by omega),
    fun d i hm => h.deletes d i (List.mem_of_mem_erase hm)⟩

theorem OutboxInv.mark (h : OutboxInv ⟨r, o⟩) {jobId : String} {jobIds : List String}
    {row : OutboxRow} (hd : o.dispatchers d = .deleted jobId jobIds)
    (hrow : o.rows jobId = some row) (hpub : row.published = true)
    (hfree : o.locks jobId = none) :
    OutboxInv ⟨r, (o.setRow jobId { row with markerCleaned := true }).setPhase d
      (.cleaning jobIds)⟩ := by
  have hkeeps : ∀ i, o.Published i →
      (o.setRow jobId { row with markerCleaned := true }).Published i := by
    intro i hi
    by_cases hij : i = jobId
    · rw [hij]; exact Outbox.published_setRow_self hpub
    · exact (Outbox.published_setRow_of_ne hij).mpr hi
  refine h.of_step ⟨fun i e x hl _ hr => ⟨hl, ?_⟩, hkeeps,
    fun _ hsome hnone => absurd hnone hsome⟩ (h.ledger.mark hrow hpub) rfl
    ⟨nofun, nofun, fun i hi => hkeeps i ((h.dispatcher d).cleanup i ?_)⟩ rfl
  · have hi : i ≠ jobId := by
      rintro rfl
      change o.locks i = some e at hl
      rw [hfree] at hl
      cases hl
    show Function.update o.rows jobId _ i = some x
    rw [Function.update_of_ne hi]
    exact hr
  · show i ∈ (o.dispatchers d).cleanup
    rw [hd]
    exact List.mem_cons_of_mem _ hi

end Steps

theorem OutboxInv.of_fresh {s : OutboxState} (h : s.Fresh) : OutboxInv s := by
  have hpub : ∀ jobId, ¬ s.outbox.Published jobId := by
    rintro jobId ⟨row, hrow, _⟩
    rw [h.rows] at hrow
    cases hrow
  refine ⟨⟨?_, ?_, ?_, ?_, ?_, ?_, ?_⟩, fun d => ?_, ?_⟩
  · rw [h.history]; exact .nil
  · intro jobId row hrow; rw [h.rows] at hrow; cases hrow
  · intro i j row row' hi; rw [h.rows] at hi; cases hi
  · intro job id hm; rw [h.history] at hm; cases hm
  · intro jobId
    rw [h.history]
    exact ⟨nofun, fun hp => absurd hp (hpub jobId)⟩
  · intro jobId _
    rw [h.markers]
    constructor
    · exact fun hne => absurd rfl hne
    · rintro ⟨job, id, hm, _⟩
      rw [h.history] at hm
      cases hm
  · rw [h.entries]; exact List.nil_sublist _
  · rw [h.dispatchers]; exact .free rfl rfl
  · intro d jobId hm; rw [h.deletes] at hm; cases hm

/-- **Every step keeps the outbox invariant.** -/
theorem OutboxInv.step {maximumLength : Nat} {s t : OutboxState} {l : OutboxLabel}
    (h : OutboxInv s) (hst : OutboxStep maximumLength s l t) : OutboxInv t := by
  cases hst with
  | insert r o job hnone hrun =>
    have hne : ∀ i row, o.rows i = some row → i ≠ job.jobId := by
      rintro i row hi rfl
      rw [hnone] at hi
      cases hi
    have hrows : ∀ i row, o.rows i = some row →
        (o.setRow job.jobId ⟨job, false, false⟩).rows i = some row := by
      intro i row hi
      show Function.update o.rows job.jobId _ i = some row
      rw [Function.update_of_ne (hne i row hi)]
      exact hi
    have hpub : ∀ i, o.Published i → (o.setRow job.jobId ⟨job, false, false⟩).Published i :=
      fun i ⟨row, hi, hp⟩ => ⟨row, hrows i row hi, hp⟩
    exact ⟨h.ledger.insert hnone hrun, fun d => (h.dispatcher d).other (d := d + 1)
      (s := ⟨r, o⟩) ⟨fun _ _ _ hl _ hr => ⟨hl, hrows _ _ hr⟩, hpub,
        fun _ hsome hnone => absurd hnone hsome⟩ (by omega),
      fun d i hm => hpub i (h.deletes d i hm)⟩
  | select r o d row _ hrow hpub hfree => exact h.select hrow hpub hfree
  | selectNone r o d _ => exact h.setPhase (.free rfl rfl)
  | send r o d job hd =>
    have hi : DispatcherInv r o d (.selected job) := hd ▸ h.dispatcher d
    exact h.setPhase ⟨hi.held, nofun, nofun⟩
  | eval r o d job id hd _ => exact h.eval maximumLength id hd
  | full r o d job hd => exact h.rollback rfl rfl
  | update r o d job id hd =>
    have hi : DispatcherInv r o d (.answered job (some id)) := hd ▸ h.dispatcher d
    exact h.setPhase ⟨hi.held, hi.delivered, nofun⟩
  | commit r o d job row learns hd hrow =>
    cases learns with
    | true => exact h.commit hd hrow rfl rfl
    | false => exact h.commit hd hrow rfl rfl
  | fail r o d => exact h.rollback rfl rfl
  | list r o d jobIds _ _ hjobs =>
    refine h.setPhase ⟨nofun, nofun, fun jobId hj => ?_⟩
    obtain ⟨row, hrow, hpub, _⟩ := hjobs jobId hj
    exact ⟨row, hrow, hpub⟩
  | sendDelete r o d jobId jobIds hd =>
    have hi : DispatcherInv r o d (.cleaning (jobId :: jobIds)) := hd ▸ h.dispatcher d
    have h' := h.setPhase (d := d) (p := .deleting jobId jobIds) ⟨nofun, nofun, hi.cleanup⟩
    refine ⟨h'.ledger.congr rfl rfl rfl (.refl _), fun e => ?_, fun e i hm => ?_⟩
    · exact ⟨(h'.dispatcher e).held, (h'.dispatcher e).delivered, (h'.dispatcher e).cleanup⟩
    · rcases List.mem_append.mp hm with hm | hm
      · exact h.deletes e i hm
      · obtain ⟨rfl, rfl⟩ := Prod.mk.inj (List.mem_singleton.mp hm)
        exact hi.cleanup i (List.mem_cons_self ..)
  | done r o d _ => exact h.setPhase (.free rfl rfl)
  | deleteReply r o d jobId jobIds hd hmem =>
    have hi : DispatcherInv r o d (.deleting jobId jobIds) := hd ▸ h.dispatcher d
    exact (h.delete hmem).setPhase ⟨nofun, nofun, hi.cleanup⟩
  | deleteLate r o d jobId hmem => exact h.delete hmem
  | deleteDrop r o d jobId hmem =>
    exact ⟨h.ledger.congr rfl rfl rfl (.refl _),
      fun e => ⟨(h.dispatcher e).held, (h.dispatcher e).delivered, (h.dispatcher e).cleanup⟩,
      fun e i hm => h.deletes e i (List.mem_of_mem_erase hm)⟩
  | mark r o d jobId jobIds row hd hrow hpub hfree => exact h.mark hd hrow hpub hfree
  | rest r r' o hmarkers hentries =>
    refine ⟨h.ledger.congr rfl rfl hmarkers hentries, fun d => ?_, h.deletes⟩
    exact (h.dispatcher d).other (d := d + 1) (s := ⟨r, o⟩)
      ⟨fun _ _ _ hl _ hr => ⟨hl, hr⟩, fun _ hj => hj, fun i hsome hnone =>
        absurd (hmarkers ▸ hnone) hsome⟩ (by omega)

theorem outboxes_invariant {maximumLength : Nat} {s : OutboxState}
    (h : (outboxes maximumLength).Reachable s) : OutboxInv s :=
  h.invariant (fun _ => .of_fresh) fun _ _ _ _ hi hst => hi.step hst

end DocParser.Platform
