import DocParser.Platform.MessageOrigin

/-!
# What cancellations keep

`RunLedger` ties the rows and the markers to the history: a run ended or was cleaned up in the
history exactly if its row says so, and the marker in Redis is the last one that was set.
`ProcessInv` says what a process may rely on while it holds the lock of a row. The lock is what
orders delivery, clean-up and projection of one run.
-/

namespace DocParser.Platform

open Redis

/-- What a fact does to the marker of a run. -/
def RunFact.mark (runId : String) (marker : Option String) : RunFact → Option String
  | marked run attemptId => if run = runId then some attemptId else marker
  | unmarked run => if run = runId then none else marker
  | _ => marker

/-- The marker of a run after a history. -/
def markerOf (runId : String) (history : List RunFact) : Option String :=
  history.foldl (RunFact.mark runId) none

/-- When a fact may follow the facts before it. -/
def cancelRule (before : List RunFact) : RunFact → Prop
  | .marked runId _ => .cleaned runId ∉ before
  | .unmarked runId => .ended runId ∈ before
  | .accepted event => markerOf event.runId before = some event.attemptId →
      event.type = .jobCancelled
  | .ended _ | .cleaned _ => True

structure RunLedger (r : RedisState) (c : Cancellations) : Prop where
  justified : History.Justified cancelRule c.history
  marker : ∀ runId, r.cancels runId = markerOf runId c.history
  ended : ∀ runId, .ended runId ∈ c.history ↔
    ∃ row, c.runs runId = some row ∧ row.status.isTerminal = true
  cleaned : ∀ runId, .cleaned runId ∈ c.history ↔
    ∃ row, c.runs runId = some row ∧ row.cancelCleaned = true
  delivered : ∀ runId row, c.runs runId = some row → row.cancelCleaned = true →
    row.cancelDelivered = true

/-- What process `d` in phase `p` may rely on. -/
structure ProcessInv (c : Cancellations) (d : Nat) (p : CancelPhase) : Prop where
  holds : ∀ runId, p.holds = some runId → c.locks runId = some d
  delivers : ∀ runId, p.delivers = some runId →
    ∃ row, c.runs runId = some row ∧ row.cancelDelivered = false
  cleans : ∀ runId, p.cleans = some runId →
    ∃ row, c.runs runId = some row ∧ row.status.isTerminal = true

structure CancelInv (r : RedisState) (c : Cancellations) : Prop where
  ledger : RunLedger r c
  process : ∀ d, ProcessInv c d (c.processes d)

theorem requestCancellation_cases (runId attemptId : String) (r : RedisState) :
    requestCancellation runId attemptId r = (r, false) ∨
      requestCancellation runId attemptId r = (r.setCancel runId (some attemptId), true) := by
  unfold requestCancellation
  split_ifs
  · exact Or.inl rfl
  · exact Or.inr rfl

theorem markerOf_append (runId : String) (history : List RunFact) (f : RunFact) :
    markerOf runId (history ++ [f]) = f.mark runId (markerOf runId history) := by
  unfold markerOf
  rw [List.foldl_append]
  rfl

theorem CancelPhase.holds_of_delivers {p : CancelPhase} {runId : String}
    (h : p.delivers = some runId) : p.holds = some runId := by
  unfold holds
  rw [h]
  rfl

theorem CancelPhase.holds_of_cleans {p : CancelPhase} {runId : String}
    (h : p.cleans = some runId) : p.holds = some runId := by
  cases p with
  | cleaning | removing | removed | finishing => exact h
  | idle | selected | sent | published | delivering => cases h

section Ledger

variable {r : RedisState} {c : Cancellations} {runId : String} {row : RunRow}

theorem RunLedger.congr {r' : RedisState} {c' : Cancellations} (h : RunLedger r c)
    (hruns : c'.runs = c.runs) (hhist : c'.history = c.history)
    (hcancels : r'.cancels = r.cancels) : RunLedger r' c' := by
  refine ⟨?_, ?_, ?_, ?_, ?_⟩
  · rw [hhist]; exact h.justified
  · rw [hhist, hcancels]; exact h.marker
  · rw [hhist, hruns]; exact h.ended
  · rw [hhist, hruns]; exact h.cleaned
  · rw [hruns]; exact h.delivered

/-- Facts that are neither an end nor a clean-up. -/
theorem RunLedger.log {r' : RedisState} (h : RunLedger r c) {f : RunFact}
    (hrule : cancelRule c.history f)
    (hmark : ∀ runId, r'.cancels runId = f.mark runId (r.cancels runId))
    (hended : ∀ runId, f ≠ .ended runId) (hcleaned : ∀ runId, f ≠ .cleaned runId) :
    RunLedger r' (c.log [f]) := by
  refine ⟨h.justified.concat hrule, fun runId => ?_, fun runId => ?_, fun runId => ?_,
    h.delivered⟩
  · show r'.cancels runId = markerOf runId (c.history ++ [f])
    rw [markerOf_append, hmark, h.marker]
  · refine Iff.trans ?_ (h.ended runId)
    show _ ∈ c.history ++ [f] ↔ _
    rw [List.mem_append, List.mem_singleton]
    exact ⟨fun hor => hor.resolve_right fun heq => hended runId heq.symm, Or.inl⟩
  · refine Iff.trans ?_ (h.cleaned runId)
    show _ ∈ c.history ++ [f] ↔ _
    rw [List.mem_append, List.mem_singleton]
    exact ⟨fun hor => hor.resolve_right fun heq => hcleaned runId heq.symm, Or.inl⟩

theorem setRow_runs {row' x : RunRow} {i : String} :
    (c.setRow runId row').runs i = some x ↔
      (i = runId ∧ x = row') ∨ (i ≠ runId ∧ c.runs i = some x) := by
  show Function.update c.runs runId (some row') i = some x ↔ _
  by_cases hi : i = runId
  · subst hi
    simp [eq_comm]
  · simp [hi]

/-- A row with `P` after a row was set. -/
theorem exists_setRow {row' : RunRow} {P : RunRow → Prop} {i : String} :
    (∃ x, (c.setRow runId row').runs i = some x ∧ P x) ↔
      (i = runId ∧ P row') ∨ (i ≠ runId ∧ ∃ x, c.runs i = some x ∧ P x) := by
  constructor
  · rintro ⟨x, hx, hP⟩
    rcases setRow_runs.mp hx with ⟨hi, rfl⟩ | ⟨hi, hx⟩
    · exact Or.inl ⟨hi, hP⟩
    · exact Or.inr ⟨hi, x, hx, hP⟩
  · rintro (⟨hi, hP⟩ | ⟨hi, x, hx, hP⟩)
    · exact ⟨row', setRow_runs.mpr (Or.inl ⟨hi, rfl⟩), hP⟩
    · exact ⟨x, setRow_runs.mpr (Or.inr ⟨hi, hx⟩), hP⟩

/-- A row changes, and the history says if the run ended or was cleaned up by that. -/
theorem RunLedger.setRow (h : RunLedger r c) (hrow : c.runs runId = some row) (row' : RunRow)
    (facts : List RunFact) (hfacts : facts = [] ∨ facts = [.ended runId] ∨ facts = [.cleaned runId])
    (hended : row'.status.isTerminal = true ↔
      row.status.isTerminal = true ∨ .ended runId ∈ facts)
    (hcleaned : row'.cancelCleaned = true ↔
      row.cancelCleaned = true ∨ .cleaned runId ∈ facts)
    (hdelivered : row'.cancelCleaned = true → row'.cancelDelivered = true) :
    RunLedger r ((c.setRow runId row').log facts) := by
  have hiff : ∀ (P : RunRow → Prop) (fact : String → RunFact),
      (∀ i, fact i ∈ facts → i = runId) →
      (∀ i, fact i ∈ c.history ↔ ∃ x, c.runs i = some x ∧ P x) →
      (P row' ↔ P row ∨ fact runId ∈ facts) →
      ∀ i, fact i ∈ c.history ++ facts ↔
        ∃ x, (c.setRow runId row').runs i = some x ∧ P x := by
    intro P fact honly hold hnew i
    rw [List.mem_append, exists_setRow, hold]
    by_cases hi : i = runId
    · subst hi
      simp [hrow, hnew]
    · have hnot : fact i ∉ facts := fun hf => hi (honly i hf)
      simp [hi, hnot]
  have hjust : History.Justified cancelRule (c.history ++ facts) := by
    rcases hfacts with rfl | rfl | rfl
    · rw [List.append_nil]; exact h.justified
    · exact h.justified.concat trivial
    · exact h.justified.concat trivial
  have hmark : ∀ i, markerOf i (c.history ++ facts) = markerOf i c.history := by
    intro i
    rcases hfacts with rfl | rfl | rfl
    · rw [List.append_nil]
    · rw [markerOf_append]; rfl
    · rw [markerOf_append]; rfl
  refine ⟨hjust, fun i => (h.marker i).trans (hmark i).symm, ?_, ?_, fun i x hx hclean => ?_⟩
  · refine hiff (fun x => x.status.isTerminal = true) .ended (fun i hi => ?_) h.ended hended
    rcases hfacts with rfl | rfl | rfl <;> simp at hi
    exact hi
  · refine hiff (fun x => x.cancelCleaned = true) .cleaned (fun i hi => ?_) h.cleaned hcleaned
    rcases hfacts with rfl | rfl | rfl <;> simp at hi
    exact hi
  · rcases setRow_runs.mp hx with ⟨-, rfl⟩ | ⟨-, hx⟩
    · exact hdelivered hclean
    · exact h.delivered i x hx hclean

/-- A new run has no fact yet. -/
theorem RunLedger.insert (h : RunLedger r c) (hnone : c.runs runId = none)
    (attemptId : String) : RunLedger r (c.setRow runId (.queued attemptId)) := by
  have hiff : ∀ P : RunRow → Prop, ¬ P (.queued attemptId) → ∀ i,
      (∃ x, (c.setRow runId (.queued attemptId)).runs i = some x ∧ P x) ↔
        ∃ x, c.runs i = some x ∧ P x := by
    intro P hP i
    rw [exists_setRow]
    by_cases hi : i = runId
    · subst hi
      simp [hP, hnone]
    · simp [hi]
  have hactive : ¬ (RunRow.queued attemptId).status.isTerminal = true := nofun
  have hopen : ¬ (RunRow.queued attemptId).cancelCleaned = true := nofun
  refine ⟨h.justified, h.marker, fun i => (h.ended i).trans (hiff _ hactive i).symm,
    fun i => (h.cleaned i).trans (hiff _ hopen i).symm, fun i x hx hclean => ?_⟩
  rcases setRow_runs.mp hx with ⟨-, rfl⟩ | ⟨-, hx⟩
  · exact absurd hclean hopen
  · exact h.delivered i x hx hclean

/-- The row that an event was projected on, and the end of the run if it says so. -/
theorem RunLedger.project (h : RunLedger r c) {event : Event}
    (hrow : c.runs event.runId = some row) :
    RunLedger r ((c.setRow event.runId (row.project event)).log
      ((row.project event).facts event.runId)) := by
  have hkeep : row.status.isTerminal = true →
      (row.project event).status.isTerminal = true := fun ht => by
    rw [RunRow.project_status_of_terminal ht]
    exact ht
  have hfacts : (row.project event).status.isTerminal = true ↔
      .ended event.runId ∈ (row.project event).facts event.runId := by
    unfold RunRow.facts
    split_ifs with ht
    · exact ⟨fun _ => List.mem_singleton_self _, fun _ => ht⟩
    · exact ⟨fun h => absurd h ht, nofun⟩
  have hopen : .cleaned event.runId ∉ (row.project event).facts event.runId := by
    unfold RunRow.facts
    split_ifs <;> simp
  refine h.setRow hrow (row.project event) _ ?_
    ⟨fun ht => Or.inr (hfacts.mp ht), fun hor => hor.elim hkeep hfacts.mpr⟩ ?_ ?_
  · unfold RunRow.facts
    split_ifs <;> simp
  · rw [RunRow.project_cancelCleaned]
    exact ⟨Or.inl, fun hor => hor.resolve_right hopen⟩
  · rw [RunRow.project_cancelCleaned, RunRow.project_cancelDelivered]
    exact h.delivered event.runId row hrow

end Ledger

/-! ## Steps -/

section Steps

variable {r r' : RedisState} {c c' : Cancellations} {d e : Nat} {p : CancelPhase}
  {runId : String}

theorem ProcessInv.other (h : ProcessInv c e p)
    (hu : ∀ runId x, c.locks runId = some e → c.runs runId = some x →
      c'.locks runId = some e ∧ c'.runs runId = some x) : ProcessInv c' e p := by
  have hrow : ∀ runId, p.holds = some runId → ∃ x, c.runs runId = some x := by
    intro runId hp
    unfold CancelPhase.holds at hp
    cases hd : p.delivers with
    | some i =>
      rw [hd] at hp
      obtain ⟨x, hx, _⟩ := h.delivers i hd
      exact ⟨x, Option.some.inj hp ▸ hx⟩
    | none =>
      rw [hd] at hp
      obtain ⟨x, hx, _⟩ := h.cleans runId hp
      exact ⟨x, hx⟩
  refine ⟨fun runId hp => ?_, fun runId hp => ?_, fun runId hp => ?_⟩
  · obtain ⟨x, hx⟩ := hrow runId hp
    exact (hu runId x (h.holds runId hp) hx).1
  · obtain ⟨x, hx, hd⟩ := h.delivers runId hp
    exact ⟨x, (hu runId x (h.holds runId (CancelPhase.holds_of_delivers hp)) hx).2, hd⟩
  · obtain ⟨x, hx, hd⟩ := h.cleans runId hp
    exact ⟨x, (hu runId x (h.holds runId (CancelPhase.holds_of_cleans hp)) hx).2, hd⟩

/-- The invariant after process `d` moved to phase `p`. -/
theorem CancelInv.of_step (h : CancelInv r c) (hledger : RunLedger r' c')
    (hu : ∀ e runId x, e ≠ d → c.locks runId = some e → c.runs runId = some x →
      c'.locks runId = some e ∧ c'.runs runId = some x)
    (hothers : c'.processes = c.processes) (hself : ProcessInv c' d p) :
    CancelInv r' (c'.setPhase d p) := by
  refine ⟨hledger.congr rfl rfl rfl, fun e => ?_⟩
  by_cases he : e = d
  · subst he
    have hphase : (c'.setPhase e p).processes e = p := Function.update_self ..
    rw [hphase]
    exact ⟨hself.holds, hself.delivers, hself.cleans⟩
  · have hphase : (c'.setPhase d p).processes e = c.processes e := by
      rw [← hothers]; exact Function.update_of_ne he ..
    rw [hphase]
    have hi := (h.process e).other (hu e · · he)
    exact ⟨hi.holds, hi.delivers, hi.cleans⟩

theorem ProcessInv.free (hp : p.holds = none) : ProcessInv c d p := by
  refine ⟨fun runId h => ?_, fun runId h => ?_, fun runId h => ?_⟩
  · rw [hp] at h; cases h
  · rw [CancelPhase.holds_of_delivers h] at hp; cases hp
  · rw [CancelPhase.holds_of_cleans h] at hp; cases hp

/-- A step that only moves process `d`. -/
theorem CancelInv.setPhase (h : CancelInv r c) (hp : ProcessInv c d p) :
    CancelInv r (c.setPhase d p) :=
  h.of_step h.ledger (fun _ _ _ _ hl hx => ⟨hl, hx⟩) rfl hp

/-- A row without a lock changes. -/
theorem CancelInv.setRow (h : CancelInv r c) (hledger : RunLedger r c')
    (hfree : c.locks runId = none) (hlocks : c'.locks = c.locks)
    (hruns : ∀ i, i ≠ runId → c'.runs i = c.runs i) (hothers : c'.processes = c.processes) :
    CancelInv r c' := by
  refine ⟨hledger, fun e => ?_⟩
  rw [hothers]
  refine (h.process e).other fun i x hl hx => ?_
  have hi : i ≠ runId := by
    rintro rfl
    rw [hfree] at hl
    cases hl
  exact ⟨by rw [hlocks]; exact hl, by rw [hruns i hi]; exact hx⟩

/-- A process ends its transaction and unlocks the row it held. -/
theorem CancelInv.finish (h : CancelInv r c) (hlock : c.locks runId = some d)
    (hledger : RunLedger r c') (hlocks : c'.locks = Function.update c.locks runId none)
    (hruns : ∀ i, i ≠ runId → c'.runs i = c.runs i) (hothers : c'.processes = c.processes) :
    CancelInv r (c'.setPhase d .idle) := by
  refine h.of_step hledger (fun e i x hne hl hx => ?_) hothers (.free rfl)
  have hi : i ≠ runId := by
    rintro rfl
    rw [hlock] at hl
    exact hne (Option.some.inj hl).symm
  exact ⟨by rw [hlocks, Function.update_of_ne hi]; exact hl, by rw [hruns i hi]; exact hx⟩

theorem CancelInv.lock (h : CancelInv r c) (hfree : c.locks runId = none)
    (hself : ProcessInv (c.setLock runId (some d)) d p) :
    CancelInv r ((c.setLock runId (some d)).setPhase d p) := by
  refine h.of_step (h.ledger.congr rfl rfl rfl) (fun e i x hne hl hx => ⟨?_, hx⟩) rfl hself
  have hi : i ≠ runId := by
    rintro rfl
    rw [hfree] at hl
    cases hl
  show Function.update c.locks runId (some d) i = some e
  rw [Function.update_of_ne hi]
  exact hl

/-- **Every step on the runs keeps the invariant.** -/
theorem CancelInv.step (h : CancelInv r c) (hst : CancelStep r c r' c') : CancelInv r' c' := by
  cases hst with
  | request runId row hrow hfree hreq hactive =>
    have hl := h.ledger.setRow hrow { row with cancelRequested := true } []
      (Or.inl rfl) (by simp) (by simp) (h.ledger.delivered runId row hrow)
    exact h.setRow (hl.congr rfl (List.append_nil _).symm rfl) hfree rfl
      (fun i hi => Function.update_of_ne hi ..) rfl
  | select d runId row hidle hrow hfree hreq hdel =>
    refine h.lock hfree ⟨fun i hi => ?_, fun i hi => ?_, nofun⟩
    · obtain rfl : runId = i := Option.some.inj hi
      exact Function.update_self ..
    · obtain rfl : runId = i := Option.some.inj hi
      exact ⟨row, hrow, hdel⟩
  | send d runId attemptId status hd hactive =>
    have hi : ProcessInv c d (.selected runId attemptId status) := hd ▸ h.process d
    exact h.setPhase ⟨hi.holds, hi.delivers, nofun⟩
  | skip d runId attemptId status hd hterm =>
    have hi : ProcessInv c d (.selected runId attemptId status) := hd ▸ h.process d
    exact h.setPhase ⟨hi.holds, hi.delivers, nofun⟩
  | eval d runId attemptId hd =>
    have hi : ProcessInv c d (.sent runId attemptId) := hd ▸ h.process d
    -- the row is not delivered, so the run was not cleaned up
    have hnot : .cleaned runId ∉ c.history := by
      intro hm
      obtain ⟨row, hrow, hclean⟩ := (h.ledger.cleaned runId).mp hm
      obtain ⟨row', hrow', hdel⟩ := hi.delivers runId rfl
      rw [hrow] at hrow'
      cases hrow'
      rw [h.ledger.delivered runId row hrow hclean] at hdel
      cases hdel
    refine h.of_step ?_ (fun _ _ _ _ hl hx => ⟨hl, hx⟩) rfl
      ⟨hi.holds, hi.delivers, nofun⟩
    rcases requestCancellation_cases runId attemptId r with heq | heq <;> rw [heq]
    · exact h.ledger.congr rfl (List.append_nil _) rfl
    · refine h.ledger.log hnot (fun i => ?_) (fun _ => by simp) (fun _ => by simp)
      show Function.update r.cancels runId (some attemptId) i = if runId = i then _ else _
      by_cases hri : i = runId
      · subst hri
        rw [Function.update_self, if_pos rfl]
      · rw [Function.update_of_ne hri, if_neg (Ne.symm hri)]
  | deliver d runId hd =>
    have hi : ProcessInv c d (.published runId) := hd ▸ h.process d
    exact h.setPhase ⟨hi.holds, hi.delivers, nofun⟩
  | commitDelivery d runId row hd hrow =>
    have hi : ProcessInv c d (.delivering runId) := hd ▸ h.process d
    have hl := h.ledger.setRow hrow { row with cancelDelivered := true } []
      (Or.inl rfl) (by simp) (by simp) (fun _ => rfl)
    exact h.finish (hi.holds runId rfl) (hl.congr rfl (List.append_nil _).symm rfl) rfl
      (fun i hne => Function.update_of_ne hne ..) rfl
  | selectCleanup d runId row hidle hrow hfree hreq hclean hterm =>
    refine h.lock hfree ⟨fun i hi => ?_, nofun, fun i hi => ?_⟩
    · obtain rfl : runId = i := Option.some.inj hi
      exact Function.update_self ..
    · obtain rfl : runId = i := Option.some.inj hi
      exact ⟨row, hrow, hterm⟩
  | sendRemove d runId hd =>
    have hi : ProcessInv c d (.cleaning runId) := hd ▸ h.process d
    exact h.setPhase ⟨hi.holds, nofun, hi.cleans⟩
  | remove d runId hd =>
    have hi : ProcessInv c d (.removing runId) := hd ▸ h.process d
    refine h.of_step ?_ (fun _ _ _ _ hl hx => ⟨hl, hx⟩) rfl ⟨hi.holds, nofun, hi.cleans⟩
    refine h.ledger.log ((h.ledger.ended runId).mpr (hi.cleans runId rfl)) (fun i => ?_)
      (fun _ => by simp) (fun _ => by simp)
    show Function.update r.cancels runId none i = if runId = i then none else _
    by_cases hri : i = runId
    · subst hri
      rw [Function.update_self, if_pos rfl]
    · rw [Function.update_of_ne hri, if_neg (Ne.symm hri)]
  | clean d runId hd =>
    have hi : ProcessInv c d (.removed runId) := hd ▸ h.process d
    exact h.setPhase ⟨hi.holds, nofun, hi.cleans⟩
  | commitCleanup d runId row hd hrow =>
    have hi : ProcessInv c d (.finishing runId) := hd ▸ h.process d
    have hl := h.ledger.setRow hrow
      { row with cancelCleaned := true, cancelDelivered := true } [.cleaned runId]
      (Or.inr (Or.inr rfl)) (by simp) (by simp) (fun _ => rfl)
    exact h.finish (hi.holds runId rfl) (hl.congr rfl rfl rfl) rfl
      (fun i hne => Function.update_of_ne hne ..) rfl
  | fail d =>
    unfold Cancellations.rollback
    split
    next runId hp =>
      exact h.finish ((h.process d).holds runId hp) (h.ledger.congr rfl rfl rfl) rfl
        (fun _ _ => rfl) rfl
    · exact h.setPhase (.free rfl)
  | project event row hacc hrow hfree =>
    exact h.setRow (h.ledger.project hrow) hfree rfl (fun i hi => Function.update_of_ne hi ..) rfl

end Steps

end DocParser.Platform
