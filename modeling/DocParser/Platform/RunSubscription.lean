import Mathlib
import DocParser.Lib.History
import DocParser.Platform.LeaseFencing

/-!
# The run subscription

`subscribeToRun` of the web client merges two sources of a run's status: the server-sent events
and a poll that is sent at the start, on every timer tick and on every stream error. At most one
poll is outstanding; it remembers the sequence that the stream had reached when it was sent.

A step is one turn of the event loop: an input, and the calls that it makes in order. JavaScript
numbers other than `NaN` are a linear order with `0` and `+ 1`.
-/

namespace DocParser.Platform.Subscription

/-- `isTerminalStatus`. -/
def isTerminalStatus (status : String) : Bool :=
  ["succeeded", "failed", "cancelled"].contains status

/-- What the client reads of an event that parses to an object with a `type`: the strings of
`event_id` and `error.message` where there are any, and the number `sequence`. -/
structure StreamEvent (ν : Type*) where
  eventId : Option String
  type : String
  sequence : Option ν
  error : Option String
  deriving DecidableEq, Repr

/-- A message of the stream; `data` is `none` when it is not such an event. -/
structure Message (ν : Type*) where
  data : Option (StreamEvent ν)
  lastEventId : String
  deriving DecidableEq, Repr

/-- The answer of `getRun`. -/
structure RunAnswer where
  status : String
  error : Option String
  cancelRequested : Bool
  artifactsExpiredAt : Option String
  deriving DecidableEq, Repr

/-- `ARTIFACTS_EXPIRED_MESSAGE`. -/
def artifactsExpiredMessage : String := "解析产物已过保留期限，请重新运行解析。"

/-- The value of a JavaScript string when it is truthy. -/
def truthy : Option String → Option String
  | some s => if s = "" then none else some s
  | none => none

/-- `run.error || (run.artifacts_expired_at ? ARTIFACTS_EXPIRED_MESSAGE : undefined)`. -/
def RunAnswer.reason (run : RunAnswer) : Option String :=
  (truthy run.error).orElse fun _ => (truthy run.artifactsExpiredAt).map fun _ =>
    artifactsExpiredMessage

/-- What the event loop delivers to the subscription. An answer carries the number of the run's
events that it reflects, which the client does not see. -/
inductive Input (ν : Type*)
  | message (m : Message ν)
  | timer
  | streamError
  | answer (run : RunAnswer) (reflected : Nat)
  | rejection
  | unsubscribe
  deriving DecidableEq, Repr

/-- The calls to the subscriber, and the request of a poll. -/
inductive Call (ν : Type*)
  | onEvent (event : StreamEvent ν)
  | onStatus (status : String) (error : Option String)
  | onCancelRequested
  | getRun
  deriving DecidableEq, Repr

/-- The variables of `subscribeToRun`; `querying` holds the `startedSequence` of the outstanding
poll. -/
structure State (ν : Type*) where
  stopped : Bool
  querying : Option ν
  sequence : ν
  seen : List String
  deriving DecidableEq, Repr

section

variable {ν : Type*} [LinearOrder ν] [Zero ν] [One ν] [Add ν]

/-- The state after the body of `subscribeToRun`, which ends with a first poll. -/
def subscribed : State ν := ⟨false, some 0, 0, []⟩

def State.stop (s : State ν) : State ν := { s with stopped := true }

/-- `refreshStatus` up to its first `await`. -/
def State.refreshStatus (s : State ν) : State ν × List (Call ν) :=
  if s.stopped || s.querying.isSome then (s, [])
  else ({ s with querying := some s.sequence }, [.getRun])

/-- `refreshStatus` after its `await`. -/
def State.answered (s : State ν) (run : RunAnswer) : State ν × List (Call ν) :=
  match s.querying with
  | none => (s, [])
  | some startedSequence =>
    let done := { s with querying := none }
    if s.stopped then (done, [])
    else if isTerminalStatus run.status || startedSequence == s.sequence then
      let calls := (if run.cancelRequested then [.onCancelRequested] else [])
        ++ [.onStatus run.status run.reason]
      (if isTerminalStatus run.status then done.stop else done, calls)
    else (done, [])

/-- `String(event.event_id ?? message.lastEventId)`. -/
def Message.id (m : Message ν) (event : StreamEvent ν) : String :=
  event.eventId.getD m.lastEventId

/-- The status that an event reports by its type. -/
def StreamEvent.status (event : StreamEvent ν) : String :=
  if event.type = "job_succeeded" then "succeeded"
  else if event.type = "job_failed" then "failed"
  else if event.type = "job_cancelled" then "cancelled"
  else "running"

/-- `source.onmessage`. -/
def State.message (s : State ν) (m : Message ν) : State ν × List (Call ν) :=
  if s.stopped then (s, [])
  else match m.data with
    | none => (s, [])
    | some event =>
      let id := m.id event
      if id ≠ "" ∧ id ∈ s.seen then (s, [])
      else
        let noted := { s with seen := if id ≠ "" then id :: s.seen else s.seen }
        let eventSequence := event.sequence.getD (s.sequence + 1)
        if eventSequence < s.sequence then (noted, [.onEvent event])
        else
          let advanced := { noted with sequence := eventSequence }
          (if isTerminalStatus event.status then advanced.stop else advanced,
            [.onEvent event, .onStatus event.status event.error])

def State.step (s : State ν) : Input ν → State ν × List (Call ν)
  | .message m => s.message m
  | .timer => s.refreshStatus
  | .streamError => s.refreshStatus
  | .answer run _ => s.answered run
  | .rejection => ({ s with querying := none }, [])
  | .unsubscribe => (s.stop, [])

end

/-- One turn of the event loop. -/
structure Step (ν : Type*) where
  input : Input ν
  calls : List (Call ν)
  deriving DecidableEq, Repr

section

variable {ν : Type*} [LinearOrder ν] [Zero ν] [One ν] [Add ν]

/-- The state after some inputs, and the turns so far. -/
def run (inputs : List (Input ν)) : State ν × List (Step ν) :=
  inputs.foldl (fun (s, trace) input =>
    ((s.step input).1, trace ++ [⟨input, (s.step input).2⟩])) (subscribed, [])

def trace (inputs : List (Input ν)) : List (Step ν) := (run inputs).2

theorem run_concat (inputs : List (Input ν)) (input : Input ν) :
    run (inputs ++ [input]) = (((run inputs).1.step input).1,
      (run inputs).2 ++ [⟨input, ((run inputs).1.step input).2⟩]) := by
  simp [run, List.foldl_append]

end

/-! ## What a trace tells -/

section

variable {ν : Type*}

def Call.isStatus : Call ν → Bool
  | .onStatus _ _ => true
  | _ => false

def Call.isTerminal : Call ν → Bool
  | .onStatus status _ => isTerminalStatus status
  | _ => false

def Call.isEvent : Call ν → Bool
  | .onEvent _ => true
  | _ => false

namespace Step

/-- The event of the step's message. -/
def event (x : Step ν) : Option (StreamEvent ν) :=
  match x.input with
  | .message m => m.data
  | _ => none

/-- The event that the step hands to the subscriber. -/
def delivered (x : Step ν) : Option (StreamEvent ν) :=
  if x.calls.any Call.isEvent then x.event else none

/-- The event that the step takes a status from. -/
def statusEvent (x : Step ν) : Option (StreamEvent ν) :=
  if x.calls.any Call.isStatus then x.event else none

/-- The id under which the step hands an event to the subscriber, unless it is empty. -/
def deliveredId (x : Step ν) : Option String :=
  match x.input with
  | .message m => x.delivered.bind fun event => if m.id event = "" then none else m.id event
  | _ => none

/-- The step sends a poll. -/
def sendsPoll (x : Step ν) : Bool := x.calls.any fun
  | .getRun => true
  | _ => false

end Step

def calls (t : List (Step ν)) : List (Call ν) := t.flatMap Step.calls

/-- The events delivered before the last poll was sent. The first poll is sent before any
step. -/
def deliveredBeforePoll (t : List (Step ν)) : List (StreamEvent ν) :=
  (t.rdropWhile fun x => !x.sendsPoll).filterMap Step.delivered

end

/-- The events of a run in the order of their publication. A publication is refused unless its
sequence, a positive integer, exceeds that of the events before it. -/
structure RunLog (ν : Type*) [LinearOrder ν] [Zero ν] where
  events : List (StreamEvent ν)
  positive : ∀ e ∈ events, ∃ n, e.sequence = some n ∧ 0 < n
  increasing : events.Pairwise fun a b =>
    ∀ m n, a.sequence = some m → b.sequence = some n → m < n

/-- What a client reads of an event of the platform. -/
def published (event : Event) : StreamEvent ℕ where
  eventId := some ("evt_" ++ event.runId ++ "_" ++ toString event.sequence)
  type := event.type.name
  sequence := some event.sequence
  error := event.error

/-- The events that `publishEvent` accepts for a job are such a log: it refuses one whose sequence
does not exceed that of the lease. -/
def RunLog.ofJob {group : String} {s : PlatformState} (h : (platform group).Reachable s)
    (id : Redis.StreamId) : RunLog ℕ where
  events := (acceptedOf id s.job.history).map published
  positive := by
    intro e he
    obtain ⟨event, hevent, rfl⟩ := List.mem_map.mp he
    obtain ⟨n, hn⟩ := mem_acceptedOf.mp hevent
    exact ⟨event.sequence, rfl, accepted_positive ((refinement group).reachable h) id n event hn⟩
  increasing := by
    have hfencing := (jobGroup_invariant ((refinement group).reachable h)).fencing id
    refine List.pairwise_map.mpr (hfencing.increasing.imp ?_)
    intro a b hlt m n hm hn
    cases hm
    cases hn
    exact hlt

/-- A number is the sequence of at most one event of a run. -/
theorem RunLog.eq_of_sequence {ν : Type*} [LinearOrder ν] [Zero ν] (log : RunLog ν)
    {a b : StreamEvent ν} {n : ν} (ha : a ∈ log.events) (hb : b ∈ log.events)
    (han : a.sequence = some n) (hbn : b.sequence = some n) : a = b := by
  by_contra hne
  have : Std.Symm fun a b : StreamEvent ν => ¬(a.sequence = some n ∧ b.sequence = some n) :=
    ⟨fun a b h hba => h hba.symm⟩
  have hpair : log.events.Pairwise fun a b => ¬(a.sequence = some n ∧ b.sequence = some n) :=
    log.increasing.imp fun h ⟨ha, hb⟩ => lt_irrefl n (h n n ha hb)
  exact hpair.forall ha hb hne ⟨han, hbn⟩

/-! ## The properties of a trace -/

section

variable {ν : Type*}

/-- A terminal status is the last call. -/
def TerminalIsLast (cs : List (Call ν)) : Prop :=
  ∀ pre c post, cs = pre ++ c :: post → c.isTerminal = true → post = []

/-- A step at or after the unsubscription calls nothing. -/
def SilentOnceUnsubscribed (pre : List (Step ν)) (x : Step ν) : Prop :=
  (∃ y ∈ pre ++ [x], y.input = .unsubscribe) → x.calls = []

/-- Every event that reaches the client has a number as its sequence. -/
def Numbered (t : List (Step ν)) : Prop :=
  ∀ x ∈ t, ∀ e ∈ x.event, ∃ n, e.sequence = some n

/-- The events that a status was taken from, in the order of the statuses. -/
def statusEvents (t : List (Step ν)) : List (StreamEvent ν) := t.filterMap Step.statusEvent

/-- An answer reflects a prefix of the run's events that contains the events delivered before its
poll was sent. -/
def Reflects [LinearOrder ν] [Zero ν] (log : RunLog ν) (pre : List (Step ν)) (x : Step ν) : Prop :=
  match x.input with
  | .answer _ k => ∀ e ∈ deliveredBeforePoll pre, e ∈ log.events.take k
  | _ => True

instance [LinearOrder ν] [Zero ν] (log : RunLog ν) (pre : List (Step ν)) :
    (x : Step ν) → Decidable (Reflects log pre x)
  | ⟨.answer _ k, _⟩ =>
    inferInstanceAs (Decidable (∀ e ∈ deliveredBeforePoll pre, e ∈ log.events.take k))
  | ⟨.message _, _⟩ | ⟨.timer, _⟩ | ⟨.streamError, _⟩ | ⟨.rejection, _⟩ | ⟨.unsubscribe, _⟩ =>
    .isTrue trivial

/-- The messages carry events of the run, and the answers reflect prefixes of it. -/
structure Faithful [LinearOrder ν] [Zero ν] (log : RunLog ν) (t : List (Step ν)) : Prop where
  published : ∀ x ∈ t, ∀ e ∈ x.event, e ∈ log.events
  reflects : History.Justified (Reflects log) t

/-- When an answer is reported as a status that is not terminal, the statuses before it were
taken from events that it reflects. -/
def FreshAnswer [LinearOrder ν] [Zero ν] (log : RunLog ν) (pre : List (Step ν)) (x : Step ν) :
    Prop :=
  ∀ answer k, x.input = .answer answer k → ∀ status error, .onStatus status error ∈ x.calls →
    isTerminalStatus status = false → ∀ e ∈ statusEvents pre, e ∈ log.events.take k

end

/-! ## What a step does -/

section

variable {ν : Type*} [LinearOrder ν] [One ν] [Add ν]

/-- The kinds of steps, with the guard of each. -/
inductive Turn (s : State ν) : Step ν → State ν → Prop
  | quiet {input s'} (hseq : s'.sequence = s.sequence) (hseen : s'.seen = s.seen)
      (hstop : s.stopped = true ∨ input = .unsubscribe → s'.stopped = true)
      (hquery : ∀ q, s'.querying = some q → s.querying = some q) : Turn s ⟨input, []⟩ s'
  | poll {input} (hrun : s.stopped = false) (hinput : input = .timer ∨ input = .streamError) :
      Turn s ⟨input, [.getRun]⟩ { s with querying := some s.sequence }
  | answer {run k q b} (hrun : s.stopped = false) (hquery : s.querying = some q)
      (hfresh : isTerminalStatus run.status = true ∨ q = s.sequence)
      (hstop : isTerminalStatus run.status = true → b = true) :
      Turn s ⟨.answer run k, (if run.cancelRequested then [.onCancelRequested] else [])
        ++ [.onStatus run.status run.reason]⟩ { s with querying := none, stopped := b }
  | stale {m e} (hrun : s.stopped = false) (hdata : m.data = some e)
      (hnew : m.id e = "" ∨ m.id e ∉ s.seen) :
      Turn s ⟨.message m, [.onEvent e]⟩
        { s with seen := if m.id e ≠ "" then m.id e :: s.seen else s.seen }
  | advance {m e n b} (hrun : s.stopped = false) (hdata : m.data = some e)
      (hnew : m.id e = "" ∨ m.id e ∉ s.seen)
      (hn : e.sequence.getD (s.sequence + 1) = n)
      (hle : s.sequence ≤ n) (hstop : isTerminalStatus e.status = true → b = true) :
      Turn s ⟨.message m, [.onEvent e, .onStatus e.status e.error]⟩
        { s with
          stopped := b, sequence := n
          seen := if m.id e ≠ "" then m.id e :: s.seen else s.seen }

theorem turn_refreshStatus (s : State ν) {input : Input ν}
    (hinput : input = .timer ∨ input = .streamError) :
    Turn s ⟨input, s.refreshStatus.2⟩ s.refreshStatus.1 := by
  unfold State.refreshStatus
  split_ifs with h
  · refine .quiet rfl rfl (fun hs => ?_) fun _ hq => hq
    rcases hs with hs | rfl
    · exact hs
    · simp at hinput
  · simp only [Bool.or_eq_true, not_or, Bool.not_eq_true] at h
    exact .poll h.1 hinput

theorem turn_answered (s : State ν) (run : RunAnswer) (k : Nat) :
    Turn s ⟨.answer run k, (s.answered run).2⟩ (s.answered run).1 := by
  unfold State.answered
  cases hquery : s.querying with
  | none => exact .quiet rfl rfl (by simp) fun _ hq => hq
  | some q =>
    by_cases hrun : s.stopped = true
    · simp only [hrun, if_true]
      exact .quiet rfl rfl (by simp [hrun]) (by simp)
    · rw [Bool.not_eq_true] at hrun
      by_cases hfresh : (isTerminalStatus run.status || q == s.sequence) = true
      · simp only [hrun, Bool.false_eq_true, if_false, hfresh, if_true]
        rw [Bool.or_eq_true, beq_iff_eq] at hfresh
        by_cases hterm : isTerminalStatus run.status = true
        · rw [if_pos hterm]
          exact .answer hrun hquery hfresh fun _ => rfl
        · rw [if_neg hterm]
          exact .answer (b := false) hrun hquery hfresh fun h => absurd h hterm
      · simp only [hrun, Bool.false_eq_true, if_false, hfresh]
        exact .quiet rfl rfl (by simp [hrun]) (by simp)

theorem turn_message (s : State ν) (m : Message ν) :
    Turn s ⟨.message m, (s.message m).2⟩ (s.message m).1 := by
  unfold State.message
  by_cases hrun : s.stopped = true
  · rw [if_pos hrun]
    exact .quiet rfl rfl (by simp [hrun]) fun _ hq => hq
  rw [if_neg hrun]
  rw [Bool.not_eq_true] at hrun
  cases hdata : m.data with
  | none => exact .quiet rfl rfl (by simp [hrun]) fun _ hq => hq
  | some e =>
    dsimp only
    by_cases hseen : m.id e ≠ "" ∧ m.id e ∈ s.seen
    · rw [if_pos hseen]
      exact .quiet rfl rfl (by simp [hrun]) fun _ hq => hq
    · rw [if_neg hseen]
      have hnew : m.id e = "" ∨ m.id e ∉ s.seen := by
        by_cases hid : m.id e = ""
        · exact .inl hid
        · exact .inr fun hmem => hseen ⟨hid, hmem⟩
      by_cases hlt : e.sequence.getD (s.sequence + 1) < s.sequence
      · rw [if_pos hlt]
        exact .stale hrun hdata hnew
      · rw [if_neg hlt]
        by_cases hterm : isTerminalStatus e.status = true
        · rw [if_pos hterm]
          exact .advance hrun hdata hnew rfl (not_lt.mp hlt) fun _ => rfl
        · rw [if_neg hterm]
          exact .advance (b := s.stopped) hrun hdata hnew rfl (not_lt.mp hlt)
            fun h => absurd h hterm

theorem turn_step (s : State ν) (input : Input ν) :
    Turn s ⟨input, (s.step input).2⟩ (s.step input).1 := by
  cases input with
  | message m => exact turn_message s m
  | timer => exact turn_refreshStatus s (.inl rfl)
  | streamError => exact turn_refreshStatus s (.inr rfl)
  | answer run k => exact turn_answered s run k
  | rejection => exact .quiet rfl rfl (by simp [State.step]) (by simp [State.step])
  | unsubscribe => exact .quiet rfl rfl (fun _ => rfl) fun _ hq => hq

end

/-! ## Silence and ids -/

section

variable {ν : Type*} {t : List (Step ν)} {x : Step ν} {s s' : State ν}

/-- While the subscription is not stopped, no status was terminal and nobody has unsubscribed;
the ids handed out are in `seen`. -/
structure Heard (t : List (Step ν)) (s : State ν) : Prop where
  running : s.stopped = false →
    (∀ c ∈ calls t, c.isTerminal = false) ∧ ∀ x ∈ t, x.input ≠ .unsubscribe
  seen : ∀ id ∈ t.filterMap Step.deliveredId, id ∈ s.seen

@[simp] theorem calls_concat (t : List (Step ν)) (x : Step ν) :
    calls (t ++ [x]) = calls t ++ x.calls := by
  simp [calls]

theorem terminalIsLast_concat {cs : List (Call ν)} (h : ∀ c ∈ cs, c.isTerminal = false)
    (last : Call ν) : TerminalIsLast (cs ++ [last]) := by
  intro pre c post heq hc
  rcases List.eq_nil_or_concat post with rfl | ⟨post', x, rfl⟩
  · rfl
  · rw [List.concat_eq_append, ← List.cons_append, ← List.append_assoc] at heq
    have hmem : c ∈ cs := by
      rw [(List.append_inj' heq rfl).1]
      simp
    simp [h c hmem] at hc

@[simp] theorem deliveredId_nil (input : Input ν) :
    Step.deliveredId ⟨input, []⟩ = none := by
  cases input <;> rfl

@[simp] theorem deliveredId_event (m : Message ν) (e : StreamEvent ν) (cs : List (Call ν))
    (hdata : m.data = some e) :
    Step.deliveredId ⟨.message m, .onEvent e :: cs⟩ =
      if m.id e = "" then none else some (m.id e) := by
  simp [Step.deliveredId, Step.delivered, Step.event, Call.isEvent, hdata]

variable [LinearOrder ν] [One ν] [Add ν]

/-- The only steps with calls are those of a running subscription. -/
theorem Turn.calls_eq_nil (h : Turn s x s') (hstopped : s.stopped = true) : x.calls = [] := by
  cases h with
  | quiet => rfl
  | poll hrun | answer hrun | stale hrun | advance hrun => simp [hrun] at hstopped

/-- All calls of a step but the last are not terminal, and a step whose last call is terminal
stops the subscription. -/
theorem Turn.terminal (h : Turn s x s') :
    x.calls = [] ∨ ∃ cs last, x.calls = cs ++ [last] ∧ (∀ c ∈ cs, c.isTerminal = false) ∧
      (s'.stopped = false → last.isTerminal = false) := by
  cases h with
  | quiet => exact .inl rfl
  | poll => exact .inr ⟨[], .getRun, rfl, by simp, fun _ => rfl⟩
  | @answer run k q b _ _ _ hstop =>
    refine .inr ⟨_, _, rfl, ?_, fun hb => ?_⟩
    · cases run.cancelRequested <;> simp [Call.isTerminal]
    · rw [← Bool.not_eq_true]
      intro hterm
      simp [hstop hterm] at hb
  | @stale m e => exact .inr ⟨[], .onEvent e, rfl, by simp, fun _ => rfl⟩
  | @advance m e n b _ _ _ _ _ hstop =>
    refine .inr ⟨[.onEvent e], .onStatus e.status e.error, rfl, by simp [Call.isTerminal],
      fun hb => ?_⟩
    rw [← Bool.not_eq_true]
    intro hterm
    simp [hstop hterm] at hb

theorem Turn.unsubscribes (h : Turn s x s') (hx : x.input = .unsubscribe) :
    x.calls = [] ∧ s'.stopped = true := by
  cases h with
  | quiet _ _ hstop => exact ⟨rfl, hstop (.inr hx)⟩
  | poll _ hinput => rcases hinput with rfl | rfl <;> simp at hx
  | answer | stale | advance => simp at hx

theorem Turn.stays_stopped (h : Turn s x s') (hs : s.stopped = true) : s'.stopped = true := by
  cases h with
  | quiet _ _ hstop => exact hstop (.inl hs)
  | poll hrun | answer hrun | stale hrun | advance hrun => simp [hrun] at hs

/-- A step hands out at most one id, which is new. -/
theorem Turn.ids (h : Turn s x s') :
    (x.deliveredId = none ∧ s'.seen = s.seen) ∨
      ∃ id, x.deliveredId = some id ∧ id ∉ s.seen ∧ s'.seen = id :: s.seen := by
  cases h with
  | quiet _ hseen => exact .inl ⟨deliveredId_nil _, hseen⟩
  | poll _ hinput => rcases hinput with rfl | rfl <;> exact .inl ⟨rfl, rfl⟩
  | answer => exact .inl ⟨rfl, rfl⟩
  | @stale m e _ hdata hnew | @advance m e _ _ _ hdata hnew =>
    by_cases hid : m.id e = ""
    · exact .inl ⟨by simp [hdata, hid], by simp [hid]⟩
    · exact .inr ⟨m.id e, by simp [hdata, hid], hnew.resolve_left hid, by simp [hid]⟩

theorem Heard.step (hh : Heard t s) (h : Turn s x s') : Heard (t ++ [x]) s' := by
  constructor
  · intro hrun
    have hs : s.stopped = false := by
      rw [← Bool.not_eq_true]
      intro hs
      simp [h.stays_stopped hs] at hrun
    obtain ⟨hterm, hunsub⟩ := hh.running hs
    constructor
    · intro c hc
      rw [calls_concat, List.mem_append] at hc
      rcases hc with hc | hc
      · exact hterm c hc
      · rcases h.terminal with hnil | ⟨cs, last, heq, hcs, hlast⟩
        · simp [hnil] at hc
        · rw [heq, List.mem_append, List.mem_singleton] at hc
          rcases hc with hc | rfl
          · exact hcs c hc
          · exact hlast hrun
    · intro y hy
      rw [List.mem_append, List.mem_singleton] at hy
      rcases hy with hy | rfl
      · exact hunsub y hy
      · intro hinput
        simp [(h.unsubscribes hinput).2] at hrun
  · intro id hid
    rw [List.filterMap_append, List.mem_append] at hid
    rcases h.ids with ⟨hnone, hseen⟩ | ⟨new, hsome, -, hseen⟩
    · rw [hseen]
      exact hh.seen id (by simpa [hnone] using hid)
    · rw [hseen, List.mem_cons]
      rcases hid with hid | hid
      · exact .inr (hh.seen id hid)
      · exact .inl (by simpa [hsome] using hid)

theorem TerminalIsLast.step (ht : TerminalIsLast (calls t)) (hh : Heard t s) (h : Turn s x s') :
    TerminalIsLast (calls (t ++ [x])) := by
  rw [calls_concat]
  rcases h.terminal with hnil | ⟨cs, last, heq, hcs, -⟩
  · rwa [hnil, List.append_nil]
  · have hrun : s.stopped = false := by
      rw [← Bool.not_eq_true]
      intro hs
      simp [h.calls_eq_nil hs] at heq
    rw [heq, ← List.append_assoc]
    refine terminalIsLast_concat (fun c hc => ?_) last
    rcases List.mem_append.mp hc with hc | hc
    · exact (hh.running hrun).1 c hc
    · exact hcs c hc

theorem silent_step (hh : Heard t s) (h : Turn s x s') : SilentOnceUnsubscribed t x := by
  rintro ⟨y, hy, hinput⟩
  rw [List.mem_append, List.mem_singleton] at hy
  rcases hy with hy | rfl
  · refine h.calls_eq_nil ?_
    rw [← Bool.not_eq_false]
    exact fun hrun => (hh.running hrun).2 y hy hinput
  · exact (h.unsubscribes hinput).1

theorem ids_step (hn : (t.filterMap Step.deliveredId).Nodup) (hh : Heard t s) (h : Turn s x s') :
    ((t ++ [x]).filterMap Step.deliveredId).Nodup := by
  rw [List.filterMap_append]
  rcases h.ids with ⟨hnone, -⟩ | ⟨new, hsome, hnew, -⟩
  · simpa [hnone] using hn
  · have hdisj : new ∉ t.filterMap Step.deliveredId := fun hmem => hnew (hh.seen new hmem)
    simp only [List.filterMap_cons, hsome, List.filterMap_nil]
    exact List.nodup_append.mpr ⟨hn, by simp, by
      rintro a ha b hb rfl
      exact hdisj (by rwa [List.mem_singleton.mp hb] at ha)⟩

end

/-! ## Sequences -/

section

variable {ν : Type*} {t : List (Step ν)} {x : Step ν} {s s' : State ν}

theorem deliveredBeforePoll_concat (t : List (Step ν)) (x : Step ν) :
    deliveredBeforePoll (t ++ [x]) =
      if x.sendsPoll then (t ++ [x]).filterMap Step.delivered else deliveredBeforePoll t := by
  unfold deliveredBeforePoll
  rw [List.rdropWhile_concat]
  cases x.sendsPoll <;> simp

theorem statusEvents_concat (t : List (Step ν)) (x : Step ν) :
    statusEvents (t ++ [x]) = statusEvents t ++ x.statusEvent.toList := by
  unfold statusEvents
  rw [List.filterMap_append]
  cases h : x.statusEvent <;> simp [h]

theorem delivered_concat (t : List (Step ν)) (x : Step ν) :
    (t ++ [x]).filterMap Step.delivered = t.filterMap Step.delivered ++ x.delivered.toList := by
  rw [List.filterMap_append]
  cases h : x.delivered <;> simp [h]

variable [LinearOrder ν] [One ν] [Add ν]

/-- What a step means for the sequence: it leaves the sequence and the poll alone, or it sends a
poll with the present sequence, or it takes a status from an event, whose sequence is not smaller
and becomes the present one. -/
theorem Turn.sequences (h : Turn s x s') :
    (x.statusEvent = none ∧ x.sendsPoll = false ∧ s'.sequence = s.sequence ∧
        ∀ q, s'.querying = some q → s.querying = some q) ∨
      (x.statusEvent = none ∧ x.sendsPoll = true ∧ s'.sequence = s.sequence ∧
        s'.querying = some s.sequence) ∨
      ∃ e, x.statusEvent = some e ∧ x.delivered = some e ∧ x.event = some e ∧
        x.sendsPoll = false ∧ s.sequence ≤ s'.sequence ∧
        e.sequence.getD (s.sequence + 1) = s'.sequence ∧ s'.querying = s.querying := by
  cases h with
  | quiet hseq _ _ hquery => exact .inl ⟨rfl, rfl, hseq, hquery⟩
  | poll => exact .inr (.inl ⟨rfl, rfl, rfl, rfl⟩)
  | @answer run k q b =>
    refine .inl ⟨?_, ?_, rfl, by simp⟩
    · simp [Step.statusEvent, Step.event]
    · cases h : run.cancelRequested <;> simp [Step.sendsPoll]
  | @stale m e =>
    refine .inl ⟨?_, rfl, rfl, fun _ hq => hq⟩
    simp [Step.statusEvent, Call.isStatus]
  | @advance m e n b _ hdata _ hn hle =>
    refine .inr (.inr ⟨e, ?_, ?_, hdata, rfl, hle, hn, rfl⟩)
    · simp [Step.statusEvent, Call.isStatus, Step.event, hdata]
    · simp [Step.delivered, Call.isEvent, Step.event, hdata]

variable [Zero ν]

/-- The sequence bounds those of the statuses so far and is `0` or that of an event delivered.
An outstanding poll remembers the sequence at which it was sent, so the statuses since then have
sequences that are not smaller. -/
structure Sequenced (t : List (Step ν)) (s : State ν) : Prop where
  told : ∀ e ∈ statusEvents t, e ∈ t.filterMap Step.delivered
  bound : ∀ e ∈ statusEvents t, ∀ n, e.sequence = some n → n ≤ s.sequence
  attained : s.sequence = 0 ∨ ∃ e ∈ t.filterMap Step.delivered, e.sequence = some s.sequence
  sent : ∀ q, s.querying = some q →
    q ≤ s.sequence ∧ (q = 0 ∨ ∃ e ∈ deliveredBeforePoll t, e.sequence = some q)
  since : ∀ q, s.querying = some q → ∀ e ∈ statusEvents t,
    e ∈ deliveredBeforePoll t ∨ ∀ n, e.sequence = some n → q ≤ n

theorem Sequenced.step (hq : Sequenced t s) (hnum : Numbered (t ++ [x])) (h : Turn s x s') :
    Sequenced (t ++ [x]) s' := by
  have hkeep : ∀ e ∈ t.filterMap Step.delivered, e ∈ (t ++ [x]).filterMap Step.delivered :=
    fun e he => by rw [delivered_concat]; exact List.mem_append_left _ he
  have hattained : s.sequence = 0 ∨
      ∃ e ∈ (t ++ [x]).filterMap Step.delivered, e.sequence = some s.sequence :=
    hq.attained.imp_right fun ⟨e, he, hseq⟩ => ⟨e, hkeep e he, hseq⟩
  rcases h.sequences with ⟨hnone, hpoll, hseq, hquery⟩ | ⟨hnone, hpoll, hseq, hquery⟩ |
    ⟨e, hsome, hdel, hevent, hpoll, hle, hn, hquery⟩
  · -- the statuses, the sequence and the events before the poll are those of before
    have hst : statusEvents (t ++ [x]) = statusEvents t := by simp [statusEvents_concat, hnone]
    have hbp : deliveredBeforePoll (t ++ [x]) = deliveredBeforePoll t := by
      simp [deliveredBeforePoll_concat, hpoll]
    constructor
    · rw [hst]
      exact fun e he => hkeep e (hq.told e he)
    · rw [hst, hseq]
      exact hq.bound
    · rwa [hseq]
    · rw [hbp, hseq]
      exact fun q h => hq.sent q (hquery q h)
    · rw [hbp, hst]
      exact fun q h => hq.since q (hquery q h)
  · -- every event so far was delivered before the poll
    have hst : statusEvents (t ++ [x]) = statusEvents t := by simp [statusEvents_concat, hnone]
    have hbp : deliveredBeforePoll (t ++ [x]) = (t ++ [x]).filterMap Step.delivered := by
      simp [deliveredBeforePoll_concat, hpoll]
    have htold : ∀ e ∈ statusEvents t, e ∈ (t ++ [x]).filterMap Step.delivered :=
      fun e he => hkeep e (hq.told e he)
    constructor
    · rwa [hst]
    · rw [hst, hseq]
      exact hq.bound
    · rwa [hseq]
    · intro q h
      rw [hquery] at h
      rw [hbp, hseq, ← Option.some.inj h]
      exact ⟨le_rfl, hattained⟩
    · rw [hbp, hst]
      exact fun q _ e he => .inl (htold e he)
  · obtain ⟨n, hen⟩ := hnum x (by simp) e (by simp [hevent])
    have hn' : n = s'.sequence := by simpa [hen] using hn
    have hst : statusEvents (t ++ [x]) = statusEvents t ++ [e] := by
      simp [statusEvents_concat, hsome]
    have hbp : deliveredBeforePoll (t ++ [x]) = deliveredBeforePoll t := by
      simp [deliveredBeforePoll_concat, hpoll]
    have hnew : e ∈ (t ++ [x]).filterMap Step.delivered := by simp [hdel]
    constructor
    · intro e' he'
      rw [hst, List.mem_append, List.mem_singleton] at he'
      rcases he' with he' | rfl
      · exact hkeep e' (hq.told e' he')
      · exact hnew
    · intro e' he' m hm
      rw [hst, List.mem_append, List.mem_singleton] at he'
      rcases he' with he' | rfl
      · exact (hq.bound e' he' m hm).trans hle
      · rw [hen] at hm
        exact (Option.some.inj hm ▸ hn').le
    · exact .inr ⟨e, hnew, by rw [hen, hn']⟩
    · rw [hbp, hquery]
      exact fun q h => ⟨(hq.sent q h).1.trans hle, (hq.sent q h).2⟩
    · intro q h e' he'
      rw [hst, List.mem_append, List.mem_singleton] at he'
      rw [hquery] at h
      rw [hbp]
      rcases he' with he' | rfl
      · exact hq.since q h e' he'
      · refine .inr fun m hm => ?_
        rw [hen] at hm
        rw [← Option.some.inj hm, hn']
        exact (hq.sent q h).1.trans hle

theorem ordered_step
    (ho : ((statusEvents t).filterMap StreamEvent.sequence).Pairwise (· ≤ ·))
    (hq : Sequenced t s) (hnum : Numbered (t ++ [x])) (h : Turn s x s') :
    ((statusEvents (t ++ [x])).filterMap StreamEvent.sequence).Pairwise (· ≤ ·) := by
  rw [statusEvents_concat, List.filterMap_append]
  rcases h.sequences with ⟨hnone, -⟩ | ⟨hnone, -⟩ | ⟨e, hsome, -, hevent, -, hle, hn, -⟩
  · simpa [hnone] using ho
  · simpa [hnone] using ho
  · obtain ⟨n, hen⟩ := hnum x (by simp) e (by simp [hevent])
    rw [hen, Option.getD_some] at hn
    simp only [hsome, Option.toList_some, List.filterMap_cons, hen, List.filterMap_nil]
    refine List.pairwise_append.mpr ⟨ho, by simp, fun m hm k hk => ?_⟩
    obtain ⟨e', he', hm'⟩ := List.mem_filterMap.mp hm
    rw [List.mem_singleton.mp hk, hn]
    exact (hq.bound e' he' m hm').trans hle

/-- An answer that is reported and is not terminal finds the sequence at which its poll was sent.
A status since then would have that sequence, which is not `0`, so that of an event delivered
before the poll; and only one event has it. -/
theorem fresh_step {log : RunLog ν} (hq : Sequenced t s) (h : Turn s x s')
    (hpub : ∀ y ∈ t, ∀ e ∈ y.event, e ∈ log.events)
    (hreflects : Reflects log t x) :
    FreshAnswer log t x := by
  intro answer k hinput status error hstatus hterm e he
  cases h with
  | quiet => simp at hstatus
  | poll => simp at hstatus
  | stale => simp at hinput
  | advance => simp at hinput
  | @answer run k' q b hrun hquery hfresh =>
    obtain ⟨rfl, rfl⟩ : run = answer ∧ k' = k := by simpa using hinput
    have hlast : status = run.status := by
      have hor := List.mem_append.mp hstatus
      cases hc : run.cancelRequested <;> simp [hc] at hor <;> exact hor.1
    have hseq : q = s.sequence := hfresh.resolve_left (by simp [← hlast, hterm])
    have hall : ∀ e' ∈ t.filterMap Step.delivered, e' ∈ log.events := by
      intro e' he'
      obtain ⟨y, hy, hdel⟩ := List.mem_filterMap.mp he'
      refine hpub y hy e' ?_
      unfold Step.delivered at hdel
      split_ifs at hdel
      exact hdel
    have hbefore : e ∈ deliveredBeforePoll t := by
      rcases hq.since q hquery e he with hbefore | hsince
      · exact hbefore
      · have hlog : e ∈ log.events := hall e (hq.told e he)
        obtain ⟨n, hen, hpos⟩ := log.positive e hlog
        have hnq : n = q := le_antisymm (hseq ▸ hq.bound e he n hen) (hsince n hen)
        rcases (hq.sent q hquery).2 with hzero | ⟨e', he', hseq'⟩
        · exact absurd (hnq.trans hzero) hpos.ne'
        · have hmem : e' ∈ log.events := by
            refine hall e' ?_
            exact ((List.rdropWhile_prefix _ _).sublist.filterMap Step.delivered).subset he'
          rw [log.eq_of_sequence hlog hmem hen (hnq ▸ hseq')]
          exact he'
    exact hreflects e hbefore

/-! ## Every interleaving -/

theorem heard_run (inputs : List (Input ν)) :
    Heard (run inputs).2 (run inputs).1 ∧ TerminalIsLast (calls (run inputs).2) ∧
      History.Justified SilentOnceUnsubscribed (run inputs).2 ∧
      ((run inputs).2.filterMap Step.deliveredId).Nodup := by
  induction inputs using List.reverseRecOn with
  | nil => exact ⟨⟨fun _ => by simp [run, calls], by simp [run]⟩,
      by simp [run, calls, TerminalIsLast], .nil, by simp [run]⟩
  | append_singleton inputs input ih =>
    obtain ⟨hheard, hterm, hsilent, hids⟩ := ih
    rw [run_concat]
    have h := turn_step (run inputs).1 input
    exact ⟨hheard.step h, hterm.step hheard h, hsilent.concat (silent_step hheard h),
      ids_step hids hheard h⟩

theorem sequenced_run (inputs : List (Input ν)) (hnum : Numbered (run inputs).2) :
    Sequenced (run inputs).2 (run inputs).1 ∧
      ((statusEvents (run inputs).2).filterMap StreamEvent.sequence).Pairwise (· ≤ ·) := by
  induction inputs using List.reverseRecOn with
  | nil =>
    refine ⟨⟨by simp [run, statusEvents], by simp [run, statusEvents], .inl rfl, ?_, ?_⟩,
      by simp [run, statusEvents]⟩
    · intro q hq
      obtain rfl : 0 = q := by simpa [run, subscribed] using hq
      exact ⟨le_rfl, .inl rfl⟩
    · simp [run, statusEvents]
  | append_singleton inputs input ih =>
    rw [run_concat] at hnum ⊢
    obtain ⟨hseq, hordered⟩ := ih fun y hy => hnum y (List.mem_append_left _ hy)
    have h := turn_step (run inputs).1 input
    exact ⟨hseq.step hnum h, ordered_step hordered hseq hnum h⟩

theorem fresh_run {log : RunLog ν} (inputs : List (Input ν))
    (hf : Faithful log (run inputs).2) :
    History.Justified (FreshAnswer log) (run inputs).2 := by
  induction inputs using List.reverseRecOn with
  | nil => exact .nil
  | append_singleton inputs input ih =>
    rw [run_concat] at hf ⊢
    have hpub : ∀ y ∈ (run inputs).2, ∀ e ∈ y.event, e ∈ log.events :=
      fun y hy => hf.published y (List.mem_append_left _ hy)
    have hnum : Numbered (run inputs).2 := fun y hy e he =>
      (log.positive e (hpub y hy e he)).imp fun _ h => h.1
    have hfaithful : Faithful log (run inputs).2 := ⟨hpub, hf.reflects.of_concat⟩
    exact (ih hfaithful).concat (fresh_step (sequenced_run inputs hnum).1
      (turn_step (run inputs).1 input) hpub (hf.reflects _ _ [] rfl))

/-- **The subscription is monotone.** Over any inputs: a terminal status is the last call, nothing
is called once it is unsubscribed, the statuses taken from events have non-decreasing sequences,
no id is handed out twice, and no answer that is not terminal follows a status taken from an event
that it does not reflect. -/
theorem subscription_monotone (inputs : List (Input ν)) :
    TerminalIsLast (calls (trace inputs)) ∧
      History.Justified SilentOnceUnsubscribed (trace inputs) ∧
      (Numbered (trace inputs) →
        ((statusEvents (trace inputs)).filterMap StreamEvent.sequence).Pairwise (· ≤ ·)) ∧
      ((trace inputs).filterMap Step.deliveredId).Nodup ∧
      ∀ log, Faithful log (trace inputs) →
        History.Justified (FreshAnswer log) (trace inputs) := by
  obtain ⟨-, hterm, hsilent, hids⟩ := heard_run inputs
  exact ⟨hterm, hsilent, fun hnum => (sequenced_run inputs hnum).2, hids,
    fun log hf => fresh_run inputs hf⟩

end

/-- A run of two events. -/
def twoEvents : RunLog Int where
  events := [⟨some "evt_1", "stage_started", some 1, none⟩,
    ⟨some "evt_2", "job_succeeded", some 2, none⟩]
  positive := by simp
  increasing := by simp

/-- The answer to the first poll arrives after the first event and is dropped, the one to the
second poll is reported, and the second event, delivered twice, ends the subscription. -/
def twoEventInputs : List (Input Int) :=
  let first : Message Int := ⟨some ⟨some "evt_1", "stage_started", some 1, none⟩, "1-0"⟩
  let second : Message Int := ⟨some ⟨some "evt_2", "job_succeeded", some 2, none⟩, "2-0"⟩
  [.message first, .answer ⟨"queued", none, false, none⟩ 0, .timer, .streamError,
    .answer ⟨"running", none, true, none⟩ 1, .message second, .message second, .timer]

theorem twoEvents_faithful : Faithful twoEvents (trace twoEventInputs) where
  published := by decide
  reflects := .of_take (by decide)

theorem subscription_monotone_twoEvents :
    TerminalIsLast (calls (trace twoEventInputs)) ∧ Numbered (trace twoEventInputs) ∧
      ((statusEvents (trace twoEventInputs)).filterMap StreamEvent.sequence).Pairwise (· ≤ ·) ∧
      Faithful twoEvents (trace twoEventInputs) ∧
      History.Justified (FreshAnswer twoEvents) (trace twoEventInputs) := by
  have hnum : Numbered (trace twoEventInputs) := fun x hx e he =>
    (twoEvents.positive e (twoEvents_faithful.published x hx e he)).imp fun _ h => h.1
  obtain ⟨hterm, -, hordered, -, hfresh⟩ := subscription_monotone twoEventInputs
  exact ⟨hterm, hnum, hordered hnum, twoEvents_faithful, hfresh twoEvents twoEvents_faithful⟩

example : calls (trace twoEventInputs) =
    [.onEvent ⟨some "evt_1", "stage_started", some 1, none⟩, .onStatus "running" none, .getRun,
      .onCancelRequested, .onStatus "running" none,
      .onEvent ⟨some "evt_2", "job_succeeded", some 2, none⟩, .onStatus "succeeded" none] := by
  decide

end DocParser.Platform.Subscription
