import Mathlib.Data.List.Nodup
import DocParser.Lib.RedisBatches
import DocParser.Platform.Projection

/-!
# The projector group

Projectors share the consumer group `api-event-projectors` of the stream `platform-events`. Each
reads its own pending entries first, then those it can claim, then new ones; it makes the update
of an entry before it acknowledges the entry, and any exception or crash drops what it had read.
`event_delivery`: no event is lost that is not evicted from the stream, and the rows are those of
the projectors of `Projection`, which get their entries from nowhere.
-/

namespace DocParser.Platform

open Redis

/-! ## Projectors and their group -/

/-- What an entry holds. Anyone may add entries that are no worker event. -/
inductive Payload
  | event (event : Event)
  | malformed
  deriving DecidableEq, Repr

/-- The commands of `_read_projector_entries`, in their order. -/
inductive Reading
  | pending | claimed | fresh
  deriving DecidableEq, Repr

/-- A run of `_project_worker_events`: the command that is next, what is left of the entries it
read, without fields where the entry was deleted, and whether the first one was written. -/
structure Projector where
  reading : Reading
  entries : List (StreamId × Option Payload)
  updated : Bool
  deriving DecidableEq, Repr

namespace Projector

def start : Projector := ⟨.pending, [], false⟩

/-- The reply to a command. The next one is sent when there are no entries. -/
def found (next : Reading) (entries : List (StreamId × Option Payload)) : Projector :=
  ⟨if entries.isEmpty then next else .pending, entries, false⟩

/-- The entry that the projector is at. -/
def current (p : Projector) : Option Event :=
  match p.entries with
  | (_, some (.event event)) :: _ => some event
  | _ => none

end Projector

/-- The stream and its group, the row of a run, the projectors, and the history: what was
published, how much of it was evicted, and the events that projectors are done with. -/
structure GroupState where
  stream : Stream Payload
  row : RunRow
  projector : Nat → Projector
  published : List (StreamId × Payload)
  evicted : Nat
  projected : List Event

namespace GroupState

variable (s : GroupState)

def setProjector (d : Nat) (p : Projector) : GroupState :=
  { s with projector := Function.update s.projector d p }

@[simp] theorem setProjector_self (d : Nat) (p : Projector) :
    (s.setProjector d p).projector d = p := Function.update_self ..

theorem setProjector_of_ne {d d' : Nat} (h : d' ≠ d) (p : Projector) :
    (s.setProjector d p).projector d' = s.projector d' := Function.update_of_ne h ..

/-- `XAUTOCLAIM` of idle entries. -/
def claim (g : Group) (consumer : String) (minIdle now : Nat) :
    GroupState × List (StreamId × Option Payload) :=
  let claimed := s.stream.xautoclaim g consumer minIdle 50 now
  ({ s with stream := claimed.1 }, claimed.2.map fun e => (e.1, some e.2))

/-- `XREADGROUP` of new entries. -/
def readNew (g : Group) (consumer : String) (now : Nat) :
    GroupState × List (StreamId × Option Payload) :=
  let read := s.stream.xreadgroupNew g consumer 50 now
  ({ s with stream := read.1 }, read.2.map fun e => (e.1, some e.2))

/-- The update that an entry makes on the row of a run. -/
def apply (runId : String) (event : Event) : GroupState :=
  { s with
    row := if event.runId = runId then s.row.project event else s.row
    projected := s.projected ++ [event] }

/-- The published events, in order. -/
def events : List Event := s.published.filterMap fun p =>
  match p.2 with
  | .event event => some event
  | .malformed => none

end GroupState

/-- What a deployment sets: the consumer name of each projector, the idle time after which it
claims, and the length to which publishers trim the stream. -/
structure GroupConfig where
  runId : String
  consumer : Nat → String
  claimIdleMilliseconds : Nat
  platformMaximumLength : Nat

/-- `PROJECTOR_CONSUMER_GROUP` -/
def projectorConsumerGroup : String := "api-event-projectors"

/-- Whether `_project_entry` writes the event: it is well formed and changes the status. -/
def Updates (event : Event) : Prop := ∃ p, projectedRunState event = .ok (some p)

/-- The steps of the publishers and of projector `d`. -/
inductive GroupStep (config : GroupConfig) : GroupState → Nat → GroupState → Prop
  /-- `XADD MAXLEN ~` evicts no entry of the newest `platformMaximumLength`. -/
  | publish (s : GroupState) (d : Nat) (id : StreamId) (payload : Payload) (evicted : Nat) :
      s.stream.lastId < id →
      evicted ≤ s.stream.entries.length + 1 - config.platformMaximumLength →
      GroupStep config s d { s with
        stream := s.stream.xaddEvicting id payload evicted
        published := s.published ++ [(id, payload)]
        evicted := s.evicted + evicted }
  | createGroup (s : GroupState) (d : Nat) :
      s.stream.group? projectorConsumerGroup = none →
      GroupStep config s d { s with stream := s.stream.xgroupCreate projectorConsumerGroup }
  | readPending (s : GroupState) (d : Nat) (g : Group) :
      s.stream.group? projectorConsumerGroup = some g → (s.projector d).entries = [] →
      (s.projector d).reading = .pending →
      GroupStep config s d (s.setProjector d
        (.found .claimed (s.stream.xreadgroupPending g (config.consumer d) 50)))
  | claim (s : GroupState) (d : Nat) (g : Group) (now : Nat) :
      s.stream.group? projectorConsumerGroup = some g → (s.projector d).entries = [] →
      (s.projector d).reading = .claimed →
      GroupStep config s d
        ((s.claim g (config.consumer d) config.claimIdleMilliseconds now).1.setProjector d
          (.found .fresh (s.claim g (config.consumer d) config.claimIdleMilliseconds now).2))
  | readNew (s : GroupState) (d : Nat) (g : Group) (now : Nat) :
      s.stream.group? projectorConsumerGroup = some g → (s.projector d).entries = [] →
      (s.projector d).reading = .fresh →
      GroupStep config s d ((s.readNew g (config.consumer d) now).1.setProjector d
        (.found .pending (s.readNew g (config.consumer d) now).2))
  | update (s : GroupState) (d : Nat) (event : Event) :
      (s.projector d).current = some event → (s.projector d).updated = false → Updates event →
      GroupStep config s d ((s.apply config.runId event).setProjector d
        { s.projector d with updated := true })
  /-- `XACK` of an entry that was written. -/
  | ack (s : GroupState) (d : Nat) (g : Group) (e : StreamId × Option Payload)
      (rest : List (StreamId × Option Payload)) :
      s.stream.group? projectorConsumerGroup = some g → (s.projector d).entries = e :: rest →
      (s.projector d).updated = true →
      GroupStep config s d ({ s with stream := s.stream.setGroup (g.ack e.1) }.setProjector d
        ⟨.pending, rest, false⟩)
  /-- `XACK` of an event that only informs or is discarded. -/
  | skip (s : GroupState) (d : Nat) (g : Group) (id : StreamId) (event : Event)
      (rest : List (StreamId × Option Payload)) :
      s.stream.group? projectorConsumerGroup = some g →
      (s.projector d).entries = (id, some (.event event)) :: rest →
      (s.projector d).updated = false → ¬Updates event →
      GroupStep config s d
        (({ s with stream := s.stream.setGroup (g.ack id) }.apply config.runId event).setProjector d
          ⟨.pending, rest, false⟩)
  /-- `XACK` of an entry that holds no event. -/
  | discard (s : GroupState) (d : Nat) (g : Group) (id : StreamId) (content : Option Payload)
      (rest : List (StreamId × Option Payload)) :
      s.stream.group? projectorConsumerGroup = some g →
      (s.projector d).entries = (id, content) :: rest → (∀ event, content ≠ some (.event event)) →
      GroupStep config s d ({ s with stream := s.stream.setGroup (g.ack id) }.setProjector d
        ⟨.pending, rest, false⟩)
  /-- An exception restarts the loop, a crash the process; nothing that was read is kept. -/
  | restart (s : GroupState) (d : Nat) : GroupStep config s d (s.setProjector d .start)

/-- The projectors of a fresh deployment, and the row that `create_run` inserted. -/
def projectorGroup (config : GroupConfig) (attemptId : String) :
    Transition.System GroupState Nat where
  init s := s.stream = .empty ∧ s.row = .queued attemptId ∧ (∀ d, s.projector d = .start) ∧
    s.published = [] ∧ s.evicted = 0 ∧ s.projected = []
  step := GroupStep config

/-! ## What the group keeps -/

namespace GroupState

variable (s : GroupState)

/-- The entry was evicted from the stream. -/
def Evicted (id : StreamId) : Prop := id ∈ (s.published.take s.evicted).map Prod.fst

/-- No projector was given the entry yet. -/
def Unread (id : StreamId) : Prop :=
  ∀ g, s.stream.group? projectorConsumerGroup = some g → g.lastDelivered < id

/-- The entry is pending in the group. -/
def Held (id : StreamId) : Prop :=
  ∃ g, s.stream.group? projectorConsumerGroup = some g ∧ g.Holds id

/-- A projector is done with what the entry holds. -/
def Settled (payload : Payload) : Prop := ∀ event, payload = .event event → event ∈ s.projected

/-- What a projector read of the stream. -/
def Read (e : StreamId × Option Payload) : Prop :=
  match e.2 with
  | some payload => (e.1, payload) ∈ s.published
  | none => s.Evicted e.1

/-- No entry is lost: it is still to be read, pending, done or evicted. -/
def Accounted (p : StreamId × Payload) : Prop :=
  s.Evicted p.1 ∨ s.Unread p.1 ∨ s.Held p.1 ∨ s.Settled p.2

end GroupState

/-- What is kept between the stream, the group and what projectors read. -/
structure GroupInv (config : GroupConfig) (s : GroupState) : Prop where
  entries : s.stream.entries = s.published.drop s.evicted
  ascending : s.published.Pairwise fun a b => a.1 < b.1
  positive : ∀ p ∈ s.published, (⟨0, 0⟩ : StreamId) < p.1
  upTo : ∀ p ∈ s.published, p.1 ≤ s.stream.lastId
  window : s.evicted ≤ s.published.length - config.platformMaximumLength
  delivered : ∀ g, s.stream.group? projectorConsumerGroup = some g →
    g.lastDelivered ≤ s.stream.lastId
  held : ∀ g, s.stream.group? projectorConsumerGroup = some g → ∀ id, g.Holds id →
    id ∈ s.published.map Prod.fst
  read : ∀ d, ∀ e ∈ (s.projector d).entries, s.Read e
  updated : ∀ d, (s.projector d).updated = true →
    ∃ event, (s.projector d).current = some event ∧ event ∈ s.projected
  accounted : ∀ p ∈ s.published, s.Accounted p

section Lemmas

variable {config : GroupConfig} {attemptId : String} {s : GroupState} {d : Nat} {g : Group}

theorem StreamId.zero_le (id : StreamId) : (⟨0, 0⟩ : StreamId) ≤ id := by
  refine not_lt.mp fun h => ?_
  rcases StreamId.lt_iff.mp h with h | ⟨-, h⟩
  · exact Nat.not_lt_zero _ h
  · exact Nat.not_lt_zero _ h

namespace GroupInv

/-- An entry of the history that the stream does not have any more was evicted. -/
theorem evicted_of_not_mem (h : GroupInv config s) {id : StreamId}
    (hid : id ∈ s.published.map Prod.fst) (hgone : ∀ e ∈ s.stream.entries, e.1 ≠ id) :
    s.Evicted id := by
  obtain ⟨p, hp, rfl⟩ := List.mem_map.mp hid
  rw [← List.take_append_drop s.evicted s.published] at hp
  rcases List.mem_append.mp hp with htake | hdrop
  · exact List.mem_map_of_mem htake
  · exact absurd rfl (hgone p (h.entries ▸ hdrop))

theorem mem_published (h : GroupInv config s) {e : StreamId × Payload}
    (he : e ∈ s.stream.entries) : e ∈ s.published := by
  rw [h.entries] at he
  exact List.mem_of_mem_drop he

theorem stream_ascending (h : GroupInv config s) :
    s.stream.entries.Pairwise fun a b => a.1 < b.1 := by
  rw [h.entries]
  exact h.ascending.sublist (List.drop_sublist _ _)

/-- An id belongs to one entry. -/
theorem eq_of_fst (h : GroupInv config s) {p q : StreamId × Payload} (hp : p ∈ s.published)
    (hq : q ∈ s.published) (heq : p.1 = q.1) : p = q := by
  have hids : (s.published.map Prod.fst).Nodup :=
    List.pairwise_map.mpr (h.ascending.imp fun hlt => hlt.ne)
  exact List.inj_on_of_nodup_map hids hp hq heq

/-- The entry that a projector is at, as far as it is an event, was published. -/
theorem current_mem (h : GroupInv config s) {event : Event}
    (hcurrent : (s.projector d).current = some event) : event ∈ s.events := by
  unfold Projector.current at hcurrent
  split at hcurrent
  next id event' rest hentries =>
    obtain rfl := Option.some.inj hcurrent
    have hread : s.Read (id, some (.event event')) :=
      h.read d _ (by rw [hentries]; exact List.mem_cons_self)
    exact List.mem_filterMap.mpr ⟨_, hread, rfl⟩
  · cases hcurrent

/-! ## Steps -/

theorem init (hstream : s.stream = .empty) (hprojector : ∀ d, s.projector d = .start)
    (hpublished : s.published = []) (hevicted : s.evicted = 0) : GroupInv config s where
  entries := by rw [hstream, hpublished, hevicted]; rfl
  ascending := by rw [hpublished]; exact List.Pairwise.nil
  positive p hp := by rw [hpublished] at hp; cases hp
  upTo p hp := by rw [hpublished] at hp; cases hp
  window := by rw [hevicted]; exact Nat.zero_le _
  delivered g hg := by rw [hstream] at hg; cases hg
  held g hg := by rw [hstream] at hg; cases hg
  read d e he := by rw [hprojector] at he; cases he
  updated d hd := by rw [hprojector] at hd; cases hd
  accounted p hp := by rw [hpublished] at hp; cases hp

/-- The history grows, and the stream is evicted from the front. -/
theorem publish (h : GroupInv config s) {id : StreamId} (payload : Payload) {evicted : Nat}
    (hid : s.stream.lastId < id)
    (hevicted : evicted ≤ s.stream.entries.length + 1 - config.platformMaximumLength) :
    GroupInv config { s with
      stream := s.stream.xaddEvicting id payload evicted
      published := s.published ++ [(id, payload)]
      evicted := s.evicted + evicted } := by
  have hwindow := h.window
  have hlength : s.stream.entries.length = s.published.length - s.evicted := by
    rw [h.entries, List.length_drop]
  have hkeep : ∀ {i : StreamId}, s.Evicted i →
      i ∈ (((s.published ++ [(id, payload)]).take (s.evicted + evicted)).map Prod.fst) := by
    intro i hi
    obtain ⟨p, hp, rfl⟩ := List.mem_map.mp hi
    refine List.mem_map_of_mem ?_
    rw [List.take_append]
    exact List.mem_append_left _ ((List.take_subset_take_left _ (by omega)) hp)
  refine ⟨?_, ?_, ?_, ?_, ?_, fun g hg => ?_, fun g hg i hi => ?_, fun d e he => ?_, h.updated,
    fun p hp => ?_⟩
  · show (s.stream.entries ++ [(id, payload)]).drop evicted = _
    rw [h.entries, ← List.drop_append_of_le_length (by omega), List.drop_drop]
  · refine List.pairwise_append.mpr ⟨h.ascending, List.pairwise_singleton _ _, ?_⟩
    intro p hp q hq
    rw [List.mem_singleton.mp hq]
    exact (h.upTo p hp).trans_lt hid
  · intro p hp
    rcases List.mem_append.mp hp with hp | hp
    · exact h.positive p hp
    · rw [List.mem_singleton.mp hp]
      exact (StreamId.zero_le _).trans_lt hid
  · intro p hp
    rcases List.mem_append.mp hp with hp | hp
    · exact (h.upTo p hp).trans hid.le
    · rw [List.mem_singleton.mp hp]
      exact le_rfl
  · show s.evicted + evicted ≤ (s.published ++ [(id, payload)]).length - _
    rw [List.length_append, List.length_singleton]
    omega
  · exact (h.delivered g hg).trans hid.le
  · rw [List.map_append]
    exact List.mem_append_left _ (h.held g hg i hi)
  · have hread := h.read d e he
    unfold GroupState.Read at hread ⊢
    split at hread
    · exact List.mem_append_left _ hread
    · exact hkeep hread
  · rcases List.mem_append.mp hp with hp | hp
    · rcases h.accounted p hp with hout | hrest
      · exact Or.inl (hkeep hout)
      · exact Or.inr hrest
    · rw [List.mem_singleton.mp hp]
      exact Or.inr (Or.inl fun g hg => (h.delivered g hg).trans_lt hid)

theorem createGroup (h : GroupInv config s)
    (hnone : s.stream.group? projectorConsumerGroup = none) :
    GroupInv config { s with stream := s.stream.xgroupCreate projectorConsumerGroup } := by
  have hgroup := Stream.group?_xgroupCreate hnone
  refine ⟨h.entries, h.ascending, h.positive, h.upTo, h.window, fun g hg => ?_,
    fun g hg i hi => ?_, h.read, h.updated, fun p hp => Or.inr (Or.inl fun g hg => ?_)⟩
  · obtain rfl := Option.some.inj (hgroup.symm.trans hg)
    exact StreamId.zero_le _
  · obtain rfl := Option.some.inj (hgroup.symm.trans hg)
    obtain ⟨e, he, -⟩ := hi
    cases he
  · obtain rfl := Option.some.inj (hgroup.symm.trans hg)
    exact h.positive p hp

/-- **A command on the group** keeps the accounts when every entry that it takes from the pending
list, or passes over, is done or evicted. -/
theorem setGroup (h : GroupInv config s)
    (hg : s.stream.group? projectorConsumerGroup = some g) {g' : Group} (hname : g'.name = g.name)
    (hdelivered : g'.lastDelivered ≤ s.stream.lastId)
    (hheld : ∀ id, g'.Holds id → id ∈ s.published.map Prod.fst)
    (haccounted : ∀ p ∈ s.published, g.lastDelivered < p.1 ∨ g.Holds p.1 →
      s.Evicted p.1 ∨ g'.lastDelivered < p.1 ∨ g'.Holds p.1 ∨ s.Settled p.2) :
    GroupInv config { s with stream := s.stream.setGroup g' } := by
  have hgroup := Stream.group?_setGroup hg hname
  refine ⟨h.entries, h.ascending, h.positive, h.upTo, h.window, fun g₁ hg₁ => ?_,
    fun g₁ hg₁ => ?_, h.read, h.updated, fun p hp => ?_⟩
  · obtain rfl := Option.some.inj (hgroup.symm.trans hg₁)
    exact hdelivered
  · obtain rfl := Option.some.inj (hgroup.symm.trans hg₁)
    exact hheld
  · have hopen : g.lastDelivered < p.1 ∨ g.Holds p.1 → GroupState.Accounted
        { s with stream := s.stream.setGroup g' } p := by
      intro hp'
      rcases haccounted p hp hp' with hout | hunread | hhold | hdone
      · exact Or.inl hout
      · refine Or.inr (Or.inl fun g₁ hg₁ => ?_)
        obtain rfl := Option.some.inj (hgroup.symm.trans hg₁)
        exact hunread
      · exact Or.inr (Or.inr (Or.inl ⟨g', hgroup, hhold⟩))
      · exact Or.inr (Or.inr (Or.inr hdone))
    rcases h.accounted p hp with hout | hunread | ⟨g₁, hg₁, hhold⟩ | hdone
    · exact Or.inl hout
    · exact hopen (Or.inl (hunread g hg))
    · obtain rfl := Option.some.inj (hg.symm.trans hg₁)
      exact hopen (Or.inr hhold)
    · exact Or.inr (Or.inr (Or.inr hdone))

theorem setProjector (h : GroupInv config s) {p : Projector} (hread : ∀ e ∈ p.entries, s.Read e)
    (hupdated : p.updated = true → ∃ event, p.current = some event ∧ event ∈ s.projected) :
    GroupInv config (s.setProjector d p) := by
  refine ⟨h.entries, h.ascending, h.positive, h.upTo, h.window, h.delivered, h.held,
    fun d' e he => ?_, fun d' hd' => ?_, h.accounted⟩
  · by_cases heq : d' = d
    · subst heq
      rw [GroupState.setProjector_self] at he
      exact hread e he
    · rw [GroupState.setProjector_of_ne _ heq] at he
      exact h.read d' e he
  · by_cases heq : d' = d
    · subst heq
      rw [GroupState.setProjector_self] at hd' ⊢
      exact hupdated hd'
    · rw [GroupState.setProjector_of_ne _ heq] at hd' ⊢
      exact h.updated d' hd'

theorem apply (h : GroupInv config s) (runId : String) (event : Event) :
    GroupInv config (s.apply runId event) := by
  refine ⟨h.entries, h.ascending, h.positive, h.upTo, h.window, h.delivered, h.held, h.read,
    fun d hd => ?_, fun p hp => ?_⟩
  · obtain ⟨event', hcurrent, hmem⟩ := h.updated d hd
    exact ⟨event', hcurrent, List.mem_append_left _ hmem⟩
  · rcases h.accounted p hp with hout | hunread | hheld | hdone
    · exact Or.inl hout
    · exact Or.inr (Or.inl hunread)
    · exact Or.inr (Or.inr (Or.inl hheld))
    · exact Or.inr (Or.inr (Or.inr fun event' heq => List.mem_append_left _ (hdone event' heq)))

/-- The acknowledgement of an entry that is done or evicted. -/
theorem ack (h : GroupInv config s) (hg : s.stream.group? projectorConsumerGroup = some g)
    {id : StreamId}
    (hdone : ∀ p ∈ s.published, p.1 = id → s.Evicted p.1 ∨ s.Settled p.2) :
    GroupInv config { s with stream := s.stream.setGroup (g.ack id) } := by
  refine h.setGroup hg rfl (h.delivered g hg) (fun i hi => h.held g hg i (Group.holds_ack.mp hi).1)
    fun p hp hopen => ?_
  rcases hopen with hunread | hheld
  · exact Or.inr (Or.inl hunread)
  · by_cases heq : p.1 = id
    · rcases hdone p hp heq with hout | hsettled
      · exact Or.inl hout
      · exact Or.inr (Or.inr (Or.inr hsettled))
    · exact Or.inr (Or.inr (Or.inl (Group.holds_ack.mpr ⟨hheld, heq⟩)))

/-- The entry that a projector is at is done or evicted once it was written or skipped. -/
theorem done_of_read (h : GroupInv config s) {id : StreamId} {content : Option Payload}
    (hread : s.Read (id, content))
    (hsettled : ∀ payload, content = some payload → s.Settled payload) :
    ∀ p ∈ s.published, p.1 = id → s.Evicted p.1 ∨ s.Settled p.2 := by
  intro p hp heq
  cases content with
  | none => exact Or.inl (heq ▸ hread)
  | some payload =>
    have hsame : p = (id, payload) := h.eq_of_fst hp hread heq
    rw [hsame]
    exact Or.inr (hsettled payload rfl)

theorem read_pending (h : GroupInv config s)
    (hg : s.stream.group? projectorConsumerGroup = some g) (consumer : String) (count : Nat) :
    ∀ e ∈ s.stream.xreadgroupPending g consumer count, s.Read e := by
  intro e he
  obtain ⟨entry, hentry, rfl⟩ := List.mem_map.mp he
  have hmem := (List.mem_filter.mp (List.mem_of_mem_take hentry)).1
  unfold GroupState.Read
  cases hfields : s.stream.fields? entry.id with
  | some payload => exact h.mem_published (Stream.mem_of_fields? hfields)
  | none =>
    exact h.evicted_of_not_mem (h.held g hg _ ⟨entry, hmem, rfl⟩)
      (Stream.not_mem_of_fields? hfields)

/-- `XAUTOCLAIM` takes only evicted entries from the pending list. -/
theorem claim (h : GroupInv config s) (hg : s.stream.group? projectorConsumerGroup = some g)
    (consumer : String) (minIdle count now : Nat) :
    GroupInv config
      { s with stream := (s.stream.xautoclaim g consumer minIdle count now).1 } := by
  unfold Stream.xautoclaim
  obtain ⟨hdeleted, -⟩ := Stream.autoclaimScan_spec (s := s.stream) minIdle now (10 * count) count
    g.pending
  refine h.setGroup hg (by simp) (by simpa using h.delivered g hg) (fun id hid => ?_)
    fun p hp hopen => ?_
  · exact h.held g hg id (Group.holds_ackAll.mp (Group.holds_claimAll.mp hid)).1
  · rcases hopen with hunread | hheld
    · exact Or.inr (Or.inl (by simpa using hunread))
    · rw [Group.holds_claimAll, Group.holds_ackAll]
      by_cases hmem : p.1 ∈ (s.stream.autoclaimScan minIdle now (10 * count) count g.pending).1
      · exact Or.inl (h.evicted_of_not_mem (List.mem_map_of_mem hp)
          (Stream.not_mem_of_fields? (hdeleted _ hmem)))
      · exact Or.inr (Or.inr (Or.inl ⟨hheld, hmem⟩))

/-- What is passed over when new entries are read is pending, or was evicted before. -/
theorem readNew (h : GroupInv config s) (hg : s.stream.group? projectorConsumerGroup = some g)
    (consumer : String) (count now : Nat) :
    GroupInv config { s with stream := (s.stream.xreadgroupNew g consumer count now).1 } := by
  have hread : ∀ id ∈ (s.stream.xread g.lastDelivered count).map Prod.fst,
      id ∈ s.published.map Prod.fst ∧ id ≤ s.stream.lastId := by
    intro id hid
    obtain ⟨e, he, rfl⟩ := List.mem_map.mp hid
    have hmem := h.mem_published (Stream.mem_xread he).1
    exact ⟨List.mem_map_of_mem hmem, h.upTo e hmem⟩
  refine h.setGroup hg (by simp) ?_ (fun id hid => ?_) fun p hp hopen => ?_
  · rcases Group.deliverAll_lastDelivered ((s.stream.xread g.lastDelivered count).map Prod.fst)
      consumer now g with heq | hmem
    · rw [heq]
      exact h.delivered g hg
    · exact (hread _ hmem).2
  · rcases Group.holds_deliverAll.mp hid with hold | hnew
    · exact h.held g hg id hold
    · exact (hread id hnew).1
  · rcases hopen with hunread | hheld
    · by_cases hmem : p ∈ s.stream.entries
      · rcases Stream.xreadgroupNew_reaches h.stream_ascending consumer count now hmem hunread with
          hhold | hlater
        · exact Or.inr (Or.inr (Or.inl hhold))
        · exact Or.inr (Or.inl hlater)
      · refine Or.inl (h.evicted_of_not_mem (List.mem_map_of_mem hp) fun e he heq => hmem ?_)
        rw [← h.eq_of_fst (h.mem_published he) hp heq]
        exact he
    · exact Or.inr (Or.inr (Or.inl (Group.holds_deliverAll.mpr (Or.inl hheld))))

/-- **Step lemma.** -/
theorem step (h : GroupInv config s) {t : GroupState} (hst : GroupStep config s d t) :
    GroupInv config t := by
  cases hst with
  | publish id payload evicted hid hevicted => exact h.publish payload hid hevicted
  | createGroup hnone => exact h.createGroup hnone
  | readPending g hg _ _ =>
    exact h.setProjector (h.read_pending hg _ 50) (fun hupdated => by cases hupdated)
  | claim g now hg _ _ =>
    have hclaimed := h.claim hg (config.consumer d) config.claimIdleMilliseconds 50 now
    refine hclaimed.setProjector (fun e he => ?_) (fun hupdated => by cases hupdated)
    obtain ⟨e', he', rfl⟩ := List.mem_map.mp he
    have hfields := (Stream.autoclaimScan_spec (s := s.stream) config.claimIdleMilliseconds now
      (10 * 50) 50 g.pending).2 e' he'
    exact h.mem_published (Stream.mem_of_fields? hfields)
  | readNew g now hg _ _ =>
    have hread := h.readNew hg (config.consumer d) 50 now
    refine hread.setProjector (fun e he => ?_) (fun hupdated => by cases hupdated)
    obtain ⟨e', he', rfl⟩ := List.mem_map.mp he
    exact h.mem_published (Stream.mem_xread he').1
  | update event hcurrent _ _ =>
    refine (h.apply config.runId event).setProjector (fun e he => h.read d e he) fun _ => ?_
    exact ⟨event, hcurrent, List.mem_append_right _ (List.mem_singleton_self event)⟩
  | ack g e rest hg hentries hupdated =>
    have hread := h.read d
    rw [hentries] at hread
    refine (h.ack hg (h.done_of_read (hread e List.mem_cons_self) ?_)).setProjector
      (fun x hx => hread x (List.mem_cons_of_mem _ hx)) (fun hfalse => by cases hfalse)
    intro payload hpayload event hevent
    obtain ⟨event', hcurrent, hmem⟩ := h.updated d hupdated
    unfold Projector.current at hcurrent
    obtain ⟨id, content⟩ := e
    obtain rfl : content = some (.event event) := hpayload.trans (congrArg some hevent)
    rw [hentries] at hcurrent
    obtain rfl : event = event' := Option.some.inj hcurrent
    exact hmem
  | skip g id event rest hg hentries _ _ =>
    have hread := h.read d
    rw [hentries] at hread
    have happlied := h.apply config.runId event
    refine (happlied.ack hg (happlied.done_of_read (hread _ List.mem_cons_self) ?_)).setProjector
      (fun x hx => hread x (List.mem_cons_of_mem _ hx)) (fun hfalse => by cases hfalse)
    rintro payload hpayload event' rfl
    obtain rfl : event = event' := Payload.event.inj (Option.some.inj hpayload)
    exact List.mem_append_right _ (List.mem_singleton_self event)
  | discard g id content rest hg hentries hno =>
    have hread := h.read d
    rw [hentries] at hread
    refine (h.ack hg (h.done_of_read (hread _ List.mem_cons_self) ?_)).setProjector
      (fun x hx => hread x (List.mem_cons_of_mem _ hx)) (fun hfalse => by cases hfalse)
    rintro payload hpayload event rfl
    exact absurd hpayload (hno event)
  | restart =>
    exact h.setProjector (fun e he => by cases he) (fun hupdated => by cases hupdated)

end GroupInv

/-- **Run lemma.** -/
theorem groupInv_reachable (hs : (projectorGroup config attemptId).Reachable s) :
    GroupInv config s := by
  refine hs.invariant ?_ fun s d t _ h hst => h.step hst
  rintro s ⟨hstream, -, hprojector, hpublished, hevicted, -⟩
  exact .init hstream hprojector hpublished hevicted

/-! ## The projectors without a group -/

/-- The group forgotten: the row, the event that each projector is at, and what is done. -/
def GroupState.forget (s : GroupState) : Projectors where
  row := s.row
  entry d := (s.projector d).current
  projected := s.projected

theorem GroupState.forget_setProjector (s : GroupState) (d : Nat) (p : Projector) :
    (s.setProjector d p).forget =
      { s.forget with entry := Function.update s.forget.entry d p.current } := by
  have hentry : (s.setProjector d p).forget.entry =
      Function.update s.forget.entry d p.current := by
    funext d'
    show ((s.setProjector d p).projector d').current = _
    by_cases heq : d' = d
    · subst heq
      rw [setProjector_self, Function.update_self]
    · rw [setProjector_of_ne _ heq, Function.update_of_ne heq]
      rfl
  rw [← hentry]
  rfl

variable {runId : String} {stream : List Event} {a : Projectors}

/-- A projector may drop its entry and take another one. -/
theorem reachable_setEntry (ha : (projectors runId attemptId stream).Reachable a) (d : Nat)
    (entry : Option Event) (hentry : ∀ event, entry = some event → event ∈ stream) :
    (projectors runId attemptId stream).Reachable
      { a with entry := Function.update a.entry d entry } := by
  have hrelease := ha.step (ProjectorStep.release a d)
  cases entry with
  | none => exact hrelease
  | some event =>
    have hreceive := hrelease.step (ProjectorStep.receive _ d event (hentry event rfl)
      (Function.update_self ..))
    rw [Function.update_idem] at hreceive
    exact hreceive

/-- A longer stream allows the same steps. -/
theorem reachable_of_subset {stream' : List Event} (hsub : stream ⊆ stream')
    (ha : (projectors runId attemptId stream).Reachable a) :
    (projectors runId attemptId stream').Reachable a := by
  induction ha with
  | init h => exact .init h
  | step _ hst ih =>
    cases hst with
    | receive event hevent hentry => exact ih.step (.receive _ _ event (hsub hevent) hentry)
    | update event hentry => exact ih.step (.update _ _ event hentry)
    | release => exact ih.step (.release _ _)

/-- **Refinement.** Every state of the group is one of projectors that get entries of the stream
from nowhere. -/
theorem forget_reachable (hs : (projectorGroup config attemptId).Reachable s) :
    (projectors config.runId attemptId s.events).Reachable s.forget := by
  induction hs with
  | init h =>
    obtain ⟨-, hrow, hprojector, -, -, hprojected⟩ := h
    refine .init ⟨hrow, fun d => ?_, hprojected⟩
    show (_ : Projector).current = none
    rw [hprojector]
    rfl
  | @step s t d hs hst ih =>
    have ht : GroupInv config t := (groupInv_reachable hs).step hst
    -- only the entry of the projector changes, in all steps but the two that are done with one
    have hentry : ∀ {s' : GroupState} {p : Projector}, t = s'.setProjector d p →
        (projectors config.runId attemptId t.events).Reachable s'.forget →
        (projectors config.runId attemptId t.events).Reachable t.forget := by
      rintro s' p rfl hs'
      rw [GroupState.forget_setProjector]
      refine reachable_setEntry hs' d _ fun event hcurrent => ht.current_mem (d := d) ?_
      rw [GroupState.setProjector_self]
      exact hcurrent
    cases hst with
    | publish id payload evicted hid hevicted =>
      refine reachable_of_subset (fun event hevent => ?_) ih
      obtain ⟨p, hp, heq⟩ := List.mem_filterMap.mp hevent
      exact List.mem_filterMap.mpr ⟨p, List.mem_append_left _ hp, heq⟩
    | createGroup hnone => exact ih
    | readPending => exact hentry rfl ih
    | claim => exact hentry rfl ih
    | readNew => exact hentry rfl ih
    | update event hcurrent _ _ =>
      exact hentry rfl (ih.step (ProjectorStep.update _ d event hcurrent))
    | ack => exact hentry rfl ih
    | skip g id event rest hg hentries _ _ =>
      refine hentry rfl (ih.step (ProjectorStep.update _ d event ?_))
      show (s.projector d).current = some event
      unfold Projector.current
      rw [hentries]
    | discard => exact hentry rfl ih
    | restart => exact hentry rfl ih

/-! ## Delivery -/

/-- The published events reach the rows. -/
structure EventDelivery (config : GroupConfig) (attemptId : String) : Prop where
  /-- No entry is lost that is not evicted. -/
  accounted : ∀ s, (projectorGroup config attemptId).Reachable s →
    ∀ p ∈ s.published, s.Accounted p
  /-- An entry is evicted only after `platformMaximumLength` later ones. -/
  window : ∀ s, (projectorGroup config attemptId).Reachable s → ∀ pre p post,
    s.published = pre ++ p :: post → s.Evicted p.1 → config.platformMaximumLength ≤ post.length
  /-- The rows are written for published events only. -/
  refines : ∀ s, (projectorGroup config attemptId).Reachable s →
    (projectors config.runId attemptId s.events).Reachable s.forget
  /-- When the group has nothing left to do, and was done with every entry that was evicted, the row
  of the run shows the last event of its attempt that changes the status. -/
  converges : ∀ s, (projectorGroup config attemptId).Reachable s →
    Numbered config.runId attemptId s.events →
    (∀ p ∈ s.published, ¬s.Unread p.1 ∧ ¬s.Held p.1 ∧ (s.Evicted p.1 → s.Settled p.2)) →
    ∀ last, Changing config.runId attemptId s.events last →
    (∀ event, Changing config.runId attemptId s.events event → event.sequence ≤ last.sequence) →
    Shows s.row last

theorem GroupInv.window_of_evicted (h : GroupInv config s) {pre post : List (StreamId × Payload)}
    {p : StreamId × Payload} (hsplit : s.published = pre ++ p :: post) (hout : s.Evicted p.1) :
    config.platformMaximumLength ≤ post.length := by
  obtain ⟨q, hq, heq⟩ := List.mem_map.mp hout
  have hp : p ∈ s.published := hsplit ▸ List.mem_append_right _ List.mem_cons_self
  obtain rfl : q = p := h.eq_of_fst (List.mem_of_mem_take hq) hp heq
  have hwindow := h.window
  have hlength : s.published.length = pre.length + (post.length + 1) := by
    rw [hsplit, List.length_append, List.length_cons]
  have hbefore : pre.length < s.evicted := by
    by_contra hle
    rw [hsplit, List.take_append_of_le_length (by omega)] at hq
    have hdistinct := h.ascending
    rw [hsplit] at hdistinct
    exact lt_irrefl _ ((List.pairwise_append.mp hdistinct).2.2 q (List.mem_of_mem_take hq) q
      List.mem_cons_self)
  omega

/-- **Event delivery.** -/
theorem event_delivery (config : GroupConfig) (attemptId : String) :
    EventDelivery config attemptId where
  accounted _ hs := (groupInv_reachable hs).accounted
  window _ hs _ _ _ := (groupInv_reachable hs).window_of_evicted
  refines _ := forget_reachable
  converges s hs hn hdrained last hlast hmax := by
    refine (projected_reachable hn (forget_reachable hs)).shows_last hn (fun event hevent => ?_)
      hlast hmax
    obtain ⟨⟨id, payload⟩, hp, hpayload⟩ := List.mem_filterMap.mp hevent.1
    obtain ⟨hread, hreleased, hevicted⟩ := hdrained _ hp
    cases payload with
    | malformed => cases hpayload
    | event event' =>
      obtain rfl : event' = event := Option.some.inj hpayload
      rcases (groupInv_reachable hs).accounted _ hp with hout | hunread | hheld | hdone
      · exact hevicted hout event' rfl
      · exact absurd hunread hread
      · exact absurd hheld hreleased
      · exact hdone event' rfl

end Lemmas

/-! ## One event -/

def startedEvent : Event :=
  ⟨.jobStarted, "job", "run", "attempt", 1, some "execution_1", none, none⟩

def oneProjector : GroupConfig := ⟨"run", fun _ => "projector", 60000, 1000⟩

/-- The start of a run is published, read, written and acknowledged, and the row shows it. -/
theorem event_delivery_started :
    ∃ s, (projectorGroup oneProjector "attempt").Reachable s ∧
      Numbered "run" "attempt" s.events ∧
      (∀ p ∈ s.published, ¬s.Unread p.1 ∧ ¬s.Held p.1 ∧ (s.Evicted p.1 → s.Settled p.2)) ∧
      s.row.status = .running ∧ Shows s.row startedEvent := by
  have hinit : (projectorGroup oneProjector "attempt").Reachable
      ⟨.empty, .queued "attempt", fun _ => .start, [], 0, []⟩ :=
    .init ⟨rfl, rfl, fun _ => rfl, rfl, rfl, rfl⟩
  have h1 := hinit.step (GroupStep.publish _ 0 ⟨1, 0⟩ (.event startedEvent) 0 (by decide)
    (Nat.zero_le _))
  have h2 := h1.step (GroupStep.createGroup _ 0 rfl)
  have h3 := h2.step (GroupStep.readPending _ 0 _ rfl rfl rfl)
  have h4 := h3.step (GroupStep.claim _ 0 _ 1 rfl rfl rfl)
  have h5 := h4.step (GroupStep.readNew _ 0 _ 1 rfl rfl rfl)
  have h6 := h5.step (GroupStep.update _ 0 startedEvent rfl rfl ⟨_, rfl⟩)
  have h7 := h6.step (GroupStep.ack _ 0 _ _ _ rfl rfl rfl)
  obtain ⟨s, hs, hpublished, hevicted, hgroup, hstatus⟩ :
      ∃ s, (projectorGroup oneProjector "attempt").Reachable s ∧
        s.published = [(⟨1, 0⟩, .event startedEvent)] ∧ s.evicted = 0 ∧
        s.stream.group? projectorConsumerGroup =
          some ⟨projectorConsumerGroup, ⟨1, 0⟩, []⟩ ∧ s.row.status = .running :=
    ⟨_, h7, rfl, rfl, rfl, rfl⟩
  have hevents : s.events = [startedEvent] := by
    unfold GroupState.events
    rw [hpublished]
    rfl
  have hof : ∀ {event}, OfAttempt "run" "attempt" s.events event → event = startedEvent :=
    fun h => List.mem_singleton.mp (hevents ▸ h.1)
  have hstarted : Changing "run" "attempt" s.events startedEvent :=
    ⟨⟨by rw [hevents]; exact List.mem_singleton_self _, rfl, rfl⟩, _, rfl⟩
  have hn : Numbered "run" "attempt" s.events :=
    ⟨fun event other h h' _ => (hof h).trans (hof h').symm,
      fun event other h h' _ hne => absurd ((hof h').trans (hof h).symm) hne⟩
  have hdrained : ∀ p ∈ s.published,
      ¬s.Unread p.1 ∧ ¬s.Held p.1 ∧ (s.Evicted p.1 → s.Settled p.2) := by
    intro p hp
    rw [hpublished] at hp
    obtain rfl := List.mem_singleton.mp hp
    refine ⟨fun hunread => ?_, ?_, fun hout => ?_⟩
    · exact absurd (hunread _ hgroup) (lt_irrefl _)
    · rintro ⟨g, hg, hheld⟩
      obtain rfl := Option.some.inj (hgroup.symm.trans hg)
      obtain ⟨e, he, -⟩ := hheld
      cases he
    · unfold GroupState.Evicted at hout
      rw [hevicted] at hout
      cases hout
  exact ⟨s, hs, hn, hdrained, hstatus, (event_delivery oneProjector "attempt").converges s hs hn
    hdrained startedEvent hstarted fun event h => by rw [hof h.1]⟩

end DocParser.Platform
