import Mathlib.Data.Prod.Lex
import Mathlib.Order.Lattice
import Mathlib.Tactic.Basic

/-!
# Redis streams and consumer groups

The part of the Redis data model that stream consumers rely on: entry ids with their order,
streams, consumer groups and their pending entries lists. The operations follow the Redis
commands of the same name. A message of a group is *owned* while it is in the pending list;
`Group.Gone` says that it was delivered and is owned by nobody, and the `gone` lemmas say that
no command brings such a message back.
-/

namespace Redis

/-- A stream entry id: milliseconds and a sequence number within the millisecond. -/
structure StreamId where
  ms : Nat
  seq : Nat
  deriving DecidableEq, Repr

namespace StreamId

def toLexPair (i : StreamId) : ℕ ×ₗ ℕ := toLex (i.ms, i.seq)

theorem toLexPair_injective : Function.Injective toLexPair := by
  rintro ⟨a, b⟩ ⟨c, d⟩ h
  have h' : (a, b) = (c, d) := toLex.injective h
  cases h'
  rfl

instance : LinearOrder StreamId := LinearOrder.lift' toLexPair toLexPair_injective

theorem lt_iff {i j : StreamId} : i < j ↔ i.ms < j.ms ∨ i.ms = j.ms ∧ i.seq < j.seq :=
  Prod.Lex.toLex_lt_toLex

end StreamId

/-- An entry of a pending entries list: who holds the message and when it was last delivered. -/
structure PendingEntry where
  id : StreamId
  consumer : String
  deliveredAt : Nat
  deriving DecidableEq, Repr

/-- A consumer group. The pending entries are kept by ascending id. -/
structure Group where
  name : String
  lastDelivered : StreamId
  pending : List PendingEntry
  deriving DecidableEq, Repr

namespace Group

variable (g : Group) (id : StreamId) (consumer : String) (now : Nat)

/-- The pending entry of a message. -/
def entry? : Option PendingEntry := g.pending.find? (·.id = id)

/-- The consumer that holds a message, as `XPENDING` with the range `id id 1` reports it. -/
def owner : Option String := (g.entry? id).map (·.consumer)

/-- `XACK`: the message leaves the pending list, whoever holds it. -/
def ack : Group := { g with pending := g.pending.filter (·.id ≠ id) }

/-- `XREADGROUP >` handing out the entry `id`. -/
def deliver : Group :=
  { g with lastDelivered := id, pending := g.pending ++ [⟨id, consumer, now⟩] }

/-- `XCLAIM` of a pending message: it changes hands and its idle time starts again. -/
def claim : Group :=
  { g with pending := g.pending.map fun e => if e.id = id then ⟨id, consumer, now⟩ else e }

/-- `XPENDING IDLE minIdle cursor + count`: pending entries after the cursor (`none` is `-`)
that have been idle for at least `minIdle` milliseconds. -/
def pendingRange (minIdle : Nat) (cursor : Option StreamId) (count : Nat) : List PendingEntry :=
  (g.pending.filter fun e =>
    decide (∀ c ∈ cursor, c < e.id) && decide (minIdle ≤ now - e.deliveredAt)).take count

/-- The message was delivered and nobody holds it any more. -/
def Gone : Prop := g.owner id = none ∧ id ≤ g.lastDelivered

/-- Every pending message was delivered. -/
def Delivered : Prop := ∀ e ∈ g.pending, e.id ≤ g.lastDelivered

variable {g id consumer now}

theorem owner_eq_none_iff : g.owner id = none ↔ ∀ e ∈ g.pending, e.id ≠ id := by
  simp [owner, entry?]

theorem le_lastDelivered_of_owner (hg : g.Delivered) {c : String} (h : g.owner id = some c) :
    id ≤ g.lastDelivered := by
  by_contra hlt
  have hnone : g.owner id = none :=
    owner_eq_none_iff.mpr fun e he hid => hlt (hid ▸ hg e he)
  rw [hnone] at h
  exact absurd h (by simp)

@[simp] theorem ack_lastDelivered : (g.ack id).lastDelivered = g.lastDelivered := rfl
@[simp] theorem ack_name : (g.ack id).name = g.name := rfl
@[simp] theorem claim_lastDelivered : (g.claim id consumer now).lastDelivered = g.lastDelivered :=
  rfl
@[simp] theorem claim_name : (g.claim id consumer now).name = g.name := rfl
@[simp] theorem deliver_lastDelivered : (g.deliver id consumer now).lastDelivered = id := rfl
@[simp] theorem deliver_name : (g.deliver id consumer now).name = g.name := rfl

theorem owner_ack_self : (g.ack id).owner id = none := by
  rw [owner_eq_none_iff]
  intro e he
  simpa using (List.mem_filter.mp he).2

theorem owner_ack_of_ne {i : StreamId} (h : i ≠ id) : (g.ack id).owner i = g.owner i := by
  unfold owner entry? ack
  congr 1
  induction g.pending with
  | nil => rfl
  | cons e l ih =>
    by_cases he : e.id = id
    · simpa [he, List.find?_cons, Ne.symm h] using ih
    · by_cases hi : e.id = i
      · simp [hi, h]
      · simpa [List.filter_cons, he, List.find?_cons, hi] using ih

theorem owner_deliver_of_ne {i : StreamId} (h : i ≠ id) :
    (g.deliver id consumer now).owner i = g.owner i := by
  unfold owner entry? deliver
  simp [List.find?_append, Ne.symm h]

theorem claim_mem_id {e : PendingEntry} (he : e ∈ (g.claim id consumer now).pending) :
    ∃ e' ∈ g.pending, e'.id = e.id := by
  obtain ⟨e', he', rfl⟩ := List.mem_map.mp he
  by_cases hid : e'.id = id
  · exact ⟨e', he', by simp [hid]⟩
  · exact ⟨e', he', by simp [hid]⟩

theorem owner_claim_eq_none {i : StreamId} (h : g.owner i = none) :
    (g.claim id consumer now).owner i = none := by
  rw [owner_eq_none_iff] at h ⊢
  intro e he
  obtain ⟨e', he', hid⟩ := claim_mem_id he
  exact hid ▸ h e' he'

/-! ### What no command undoes -/

theorem Gone.of_ack (hid : id ≤ g.lastDelivered) : (g.ack id).Gone id :=
  ⟨owner_ack_self, hid⟩

theorem Gone.ack {i : StreamId} (h : g.Gone i) : (g.ack id).Gone i := by
  by_cases hi : i = id
  · subst hi; exact .of_ack h.2
  · exact ⟨by rw [owner_ack_of_ne hi]; exact h.1, h.2⟩

theorem Gone.claim {i : StreamId} (h : g.Gone i) : (g.claim id consumer now).Gone i :=
  ⟨owner_claim_eq_none h.1, h.2⟩

/-- A new read hands out an id past the last delivered one, so never a message that is gone. -/
theorem Gone.deliver {i : StreamId} (h : g.Gone i) (hid : g.lastDelivered < id) :
    (g.deliver id consumer now).Gone i := by
  have hlt : i < id := lt_of_le_of_lt h.2 hid
  exact ⟨by rw [owner_deliver_of_ne hlt.ne]; exact h.1, hlt.le⟩

theorem Delivered.ack (h : g.Delivered) : (g.ack id).Delivered := fun e he =>
  h e (List.mem_filter.mp he).1

theorem Delivered.claim (h : g.Delivered) : (g.claim id consumer now).Delivered := by
  intro e he
  obtain ⟨e', he', hid⟩ := claim_mem_id he
  exact hid ▸ h e' he'

theorem Delivered.deliver (h : g.Delivered) (hid : g.lastDelivered < id) :
    (g.deliver id consumer now).Delivered := by
  intro e he
  rcases List.mem_append.mp he with he | he
  · exact (h e he).trans hid.le
  · rw [List.mem_singleton.mp he]; exact le_rfl

/-- What any number of commands can do to a group. -/
inductive Evolves : Group → Group → Prop
  | refl (g : Group) : Evolves g g
  | ack (g : Group) (id : StreamId) : Evolves g (g.ack id)
  | claim (g : Group) (id : StreamId) (consumer : String) (now : Nat) :
      Evolves g (g.claim id consumer now)
  | deliver (g : Group) (id : StreamId) (consumer : String) (now : Nat) :
      g.lastDelivered < id → Evolves g (g.deliver id consumer now)
  | trans {g h k : Group} : Evolves g h → Evolves h k → Evolves g k

variable {h : Group}

theorem Evolves.name (he : Evolves g h) : h.name = g.name := by
  induction he with
  | refl | ack | claim | deliver => rfl
  | trans _ _ ih₁ ih₂ => exact ih₂.trans ih₁

theorem Evolves.gone (he : Evolves g h) {i : StreamId} (hi : g.Gone i) : h.Gone i := by
  induction he with
  | refl => exact hi
  | ack => exact hi.ack
  | claim => exact hi.claim
  | deliver _ _ _ _ hlt => exact hi.deliver hlt
  | trans _ _ ih₁ ih₂ => exact ih₂ (ih₁ hi)

theorem Evolves.delivered (he : Evolves g h) (hg : g.Delivered) : h.Delivered := by
  induction he with
  | refl => exact hg
  | ack => exact hg.ack
  | claim => exact hg.claim
  | deliver _ _ _ _ hlt => exact hg.deliver hlt
  | trans _ _ ih₁ ih₂ => exact ih₂ (ih₁ hg)

/-! ### Pages -/

/-- The pending list ascends and lists delivered messages only. -/
structure Ordered (g : Group) : Prop where
  ascending : g.pending.Pairwise fun a b => a.id < b.id
  delivered : g.Delivered

theorem Ordered.ack (h : g.Ordered) : (g.ack id).Ordered :=
  ⟨h.ascending.filter _, h.delivered.ack⟩

theorem Ordered.claim (h : g.Ordered) : (g.claim id consumer now).Ordered := by
  refine ⟨List.pairwise_map.mpr (h.ascending.imp fun {a b} hab => ?_), h.delivered.claim⟩
  have hid : ∀ e : PendingEntry, (if e.id = id then ⟨id, consumer, now⟩ else e : PendingEntry).id =
      e.id := by
    intro e
    split_ifs with he
    · exact he.symm
    · rfl
  rw [hid, hid]
  exact hab

theorem Ordered.deliver (h : g.Ordered) (hid : g.lastDelivered < id) :
    (g.deliver id consumer now).Ordered := by
  refine ⟨List.pairwise_append.mpr ⟨h.ascending, List.pairwise_singleton _ _, ?_⟩,
    h.delivered.deliver hid⟩
  intro a ha b hb
  rw [List.mem_singleton.mp hb]
  exact (h.delivered a ha).trans_lt hid

theorem Evolves.ordered (he : Evolves g h) (hg : g.Ordered) : h.Ordered := by
  induction he with
  | refl => exact hg
  | ack => exact hg.ack
  | claim => exact hg.claim
  | deliver _ _ _ _ hlt => exact hg.deliver hlt
  | trans _ _ ih₁ ih₂ => exact ih₂ (ih₁ hg)

end Group

/-- A stream with its consumer groups. The empty stream stands for a missing key. -/
structure Stream (φ : Type) where
  entries : List (StreamId × φ)
  lastId : StreamId
  groups : List Group
  deriving DecidableEq, Repr

namespace Stream

variable {φ : Type} (s : Stream φ)

def empty : Stream φ := ⟨[], ⟨0, 0⟩, []⟩

def group? (name : String) : Option Group := s.groups.find? (·.name = name)

/-- Replaces a group's state, as a command on that group does. -/
def setGroup (g : Group) : Stream φ :=
  { s with groups := s.groups.map fun h => if h.name = g.name then g else h }

/-- `XADD` with the id that the server picks. -/
def xadd (id : StreamId) (fields : φ) : Stream φ :=
  { s with entries := s.entries ++ [(id, fields)], lastId := id }

/-- `XTRIM MINID floor`. -/
def xtrimMinId (floor : StreamId) : Stream φ :=
  { s with entries := s.entries.filter fun e => floor ≤ e.1 }

/-- `XLEN`. -/
def xlen : Nat := s.entries.length

def fields? (id : StreamId) : Option φ := (s.entries.find? (·.1 = id)).map (·.2)

/-- The next entry for a group: the first one past its last delivered id. -/
def next? (g : Group) : Option (StreamId × φ) := s.entries.find? fun e => g.lastDelivered < e.1

/-- `XREADGROUP COUNT 1 >` by a consumer of the group. -/
def xreadgroup (g : Group) (consumer : String) (now : Nat) :
    Stream φ × Option (StreamId × φ) :=
  match s.next? g with
  | none => (s, none)
  | some e => (s.setGroup (g.deliver e.1 consumer now), some e)

/-- `XCLAIM` of one id. An entry that was deleted from the stream leaves the pending list
instead of changing hands. -/
def xclaim (g : Group) (consumer : String) (minIdle : Nat) (id : StreamId) (now : Nat) :
    Stream φ × Option (StreamId × φ) :=
  match s.fields? id with
  | none => (s.setGroup (g.ack id), none)
  | some fields =>
    match g.entry? id with
    | none => (s, none)
    | some e =>
      if minIdle ≤ now - e.deliveredAt then
        (s.setGroup (g.claim id consumer now), some (id, fields))
      else (s, none)

variable {s}

theorem lt_of_next? {g : Group} {e : StreamId × φ} (h : s.next? g = some e) :
    g.lastDelivered < e.1 := by
  simpa using List.find?_some h

theorem name_of_group? {name : String} {g : Group} (h : s.group? name = some g) :
    g.name = name := by
  simpa using List.find?_some h

theorem group?_setGroup_self {g g' : Group} (h : s.group? g.name = some g') :
    (s.setGroup g).group? g.name = some g := by
  unfold group? setGroup at *
  induction hl : s.groups generalizing s with
  | nil => simp [hl] at h
  | cons a l ih =>
    by_cases ha : a.name = g.name
    · simp [ha]
    · rw [hl] at h
      simp only [List.find?_cons, ha, decide_false] at h
      simp only [List.map_cons, ha, if_false, List.find?_cons, decide_false]
      exact ih (s := { s with groups := l }) h rfl

@[simp] theorem group?_xadd {id : StreamId} {fields : φ} {name : String} :
    (s.xadd id fields).group? name = s.group? name := rfl

@[simp] theorem group?_xtrimMinId {floor : StreamId} {name : String} :
    (s.xtrimMinId floor).group? name = s.group? name := rfl

@[simp] theorem setGroup_entries {g : Group} : (s.setGroup g).entries = s.entries := rfl

theorem group?_setGroup {name : String} {g g' : Group} (h : s.group? name = some g)
    (hn : g'.name = g.name) : (s.setGroup g').group? name = some g' := by
  have hname : g'.name = name := hn.trans (name_of_group? h)
  subst hname
  exact group?_setGroup_self h

theorem xreadgroup_group? {name : String} {g : Group} (h : s.group? name = some g)
    (consumer : String) (now : Nat) :
    ∃ g', (s.xreadgroup g consumer now).1.group? name = some g' ∧ g.Evolves g' := by
  unfold xreadgroup
  cases hn : s.next? g with
  | none => exact ⟨g, h, .refl g⟩
  | some e =>
    exact ⟨_, group?_setGroup h rfl, .deliver g e.1 consumer now (lt_of_next? hn)⟩

theorem xclaim_group? {name : String} {g : Group} (h : s.group? name = some g)
    (consumer : String) (minIdle : Nat) (id : StreamId) (now : Nat) :
    ∃ g', (s.xclaim g consumer minIdle id now).1.group? name = some g' ∧ g.Evolves g' := by
  unfold xclaim
  split
  · exact ⟨_, group?_setGroup h rfl, .ack g id⟩
  split
  · exact ⟨g, h, .refl g⟩
  split
  · exact ⟨_, group?_setGroup h rfl, .claim g id consumer now⟩
  · exact ⟨g, h, .refl g⟩

end Stream

end Redis
