import DocParser.Lib.RedisStream

/-!
# Batches of stream entries

The commands that consumers read many entries with, and the bounded `XADD`. `Group.Holds` says
that a message is in the pending list, and each command has a lemma about what is held after it.
`xreadgroupNew_reaches`: an entry that was not delivered is delivered now or later.
-/

namespace Redis

namespace Group

variable {g : Group} {id i : StreamId} {ids : List StreamId} {consumer : String} {now : Nat}

/-- The message is in the pending list. -/
def Holds (g : Group) (id : StreamId) : Prop := ∃ e ∈ g.pending, e.id = id

theorem holds_ack : (g.ack id).Holds i ↔ g.Holds i ∧ i ≠ id := by
  constructor
  · rintro ⟨e, he, rfl⟩
    obtain ⟨hmem, hne⟩ := List.mem_filter.mp he
    exact ⟨⟨e, hmem, rfl⟩, by simpa using hne⟩
  · rintro ⟨⟨e, he, rfl⟩, hne⟩
    exact ⟨e, List.mem_filter.mpr ⟨he, by simpa using hne⟩, rfl⟩

theorem holds_claim : (g.claim id consumer now).Holds i ↔ g.Holds i := by
  constructor
  · rintro ⟨e, he, rfl⟩
    exact claim_mem_id he
  · rintro ⟨e, he, rfl⟩
    refine ⟨_, List.mem_map.mpr ⟨e, he, rfl⟩, ?_⟩
    split_ifs with hid
    · exact hid.symm
    · rfl

theorem holds_deliver : (g.deliver id consumer now).Holds i ↔ g.Holds i ∨ i = id := by
  unfold Holds deliver
  constructor
  · rintro ⟨e, he, rfl⟩
    rcases List.mem_append.mp he with he | he
    · exact Or.inl ⟨e, he, rfl⟩
    · rw [List.mem_singleton.mp he]
      exact Or.inr rfl
  · rintro (⟨e, he, rfl⟩ | rfl)
    · exact ⟨e, List.mem_append_left _ he, rfl⟩
    · exact ⟨_, List.mem_append_right _ (List.mem_singleton_self _), rfl⟩

/-! ## Several messages -/

variable (g consumer now) in
/-- `XACK` of several messages. -/
def ackAll (ids : List StreamId) : Group := ids.foldl (fun g id => g.ack id) g

variable (g consumer now) in
def claimAll (ids : List StreamId) : Group := ids.foldl (fun g id => g.claim id consumer now) g

variable (g consumer now) in
def deliverAll (ids : List StreamId) : Group :=
  ids.foldl (fun g id => g.deliver id consumer now) g

theorem holds_ackAll : ∀ {g : Group}, (g.ackAll ids).Holds i ↔ g.Holds i ∧ i ∉ ids := by
  induction ids with
  | nil => simp [ackAll]
  | cons id ids ih =>
    intro g
    refine (ih (g := g.ack id)).trans ?_
    rw [holds_ack, List.mem_cons, not_or, and_assoc]

theorem holds_claimAll : ∀ {g : Group}, (g.claimAll consumer now ids).Holds i ↔ g.Holds i := by
  induction ids with
  | nil => exact fun {_} => Iff.rfl
  | cons id ids ih => exact fun {_} => ih.trans holds_claim

theorem holds_deliverAll :
    ∀ {g : Group}, (g.deliverAll consumer now ids).Holds i ↔ g.Holds i ∨ i ∈ ids := by
  induction ids with
  | nil => simp [deliverAll]
  | cons id ids ih =>
    intro g
    refine (ih (g := g.deliver id consumer now)).trans ?_
    rw [holds_deliver, List.mem_cons, or_assoc]

@[simp] theorem ackAll_lastDelivered :
    ∀ {g : Group}, (g.ackAll ids).lastDelivered = g.lastDelivered := by
  induction ids with
  | nil => exact fun {_} => rfl
  | cons id ids ih => exact fun {g} => ih (g := g.ack id)

@[simp] theorem claimAll_lastDelivered :
    ∀ {g : Group}, (g.claimAll consumer now ids).lastDelivered = g.lastDelivered := by
  induction ids with
  | nil => exact fun {_} => rfl
  | cons id ids ih => exact fun {g} => ih (g := g.claim id consumer now)

variable (consumer now ids) in
theorem deliverAll_lastDelivered :
    ∀ g : Group, (g.deliverAll consumer now ids).lastDelivered = g.lastDelivered ∨
      (g.deliverAll consumer now ids).lastDelivered ∈ ids := by
  induction ids with
  | nil => exact fun _ => Or.inl rfl
  | cons id ids ih =>
    intro g
    rcases ih (g.deliver id consumer now) with h | h
    · exact Or.inr (h ▸ List.mem_cons_self)
    · exact Or.inr (List.mem_cons_of_mem _ h)

@[simp] theorem ackAll_name : ∀ {g : Group}, (g.ackAll ids).name = g.name := by
  induction ids with
  | nil => exact fun {_} => rfl
  | cons id ids ih => exact fun {g} => ih (g := g.ack id)

@[simp] theorem claimAll_name : ∀ {g : Group}, (g.claimAll consumer now ids).name = g.name := by
  induction ids with
  | nil => exact fun {_} => rfl
  | cons id ids ih => exact fun {g} => ih (g := g.claim id consumer now)

@[simp] theorem deliverAll_name :
    ∀ {g : Group}, (g.deliverAll consumer now ids).name = g.name := by
  induction ids with
  | nil => exact fun {_} => rfl
  | cons id ids ih => exact fun {g} => ih (g := g.deliver id consumer now)

end Group

namespace Stream

variable {φ : Type} (s : Stream φ)

/-- `XADD MAXLEN ~`: the server may evict some of the oldest entries. -/
def xaddEvicting (id : StreamId) (fields : φ) (evicted : Nat) : Stream φ :=
  { s.xadd id fields with entries := (s.xadd id fields).entries.drop evicted }

/-- `XGROUP CREATE name 0`. -/
def xgroupCreate (name : String) : Stream φ :=
  { s with groups := s.groups ++ [⟨name, ⟨0, 0⟩, []⟩] }

/-- `XREAD COUNT count` behind an id. -/
def xread (after : StreamId) (count : Nat) : List (StreamId × φ) :=
  (s.entries.filter fun e => decide (after < e.1)).take count

/-- `XREADGROUP COUNT count >`. -/
def xreadgroupNew (g : Group) (consumer : String) (count now : Nat) :
    Stream φ × List (StreamId × φ) :=
  let read := s.xread g.lastDelivered count
  (s.setGroup (g.deliverAll consumer now (read.map Prod.fst)), read)

/-- `XREADGROUP COUNT count 0`: pending entries of a consumer, without fields where the entry was
deleted from the stream. -/
def xreadgroupPending (g : Group) (consumer : String) (count : Nat) : List (StreamId × Option φ) :=
  ((g.pending.filter fun e => decide (e.consumer = consumer)).take count).map fun e =>
    (e.id, s.fields? e.id)

/-- The scan of `XAUTOCLAIM` over pending entries: those that are deleted from the pending list,
and those that are claimed. It ends when it has looked at `attempts` entries or found `count`. -/
def autoclaimScan (minIdle now : Nat) :
    Nat → Nat → List PendingEntry → List StreamId × List (StreamId × φ)
  | 0, _, _ => ([], [])
  | _, 0, _ => ([], [])
  | _, _, [] => ([], [])
  | attempts + 1, count + 1, e :: rest =>
    match s.fields? e.id with
    | none =>
      let found := autoclaimScan minIdle now attempts count rest
      (e.id :: found.1, found.2)
    | some fields =>
      if minIdle ≤ now - e.deliveredAt then
        let found := autoclaimScan minIdle now attempts count rest
        (found.1, (e.id, fields) :: found.2)
      else autoclaimScan minIdle now attempts (count + 1) rest

/-- `XAUTOCLAIM COUNT count` from the first pending entry on. -/
def xautoclaim (g : Group) (consumer : String) (minIdle count now : Nat) :
    Stream φ × List (StreamId × φ) :=
  let found := s.autoclaimScan minIdle now (10 * count) count g.pending
  (s.setGroup ((g.ackAll found.1).claimAll consumer now (found.2.map Prod.fst)), found.2)

variable {s}

theorem mem_xread {after : StreamId} {count : Nat} {e : StreamId × φ}
    (h : e ∈ s.xread after count) : e ∈ s.entries ∧ after < e.1 := by
  obtain ⟨hmem, hafter⟩ := List.mem_filter.mp (List.mem_of_mem_take h)
  exact ⟨hmem, of_decide_eq_true hafter⟩

/-- **A page** has an entry behind the id, or it is full of earlier ones. -/
theorem xread_reaches (hs : s.entries.Pairwise fun a b => a.1 < b.1) {after : StreamId}
    (count : Nat) {e : StreamId × φ} (he : e ∈ s.entries) (hafter : after < e.1) :
    e ∈ s.xread after count ∨ ∀ x ∈ s.xread after count, x.1 < e.1 := by
  unfold xread
  have hmem : e ∈ s.entries.filter fun e => decide (after < e.1) :=
    List.mem_filter.mpr ⟨he, decide_eq_true hafter⟩
  have hasc := hs.filter fun e => decide (after < e.1)
  generalize (s.entries.filter fun e => decide (after < e.1)) = l at hmem hasc ⊢
  rw [← List.take_append_drop count l] at hmem hasc
  rcases List.mem_append.mp hmem with htake | hdrop
  · exact Or.inl htake
  · exact Or.inr fun x hx => (List.pairwise_append.mp hasc).2.2 x hx e hdrop

/-- An entry that was not delivered is delivered now, or it is still to be delivered. -/
theorem xreadgroupNew_reaches (hs : s.entries.Pairwise fun a b => a.1 < b.1) {g : Group}
    (consumer : String) (count now : Nat) {e : StreamId × φ} (he : e ∈ s.entries)
    (hafter : g.lastDelivered < e.1) :
    let g' := g.deliverAll consumer now ((s.xread g.lastDelivered count).map Prod.fst)
    g'.Holds e.1 ∨ g'.lastDelivered < e.1 := by
  rcases xread_reaches hs count he hafter with hread | hlater
  · exact Or.inl (Group.holds_deliverAll.mpr (Or.inr (List.mem_map_of_mem hread)))
  · refine Or.inr ?_
    rcases Group.deliverAll_lastDelivered ((s.xread g.lastDelivered count).map Prod.fst) consumer
      now g with h | h
    · rw [h]
      exact hafter
    · obtain ⟨x, hx, heq⟩ := List.mem_map.mp h
      rw [← heq]
      exact hlater x hx

theorem mem_of_fields? {id : StreamId} {fields : φ} (h : s.fields? id = some fields) :
    (id, fields) ∈ s.entries := by
  obtain ⟨e, he, rfl⟩ := Option.map_eq_some_iff.mp h
  have hid : e.1 = id := by simpa using List.find?_some he
  subst hid
  exact List.mem_of_find?_eq_some he

theorem not_mem_of_fields? {id : StreamId} (h : s.fields? id = none) :
    ∀ e ∈ s.entries, e.1 ≠ id := by
  intro e he hid
  have hfind := List.find?_eq_none.mp (Option.map_eq_none_iff.mp h) e he
  simp [hid] at hfind

theorem autoclaimScan_spec (minIdle now : Nat) : ∀ (attempts count : Nat) (l : List PendingEntry),
    (∀ id ∈ (s.autoclaimScan minIdle now attempts count l).1, s.fields? id = none) ∧
    ∀ e ∈ (s.autoclaimScan minIdle now attempts count l).2, s.fields? e.1 = some e.2 := by
  intro attempts count l
  fun_induction autoclaimScan s minIdle now attempts count l with
  | case1 | case2 | case3 => simp
  | case4 attempts count e rest hnone found ih =>
    refine ⟨fun id hid => ?_, ih.2⟩
    rcases List.mem_cons.mp hid with rfl | hid
    · exact hnone
    · exact ih.1 id hid
  | case5 attempts count e rest fields hfields hidle found ih =>
    refine ⟨ih.1, fun x hx => ?_⟩
    rcases List.mem_cons.mp hx with rfl | hx
    · exact hfields
    · exact ih.2 x hx
  | case6 attempts count e rest fields hfields hidle ih => exact ih

theorem group?_xgroupCreate {name : String} (h : s.group? name = none) :
    (s.xgroupCreate name).group? name = some ⟨name, ⟨0, 0⟩, []⟩ := by
  unfold group? xgroupCreate at *
  rw [List.find?_append, h]
  simp

end Stream

end Redis
