import Mathlib.Data.List.Pairwise
import DocParser.Platform.JobGroup

/-!
# The lease invariant

`MessageInv` ties the lease of a message, its place in the group and its history together:

* a lease bounds the generations and sequences of all facts before it, none of them terminal;
* a message with a history and without a lease is gone from the group;
* the facts follow each other as `Fact.Precedes` says.

`MessageInv.effect` shows that every effect of a command keeps it.
-/

namespace DocParser.Platform

open Redis

def Fact.generation : Fact → Nat
  | acquired _ generation => generation
  | accepted _ generation _ => generation

/-- An accepted event that ends the attempt. -/
def Fact.isTerminal : Fact → Bool
  | acquired _ _ => false
  | accepted _ _ event => event.type.isTerminal

/-- The sequence that a fact leaves behind. -/
def Fact.sequence? : Fact → Option Nat
  | acquired _ _ => none
  | accepted _ _ event => some event.sequence

/-- The facts about one message, in order. -/
def factsOf (id : StreamId) (history : List Fact) : List Fact :=
  history.filter (·.id = id)

/-- How the facts about one message may follow each other. -/
structure Fact.Precedes (a b : Fact) : Prop where
  generation : a.generation ≤ b.generation
  acquired : ∀ id g, b = .acquired id g → a.generation < g
  sequence : ∀ m ∈ a.sequence?, ∀ n ∈ b.sequence?, m < n
  terminal : a.isTerminal = false

structure LeaseBounds (hash : LeaseHash) (facts : List Fact) : Prop where
  generation : ∀ f ∈ facts, f.generation ≤ hash.generation
  sequence : ∀ f ∈ facts, ∀ n ∈ f.sequence?, n ≤ hash.sequence
  terminal : ∀ f ∈ facts, f.isTerminal = false

structure MessageInv (g : Group) (id : StreamId) (lease : Option LeaseHash) (facts : List Fact) :
    Prop where
  bounds : ∀ hash, lease = some hash → LeaseBounds hash facts
  gone : lease = none → facts ≠ [] → g.Gone id
  ordered : facts.Pairwise Fact.Precedes

structure JobInv (group : String) (s : JobState) : Prop where
  group : ∃ g, s.redis.jobs.group? group = some g ∧ g.Delivered ∧
    ∀ id, MessageInv g id (s.redis.leases id) (factsOf id s.history)

/-! ## Facts about one message -/

@[simp] theorem factsOf_append (id : StreamId) (l₁ l₂ : List Fact) :
    factsOf id (l₁ ++ l₂) = factsOf id l₁ ++ factsOf id l₂ := List.filter_append ..

theorem factsOf_singleton (id : StreamId) (f : Fact) :
    factsOf id [f] = if f.id = id then [f] else [] := by
  unfold factsOf
  split_ifs with h <;> simp [h]

variable {g g' : Group} {id : StreamId} {facts : List Fact}

theorem pairwise_concat {f : Fact} (h : facts.Pairwise Fact.Precedes)
    (hf : ∀ a ∈ facts, a.Precedes f) : (facts ++ [f]).Pairwise Fact.Precedes := by
  rw [List.pairwise_append]
  refine ⟨h, List.pairwise_singleton .., fun a ha b hb => ?_⟩
  rw [List.mem_singleton.mp hb]
  exact hf a ha

/-- The old facts precede a newly accepted event. -/
theorem LeaseBounds.precedes_accepted {hash : LeaseHash} (hb : LeaseBounds hash facts)
    {event : Event} (hseq : hash.sequence < event.sequence) :
    ∀ a ∈ facts, a.Precedes (.accepted id hash.generation event) := by
  intro a ha
  refine ⟨hb.generation a ha, nofun, fun m hm n hn => ?_, hb.terminal a ha⟩
  obtain rfl : event.sequence = n := by simpa [Fact.sequence?] using hn
  exact lt_of_le_of_lt (hb.sequence a ha m hm) hseq

/-! ## Effects keep the invariant -/

theorem MessageInv.quiet {old new : Option LeaseHash} (h : MessageInv g id old facts)
    (he : g.Evolves g') (hk : LeaseKept g' id old new) : MessageInv g' id new facts := by
  refine ⟨fun hash hnew => ?_, fun hnew hne => ?_, h.ordered⟩
  · rcases hk with heq | ⟨hash', untilMs, hold, heq⟩ | ⟨heq, _⟩
    · exact h.bounds hash (heq ▸ hnew)
    · have hb := h.bounds hash' hold
      obtain rfl : { hash' with untilMs := untilMs } = hash := by
        rw [heq] at hnew; exact Option.some.inj hnew
      exact ⟨hb.generation, hb.sequence, hb.terminal⟩
    · rw [heq] at hnew; cases hnew
  · rcases hk with heq | ⟨_, _, _, heq⟩ | ⟨_, hgone⟩
    · exact he.gone (h.gone (heq ▸ hnew) hne)
    · rw [heq] at hnew; cases hnew
    · exact hgone

/-- A held message either has a lease that bounds its history or has no history yet. -/
theorem MessageInv.held {lease : Option LeaseHash} (h : MessageInv g id lease facts)
    {consumer : String} (howner : g.owner id = some consumer) :
    facts = [] ∨ ∃ hash, lease = some hash ∧ LeaseBounds hash facts := by
  cases lease with
  | some hash => exact Or.inr ⟨hash, rfl, h.bounds hash rfl⟩
  | none =>
    left
    by_contra hne
    have hgone := (h.gone rfl hne).1
    rw [howner] at hgone
    cases hgone

theorem MessageInv.acquired {lease : Option LeaseHash} (h : MessageInv g id lease facts)
    {consumer : String} (howner : g.owner id = some consumer) {hash : LeaseHash}
    (hgen : hash.generation = (lease.map (·.generation)).getD 0 + 1)
    (hseq : (lease.map (·.sequence)).getD 0 ≤ hash.sequence) :
    MessageInv g id (some hash) (facts ++ [.acquired id hash.generation]) := by
  have hold : LeaseBounds hash facts ∧ ∀ f ∈ facts, f.generation < hash.generation := by
    rcases h.held howner with rfl | ⟨old, rfl, hb⟩
    · exact ⟨⟨by simp, by simp, by simp⟩, by simp⟩
    · simp only [Option.map_some, Option.getD_some] at hgen hseq
      have hlt : ∀ f ∈ facts, f.generation < hash.generation := fun f hf => by
        have := hb.generation f hf
        omega
      exact ⟨⟨fun f hf => (hlt f hf).le, fun f hf n hn => (hb.sequence f hf n hn).trans hseq,
        hb.terminal⟩, hlt⟩
  obtain ⟨hb, hlt⟩ := hold
  refine ⟨fun hash' heq => ?_, nofun, pairwise_concat h.ordered fun a ha => ?_⟩
  · obtain rfl := Option.some.inj heq
    refine ⟨?_, ?_, ?_⟩ <;> intro f hf <;> rcases List.mem_append.mp hf with hf | hf
    · exact hb.generation f hf
    · rw [List.mem_singleton.mp hf]; exact le_rfl
    · exact hb.sequence f hf
    · rw [List.mem_singleton.mp hf]; exact nofun
    · exact hb.terminal f hf
    · rw [List.mem_singleton.mp hf]; rfl
  · refine ⟨(hlt a ha).le, fun _ n hn => ?_, (fun _ _ _ hn => nomatch hn), hb.terminal a ha⟩
    cases hn
    exact hlt a ha

theorem MessageInv.accepted {hash : LeaseHash} (h : MessageInv g id (some hash) facts)
    {event : Event} (hseq : hash.sequence < event.sequence)
    (hterm : event.type.isTerminal = false) :
    MessageInv g id (some { hash with sequence := event.sequence })
      (facts ++ [.accepted id hash.generation event]) := by
  have hb := h.bounds hash rfl
  refine ⟨fun hash' heq => ?_, nofun, pairwise_concat h.ordered (hb.precedes_accepted hseq)⟩
  obtain rfl := Option.some.inj heq
  refine ⟨?_, ?_, ?_⟩ <;> intro f hf <;> rcases List.mem_append.mp hf with hf | hf
  · exact hb.generation f hf
  · rw [List.mem_singleton.mp hf]; exact le_rfl
  · exact fun n hn => (hb.sequence f hf n hn).trans hseq.le
  · rw [List.mem_singleton.mp hf]
    intro n hn
    obtain rfl : event.sequence = n := by simpa [Fact.sequence?] using hn
    exact le_rfl
  · exact hb.terminal f hf
  · rw [List.mem_singleton.mp hf]; exact hterm

theorem MessageInv.ended {hash : LeaseHash} (h : MessageInv g id (some hash) facts)
    {event : Event} (hseq : hash.sequence < event.sequence) (hgone : g'.Gone id) :
    MessageInv g' id none (facts ++ [.accepted id hash.generation event]) :=
  ⟨nofun, fun _ _ => hgone,
    pairwise_concat h.ordered ((h.bounds hash rfl).precedes_accepted hseq)⟩

/-- **Effects keep the invariant of every message.** -/
theorem MessageInv.effect {group : String} {st st' : RedisState} {fs history : List Fact}
    (he : Effect group g st st' fs) (hd : g.Delivered)
    (h : ∀ id, MessageInv g id (st.leases id) (factsOf id history)) :
    ∃ g', st'.jobs.group? group = some g' ∧ g'.Delivered ∧
      ∀ id, MessageInv g' id (st'.leases id) (factsOf id (history ++ fs)) := by
  cases he with
  | quiet g' hg' hev hk =>
    refine ⟨g', hg', hev.delivered hd, fun id => ?_⟩
    rw [List.append_nil]
    exact (h id).quiet hev (hk id)
  | acquired i consumer hash hg' howner hgen hseq hl =>
    refine ⟨g, hg', hd, fun id => ?_⟩
    rw [hl, factsOf_append]
    by_cases hid : id = i
    · subst hid
      rw [Function.update_self, factsOf_singleton, Fact.id_acquired, if_pos rfl]
      exact (h id).acquired howner hgen hseq
    · rw [Function.update_of_ne hid, factsOf_singleton, Fact.id_acquired, if_neg (Ne.symm hid),
        List.append_nil]
      exact h id
  | accepted i hash event hg' hlease hseq hterm hl =>
    refine ⟨g, hg', hd, fun id => ?_⟩
    rw [hl, factsOf_append]
    by_cases hid : id = i
    · subst hid
      rw [Function.update_self, factsOf_singleton, Fact.id_accepted, if_pos rfl]
      exact MessageInv.accepted (hlease ▸ h id) hseq hterm
    · rw [Function.update_of_ne hid, factsOf_singleton, Fact.id_accepted, if_neg (Ne.symm hid),
        List.append_nil]
      exact h id
  | ended i consumer hash event hg' howner hlease hseq hterm hl =>
    refine ⟨g.ack i, hg', hd.ack, fun id => ?_⟩
    rw [hl, factsOf_append]
    by_cases hid : id = i
    · subst hid
      rw [Function.update_self, factsOf_singleton, Fact.id_accepted, if_pos rfl]
      exact MessageInv.ended (hlease ▸ h id) hseq
        (.of_ack (Group.le_lastDelivered_of_owner hd howner))
    · rw [Function.update_of_ne hid, factsOf_singleton, Fact.id_accepted, if_neg (Ne.symm hid),
        List.append_nil]
      exact (h id).quiet (.ack g i) .same

/-! ## The invariant of the job group -/

theorem JobInv.of_fresh {group : String} {s : JobState} (h : s.Fresh group) : JobInv group s := by
  obtain ⟨g, hg, hp⟩ := h.pending
  refine ⟨g, hg, fun e he => ?_, fun id => ?_⟩
  · rw [hp] at he; cases he
  · rw [h.leases id, h.history]
    exact ⟨nofun, fun _ hne => absurd rfl hne, List.Pairwise.nil⟩

theorem JobInv.step {group : String} {s t : JobState} {l : JobLabel} (h : JobInv group s)
    (hst : JobStep group s l t) : JobInv group t := by
  obtain ⟨g, hg, hd, hm⟩ := h.group
  cases hst with
  | command c now => exact ⟨MessageInv.effect (exec_spec hg hd c now) hd hm⟩
  | rest redis hsame =>
    refine ⟨g, ?_, hd, ?_⟩
    · show redis.jobs.group? group = some g
      unfold Stream.group?
      rw [hsame.groups]
      exact hg
    · intro id
      show MessageInv g id (redis.leases id) _
      rw [hsame.leases]
      exact hm id

theorem jobGroup_invariant {group : String} {s : JobState} (h : (jobGroup group).Reachable s) :
    JobInv group s :=
  h.invariant (fun _ => .of_fresh) fun _ _ _ _ hi hst => hi.step hst

end DocParser.Platform
