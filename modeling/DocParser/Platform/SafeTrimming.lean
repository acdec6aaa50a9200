import DocParser.Platform.EnqueueJob

/-!
# Safe trimming

Before the enqueue script appends, it trims the stream below the least of the ids that the groups
still need. `safe_trimming`: no entry is lost that is pending in a group or was not delivered to
it, as long as the oldest pending entry of a group was delivered; the length stays within the
limit, and a full stream or a set marker changes nothing else.
-/

namespace DocParser.Platform

open Redis Binary64

/-! ## The order of the script -/

/-- The parts of an id are exact as doubles. -/
def ExactId (id : StreamId) : Prop := Representable id.ms ∧ Representable id.seq

theorem before_iff {a b : StreamId} (ha : ExactId a) (hb : ExactId b) :
    before a b = true ↔ a < b := by
  obtain ⟨hams, haseq⟩ : nearest a.ms = a.ms ∧ nearest a.seq = a.seq := ha
  obtain ⟨hbms, hbseq⟩ : nearest b.ms = b.ms ∧ nearest b.seq = b.seq := hb
  unfold before
  rw [StreamId.lt_iff, hams, haseq, hbms, hbseq]
  simp

/-- Every id of a group is exact. -/
def ExactGroup (g : Group) : Prop := ExactId g.lastDelivered ∧ ∀ e ∈ g.pending, ExactId e.id

theorem exact_trimBound {g : Group} (hg : ExactGroup g) : ExactId (trimBound g) := by
  unfold trimBound
  cases hmin : (g.pending.map (·.id)).min? with
  | none =>
    unfold ExactId
    dsimp only
    exact ⟨hg.1.1, representable_nearest _⟩
  | some id =>
    obtain ⟨e, he, rfl⟩ := List.mem_map.mp (List.min?_mem hmin)
    exact hg.2 e he

/-! ## The floor -/

/-- The loop ends with the least bound. -/
theorem foldl_floor {groups : List Group} (hgroups : ∀ g ∈ groups, ExactGroup g)
    {floor : StreamId} (hfloor : ExactId floor) :
    ∃ f, groups.foldl (fun floor g =>
        match floor with
        | none => some (trimBound g)
        | some f => if before (trimBound g) f then some (trimBound g) else some f) (some floor) =
      some f ∧ f ≤ floor ∧ ∀ g ∈ groups, f ≤ trimBound g := by
  induction groups generalizing floor with
  | nil => exact ⟨floor, rfl, le_rfl, by simp⟩
  | cons g groups ih =>
    obtain ⟨hg, hgroups⟩ := List.forall_mem_cons.mp hgroups
    rw [List.foldl_cons]
    dsimp only
    by_cases hbefore : before (trimBound g) floor = true
    · rw [if_pos hbefore]
      obtain ⟨f, hf, hle, hall⟩ := ih hgroups (exact_trimBound hg)
      have hlt := (before_iff (exact_trimBound hg) hfloor).mp hbefore
      exact ⟨f, hf, hle.trans hlt.le, List.forall_mem_cons.mpr ⟨hle, hall⟩⟩
    · rw [if_neg hbefore]
      obtain ⟨f, hf, hle, hall⟩ := ih hgroups hfloor
      have hnot := mt (before_iff (exact_trimBound hg) hfloor).mpr hbefore
      exact ⟨f, hf, hle, List.forall_mem_cons.mpr ⟨hle.trans (not_lt.mp hnot), hall⟩⟩

theorem trimFloor_le {groups : List Group} (hgroups : ∀ g ∈ groups, ExactGroup g)
    {floor : StreamId} (h : trimFloor groups = some floor) {g : Group} (hg : g ∈ groups) :
    floor ≤ trimBound g := by
  cases groups with
  | nil => cases hg
  | cons first groups =>
    obtain ⟨hfirst, hgroups⟩ := List.forall_mem_cons.mp hgroups
    obtain ⟨f, hf, hle, hall⟩ := foldl_floor hgroups (exact_trimBound hfirst)
    obtain rfl : f = floor := Option.some.inj (hf.symm.trans h)
    rcases List.mem_cons.mp hg with rfl | hg
    · exact hle
    · exact hall g hg

theorem trimBound_le_pending {g : Group} {e : PendingEntry} (he : e ∈ g.pending) :
    trimBound g ≤ e.id := by
  have hmem : e.id ∈ g.pending.map (·.id) := List.mem_map.mpr ⟨e, he, rfl⟩
  unfold trimBound
  cases hmin : (g.pending.map (·.id)).min? with
  | none =>
    rw [List.min?_eq_none_iff] at hmin
    rw [hmin] at hmem
    cases hmem
  | some id => exact (List.min?_eq_some_iff.mp hmin).2 e.id hmem

theorem trimBound_of_nil {g : Group} (h : g.pending = []) : trimBound g =
    ⟨g.lastDelivered.ms, nearest (nearest g.lastDelivered.seq + 1)⟩ := by
  unfold trimBound
  rw [h]
  rfl

/-- Without pending entries the bound is the next id that a double can hold. -/
theorem trimBound_le_next {g : Group} (hg : ExactGroup g) (hpending : g.pending = [])
    {id : StreamId} (hid : ExactId id) (hlt : g.lastDelivered < id) : trimBound g ≤ id := by
  obtain ⟨-, hseq⟩ : _ ∧ nearest id.seq = id.seq := hid
  obtain ⟨-, hlast⟩ : _ ∧ nearest g.lastDelivered.seq = g.lastDelivered.seq := hg.1
  rw [trimBound_of_nil hpending]
  refine not_lt.mp fun hbound => ?_
  rw [StreamId.lt_iff] at hbound
  dsimp only at hbound
  rcases StreamId.lt_iff.mp hlt with hms | ⟨hms, hless⟩
  · rcases hbound with h | ⟨h, -⟩
    · exact absurd (hms.trans h) (lt_irrefl _)
    · exact absurd h hms.ne'
  · -- Rounding keeps the order, so the next number is not past a later double.
    have hnext : nearest (nearest g.lastDelivered.seq + 1) ≤ id.seq := by
      rw [hlast, ← hseq]
      exact nearest_mono hless
    rcases hbound with h | ⟨-, h⟩
    · exact absurd hms h.ne'
    · exact absurd h (not_lt.mpr hnext)

/-- An entry that some group still needs is not trimmed. -/
theorem mem_trimJobs {jobs : Stream JobFields} (hgroups : ∀ g ∈ jobs.groups, ExactGroup g)
    {e : StreamId × JobFields} (he : e ∈ jobs.entries) {g : Group} (hg : g ∈ jobs.groups)
    (hbound : trimBound g ≤ e.1) : e ∈ (trimJobs jobs).entries := by
  unfold trimJobs
  cases hfloor : trimFloor jobs.groups with
  | none => exact he
  | some floor =>
    dsimp only
    split_ifs
    · exact List.mem_filter.mpr
        ⟨he, decide_eq_true ((trimFloor_le hgroups hfloor hg).trans hbound)⟩
    · exact he

/-! ## The script -/

/-- A group still needs an entry: it is pending there, or it was not delivered to the group. -/
def Needs (g : Group) (id : StreamId) : Prop :=
  (∃ e ∈ g.pending, e.id = id) ∨ g.lastDelivered < id

/-- The oldest pending entry of a group was delivered. -/
def OldestDelivered (g : Group) : Prop :=
  g.pending = [] ∨ ∃ e ∈ g.pending, e.id ≤ g.lastDelivered

theorem trimBound_le_needed {g : Group} (hg : ExactGroup g) (holdest : OldestDelivered g)
    {id : StreamId} (hid : ExactId id) (h : Needs g id) : trimBound g ≤ id := by
  rcases h with ⟨e, he, rfl⟩ | hlt
  · exact trimBound_le_pending he
  · rcases holdest with hnone | ⟨e, he, hle⟩
    · exact trimBound_le_next hg hnone hid hlt
    · exact (trimBound_le_pending he).trans (hle.trans hlt.le)

/-- What the script does to the entries: nothing, or it trims, or it trims and appends. -/
theorem enqueueJob_entries (maximumLength : Nat) (job : OutboxJob) (id : StreamId)
    (st : RedisState) {e : StreamId × JobFields} (h : e ∈ (trimJobs st.jobs).entries) :
    e ∈ (enqueueJob maximumLength job id st).1.jobs.entries := by
  rcases enqueueJob_cases maximumLength job id st with
    ⟨previous, -, heq⟩ | ⟨-, heq⟩ | ⟨st', -, heq, -, hjobs, -⟩
  · rw [heq]
    exact (trimJobs_sublist st.jobs).subset h
  · rw [heq]
    exact h
  · rw [heq, hjobs]
    exact List.mem_append_left _ h

theorem xlen_of_added {maximumLength : Nat} {job : OutboxJob} {id : StreamId} {st : RedisState}
    {added : StreamId} (h : (enqueueJob maximumLength job id st).2 = .added added) :
    (enqueueJob maximumLength job id st).1.jobs.xlen ≤ maximumLength := by
  unfold enqueueJob at h ⊢
  cases hmarker : st.dispatched job.jobId with
  | some previous =>
    rw [hmarker] at h
    cases h
  | none =>
    rw [hmarker] at h
    dsimp only at h ⊢
    split_ifs at h ⊢ with hfull
    · change ((trimJobs st.jobs).entries ++ [(id, job.fields)]).length ≤ maximumLength
      rw [List.length_append]
      exact Nat.lt_of_not_le hfull

/-- **Safe trimming.** No entry is removed that a group needs, an append keeps the stream within
its limit, and a full stream or a marker that is set leave everything but trimmed entries. -/
theorem safe_trimming (maximumLength : Nat) (job : OutboxJob) (id : StreamId) (st : RedisState)
    (hgroups : ∀ g ∈ st.jobs.groups, ExactGroup g) (hentries : ∀ e ∈ st.jobs.entries, ExactId e.1)
    (holdest : ∀ g ∈ st.jobs.groups, OldestDelivered g) :
    (∀ e ∈ st.jobs.entries, (∃ g ∈ st.jobs.groups, Needs g e.1) →
      e ∈ (enqueueJob maximumLength job id st).1.jobs.entries) ∧
    (∀ added, (enqueueJob maximumLength job id st).2 = .added added →
      (enqueueJob maximumLength job id st).1.jobs.xlen ≤ maximumLength) ∧
    ((enqueueJob maximumLength job id st).2 = .full ∨ (st.dispatched job.jobId).isSome →
      (enqueueJob maximumLength job id st).1.jobs.entries.Sublist st.jobs.entries ∧
      (enqueueJob maximumLength job id st).1.dispatched = st.dispatched ∧
      (enqueueJob maximumLength job id st).1.runs = st.runs) := by
  refine ⟨fun e he ⟨g, hg, hneeds⟩ => ?_, fun added h => xlen_of_added h, fun h => ?_⟩
  · refine enqueueJob_entries _ _ _ _ (mem_trimJobs hgroups he hg ?_)
    exact trimBound_le_needed (hgroups g hg) (holdest g hg) (hentries e he) hneeds
  · rcases enqueueJob_cases maximumLength job id st with
      ⟨previous, -, heq⟩ | ⟨-, heq⟩ | ⟨st', hmarker, heq, -⟩
    · rw [heq]
      exact ⟨.refl _, rfl, rfl⟩
    · rw [heq]
      exact ⟨trimJobs_sublist st.jobs, rfl, rfl⟩
    · rw [heq, hmarker] at h
      rcases h with h | h <;> cases h

/-- A stream of three entries and a group, as the script finds it. -/
def groupStream (lastDelivered : StreamId) (pending : List StreamId) : RedisState where
  jobs :=
    { entries := [(⟨3, 0⟩, ⟨none, none, none, none⟩), (⟨4, 0⟩, ⟨none, none, none, none⟩),
        (⟨5, 0⟩, ⟨none, none, none, none⟩)]
      lastId := ⟨5, 0⟩
      groups := [⟨"workers", lastDelivered, pending.map fun id => ⟨id, "worker", 0⟩⟩] }
  leases _ := none
  runs _ := .empty
  cancels _ := none
  dispatched _ := none
  events := []

theorem exactId_of_lt {id : StreamId} (h : id.ms < 2 ^ 53 ∧ id.seq < 2 ^ 53) : ExactId id :=
  ⟨representable_of_lt h.1, representable_of_lt h.2⟩

theorem exact_groupStream (lastDelivered : StreamId) (pending : List StreamId)
    (hlast : ExactId lastDelivered) (hpending : ∀ id ∈ pending, ExactId id) :
    (∀ g ∈ (groupStream lastDelivered pending).jobs.groups, ExactGroup g) ∧
      ∀ e ∈ (groupStream lastDelivered pending).jobs.entries, ExactId e.1 := by
  constructor
  · intro g hg
    obtain rfl := List.mem_singleton.mp hg
    refine ⟨hlast, fun e he => ?_⟩
    obtain ⟨id, hid, rfl⟩ := List.mem_map.mp he
    exact hpending id hid
  · simp only [groupStream, List.forall_mem_cons]
    exact ⟨exactId_of_lt (by decide), exactId_of_lt (by decide), exactId_of_lt (by decide),
      by simp⟩

def anyJob : OutboxJob := ⟨"job", "run", "attempt", "job.json"⟩

theorem safe_trimming_lagging :
    (⟨5, 0⟩, ⟨none, none, none, none⟩) ∈
      (enqueueJob 3 anyJob ⟨6, 0⟩ (groupStream ⟨4, 0⟩ [⟨4, 0⟩])).1.jobs.entries := by
  obtain ⟨hgroups, hentries⟩ := exact_groupStream ⟨4, 0⟩ [⟨4, 0⟩]
    (exactId_of_lt (by decide)) (by simpa using exactId_of_lt (by decide))
  refine (safe_trimming 3 anyJob ⟨6, 0⟩ (groupStream ⟨4, 0⟩ [⟨4, 0⟩]) hgroups hentries ?_).1 _
    (by decide) ?_
  · intro g hg
    obtain rfl := List.mem_singleton.mp hg
    exact Or.inr ⟨_, List.mem_singleton_self _, le_rfl⟩
  · exact ⟨_, List.mem_singleton_self _, Or.inr (by decide)⟩

/-- A pending entry past the last delivered id, as a forced claim makes it, hides the entries in
between: they were not delivered, and are trimmed. -/
theorem safe_trimming_fails : ¬ ∀ (maximumLength : Nat) (job : OutboxJob) (id : StreamId)
    (st : RedisState), (∀ g ∈ st.jobs.groups, ExactGroup g) →
    (∀ e ∈ st.jobs.entries, ExactId e.1) →
    (∀ g ∈ st.jobs.groups, g.pending.Pairwise fun a b => a.id < b.id) →
    (st.jobs.entries.Pairwise fun a b => a.1 < b.1) → (∀ e ∈ st.jobs.entries, e.1 < id) →
    ∀ e ∈ st.jobs.entries, (∃ g ∈ st.jobs.groups, Needs g e.1) →
      e ∈ (enqueueJob maximumLength job id st).1.jobs.entries := by
  intro h
  obtain ⟨hgroups, hentries⟩ := exact_groupStream ⟨0, 0⟩ [⟨5, 0⟩]
    (exactId_of_lt (by decide)) (by simpa using exactId_of_lt (by decide))
  have hpending : ∀ g ∈ (groupStream ⟨0, 0⟩ [⟨5, 0⟩]).jobs.groups,
      g.pending.Pairwise fun a b => a.id < b.id := by
    intro g hg
    obtain rfl := List.mem_singleton.mp hg
    exact List.pairwise_singleton _ _
  have hkept := h 3 anyJob ⟨6, 0⟩ (groupStream ⟨0, 0⟩ [⟨5, 0⟩]) hgroups hentries hpending
    (by decide) (by decide) (⟨3, 0⟩, ⟨none, none, none, none⟩) (by decide)
    ⟨_, List.mem_singleton_self _, Or.inr (by decide)⟩
  revert hkept
  decide +kernel

end DocParser.Platform
