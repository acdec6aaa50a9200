import DocParser.Document.Warnings
import DocParser.Lib.Grouping

/-!
# Joined warnings

Joining warnings twice is joining them once (`aggregateWarnings_idem`), and for each identity the
total of the counts, as far as it can be counted, and the set of the pages stay the same
(`totalOf_aggregate`, `pagesOf_aggregate`).
-/

namespace DocParser.Document

open DocumentWarning

/-! ## Pages -/

section Pages

theorem appendPages_eq (pageIds : List String) (warning : DocumentWarning) :
    appendPages pageIds warning = (warning.pageId :: warning.pageIds).foldl appendPage pageIds := rfl

theorem appendPage_of_new {pageIds : List String} {pageId : String} (hne : pageId ≠ "")
    (h : pageId ∉ pageIds) : appendPage pageIds pageId = pageIds ++ [pageId] := by
  unfold appendPage
  rw [if_neg]
  simp [hne, h]

theorem mem_appendPage {pageIds : List String} {pageId other : String} :
    other ∈ appendPage pageIds pageId ↔ other ∈ pageIds ∨ (other ≠ "" ∧ other = pageId) := by
  unfold appendPage
  split_ifs with h
  · rw [Bool.or_eq_true, String.isEmpty_iff, List.contains_iff_mem] at h
    refine ⟨.inl, fun hor => hor.elim id ?_⟩
    rintro ⟨hne, rfl⟩
    exact h.resolve_left hne
  · rw [Bool.or_eq_true, String.isEmpty_iff, not_or] at h
    rw [List.mem_append, List.mem_singleton]
    constructor
    · rintro (hother | rfl)
      · exact .inl hother
      · exact .inr ⟨h.1, rfl⟩
    · exact fun hor => hor.imp_right And.right

theorem nodup_appendPage {pageIds : List String} (h : pageIds.Nodup) (pageId : String) :
    (appendPage pageIds pageId).Nodup := by
  unfold appendPage
  split_ifs with hknown
  · exact h
  · rw [Bool.or_eq_true, not_or, List.contains_iff_mem] at hknown
    exact List.nodup_append.mpr ⟨h, List.nodup_singleton _, fun a ha b hb heq =>
      hknown.2 (List.mem_singleton.mp hb ▸ heq ▸ ha)⟩

theorem mem_foldl_appendPage (new : List String) : ∀ {pageIds : List String} {other : String},
    other ∈ new.foldl appendPage pageIds ↔ other ∈ pageIds ∨ (other ≠ "" ∧ other ∈ new) := by
  induction new with
  | nil => simp
  | cons pageId new ih =>
    intro pageIds other
    rw [List.foldl_cons, ih, mem_appendPage, List.mem_cons]
    tauto

theorem nodup_foldl_appendPage (new : List String) : ∀ {pageIds : List String},
    pageIds.Nodup → (new.foldl appendPage pageIds).Nodup := by
  induction new with
  | nil => exact id
  | cons pageId new ih => exact fun h => ih (nodup_appendPage h pageId)

/-- Pages that are all new are appended as they are. -/
theorem foldl_appendPage_of_new (new : List String) : ∀ {pageIds : List String},
    (pageIds ++ new).Nodup → "" ∉ new → new.foldl appendPage pageIds = pageIds ++ new := by
  induction new with
  | nil => exact fun _ _ => (List.append_nil _).symm
  | cons pageId new ih =>
    intro pageIds hnodup hempty
    rw [List.mem_cons, not_or] at hempty
    have hnew : pageId ∉ pageIds := fun h =>
      (List.nodup_append.mp hnodup).2.2 _ h _ (List.mem_cons_self ..) rfl
    have hassoc : pageIds ++ [pageId] ++ new = pageIds ++ pageId :: new := by simp
    rw [List.foldl_cons, appendPage_of_new (Ne.symm hempty.1) hnew,
      ih (hassoc ▸ hnodup) hempty.2, hassoc]

end Pages

/-! ## Groups -/

section Groups

/-- What warnings that are joined have in common. -/
abbrev WarningIdentity := String × String × String × String × List (String × String)

/-- The loop groups the warnings by their identity. -/
def warningGrouping : Grouping DocumentWarning DocumentWarning WarningIdentity where
  key := identity
  keyOf := identity
  start warning := { warning with pageId := "", pageIds := appendPages [] warning }
  add value warning :=
    { value with
      occurrenceCount := saturatedAdd value.occurrenceCount warning.occurrenceCount
      pageIds := appendPages value.pageIds warning }
  keyOf_start _ := rfl
  keyOf_add _ _ := rfl

theorem aggregateWarnings_eq (warnings : List DocumentWarning) :
    aggregateWarnings warnings = (warningGrouping.collect warnings).map settlePage := rfl

theorem identity_settlePage (warning : DocumentWarning) :
    (settlePage warning).identity = warning.identity := by
  unfold settlePage
  split <;> rfl

/-- The counts of the warnings with an identity. -/
def totalOf (key : WarningIdentity) (warnings : List DocumentWarning) : Nat :=
  ((warnings.filter fun warning => warning.identity == key).map (·.occurrenceCount)).sum

/-- The pages that the warnings with an identity name. -/
def pagesOf (key : WarningIdentity) (warnings : List DocumentWarning) : List String :=
  (warnings.filter fun warning => warning.identity == key).flatMap fun warning =>
    (warning.pageId :: warning.pageIds).filter fun pageId => !pageId.isEmpty

/-- The counts of a group, in its order. -/
theorem foldl_add_count (warnings : List DocumentWarning) : ∀ {value : DocumentWarning},
    value.occurrenceCount ≤ maximumCount →
      (warnings.foldl warningGrouping.add value).occurrenceCount =
        min maximumCount (value.occurrenceCount + (warnings.map (·.occurrenceCount)).sum) := by
  induction warnings with
  | nil => exact fun h => (Nat.min_eq_right h).symm
  | cons warning warnings ih =>
    intro value h
    have hadd : (warningGrouping.add value warning).occurrenceCount =
        min maximumCount (value.occurrenceCount + warning.occurrenceCount) := by
      show saturatedAdd _ _ = _
      unfold saturatedAdd
      split_ifs <;> omega
    rw [List.foldl_cons, ih (by rw [hadd]; omega), hadd, List.map_cons, List.sum_cons]
    omega

/-- The pages of a group, in its order. -/
theorem foldl_add_pages (warnings : List DocumentWarning) : ∀ value : DocumentWarning,
    (warnings.foldl warningGrouping.add value).pageIds =
      (warnings.flatMap fun warning => warning.pageId :: warning.pageIds).foldl appendPage
        value.pageIds := by
  induction warnings with
  | nil => exact fun _ => rfl
  | cons warning warnings ih =>
    intro value
    rw [List.foldl_cons, ih, List.flatMap_cons, List.foldl_append]
    rfl

theorem foldl_add_pageId (warnings : List DocumentWarning) : ∀ value : DocumentWarning,
    (warnings.foldl warningGrouping.add value).pageId = value.pageId := by
  induction warnings with
  | nil => exact fun _ => rfl
  | cons warning warnings ih => exact fun value => ih (warningGrouping.add value warning)

variable {warnings : List DocumentWarning} {value : DocumentWarning}

/-- **The pages of a group** are those of its warnings, each of them once. -/
theorem collect_pages (h : value ∈ warningGrouping.collect warnings) :
    value.pageId = "" ∧ value.pageIds.Nodup ∧
      ∀ pageId, pageId ∈ value.pageIds ↔ pageId ∈ pagesOf value.identity warnings := by
  obtain ⟨first, rest, hfilter, hfold⟩ := Grouping.mem_collect h
  have hpages : value.pageIds = ((first :: rest).flatMap fun warning =>
      warning.pageId :: warning.pageIds).foldl appendPage [] := by
    rw [hfold, foldl_add_pages, List.flatMap_cons, List.foldl_append]
    rfl
  refine ⟨?_, ?_, fun pageId => ?_⟩
  · rw [hfold, foldl_add_pageId]
    rfl
  · rw [hpages]
    exact nodup_foldl_appendPage _ List.nodup_nil
  · unfold pagesOf
    rw [hpages, mem_foldl_appendPage, ← List.filter_flatMap, List.mem_filter]
    have hgroup : (warnings.filter fun warning => warning.identity == value.identity) =
        first :: rest := hfilter
    rw [hgroup]
    simp only [List.not_mem_nil, false_or, Bool.not_eq_true', String.isEmpty_eq_false_iff]
    exact and_comm

/-- **The count of a group** is the total of its warnings, as far as it can be counted. -/
theorem collect_count (hcounts : ∀ warning ∈ warnings, warning.occurrenceCount ≤ maximumCount)
    (h : value ∈ warningGrouping.collect warnings) :
    value.occurrenceCount = min maximumCount (totalOf value.identity warnings) := by
  obtain ⟨first, rest, hfilter, hfold⟩ := Grouping.mem_collect h
  have hfirst : first ∈ warnings := by
    have hmem : first ∈ warnings.filter _ := hfilter ▸ List.mem_cons_self ..
    exact (List.mem_filter.mp hmem).1
  have hgroup : (warnings.filter fun warning => warning.identity == value.identity) =
      first :: rest := hfilter
  have hstart : (warningGrouping.start first).occurrenceCount ≤ maximumCount :=
    hcounts first hfirst
  unfold totalOf
  rw [hgroup, List.map_cons, List.sum_cons, hfold, foldl_add_count rest hstart]
  rfl

/-- A group is settled without loss. -/
theorem settlePage_pages (hpageId : value.pageId = "") (hempty : "" ∉ value.pageIds) :
    ((settlePage value).pageId :: (settlePage value).pageIds).filter (fun pageId =>
      !pageId.isEmpty) = value.pageIds := by
  have hall : value.pageIds.filter (fun pageId => !pageId.isEmpty) = value.pageIds := by
    refine List.filter_eq_self.mpr fun pageId hmem => ?_
    have hne : pageId ≠ "" := fun heq => hempty (heq ▸ hmem)
    simpa using hne
  unfold settlePage
  split
  next pageId hpages =>
    rw [hpages] at hall ⊢
    exact hall
  · rw [hpageId]
    exact hall

theorem settlePage_count (value : DocumentWarning) :
    (settlePage value).occurrenceCount = value.occurrenceCount := by
  unfold settlePage
  split <;> rfl

/-- Joining starts with the group that was settled. -/
theorem start_settlePage (hpageId : value.pageId = "") (hnodup : value.pageIds.Nodup)
    (hempty : "" ∉ value.pageIds) : warningGrouping.start (settlePage value) = value := by
  have hpages : appendPages [] (settlePage value) = value.pageIds := by
    unfold settlePage
    split
    next pageId hpages =>
      rw [hpages] at hempty
      have hne : pageId ≠ "" := fun heq => hempty (heq ▸ List.mem_singleton_self _)
      rw [hpages]
      exact appendPage_of_new hne List.not_mem_nil
    · rw [appendPages_eq, hpageId]
      exact foldl_appendPage_of_new value.pageIds
        (show ([] ++ value.pageIds).Nodup from hnodup) hempty
  show { settlePage value with pageId := "", pageIds := appendPages [] (settlePage value) } = value
  rw [hpages]
  unfold settlePage
  split <;> rw [← hpageId]

end Groups

/-! ## The joined list -/

section Joined

theorem filter_singleton_of_nodup {σ κ : Type} [BEq κ] [LawfulBEq κ] {key : σ → κ} {l : List σ}
    (hkeys : (l.map key).Nodup) {x : σ} (hx : x ∈ l) : (l.filter fun y => key y == key x) = [x] := by
  obtain ⟨front, rest, rfl⟩ := List.append_of_mem hx
  rw [List.map_append, List.map_cons, List.nodup_append, List.nodup_cons] at hkeys
  obtain ⟨-, ⟨hrest, -⟩, hfront⟩ := hkeys
  have hfrontNil : (front.filter fun y => key y == key x) = [] := by
    refine List.filter_eq_nil_iff.mpr fun y hy heq => ?_
    exact hfront _ (List.mem_map_of_mem hy) _ (List.mem_cons_self ..) (beq_iff_eq.mp heq)
  have hrestNil : (rest.filter fun y => key y == key x) = [] := by
    refine List.filter_eq_nil_iff.mpr fun y hy heq => hrest ?_
    rw [← beq_iff_eq.mp heq]
    exact List.mem_map_of_mem hy
  rw [List.filter_append, hfrontNil, List.filter_cons, beq_self_eq_true, if_pos rfl, hrestNil]
  rfl

variable (warnings : List DocumentWarning)

theorem aggregateWarnings_identities : (aggregateWarnings warnings).map identity =
    (warnings.map identity).eraseDups := by
  have hkeys := Grouping.collect_keys warningGrouping warnings
  rw [aggregateWarnings_eq, List.map_map]
  refine Eq.trans (List.map_congr_left fun value _ => ?_) hkeys
  exact identity_settlePage value

theorem identities_nodup : ((aggregateWarnings warnings).map identity).Nodup := by
  have hkeys := Grouping.collect_keys_nodup warningGrouping warnings
  rw [Grouping.collect_keys] at hkeys
  rw [aggregateWarnings_identities]
  exact hkeys

/-- **Idempotence.** -/
theorem aggregateWarnings_idem :
    aggregateWarnings (aggregateWarnings warnings) = aggregateWarnings warnings := by
  have hcollect := Grouping.collect_of_nodup (g := warningGrouping) (identities_nodup warnings)
  rw [aggregateWarnings_eq (aggregateWarnings warnings), hcollect, aggregateWarnings_eq,
    List.map_map, List.map_map]
  refine List.map_congr_left fun value hvalue => ?_
  obtain ⟨hpageId, hnodup, hpages⟩ := collect_pages hvalue
  have hempty : "" ∉ value.pageIds := by
    rw [hpages]
    simp [pagesOf]
  show settlePage (warningGrouping.start (settlePage value)) = settlePage value
  rw [start_settlePage hpageId hnodup hempty]

/-- The warnings with an identity become one. -/
theorem filter_aggregate (key : WarningIdentity) :
    ((warnings.filter fun warning => warning.identity == key) = [] ∧
      ((aggregateWarnings warnings).filter fun warning => warning.identity == key) = []) ∨
      ∃ value ∈ warningGrouping.collect warnings, value.identity = key ∧
        ((aggregateWarnings warnings).filter fun warning => warning.identity == key) =
          [settlePage value] := by
  by_cases hkey : key ∈ warnings.map identity
  · refine .inr ?_
    have hmem := hkey
    rw [← List.mem_eraseDups, ← aggregateWarnings_identities] at hmem
    obtain ⟨joined, hjoined, rfl⟩ := List.mem_map.mp hmem
    rw [filter_singleton_of_nodup (identities_nodup warnings) hjoined]
    obtain ⟨value, hvalue, rfl⟩ := List.mem_map.mp hjoined
    exact ⟨value, hvalue, (identity_settlePage value).symm, rfl⟩
  · have hnot : key ∉ (aggregateWarnings warnings).map identity := by
      rwa [aggregateWarnings_identities, List.mem_eraseDups]
    have hnil : ∀ l : List DocumentWarning, key ∉ l.map identity →
        (l.filter fun warning => warning.identity == key) = [] := by
      intro l hl
      refine List.filter_eq_nil_iff.mpr fun warning hwarning heq => hl ?_
      rw [← beq_iff_eq.mp heq]
      exact List.mem_map_of_mem hwarning
    exact .inl ⟨hnil _ hkey, hnil _ hnot⟩

/-- **Totals.** -/
theorem totalOf_aggregate
    (hcounts : ∀ warning ∈ warnings, warning.occurrenceCount ≤ maximumCount)
    (key : WarningIdentity) :
    totalOf key (aggregateWarnings warnings) = min maximumCount (totalOf key warnings) := by
  rcases filter_aggregate warnings key with ⟨hnil, hnil'⟩ | ⟨value, hvalue, rfl, hone⟩
  · unfold totalOf
    rw [hnil, hnil']
    rfl
  · rw [← collect_count hcounts hvalue]
    unfold totalOf
    rw [hone, List.map_singleton, List.sum_singleton, settlePage_count]

/-- **Pages.** -/
theorem pagesOf_aggregate (key : WarningIdentity) :
    (pagesOf key (aggregateWarnings warnings)).Nodup ∧
      ∀ pageId, pageId ∈ pagesOf key (aggregateWarnings warnings) ↔
        pageId ∈ pagesOf key warnings := by
  rcases filter_aggregate warnings key with ⟨hnil, hnil'⟩ | ⟨value, hvalue, rfl, hone⟩
  · unfold pagesOf
    rw [hnil, hnil']
    exact ⟨List.nodup_nil, fun _ => Iff.rfl⟩
  · obtain ⟨hpageId, hnodup, hpages⟩ := collect_pages hvalue
    have hempty : "" ∉ value.pageIds := by
      rw [hpages]
      simp [pagesOf]
    have heq : pagesOf value.identity (aggregateWarnings warnings) = value.pageIds := by
      unfold pagesOf
      rw [hone, List.flatMap_singleton, settlePage_pages hpageId hempty]
    rw [heq]
    exact ⟨hnodup, hpages⟩

end Joined

end DocParser.Document
