import DocParser.Pipeline.TableLinks

/-!
# Consistent links

When no table is linked twice, the links form chains, and every table of a chain carries the name
that its start gives it. `links_consistent_iff`: apart from tables that are linked twice and pages
that hold two chains of one name, every link has its two ends.
-/

namespace DocParser.Pipeline

open Document

section Definitions

variable {α : Type}

/-- The tables carry no links. -/
def Unlinked (tables : List (PageTables α)) : Prop :=
  ∀ page ∈ tables, ∀ table ∈ page.tables, unlinked table = table

/-- Every link has its other end on the page before or behind, and no page has two tables of one
group. -/
structure LinksConsistent (linked : List (PageTables α)) : Prop where
  next : ∀ page index table, tableAt linked page index = some table →
    table.continuesOnNextPage = true → table.continuationGroupId ≠ "" ∧
      ∃! i, ∃ next, tableAt linked (page + 1) i = some next ∧
        next.continuesFromPreviousPage = true ∧
        next.continuationGroupId = table.continuationGroupId
  previous : ∀ page index table, tableAt linked page index = some table →
    table.continuesFromPreviousPage = true → table.continuationGroupId ≠ "" ∧
      ∃ before, page = before + 1 ∧ ∃! i, ∃ previous, tableAt linked before i = some previous ∧
        previous.continuesOnNextPage = true ∧
        previous.continuationGroupId = table.continuationGroupId
  groups : ∀ page i j a b, tableAt linked page i = some a → tableAt linked page j = some b →
    a.continuationGroupId ≠ "" → a.continuationGroupId = b.continuationGroupId → i = j

/-- The same index and the same page number. -/
def SameName (tables : List (PageTables α)) (start start' : Nat × Nat) : Prop :=
  start.2 = start'.2 ∧ (tableAt tables start.1 start.2).map (·.pageNumber) =
    (tableAt tables start'.1 start'.2).map (·.pageNumber)

/-- No table is linked twice, and no page holds two chains of one name. -/
structure LinksApart [Double α] (pages : List PageArtifact) (tables : List (PageTables α)) :
    Prop where
  linkedOnce : ∀ page i j target, continuation pages tables page i = some target →
    continuation pages tables page j = some target → i = j
  namedApart : ∀ page i j, IsLinked pages tables page i → IsLinked pages tables page j →
    SameName tables (chainStart pages tables page i) (chainStart pages tables page j) → i = j

/-- The group that a chain is named by its start. -/
def groupName (tables : List (PageTables α)) (start : Nat × Nat) : String :=
  match tableAt tables start.1 start.2 with
  | none => ""
  | some table => "table_group_page_" ++ toString table.pageNumber ++ "_" ++ toString (start.2 + 1)

end Definitions

/-! ## Names -/

section Names

variable {α : Type} {tables : List (PageTables α)}

theorem groupName_inj {start start' : Nat × Nat} {table table' : Table α}
    (h : tableAt tables start.1 start.2 = some table)
    (h' : tableAt tables start'.1 start'.2 = some table') :
    groupName tables start = groupName tables start' ↔ SameName tables start start' := by
  unfold groupName SameName
  rw [h, h']
  constructor
  · intro heq
    have hchars := congrArg String.toList heq
    simp only [String.toList_append] at hchars
    have hindex := suffix_counter_inj (c := '_') (by decide) (by simpa using hchars)
    have hsame : start.2 = start'.2 := by omega
    refine ⟨hsame, congrArg some (toString_int_inj ?_)⟩
    rw [hsame] at hchars
    simpa using hchars
  · rintro ⟨hindex, hnumber⟩
    have hpage : table.pageNumber = table'.pageNumber := Option.some.inj hnumber
    simp only [hindex, hpage]

theorem linkPrevious_group_ne (index : Nat) (table : Table α) :
    (linkPrevious index table).continuationGroupId ≠ "" := by
  show (if table.continuationGroupId.isEmpty then _ else _) ≠ ""
  split
  · intro h
    have hchars := congrArg String.toList h
    simp at hchars
  next hne =>
    intro h
    rw [h] at hne
    exact hne rfl

theorem linkPrevious_group (index : Nat) {table : Table α} (h : table.continuationGroupId ≠ "") :
    (linkPrevious index table).continuationGroupId = table.continuationGroupId := by
  show (if table.continuationGroupId.isEmpty then _ else _) = _
  rw [if_neg (by simpa using h)]

end Names

/-! ## Chains -/

section Chains

variable {α : Type} [Double α] {pages : List PageArtifact} {tables : List (PageTables α)}

omit [Double α] in
theorem pagePair_eq_some {page : Nat} {previousPage nextPage : PageArtifact}
    {previous next : List (Table α)}
    (h : pagePair pages tables page = some (previousPage, nextPage, previous, next)) :
    (∀ index, tableAt tables page index = previous[index]?) ∧
      ∀ index, tableAt tables (page + 1) index = next[index]? := by
  unfold pagePair at h
  split at h
  next hprevious hnext =>
    cases h
    unfold tableAt
    rw [hprevious, hnext]
    exact ⟨fun _ => rfl, fun _ => rfl⟩
  · cases h

theorem continuation_spec {page i j : Nat} (h : continuation pages tables page i = some j) :
    (tableAt tables page i).isSome = true ∧ (tableAt tables (page + 1) j).isSome = true := by
  obtain ⟨⟨previousPage, nextPage, previous, next⟩, hpair, hfirst⟩ := Option.bind_eq_some_iff.mp h
  obtain ⟨table, htable, hfirst⟩ := Option.bind_eq_some_iff.mp hfirst
  obtain ⟨hprevious, hnext⟩ := pagePair_eq_some hpair
  have hlt := (List.findIdx?_eq_some_iff_getElem.mp hfirst).1
  rw [hprevious, hnext, htable, List.getElem?_eq_getElem hlt]
  exact ⟨rfl, rfl⟩

theorem continuation_of_predecessor {page i j : Nat}
    (h : predecessor pages tables page j = some i) : continuation pages tables page i = some j := by
  obtain ⟨⟨previousPage, nextPage, previous, next⟩, hpair, hlast⟩ := Option.bind_eq_some_iff.mp h
  obtain ⟨table, htable, hfirst⟩ := lastIdx?_eq_some hlast
  unfold continuation
  rw [hpair]
  show previous[i]?.bind _ = _
  rw [htable]
  exact beq_iff_eq.mp hfirst

theorem predecessor_isSome {page i j : Nat} (h : continuation pages tables page i = some j) :
    (predecessor pages tables page j).isSome = true := by
  obtain ⟨⟨previousPage, nextPage, previous, next⟩, hpair, hfirst⟩ := Option.bind_eq_some_iff.mp h
  obtain ⟨table, htable, hfirst⟩ := Option.bind_eq_some_iff.mp hfirst
  unfold predecessor
  rw [hpair]
  exact lastIdx?_isSome (List.mem_of_getElem? htable) (beq_iff_eq.mpr hfirst)

variable (pages) in
theorem chainStart_isSome {page : Nat} : ∀ {index : Nat},
    (tableAt tables page index).isSome = true →
      (tableAt tables (chainStart pages tables page index).1
        (chainStart pages tables page index).2).isSome = true := by
  induction page with
  | zero => exact fun h => h
  | succ page ih =>
    intro index h
    unfold chainStart
    cases hpred : predecessor pages tables page index with
    | none => exact h
    | some i => exact ih (continuation_spec (continuation_of_predecessor hpred)).1

omit [Double α] in
theorem mem_of_tableAt {page index : Nat} {table : Table α}
    (h : tableAt tables page index = some table) :
    ∃ pageTables ∈ tables, table ∈ pageTables.tables ∧ index < pageTables.tables.length := by
  obtain ⟨pageTables, hpage, htable⟩ := Option.bind_eq_some_iff.mp h
  exact ⟨pageTables, List.mem_of_getElem? hpage, List.mem_of_getElem? htable,
    (List.getElem?_eq_some_iff.mp htable).1⟩

omit [Double α] in
theorem Unlinked.tableAt (hunlinked : Unlinked tables) {page index : Nat} {table : Table α}
    (h : tableAt tables page index = some table) : unlinked table = table := by
  obtain ⟨pageTables, hpage, htable, -⟩ := mem_of_tableAt h
  exact hunlinked pageTables hpage table htable

variable (pages) in
/-- A table before the link to the next page. -/
theorem baseAt_spec (hunlinked : Unlinked tables) (page : Nat) : ∀ {index : Nat} {table : Table α},
    tableAt tables page index = some table → ∃ base,
      baseAt pages tables page index = some base ∧ base.pageNumber = table.pageNumber ∧
      base.continuesOnNextPage = false ∧
      base.continuesFromPreviousPage = (comesFrom pages tables page index).isSome ∧
      (comesFrom pages tables page index = none → base.continuationGroupId = "") ∧
      (linkPrevious index base).continuationGroupId =
        groupName tables (chainStart pages tables page index) ∧
      (comesFrom pages tables page index ≠ none →
        base.continuationGroupId = groupName tables (chainStart pages tables page index)) := by
  induction page with
  | zero =>
    intro index table h
    have hfresh := hunlinked.tableAt h
    have hgroup : table.continuationGroupId = "" := by rw [← hfresh]; rfl
    refine ⟨table, h, rfl, by rw [← hfresh]; rfl, by rw [← hfresh]; rfl, fun _ => hgroup, ?_,
      fun hne => absurd rfl hne⟩
    show (if table.continuationGroupId.isEmpty then _ else _) = groupName tables (0, index)
    unfold groupName
    rw [h, hgroup]
    rfl
  | succ page ih =>
    intro index table h
    have hfresh := hunlinked.tableAt h
    cases hpred : predecessor pages tables page index with
    | none =>
      have hgroup : table.continuationGroupId = "" := by rw [← hfresh]; rfl
      refine ⟨table, ?_, rfl, by rw [← hfresh]; rfl, ?_, fun _ => hgroup, ?_, fun hne => ?_⟩
      · unfold baseAt
        rw [h, hpred]
        rfl
      · show _ = (predecessor pages tables page index).isSome
        rw [hpred, ← hfresh]
        rfl
      · unfold chainStart
        rw [hpred]
        show (if table.continuationGroupId.isEmpty then _ else _) = groupName tables (page + 1, index)
        unfold groupName
        rw [h, hgroup]
        rfl
      · exact absurd hpred hne
    | some i =>
      obtain ⟨source, hsource⟩ := Option.isSome_iff_exists.mp
        (continuation_spec (continuation_of_predecessor hpred)).1
      obtain ⟨base, hbase, -, -, -, -, hgroup, -⟩ := ih hsource
      have hstart : chainStart pages tables (page + 1) index = chainStart pages tables page i := by
        conv_lhs => unfold chainStart
        rw [hpred]
      have hne : (linkPrevious i base).continuationGroupId ≠ "" := linkPrevious_group_ne i base
      refine ⟨linkNext (linkPrevious i base) table, ?_, rfl, ?_, ?_, fun hnone => ?_, ?_, fun _ => ?_⟩
      · unfold baseAt
        rw [h, hpred]
        show some (match baseAt pages tables page i with
          | none => table
          | some previous => linkNext (linkPrevious i previous) table) = _
        rw [hbase]
      · show table.continuesOnNextPage = false
        rw [← hfresh]
        rfl
      · show true = (predecessor pages tables page index).isSome
        rw [hpred]
        rfl
      · rw [show comesFrom pages tables (page + 1) index = some i from hpred] at hnone
        cases hnone
      · rw [hstart, ← hgroup]
        exact @linkPrevious_group α index (linkNext (linkPrevious i base) table) hne
      · rw [hstart, ← hgroup]
        rfl

/-- What a table carries after all links. -/
structure Marked (pages : List PageArtifact) (tables : List (PageTables α)) (page index : Nat)
    (table : Table α) : Prop where
  onNext : table.continuesOnNextPage = (continuation pages tables page index).isSome
  fromPrevious : table.continuesFromPreviousPage = (comesFrom pages tables page index).isSome
  group : IsLinked pages tables page index →
    table.continuationGroupId = groupName tables (chainStart pages tables page index)
  linked : table.continuationGroupId ≠ "" ↔ IsLinked pages tables page index

variable (pages) in
theorem linkedAt_marked (hunlinked : Unlinked tables) {page index : Nat} {table : Table α}
    (h : tableAt tables page index = some table) :
    ∃ linked, linkedAt pages tables page index = some linked ∧
      Marked pages tables page index linked := by
  obtain ⟨base, hbase, -, hon, hfrom, hnone, hgroup, hkept⟩ :=
    baseAt_spec pages hunlinked page h
  refine ⟨_, by unfold linkedAt; rw [hbase]; rfl, ?_⟩
  cases hcont : continuation pages tables page index with
  | some target =>
    have hlinked : IsLinked pages tables page index := .inl (by rw [hcont]; rfl)
    have hne := linkPrevious_group_ne index base
    refine ⟨?_, hfrom, fun _ => hgroup, iff_of_true hne hlinked⟩
    rw [hcont]
    rfl
  | none =>
    refine ⟨?_, hfrom, fun hlinked => hkept ?_, ⟨fun hne => ?_, fun hlinked heq => ?_⟩⟩
    · rw [hcont]
      exact hon
    · rcases hlinked with hlinked | hlinked
      · rw [hcont] at hlinked
        cases hlinked
      · exact Option.isSome_iff_ne_none.mp hlinked
    · exact .inr (Option.isSome_iff_ne_none.mpr fun hno => hne (hnone hno))
    · have hpred : comesFrom pages tables page index ≠ none := by
        rcases hlinked with hlinked | hlinked
        · rw [hcont] at hlinked
          cases hlinked
        · exact Option.isSome_iff_ne_none.mp hlinked
      have hname := (hkept hpred).symm.trans heq
      rw [← hgroup] at hname
      exact linkPrevious_group_ne index base hname

theorem tableAt_linkedAt {page index : Nat} {linked : Table α}
    (h : linkedAt pages tables page index = some linked) :
    ∃ table, tableAt tables page index = some table := by
  obtain ⟨base, hbase, -⟩ := Option.map_eq_some_iff.mp h
  cases page with
  | zero => exact ⟨base, hbase⟩
  | succ page =>
    obtain ⟨table, htable, -⟩ := Option.map_eq_some_iff.mp hbase
    exact ⟨table, htable⟩

end Chains

/-! ## Consistency -/

section Consistency

variable {α : Type} [Double α] {pages : List PageArtifact} {tables : List (PageTables α)}

/-- The marks of a table of the result. -/
theorem marked_of_link (hunlinked : Unlinked tables) {page index : Nat} {table : Table α}
    (h : tableAt (linkCrossPageTables pages tables) page index = some table) :
    Marked pages tables page index table := by
  rw [tableAt_link] at h
  obtain ⟨old, hold⟩ := tableAt_linkedAt h
  obtain ⟨linked, hlinked, hmarked⟩ := linkedAt_marked pages hunlinked hold
  rw [h] at hlinked
  rwa [Option.some.inj hlinked]

variable (pages) in
theorem exists_link (hunlinked : Unlinked tables) {page index : Nat}
    (h : (tableAt tables page index).isSome = true) :
    ∃ table, tableAt (linkCrossPageTables pages tables) page index = some table := by
  obtain ⟨old, hold⟩ := Option.isSome_iff_exists.mp h
  obtain ⟨linked, hlinked, -⟩ := linkedAt_marked pages hunlinked hold
  exact ⟨linked, by rw [tableAt_link, hlinked]⟩

theorem isLinked_isSome {page index : Nat} (h : IsLinked pages tables page index) :
    (tableAt tables page index).isSome = true := by
  rcases h with hnext | hprevious
  · obtain ⟨j, hj⟩ := Option.isSome_iff_exists.mp hnext
    exact (continuation_spec hj).1
  · cases page with
    | zero => cases hprevious
    | succ page =>
      obtain ⟨i, hi⟩ := Option.isSome_iff_exists.mp hprevious
      exact (continuation_spec (continuation_of_predecessor hi)).2

/-- Two linked tables are in one group when the starts of their chains have one name. -/
theorem group_eq_iff {page i page' j : Nat} {a b : Table α} (ha : Marked pages tables page i a)
    (hb : Marked pages tables page' j b) (hi : IsLinked pages tables page i)
    (hj : IsLinked pages tables page' j) : a.continuationGroupId = b.continuationGroupId ↔
      SameName tables (chainStart pages tables page i) (chainStart pages tables page' j) := by
  obtain ⟨start, hstart⟩ := Option.isSome_iff_exists.mp
    (chainStart_isSome pages (isLinked_isSome hi))
  obtain ⟨start', hstart'⟩ := Option.isSome_iff_exists.mp
    (chainStart_isSome pages (isLinked_isSome hj))
  rw [ha.group hi, hb.group hj, groupName_inj hstart hstart']

/-- A link carries the group on. -/
theorem chainStart_continuation (hapart : LinksApart pages tables) {page i j : Nat}
    (h : continuation pages tables page i = some j) :
    predecessor pages tables page j = some i ∧
      chainStart pages tables (page + 1) j = chainStart pages tables page i := by
  obtain ⟨k, hk⟩ := Option.isSome_iff_exists.mp (predecessor_isSome h)
  obtain rfl := hapart.linkedOnce page k i j (continuation_of_predecessor hk) h
  refine ⟨hk, ?_⟩
  conv_lhs => unfold chainStart
  rw [hk]

theorem consistent_of_apart (hunlinked : Unlinked tables) (hapart : LinksApart pages tables) :
    LinksConsistent (linkCrossPageTables pages tables) := by
  have hsame : ∀ {page i j : Nat} {a b : Table α},
      tableAt (linkCrossPageTables pages tables) page i = some a →
      tableAt (linkCrossPageTables pages tables) page j = some b →
      a.continuationGroupId ≠ "" → a.continuationGroupId = b.continuationGroupId → i = j := by
    intro page i j a b ha hb hne heq
    have hma := marked_of_link hunlinked ha
    have hmb := marked_of_link hunlinked hb
    have hi := hma.linked.mp hne
    have hj := hmb.linked.mp (heq ▸ hne)
    exact hapart.namedApart page i j hi hj ((group_eq_iff hma hmb hi hj).mp heq)
  constructor
  · intro page index table htable hon
    have hmarked := marked_of_link hunlinked htable
    rw [hmarked.onNext] at hon
    have hlinked : IsLinked pages tables page index := .inl hon
    obtain ⟨j, hj⟩ := Option.isSome_iff_exists.mp hon
    obtain ⟨hpred, hstart⟩ := chainStart_continuation hapart hj
    obtain ⟨next, hnext⟩ := exists_link pages hunlinked (continuation_spec hj).2
    have hmnext := marked_of_link hunlinked hnext
    have hfrom : (comesFrom pages tables (page + 1) j).isSome = true := by
      show (predecessor pages tables page j).isSome = true
      rw [hpred]
      rfl
    have hgroup : next.continuationGroupId = table.continuationGroupId := by
      rw [hmnext.group (.inr hfrom), hmarked.group hlinked, hstart]
    refine ⟨hmarked.linked.mpr hlinked, j, ⟨next, hnext, hmnext.fromPrevious.trans hfrom, hgroup⟩,
      fun i hi => ?_⟩
    obtain ⟨other, hother, -, hothergroup⟩ := hi
    refine hsame hother hnext ?_ (hothergroup.trans hgroup.symm)
    rw [hothergroup]
    exact hmarked.linked.mpr hlinked
  · intro page index table htable hfrom
    have hmarked := marked_of_link hunlinked htable
    rw [hmarked.fromPrevious] at hfrom
    have hlinked : IsLinked pages tables page index := .inr hfrom
    cases page with
    | zero => cases hfrom
    | succ page =>
      obtain ⟨i, hi⟩ := Option.isSome_iff_exists.mp hfrom
      have hcont := continuation_of_predecessor hi
      obtain ⟨previous, hprevious⟩ :=
        exists_link pages hunlinked (continuation_spec hcont).1
      have hmprevious := marked_of_link hunlinked hprevious
      have hon : (continuation pages tables page i).isSome = true := by
        rw [hcont]
        rfl
      have hgroup : previous.continuationGroupId = table.continuationGroupId := by
        rw [hmprevious.group (.inl hon), hmarked.group hlinked,
          (chainStart_continuation hapart hcont).2]
      refine ⟨hmarked.linked.mpr hlinked, page, rfl, i,
        ⟨previous, hprevious, hmprevious.onNext.trans hon, hgroup⟩, fun k hk => ?_⟩
      obtain ⟨other, hother, -, hothergroup⟩ := hk
      refine hsame hother hprevious ?_ (hothergroup.trans hgroup.symm)
      rw [hothergroup]
      exact hmarked.linked.mpr hlinked
  · exact fun page i j a b ha hb => hsame ha hb

theorem apart_of_consistent (hunlinked : Unlinked tables)
    (hconsistent : LinksConsistent (linkCrossPageTables pages tables)) :
    LinksApart pages tables := by
  -- the table that a link ends at has kept this very link
  have hkept : ∀ page i target, continuation pages tables page i = some target →
      predecessor pages tables page target = some i := by
    intro page i target hi
    obtain ⟨a, ha⟩ := exists_link pages hunlinked (continuation_spec hi).1
    have hma := marked_of_link hunlinked ha
    have hon : (continuation pages tables page i).isSome = true := by
      rw [hi]
      rfl
    obtain ⟨hne, j, ⟨next, hnext, hfrom, hgroup⟩, -⟩ :=
      hconsistent.next page i a ha (hma.onNext.trans hon)
    have hmnext := marked_of_link hunlinked hnext
    rw [hmnext.fromPrevious] at hfrom
    obtain ⟨k, hk⟩ := Option.isSome_iff_exists.mp hfrom
    have hpred : predecessor pages tables page j = some k := hk
    have hcont := continuation_of_predecessor hpred
    obtain ⟨b, hb⟩ := exists_link pages hunlinked (continuation_spec hcont).1
    have hmb := marked_of_link hunlinked hb
    have hbon : (continuation pages tables page k).isSome = true := by
      rw [hcont]
      rfl
    have hstart : chainStart pages tables (page + 1) j = chainStart pages tables page k := by
      conv_lhs => unfold chainStart
      rw [hpred]
    have hsame : a.continuationGroupId = b.continuationGroupId := by
      rw [← hgroup, hmnext.group (.inr hfrom), hmb.group (.inl hbon), hstart]
    obtain rfl := hconsistent.groups page i k a b ha hb hne hsame
    rw [hi] at hcont
    rw [Option.some.inj hcont]
    exact hpred
  constructor
  · intro page i j target hi hj
    have heq := (hkept page i target hi).symm.trans (hkept page j target hj)
    exact Option.some.inj heq
  · intro page i j hi hj hname
    obtain ⟨a, ha⟩ := exists_link pages hunlinked (isLinked_isSome hi)
    obtain ⟨b, hb⟩ := exists_link pages hunlinked (isLinked_isSome hj)
    have hma := marked_of_link hunlinked ha
    have hmb := marked_of_link hunlinked hb
    exact hconsistent.groups page i j a b ha hb (hma.linked.mpr hi)
      ((group_eq_iff hma hmb hi hj).mpr hname)

/-- **Consistent links.** For tables without links: the links between the pages are consistent if
and only if no two tables of a page have the same continuation, and no page holds two chains that
start at one index on pages of one number. -/
theorem links_consistent_iff {linked : List (PageTables α)} (hunlinked : Unlinked tables)
    (h : linkPages pages tables = .ok linked) :
    LinksConsistent linked ↔ LinksApart pages tables := by
  have hlinked : linked = linkCrossPageTables pages tables := by
    unfold linkPages at h
    split at h
    · cases h
    · exact (Except.ok.inj h).symm
  rw [hlinked]
  exact ⟨apart_of_consistent hunlinked, consistent_of_apart hunlinked⟩

/-! ## Pages of different numbers -/

variable (pages tables) in
theorem chainStart_le (page : Nat) : ∀ index, (chainStart pages tables page index).1 ≤ page := by
  induction page with
  | zero => exact fun _ => Nat.le_refl 0
  | succ page ih =>
    intro index
    unfold chainStart
    split
    · exact Nat.le_refl _
    next i _ => exact (ih i).trans (Nat.le_succ page)

variable (pages tables) in
/-- The tables of a page are in chains of their own. -/
theorem chainStart_inj (page : Nat) : ∀ i j,
    chainStart pages tables page i = chainStart pages tables page j → i = j := by
  induction page with
  | zero => exact fun i j h => congrArg Prod.snd h
  | succ page ih =>
    intro i j h
    unfold chainStart at h
    cases hi : predecessor pages tables page i with
    | none =>
      cases hj : predecessor pages tables page j with
      | none =>
        rw [hi, hj] at h
        exact congrArg Prod.snd h
      | some l =>
        have hle := chainStart_le pages tables page l
        rw [hi, hj] at h
        rw [show chainStart pages tables page l = (page + 1, i) from h.symm] at hle
        exact absurd hle (Nat.not_succ_le_self page)
    | some k =>
      cases hj : predecessor pages tables page j with
      | none =>
        have hle := chainStart_le pages tables page k
        rw [hi, hj] at h
        rw [show chainStart pages tables page k = (page + 1, j) from h] at hle
        exact absurd hle (Nat.not_succ_le_self page)
      | some l =>
        rw [hi, hj] at h
        obtain rfl := ih k l h
        have hk := continuation_of_predecessor hi
        rw [continuation_of_predecessor hj] at hk
        exact (Option.some.inj hk).symm

/-- With a page number of its own for every page, only tables that are linked twice matter. -/
theorem apart_of_distinct_numbers
    (hnumbers : ∀ page page' i j a b, tableAt tables page i = some a →
      tableAt tables page' j = some b → a.pageNumber = b.pageNumber → page = page')
    (honce : ∀ page i j target, continuation pages tables page i = some target →
      continuation pages tables page j = some target → i = j) :
    LinksApart pages tables := by
  refine ⟨honce, fun page i j hi hj hname => chainStart_inj pages tables page i j ?_⟩
  obtain ⟨start, hstart⟩ := Option.isSome_iff_exists.mp
    (chainStart_isSome pages (isLinked_isSome hi))
  obtain ⟨start', hstart'⟩ := Option.isSome_iff_exists.mp
    (chainStart_isSome pages (isLinked_isSome hj))
  obtain ⟨hindex, hnumber⟩ := hname
  rw [hstart, hstart'] at hnumber
  exact Prod.ext (hnumbers _ _ _ _ _ _ hstart hstart' (Option.some.inj hnumber)) hindex

/-- One table on each page leaves nothing to be linked twice. -/
theorem apart_of_one_table (h : ∀ page ∈ tables, page.tables.length ≤ 1) :
    LinksApart pages tables := by
  have hzero : ∀ {page i : Nat}, (tableAt tables page i).isSome = true → i = 0 := by
    intro page i hi
    obtain ⟨table, htable⟩ := Option.isSome_iff_exists.mp hi
    obtain ⟨pageTables, hpage, -, hlt⟩ := mem_of_tableAt htable
    have hone := h pageTables hpage
    omega
  constructor
  · intro page i j target hi hj
    rw [hzero (continuation_spec hi).1, hzero (continuation_spec hj).1]
  · intro page i j hi hj _
    rw [hzero (isLinked_isSome hi), hzero (isLinked_isSome hj)]

end Consistency

/-! ## Two tables above one -/

section Stacked

def stackedTable (pageNumber : Int) (y0 y1 : ℚ) : Table ℚ :=
  ⟨"t", "b", pageNumber - 1, pageNumber, ⟨100, y0, 900, y1⟩, 1, "", "", false, false, [], [], [],
    .cells⟩

def stackedPages : List PageArtifact :=
  [⟨0, 1, "", 1000, 1000⟩, ⟨1, 2, "", 1000, 1000⟩, ⟨2, 3, "", 1000, 1000⟩]

/-- A table that goes on over three pages. -/
def chainedTables : List (PageTables ℚ) :=
  [⟨0, 1, [stackedTable 1 600 950]⟩, ⟨1, 2, [stackedTable 2 50 950]⟩,
    ⟨2, 3, [stackedTable 3 50 300]⟩]

theorem links_consistent_iff_chained : ∃ linked,
    linkPages stackedPages chainedTables = .ok linked ∧ LinksConsistent linked ∧
      (tableAt linked 2 0).map (·.continuesFromPreviousPage) = some true := by
  have hunlinked : Unlinked chainedTables := by
    unfold Unlinked
    decide
  have hlinked : linkPages stackedPages chainedTables =
      .ok (linkCrossPageTables stackedPages chainedTables) := rfl
  exact ⟨_, hlinked, (links_consistent_iff hunlinked hlinked).mpr
    (apart_of_one_table (by decide)), by decide +kernel⟩

/-- Two tables that reach the foot of a page above one that begins the next. -/
def stackedTables : List (PageTables ℚ) :=
  [⟨0, 1, [stackedTable 1 700 850, stackedTable 1 860 960]⟩, ⟨1, 2, [stackedTable 2 50 300]⟩,
    ⟨2, 3, []⟩]

/-- The first table is marked as continued, and the table behind it is in the group of the
second. -/
theorem links_inconsistent_stacked : Unlinked stackedTables ∧ ∃ linked,
    linkPages stackedPages stackedTables = .ok linked ∧
      (tableAt linked 0 0).map (fun table => (table.continuesOnNextPage,
        table.continuationGroupId)) = some (true, "table_group_page_1_1") ∧
      (tableAt linked 1 0).map (·.continuationGroupId) = some "table_group_page_1_2" ∧
      ¬ LinksConsistent linked := by
  have hunlinked : Unlinked stackedTables := by
    unfold Unlinked
    decide
  refine ⟨hunlinked, _, rfl, by decide +kernel, by decide +kernel, fun h => ?_⟩
  have honce := (apart_of_consistent hunlinked h).linkedOnce 0 0 1 0 (by decide +kernel)
    (by decide +kernel)
  cases honce

end Stacked

end DocParser.Pipeline
