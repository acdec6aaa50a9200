import DocParser.Pipeline.TableRecognition

/-!
# Links between the tables of a document

Tables are linked page by page, each to the first table of the next page that may continue it, and
a table that is linked twice keeps its last link. `tableAt_link` gives every table of the result
from the tables at the start. `links_consistent_iff`: the links are consistent when no table is
linked twice and no page holds two chains of one name.
-/

namespace DocParser.Pipeline

open Document

section Definitions

variable {α : Type} [Double α]

/-- The first table of the next page that may continue a table. -/
def firstCandidate (previousPage nextPage : PageArtifact) (next : List (Table α))
    (previous : Table α) : Option Nat :=
  next.findIdx? fun table => continuationCandidate previous previousPage table nextPage

/-- The index of the last element with a property. -/
def lastIdx? {τ : Type} (p : τ → Bool) : List τ → Option Nat
  | [] => none
  | x :: l =>
    match lastIdx? p l with
    | some k => some (k + 1)
    | none => if p x then some 0 else none

def tableAt (tables : List (PageTables α)) (page index : Nat) : Option (Table α) :=
  tables[page]?.bind fun tables => tables.tables[index]?

section Pages

variable (pages : List PageArtifact) (tables : List (PageTables α))

/-- A page and the next one, with their tables. -/
def pagePair (page : Nat) : Option (PageArtifact × PageArtifact × List (Table α) × List (Table α)) :=
  match pages[page]?, pages[page + 1]?, tables[page]?, tables[page + 1]? with
  | some previousPage, some nextPage, some previous, some next =>
    some (previousPage, nextPage, previous.tables, next.tables)
  | _, _, _, _ => none

/-- The table of the next page that a table is linked to. -/
def continuation (page index : Nat) : Option Nat :=
  (pagePair pages tables page).bind fun (previousPage, nextPage, previous, next) =>
    previous[index]?.bind (firstCandidate previousPage nextPage next)

/-- The last table of a page that is linked to a table of the next one. -/
def predecessor (page index : Nat) : Option Nat :=
  (pagePair pages tables page).bind fun (previousPage, nextPage, previous, next) =>
    lastIdx? (fun table => firstCandidate previousPage nextPage next table == some index) previous

/-- The predecessor of a table, on any page. -/
def comesFrom : Nat → Nat → Option Nat
  | 0, _ => none
  | page + 1, index => predecessor pages tables page index

/-- The page and the index at which the chain of a table starts. -/
def chainStart : Nat → Nat → Nat × Nat
  | 0, index => (0, index)
  | page + 1, index =>
    match predecessor pages tables page index with
    | none => (page + 1, index)
    | some i => chainStart page i

def IsLinked (page index : Nat) : Prop :=
  (continuation pages tables page index).isSome = true ∨
    (comesFrom pages tables page index).isSome = true

/-- A table when its own page is linked to the previous one. -/
def baseAt : Nat → Nat → Option (Table α)
  | 0, index => tableAt tables 0 index
  | page + 1, index => (tableAt tables (page + 1) index).map fun next =>
    match predecessor pages tables page index with
    | none => next
    | some i =>
      match baseAt page i with
      | none => next
      | some previous => linkNext (linkPrevious i previous) next

/-- A table after all links. -/
def linkedAt (page index : Nat) : Option (Table α) :=
  (baseAt pages tables page index).map fun table =>
    if (continuation pages tables page index).isSome then linkPrevious index table else table

end Pages

end Definitions

/-! ## The tables of the result -/

section Result

variable {α : Type}

section LastIndex

variable {τ : Type} {p : τ → Bool}

theorem lastIdx?_eq_some {l : List τ} : ∀ {k : Nat}, lastIdx? p l = some k →
    ∃ x, l[k]? = some x ∧ p x = true := by
  induction l with
  | nil => intro k h; cases h
  | cons x l ih =>
    intro k h
    unfold lastIdx? at h
    split at h
    next k' hk =>
      obtain rfl := Option.some.inj h
      exact ih hk
    next =>
      split at h
      next hx =>
        obtain rfl := Option.some.inj h
        exact ⟨x, rfl, hx⟩
      · cases h

theorem lastIdx?_isSome {l : List τ} {x : τ} (hx : x ∈ l) (h : p x = true) :
    (lastIdx? p l).isSome = true := by
  induction l with
  | nil => cases hx
  | cons y l ih =>
    unfold lastIdx?
    rcases List.mem_cons.mp hx with rfl | hx
    · cases lastIdx? p l <;> simp [h]
    · obtain ⟨k, hk⟩ := Option.isSome_iff_exists.mp (ih hx)
      rw [hk]
      rfl

theorem lastIdx?_map {σ : Type} (f : σ → τ) (l : List σ) :
    lastIdx? p (l.map f) = lastIdx? (p ∘ f) l := by
  induction l with
  | nil => rfl
  | cons x l ih =>
    rw [List.map_cons]
    unfold lastIdx?
    rw [ih]
    rfl

end LastIndex

/-- A table without its links. -/
def unlinked (table : Table α) : Table α :=
  { table with
    continuationGroupId := ""
    continuesFromPreviousPage := false
    continuesOnNextPage := false }

def unlinkPage (tables : PageTables α) : PageTables α :=
  { tables with tables := tables.tables.map unlinked }

@[simp] theorem unlinked_linkNext (previous next : Table α) :
    unlinked (linkNext previous next) = unlinked next := rfl

@[simp] theorem unlinked_linkPrevious (index : Nat) (previous : Table α) :
    unlinked (linkPrevious index previous) = unlinked previous := rfl

variable [Double α]

/-- Links do not change which table may continue which. -/
theorem firstCandidate_unlinked (previousPage nextPage : PageArtifact) (next : List (Table α))
    (previous : Table α) :
    firstCandidate previousPage nextPage (next.map unlinked) (unlinked previous) =
      firstCandidate previousPage nextPage next previous := by
  unfold firstCandidate
  rw [List.findIdx?_map]
  rfl

theorem firstCandidate_congr {previousPage nextPage : PageArtifact} {next next' : List (Table α)}
    (h : next'.map unlinked = next.map unlinked) :
    firstCandidate previousPage nextPage next' = firstCandidate previousPage nextPage next := by
  funext previous
  rw [← firstCandidate_unlinked, h, firstCandidate_unlinked]

omit [Double α] in
theorem map_unlinked_modify (next : List (Table α)) (previous : Table α) : ∀ target : Nat,
    (next.modify target (linkNext previous)).map unlinked = next.map unlinked := by
  induction next with
  | nil => intro target; rw [List.modify_nil]
  | cons table next ih =>
    intro target
    cases target with
    | zero => rfl
    | succ target => rw [List.modify_succ_cons, List.map_cons, ih, List.map_cons]

section LinkTables

variable {previousPage nextPage : PageArtifact}

theorem linkTables_cons (n : Nat) (source : Table α) (previous next : List (Table α)) :
    linkTables previousPage nextPage n (source :: previous) next =
      match firstCandidate previousPage nextPage next source with
      | none =>
        let (rest, next) := linkTables previousPage nextPage (n + 1) previous next
        (source :: rest, next)
      | some target =>
        let (rest, next) := linkTables previousPage nextPage (n + 1) previous
          (next.modify target (linkNext (linkPrevious n source)))
        (linkPrevious n source :: rest, next) := rfl

theorem linkTables_fst (previous : List (Table α)) : ∀ (n : Nat) (next : List (Table α)) (k : Nat),
    (linkTables previousPage nextPage n previous next).1[k]? = previous[k]?.map fun table =>
      if (firstCandidate previousPage nextPage next table).isSome
      then linkPrevious (n + k) table else table := by
  induction previous with
  | nil => intro n next k; rfl
  | cons table previous ih =>
    intro n next k
    rw [linkTables_cons]
    cases hfirst : firstCandidate previousPage nextPage next table with
    | none =>
      cases k with
      | zero => simp [hfirst]
      | succ k =>
        simp only [List.getElem?_cons_succ, ih]
        rw [show n + 1 + k = n + (k + 1) by omega]
    | some target =>
      cases k with
      | zero => simp [hfirst]
      | succ k =>
        simp only [List.getElem?_cons_succ, ih,
          firstCandidate_congr (map_unlinked_modify next (linkPrevious n table) target)]
        rw [show n + 1 + k = n + (k + 1) by omega]

/-- The link that a table of the next page keeps. -/
def keptLink (n : Nat) (previous : List (Table α)) (target : Option Nat) (table : Table α) :
    Table α :=
  match target with
  | none => table
  | some k =>
    match previous[k]? with
    | none => table
    | some source => linkNext (linkPrevious (n + k) source) table

omit [Double α] in
theorem keptLink_none (n : Nat) (previous : List (Table α)) : keptLink n previous none = id := rfl

omit [Double α] in
theorem keptLink_some {n k : Nat} {previous : List (Table α)} {source : Table α}
    (h : previous[k]? = some source) :
    keptLink n previous (some k) = linkNext (linkPrevious (n + k) source) := by
  funext table
  simp only [keptLink, h]

theorem linkTables_snd (previous : List (Table α)) : ∀ (n : Nat) (next : List (Table α)) (j : Nat),
    (linkTables previousPage nextPage n previous next).2[j]? = next[j]?.map
      (keptLink n previous (lastIdx? (fun table =>
        firstCandidate previousPage nextPage next table == some j) previous)) := by
  induction previous with
  | nil => intro n next j; simp [linkTables, keptLink_none, lastIdx?]
  | cons source previous ih =>
    intro n next j
    have hlater : ∀ {k : Nat} {later : Table α}, previous[k]? = some later →
        keptLink n (source :: previous) (some (k + 1)) = keptLink (n + 1) previous (some k) := by
      intro k later hlater
      rw [keptLink_some hlater, keptLink_some ((List.getElem?_cons_succ ..).trans hlater),
        show n + (k + 1) = n + 1 + k by omega]
    rw [linkTables_cons]
    unfold lastIdx?
    cases hfirst : firstCandidate previousPage nextPage next source with
    | none =>
      dsimp only
      rw [ih]
      cases hlast : lastIdx? (fun table =>
          firstCandidate previousPage nextPage next table == some j) previous with
      | none => rfl
      | some k =>
        obtain ⟨later, hget, -⟩ := lastIdx?_eq_some hlast
        rw [hlater hget]
    | some target =>
      dsimp only
      rw [ih, firstCandidate_congr (map_unlinked_modify next (linkPrevious n source) target),
        List.getElem?_modify]
      cases hlast : lastIdx? (fun table =>
          firstCandidate previousPage nextPage next table == some j) previous with
      | none =>
        have hzero := keptLink_some (n := n) (show (source :: previous)[0]? = some source from rfl)
        cases next[j]? with
        | none => rfl
        | some table => by_cases hj : target = j <;> simp [hj, keptLink_none, hzero]
      | some k =>
        -- a later link replaces this one
        obtain ⟨later, hget, -⟩ := lastIdx?_eq_some hlast
        rw [hlater hget, keptLink_some hget]
        cases next[j]? with
        | none => rfl
        | some table =>
          by_cases hj : target = j
          · simp only [hj, if_true]
            rfl
          · simp [hj]

end LinkTables

section Document

variable {pages : List PageArtifact} {tables tables' : List (PageTables α)}

theorem continuation_unlinkPage (page index : Nat) :
    continuation pages (tables.map unlinkPage) page index = continuation pages tables page index := by
  unfold continuation pagePair
  rw [List.getElem?_map, List.getElem?_map]
  cases pages[page]? <;> cases pages[page + 1]? <;> cases tables[page]? <;>
    cases tables[page + 1]? <;> try rfl
  rename_i previousPage nextPage previous next
  simp only [Option.map_some, Option.bind_some, unlinkPage, List.getElem?_map]
  cases previous.tables[index]? with
  | none => rfl
  | some table => exact firstCandidate_unlinked _ _ _ _

theorem predecessor_unlinkPage (page index : Nat) :
    predecessor pages (tables.map unlinkPage) page index = predecessor pages tables page index := by
  unfold predecessor pagePair
  rw [List.getElem?_map, List.getElem?_map]
  cases pages[page]? <;> cases pages[page + 1]? <;> cases tables[page]? <;>
    cases tables[page + 1]? <;> try rfl
  simp only [Option.map_some, Option.bind_some, unlinkPage, lastIdx?_map]
  refine congrArg (fun p => lastIdx? p _) (funext fun table => ?_)
  rw [Function.comp_apply, firstCandidate_unlinked]

variable (pages) in
/-- Links do not change what is linked. -/
theorem links_congr (h : tables'.map unlinkPage = tables.map unlinkPage) :
    continuation pages tables' = continuation pages tables ∧
      predecessor pages tables' = predecessor pages tables := by
  constructor <;> funext page index
  · rw [← continuation_unlinkPage, h, continuation_unlinkPage]
  · rw [← predecessor_unlinkPage, h, predecessor_unlinkPage]

variable {previousPage nextPage : PageArtifact} {previous next : PageTables α}

/-- The next page when it has been linked to the previous one. -/
def linkedPage (previousPage nextPage : PageArtifact) (previous next : PageTables α) :
    PageTables α :=
  { next with tables := (linkTables previousPage nextPage 0 previous.tables next.tables).2 }

theorem unlinkPage_linkedPage :
    unlinkPage (linkedPage previousPage nextPage previous next) = unlinkPage next := by
  have htables : (linkedPage previousPage nextPage previous next).tables.map unlinked =
      next.tables.map unlinked := by
    refine List.ext_getElem? fun j => ?_
    unfold linkedPage
    rw [List.getElem?_map, List.getElem?_map, linkTables_snd, Option.map_map]
    refine congrArg (fun f => next.tables[j]?.map f) (funext fun table => ?_)
    rw [Function.comp_apply]
    unfold keptLink
    split
    · rfl
    · split <;> rfl
  unfold unlinkPage
  rw [htables]
  rfl

/-- What is linked on the pages from the second on. -/
theorem links_tail :
    (∀ page index, continuation (nextPage :: pages)
        (linkedPage previousPage nextPage previous next :: tables) page index =
      continuation (previousPage :: nextPage :: pages) (previous :: next :: tables) (page + 1)
        index) ∧
    ∀ page index, predecessor (nextPage :: pages)
        (linkedPage previousPage nextPage previous next :: tables) page index =
      predecessor (previousPage :: nextPage :: pages) (previous :: next :: tables) (page + 1)
        index := by
  have hsame : (linkedPage previousPage nextPage previous next :: tables).map unlinkPage =
      (next :: tables).map unlinkPage := by
    rw [List.map_cons, List.map_cons, unlinkPage_linkedPage]
  obtain ⟨hcontinuation, hpredecessor⟩ := links_congr (nextPage :: pages) hsame
  rw [hcontinuation, hpredecessor]
  exact ⟨fun _ _ => rfl, fun _ _ => rfl⟩

theorem baseAt_tail (page : Nat) : ∀ index : Nat,
    baseAt (nextPage :: pages) (linkedPage previousPage nextPage previous next :: tables) page
        index =
      baseAt (previousPage :: nextPage :: pages) (previous :: next :: tables) (page + 1) index := by
  induction page with
  | zero =>
    intro index
    show (linkTables previousPage nextPage 0 previous.tables next.tables).2[index]? =
      next.tables[index]?.map _
    rw [linkTables_snd]
    refine congrArg (fun f => next.tables[index]?.map f) (funext fun table => ?_)
    show keptLink 0 previous.tables _ table = match lastIdx? _ previous.tables with
      | none => table
      | some i =>
        match previous.tables[i]? with
        | none => table
        | some source => linkNext (linkPrevious i source) table
    unfold keptLink
    simp only [Nat.zero_add]
  | succ page ih =>
    intro index
    show ((tableAt (linkedPage previousPage nextPage previous next :: tables) (page + 1)
      index).map _) = (tableAt (previous :: next :: tables) (page + 1 + 1) index).map _
    simp only [links_tail.2, ih]
    rfl

/-- Fewer than two pages are not linked. -/
theorem link_short (h : pages.length < 2 ∨ tables.length < 2) :
    linkCrossPageTables pages tables = tables ∧
      ∀ page index, linkedAt pages tables page index = tableAt tables page index := by
  have hnone : ∀ page, pagePair pages tables page = none := by
    intro page
    unfold pagePair
    split
    next hnextPage _ hnext =>
      have hpages := (List.getElem?_eq_some_iff.mp hnextPage).1
      have htables := (List.getElem?_eq_some_iff.mp hnext).1
      omega
    · rfl
  constructor
  · unfold linkCrossPageTables
    split
    · simp only [List.length_cons] at h
      omega
    · rfl
  · intro page index
    have hcontinuation : continuation pages tables page index = none := by
      unfold continuation
      rw [hnone]
      rfl
    unfold linkedAt
    rw [hcontinuation]
    cases page with
    | zero => simp [baseAt]
    | succ page =>
      have hpredecessor : predecessor pages tables page index = none := by
        unfold predecessor
        rw [hnone]
        rfl
      simp [baseAt, hpredecessor]

/-- **The result of linking**, table by table. -/
theorem tableAt_link (page : Nat) : ∀ (pages : List PageArtifact) (tables : List (PageTables α))
    (index : Nat), tableAt (linkCrossPageTables pages tables) page index =
      linkedAt pages tables page index := by
  induction page with
  | zero =>
    intro pages tables index
    by_cases hshort : pages.length < 2 ∨ tables.length < 2
    · rw [(link_short hshort).1, (link_short hshort).2]
    match pages, tables with
    | previousPage :: nextPage :: pages, previous :: next :: tables =>
      show (linkTables previousPage nextPage 0 previous.tables next.tables).1[index]? = _
      rw [linkTables_fst]
      unfold linkedAt
      show _ = previous.tables[index]?.map _
      cases htable : previous.tables[index]? with
      | none => rfl
      | some table =>
        have hcontinuation : continuation (previousPage :: nextPage :: pages)
            (previous :: next :: tables) 0 index =
            firstCandidate previousPage nextPage next.tables table := by
          show previous.tables[index]?.bind _ = _
          rw [htable]
          rfl
        simp only [Option.map_some, hcontinuation, Nat.zero_add]
    | [], _ | [_], _ | _, [] | _, [_] => exact absurd (by simp) hshort
  | succ page ih =>
    intro pages tables index
    by_cases hshort : pages.length < 2 ∨ tables.length < 2
    · rw [(link_short hshort).1, (link_short hshort).2]
    match pages, tables with
    | previousPage :: nextPage :: pages, previous :: next :: tables =>
      show tableAt (linkCrossPageTables (nextPage :: pages)
        (linkedPage previousPage nextPage previous next :: tables)) page index = _
      rw [ih]
      unfold linkedAt
      rw [baseAt_tail, links_tail.1]
    | [], _ | [_], _ | _, [] | _, [_] => exact absurd (by simp) hshort

end Document

end Result

end DocParser.Pipeline
