import DocParser.ReadingOrder.Topological

/-!
# Bands of a page

A group of elements is cut into bands at the elements that span all its columns, and each band
is ordered by geometry. `predictGroupOrder_spec` shows that this always ends, that every element
of the group is in the order exactly once, and that each of them gets one placement.
-/

namespace DocParser.ReadingOrder

open Document

section Definitions

variable {α : Type} [Double α]

/-- The arguments of a call of `addEdge`. -/
structure EdgeProposal (α : Type) where
  fromIndex : Nat
  toIndex : Nat
  confidence : α
  reason : String

def consecutive {τ : Type} (l : List τ) : List (τ × τ) := l.zip l.tail

/-- Compares by the vertical centre, then the left edge, then the layout index. -/
def verticalLess (elements : List (PageElement α)) (lhs rhs : Nat) : Bool :=
  let left := elementAt elements lhs
  let right := elementAt elements rhs
  if centerY left.bbox != centerY right.bbox then decide (centerY left.bbox < centerY right.bbox)
  else if left.bbox.x0 != right.bbox.x0 then decide (left.bbox.x0 < right.bbox.x0)
  else decide (left.layoutBlockIndex < right.layoutBlockIndex)

/-- The elements of each column from top to bottom. -/
def byColumn (elements : List (PageElement α)) (ranges : List ColumnRange) (columnCount : Nat) :
    List (List Nat) :=
  (List.range columnCount).map fun column =>
    sortBy (verticalLess elements) ((List.range elements.length).filter fun index =>
      !(rangeAt ranges index).spanning && (rangeAt ranges index).first == column)

def spanningElements (elements : List (PageElement α)) (ranges : List ColumnRange) : List Nat :=
  sortBy (verticalLess elements)
    ((List.range elements.length).filter fun index => (rangeAt ranges index).spanning)

/-- Neighbours in a column, unless their centres coincide. -/
def sameColumnEdges (elements : List (PageElement α)) (column : List Nat) :
    List (EdgeProposal α) :=
  (consecutive column).filterMap fun (before, after) =>
    let distance := Double.abs
      (centerY (elementAt elements before).bbox - centerY (elementAt elements after).bbox)
    if kEpsilon < distance then some ⟨before, after, 1.0, "same_column"⟩ else none

/-- The edges of the columns from the left; `previous` ends the last column that had elements. -/
def columnEdges (elements : List (PageElement α)) :
    Option Nat → List (List Nat) → List (EdgeProposal α)
  | _, [] => []
  | previous, column :: rest =>
    sameColumnEdges elements column ++
      (match previous, column.head? with
        | some back, some front => [⟨back, front, 0.80, "column_flow"⟩]
        | _, _ => []) ++
      columnEdges elements (column.getLast? <|> previous) rest

/-- A spanning element lies between its neighbours above and below in one column. -/
def spanningColumnEdges (elements : List (PageElement α)) (spanning : Nat) (column : List Nat) :
    List (EdgeProposal α) :=
  let above (candidate : Nat) := decide
    (centerY (elementAt elements candidate).bbox < centerY (elementAt elements spanning).bbox)
  ((column.takeWhile above).getLast?.toList.map fun nearest =>
    ⟨nearest, spanning, 0.95, "spanning_geometry"⟩) ++
  ((column.dropWhile above).head?.toList.map fun nearest =>
    ⟨spanning, nearest, 0.95, "spanning_geometry"⟩)

def spanningEdges (elements : List (PageElement α)) (ranges : List ColumnRange)
    (columns : List (List Nat)) (spanning : List Nat) : List (EdgeProposal α) :=
  ((consecutive spanning).map fun (before, after) =>
    ⟨before, after, 0.95, "spanning_geometry"⟩) ++
  spanning.flatMap fun index =>
    let range := rangeAt ranges index
    ((columns.drop range.first).take (range.last + 1 - range.first)).flatMap
      (spanningColumnEdges elements index)

/-- The elements that the layout model gave a position, in that order. -/
def hintedElements (elements : List (PageElement α)) : List Nat :=
  let hint (index : Nat) := (elementAt elements index).block.readingOrderHint
  sortBy (fun lhs rhs => decide (hint lhs < hint rhs))
    ((List.range elements.length).filter fun index => decide (0 ≤ hint index))

def hintEdges (elements : List (PageElement α)) : List (EdgeProposal α) :=
  (consecutive (hintedElements elements)).filterMap fun (before, after) =>
    if (elementAt elements before).block.readingOrderHint ≠
        (elementAt elements after).block.readingOrderHint then
      some ⟨before, after, 0.25, "model_hint"⟩
    else none

/-- All calls of `addEdge` for a band, in order. -/
def bandProposals (elements : List (PageElement α)) (ranges : List ColumnRange)
    (columnCount : Nat) : List (EdgeProposal α) :=
  let columns := byColumn elements ranges columnCount
  columnEdges elements none columns ++
    spanningEdges elements ranges columns (spanningElements elements ranges) ++
    hintEdges elements

def bandEdges (elements : List (PageElement α)) (ranges : List ColumnRange) (columnCount : Nat) :
    List (WeightedEdge α) :=
  (bandProposals elements ranges columnCount).foldl
    (fun edges p => addEdge edges p.fromIndex p.toIndex p.confidence p.reason) []

/-- `++counts[key]` in a map with sorted keys. -/
def bump (key : String) : List (String × Nat) → List (String × Nat)
  | [] => [(key, 1)]
  | (k, count) :: rest =>
    if k = key then (k, count + 1) :: rest
    else if key < k then (key, 1) :: (k, count) :: rest
    else (k, count) :: bump key rest

def recordEdgeCounts (edges : List (WeightedEdge α)) (counts : List (String × Nat)) :
    List (String × Nat) :=
  edges.foldl (fun counts edge => bump edge.reason counts) counts

/-- What the ordering of a group has built so far. -/
structure GroupState (α : Type) where
  order : List Nat
  nextBandIndex : Nat
  trace : ReadingOrderTrace α

/-- Orders a band of a group and appends it. An empty band changes nothing. -/
def appendBand (groupElements : List (PageElement α)) (group : String) (band : List Nat)
    (s : GroupState α) : Option (GroupState α) :=
  if band.isEmpty then some s
  else
    let elements := band.map (elementAt groupElements)
    let columns := inferColumns elements (List.range elements.length)
    let columnCount := Nat.max 1 columns.length
    let ranges := elements.map fun element => locateColumns element.bbox columns
    let placements := elements.map fun element =>
      let range := locateColumns element.bbox columns
      ⟨element.block.id, group, s.nextBandIndex, range.first, range.last, ""⟩
    let edges := bandEdges elements ranges columnCount
    match stableTopologicalOrder elements ranges columnCount edges with
    | none => none
    | some (localOrder, breaks) =>
      some {
        order := s.order ++ localOrder.map fun index => band.getD index 0
        nextBandIndex := s.nextBandIndex + 1
        trace := { s.trace with
          placements := s.trace.placements ++ placements
          edgeCounts := recordEdgeCounts edges s.trace.edgeCounts
          cycleBreaks := s.trace.cycleBreaks ++ breaks } }

/-- A separator is a band of its own. -/
def appendSeparator (elements : List (PageElement α)) (group : String) (columnCount : Nat)
    (separator : Nat) (s : GroupState α) : GroupState α where
  order := s.order ++ [separator]
  nextBandIndex := s.nextBandIndex + 1
  trace := { s.trace with
    placements := s.trace.placements ++ [⟨(elementAt elements separator).block.id, group,
      s.nextBandIndex, 0, columnCount - 1, ""⟩] }

/-- The loop over the separators. `remaining` are the elements that no band has consumed; what
is left after the last separator is the last band. -/
def orderBands (elements : List (PageElement α)) (group : String) (columnCount : Nat) :
    List Nat → List Nat → GroupState α → Option (GroupState α)
  | [], remaining, s => appendBand elements group remaining s
  | separator :: separators, remaining, s =>
    let above (index : Nat) := decide
      (centerY (elementAt elements index).bbox < centerY (elementAt elements separator).bbox)
    match appendBand elements group (remaining.filter above) s with
    | none => none
    | some s' =>
      orderBands elements group columnCount separators (remaining.filter fun i => !above i)
        (appendSeparator elements group columnCount separator s')

def predictGroupOrder (elements : List (PageElement α)) (group : String) (nextBandIndex : Nat)
    (trace : ReadingOrderTrace α) : Option (GroupState α) :=
  if elements.isEmpty then some ⟨[], nextBandIndex, trace⟩
  else
    let indices := List.range elements.length
    let columns := inferColumns elements indices
    let spans (index : Nat) := spansAllColumns (elementAt elements index).bbox columns
    orderBands elements group columns.length
      (sortedByPosition elements (indices.filter spans)) (indices.filter fun i => !spans i)
      ⟨[], nextBandIndex, trace⟩

end Definitions

/-! ## Edges stay within the band -/

section Edges

variable {α : Type} [Double α] {elements : List (PageElement α)} {ranges : List ColumnRange}

theorem mem_of_mem_consecutive {τ : Type} {l : List τ} {p : τ × τ} (h : p ∈ consecutive l) :
    p.1 ∈ l ∧ p.2 ∈ l := by
  obtain ⟨a, b⟩ := p
  exact ⟨(List.of_mem_zip h).1, List.mem_of_mem_tail (List.of_mem_zip h).2⟩

theorem byColumn_lt {columnCount : Nat} {column : List Nat}
    (h : column ∈ byColumn elements ranges columnCount) {i : Nat} (hi : i ∈ column) :
    i < elements.length := by
  obtain ⟨c, _, rfl⟩ := List.mem_map.mp h
  exact List.mem_range.mp (List.mem_filter.mp ((sortBy_perm _ _).mem_iff.mp hi)).1

theorem spanningElements_lt {i : Nat} (h : i ∈ spanningElements elements ranges) :
    i < elements.length :=
  List.mem_range.mp (List.mem_filter.mp ((sortBy_perm _ _).mem_iff.mp h)).1

theorem hintedElements_lt {i : Nat} (h : i ∈ hintedElements elements) : i < elements.length :=
  List.mem_range.mp (List.mem_filter.mp ((sortBy_perm _ _).mem_iff.mp h)).1

theorem columnEdges_lt {n : Nat} (columns : List (List Nat)) :
    ∀ previous : Option Nat, (∀ column ∈ columns, ∀ i ∈ column, i < n) →
      ∀ p ∈ columnEdges elements previous columns, p.toIndex < n := by
  induction columns with
  | nil => exact fun _ _ _ hp => by cases hp
  | cons column rest ih =>
    intro previous hn p hp
    unfold columnEdges at hp
    have hcol := hn column (List.mem_cons_self ..)
    rcases List.mem_append.mp hp with hp | hp
    · rcases List.mem_append.mp hp with hp | hp
      · obtain ⟨q, hq, heq⟩ := List.mem_filterMap.mp hp
        dsimp only at heq
        split_ifs at heq
        cases heq
        exact hcol _ (mem_of_mem_consecutive hq).2
      · cases hprev : previous with
        | none => rw [hprev] at hp; cases hp
        | some back =>
          cases hfront : column.head? with
          | none => rw [hprev, hfront] at hp; cases hp
          | some front =>
            rw [hprev, hfront] at hp
            rw [List.mem_singleton.mp hp]
            exact hcol _ (List.mem_of_mem_head? hfront)
    · exact ih _ (fun c hc => hn c (List.mem_cons_of_mem _ hc)) p hp

theorem spanningEdges_lt {n : Nat} {columns : List (List Nat)} {spanning : List Nat}
    (hc : ∀ column ∈ columns, ∀ i ∈ column, i < n) (hs : ∀ i ∈ spanning, i < n) :
    ∀ p ∈ spanningEdges elements ranges columns spanning, p.toIndex < n := by
  intro p hp
  unfold spanningEdges at hp
  rcases List.mem_append.mp hp with hp | hp
  · obtain ⟨q, hq, rfl⟩ := List.mem_map.mp hp
    exact hs _ (mem_of_mem_consecutive hq).2
  · obtain ⟨s, hsp, hp⟩ := List.mem_flatMap.mp hp
    obtain ⟨column, hcol, hp⟩ := List.mem_flatMap.mp hp
    have hcol' : column ∈ columns := List.mem_of_mem_drop (List.mem_of_mem_take hcol)
    unfold spanningColumnEdges at hp
    rcases List.mem_append.mp hp with hp | hp
    · obtain ⟨i, _, rfl⟩ := List.mem_map.mp hp
      exact hs s hsp
    · obtain ⟨i, hi, rfl⟩ := List.mem_map.mp hp
      have hmem := List.mem_of_mem_head? (Option.mem_toList.mp hi)
      exact hc column hcol' i (List.dropWhile_subset _ hmem)

theorem hintEdges_lt : ∀ p ∈ hintEdges elements, p.toIndex < elements.length := by
  intro p hp
  obtain ⟨q, hq, heq⟩ := List.mem_filterMap.mp hp
  dsimp only at heq
  split_ifs at heq
  cases heq
  exact hintedElements_lt (mem_of_mem_consecutive hq).2

theorem addEdge_lt {n fromIndex toIndex : Nat} {edges : List (WeightedEdge α)} {confidence : α}
    {reason : String} (h : ∀ e ∈ edges, e.toIndex < n) (hto : toIndex < n) :
    ∀ e ∈ addEdge edges fromIndex toIndex confidence reason, e.toIndex < n := by
  unfold addEdge
  split_ifs
  · exact h
  · dsimp only
    split
    · intro e he
      obtain ⟨i, hi⟩ := List.mem_iff_getElem?.mp he
      rw [List.getElem?_modify] at hi
      obtain ⟨e', he', heq⟩ := Option.map_eq_some_iff.mp hi
      have := h e' (List.mem_of_getElem? he')
      rw [← heq]
      split_ifs <;> exact this
    · intro e he
      rcases List.mem_append.mp he with he | he
      · exact h e he
      · rw [List.mem_singleton.mp he]; exact hto

theorem bandEdges_lt (elements : List (PageElement α)) (ranges : List ColumnRange)
    (columnCount : Nat) :
    ∀ e ∈ bandEdges elements ranges columnCount, e.toIndex < elements.length := by
  have hprop : ∀ p ∈ bandProposals elements ranges columnCount,
      p.toIndex < elements.length := by
    intro p hp
    unfold bandProposals at hp
    rcases List.mem_append.mp hp with hp | hp
    · rcases List.mem_append.mp hp with hp | hp
      · exact columnEdges_lt _ _ (fun _ hc _ hi => byColumn_lt hc hi) p hp
      · exact spanningEdges_lt (fun _ hc _ hi => byColumn_lt hc hi)
          (fun _ hi => spanningElements_lt hi) p hp
    · exact hintEdges_lt p hp
  unfold bandEdges
  have hnil : ∀ e ∈ ([] : List (WeightedEdge α)), e.toIndex < elements.length :=
    fun e he => by cases he
  exact List.foldlRecOn
    (motive := fun edges : List (WeightedEdge α) => ∀ e ∈ edges, e.toIndex < elements.length)
    (bandProposals elements ranges columnCount) _ hnil
    fun edges h p hp => addEdge_lt h (hprop p hp)

end Edges

/-! ## Every element once -/

section Orders

variable {α : Type} [Double α] {elements : List (PageElement α)} {s s' s'' : GroupState α}

/-- From `s` to `s'` the elements `l` were ordered and placed, each once. -/
structure Adds (elements : List (PageElement α)) (s s' : GroupState α) (l : List Nat) : Prop where
  order : ∃ new, s'.order = s.order ++ new ∧ new.Perm l
  placements : ∃ new, s'.trace.placements = s.trace.placements ++ new ∧
    (new.map (·.layoutBlockId)).Perm (l.map fun i => (elementAt elements i).block.id)

theorem Adds.refl : Adds elements s s [] :=
  ⟨⟨[], by simp, .refl _⟩, ⟨[], by simp, .refl _⟩⟩

theorem Adds.trans {l l' : List Nat} (h : Adds elements s s' l) (h' : Adds elements s' s'' l') :
    Adds elements s s'' (l ++ l') := by
  obtain ⟨⟨o, ho, hop⟩, ⟨p, hp, hpp⟩⟩ := h
  obtain ⟨⟨o', ho', hop'⟩, ⟨p', hp', hpp'⟩⟩ := h'
  refine ⟨⟨o ++ o', by rw [ho', ho, List.append_assoc], hop.append hop'⟩,
    ⟨p ++ p', by rw [hp', hp, List.append_assoc], ?_⟩⟩
  rw [List.map_append, List.map_append]
  exact hpp.append hpp'

theorem Adds.perm {l l' : List Nat} (h : Adds elements s s' l) (hl : l.Perm l') :
    Adds elements s s' l' := by
  obtain ⟨⟨o, ho, hop⟩, ⟨p, hp, hpp⟩⟩ := h
  exact ⟨⟨o, ho, hop.trans hl⟩, ⟨p, hp, hpp.trans (hl.map _)⟩⟩

/-- Indices into a list, read in any order of the positions. -/
theorem perm_map_getD {l : List Nat} {order : List Nat} (h : order.Perm (List.range l.length)) :
    (order.map fun i => l.getD i 0).Perm l := by
  refine (h.map _).trans (List.Perm.of_eq ?_)
  refine List.ext_getElem (by simp) fun i hi hi' => ?_
  simp [List.getD, hi']

variable (elements) in
theorem appendBand_spec (group : String) (band : List Nat) (s : GroupState α) :
    ∃ s', appendBand elements group band s = some s' ∧ Adds elements s s' band := by
  unfold appendBand
  cases band with
  | nil => exact ⟨s, rfl, .refl⟩
  | cons i rest =>
    rw [if_neg (by simp)]
    dsimp only
    obtain ⟨order, breaks, horder, hperm⟩ := stableTopologicalOrder_spec
      ((i :: rest).map (elementAt elements))
      (((i :: rest).map (elementAt elements)).map fun element => locateColumns element.bbox
        (inferColumns ((i :: rest).map (elementAt elements))
          (List.range ((i :: rest).map (elementAt elements)).length)))
      (Nat.max 1 (inferColumns ((i :: rest).map (elementAt elements))
        (List.range ((i :: rest).map (elementAt elements)).length)).length)
      _ (bandEdges_lt _ _ _)
    rw [horder]
    refine ⟨_, rfl, ⟨_, rfl, ?_⟩, ⟨_, rfl, ?_⟩⟩
    · refine perm_map_getD ?_
      rw [List.length_map] at hperm
      exact hperm
    · refine List.Perm.of_eq ?_
      rw [List.map_map, List.map_map]
      rfl

theorem appendSeparator_adds (group : String) (columnCount separator : Nat) :
    Adds elements s (appendSeparator elements group columnCount separator s) [separator] :=
  ⟨⟨[separator], rfl, .refl _⟩, ⟨_, rfl, .refl _⟩⟩

variable (elements) in
/-- **The loop over the separators** consumes every element once. -/
theorem orderBands_spec (group : String) (columnCount : Nat) (separators : List Nat) :
    ∀ (remaining : List Nat) (s : GroupState α),
      ∃ s', orderBands elements group columnCount separators remaining s = some s' ∧
        Adds elements s s' (separators ++ remaining) := by
  induction separators with
  | nil => exact fun remaining s => appendBand_spec elements group remaining s
  | cons separator separators ih =>
    intro remaining s
    unfold orderBands
    dsimp only
    obtain ⟨s₁, hs₁, h₁⟩ := appendBand_spec elements group
      (remaining.filter fun index => decide (centerY (elementAt elements index).bbox <
        centerY (elementAt elements separator).bbox)) s
    rw [hs₁]
    dsimp only
    obtain ⟨s₂, hs₂, h₂⟩ := ih (remaining.filter fun i => !decide
      (centerY (elementAt elements i).bbox < centerY (elementAt elements separator).bbox))
      (appendSeparator elements group columnCount separator s₁)
    refine ⟨s₂, hs₂, ((h₁.trans (appendSeparator_adds group columnCount separator)).trans
      h₂).perm ?_⟩
    -- the band, the separator and the rest are the separators and what remained
    have hband := List.filter_append_perm (fun index =>
      decide (centerY (elementAt elements index).bbox <
        centerY (elementAt elements separator).bbox)) remaining
    rw [List.append_assoc, List.singleton_append]
    refine List.perm_middle.trans (List.Perm.cons _ ?_)
    rw [← List.append_assoc]
    refine (List.perm_append_comm.append_right _).trans ?_
    rw [List.append_assoc]
    exact hband.append_left _

/-- **A group** is always ordered, and every element of it is ordered and placed once. -/
theorem predictGroupOrder_spec (elements : List (PageElement α)) (group : String)
    (nextBandIndex : Nat) (trace : ReadingOrderTrace α) :
    ∃ s, predictGroupOrder elements group nextBandIndex trace = some s ∧
      s.order.Perm (List.range elements.length) ∧
      ∃ new, s.trace.placements = trace.placements ++ new ∧
        (new.map (·.layoutBlockId)).Perm (elements.map fun e => e.block.id) := by
  have hids : (List.range elements.length).map (fun i => (elementAt elements i).block.id) =
      elements.map fun e => e.block.id := by
    refine List.ext_getElem (by simp) fun i hi hi' => ?_
    have hlt : i < elements.length := by simpa using hi'
    simp [elementAt, List.getD, hlt]
  unfold predictGroupOrder
  cases helem : elements.isEmpty with
  | true =>
    rw [List.isEmpty_iff] at helem
    subst helem
    exact ⟨_, rfl, .refl _, [], by simp, .refl _⟩
  | false =>
    rw [if_neg (by simp)]
    dsimp only
    obtain ⟨s, hs, h⟩ := orderBands_spec elements group
      (inferColumns elements (List.range elements.length)).length
      (sortedByPosition elements ((List.range elements.length).filter fun index =>
        spansAllColumns (elementAt elements index).bbox
          (inferColumns elements (List.range elements.length))))
      ((List.range elements.length).filter fun i => !spansAllColumns (elementAt elements i).bbox
        (inferColumns elements (List.range elements.length)))
      ⟨[], nextBandIndex, trace⟩
    obtain ⟨⟨o, ho, hop⟩, ⟨p, hp, hpp⟩⟩ := h.perm
      (((sortBy_perm _ _).append_right _).trans (List.filter_append_perm _ _))
    refine ⟨s, hs, ?_, p, hp, ?_⟩
    · rw [ho, List.nil_append]
      exact hop
    · rw [← hids]
      exact hpp

end Orders

end DocParser.ReadingOrder
