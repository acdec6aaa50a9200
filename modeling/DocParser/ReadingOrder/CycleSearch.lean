import Mathlib.Data.Finset.Card
import Mathlib.Data.List.Chain
import Mathlib.Data.List.Perm.Subperm
import DocParser.Lib.History

/-!
# The cycle search

The depth first search of `findCycleEdges` over the weighted edges of a band. The loops of the
source run on fuel, and `none` is a run that does not end or reads outside of a list.

The search finishes a node when every active edge that leaves it leads to a node that was finished
before it. So a search that finds no cycle lists the nodes that are not emitted in a reverse
topological order, and the node it finishes last has no active edge into it from a node that is
not emitted (`findCycleEdgesWith_spec`).

The search walks back along parent edges and gives up at a node without one. That exit is a
parameter of the statements: what the search returns does not depend on it.
-/

namespace DocParser.ReadingOrder

structure WeightedEdge (α : Type) where
  fromIndex : Nat
  toIndex : Nat
  confidence : α
  reason : String
  active : Bool
  deriving DecidableEq, Repr

/-! ## The search of the source -/

/-- The states 0, 1 and 2 of the search. -/
inductive NodeState
  | unseen | active | finished
  deriving DecidableEq, Repr

structure CycleSearch where
  state : Nat → NodeState
  parentEdge : Nat → Option Nat
  cycle : List Nat

namespace CycleSearch

def start : CycleSearch := ⟨fun _ => .unseen, fun _ => none, []⟩

variable (d : CycleSearch)

def setState (node : Nat) (s : NodeState) : CycleSearch :=
  { d with state := Function.update d.state node s }

def setParent (node edge : Nat) : CycleSearch :=
  { d with parentEdge := Function.update d.parentEdge node (some edge) }

def setCycle (cycle : List Nat) : CycleSearch := { d with cycle := cycle }

theorem setState_self (node : Nat) (s : NodeState) : (d.setState node s).state node = s :=
  Function.update_self ..

theorem setState_of_ne {v node : Nat} (h : v ≠ node) (s : NodeState) :
    (d.setState node s).state v = d.state v :=
  Function.update_of_ne h ..

end CycleSearch

variable {α : Type}

/-- The loop from `current` back to `target` along the parent edges: the edges it passes, or
`some none` at a node without one. -/
def walkBack (edges : List (WeightedEdge α)) (parentEdge : Nat → Option Nat) (target : Nat) :
    Nat → Nat → Option (Option (List Nat))
  | 0, current => if current = target then some (some []) else none
  | fuel + 1, current =>
    if current = target then some (some [])
    else
      match parentEdge current with
      | none => some none
      | some incoming =>
        match edges[incoming]? with
        | none => none
        | some edge =>
          (walkBack edges parentEdge target fuel edge.fromIndex).map (Option.map (incoming :: ·))

/-- The loop of `visit` over the edges. -/
def visitEdges (edges : List (WeightedEdge α)) (emitted : Nat → Bool) (n : Nat)
    (visit : Nat → CycleSearch → Option (Bool × CycleSearch)) (node : Nat) :
    List (WeightedEdge α × Nat) → CycleSearch → Option (Bool × CycleSearch)
  | [], d => some (false, d.setState node .finished)
  | (edge, index) :: rest, d =>
    if !edge.active || edge.fromIndex != node || emitted edge.toIndex then
      visitEdges edges emitted n visit node rest d
    else
      match d.state edge.toIndex with
      | .unseen =>
        match visit edge.toIndex (d.setParent edge.toIndex index) with
        | none => none
        | some (true, d') => some (true, d')
        | some (false, d') => visitEdges edges emitted n visit node rest d'
      | .active =>
        match walkBack edges d.parentEdge edge.toIndex n node with
        | none => none
        | some none => some (false, d.setCycle [])
        | some (some path) => some (true, d.setCycle (index :: path))
      | .finished => visitEdges edges emitted n visit node rest d

def visit (edges : List (WeightedEdge α)) (emitted : Nat → Bool) (n : Nat) :
    Nat → Nat → CycleSearch → Option (Bool × CycleSearch)
  | 0, _, _ => none
  | fuel + 1, node, d =>
    visitEdges edges emitted n (visit edges emitted n fuel) node edges.zipIdx
      (d.setState node .active)

/-- The loop of `findCycleEdges` over the nodes. -/
def searchFrom (edges : List (WeightedEdge α)) (emitted : Nat → Bool) (n : Nat) :
    List Nat → CycleSearch → Option (List Nat)
  | [], _ => some []
  | node :: rest, d =>
    if emitted node = false ∧ d.state node = .unseen then
      match visit edges emitted n n node d with
      | none => none
      | some (true, d') => some d'.cycle
      | some (false, d') => searchFrom edges emitted n rest d'
    else searchFrom edges emitted n rest d

def findCycleEdges (edges : List (WeightedEdge α)) (emitted : Nat → Bool) (n : Nat) :
    Option (List Nat) :=
  searchFrom edges emitted n (List.range n) .start

/-! ## What the search finds -/

/-- Edges that lead back from `current` to `target`. -/
inductive BackWalk (edges : List (WeightedEdge α)) : Nat → Nat → List Nat → Prop
  | nil (node : Nat) : BackWalk edges node node []
  | cons {current target index : Nat} {edge : WeightedEdge α} {walk : List Nat} :
      edges[index]? = some edge → edge.active = true → edge.toIndex = current →
      BackWalk edges edge.fromIndex target walk → BackWalk edges current target (index :: walk)

/-- The edges of a directed cycle of active edges, from the closing edge backwards. -/
def IsCycle (edges : List (WeightedEdge α)) (cycle : List Nat) : Prop :=
  ∃ index edge walk, cycle = index :: walk ∧ edges[index]? = some edge ∧ edge.active = true ∧
    BackWalk edges edge.fromIndex edge.toIndex walk

/-- `v` was reached from `u` over an active edge. -/
def Reached (edges : List (WeightedEdge α)) (d : CycleSearch) (v u : Nat) : Prop :=
  ∃ index edge, d.parentEdge v = some index ∧ edges[index]? = some edge ∧
    edge.active = true ∧ edge.fromIndex = u ∧ edge.toIndex = v

/-- The active nodes are those on the path from the current node back to its root. -/
structure OnPath (edges : List (WeightedEdge α)) (n : Nat) (d : CycleSearch) (path : List Nat) :
    Prop where
  active : ∀ v, d.state v = .active ↔ v ∈ path
  nodup : path.Nodup
  bound : ∀ v ∈ path, v < n
  linked : path.IsChain (Reached edges d)

/-- The nodes that the search has not seen. -/
def unseen (n : Nat) (d : CycleSearch) : Finset Nat :=
  (Finset.range n).filter fun v => d.state v = .unseen

variable {edges : List (WeightedEdge α)} {emitted : Nat → Bool} {n : Nat} {d : CycleSearch}
  {path fin : List Nat}

theorem BackWalk.edge_active {current target : Nat} {walk : List Nat}
    (h : BackWalk edges current target walk) :
    ∀ index ∈ walk, ∃ edge, edges[index]? = some edge ∧ edge.active = true := by
  induction h with
  | nil => simp
  | cons hget hact _ _ ih =>
    intro i hi
    rcases List.mem_cons.mp hi with rfl | hi
    · exact ⟨_, hget, hact⟩
    · exact ih i hi

theorem IsCycle.edge_active {cycle : List Nat} (h : IsCycle edges cycle) :
    ∀ index ∈ cycle, ∃ edge, edges[index]? = some edge ∧ edge.active = true := by
  obtain ⟨index, edge, walk, rfl, hget, hact, hwalk⟩ := h
  intro i hi
  rcases List.mem_cons.mp hi with rfl | hi
  · exact ⟨edge, hget, hact⟩
  · exact hwalk.edge_active i hi

/-- Along the path the walk reaches every node of it. -/
theorem walkBack_spec {parentEdge : Nat → Option Nat} {target : Nat} (d : CycleSearch)
    (hd : d.parentEdge = parentEdge) :
    ∀ (path : List Nat) (fuel current : Nat), path.length ≤ fuel →
      (current :: path).IsChain (Reached edges d) → target ∈ current :: path →
      ∃ walk, walkBack edges parentEdge target fuel current = some (some walk) ∧
        BackWalk edges current target walk := by
  intro path
  induction path with
  | nil =>
    intro fuel current _ _ hmem
    obtain rfl := List.mem_singleton.mp hmem
    refine ⟨[], ?_, .nil target⟩
    cases fuel <;> simp [walkBack]
  | cons u path ih =>
    intro fuel current hfuel hchain hmem
    by_cases hc : current = target
    · subst hc
      refine ⟨[], ?_, .nil current⟩
      cases fuel <;> simp [walkBack]
    · obtain ⟨⟨index, edge, hparent, hget, hact, hfrom, hto⟩, hrest⟩ :=
        List.isChain_cons_cons.mp hchain
      obtain ⟨fuel, rfl⟩ : ∃ f, fuel = f + 1 := ⟨fuel - 1, by simp at hfuel; omega⟩
      have hmem' : target ∈ u :: path := (List.mem_cons.mp hmem).resolve_left (Ne.symm hc)
      obtain ⟨walk, hwalk, hback⟩ := ih fuel u (by simpa using hfuel) hrest hmem'
      refine ⟨index :: walk, ?_, .cons hget hact hto (hfrom ▸ hback)⟩
      rw [hd] at hparent
      unfold walkBack
      rw [if_neg hc, hparent]
      dsimp only
      rw [hget]
      dsimp only
      rw [hfrom, hwalk]
      rfl

theorem OnPath.length_le (h : OnPath edges n d path) : path.length ≤ n := by
  have hsub : path.Subperm (List.range n) :=
    List.subperm_of_subset h.nodup fun v hv => List.mem_range.mpr (h.bound v hv)
  simpa using hsub.length_le

theorem Reached.congr {d' : CycleSearch} {v u : Nat} (h : Reached edges d v u)
    (hp : d'.parentEdge v = d.parentEdge v) : Reached edges d' v u := by
  obtain ⟨index, edge, hparent, hrest⟩ := h
  exact ⟨index, edge, by rw [hp]; exact hparent, hrest⟩

theorem OnPath.congr {d' : CycleSearch} (h : OnPath edges n d path)
    (hs : ∀ v, d'.state v = .active ↔ d.state v = .active)
    (hp : ∀ v ∈ path, d'.parentEdge v = d.parentEdge v) : OnPath edges n d' path := by
  refine ⟨fun v => (hs v).trans (h.active v), h.nodup, h.bound, ?_⟩
  exact h.linked.imp_of_mem_imp fun v u hv _ hvu => hvu.congr (hp v hv)

/-- The current node joins the path. -/
theorem OnPath.push (h : OnPath edges n d path) {node : Nat} (hstate : d.state node = .unseen)
    (hn : node < n) (hlink : ∀ u ∈ path.head?, Reached edges d node u) :
    OnPath edges n (d.setState node .active) (node :: path) := by
  have hnot : node ∉ path := fun hmem => by
    have := (h.active node).mpr hmem
    rw [hstate] at this
    cases this
  refine ⟨fun v => ?_, List.nodup_cons.mpr ⟨hnot, h.nodup⟩, fun v hv => ?_, ?_⟩
  · by_cases hv : v = node
    · rw [hv, CycleSearch.setState_self]
      simp
    · rw [CycleSearch.setState_of_ne d hv, h.active v, List.mem_cons]
      simp [hv]
  · rcases List.mem_cons.mp hv with rfl | hv
    · exact hn
    · exact h.bound v hv
  · exact List.isChain_cons.mpr ⟨hlink, h.linked⟩

/-- The parent edge of a node outside of the path. -/
theorem OnPath.setParent (h : OnPath edges n d path) {node : Nat}
    (hstate : d.state node = .unseen) (edge : Nat) : OnPath edges n (d.setParent node edge) path := by
  refine h.congr (fun _ => Iff.rfl) fun v hv => Function.update_of_ne ?_ ..
  rintro rfl
  rw [(h.active _).mpr hv] at hstate
  cases hstate

/-- A finished node leaves the path. -/
theorem OnPath.pop {node : Nat} (h : OnPath edges n d (node :: path)) :
    OnPath edges n (d.setState node .finished) path := by
  have hnot : node ∉ path := (List.nodup_cons.mp h.nodup).1
  refine ⟨fun v => ?_, (List.nodup_cons.mp h.nodup).2,
    fun v hv => h.bound v (List.mem_cons_of_mem _ hv), h.linked.tail⟩
  by_cases hv : v = node
  · rw [hv, CycleSearch.setState_self]
    simp [hnot]
  · rw [CycleSearch.setState_of_ne d hv, h.active v, List.mem_cons]
    simp [hv]

theorem unseen_card_finished (n : Nat) (d : CycleSearch) (node : Nat) :
    (unseen n (d.setState node .finished)).card ≤ (unseen n d).card := by
  refine Finset.card_le_card fun v hv => ?_
  obtain ⟨hv, hst⟩ := Finset.mem_filter.mp hv
  refine Finset.mem_filter.mpr ⟨hv, ?_⟩
  by_cases hvn : v = node
  · rw [hvn, CycleSearch.setState_self] at hst
    cases hst
  · rwa [CycleSearch.setState_of_ne d hvn] at hst

theorem unseen_card_setState {node : Nat} (hn : node < n) (hs : d.state node = .unseen)
    (s : NodeState) (hne : s ≠ .unseen) :
    (unseen n (d.setState node s)).card < (unseen n d).card := by
  refine Finset.card_lt_card (Finset.ssubset_iff_subset_ne.mpr ⟨fun v hv => ?_, fun heq => ?_⟩)
  · obtain ⟨hv, hst⟩ := Finset.mem_filter.mp hv
    refine Finset.mem_filter.mpr ⟨hv, ?_⟩
    by_cases hvn : v = node
    · rw [hvn]; exact hs
    · rwa [CycleSearch.setState_of_ne d hvn] at hst
  · have hmem : node ∈ unseen n d := Finset.mem_filter.mpr ⟨Finset.mem_range.mpr hn, hs⟩
    rw [← heq] at hmem
    have := (Finset.mem_filter.mp hmem).2
    rw [CycleSearch.setState_self] at this
    exact hne this

/-! ## The exit for a node without a parent edge -/

section Definitions

variable (noParent : CycleSearch → Option (Bool × CycleSearch))

/-- `visitEdges`, with `noParent` at the exit for a node without a parent edge. -/
def visitEdgesWith (edges : List (WeightedEdge α)) (emitted : Nat → Bool) (n : Nat)
    (visit : Nat → CycleSearch → Option (Bool × CycleSearch)) (node : Nat) :
    List (WeightedEdge α × Nat) → CycleSearch → Option (Bool × CycleSearch)
  | [], d => some (false, d.setState node .finished)
  | (edge, index) :: rest, d =>
    if !edge.active || edge.fromIndex != node || emitted edge.toIndex then
      visitEdgesWith edges emitted n visit node rest d
    else
      match d.state edge.toIndex with
      | .unseen =>
        match visit edge.toIndex (d.setParent edge.toIndex index) with
        | none => none
        | some (true, d') => some (true, d')
        | some (false, d') => visitEdgesWith edges emitted n visit node rest d'
      | .active =>
        match walkBack edges d.parentEdge edge.toIndex n node with
        | none => none
        | some none => noParent d
        | some (some path) => some (true, d.setCycle (index :: path))
      | .finished => visitEdgesWith edges emitted n visit node rest d

def visitWith (edges : List (WeightedEdge α)) (emitted : Nat → Bool) (n : Nat) :
    Nat → Nat → CycleSearch → Option (Bool × CycleSearch)
  | 0, _, _ => none
  | fuel + 1, node, d =>
    visitEdgesWith noParent edges emitted n (visitWith edges emitted n fuel) node edges.zipIdx
      (d.setState node .active)

def searchFromWith (edges : List (WeightedEdge α)) (emitted : Nat → Bool) (n : Nat) :
    List Nat → CycleSearch → Option (List Nat)
  | [], _ => some []
  | node :: rest, d =>
    if emitted node = false ∧ d.state node = .unseen then
      match visitWith noParent edges emitted n n node d with
      | none => none
      | some (true, d') => some d'.cycle
      | some (false, d') => searchFromWith edges emitted n rest d'
    else searchFromWith edges emitted n rest d

def findCycleEdgesWith (edges : List (WeightedEdge α)) (emitted : Nat → Bool) (n : Nat) :
    Option (List Nat) :=
  searchFromWith noParent edges emitted n (List.range n) .start

end Definitions

/-! ## The exit of the source -/

/-- What the source does at the exit. -/
def clearCycle (d : CycleSearch) : Option (Bool × CycleSearch) := some (false, d.setCycle [])

theorem visitEdgesWith_clearCycle (visit : Nat → CycleSearch → Option (Bool × CycleSearch))
    (node : Nat) (l : List (WeightedEdge α × Nat)) (d : CycleSearch) :
    visitEdgesWith clearCycle edges emitted n visit node l d =
      visitEdges edges emitted n visit node l d := by
  induction l generalizing d with
  | nil => rfl
  | cons p l ih =>
    obtain ⟨edge, index⟩ := p
    unfold visitEdgesWith visitEdges
    simp only [ih]
    rfl

theorem visitWith_clearCycle (fuel node : Nat) (d : CycleSearch) :
    visitWith clearCycle edges emitted n fuel node d = visit edges emitted n fuel node d := by
  induction fuel generalizing node d with
  | zero => rfl
  | succ fuel ih =>
    unfold visitWith visit
    rw [visitEdgesWith_clearCycle]
    congr 1
    funext v d
    exact ih v d

theorem findCycleEdgesWith_clearCycle (edges : List (WeightedEdge α)) (emitted : Nat → Bool)
    (n : Nat) : findCycleEdgesWith clearCycle edges emitted n = findCycleEdges edges emitted n := by
  unfold findCycleEdgesWith findCycleEdges
  generalize List.range n = nodes
  generalize CycleSearch.start = d
  induction nodes generalizing d with
  | nil => rfl
  | cons node nodes ih =>
    unfold searchFromWith searchFrom
    rw [visitWith_clearCycle]
    split
    · rcases visit edges emitted n n node d with _ | ⟨_ | _, d'⟩
      · rfl
      · exact ih d'
      · rfl
    · exact ih d

/-! ## What the search keeps -/

/-- A node is finished after the nodes that its active edges lead to, save the emitted ones. -/
def FinishRule (edges : List (WeightedEdge α)) (emitted : Nat → Bool) (before : List Nat)
    (node : Nat) : Prop :=
  ∀ e ∈ edges, e.active = true → e.fromIndex = node → emitted e.toIndex = false →
    e.toIndex ∈ before

/-- The finished nodes in the order in which they were finished. -/
structure Finished (edges : List (WeightedEdge α)) (emitted : Nat → Bool) (n : Nat)
    (d : CycleSearch) (fin : List Nat) : Prop where
  mem : ∀ v, d.state v = .finished ↔ v ∈ fin
  nodup : fin.Nodup
  new : ∀ v ∈ fin, v < n ∧ emitted v = false
  rule : History.Justified (FinishRule edges emitted) fin

/-- A cycle of active edges between nodes that are not emitted. -/
structure CycleAmong (edges : List (WeightedEdge α)) (emitted : Nat → Bool) (cycle : List Nat) :
    Prop where
  isCycle : IsCycle edges cycle
  new : ∀ index ∈ cycle, ∃ edge, edges[index]? = some edge ∧ emitted edge.fromIndex = false ∧
    emitted edge.toIndex = false

/-- What a visit of `node` leaves: a cycle, or the same path, with `node` finished. -/
structure Explored (edges : List (WeightedEdge α)) (emitted : Nat → Bool) (n : Nat)
    (d : CycleSearch) (path fin : List Nat) (node : Nat) (r : Bool × CycleSearch) : Prop where
  found : r.1 = true → CycleAmong edges emitted r.2.cycle
  path : r.1 = false → OnPath edges n r.2 path
  finished : r.1 = false → ∃ fin', Finished edges emitted n r.2 fin' ∧ fin ⊆ fin' ∧ node ∈ fin'
  unseen : r.1 = false → (unseen n r.2).card ≤ (unseen n d).card

theorem walkBack_mem {parentEdge : Nat → Option Nat} {target : Nat} (d : CycleSearch)
    (hd : d.parentEdge = parentEdge) :
    ∀ (path : List Nat) (fuel current : Nat) (walk : List Nat),
      (current :: path).IsChain (Reached edges d) → target ∈ current :: path →
      walkBack edges parentEdge target fuel current = some (some walk) →
      ∀ index ∈ walk, ∃ edge, edges[index]? = some edge ∧ edge.fromIndex ∈ path ∧
        edge.toIndex ∈ current :: path := by
  intro path
  induction path with
  | nil =>
    intro fuel current walk _ hmem hwalk index hindex
    obtain rfl := List.mem_singleton.mp hmem
    cases fuel <;> simp [walkBack] at hwalk <;> simp [hwalk] at hindex
  | cons u path ih =>
    intro fuel current walk hchain hmem hwalk index hindex
    by_cases hc : current = target
    · cases fuel <;> simp [walkBack, hc] at hwalk <;> simp [hwalk] at hindex
    · obtain ⟨⟨i, edge, hparent, hget, _, hfrom, hto⟩, hrest⟩ := List.isChain_cons_cons.mp hchain
      have hmem' : target ∈ u :: path := (List.mem_cons.mp hmem).resolve_left (Ne.symm hc)
      cases fuel with
      | zero => simp [walkBack, hc] at hwalk
      | succ fuel =>
        rw [hd] at hparent
        simp only [walkBack, if_neg hc, hparent, hget] at hwalk
        obtain ⟨inner, hinner, hmap⟩ := Option.map_eq_some_iff.mp hwalk
        obtain ⟨walk', rfl, rfl⟩ := Option.map_eq_some_iff.mp hmap
        rcases List.mem_cons.mp hindex with rfl | hindex
        · exact ⟨edge, hget, by simp [hfrom], by simp [hto]⟩
        · obtain ⟨edge', hget', hfrom', hto'⟩ :=
            ih fuel u walk' hrest hmem' (hfrom ▸ hinner) index hindex
          exact ⟨edge', hget', List.mem_cons_of_mem _ hfrom', List.mem_cons_of_mem _ hto'⟩

theorem Finished.of_not_finished (h : Finished edges emitted n d fin) {d' : CycleSearch}
    (hstate : ∀ v, d'.state v = .finished ↔ d.state v = .finished) :
    Finished edges emitted n d' fin :=
  ⟨fun v => (hstate v).trans (h.mem v), h.nodup, h.new, h.rule⟩

/-- A node on the path whose edges have all been followed is finished. -/
theorem Finished.finish (h : Finished edges emitted n d fin) {node : Nat}
    (hactive : d.state node = .active) (hn : node < n) (hnew : emitted node = false)
    (hrule : FinishRule edges emitted fin node) :
    Finished edges emitted n (d.setState node .finished) (fin ++ [node]) := by
  have hnot : node ∉ fin := fun hmem => by
    rw [← h.mem, hactive] at hmem
    cases hmem
  refine ⟨fun v => ?_, ?_, fun v hv => ?_, h.rule.concat hrule⟩
  · rw [List.mem_append, List.mem_singleton]
    by_cases hv : v = node
    · rw [hv, CycleSearch.setState_self]
      simp
    · rw [CycleSearch.setState_of_ne d hv, h.mem v]
      simp [hv]
  · exact List.nodup_append.mpr ⟨h.nodup, List.nodup_singleton _, fun a ha b hb => by
      rintro rfl
      exact hnot (List.mem_singleton.mp hb ▸ ha)⟩
  · rcases List.mem_append.mp hv with hv | hv
    · exact h.new v hv
    · rw [List.mem_singleton.mp hv]
      exact ⟨hn, hnew⟩

/-- The edges followed so far lead to finished nodes. -/
def Followed (emitted : Nat → Bool) (node : Nat) (fin : List Nat)
    (done : List (WeightedEdge α × Nat)) : Prop :=
  ∀ p ∈ done, p.1.active = true → p.1.fromIndex = node → emitted p.1.toIndex = false →
    p.1.toIndex ∈ fin

theorem Followed.mono {node : Nat} {fin fin' : List Nat} {done : List (WeightedEdge α × Nat)}
    (h : Followed emitted node fin done) (hsub : fin ⊆ fin') : Followed emitted node fin' done :=
  fun p hp hact hfrom hnew => hsub (h p hp hact hfrom hnew)

theorem Followed.concat {node : Nat} {fin : List Nat} {done : List (WeightedEdge α × Nat)}
    {p : WeightedEdge α × Nat} (h : Followed emitted node fin done)
    (hp : p.1.active = true → p.1.fromIndex = node → emitted p.1.toIndex = false →
      p.1.toIndex ∈ fin) : Followed emitted node fin (done ++ [p]) := by
  intro q hq
  rcases List.mem_append.mp hq with hq | hq
  · exact h q hq
  · rw [List.mem_singleton.mp hq]
    exact hp

theorem visitEdgesWith_spec {fuel node : Nat}
    (hbound : ∀ e ∈ edges, e.toIndex < n)
    (hvisit : ∀ (v : Nat) (d : CycleSearch) (path fin : List Nat), OnPath edges n d path →
      (∀ u ∈ path, emitted u = false) → Finished edges emitted n d fin →
      d.state v = .unseen → v < n → emitted v = false → (∀ u ∈ path.head?, Reached edges d v u) →
      (unseen n d).card ≤ fuel →
      ∃ r, (∀ noParent, visitWith noParent edges emitted n fuel v d = some r) ∧
        Explored edges emitted n d path fin v r) :
    ∀ (l done : List (WeightedEdge α × Nat)), edges.zipIdx = done ++ l →
      ∀ (d : CycleSearch) (fin : List Nat), OnPath edges n d (node :: path) →
      (∀ u ∈ node :: path, emitted u = false) → Finished edges emitted n d fin →
      Followed emitted node fin done → (unseen n d).card ≤ fuel →
      ∃ r, (∀ noParent, visitEdgesWith noParent edges emitted n
          (visitWith noParent edges emitted n fuel) node l d = some r) ∧
        Explored edges emitted n d path fin node r := by
  intro l
  induction l with
  | nil =>
    intro done hdone d fin hd hnew hfin hfollowed _
    have hactive : d.state node = .active := (hd.active node).mpr (by simp)
    have hrule : FinishRule edges emitted fin node := fun e he hact hfrom hto => by
      obtain ⟨i, hi⟩ := List.mem_iff_getElem?.mp he
      have hmem : (e, i) ∈ edges.zipIdx := List.mem_zipIdx_iff_getElem?.mpr hi
      rw [hdone, List.append_nil] at hmem
      exact hfollowed _ hmem hact hfrom hto
    refine ⟨_, fun _ => rfl, nofun, fun _ => hd.pop, fun _ => ⟨_, hfin.finish hactive
      (hd.bound node (by simp)) (hnew node (by simp)) hrule, by simp, by simp⟩,
      fun _ => unseen_card_finished n d node⟩
  | cons p l ih =>
    obtain ⟨edge, index⟩ := p
    intro done hdone d fin hd hnew hfin hfollowed hcard
    have hdone' : edges.zipIdx = (done ++ [(edge, index)]) ++ l := by simp [hdone]
    have hget : edges[index]? = some edge := by
      have hmem : (edge, index) ∈ edges.zipIdx := by simp [hdone]
      simpa using List.mem_zipIdx_iff_getElem?.mp hmem
    by_cases hskip : (!edge.active || edge.fromIndex != node || emitted edge.toIndex) = true
    · have hfollowed' : Followed emitted node fin (done ++ [(edge, index)]) :=
        hfollowed.concat fun hact hfrom hto => by
          dsimp only at hact hfrom hto
          simp [hact, hfrom, hto] at hskip
      obtain ⟨r, hr, hres⟩ := ih _ hdone' d fin hd hnew hfin hfollowed' hcard
      refine ⟨r, fun noParent => ?_, hres⟩
      unfold visitEdgesWith
      rw [if_pos hskip]
      exact hr noParent
    have hnskip := hskip
    simp only [Bool.or_eq_true, Bool.not_eq_eq_eq_not, Bool.not_true, bne_iff_ne, ne_eq, not_or,
      Bool.not_eq_false, not_not, Bool.not_eq_true] at hnskip
    obtain ⟨⟨hact, hfrom⟩, hto⟩ := hnskip
    have hton : edge.toIndex < n := hbound edge (List.mem_of_getElem? hget)
    cases hstate : d.state edge.toIndex with
    | unseen =>
      have hreach : Reached edges (d.setParent edge.toIndex index) edge.toIndex node :=
        ⟨index, edge, Function.update_self .., hget, hact, hfrom, rfl⟩
      obtain ⟨⟨found, d'⟩, hr, hres⟩ := hvisit edge.toIndex _ (node :: path) fin
        (hd.setParent hstate index) hnew
        (hfin.of_not_finished fun _ => Iff.rfl) hstate hton hto
        (fun u hu => by cases hu; exact hreach) hcard
      cases found with
      | true =>
        refine ⟨_, fun noParent => ?_, hres.found, nofun, nofun, nofun⟩
        unfold visitEdgesWith
        rw [if_neg hskip, hstate]
        dsimp only
        rw [hr noParent]
      | false =>
        obtain ⟨fin', hfin', hsub, hmem⟩ := hres.finished rfl
        have hfollowed' : Followed emitted node fin' (done ++ [(edge, index)]) :=
          (hfollowed.mono hsub).concat fun _ _ _ => hmem
        obtain ⟨r, hr', hres'⟩ := ih _ hdone' d' fin' (hres.path rfl) hnew hfin' hfollowed'
          ((hres.unseen rfl).trans hcard)
        refine ⟨r, fun noParent => ?_, hres'.found, hres'.path, fun hf => ?_,
          fun hf => (hres'.unseen hf).trans (hres.unseen rfl)⟩
        · unfold visitEdgesWith
          rw [if_neg hskip, hstate]
          dsimp only
          rw [hr noParent]
          exact hr' noParent
        · obtain ⟨fin'', hfin'', hsub', hmem'⟩ := hres'.finished hf
          exact ⟨fin'', hfin'', List.Subset.trans hsub hsub', hmem'⟩
    | active =>
      have honpath := (hd.active _).mp hstate
      obtain ⟨walk, hwalk, hback⟩ := walkBack_spec d rfl path n node
        (by have := hd.length_le; simp at this; omega) hd.linked honpath
      refine ⟨(true, d.setCycle (index :: walk)), fun noParent => ?_, fun _ => ⟨⟨index, edge, walk,
        rfl, hget, hact, hfrom ▸ hback⟩, fun i hi => ?_⟩, nofun, nofun, nofun⟩
      · unfold visitEdgesWith
        rw [if_neg hskip, hstate]
        dsimp only
        rw [hwalk]
      · rcases List.mem_cons.mp hi with rfl | hi
        · exact ⟨edge, hget, hfrom ▸ hnew node (by simp), hto⟩
        · obtain ⟨e, he, hefrom, heto⟩ := walkBack_mem d rfl path n node walk hd.linked honpath
            hwalk i hi
          exact ⟨e, he, hnew _ (List.mem_cons_of_mem _ hefrom), hnew _ heto⟩
    | finished =>
      have hfollowed' : Followed emitted node fin (done ++ [(edge, index)]) :=
        hfollowed.concat fun _ _ _ => (hfin.mem _).mp hstate
      obtain ⟨r, hr, hres⟩ := ih _ hdone' d fin hd hnew hfin hfollowed' hcard
      refine ⟨r, fun noParent => ?_, hres⟩
      unfold visitEdgesWith
      rw [if_neg hskip, hstate]
      exact hr noParent

theorem visitWith_spec (hbound : ∀ e ∈ edges, e.toIndex < n) (fuel : Nat) :
    ∀ (v : Nat) (d : CycleSearch) (path fin : List Nat), OnPath edges n d path →
      (∀ u ∈ path, emitted u = false) → Finished edges emitted n d fin →
      d.state v = .unseen → v < n → emitted v = false → (∀ u ∈ path.head?, Reached edges d v u) →
      (unseen n d).card ≤ fuel →
      ∃ r, (∀ noParent, visitWith noParent edges emitted n fuel v d = some r) ∧
        Explored edges emitted n d path fin v r := by
  induction fuel with
  | zero =>
    intro v d path fin _ _ _ hstate hv _ _ hcard
    have hmem : v ∈ unseen n d := Finset.mem_filter.mpr ⟨Finset.mem_range.mpr hv, hstate⟩
    have := Finset.card_pos.mpr ⟨v, hmem⟩
    omega
  | succ fuel ih =>
    intro v d path fin hd hnew hfin hstate hv hvnew hlink hcard
    have hlt := unseen_card_setState hv hstate .active nofun
    have hfin' : Finished edges emitted n (d.setState v .active) fin := by
      refine hfin.of_not_finished fun u => ?_
      by_cases hu : u = v
      · rw [hu, CycleSearch.setState_self, hstate]
        simp
      · rw [CycleSearch.setState_of_ne d hu]
    have hnew' : ∀ u ∈ v :: path, emitted u = false := fun u hu => by
      rcases List.mem_cons.mp hu with rfl | hu
      · exact hvnew
      · exact hnew u hu
    obtain ⟨r, hr, hres⟩ := visitEdgesWith_spec hbound ih edges.zipIdx [] (by simp)
      (d.setState v .active) fin (hd.push hstate hv hlink) hnew' hfin' (fun p hp => by cases hp)
      (by omega)
    exact ⟨r, hr, hres.found, hres.path, hres.finished, fun hf => (hres.unseen hf).trans hlt.le⟩

/-- **The cycle search is complete.** It never leaves by the exit. It finds a cycle of active edges
between nodes that are not emitted, or it lists these nodes so that their active edges lead to
nodes further left. -/
theorem findCycleEdgesWith_spec (hbound : ∀ e ∈ edges, e.toIndex < n) (emitted : Nat → Bool) :
    ∃ cycle, (∀ noParent, findCycleEdgesWith noParent edges emitted n = some cycle) ∧
      (CycleAmong edges emitted cycle ∨ cycle = [] ∧ ∃ fin : List Nat, fin.Nodup ∧
        (∀ v ∈ fin, v < n ∧ emitted v = false) ∧ History.Justified (FinishRule edges emitted) fin ∧
        ∀ v < n, emitted v = false → v ∈ fin) := by
  have hsearch : ∀ (nodes : List Nat) (d : CycleSearch) (fin : List Nat), (∀ v ∈ nodes, v < n) →
      OnPath edges n d [] → Finished edges emitted n d fin →
      ∃ cycle, (∀ noParent, searchFromWith noParent edges emitted n nodes d = some cycle) ∧
        (CycleAmong edges emitted cycle ∨ cycle = [] ∧ ∃ fin' : List Nat, fin'.Nodup ∧ fin ⊆ fin' ∧
          (∀ v ∈ fin', v < n ∧ emitted v = false) ∧
          History.Justified (FinishRule edges emitted) fin' ∧
          ∀ v ∈ nodes, emitted v = false → v ∈ fin') := by
    intro nodes
    induction nodes with
    | nil =>
      intro d fin _ _ hfin
      exact ⟨[], fun _ => rfl, .inr ⟨rfl, fin, hfin.nodup, fun _ h => h, hfin.new, hfin.rule,
        by simp⟩⟩
    | cons v nodes ih =>
      intro d fin hv hd hfin
      have hv' : ∀ u ∈ nodes, u < n := fun u hu => hv u (List.mem_cons_of_mem _ hu)
      have hvn : v < n := hv v (by simp)
      by_cases hnew : emitted v = false ∧ d.state v = .unseen
      · have hcard : (unseen n d).card ≤ n := by
          calc (unseen n d).card ≤ (Finset.range n).card := Finset.card_filter_le _ _
            _ = n := Finset.card_range n
        obtain ⟨⟨found, d'⟩, hr, hres⟩ := visitWith_spec hbound n v d [] fin hd (by simp) hfin
          hnew.2 hvn hnew.1 nofun hcard
        cases found with
        | true =>
          refine ⟨d'.cycle, fun noParent => ?_, .inl (hres.found rfl)⟩
          unfold searchFromWith
          rw [if_pos hnew, hr noParent]
        | false =>
          obtain ⟨fin', hfin', hsub, hmem⟩ := hres.finished rfl
          obtain ⟨cycle, hcycle, hor⟩ := ih d' fin' hv' (hres.path rfl) hfin'
          refine ⟨cycle, fun noParent => ?_, hor.imp_right ?_⟩
          · unfold searchFromWith
            rw [if_pos hnew, hr noParent]
            exact hcycle noParent
          · rintro ⟨rfl, fin'', hnodup, hsub', hall, hrule, hmem'⟩
            refine ⟨rfl, fin'', hnodup, List.Subset.trans hsub hsub', hall, hrule, fun u hu hun => ?_⟩
            rcases List.mem_cons.mp hu with rfl | hu
            · exact hsub' hmem
            · exact hmem' u hu hun
      · obtain ⟨cycle, hcycle, hor⟩ := ih d fin hv' hd hfin
        refine ⟨cycle, fun noParent => ?_, hor.imp_right ?_⟩
        · unfold searchFromWith
          rw [if_neg hnew]
          exact hcycle noParent
        · rintro ⟨rfl, fin', hnodup, hsub, hall, hrule, hmem⟩
          refine ⟨rfl, fin', hnodup, hsub, hall, hrule, fun u hu hun => ?_⟩
          rcases List.mem_cons.mp hu with rfl | hu
          · refine hsub ((hfin.mem u).mp ?_)
            -- no node is on the path between two visits
            cases hst : d.state u with
            | unseen => exact absurd ⟨hun, hst⟩ hnew
            | active => simpa using (hd.active u).mp hst
            | finished => rfl
          · exact hmem u hu hun
  obtain ⟨cycle, hcycle, hor⟩ := hsearch (List.range n) .start []
    (fun v hv => List.mem_range.mp hv)
    ⟨fun v => by simp [CycleSearch.start], List.nodup_nil, nofun, List.isChain_nil⟩
    ⟨fun v => by simp [CycleSearch.start], List.nodup_nil, nofun, .nil⟩
  refine ⟨cycle, hcycle, hor.imp_right ?_⟩
  rintro ⟨hnil, fin, hnodup, -, hall, hrule, hmem⟩
  exact ⟨hnil, fin, hnodup, hall, hrule, fun v hv => hmem v (List.mem_range.mpr hv)⟩

/-- **The cycle search** ends, and what it returns is empty or a cycle of active edges. -/
theorem findCycleEdges_spec (hbound : ∀ e ∈ edges, e.toIndex < n) (emitted : Nat → Bool) :
    ∃ cycle, findCycleEdges edges emitted n = some cycle ∧
      (cycle = [] ∨ IsCycle edges cycle) := by
  obtain ⟨cycle, hcycle, hor⟩ := findCycleEdgesWith_spec hbound emitted
  refine ⟨cycle, ?_, ?_⟩
  · rw [← findCycleEdgesWith_clearCycle]
    exact hcycle clearCycle
  · rcases hor with hcyc | ⟨hnil, -⟩
    · exact Or.inr hcyc.isCycle
    · exact Or.inl hnil

/-- When every node that is not emitted has an active edge from such a node, there is a cycle. -/
theorem findCycleEdgesWith_cycle (hbound : ∀ e ∈ edges, e.toIndex < n) {v₀ : Nat} (hv₀ : v₀ < n)
    (hnew : emitted v₀ = false)
    (hin : ∀ v < n, emitted v = false → ∃ e ∈ edges, e.active = true ∧ e.toIndex = v ∧
      e.fromIndex < n ∧ emitted e.fromIndex = false) :
    ∃ cycle, (∀ noParent, findCycleEdgesWith noParent edges emitted n = some cycle) ∧
      CycleAmong edges emitted cycle := by
  obtain ⟨cycle, hcycle, hor⟩ := findCycleEdgesWith_spec hbound emitted
  rcases hor with hcyc | ⟨-, fin, hnodup, hall, hrule, hmem⟩
  · exact ⟨cycle, hcycle, hcyc⟩
  · -- the node finished last would have been finished before the source of an edge into it
    rcases List.eq_nil_or_concat fin with rfl | ⟨front, w, rfl⟩
    · exact absurd (hmem v₀ hv₀ hnew) (by simp)
    · rw [List.concat_eq_append] at hnodup hall hrule hmem
      obtain ⟨hwn, hwnew⟩ := hall w (by simp)
      obtain ⟨e, he, hact, hto, hfromn, hfromnew⟩ := hin w hwn hwnew
      obtain ⟨pre, post, hsplit⟩ := List.append_of_mem (hmem e.fromIndex hfromn hfromnew)
      have hpre : w ∈ pre := hto ▸ hrule pre e.fromIndex post hsplit e he hact rfl (hto ▸ hwnew)
      exfalso
      rcases List.eq_nil_or_concat post with rfl | ⟨post', x, rfl⟩
      · obtain ⟨rfl, -⟩ := List.append_inj' hsplit rfl
        exact (List.nodup_append.mp hnodup).2.2 w hpre w (by simp) rfl
      · rw [List.concat_eq_append, ← List.cons_append, ← List.append_assoc] at hsplit
        have hfront := (List.append_inj' hsplit rfl).1
        refine (List.nodup_append.mp hnodup).2.2 w ?_ w (by simp) rfl
        rw [hfront]
        exact List.mem_append_left _ hpre

end DocParser.ReadingOrder
