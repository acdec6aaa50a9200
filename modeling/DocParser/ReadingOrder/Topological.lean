import DocParser.ReadingOrder.Columns
import DocParser.ReadingOrder.CycleSearch

/-!
# Topological order with cycle breaking

The elements of a band are nodes, and weighted edges say which one comes first. Nodes without
an incoming edge are emitted in the stable order of `comesBefore`; when there is none, a depth
first search finds a cycle and the weakest edge of it is removed. The loops of the source run on
fuel, and `none` is a run that does not end or reads outside of a list.
`stableTopologicalOrder_spec` shows that this never happens and that every node is emitted exactly
once.
-/

namespace DocParser.ReadingOrder

open Document

section Definitions

variable {α : Type} [Double α]

/-- The first edge between two nodes; a later one only replaces it with a higher confidence. -/
def addEdge (edges : List (WeightedEdge α)) (fromIndex toIndex : Nat) (confidence : α)
    (reason : String) : List (WeightedEdge α) :=
  if fromIndex = toIndex then edges
  else
    let same (e : WeightedEdge α) := e.fromIndex == fromIndex && e.toIndex == toIndex
    match edges.findIdx? same with
    | some index => edges.modify index fun e =>
        if e.confidence < confidence then { e with confidence := confidence, reason := reason }
        else e
    | none => edges ++ [⟨fromIndex, toIndex, confidence, reason, true⟩]

def rangeAt (ranges : List ColumnRange) (index : Nat) : ColumnRange := ranges.getD index ⟨0, 0⟩

def comesBefore (elements : List (PageElement α)) (ranges : List ColumnRange)
    (columnCount lhs rhs : Nat) : Bool :=
  if 1 < columnCount ∧ (rangeAt ranges lhs).first ≠ (rangeAt ranges rhs).first then
    decide ((rangeAt ranges lhs).first < (rangeAt ranges rhs).first)
  else positionLess (elementAt elements lhs) (elementAt elements rhs)

end Definitions

/-! ## Emission -/

section Order

variable {α : Type} [Double α]

/-- The scan for the next node takes an index that is ready and comes before the best one. -/
def nextNode (less : Nat → Nat → Bool) (ready : Nat → Bool) (next : Option Nat) (index : Nat) :
    Option Nat :=
  match ready index, next with
  | false, next => next
  | true, none => some index
  | true, some best => if less index best then some index else some best

/-- The first node below `n` in the order of `less` among those that are ready. -/
def bestNode (less : Nat → Nat → Bool) (n : Nat) (ready : Nat → Bool) : Option Nat :=
  (List.range n).foldl (nextNode less ready) none

/-- `std::tie(confidence, reason, from, to)` compared. -/
def edgeLess (a b : WeightedEdge α) : Bool :=
  if a.confidence < b.confidence then true
  else if b.confidence < a.confidence then false
  else if a.reason < b.reason then true
  else if b.reason < a.reason then false
  else if a.fromIndex < b.fromIndex then true
  else if b.fromIndex < a.fromIndex then false
  else decide (a.toIndex < b.toIndex)

def weakerEdge (edges : List (WeightedEdge α)) (weakest : Option (Nat × WeightedEdge α))
    (index : Nat) : Option (Nat × WeightedEdge α) :=
  match edges[index]?, weakest with
  | none, weakest => weakest
  | some edge, none => some (index, edge)
  | some edge, some w => if edgeLess edge w.2 then some (index, edge) else some w

/-- The weakest edge of a cycle, with its index. -/
def weakestEdge (edges : List (WeightedEdge α)) (cycle : List Nat) :
    Option (Nat × WeightedEdge α) :=
  cycle.foldl (weakerEdge edges) none

structure TopologicalState (α : Type) where
  edges : List (WeightedEdge α)
  indegree : Nat → Int
  emitted : Nat → Bool
  order : List Nat
  breaks : List (ReadingOrderCycleBreak α)

namespace TopologicalState

variable (s : TopologicalState α)

/-- Emits a node; the edges that leave it no longer count. -/
def emit (next : Nat) : TopologicalState α :=
  let emitted := Function.update s.emitted next true
  { s with
    emitted := emitted
    order := s.order ++ [next]
    indegree := s.edges.foldl (fun indegree edge =>
      if edge.active && edge.fromIndex == next && !emitted edge.toIndex then
        Function.update indegree edge.toIndex (indegree edge.toIndex - 1)
      else indegree) s.indegree }

/-- Removes an edge and records it. -/
def breakEdge (elements : List (PageElement α)) (index : Nat) (edge : WeightedEdge α) :
    TopologicalState α :=
  { s with
    edges := s.edges.modify index fun e => { e with active := false }
    indegree := Function.update s.indegree edge.toIndex (s.indegree edge.toIndex - 1)
    breaks := s.breaks ++ [⟨(elementAt elements edge.fromIndex).block.id,
      (elementAt elements edge.toIndex).block.id, edge.reason, edge.confidence⟩] }

/-- One round of the loop. -/
def step (elements : List (PageElement α)) (ranges : List ColumnRange) (columnCount : Nat) :
    Option (TopologicalState α) :=
  let n := elements.length
  let less := comesBefore elements ranges columnCount
  match bestNode less n fun i => !s.emitted i && s.indegree i == 0 with
  | some next => some (s.emit next)
  | none =>
    match findCycleEdges s.edges s.emitted n with
    | none => none
    | some cycle =>
      match weakestEdge s.edges cycle with
      | some (index, edge) => some (s.breakEdge elements index edge)
      | none => (bestNode less n fun i => !s.emitted i).map s.emit

end TopologicalState

def topologicalLoop (elements : List (PageElement α)) (ranges : List ColumnRange)
    (columnCount : Nat) : Nat → TopologicalState α → Option (TopologicalState α)
  | fuel, s =>
    if s.order.length < elements.length then
      match fuel with
      | 0 => none
      | fuel + 1 =>
        match s.step elements ranges columnCount with
        | none => none
        | some s' => topologicalLoop elements ranges columnCount fuel s'
    else some s

/-- The order, and the cycle breaks that were recorded. -/
def stableTopologicalOrder (elements : List (PageElement α)) (ranges : List ColumnRange)
    (columnCount : Nat) (edges : List (WeightedEdge α)) :
    Option (List Nat × List (ReadingOrderCycleBreak α)) :=
  let start : TopologicalState α :=
    { edges := edges
      indegree := fun node => edges.countP fun e => e.toIndex == node
      emitted := fun _ => false
      order := []
      breaks := [] }
  (topologicalLoop elements ranges columnCount (elements.length + edges.length) start).map
    fun s => (s.order, s.breaks)

/-! ### Every node is emitted once -/

theorem bestNode_some {less : Nat → Nat → Bool} {n : Nat} {ready : Nat → Bool} {next : Nat}
    (h : bestNode less n ready = some next) : next < n ∧ ready next = true := by
  have hinv : ∀ b ∈ bestNode less n ready, b < n ∧ ready b = true := by
    unfold bestNode
    refine List.foldlRecOn (motive := fun best => ∀ b ∈ best, b < n ∧ ready b = true)
      (List.range n) (nextNode less ready) nofun fun best hbest i hi b hb => ?_
    have hin : i < n := List.mem_range.mp hi
    unfold nextNode at hb
    cases hready : ready i with
    | false => rw [hready] at hb; exact hbest b hb
    | true =>
      rw [hready] at hb
      cases best with
      | none => cases hb; exact ⟨hin, hready⟩
      | some c =>
        dsimp only at hb
        split_ifs at hb
        · cases hb; exact ⟨hin, hready⟩
        · exact hbest b hb
  exact hinv next h

theorem nextNode_isSome {less : Nat → Nat → Bool} {ready : Nat → Bool} {next : Option Nat}
    {i : Nat} (h : next.isSome = true ∨ ready i = true) :
    (nextNode less ready next i).isSome = true := by
  unfold nextNode
  split
  · exact h.resolve_right (by simp_all)
  · rfl
  · split_ifs <;> rfl

theorem bestNode_isSome {less : Nat → Nat → Bool} {n : Nat} {ready : Nat → Bool} {i : Nat}
    (hi : i < n) (hready : ready i = true) : (bestNode less n ready).isSome = true := by
  unfold bestNode
  obtain ⟨pre, post, hsplit⟩ := List.append_of_mem (List.mem_range.mpr hi)
  rw [hsplit, List.foldl_append, List.foldl_cons]
  exact List.foldlRecOn (motive := fun best => best.isSome = true) post (nextNode less ready)
    (nextNode_isSome (Or.inr hready)) fun best hbest j _ => nextNode_isSome (Or.inl hbest)

/-- The weakest edge of a cycle is one of its edges. -/
theorem weakestEdge_some {edges : List (WeightedEdge α)} {cycle : List Nat} {index : Nat}
    {edge : WeightedEdge α} (h : weakestEdge edges cycle = some (index, edge)) :
    index ∈ cycle ∧ edges[index]? = some edge := by
  have hinv : ∀ p ∈ weakestEdge edges cycle, p.1 ∈ cycle ∧ edges[p.1]? = some p.2 := by
    unfold weakestEdge
    have hnone : ∀ p ∈ (none : Option (Nat × WeightedEdge α)),
        p.1 ∈ cycle ∧ edges[p.1]? = some p.2 := fun p hp => by cases hp
    refine List.foldlRecOn (motive := fun weakest => ∀ p ∈ weakest,
      p.1 ∈ cycle ∧ edges[p.1]? = some p.2) cycle (weakerEdge edges) hnone
      fun weakest hweak i hi p hp => ?_
    unfold weakerEdge at hp
    cases hget : edges[i]? with
    | none => rw [hget] at hp; exact hweak p hp
    | some e =>
      rw [hget] at hp
      cases weakest with
      | none => cases hp; exact ⟨hi, hget⟩
      | some w =>
        dsimp only at hp
        split_ifs at hp
        · cases hp; exact ⟨hi, hget⟩
        · exact hweak p hp
  exact hinv (index, edge) h

structure TopologicalInv (n : Nat) (s : TopologicalState α) : Prop where
  nodup : s.order.Nodup
  bound : ∀ i ∈ s.order, i < n
  emitted : ∀ i, s.emitted i = true ↔ i ∈ s.order
  edges : ∀ e ∈ s.edges, e.toIndex < n

/-- What is left to do: nodes to emit and edges to remove. -/
def TopologicalState.remaining (n : Nat) (s : TopologicalState α) : Nat :=
  (n - s.order.length) + s.edges.countP (·.active)

omit [Double α] in
theorem TopologicalInv.emit {n : Nat} {s : TopologicalState α} (h : TopologicalInv n s)
    {next : Nat} (hn : next < n) (hnew : s.emitted next = false) :
    TopologicalInv n (s.emit next) := by
  have hnot : next ∉ s.order := fun hmem => by
    rw [← h.emitted, hnew] at hmem
    cases hmem
  refine ⟨?_, fun i hi => ?_, fun i => ?_, h.edges⟩
  · exact List.nodup_append.mpr ⟨h.nodup, List.nodup_singleton _, fun a ha b hb => by
      rintro rfl
      exact hnot (List.mem_singleton.mp hb ▸ ha)⟩
  · rcases List.mem_append.mp hi with hi | hi
    · exact h.bound i hi
    · rw [List.mem_singleton.mp hi]; exact hn
  · show Function.update s.emitted next true i = true ↔ i ∈ s.order ++ [next]
    rw [List.mem_append, List.mem_singleton]
    by_cases hi : i = next
    · simp [hi]
    · rw [Function.update_of_ne hi, h.emitted]
      simp [hi]

omit [Double α] in
/-- Once the order is full, every node is in it. -/
theorem TopologicalInv.perm {n : Nat} {s : TopologicalState α} (h : TopologicalInv n s)
    (hlen : ¬ s.order.length < n) : s.order.Perm (List.range n) := by
  have hsub : s.order.Subperm (List.range n) :=
    List.subperm_of_subset h.nodup fun i hi => List.mem_range.mpr (h.bound i hi)
  refine hsub.perm_of_length_le ?_
  rw [List.length_range]
  omega

omit [Double α] in
/-- Before, some node is left. -/
theorem TopologicalInv.exists_left {n : Nat} {s : TopologicalState α} (h : TopologicalInv n s)
    (hleft : s.order.length < n) : ∃ i < n, s.emitted i = false := by
  by_contra hall
  push Not at hall
  have hsub : (List.range n).Subperm s.order :=
    List.subperm_of_subset List.nodup_range fun i hi =>
      (h.emitted i).mp (by simpa using hall i (List.mem_range.mp hi))
  have := hsub.length_le
  rw [List.length_range] at this
  omega

omit [Double α] in
theorem TopologicalState.remaining_emit {n : Nat} {s : TopologicalState α}
    (hleft : s.order.length < n) (next : Nat) : (s.emit next).remaining n < s.remaining n := by
  show (n - (s.order ++ [next]).length) + s.edges.countP _ <
    (n - s.order.length) + s.edges.countP _
  rw [List.length_append, List.length_singleton]
  omega

theorem countP_modify {τ : Type} {p : τ → Bool} {f : τ → τ} {l : List τ} {i : Nat} {x : τ}
    (h : l[i]? = some x) :
    (l.modify i f).countP p + (if p x then 1 else 0) = l.countP p + (if p (f x) then 1 else 0) := by
  induction l generalizing i with
  | nil => simp at h
  | cons y l ih =>
    cases i with
    | zero =>
      obtain rfl : y = x := by simpa using h
      simp only [List.modify_zero_cons, List.countP_cons]
      omega
    | succ i =>
      have := ih (i := i) (by simpa using h)
      simp only [List.modify_succ_cons, List.countP_cons]
      omega

theorem TopologicalState.remaining_breakEdge {n : Nat} {s : TopologicalState α}
    (elements : List (PageElement α)) {index : Nat} {edge : WeightedEdge α}
    (hget : s.edges[index]? = some edge) (hact : edge.active = true) :
    (s.breakEdge elements index edge).remaining n < s.remaining n := by
  show (n - s.order.length) + (s.edges.modify index _).countP _ <
    (n - s.order.length) + s.edges.countP _
  have := countP_modify (p := (·.active)) (f := fun e => { e with active := false }) hget
  simp only [hact, if_true, Bool.false_eq_true, if_false] at this
  omega

/-- **One round** keeps the invariant and leaves less to do. -/
theorem TopologicalInv.step {elements : List (PageElement α)} {s : TopologicalState α}
    (h : TopologicalInv elements.length s) (ranges : List ColumnRange) (columnCount : Nat)
    (hleft : s.order.length < elements.length) :
    ∃ s', s.step elements ranges columnCount = some s' ∧
      TopologicalInv elements.length s' ∧
      s'.remaining elements.length < s.remaining elements.length := by
  have hemit : ∀ next, next < elements.length → s.emitted next = false →
      TopologicalInv elements.length (s.emit next) ∧
        (s.emit next).remaining elements.length < s.remaining elements.length :=
    fun next hn hnew => ⟨h.emit hn hnew, TopologicalState.remaining_emit hleft next⟩
  unfold TopologicalState.step
  dsimp only
  cases hbest : bestNode (comesBefore elements ranges columnCount) elements.length
      fun i => !s.emitted i && s.indegree i == 0 with
  | some next =>
    obtain ⟨hn, hready⟩ := bestNode_some hbest
    simp only [Bool.and_eq_true, Bool.not_eq_eq_eq_not, Bool.not_true] at hready
    obtain ⟨hinv, hlt⟩ := hemit next hn hready.1
    exact ⟨_, rfl, hinv, hlt⟩
  | none =>
    obtain ⟨cycle, hcycle, hor⟩ := findCycleEdges_spec h.edges s.emitted
    dsimp only
    rw [hcycle]
    dsimp only
    cases hweak : weakestEdge s.edges cycle with
    | some p =>
      obtain ⟨index, edge⟩ := p
      obtain ⟨hmem, hget⟩ := weakestEdge_some hweak
      have hact : edge.active = true := by
        rcases hor with rfl | hcyc
        · cases hmem
        · obtain ⟨edge', hget', hact'⟩ := hcyc.edge_active index hmem
          rw [hget] at hget'
          cases hget'
          exact hact'
      refine ⟨_, rfl, ⟨h.nodup, h.bound, h.emitted, fun e he => ?_⟩,
        TopologicalState.remaining_breakEdge elements hget hact⟩
      obtain ⟨i, hi⟩ := List.mem_iff_getElem?.mp he
      change (s.edges.modify index _)[i]? = some e at hi
      rw [List.getElem?_modify] at hi
      obtain ⟨e', he', heq⟩ := Option.map_eq_some_iff.mp hi
      have := h.edges e' (List.mem_of_getElem? he')
      rw [← heq]
      split_ifs <;> exact this
    | none =>
      -- the fallback: some node is left, since fewer than all are in the order
      obtain ⟨i, hi, hnew⟩ := h.exists_left hleft
      obtain ⟨next, hnext⟩ := Option.isSome_iff_exists.mp
        (bestNode_isSome hi (by simpa using hnew) :
          (bestNode (comesBefore elements ranges columnCount) elements.length fun i =>
            !s.emitted i).isSome = true)
      obtain ⟨hn, hready⟩ := bestNode_some hnext
      obtain ⟨hinv, hlt⟩ := hemit next hn (by simpa using hready)
      exact ⟨_, by rw [hnext]; rfl, hinv, hlt⟩

/-- **The topological order** exists and emits every node exactly once. -/
theorem stableTopologicalOrder_spec (elements : List (PageElement α)) (ranges : List ColumnRange)
    (columnCount : Nat) (edges : List (WeightedEdge α))
    (hbound : ∀ e ∈ edges, e.toIndex < elements.length) :
    ∃ order breaks, stableTopologicalOrder elements ranges columnCount edges =
        some (order, breaks) ∧ order.Perm (List.range elements.length) := by
  have hloop : ∀ (fuel : Nat) (s : TopologicalState α), TopologicalInv elements.length s →
      s.remaining elements.length ≤ fuel →
      ∃ s', topologicalLoop elements ranges columnCount fuel s = some s' ∧
        s'.order.Perm (List.range elements.length) := by
    intro fuel
    induction fuel with
    | zero =>
      intro s h hfuel
      have hlen : ¬ s.order.length < elements.length := by
        unfold TopologicalState.remaining at hfuel
        omega
      refine ⟨s, ?_, h.perm hlen⟩
      unfold topologicalLoop
      rw [if_neg hlen]
    | succ fuel ih =>
      intro s h hfuel
      unfold topologicalLoop
      by_cases hlen : s.order.length < elements.length
      · rw [if_pos hlen]
        obtain ⟨s', hstep, hinv, hlt⟩ := h.step ranges columnCount hlen
        dsimp only
        rw [hstep]
        exact ih s' hinv (by omega)
      · rw [if_neg hlen]
        exact ⟨s, rfl, h.perm hlen⟩
  unfold stableTopologicalOrder
  dsimp only
  obtain ⟨s', hs', hperm⟩ := hloop (elements.length + edges.length)
    { edges := edges
      indegree := fun node => edges.countP fun e => e.toIndex == node
      emitted := fun _ => false
      order := []
      breaks := [] }
    ⟨List.nodup_nil, nofun, by simp, hbound⟩
    (by
      unfold TopologicalState.remaining
      have : edges.countP (·.active) ≤ edges.length := List.countP_le_length
      simp only [List.length_nil]
      omega)
  exact ⟨s'.order, s'.breaks, by rw [hs']; rfl, hperm⟩

end Order

end DocParser.ReadingOrder
