import Mathlib.Data.String.Basic
import DocParser.Lib.Comparators
import DocParser.ReadingOrder.Topological

/-!
# The topological order respects its edges

The loop of `stableTopologicalOrder` emits a node that no active edge enters from a node that is
not emitted, and else removes the weakest edge of a cycle. The in-degree of a node that is not
emitted is the number of these edges (`RoundInv.indegree`): so there is a cycle whenever no node
is ready, the fallback is never taken, and every edge that is still active is respected.
-/

namespace DocParser.ReadingOrder

open Document Comparators

/-! ## The weakest edge -/

section Weakest

variable {α : Type} [Double α] {edges : List (WeightedEdge α)} {cycle : List Nat}

/-- No confidence is a NaN: they are ordered. -/
def Comparable (edges : List (WeightedEdge α)) : Prop :=
  StrictWeakOn (· ∈ edges) fun a b => a.confidence < b.confidence

theorem edgeLess_iff (a b : WeightedEdge α) : edgeLess a b = true ↔
    LexLess (fun a b => a.confidence < b.confidence)
      (LexLess (fun a b => a.reason < b.reason)
        (LexLess (fun a b => a.fromIndex < b.fromIndex) fun a b => a.toIndex < b.toIndex)) a b := by
  unfold edgeLess LexLess
  split_ifs <;> simp [*]

theorem strictWeakOn_edgeLess (h : Comparable edges) :
    StrictWeakOn (· ∈ edges) fun a b => edgeLess a b = true := by
  have hlex := h.lex ((strictWeakOn_of_linear (P := (· ∈ edges)) WeightedEdge.reason).lex
    ((strictWeakOn_of_linear WeightedEdge.fromIndex).lex
      (strictWeakOn_of_linear WeightedEdge.toIndex)))
  simp only [edgeLess_iff]
  exact hlex

theorem weakestEdge_concat (cycle : List Nat) (i : Nat) :
    weakestEdge edges (cycle ++ [i]) = weakerEdge edges (weakestEdge edges cycle) i := by
  simp [weakestEdge, List.foldl_append]

theorem weakerEdge_isSome {w : Option (Nat × WeightedEdge α)} {i : Nat}
    (h : w.isSome = true ∨ edges[i]?.isSome = true) : (weakerEdge edges w i).isSome = true := by
  unfold weakerEdge
  cases hi : edges[i]? with
  | none => simpa [hi] using h
  | some e =>
    cases w with
    | none => rfl
    | some v =>
      dsimp only
      split_ifs <;> rfl

theorem weakestEdge_isSome {i : Nat} (hi : i ∈ cycle) (hget : edges[i]?.isSome = true) :
    (weakestEdge edges cycle).isSome = true := by
  induction cycle using List.reverseRecOn with
  | nil => simp at hi
  | append_singleton cycle j ih =>
    rw [weakestEdge_concat]
    rw [List.mem_append, List.mem_singleton] at hi
    rcases hi with hi | rfl
    · exact weakerEdge_isSome (.inl (ih hi))
    · exact weakerEdge_isSome (.inr hget)

/-- No edge of the cycle is weaker than the weakest one. -/
theorem weakestEdge_least (hcmp : Comparable edges) {index : Nat} {edge : WeightedEdge α}
    (h : weakestEdge edges cycle = some (index, edge)) :
    ∀ i ∈ cycle, ∀ e, edges[i]? = some e → edgeLess e edge = false := by
  have hless := strictWeakOn_edgeLess hcmp
  have hself : ∀ e ∈ edges, edgeLess e e = false := fun e he => by
    rw [← Bool.not_eq_true]
    exact fun hee => hless.asymm e e he he hee hee
  induction cycle using List.reverseRecOn generalizing index edge with
  | nil => simp
  | append_singleton cycle j ih =>
    intro i hi e he
    rw [weakestEdge_concat] at h
    unfold weakerEdge at h
    rw [List.mem_append, List.mem_singleton] at hi
    cases hj : edges[j]? with
    | none =>
      rw [hj] at h
      rcases hi with hi | rfl
      · exact ih h i hi e he
      · rw [hj] at he
        cases he
    | some f =>
      have hf : f ∈ edges := List.mem_of_getElem? hj
      rw [hj] at h
      cases hw : weakestEdge edges cycle with
      | none =>
        obtain ⟨-, rfl⟩ : j = index ∧ f = edge := by simpa [hw] using h
        rcases hi with hi | rfl
        · -- the scan has seen no edge yet
          have hsome : (weakestEdge edges cycle).isSome = true :=
            weakestEdge_isSome hi (by simp [he])
          simp [hw] at hsome
        · rw [hj] at he
          obtain rfl := Option.some.inj he
          exact hself f hf
      | some w =>
        rw [hw] at h
        dsimp only at h
        obtain ⟨-, hwget⟩ := weakestEdge_some hw
        have hwmem : w.2 ∈ edges := List.mem_of_getElem? hwget
        have hemem : e ∈ edges := List.mem_of_getElem? he
        split_ifs at h with hfw
        · obtain ⟨-, rfl⟩ : j = index ∧ f = edge := by simpa using h
          rcases hi with hi | rfl
          · -- an edge below `f` would be below the weakest one so far
            rw [← Bool.not_eq_true]
            intro hef
            have hew := ih hw i hi e he
            rcases hless.split f e w.2 hf hemem hwmem hfw with hfe | hew'
            · exact hless.asymm e f hemem hf hef hfe
            · simp [hew] at hew'
          · rw [hj] at he
            obtain rfl := Option.some.inj he
            exact hself f hf
        · obtain ⟨-, rfl⟩ : w.1 = index ∧ w.2 = edge := by simpa [Prod.ext_iff] using h
          rcases hi with hi | rfl
          · exact ih hw i hi e he
          · rw [hj] at he
            obtain rfl := Option.some.inj he
            simpa using hfw

end Weakest

/-! ## The loop with its exits as parameters -/

section Definitions

variable {α : Type} [Double α]
  (noParent : CycleSearch → Option (Bool × CycleSearch))
  (fallback : TopologicalState α → Option (TopologicalState α))
  (elements : List (PageElement α)) (ranges : List ColumnRange) (columnCount : Nat)

/-- The node that a round emits, if one is ready. -/
def readyNode (s : TopologicalState α) : Option Nat :=
  bestNode (comesBefore elements ranges columnCount) elements.length
    fun i => !s.emitted i && s.indegree i == 0

/-- One round, with `fallback` where no edge of a cycle can be removed. -/
def stepWith (s : TopologicalState α) : Option (TopologicalState α) :=
  match readyNode elements ranges columnCount s with
  | some next => some (s.emit next)
  | none =>
    match findCycleEdgesWith noParent s.edges s.emitted elements.length with
    | none => none
    | some cycle =>
      match weakestEdge s.edges cycle with
      | some (index, edge) => some (s.breakEdge elements index edge)
      | none => fallback s

def topologicalLoopWith : Nat → TopologicalState α → Option (TopologicalState α)
  | fuel, s =>
    if s.order.length < elements.length then
      match fuel with
      | 0 => none
      | fuel + 1 =>
        match stepWith noParent fallback elements ranges columnCount s with
        | none => none
        | some s' => topologicalLoopWith fuel s'
    else some s

def startState (edges : List (WeightedEdge α)) : TopologicalState α where
  edges := edges
  indegree := fun node => edges.countP fun e => e.toIndex == node
  emitted := fun _ => false
  order := []
  breaks := []

/-- The fallback of the source emits a node all the same. -/
def emitAnyNode (s : TopologicalState α) : Option (TopologicalState α) :=
  (bestNode (comesBefore elements ranges columnCount) elements.length fun i => !s.emitted i).map
    s.emit

def stableTopologicalOrderWith (edges : List (WeightedEdge α)) :
    Option (List Nat × List (ReadingOrderCycleBreak α)) :=
  (topologicalLoopWith noParent fallback elements ranges columnCount
    (elements.length + edges.length) (startState edges)).map fun s => (s.order, s.breaks)

variable {elements ranges columnCount}

theorem stepWith_source (s : TopologicalState α) :
    stepWith clearCycle (emitAnyNode elements ranges columnCount) elements ranges columnCount s =
      s.step elements ranges columnCount := by
  unfold stepWith TopologicalState.step
  rw [findCycleEdgesWith_clearCycle]
  rfl

theorem topologicalLoopWith_source (fuel : Nat) (s : TopologicalState α) :
    topologicalLoopWith clearCycle (emitAnyNode elements ranges columnCount) elements ranges
        columnCount fuel s =
      topologicalLoop elements ranges columnCount fuel s := by
  induction fuel generalizing s with
  | zero => rfl
  | succ fuel ih =>
    unfold topologicalLoopWith topologicalLoop
    simp only [stepWith_source]
    split
    · cases s.step elements ranges columnCount with
      | none => rfl
      | some s' => exact ih s'
    · rfl

theorem stableTopologicalOrderWith_source (edges : List (WeightedEdge α)) :
    stableTopologicalOrderWith clearCycle (emitAnyNode elements ranges columnCount) elements ranges
        columnCount edges =
      stableTopologicalOrder elements ranges columnCount edges := by
  unfold stableTopologicalOrderWith stableTopologicalOrder
  rw [topologicalLoopWith_source]
  rfl

end Definitions

/-! ## Counting the edges into a node -/

section Counting

variable {τ : Type}

theorem countP_eq_add {p q r : τ → Bool} {l : List τ}
    (h : ∀ x ∈ l, (if p x then 1 else 0) = (if q x then 1 else 0) + if r x then 1 else 0) :
    l.countP p = l.countP q + l.countP r := by
  induction l with
  | nil => rfl
  | cons x l ih =>
    have hx := h x (by simp)
    have := ih fun y hy => h y (List.mem_cons_of_mem _ hy)
    simp only [List.countP_cons]
    omega

/-- Decrements at the target of every edge with `p` lower the count of a node by the number of
these edges into it. -/
theorem foldl_decrement {α : Type} (p : WeightedEdge α → Bool) (edges : List (WeightedEdge α))
    (indegree : Nat → Int) (v : Nat) :
    edges.foldl (fun indegree edge =>
      if p edge then Function.update indegree edge.toIndex (indegree edge.toIndex - 1)
      else indegree) indegree v =
      indegree v - (edges.countP fun edge => p edge && edge.toIndex == v : Nat) := by
  induction edges generalizing indegree with
  | nil => simp
  | cons e edges ih =>
    rw [List.foldl_cons, ih, List.countP_cons]
    by_cases hp : p e = true
    · by_cases hv : e.toIndex = v
      · simp only [hp, if_true, hv, Function.update_self, BEq.rfl, Bool.and_true]
        omega
      · simp [hp, Function.update_of_ne (Ne.symm hv), hv]
    · simp [hp]

end Counting

/-! ## Rounds -/

section Rounds

variable {α : Type}

/-- The edges that keep a node from being emitted. -/
def blocking (emitted : Nat → Bool) (v : Nat) (edge : WeightedEdge α) : Bool :=
  edge.active && edge.toIndex == v && !emitted edge.fromIndex

/-- The edges that a round starts with are those of the input, some of them removed. The in-degree
of a node that is not emitted counts the edges that block it, and the edges into the others are
respected. -/
structure RoundInv (edges : List (WeightedEdge α)) (n : Nat) (removed : List Nat)
    (s : TopologicalState α) : Prop where
  order : TopologicalInv n s
  fromIndex : ∀ e ∈ s.edges, e.fromIndex < n
  same : ∀ i, s.edges[i]? = edges[i]?.map fun e =>
    if i ∈ removed then { e with active := false } else e
  indegree : ∀ v, s.emitted v = false →
    s.indegree v = (s.edges.countP (blocking s.emitted v) : Nat)
  respects : ∀ e ∈ s.edges, e.active = true → s.emitted e.toIndex = true →
    s.order.idxOf e.fromIndex < s.order.idxOf e.toIndex

variable {edges : List (WeightedEdge α)} {n : Nat} {removed : List Nat} {s : TopologicalState α}

theorem roundInv_start (hbound : ∀ e ∈ edges, e.fromIndex < n ∧ e.toIndex < n)
    (hactive : ∀ e ∈ edges, e.active = true) : RoundInv edges n [] (startState edges) := by
  refine ⟨⟨List.nodup_nil, nofun, by simp [startState], fun e he => (hbound e he).2⟩,
    fun e he => (hbound e he).1, by simp [startState], fun v _ => ?_, nofun⟩
  show ((edges.countP fun e => e.toIndex == v : Nat) : Int) = _
  congr 1
  refine List.countP_congr fun e he => ?_
  simp [blocking, startState, hactive e he]

/-- A node that is not blocked is emitted after the sources of the active edges into it. -/
theorem RoundInv.emit (h : RoundInv edges n removed s) {next : Nat} (hn : next < n)
    (hnew : s.emitted next = false) (hready : s.indegree next = 0) :
    RoundInv edges n removed (s.emit next) := by
  have hnone : ∀ e ∈ s.edges, blocking s.emitted next e = false := by
    have hcount := h.indegree next hnew
    rw [hready] at hcount
    have hzero : s.edges.countP (blocking s.emitted next) = 0 := by omega
    intro e he
    rw [← Bool.not_eq_true]
    exact List.countP_eq_zero.mp hzero e he
  have hnot : next ∉ s.order := fun hmem => by
    rw [← h.order.emitted, hnew] at hmem
    cases hmem
  refine ⟨h.order.emit hn hnew, h.fromIndex, h.same, fun v hv => ?_, fun e he hact hto => ?_⟩
  · have hvnext : v ≠ next := by
      rintro rfl
      simp [TopologicalState.emit] at hv
    have hv' : s.emitted v = false := by
      simpa [TopologicalState.emit, Function.update_of_ne hvnext] using hv
    have hsplit : s.edges.countP (blocking s.emitted v) =
        s.edges.countP (blocking (Function.update s.emitted next true) v) +
          s.edges.countP fun e => (e.active && e.fromIndex == next &&
            !Function.update s.emitted next true e.toIndex) && e.toIndex == v := by
      refine countP_eq_add fun e _ => ?_
      unfold blocking
      by_cases hev : e.toIndex = v
      · by_cases hfrom : e.fromIndex = next
        · simp [hev, hfrom, hnew, Function.update_of_ne hvnext, hv']
        · simp [hev, hfrom]
      · simp [hev]
    show s.edges.foldl _ s.indegree v = ((s.edges.countP _ : Nat) : Int)
    rw [foldl_decrement, h.indegree v hv', hsplit]
    show _ = ((s.edges.countP (blocking (Function.update s.emitted next true) v) : Nat) : Int)
    omega
  · show (s.order ++ [next]).idxOf e.fromIndex < (s.order ++ [next]).idxOf e.toIndex
    have hinside : ∀ v ∈ s.order, (s.order ++ [next]).idxOf v = s.order.idxOf v :=
      fun v hv => List.idxOf_append_of_mem hv
    by_cases heq : e.toIndex = next
    · have hfrom : e.fromIndex ∈ s.order := by
        rw [← h.order.emitted, ← Bool.not_eq_false]
        intro hfrom
        have := hnone e he
        simp [blocking, hact, heq, hfrom] at this
      rw [hinside _ hfrom, heq, List.idxOf_append_of_notMem hnot]
      have := List.idxOf_lt_length_of_mem hfrom
      omega
    · have hto' : s.emitted e.toIndex = true := by
        simpa [TopologicalState.emit, Function.update_of_ne heq] using hto
      have hlt := h.respects e he hact hto'
      have htomem : e.toIndex ∈ s.order := (h.order.emitted _).mp hto'
      have hfrom : e.fromIndex ∈ s.order := by
        have := List.idxOf_lt_length_of_mem htomem
        exact List.idxOf_lt_length_iff.mp (by omega)
      rwa [hinside _ hfrom, hinside _ htomem]

/-- Removing an edge that blocks its target. -/
theorem RoundInv.breakEdge [Double α] (h : RoundInv edges n removed s)
    (elements : List (PageElement α)) {index : Nat} {edge : WeightedEdge α}
    (hget : s.edges[index]? = some edge) (hact : edge.active = true)
    (hfrom : s.emitted edge.fromIndex = false) :
    RoundInv edges n (removed ++ [index]) (s.breakEdge elements index edge) := by
  have hmod : ∀ e ∈ (s.breakEdge elements index edge).edges, ∃ e' ∈ s.edges,
      e.fromIndex = e'.fromIndex ∧ e.toIndex = e'.toIndex ∧ (e.active = true → e = e') := by
    intro e he
    obtain ⟨i, hi⟩ := List.mem_iff_getElem?.mp he
    change (s.edges.modify index _)[i]? = some e at hi
    rw [List.getElem?_modify] at hi
    obtain ⟨e', he', rfl⟩ := Option.map_eq_some_iff.mp hi
    refine ⟨e', List.mem_of_getElem? he', ?_⟩
    split_ifs <;> simp
  refine ⟨⟨h.order.nodup, h.order.bound, h.order.emitted, fun e he => ?_⟩, fun e he => ?_,
    fun i => ?_, fun v hv => ?_, fun e he heact hto => ?_⟩
  · obtain ⟨e', he', -, hto, -⟩ := hmod e he
    exact hto ▸ h.order.edges e' he'
  · obtain ⟨e', he', hfrom, -, -⟩ := hmod e he
    exact hfrom ▸ h.fromIndex e' he'
  · show (s.edges.modify index _)[i]? = _
    rw [List.getElem?_modify, h.same i, Option.map_eq_map, Option.map_map]
    congr 1
    funext e
    by_cases hi : index = i
    · subst hi
      by_cases hmem : index ∈ removed <;> simp [hmem]
    · simp [hi, Ne.symm hi]
  · show Function.update s.indegree edge.toIndex _ v =
      (((s.edges.modify index _).countP (blocking s.emitted v) : Nat) : Int)
    have hv' : s.emitted v = false := hv
    have hcount := countP_modify (p := blocking s.emitted v)
      (f := fun e => { e with active := false }) hget
    have hoff : blocking s.emitted v { edge with active := false } = false := by simp [blocking]
    rw [hoff] at hcount
    by_cases hto : v = edge.toIndex
    · subst hto
      have hon : blocking s.emitted edge.toIndex edge = true := by simp [blocking, hact, hfrom]
      rw [hon] at hcount
      rw [Function.update_self, h.indegree _ hv']
      simp only [if_true, Bool.false_eq_true, if_false] at hcount
      omega
    · have hon : blocking s.emitted v edge = false := by simp [blocking, Ne.symm hto]
      rw [hon] at hcount
      rw [Function.update_of_ne hto, h.indegree _ hv']
      simp only [Bool.false_eq_true, if_false] at hcount
      omega
  · obtain ⟨e', he', -, -, heq⟩ := hmod e he
    obtain rfl := heq heact
    exact h.respects e he' heact hto

end Rounds

/-! ## Every list of edges -/

section Correctness

variable {α : Type} [Double α] {elements : List (PageElement α)} {ranges : List ColumnRange}
  {columnCount : Nat}

/-- A removal: the state in which it happens, the cycle that was found, and the edge. -/
structure Removal (α : Type) where
  state : TopologicalState α
  cycle : List Nat
  index : Nat
  edge : WeightedEdge α

/-- What `trace.cycle_breaks` records of it. -/
def Removal.record (elements : List (PageElement α)) (r : Removal α) :
    ReadingOrderCycleBreak α :=
  ⟨(elementAt elements r.edge.fromIndex).block.id, (elementAt elements r.edge.toIndex).block.id,
    r.edge.reason, r.edge.confidence⟩

/-- Runs of the loop, with the removals in order. -/
inductive Rounds (elements : List (PageElement α)) (ranges : List ColumnRange)
    (columnCount : Nat) : TopologicalState α → List (Removal α) → TopologicalState α → Prop
  | nil (s) : Rounds elements ranges columnCount s [] s
  | emit {s s' next rs} : readyNode elements ranges columnCount s = some next →
      Rounds elements ranges columnCount (s.emit next) rs s' →
      Rounds elements ranges columnCount s rs s'
  | remove {s s' cycle index edge rs} : readyNode elements ranges columnCount s = none →
      findCycleEdges s.edges s.emitted elements.length = some cycle →
      weakestEdge s.edges cycle = some (index, edge) →
      Rounds elements ranges columnCount (s.breakEdge elements index edge) rs s' →
      Rounds elements ranges columnCount s (⟨s, cycle, index, edge⟩ :: rs) s'

/-- The edge removed was an active edge of a cycle among the nodes not yet emitted. -/
structure Removal.Sound (r : Removal α) : Prop where
  cycle : CycleAmong r.state.edges r.state.emitted r.cycle
  mem : r.index ∈ r.cycle
  edge : r.state.edges[r.index]? = some r.edge ∧ r.edge.active = true

/-- No edge of the cycle that was found is less by confidence, reason, source and target. -/
def Removal.Least (r : Removal α) : Prop :=
  ∀ i ∈ r.cycle, ∀ e, r.state.edges[i]? = some e → edgeLess e r.edge = false

variable {edges : List (WeightedEdge α)} {removed : List Nat} {s : TopologicalState α}

omit [Double α] in
/-- The active edges of a round are edges of the input. -/
theorem RoundInv.isCycle {n : Nat} (h : RoundInv edges n removed s) {cycle : List Nat}
    (hc : IsCycle s.edges cycle) : IsCycle edges cycle := by
  have hget : ∀ (i : Nat) (e : WeightedEdge α), s.edges[i]? = some e → e.active = true →
      edges[i]? = some e := by
    intro i e hi hact
    rw [h.same i] at hi
    obtain ⟨e', he', rfl⟩ := Option.map_eq_some_iff.mp hi
    split_ifs at hact ⊢
    exact he'
  have hwalk : ∀ (u v : Nat) (walk : List Nat), BackWalk s.edges u v walk →
      BackWalk edges u v walk := by
    intro u v walk hw
    induction hw with
    | nil => exact .nil _
    | cons hi hact hto _ ih => exact .cons (hget _ _ hi hact) hact hto ih
  obtain ⟨index, edge, walk, rfl, hi, hact, hback⟩ := hc
  exact ⟨index, edge, walk, rfl, hget _ _ hi hact, hact, hwalk _ _ _ hback⟩

theorem RoundInv.comparable {n : Nat} (h : RoundInv edges n removed s)
    (hcmp : Comparable edges) : Comparable s.edges := by
  have hmem : ∀ e ∈ s.edges, ∃ e' ∈ edges, e.confidence = e'.confidence := by
    intro e he
    obtain ⟨i, hi⟩ := List.mem_iff_getElem?.mp he
    rw [h.same i] at hi
    obtain ⟨e', he', rfl⟩ := Option.map_eq_some_iff.mp hi
    refine ⟨e', List.mem_of_getElem? he', ?_⟩
    split_ifs <;> rfl
  constructor
  · intro a b ha hb hab
    obtain ⟨a', ha', haeq⟩ := hmem a ha
    obtain ⟨b', hb', hbeq⟩ := hmem b hb
    rw [haeq, hbeq] at hab ⊢
    exact hcmp.asymm a' b' ha' hb' hab
  · intro a b c ha hb hc hac
    obtain ⟨a', ha', haeq⟩ := hmem a ha
    obtain ⟨b', hb', hbeq⟩ := hmem b hb
    obtain ⟨c', hc', hceq⟩ := hmem c hc
    rw [haeq, hceq] at hac
    rw [haeq, hbeq, hceq]
    exact hcmp.split a' b' c' ha' hb' hc' hac

variable (ranges columnCount) in
/-- **One round** emits a node that is ready, or removes the weakest edge of a cycle; it takes
neither exit, and there is less to do after it. -/
theorem RoundInv.step (h : RoundInv edges elements.length removed s)
    (hleft : s.order.length < elements.length) :
    (∃ next, readyNode elements ranges columnCount s = some next ∧
      RoundInv edges elements.length removed (s.emit next) ∧
      (s.emit next).remaining elements.length < s.remaining elements.length) ∨
    ∃ r : Removal α, r.state = s ∧ readyNode elements ranges columnCount s = none ∧
      (∀ noParent, findCycleEdgesWith noParent s.edges s.emitted elements.length = some r.cycle) ∧
      weakestEdge s.edges r.cycle = some (r.index, r.edge) ∧ r.Sound ∧
      RoundInv edges elements.length (removed ++ [r.index])
        (s.breakEdge elements r.index r.edge) ∧
      (s.breakEdge elements r.index r.edge).remaining elements.length <
        s.remaining elements.length := by
  cases hready : readyNode elements ranges columnCount s with
  | some next =>
    obtain ⟨hn, hnext⟩ := bestNode_some hready
    simp only [Bool.and_eq_true, Bool.not_eq_eq_eq_not, Bool.not_true, beq_iff_eq] at hnext
    exact .inl ⟨next, rfl, h.emit hn hnext.1 hnext.2,
      TopologicalState.remaining_emit hleft next⟩
  | none =>
    obtain ⟨v₀, hv₀, hnew⟩ := h.order.exists_left hleft
    have hin : ∀ v < elements.length, s.emitted v = false → ∃ e ∈ s.edges, e.active = true ∧
        e.toIndex = v ∧ e.fromIndex < elements.length ∧ s.emitted e.fromIndex = false := by
      intro v hv hvnew
      have hpos : s.indegree v ≠ 0 := fun hzero => by
        have hsome : (readyNode elements ranges columnCount s).isSome = true :=
          bestNode_isSome hv (by simp [hvnew, hzero])
        simp [hready] at hsome
      rw [h.indegree v hvnew] at hpos
      obtain ⟨e, he, hblock⟩ := List.countP_pos_iff.mp
        (show 0 < s.edges.countP (blocking s.emitted v) by omega)
      simp only [blocking, Bool.and_eq_true, beq_iff_eq, Bool.not_eq_eq_eq_not,
        Bool.not_true] at hblock
      exact ⟨e, he, hblock.1.1, hblock.1.2, h.fromIndex e he, hblock.2⟩
    obtain ⟨cycle, hcycle, hamong⟩ := findCycleEdgesWith_cycle h.order.edges hv₀ hnew hin
    obtain ⟨i, edge₀, walk, hcons, hget₀, -, -⟩ := hamong.isCycle
    have hsome : (weakestEdge s.edges cycle).isSome = true :=
      weakestEdge_isSome (i := i) (by simp [hcons]) (by simp [hget₀])
    obtain ⟨⟨index, edge⟩, hweak⟩ := Option.isSome_iff_exists.mp hsome
    obtain ⟨hmem, hget⟩ := weakestEdge_some hweak
    obtain ⟨e, he, hfrom, -⟩ := hamong.new index hmem
    obtain ⟨e', he', hact⟩ := hamong.isCycle.edge_active index hmem
    obtain rfl : edge = e := Option.some.inj (hget.symm.trans he)
    obtain rfl : edge = e' := Option.some.inj (hget.symm.trans he')
    exact .inr ⟨⟨s, cycle, index, edge⟩, rfl, rfl, hcycle, hweak, ⟨hamong, hmem, hget, hact⟩,
      h.breakEdge elements hget hact hfrom,
      TopologicalState.remaining_breakEdge elements hget hact⟩

variable (ranges columnCount) in
/-- The run from a state, whatever the exits do. -/
theorem RoundInv.rounds (fuel : Nat) :
    ∀ (s : TopologicalState α) (removed : List Nat), RoundInv edges elements.length removed s →
      s.remaining elements.length ≤ fuel →
      ∃ s' rs, (∀ noParent fallback, topologicalLoopWith noParent fallback elements ranges
          columnCount fuel s = some s') ∧
        Rounds elements ranges columnCount s rs s' ∧
        RoundInv edges elements.length (removed ++ rs.map Removal.index) s' ∧
        ¬ s'.order.length < elements.length ∧
        s'.breaks = s.breaks ++ rs.map (Removal.record elements) ∧
        ∀ r ∈ rs, r.Sound ∧ IsCycle edges r.cycle ∧ (Comparable edges → r.Least) := by
  have hstop : ∀ (fuel : Nat) (s : TopologicalState α), ¬ s.order.length < elements.length →
      ∀ noParent fallback, topologicalLoopWith noParent fallback elements ranges columnCount fuel
        s = some s := by
    intro fuel s hlen noParent fallback
    unfold topologicalLoopWith
    rw [if_neg hlen]
  induction fuel with
  | zero =>
    intro s removed h hfuel
    have hlen : ¬ s.order.length < elements.length := by
      unfold TopologicalState.remaining at hfuel
      omega
    exact ⟨s, [], hstop 0 s hlen, .nil s, by simpa using h, hlen, by simp, by simp⟩
  | succ fuel ih =>
    intro s removed h hfuel
    by_cases hlen : s.order.length < elements.length
    · rcases h.step ranges columnCount hlen with
        ⟨next, hready, hinv, hlt⟩ | ⟨r, rfl, hready, hcycle, hweak, hsound, hinv, hlt⟩
      · obtain ⟨s', rs, hrun, hrounds, hinv', hdone, hbreaks, hall⟩ := ih _ _ hinv (by omega)
        refine ⟨s', rs, fun noParent fallback => ?_, .emit hready hrounds, hinv', hdone, hbreaks,
          hall⟩
        unfold topologicalLoopWith
        rw [if_pos hlen]
        dsimp only
        rw [stepWith, hready]
        exact hrun noParent fallback
      · obtain ⟨s', rs, hrun, hrounds, hinv', hdone, hbreaks, hall⟩ := ih _ _ hinv (by omega)
        have hfound : findCycleEdges r.state.edges r.state.emitted elements.length =
            some r.cycle := by
          rw [← findCycleEdgesWith_clearCycle]
          exact hcycle clearCycle
        refine ⟨s', r :: rs, fun noParent fallback => ?_, .remove hready hfound hweak hrounds, ?_,
          hdone, ?_, fun q hq => ?_⟩
        · unfold topologicalLoopWith
          rw [if_pos hlen]
          dsimp only
          rw [stepWith, hready]
          dsimp only
          rw [hcycle noParent]
          dsimp only
          rw [hweak]
          exact hrun noParent fallback
        · simpa using hinv'
        · rw [hbreaks]
          simp [TopologicalState.breakEdge, Removal.record]
        · rcases List.mem_cons.mp hq with rfl | hq
          · exact ⟨hsound, h.isCycle hsound.cycle.isCycle,
              fun hcmp => weakestEdge_least (h.comparable hcmp) hweak⟩
          · exact hall q hq
    · exact ⟨s, [], hstop _ s hlen, .nil s, by simpa using h, hlen, by simp, by simp⟩

/-- **The topological order.** For any edges between the nodes, as the callers add them: the loop
ends with every node once, whatever its two exits do; an edge that was not removed leads from an
earlier node to a later one; every removal takes the least edge of a cycle among the nodes not yet
emitted; and without a cycle nothing is removed. -/
theorem stableTopologicalOrder_correct (elements : List (PageElement α))
    (ranges : List ColumnRange) (columnCount : Nat) (edges : List (WeightedEdge α))
    (hbound : ∀ e ∈ edges, e.fromIndex < elements.length ∧ e.toIndex < elements.length)
    (hactive : ∀ e ∈ edges, e.active = true) :
    ∃ (order : List Nat) (removals : List (Removal α)) (final : TopologicalState α),
      (∀ noParent fallback, stableTopologicalOrderWith noParent fallback elements ranges
        columnCount edges = some (order, removals.map (Removal.record elements))) ∧
      stableTopologicalOrder elements ranges columnCount edges =
        some (order, removals.map (Removal.record elements)) ∧
      Rounds elements ranges columnCount (startState edges) removals final ∧
      final.order = order ∧
      order.Perm (List.range elements.length) ∧
      (∀ i e, edges[i]? = some e → i ∉ removals.map Removal.index →
        order.idxOf e.fromIndex < order.idxOf e.toIndex) ∧
      (∀ r ∈ removals, r.Sound) ∧
      (Comparable edges → ∀ r ∈ removals, r.Least) ∧
      ((∀ cycle, ¬ IsCycle edges cycle) → removals = []) := by
  have hfuel : (startState edges).remaining elements.length ≤ elements.length + edges.length := by
    unfold TopologicalState.remaining startState
    have : edges.countP (·.active) ≤ edges.length := List.countP_le_length
    simp only [List.length_nil]
    omega
  obtain ⟨final, rs, hrun, hrounds, hinv, hdone, hbreaks, hall⟩ :=
    RoundInv.rounds ranges columnCount _ (startState edges) []
      (roundInv_start hbound hactive) hfuel
  have hwith : ∀ noParent fallback, stableTopologicalOrderWith noParent fallback elements ranges
      columnCount edges = some (final.order, rs.map (Removal.record elements)) := by
    intro noParent fallback
    unfold stableTopologicalOrderWith
    rw [hrun noParent fallback, Option.map_some, hbreaks]
    rfl
  have hperm := hinv.order.perm hdone
  refine ⟨final.order, rs, final, hwith, ?_, hrounds, rfl, hperm, fun i e hi hnot => ?_,
    fun r hr => (hall r hr).1, fun hcmp r hr => (hall r hr).2.2 hcmp, fun hacyclic => ?_⟩
  · rw [← stableTopologicalOrderWith_source]
    exact hwith clearCycle (emitAnyNode elements ranges columnCount)
  · have hmem : e ∈ edges := List.mem_of_getElem? hi
    have hkept : final.edges[i]? = some e := by
      rw [hinv.same i, hi, Option.map_some, if_neg (by simpa using hnot)]
    refine hinv.respects e (List.mem_of_getElem? hkept) (hactive e hmem) ?_
    rw [hinv.order.emitted, hperm.mem_iff, List.mem_range]
    exact (hbound e hmem).2
  · rw [List.eq_nil_iff_forall_not_mem]
    exact fun r hr => hacyclic r.cycle (hall r hr).2.1

end Correctness

/-- Exact confidences are ordered. -/
theorem comparable_rat (edges : List (WeightedEdge ℚ)) : Comparable edges :=
  strictWeakOn_of_linear WeightedEdge.confidence

/-- Three nodes on two cycles that share an edge. -/
def threeNodes : List (PageElement ℚ) :=
  ["a", "b", "c"].map fun id => ⟨0, ⟨id, .text, "Text", "", ⟨0, 0, 1, 1⟩, 1, -1, []⟩, ⟨0, 0, 1, 1⟩⟩

def twoCycles : List (WeightedEdge ℚ) :=
  [⟨0, 1, 1, "same_column", true⟩, ⟨1, 2, 4 / 5, "column_flow", true⟩,
    ⟨2, 0, 1 / 4, "model_hint", true⟩, ⟨1, 0, 1 / 4, "model_hint", true⟩]

theorem stableTopologicalOrder_correct_twoCycles :
    ∃ (order : List Nat) (removals : List (Removal ℚ)),
      stableTopologicalOrder threeNodes [] 1 twoCycles =
        some (order, removals.map (Removal.record threeNodes)) ∧
      order.Perm [0, 1, 2] ∧ ∀ r ∈ removals, r.Sound ∧ r.Least := by
  obtain ⟨order, removals, -, -, hrun, -, -, hperm, -, hsound, hleast, -⟩ :=
    stableTopologicalOrder_correct threeNodes [] 1 twoCycles (by decide) (by decide)
  exact ⟨order, removals, hrun, hperm,
    fun r hr => ⟨hsound r hr, hleast (comparable_rat twoCycles) r hr⟩⟩

end DocParser.ReadingOrder
