import Mathlib.Data.List.Nodup
import Mathlib.Data.List.Perm.Subperm
import Mathlib.Data.List.ReduceOption

/-!
# Matchings of bipartite graphs

A graph between left and right nodes that is searched for a largest matching, one right node after
the other. A matching that gains a pair by a new right node is largest with it
(`IsMaximum.grow`). One that cannot gain is largest all the same (`IsMaximum.stuck`): the search
has then seen left nodes that are all matched, and that the new node and the partners of these
nodes cannot leave.
-/

open scoped List

namespace Matchings

variable {ρ π : Type}

/-- Pairs along edges that share no node. -/
structure IsMatching (edge : ρ → π → Prop) (pairs : List (ρ × π)) : Prop where
  edges : ∀ r p, (r, p) ∈ pairs → edge r p
  lefts : (pairs.map Prod.fst).Nodup
  rights : (pairs.map Prod.snd).Nodup

/-- No matching has more pairs. -/
def IsMaximum (edge : ρ → π → Prop) (pairs : List (ρ × π)) : Prop :=
  ∀ other, IsMatching edge other → other.length ≤ pairs.length

/-- The edges at the right nodes with `P`. -/
def restrict (edge : ρ → π → Prop) (P : π → Prop) (r : ρ) (p : π) : Prop := edge r p ∧ P p

section Maximum

variable {edge : ρ → π → Prop} {P P' : π → Prop} {pairs other : List (ρ × π)} {k : π}

theorem IsMatching.filter (h : IsMatching edge pairs) (keep : ρ × π → Bool) :
    IsMatching edge (pairs.filter keep) where
  edges r p hmem := h.edges r p (List.mem_of_mem_filter hmem)
  lefts := h.lefts.sublist (List.filter_sublist.map _)
  rights := h.rights.sublist (List.filter_sublist.map _)

theorem IsMatching.append (h : IsMatching edge pairs) (hother : IsMatching edge other)
    (hlefts : ∀ r p q, (r, p) ∈ pairs → (r, q) ∉ other)
    (hrights : ∀ r s p, (r, p) ∈ pairs → (s, p) ∉ other) : IsMatching edge (pairs ++ other) where
  edges r p hmem := (List.mem_append.mp hmem).elim (h.edges r p) (hother.edges r p)
  lefts := by
    rw [List.map_append]
    refine h.lefts.append hother.lefts fun r hr hr' => ?_
    obtain ⟨⟨r, p⟩, hp, rfl⟩ := List.mem_map.mp hr
    obtain ⟨⟨s, q⟩, hq, rfl⟩ := List.mem_map.mp hr'
    exact hlefts s p q hp hq
  rights := by
    rw [List.map_append]
    refine h.rights.append hother.rights fun p hp hp' => ?_
    obtain ⟨⟨r, p⟩, hr, rfl⟩ := List.mem_map.mp hp
    obtain ⟨⟨s, q⟩, hs, rfl⟩ := List.mem_map.mp hp'
    exact hrights r s q hr hs

theorem IsMatching.mono {edge' : ρ → π → Prop} (h : IsMatching edge pairs)
    (hedges : ∀ r p, (r, p) ∈ pairs → edge r p → edge' r p) : IsMatching edge' pairs :=
  ⟨fun r p hmem => hedges r p hmem (h.edges r p hmem), h.lefts, h.rights⟩

theorem IsMaximum.nil (hP : ∀ p, ¬ P p) : IsMaximum (restrict edge P) [] := by
  intro other hother
  cases other with
  | nil => exact Nat.le_refl 0
  | cons pair other =>
    exact absurd (hother.edges pair.1 pair.2 (List.mem_cons_self ..)).2 (hP pair.2)

/-- **A larger matching** is largest, as one new node adds at most one pair. -/
theorem IsMaximum.grow (hmax : IsMaximum (restrict edge P) pairs)
    (hnew : ∀ p, P' p → P p ∨ p = k) (hlength : pairs.length + 1 ≤ other.length) :
    IsMaximum (restrict edge P') other := by
  classical
  intro larger hlarger
  have hkept : IsMatching (restrict edge P) (larger.filter fun pair => decide (pair.2 ≠ k)) := by
    refine (hlarger.filter _).mono fun r p hmem hedge => ?_
    have hne : p ≠ k := by simpa using List.of_mem_filter hmem
    exact ⟨hedge.1, (hnew p hedge.2).resolve_right hne⟩
  -- at most one pair is at the new node
  have hone : (larger.filter fun pair => decide (pair.2 = k)).length ≤ 1 := by
    rw [← List.countP_eq_length_filter]
    have hcount := List.nodup_iff_count_le_one.mp hlarger.rights k
    rw [List.count_eq_countP, List.countP_map] at hcount
    refine Nat.le_trans (List.countP_mono_left fun pair _ h => ?_) hcount
    simpa using h
  have hsplit := List.length_eq_length_filter_add (l := larger) fun pair => decide (pair.2 ≠ k)
  have hkept := hmax _ hkept
  simp only [ne_eq, decide_not, Bool.not_not] at hsplit hkept
  omega

/-- **No larger matching**: the pairs that the search has seen replace those of another matching
at these left nodes, which uses at most as many and none outside of `P`. -/
theorem IsMaximum.stuck (hmatching : IsMatching (restrict edge P) pairs)
    (hmax : IsMaximum (restrict edge P) pairs) (hnew : ∀ p, P' p → P p ∨ p = k)
    (seen : ρ → Prop) (hseen : ∀ r, seen r → ∃ p, (r, p) ∈ pairs)
    (hk' : ∀ r, edge r k → seen r)
    (hclosed : ∀ r s p, seen r → (r, p) ∈ pairs → edge s p → seen s) :
    IsMaximum (restrict edge P') pairs := by
  classical
  intro other hother
  have hleft : IsMatching (restrict edge P) (other.filter fun pair => decide (¬ seen pair.1)) := by
    refine (hother.filter _).mono fun r p hmem hedge => ⟨hedge.1, ?_⟩
    refine (hnew p hedge.2).resolve_right fun hp => ?_
    have hnot : ¬ seen r := by simpa using List.of_mem_filter hmem
    exact hnot (hk' r (hp ▸ hedge.1))
  have hexchanged := hleft.append (hmatching.filter fun pair => decide (seen pair.1))
    (fun r p q hp hq => by simp_all) (fun r s p hr hs => by
      simp only [List.mem_filter, decide_eq_true_eq] at hr hs
      exact hr.2 (hclosed s r p hs.2 hs.1 (hother.edges r p hr.1).1))
  -- every seen node of the other matching has a pair here
  have hright : (other.filter fun pair => decide (seen pair.1)).length ≤
      (pairs.filter fun pair => decide (seen pair.1)).length := by
    have hsubset : (other.filter fun pair => decide (seen pair.1)).map Prod.fst ⊆
        (pairs.filter fun pair => decide (seen pair.1)).map Prod.fst := by
      intro r hr
      obtain ⟨⟨r, q⟩, hq, rfl⟩ := List.mem_map.mp hr
      have hr : seen r := by simpa using List.of_mem_filter hq
      obtain ⟨p, hp⟩ := hseen r hr
      exact List.mem_map.mpr ⟨(r, p), List.mem_filter.mpr ⟨hp, decide_eq_true hr⟩, rfl⟩
    have hle := ((hother.filter fun pair => decide (seen pair.1)).lefts.subperm hsubset).length_le
    simpa using hle
  have hsplit := List.length_eq_length_filter_add (l := other) fun pair => decide (seen pair.1)
  have hle := hmax _ hexchanged
  simp only [List.length_append, decide_not] at hle
  omega

end Maximum

/-! ## Assignments

A search keeps the partner of each left node in an array.
-/

section Assignments

variable {assigned assigned' : List (Option π)} {p : π}

/-- The pairs of an assignment. -/
def assignedPairs (assigned : List (Option π)) : List (Nat × π) :=
  assigned.zipIdx.filterMap fun node => node.1.map fun p => (node.2, p)

theorem mem_assignedPairs (r : Nat) :
    (r, p) ∈ assignedPairs assigned ↔ assigned[r]? = some (some p) := by
  unfold assignedPairs
  rw [List.mem_filterMap]
  constructor
  · rintro ⟨⟨node, s⟩, hnode, heq⟩
    obtain ⟨q, rfl, hq⟩ := Option.map_eq_some_iff.mp heq
    cases hq
    exact List.mem_zipIdx_iff_getElem?.mp hnode
  · exact fun h => ⟨(some p, r), List.mem_zipIdx_iff_getElem?.mpr h, rfl⟩

variable (assigned) in
theorem map_snd_assignedPairs :
    (assignedPairs assigned).map Prod.snd = assigned.reduceOption := by
  unfold assignedPairs List.reduceOption
  rw [List.map_filterMap]
  conv_rhs => rw [← List.zipIdx_map_fst 0 assigned, List.filterMap_map]
  refine congrArg (List.filterMap · _) (funext fun node => ?_)
  cases h : node.1 <;> simp [h]

theorem nodup_map_fst_assignedPairs : ((assignedPairs assigned).map Prod.fst).Nodup := by
  have hnodup : (assigned.zipIdx.map Prod.snd).Nodup := by
    rw [List.zipIdx_map_snd]
    exact List.nodup_range'
  unfold assignedPairs
  rw [List.Nodup, List.pairwise_map, List.pairwise_filterMap]
  rw [List.Nodup, List.pairwise_map] at hnodup
  refine hnodup.imp fun {node other} hne pair hpair pair' hpair' => ?_
  obtain ⟨q, -, rfl⟩ := Option.map_eq_some_iff.mp hpair
  obtain ⟨q', -, rfl⟩ := Option.map_eq_some_iff.mp hpair'
  exact hne

theorem assignedPairs_replicate (n : Nat) :
    assignedPairs (List.replicate n (none : Option π)) = [] := by
  have h := map_snd_assignedPairs (List.replicate n (none : Option π))
  rw [List.reduceOption_replicate_none] at h
  exact List.map_eq_nil_iff.mp h

theorem getElem?_assign {r s : Nat} {q : π} (h : (assigned.set r (some p))[s]? = some (some q)) :
    (s = r ∧ q = p) ∨ assigned[s]? = some (some q) := by
  rw [List.getElem?_set] at h
  split at h
  next heq =>
    split at h
    · cases h
      exact .inl ⟨heq.symm, rfl⟩
    · cases h
  · exact .inr h

/-- A partner more, after an exchange of partners. -/
def Gains (p : π) (assigned assigned' : List (Option π)) : Prop :=
  none :: assigned' ~ some p :: assigned

theorem gains_free {r : Nat} (h : assigned[r]? = some none) :
    Gains p assigned (assigned.set r (some p)) := by
  have hperm := assigned.getD_set_perm_cons r (some p)
  rw [h] at hperm
  exact hperm

/-- A new partner for a node whose partner has got another node. -/
theorem gains_exchange {r : Nat} {q : π} (hgains : Gains q assigned assigned')
    (h : assigned'[r]? = some (some q)) : Gains p assigned (assigned'.set r (some p)) := by
  have hperm := assigned'.getD_set_perm_cons r (some p)
  rw [h] at hperm
  refine (List.perm_cons (some q)).mp ?_
  calc some q :: none :: assigned'.set r (some p)
    _ ~ none :: some q :: assigned'.set r (some p) := .swap ..
    _ ~ none :: some p :: assigned' := hperm.cons none
    _ ~ some p :: none :: assigned' := .swap ..
    _ ~ some p :: some q :: assigned := hgains.cons (some p)
    _ ~ some q :: some p :: assigned := .swap ..

theorem Gains.perm (h : Gains p assigned assigned') :
    assigned'.reduceOption ~ p :: assigned.reduceOption := by
  have hperm := List.Perm.filterMap id h
  exact hperm

theorem Gains.length_eq (h : Gains p assigned assigned') : assigned'.length = assigned.length := by
  have hlength := List.Perm.length_eq h
  simpa using hlength

theorem Gains.length_pairs (h : Gains p assigned assigned') :
    (assignedPairs assigned').length = (assignedPairs assigned).length + 1 := by
  have hlength := h.perm.length_eq
  rw [← map_snd_assignedPairs, List.length_cons, ← map_snd_assignedPairs, List.length_map,
    List.length_map] at hlength
  exact hlength

variable {edge : Nat → π → Prop}

theorem isMatching_assignedPairs (hedges : ∀ r p, assigned[r]? = some (some p) → edge r p)
    (hnodup : assigned.reduceOption.Nodup) : IsMatching edge (assignedPairs assigned) where
  edges r p hmem := hedges r p ((mem_assignedPairs r).mp hmem)
  lefts := nodup_map_fst_assignedPairs
  rights := map_snd_assignedPairs assigned ▸ hnodup

/-- A partner that was not matched is a matching more. -/
theorem Gains.isMatching (h : Gains p assigned assigned')
    (hmatching : IsMatching edge (assignedPairs assigned))
    (hp : p ∉ assigned.reduceOption) {edge' : Nat → π → Prop}
    (hedges : ∀ r q, assigned'[r]? = some (some q) → edge' r q) :
    IsMatching edge' (assignedPairs assigned') := by
  refine isMatching_assignedPairs hedges (h.perm.nodup_iff.mpr (List.nodup_cons.mpr ⟨hp, ?_⟩))
  exact map_snd_assignedPairs assigned ▸ hmatching.rights

end Assignments

end Matchings
