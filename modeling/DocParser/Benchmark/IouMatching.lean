import DocParser.Common.Standard
import DocParser.Document.Model
import DocParser.Lib.Matchings

/-!
# Matched boxes of the benchmark

The boxes of a prediction are matched with those of the reference before any rate is computed.
`maximumIouMatching_spec`: the search for augmenting paths ends with a largest one-to-one set of
pairs that overlap enough.
-/

namespace DocParser.Benchmark

open Document Matchings

/-! ## The source -/

section Definitions

variable {α : Type} [Double α]

def intersectionOverUnion (lhs rhs : BBox α) : α :=
  let intersectionWidth := Double.max 0 (Double.min lhs.x1 rhs.x1 - Double.max lhs.x0 rhs.x0)
  let intersectionHeight := Double.max 0 (Double.min lhs.y1 rhs.y1 - Double.max lhs.y0 rhs.y0)
  let intersection := intersectionWidth * intersectionHeight
  let lhsArea := Double.max 0 (lhs.x1 - lhs.x0) * Double.max 0 (lhs.y1 - lhs.y0)
  let rhsArea := Double.max 0 (rhs.x1 - rhs.x0) * Double.max 0 (rhs.y1 - rhs.y0)
  let union := lhsArea + rhsArea - intersection
  if union ≤ 0 then 0 else intersection / union

/-- The order of the keys `(-candidate[1], candidate[0])`. -/
def candidateLess (a b : Nat × α) : Bool :=
  if a.2 == b.2 then decide (a.1 < b.1) else decide (b.2 < a.2)

/-- The references that a prediction may be matched with, the best first. -/
def adjacent (references : List (BBox α)) (threshold : α) (prediction : BBox α) :
    List (Nat × α) :=
  let candidates := references.zipIdx.map fun reference =>
    (reference.2, intersectionOverUnion reference.1 prediction)
  sortBy candidateLess (candidates.filter fun candidate => decide (threshold ≤ candidate.2))

/-- `matched_prediction_for_reference`, where `none` is the -1, and `seen_references`. -/
structure Search where
  matched : List (Option Nat)
  seen : List Nat

/-- The loop of `augment` over the candidates of a prediction; `none` is an index outside of a
list, or a run that has used up its fuel. -/
def augmentFrom (augment : Nat → Search → Option (Bool × Search)) (predictionIndex : Nat) :
    List (Nat × α) → Search → Option (Bool × Search)
  | [], s => some (false, s)
  | (referenceIndex, _) :: candidates, s =>
    if referenceIndex ∈ s.seen then augmentFrom augment predictionIndex candidates s
    else
      let s := { s with seen := referenceIndex :: s.seen }
      match s.matched[referenceIndex]? with
      | none => none
      | some none =>
        some (true, { s with matched := s.matched.set referenceIndex (some predictionIndex) })
      | some (some previousPrediction) =>
        match augment previousPrediction s with
        | none => none
        | some (true, s) =>
          some (true, { s with matched := s.matched.set referenceIndex (some predictionIndex) })
        | some (false, s) => augmentFrom augment predictionIndex candidates s

def augment (adjacency : List (List (Nat × α))) : Nat → Nat → Search → Option (Bool × Search)
  | 0, _, _ => none
  | fuel + 1, predictionIndex, s =>
    match adjacency[predictionIndex]? with
    | none => none
    | some candidates => augmentFrom (augment adjacency fuel) predictionIndex candidates s

/-- The search for one prediction after the other. -/
def augmentAll (adjacency : List (List (Nat × α))) (fuel : Nat) (predictions : List Nat)
    (matched : List (Option Nat)) : Option (List (Option Nat)) :=
  predictions.foldlM
    (fun matched predictionIndex =>
      (augment adjacency fuel predictionIndex ⟨matched, []⟩).map fun result => result.2.matched)
    matched

/-- A pair of `matches`. -/
def matchedPair (references predictions : List (BBox α)) (pair : Nat × Nat) :
    Option (Nat × Nat × α) :=
  match references[pair.1]?, predictions[pair.2]? with
  | some reference, some prediction =>
    some (pair.1, pair.2, intersectionOverUnion reference prediction)
  | _, _ => none

def maximumIouMatching (fuel : Nat) (references predictions : List (BBox α)) (threshold : α) :
    Option (List (Nat × Nat × α)) :=
  let adjacency := predictions.map (adjacent references threshold)
  match augmentAll adjacency fuel (List.range predictions.length)
      (List.replicate references.length none) with
  | none => none
  | some matched => (assignedPairs matched).mapM (matchedPair references predictions)

end Definitions

/-! ## One search -/

section Search

/-- The edges of the search. -/
def Adjacent {α : Type} (adjacency : List (List (Nat × α))) (r p : Nat) : Prop :=
  ∃ candidates ∈ adjacency[p]?, ∃ value, (r, value) ∈ candidates

/-- The references that a search has seen are told apart, and all indices are in their lists. -/
structure Ready (edge : Nat → Nat → Prop) (predictions : Nat) (s : Search) : Prop where
  nodup : s.seen.Nodup
  seen : ∀ r ∈ s.seen, r < s.matched.length
  edges : ∀ r p, edge r p → r < s.matched.length
  matched : ∀ (r q : Nat), s.matched[r]? = some (some q) → q < predictions

variable {edge : Nat → Nat → Prop} {predictions : Nat} {s s' s'' : Search}

theorem Ready.length_le (h : Ready edge predictions s) :
    s.seen.length ≤ s.matched.length := by
  have hsubset : s.seen ⊆ List.range s.matched.length := fun r hr =>
    List.mem_range.mpr (h.seen r hr)
  simpa using (h.nodup.subperm hsubset).length_le

theorem Ready.see (h : Ready edge predictions s) {r p : Nat} (hr : r ∉ s.seen)
    (hedge : edge r p) : Ready edge predictions { s with seen := r :: s.seen } where
  nodup := List.nodup_cons.mpr ⟨hr, h.nodup⟩
  seen := List.forall_mem_cons.mpr ⟨h.edges r p hedge, h.seen⟩
  edges := h.edges
  matched := h.matched

/-- A successful search: references that were seen before keep their partners. -/
structure Exchanged (edge : Nat → Nat → Prop) (p : Nat) (s s' : Search) : Prop where
  kept : ∀ r ∈ s.seen, s'.matched[r]? = s.matched[r]?
  gains : Gains p s.matched s'.matched
  edges : ∀ (r q : Nat), s'.matched[r]? = some (some q) → s.matched[r]? = some (some q) ∨ edge r q

/-- A search without success: all its targets are seen, and so are the neighbours of the partners
of the references that it has seen. -/
structure Stuck (edge : Nat → Nat → Prop) (predictions : Nat) (targets : Nat → Prop)
    (s s' : Search) : Prop where
  ready : Ready edge predictions s'
  matched : s'.matched = s.matched
  suffix : s.seen <:+ s'.seen
  targets : ∀ r, targets r → r ∈ s'.seen
  closed : ∀ r ∈ s'.seen, r ∈ s.seen ∨
    ∃ q, s.matched[r]? = some (some q) ∧ ∀ r', edge r' q → r' ∈ s'.seen

/-- What a search ends with. -/
def Ends (edge : Nat → Nat → Prop) (predictions p : Nat) (targets : Nat → Prop) (s : Search)
    (result : Bool × Search) : Prop :=
  if result.1 then Exchanged edge p s result.2 else Stuck edge predictions targets s result.2

theorem Stuck.refl (h : Ready edge predictions s) {targets : Nat → Prop}
    (htargets : ∀ r, targets r → r ∈ s.seen) : Stuck edge predictions targets s s where
  ready := h
  matched := rfl
  suffix := List.suffix_rfl
  targets := htargets
  closed _ hr := .inl hr

theorem Stuck.trans {first rest targets : Nat → Prop} (h : Stuck edge predictions first s s')
    (h' : Stuck edge predictions rest s' s'') (htargets : ∀ r, targets r → first r ∨ rest r) :
    Stuck edge predictions targets s s'' where
  ready := h'.ready
  matched := h'.matched.trans h.matched
  suffix := h.suffix.trans h'.suffix
  targets r hr := (htargets r hr).elim (fun hr => h'.suffix.subset (h.targets r hr)) (h'.targets r)
  closed r hr := by
    rcases h'.closed r hr with hr | ⟨q, hq, hclosed⟩
    · refine (h.closed r hr).imp_right fun ⟨q, hq, hclosed⟩ => ?_
      exact ⟨q, hq, fun r' hr' => h'.suffix.subset (hclosed r' hr')⟩
    · exact .inr ⟨q, h.matched ▸ hq, hclosed⟩

/-- The partner of a reference cannot leave it. -/
theorem Stuck.partner {r q : Nat} (hq : s.matched[r]? = some (some q))
    (h : Stuck edge predictions (edge · q) { s with seen := r :: s.seen } s') :
    Stuck edge predictions (· = r) s s' where
  ready := h.ready
  matched := h.matched
  suffix := (List.suffix_cons r s.seen).trans h.suffix
  targets r' hr' := h.suffix.subset (hr' ▸ List.mem_cons_self ..)
  closed r' hr' := by
    rcases h.closed r' hr' with hseen | hclosed
    · rcases List.mem_cons.mp hseen with rfl | hseen
      · exact .inr ⟨q, hq, h.targets⟩
      · exact .inl hseen
    · exact .inr hclosed

theorem Exchanged.of_stuck {p : Nat} {targets : Nat → Prop}
    (h : Stuck edge predictions targets s s') (h' : Exchanged edge p s' s'') :
    Exchanged edge p s s'' where
  kept r hr := h.matched ▸ h'.kept r (h.suffix.subset hr)
  gains := h.matched ▸ h'.gains
  edges r q hq := h.matched ▸ h'.edges r q hq

/-- A reference without a partner gets one. -/
theorem Exchanged.free {p r : Nat} {seen : List Nat} (hr : r ∉ s.seen)
    (hfree : s.matched[r]? = some none) (hedge : edge r p) :
    Exchanged edge p s ⟨s.matched.set r (some p), seen⟩ where
  kept r' hr' := List.getElem?_set_ne (ne_of_mem_of_not_mem hr' hr).symm
  gains := gains_free hfree
  edges r' q hq := by
    rcases getElem?_assign hq with ⟨rfl, rfl⟩ | hq
    · exact .inr hedge
    · exact .inl hq

/-- A reference whose partner has got another one gets a new partner. -/
theorem Exchanged.exchange {p q r : Nat} {seen : List Nat} (hr : r ∉ s.seen)
    (hq : s.matched[r]? = some (some q)) (hedge : edge r p)
    (h : Exchanged edge q { s with seen := r :: s.seen } s') :
    Exchanged edge p s ⟨s'.matched.set r (some p), seen⟩ where
  kept r' hr' := by
    refine (List.getElem?_set_ne (ne_of_mem_of_not_mem hr' hr).symm).trans ?_
    exact h.kept r' (List.mem_cons_of_mem _ hr')
  gains := gains_exchange h.gains ((h.kept r (List.mem_cons_self ..)).trans hq)
  edges r' q' hq' := by
    rcases getElem?_assign hq' with ⟨rfl, rfl⟩ | hq'
    · exact .inr hedge
    · exact h.edges r' q' hq'

end Search

section Augment

variable {α : Type} {adjacency : List (List (Nat × α))} {n : Nat}

/-- The references that a candidate list names. -/
def Names (candidates : List (Nat × α)) (r : Nat) : Prop := ∃ value, (r, value) ∈ candidates

/-- What a search for one prediction does, on enough fuel. -/
def Augments (adjacency : List (List (Nat × α))) (fuel : Nat)
    (augment : Nat → Search → Option (Bool × Search)) : Prop :=
  ∀ p s, p < adjacency.length → Ready (Adjacent adjacency) adjacency.length s →
    s.matched.length < fuel + s.seen.length →
    ∃ result, augment p s = some result ∧
      Ends (Adjacent adjacency) adjacency.length p (Adjacent adjacency · p) s result

theorem augmentFrom_spec {fuel : Nat} {augment : Nat → Search → Option (Bool × Search)}
    (haugment : Augments adjacency fuel augment) {p : Nat} :
    ∀ (candidates : List (Nat × α)) (s : Search),
      (∀ r, Names candidates r → Adjacent adjacency r p) →
      Ready (Adjacent adjacency) adjacency.length s → s.matched.length ≤ fuel + s.seen.length →
      ∃ result, augmentFrom augment p candidates s = some result ∧
        Ends (Adjacent adjacency) adjacency.length p (Names candidates) s result
  | [], s, _, hready, _ => ⟨(false, s), rfl, Stuck.refl hready fun r hr => by
      obtain ⟨value, hr⟩ := hr
      cases hr⟩
  | (r, value) :: candidates, s, hedges, hready, hfuel => by
    have hrest : ∀ r, Names candidates r → Adjacent adjacency r p := fun r ⟨v, hr⟩ =>
      hedges r ⟨v, List.mem_cons_of_mem _ hr⟩
    have hnames : ∀ r', Names ((r, value) :: candidates) r' → r' = r ∨ Names candidates r' := by
      rintro r' ⟨v, hr'⟩
      rcases List.mem_cons.mp hr' with heq | hr'
      · exact .inl (congrArg Prod.fst heq)
      · exact .inr ⟨v, hr'⟩
    have hedge : Adjacent adjacency r p := hedges r ⟨value, List.mem_cons_self ..⟩
    -- behind a search that is stuck, the loop goes on with the other candidates
    have hloop : ∀ s', Stuck (Adjacent adjacency) adjacency.length (· = r) s s' →
        ∃ result, augmentFrom augment p candidates s' = some result ∧
          Ends (Adjacent adjacency) adjacency.length p (Names ((r, value) :: candidates)) s
            result := by
      intro s' hs'
      have hlength := hs'.suffix.length_le
      obtain ⟨⟨found, s''⟩, hresult, hends⟩ := augmentFrom_spec haugment candidates s' hrest
        hs'.ready (hs'.matched ▸ (by omega))
      refine ⟨(found, s''), hresult, ?_⟩
      cases found with
      | true => exact Exchanged.of_stuck hs' hends
      | false => exact Stuck.trans hs' hends hnames
    unfold augmentFrom
    by_cases hseen : r ∈ s.seen
    · rw [if_pos hseen]
      exact hloop s (Stuck.refl hready fun r' hr' => hr' ▸ hseen)
    · rw [if_neg hseen]
      have hr := hready.edges r p hedge
      cases hpartner : s.matched[r]? with
      | none => exact absurd hr (by simpa using hpartner)
      | some partner =>
        cases partner with
        | none =>
          simp only [hpartner]
          exact ⟨_, rfl, Exchanged.free hseen hpartner hedge⟩
        | some q =>
          obtain ⟨⟨found, s'⟩, hresult, hends⟩ := haugment q { s with seen := r :: s.seen }
            (hready.matched r q hpartner) (hready.see hseen hedge)
            (by simp only [List.length_cons]; omega)
          simp only [hpartner, hresult]
          cases found with
          | true => exact ⟨_, rfl, Exchanged.exchange hseen hpartner hedge hends⟩
          | false => exact hloop s' (Stuck.partner hpartner hends)

theorem augment_spec (fuel : Nat) : Augments adjacency fuel (augment adjacency fuel) := by
  induction fuel with
  | zero =>
    intro p s _ hready hfuel
    have hle := hready.length_le
    omega
  | succ fuel ih =>
    intro p s hp hready hfuel
    have hcandidates : adjacency[p]? = some adjacency[p] := List.getElem?_eq_getElem hp
    obtain ⟨result, hresult, hends⟩ := augmentFrom_spec ih adjacency[p] s
      (fun r hr => ⟨adjacency[p], hcandidates, hr⟩) hready (by omega)
    refine ⟨result, ?_, ?_⟩
    · unfold augment
      simp only [hcandidates, hresult]
    · have hnames : Names adjacency[p] = (Adjacent adjacency · p) := by
        funext r
        refine propext ⟨fun hr => ⟨_, hcandidates, hr⟩, fun ⟨candidates, hmem, hr⟩ => ?_⟩
        cases hcandidates.symm.trans hmem
        exact hr
      exact hnames ▸ hends

/-! ## The search for every prediction -/

/-- A largest matching of the predictions before `k`. -/
structure Largest (edge : Nat → Nat → Prop) (references k : Nat)
    (matched : List (Option Nat)) : Prop where
  length : matched.length = references
  matching : IsMatching (restrict edge (· < k)) (assignedPairs matched)
  maximum : IsMaximum (restrict edge (· < k)) (assignedPairs matched)

theorem Largest.init (edge : Nat → Nat → Prop) (references : Nat) :
    Largest edge references 0 (List.replicate references none) where
  length := List.length_replicate
  matching := by
    rw [assignedPairs_replicate]
    exact ⟨fun r p h => absurd h List.not_mem_nil, List.nodup_nil, List.nodup_nil⟩
  maximum := by
    rw [assignedPairs_replicate]
    exact IsMaximum.nil Nat.not_lt_zero

variable {edge : Nat → Nat → Prop} {predictions k : Nat} {matched : List (Option Nat)} {s : Search}

theorem Largest.edge_of_matched (h : Largest edge n k matched) {r q : Nat}
    (hq : matched[r]? = some (some q)) : edge r q ∧ q < k :=
  h.matching.edges r q ((mem_assignedPairs r).mpr hq)

theorem Largest.lt_of_mem (h : Largest edge n k matched) {q : Nat}
    (hq : q ∈ matched.reduceOption) : q < k := by
  rw [← map_snd_assignedPairs] at hq
  obtain ⟨⟨r, q⟩, hpair, rfl⟩ := List.mem_map.mp hq
  exact (h.matching.edges r q hpair).2

theorem Largest.exchanged (h : Largest edge n k matched)
    (hs : Exchanged edge k ⟨matched, []⟩ s) : Largest edge n (k + 1) s.matched where
  length := hs.gains.length_eq.trans h.length
  matching := by
    have hk : k ∉ matched.reduceOption := fun hmem => absurd (h.lt_of_mem hmem) (Nat.lt_irrefl k)
    refine hs.gains.isMatching h.matching hk fun r q hq => ⟨?_, ?_⟩
    · rcases hs.edges r q hq with hold | hnew
      · exact (h.edge_of_matched hold).1
      · exact hnew
    · have hmem : q ∈ s.matched.reduceOption :=
        List.mem_filterMap.mpr ⟨some q, List.mem_of_getElem? hq, rfl⟩
      rcases List.mem_cons.mp (hs.gains.perm.mem_iff.mp hmem) with rfl | hold
      · exact Nat.lt_succ_self q
      · exact Nat.lt_succ_of_lt (h.lt_of_mem hold)
  maximum := h.maximum.grow (fun p hp => Nat.lt_succ_iff_lt_or_eq.mp hp) hs.gains.length_pairs.ge

theorem Largest.stuck (h : Largest edge n k matched)
    (hs : Stuck edge predictions (edge · k) ⟨matched, []⟩ s) :
    Largest edge n (k + 1) s.matched := by
  rw [hs.matched]
  have hpartner : ∀ r ∈ s.seen,
      ∃ q, matched[r]? = some (some q) ∧ ∀ r', edge r' q → r' ∈ s.seen := fun r hr =>
    (hs.closed r hr).resolve_left List.not_mem_nil
  refine ⟨h.length, h.matching.mono fun r q _ hedge => ⟨hedge.1, Nat.lt_succ_of_lt hedge.2⟩, ?_⟩
  refine IsMaximum.stuck h.matching h.maximum (fun p hp => Nat.lt_succ_iff_lt_or_eq.mp hp)
    (· ∈ s.seen) (fun r hr => ?_) hs.targets fun r r' q hr hq hedge => ?_
  · obtain ⟨q, hq, -⟩ := hpartner r hr
    exact ⟨q, (mem_assignedPairs r).mpr hq⟩
  · obtain ⟨q', hq', hclosed⟩ := hpartner r hr
    cases ((mem_assignedPairs r).mp hq).symm.trans hq'
    exact hclosed r' hedge

variable {fuel : Nat}

theorem Largest.step (h : Largest (Adjacent adjacency) n k matched) (hk : k < adjacency.length)
    (hedges : ∀ r p, Adjacent adjacency r p → r < n) (hfuel : n < fuel) :
    ∃ result, augment adjacency fuel k ⟨matched, []⟩ = some result ∧
      Largest (Adjacent adjacency) n (k + 1) result.2.matched := by
  have hready : Ready (Adjacent adjacency) adjacency.length ⟨matched, []⟩ := by
    refine ⟨List.nodup_nil, fun r hr => absurd hr List.not_mem_nil, h.length ▸ hedges, ?_⟩
    exact fun r q hq => Nat.lt_trans (h.edge_of_matched hq).2 hk
  obtain ⟨⟨found, s⟩, hresult, hends⟩ := augment_spec fuel k ⟨matched, []⟩ hk hready
    (by simpa [h.length] using hfuel)
  refine ⟨(found, s), hresult, ?_⟩
  cases found with
  | true => exact h.exchanged hends
  | false => exact h.stuck hends

theorem augmentAll_spec (hedges : ∀ r p, Adjacent adjacency r p → r < n) (hfuel : n < fuel) :
    ∀ k ≤ adjacency.length, ∃ matched,
      augmentAll adjacency fuel (List.range k) (List.replicate n none) = some matched ∧
        Largest (Adjacent adjacency) n k matched
  | 0, _ => ⟨_, rfl, Largest.init _ n⟩
  | k + 1, hk => by
    obtain ⟨matched, hmatched, hlargest⟩ := augmentAll_spec hedges hfuel k (by omega)
    obtain ⟨result, hresult, hlargest⟩ := hlargest.step hk hedges hfuel
    refine ⟨result.2.matched, ?_, hlargest⟩
    unfold augmentAll at hmatched ⊢
    rw [List.range_succ, List.foldlM_append, hmatched]
    simp [hresult]

end Augment

/-! ## The result -/

section Result

variable {α : Type} [Double α] {references predictions : List (BBox α)} {threshold : α}

/-- Boxes that overlap enough. -/
def Overlaps (references predictions : List (BBox α)) (threshold : α) (r p : Nat) : Prop :=
  ∃ reference ∈ references[r]?, ∃ prediction ∈ predictions[p]?,
    threshold ≤ intersectionOverUnion reference prediction

theorem adjacent_iff (r p : Nat) :
    Adjacent (predictions.map (adjacent references threshold)) r p ↔
      Overlaps references predictions threshold r p := by
  have hmem : ∀ (prediction : BBox α) (value : α),
      (r, value) ∈ adjacent references threshold prediction ↔
        (∃ reference ∈ references[r]?, intersectionOverUnion reference prediction = value) ∧
          threshold ≤ value := by
    intro prediction value
    unfold adjacent
    rw [(sortBy_perm ..).mem_iff, List.mem_filter, List.mem_map, decide_eq_true_eq]
    refine and_congr_left' ⟨?_, ?_⟩
    · rintro ⟨⟨reference, index⟩, hindex, heq⟩
      cases heq
      exact ⟨reference, List.mem_zipIdx_iff_getElem?.mp hindex, rfl⟩
    · rintro ⟨reference, hreference, rfl⟩
      exact ⟨(reference, r), List.mem_zipIdx_iff_getElem?.mpr hreference, rfl⟩
  unfold Adjacent Overlaps
  constructor
  · rintro ⟨candidates, hcandidates, value, hvalue⟩
    rw [Option.mem_def, List.getElem?_map, Option.map_eq_some_iff] at hcandidates
    obtain ⟨prediction, hprediction, rfl⟩ := hcandidates
    obtain ⟨⟨reference, hreference, rfl⟩, hle⟩ := (hmem prediction value).mp hvalue
    exact ⟨reference, hreference, prediction, hprediction, hle⟩
  · rintro ⟨reference, hreference, prediction, hprediction, hle⟩
    refine ⟨adjacent references threshold prediction, ?_, _,
      (hmem prediction _).mpr ⟨⟨reference, hreference, rfl⟩, hle⟩⟩
    rw [Option.mem_def, List.getElem?_map, hprediction]
    rfl

/-- The pairs of a matching with their overlaps. -/
theorem mapM_matchedPair : ∀ pairs : List (Nat × Nat),
    (∀ r p, (r, p) ∈ pairs → Overlaps references predictions threshold r p) →
    ∃ result, pairs.mapM (matchedPair references predictions) = some result ∧
      result.map (fun pair => (pair.1, pair.2.1)) = pairs ∧
      ∀ r p value, (r, p, value) ∈ result →
        ∃ reference ∈ references[r]?, ∃ prediction ∈ predictions[p]?,
          value = intersectionOverUnion reference prediction
  | [], _ => ⟨[], rfl, rfl, fun r p value h => absurd h List.not_mem_nil⟩
  | (r, p) :: pairs, h => by
    obtain ⟨reference, hreference, prediction, hprediction, -⟩ := h r p (List.mem_cons_self ..)
    obtain ⟨result, hresult, hkeys, hvalues⟩ := mapM_matchedPair pairs fun r' p' hpair =>
      h r' p' (List.mem_cons_of_mem _ hpair)
    refine ⟨(r, p, intersectionOverUnion reference prediction) :: result, ?_, ?_, ?_⟩
    · rw [List.mapM_cons, hresult]
      simp only [matchedPair, Option.mem_def.mp hreference, Option.mem_def.mp hprediction]
      rfl
    · rw [List.map_cons, hkeys]
    · intro r' p' value hmem
      rcases List.mem_cons.mp hmem with heq | hmem
      · cases heq
        exact ⟨reference, hreference, prediction, hprediction, rfl⟩
      · exact hvalues r' p' value hmem

/-- **Matching.** With fuel for every reference, the search ends with pairs of boxes that overlap
enough, no box twice, and no one-to-one set of such pairs has more. -/
theorem maximumIouMatching_spec (references predictions : List (BBox α)) (threshold : α)
    (fuel : Nat) (hfuel : references.length < fuel) :
    ∃ result, maximumIouMatching fuel references predictions threshold = some result ∧
      (∀ r p value, (r, p, value) ∈ result →
        ∃ reference ∈ references[r]?, ∃ prediction ∈ predictions[p]?,
          value = intersectionOverUnion reference prediction) ∧
      IsMatching (Overlaps references predictions threshold)
        (result.map fun pair => (pair.1, pair.2.1)) ∧
      IsMaximum (Overlaps references predictions threshold)
        (result.map fun pair => (pair.1, pair.2.1)) := by
  have hadjacent : Adjacent (predictions.map (adjacent references threshold)) =
      Overlaps references predictions threshold := by
    funext r p
    exact propext (adjacent_iff r p)
  have hedges : ∀ r p, Adjacent (predictions.map (adjacent references threshold)) r p →
      r < references.length := by
    intro r p h
    obtain ⟨reference, hreference, -⟩ := (adjacent_iff r p).mp h
    exact (List.getElem?_eq_some_iff.mp hreference).1
  obtain ⟨matched, hmatched, hlargest⟩ := augmentAll_spec hedges hfuel predictions.length
    (by rw [List.length_map])
  rw [hadjacent] at hlargest
  -- every edge is at one of the predictions
  have hrestrict : restrict (Overlaps references predictions threshold) (· < predictions.length) =
      Overlaps references predictions threshold := by
    funext r p
    refine propext ⟨And.left, fun h => ⟨h, ?_⟩⟩
    obtain ⟨-, -, prediction, hprediction, -⟩ := h
    exact (List.getElem?_eq_some_iff.mp hprediction).1
  obtain ⟨-, hmatching, hmaximum⟩ := hlargest
  rw [hrestrict] at hmatching hmaximum
  obtain ⟨result, hresult, hkeys, hvalues⟩ := mapM_matchedPair _ hmatching.edges
  refine ⟨result, ?_, hvalues, hkeys ▸ hmatching, hkeys ▸ hmaximum⟩
  unfold maximumIouMatching
  simp only [hmatched, hresult]

/-- Both references are matched, although the first prediction fits both and the second one fits
only what the first one takes. -/
theorem maximumIouMatching_spec_two :
    let references : List (BBox ℚ) := [⟨0, 0, 10, 10⟩, ⟨0, 0, 10, 6⟩]
    let predictions : List (BBox ℚ) := [⟨0, 0, 10, 9⟩, ⟨0, 0, 10, 12⟩]
    maximumIouMatching 3 references predictions 0.55 = some [(0, 1, 5 / 6), (1, 0, 2 / 3)] ∧
    ∃ result, maximumIouMatching 3 references predictions 0.55 = some result ∧
      IsMaximum (Overlaps references predictions 0.55)
        (result.map fun pair => (pair.1, pair.2.1)) := by
  intro references predictions
  obtain ⟨result, hresult, -, -, hmaximum⟩ :=
    maximumIouMatching_spec references predictions 0.55 3 (by decide)
  exact ⟨by decide +kernel, result, hresult, hmaximum⟩

end Result

end DocParser.Benchmark
