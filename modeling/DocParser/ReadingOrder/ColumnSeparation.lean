import DocParser.Common.Sorting
import DocParser.Lib.Intervals
import DocParser.ReadingOrder.Columns
import Mathlib.Algebra.BigOperators.Group.List.Basic
import Mathlib.Algebra.Order.BigOperators.Group.List
import Mathlib.Data.List.Chain

/-!
# Separated columns

The columns of a group are the median edges of its clusters, sorted by their centres and joined
where they are too close. `columns_separated_iff`: they come out apart exactly when no column that
starts behind all before it, and so is not joined to them, is followed by one that reaches back to
them, or when there are five cuts in any case and the limit of six columns joins the rest.

1. The median left edge of a cluster is left of its median right edge (`weightedMedian_lt`).
2. The two passes are those of intervals (`mergeCloseColumns_interval`, `excess_spec`).
3. The rest is arithmetic with the number of cuts.
-/

namespace DocParser.ReadingOrder

open Document Intervals

/-! ## Weighted medians -/

section Medians

/-- The weight of the values with a property. -/
def weightOf (p : ℚ → Bool) (values : List (ℚ × ℚ)) : ℚ :=
  ((values.filter fun v => p v.1).map Prod.snd).sum

/-- The values up to `m` have half of the weight, those below it have less. -/
structure IsWeightedMedian (values : List (ℚ × ℚ)) (m : ℚ) : Prop where
  mem : m ∈ values.map Prod.fst
  upTo : (values.map Prod.snd).sum ≤ 2 * weightOf (fun v => decide (v ≤ m)) values
  below : 2 * weightOf (fun v => decide (v < m)) values < (values.map Prod.snd).sum

theorem weightOf_cons (p : ℚ → Bool) (v : ℚ × ℚ) (values : List (ℚ × ℚ)) :
    weightOf p (v :: values) = (if p v.1 then v.2 else 0) + weightOf p values := by
  unfold weightOf
  rw [List.filter_cons]
  split_ifs
  · rw [List.map_cons, List.sum_cons]
  · rw [zero_add]

theorem weightOf_perm {p : ℚ → Bool} {l l' : List (ℚ × ℚ)} (h : l.Perm l') :
    weightOf p l = weightOf p l' :=
  ((h.filter _).map _).sum_eq

theorem weightOf_nonneg {p : ℚ → Bool} {values : List (ℚ × ℚ)} (h : ∀ v ∈ values, 0 < v.2) :
    0 ≤ weightOf p values := by
  refine List.sum_nonneg fun x hx => ?_
  obtain ⟨v, hv, rfl⟩ := List.mem_map.mp hx
  exact (h v (List.mem_filter.mp hv).1).le

theorem weightedMedianLoop_cons (total last cumulative value weight : ℚ)
    (rest : List (ℚ × ℚ)) :
    weightedMedianLoop total last cumulative ((value, weight) :: rest) =
      if total ≤ (cumulative + weight) * 2 then value
      else weightedMedianLoop total last (cumulative + weight) rest := by
  have htwo : (2.0 : ℚ) = 2 := by norm_num
  rw [← htwo]
  rfl

/-- The loop stops where the weight passes its half. -/
theorem weightedMedianLoop_spec (total last : ℚ) (values : List (ℚ × ℚ)) :
    ∀ cumulative, values ≠ [] → (∀ v ∈ values, 0 < v.2) →
      values.Pairwise (fun v w => v.1 ≤ w.1) → 0 ≤ cumulative → 2 * cumulative < total →
      total = cumulative + (values.map Prod.snd).sum →
      weightedMedianLoop total last cumulative values ∈ values.map Prod.fst ∧
        total ≤ 2 * (cumulative + weightOf
          (fun v => decide (v ≤ weightedMedianLoop total last cumulative values)) values) ∧
        2 * (cumulative + weightOf
          (fun v => decide (v < weightedMedianLoop total last cumulative values)) values) < total := by
  induction values with
  | nil => exact fun _ h => absurd rfl h
  | cons v rest ih =>
    intro cumulative _ hweights hsorted hzero hbelow htotal
    obtain ⟨value, weight⟩ := v
    obtain ⟨hweight, hweights⟩ := List.forall_mem_cons.mp hweights
    obtain ⟨hfirst, hsorted⟩ := List.pairwise_cons.mp hsorted
    rw [weightedMedianLoop_cons]
    split_ifs with hstop
    · have hnone : weightOf (fun v => decide (v < value)) rest = 0 := by
        unfold weightOf
        rw [List.filter_eq_nil_iff.mpr]
        · rfl
        · intro v hv
          simpa using hfirst v hv
      have hrest := weightOf_nonneg (p := fun v => decide (v ≤ value)) hweights
      rw [weightOf_cons, weightOf_cons, hnone]
      simp only [le_refl, lt_irrefl, decide_true, decide_false, if_true, Bool.false_eq_true,
        if_false]
      refine ⟨List.mem_cons_self .., ?_, by linarith⟩
      linarith
    · rw [List.map_cons, List.sum_cons] at htotal
      have hne : rest ≠ [] := by
        rintro rfl
        simp only [List.map_nil, List.sum_nil] at htotal
        linarith
      obtain ⟨hmem, hupTo, hless⟩ := ih (cumulative + weight) hne hweights hsorted
        (by linarith) (by linarith) (by linarith)
      -- the first value is at most the median, which comes behind it
      obtain ⟨w, hw, hmedian⟩ := List.mem_map.mp hmem
      have hle : value ≤ weightedMedianLoop total last (cumulative + weight) rest :=
        hmedian ▸ hfirst w hw
      refine ⟨List.mem_cons_of_mem _ hmem, ?_, ?_⟩
      · rw [weightOf_cons, if_pos (by simpa using hle)]
        linarith
      · rw [weightOf_cons]
        split_ifs
        · linarith
        · linarith

/-- **Weighted median.** -/
theorem weightedMedian_spec {values : List (ℚ × ℚ)} (hne : values ≠ [])
    (hweights : ∀ v ∈ values, 0 < v.2) : IsWeightedMedian values (weightedMedian values) := by
  have hperm : (sortBy (fun a b : ℚ × ℚ => decide (a.1 < b.1)) values).Perm values :=
    sortBy_perm _ _
  have hsorted := sortBy_sorted (P := fun _ => True)
    (strictWeakOn_decide (Prod.fst : ℚ × ℚ → ℚ)) (l := values) fun _ _ => trivial
  unfold weightedMedian
  generalize sortBy (fun a b : ℚ × ℚ => decide (a.1 < b.1)) values = sorted at hperm hsorted
  have hnonempty : sorted ≠ [] := fun h => hne (List.nil_perm.mp (h ▸ hperm))
  have hpos : ∀ v ∈ sorted, 0 < v.2 := fun v hv => hweights v (hperm.mem_iff.mp hv)
  have hsum : (sorted.map Prod.snd).sum = (values.map Prod.snd).sum := (hperm.map _).sum_eq
  have hfold : sorted.foldl (fun t v => t + v.2) 0 = (sorted.map Prod.snd).sum := by
    rw [List.sum_eq_foldl, List.foldl_map]
  have htotal : 0 < (sorted.map Prod.snd).sum := by
    obtain ⟨v, rest, rfl⟩ := List.exists_cons_of_ne_nil hnonempty
    have hrest : 0 ≤ (rest.map Prod.snd).sum := List.sum_nonneg fun x hx => by
      obtain ⟨w, hw, rfl⟩ := List.mem_map.mp hx
      exact (hpos w (List.mem_cons_of_mem _ hw)).le
    have hv := hpos v (List.mem_cons_self ..)
    rw [List.map_cons, List.sum_cons]
    linarith
  dsimp only
  rw [List.getLast?_eq_some_getLast hnonempty]
  show IsWeightedMedian values
    (weightedMedianLoop (sorted.foldl (fun t v => t + v.2) 0) _ (0 : ℚ) sorted)
  rw [hfold]
  obtain ⟨hmem, hupTo, hbelow⟩ := weightedMedianLoop_spec (sorted.map Prod.snd).sum
    (sorted.getLast hnonempty).1 sorted 0 hnonempty hpos (hsorted.imp fun h => by simpa using h)
    le_rfl (by linarith) (by rw [zero_add])
  refine ⟨(hperm.map _).mem_iff.mp hmem, ?_, ?_⟩
  · rw [← hsum, ← weightOf_perm hperm]
    linarith
  · rw [← hsum, ← weightOf_perm hperm]
    linarith

/-- **Order.** Values that are less throughout have a lesser median. -/
theorem weightedMedian_lt {τ : Type} {members : List τ} {f g w : τ → ℚ} (hne : members ≠ [])
    (hw : ∀ x ∈ members, 0 < w x) (hlt : ∀ x ∈ members, f x < g x) :
    weightedMedian (members.map fun x => (f x, w x)) <
      weightedMedian (members.map fun x => (g x, w x)) := by
  have hspec : ∀ h : τ → ℚ, IsWeightedMedian (members.map fun x => (h x, w x))
      (weightedMedian (members.map fun x => (h x, w x))) := by
    intro h
    refine weightedMedian_spec (by simpa using hne) fun v hv => ?_
    obtain ⟨x, hx, rfl⟩ := List.mem_map.mp hv
    exact hw x hx
  have hsum : ∀ h : τ → ℚ, ((members.map fun x => (h x, w x)).map Prod.snd).sum =
      (members.map w).sum := by
    intro h
    rw [List.map_map]
    rfl
  have hf := (hspec f).below
  have hg := (hspec g).upTo
  rw [hsum] at hf hg
  by_contra hle
  rw [not_lt] at hle
  generalize weightedMedian (members.map fun x => (f x, w x)) = m at hf hle
  generalize weightedMedian (members.map fun x => (g x, w x)) = n at hg hle
  -- what is at most the larger median on the right is below it on the left
  have hweight : weightOf (fun v => decide (v ≤ n)) (members.map fun x => (g x, w x)) ≤
      weightOf (fun v => decide (v < m)) (members.map fun x => (f x, w x)) := by
    clear hf hg hspec hsum hne
    induction members with
    | nil => exact le_rfl
    | cons x rest ih =>
      obtain ⟨hwx, hw⟩ := List.forall_mem_cons.mp hw
      obtain ⟨hltx, hlt⟩ := List.forall_mem_cons.mp hlt
      have hrest := ih hw hlt
      rw [List.map_cons, List.map_cons, weightOf_cons, weightOf_cons]
      dsimp only
      by_cases hgx : g x ≤ n
      · have hfx : f x < m := hltx.trans_le (hgx.trans hle)
        rw [if_pos (by simpa using hgx), if_pos (by simpa using hfx)]
        linarith
      · rw [if_neg (by simpa using hgx)]
        split_ifs <;> linarith
  linarith

end Medians

/-! ## The passes over the columns -/

section Passes

variable {gutter : ℚ} {columns : List (Column ℚ)}

def Column.interval (c : Column ℚ) : Intervals.Interval ℚ := ⟨c.x0, c.x1⟩

theorem interval_mergeColumnPair (c d : Column ℚ) :
    (mergeColumnPair c d).interval = hull c.interval d.interval := by
  unfold mergeColumnPair Column.interval hull
  rw [double_min, double_max]

/-- The first pass joins intervals that are not apart. -/
theorem mergeCloseColumns_interval (rest : List (Column ℚ)) : ∀ c,
    (mergeCloseColumns gutter c rest).map Column.interval =
      close gutter c.interval (rest.map Column.interval) := by
  induction rest with
  | nil => exact fun _ => rfl
  | cons d rest ih =>
    intro c
    have hclose : d.x0 - c.x1 ≤ gutter ↔ d.interval.lo ≤ c.interval.hi + gutter :=
      sub_le_iff_le_add'
    rw [mergeCloseColumns, List.map_cons, close, ← interval_mergeColumnPair]
    by_cases h : d.x0 - c.x1 ≤ gutter
    · rw [if_pos h, if_pos (hclose.mp h), ih]
    · rw [if_neg h, if_neg (hclose.not.mp h), List.map_cons, ih]

theorem mergeAt_append (front : List (Column ℚ)) (c d : Column ℚ) (rest : List (Column ℚ)) :
    mergeAt front.length (front ++ c :: d :: rest) = front ++ mergeColumnPair c d :: rest := by
  induction front with
  | nil => rfl
  | cons f front ih =>
    show f :: mergeAt front.length (front ++ c :: d :: rest) = _
    rw [ih]
    rfl

/-- The fold selects a least gap, or keeps its start. -/
theorem foldl_least (gaps : List (ℚ × Nat)) : ∀ best : ℚ × Nat,
    let least := gaps.foldl (fun best gap => if gap.1 < best.1 then gap else best) best
    (least = best ∨ least ∈ gaps) ∧ least.1 ≤ best.1 ∧ ∀ gap ∈ gaps, least.1 ≤ gap.1 := by
  induction gaps with
  | nil => exact fun best => ⟨Or.inl rfl, le_rfl, fun gap h => absurd h List.not_mem_nil⟩
  | cons gap gaps ih =>
    intro best
    rw [List.foldl_cons]
    obtain ⟨hmem, hle, hall⟩ := ih (if gap.1 < best.1 then gap else best)
    dsimp only at hmem hle hall ⊢
    generalize gaps.foldl (fun best gap => if gap.1 < best.1 then gap else best)
      (if gap.1 < best.1 then gap else best) = least at hmem hle hall ⊢
    split_ifs at hmem hle with hlt
    · refine ⟨Or.inr ?_, hle.trans hlt.le, List.forall_mem_cons.mpr ⟨hle, hall⟩⟩
      rcases hmem with rfl | hmem
      · exact List.mem_cons_self ..
      · exact List.mem_cons_of_mem _ hmem
    · refine ⟨hmem.imp_right (List.mem_cons_of_mem _), hle, List.forall_mem_cons.mpr ⟨?_, hall⟩⟩
      exact hle.trans (not_lt.mp hlt)

/-- **Narrowest gap.** When it is wider than the gutter, so are all. -/
theorem narrowestGap_spec (hgutter : gutter < Double.largest) (hlength : 2 ≤ columns.length) :
    ∃ front c d rest, columns = front ++ c :: d :: rest ∧ narrowestGap columns = front.length ∧
      (Apart gutter c.interval d.interval →
        (columns.map Column.interval).IsChain (Apart gutter)) := by
  obtain ⟨hmem, -, hall⟩ := foldl_least
    (List.zipWith (fun c next : Column ℚ => next.x0 - c.x1) columns columns.tail).zipIdx
    (Double.largest, 0)
  have hindex : narrowestGap columns = (((List.zipWith (fun c next : Column ℚ => next.x0 - c.x1)
    columns columns.tail).zipIdx.foldl (fun best gap => if gap.1 < best.1 then gap else best)
      (Double.largest, 0))).2 := rfl
  generalize (List.zipWith (fun c next : Column ℚ => next.x0 - c.x1)
    columns columns.tail).zipIdx.foldl (fun best gap => if gap.1 < best.1 then gap else best)
      (Double.largest, 0) = least at hmem hall hindex
  have hgaps : (List.zipWith (fun c next : Column ℚ => next.x0 - c.x1)
      columns columns.tail).length = columns.length - 1 := by
    rw [List.length_zipWith, List.length_tail]
    omega
  -- a gap that is at least the least one
  have hgap : ∀ i (hi : i + 1 < columns.length),
      least.1 ≤ columns[i + 1].x0 - columns[i].x1 := by
    intro i hi
    refine hall (columns[i + 1].x0 - columns[i].x1, i) (List.mem_zipIdx_iff_getElem?.mpr ?_)
    rw [List.getElem?_eq_getElem (by omega), List.getElem_zipWith, List.getElem_tail]
  have hchain : gutter < least.1 → (columns.map Column.interval).IsChain (Apart gutter) := by
    intro hlt
    refine List.isChain_iff_getElem.mpr fun i hi => ?_
    rw [List.length_map] at hi
    rw [List.getElem_map, List.getElem_map]
    have hle := hgap i hi
    show columns[i].x1 + gutter < columns[i + 1].x0
    linarith
  have hlt : least.2 + 1 < columns.length := by
    rcases hmem with rfl | hmem
    · omega
    · have hget := List.mem_zipIdx_iff_getElem?.mp hmem
      have hlt := (List.getElem?_eq_some_iff.mp hget).1
      omega
  refine ⟨columns.take least.2, columns[least.2], columns[least.2 + 1],
    columns.drop (least.2 + 2), ?_, ?_, fun hapart => hchain ?_⟩
  · rw [← List.drop_eq_getElem_cons, ← List.drop_eq_getElem_cons, List.take_append_drop]
  · rw [hindex, List.length_take]
    omega
  · rcases hmem with rfl | hmem
    · exact hgutter
    · have hget := List.mem_zipIdx_iff_getElem?.mp hmem
      obtain ⟨hi, heq⟩ := List.getElem?_eq_some_iff.mp hget
      rw [List.getElem_zipWith, List.getElem_tail] at heq
      unfold Apart Column.interval at hapart
      dsimp only at hapart
      linarith

/-- **The second pass** loses cuts only where all columns are apart. -/
theorem excess_spec (hzero : 0 ≤ gutter) (hgutter : gutter < Double.largest) (excess : Nat) :
    ∀ columns : List (Column ℚ), excess + 1 ≤ columns.length → (∀ c ∈ columns, c.x0 < c.x1) →
      (mergeExcessColumns excess columns).length = columns.length - excess ∧
      (∀ c ∈ mergeExcessColumns excess columns, c.x0 < c.x1) ∧
      cuts gutter ((mergeExcessColumns excess columns).map Column.interval) =
        min (cuts gutter (columns.map Column.interval))
          ((mergeExcessColumns excess columns).length - 1) := by
  induction excess with
  | zero =>
    intro columns hlength hproper
    refine ⟨rfl, hproper, ?_⟩
    cases columns with
    | nil => cases hlength
    | cons c rest =>
      have hlt : cuts gutter (c.interval :: rest.map Column.interval) <
          (c.interval :: rest.map Column.interval).length := cuts_lt
      rw [List.length_cons, List.length_map] at hlt
      show cuts gutter (c.interval :: rest.map Column.interval) = min _ (rest.length + 1 - 1)
      rw [List.map_cons]
      omega
  | succ excess ih =>
    intro columns hlength hproper
    obtain ⟨front, c, d, rest, rfl, hindex, hnarrow⟩ :=
      narrowestGap_spec hgutter (show 2 ≤ columns.length by omega)
    have hproperIntervals : ∀ b ∈ front.map Column.interval ++ c.interval :: d.interval ::
        rest.map Column.interval, b.lo < b.hi := by
      rw [← List.map_cons, ← List.map_cons, ← List.map_append]
      exact List.forall_mem_map.mpr hproper
    rw [List.map_append, List.map_cons, List.map_cons] at hnarrow
    have hcuts := cuts_join hzero hproperIntervals hnarrow
    have hmerged : (front ++ mergeColumnPair c d :: rest).map Column.interval =
        front.map Column.interval ++ hull c.interval d.interval :: rest.map Column.interval := by
      rw [List.map_append, List.map_cons, interval_mergeColumnPair]
    have hproperMerged : ∀ b ∈ front ++ mergeColumnPair c d :: rest, b.x0 < b.x1 := by
      obtain ⟨hfront, hc, hd, hrest⟩ := List.forall_mem_append.mp hproper |>.imp_right fun h =>
        List.forall_mem_cons.mp h |>.imp_right List.forall_mem_cons.mp
      refine List.forall_mem_append.mpr ⟨hfront, List.forall_mem_cons.mpr ⟨?_, hrest⟩⟩
      show (mergeColumnPair c d).interval.lo < (mergeColumnPair c d).interval.hi
      rw [interval_mergeColumnPair]
      exact (min_le_left _ _).trans_lt (hc.trans_le (le_max_left _ _))
    have hlengthMerged : (front ++ mergeColumnPair c d :: rest).length + 1 =
        (front ++ c :: d :: rest).length := by
      simp only [List.length_append, List.length_cons]
      omega
    obtain ⟨hlen, hproper', hcuts'⟩ := ih (front ++ mergeColumnPair c d :: rest)
      (by omega) hproperMerged
    rw [mergeExcessColumns, hindex, mergeAt_append]
    refine ⟨by omega, hproper', ?_⟩
    rw [hcuts', hmerged, hcuts, List.map_append, List.map_cons, List.map_cons, ← hmerged,
      List.length_map]
    omega

end Passes

/-! ## The columns of the clusters -/

section Clusters

variable {elements : List (PageElement ℚ)} {indices : List Nat}

/-- A box with finite coordinates and a positive width and height. -/
structure ProperBox (box : BBox ℚ) : Prop where
  width : box.x0 < box.x1
  height : box.y0 < box.y1
  finite : ∀ x ∈ [box.x0, box.y0, box.x1, box.y1], |x| ≤ Double.largest

/-- The clusters have members, and these are among the indices. -/
theorem clusterElements_members (tolerance : ℚ) (regular : List Nat) :
    ∀ c ∈ clusterElements elements tolerance regular,
      c.members ≠ [] ∧ ∀ i ∈ c.members, i ∈ regular := by
  unfold clusterElements
  refine List.foldlRecOn (motive := fun clusters : List (ColumnCluster ℚ) =>
    ∀ c ∈ clusters, c.members ≠ [] ∧ ∀ i ∈ c.members, i ∈ regular) regular _
    (fun c hc => absurd hc List.not_mem_nil) fun clusters h index hindex c hc => ?_
  dsimp only at hc
  split at hc
  · rcases List.mem_append.mp hc with hc | hc
    · exact h c hc
    · obtain rfl := List.mem_singleton.mp hc
      refine ⟨List.cons_ne_nil _ _, fun i hi => ?_⟩
      rw [List.mem_singleton.mp hi]
      exact hindex
  · obtain ⟨k, hk⟩ := List.getElem?_of_mem hc
    rw [List.getElem?_modify] at hk
    obtain ⟨old, hold, rfl⟩ := Option.map_eq_some_iff.mp hk
    obtain ⟨hne, hmembers⟩ := h old (List.mem_of_getElem? hold)
    split_ifs
    · refine ⟨by simp, fun i hi => ?_⟩
      rcases List.mem_append.mp hi with hi | hi
      · exact hmembers i hi
      · rw [List.mem_singleton.mp hi]
        exact hindex
    · exact ⟨hne, hmembers⟩

theorem clusterElements_ne_nil (tolerance : ℚ) {regular : List Nat} (h : regular ≠ []) :
    clusterElements elements tolerance regular ≠ [] := by
  obtain ⟨first, rest, rfl⟩ := List.exists_cons_of_ne_nil h
  unfold clusterElements
  rw [List.foldl_cons]
  refine List.foldlRecOn (motive := fun clusters : List (ColumnCluster ℚ) => clusters ≠ [])
    rest _ (List.cons_ne_nil _ _) fun clusters h index _ => ?_
  dsimp only
  split
  · simp
  · intro hnil
    refine h (List.eq_nil_of_length_eq_zero ?_)
    have hlength := congrArg List.length hnil
    rwa [List.length_modify] at hlength

theorem columnCandidates_spec (elements : List (PageElement ℚ)) (hindices : indices ≠ []) :
    columnCandidates elements indices ≠ [] ∧
      ∀ i ∈ columnCandidates elements indices, i ∈ indices := by
  unfold columnCandidates
  dsimp only
  split_ifs with hfew
  · exact ⟨hindices, fun i hi => hi⟩
  · refine ⟨fun hnil => ?_, fun i hi => (List.mem_filter.mp hi).1⟩
    rw [hnil] at hfew
    exact hfew (by decide)

theorem regularElements_spec (elements : List (PageElement ℚ)) {candidates : List Nat} (width : ℚ)
    (hcandidates : candidates ≠ []) :
    regularElements elements candidates width ≠ [] ∧
      ∀ i ∈ regularElements elements candidates width, i ∈ candidates := by
  have hpos : 1 ≤ Nat.min 2 candidates.length :=
    Nat.le_min.mpr ⟨by decide, List.length_pos_of_ne_nil hcandidates⟩
  unfold regularElements
  dsimp only
  refine ⟨fun hnil => ?_, fun i hi => ?_⟩
  · have hperm := (sortBy_perm _ _).symm.trans (List.Perm.of_eq hnil)
    have hempty := hperm.eq_nil
    split_ifs at hempty with hfew
    · exact hcandidates hempty
    · rw [hempty] at hfew
      simp only [List.length_nil] at hfew
      omega
  · have hmem := (sortBy_perm _ _).mem_iff.mp hi
    split_ifs at hmem
    · exact hmem
    · exact (List.mem_filter.mp hmem).1

theorem one_le_weight (box : BBox ℚ) : (0 : ℚ) < Double.max 1 (bboxHeight box) := by
  rw [double_max]
  exact lt_max_of_lt_left (by norm_num : (0 : ℚ) < ((1 : Int) : ℚ))

/-- The column of a cluster is proper. -/
theorem clusterColumn_proper {cluster : ColumnCluster ℚ} (hne : cluster.members ≠ [])
    (hboxes : ∀ i ∈ cluster.members, ProperBox (elementAt elements i).bbox) :
    (clusterColumn elements cluster).x0 < (clusterColumn elements cluster).x1 :=
  weightedMedian_lt hne (fun i _ => one_le_weight (elementAt elements i).bbox)
    fun i hi => (hboxes i hi).width

theorem supportedColumns_spec {clusters : List (ColumnCluster ℚ)} (height gutter : ℚ)
    (hne : clusters ≠ [])
    (hclusters : ∀ c ∈ clusters, (clusterColumn elements c).x0 < (clusterColumn elements c).x1) :
    supportedColumns elements clusters height gutter ≠ [] ∧
      ∀ c ∈ supportedColumns elements clusters height gutter, c.x0 < c.x1 := by
  unfold supportedColumns
  dsimp only
  refine ⟨?_, List.forall_mem_map.mpr fun c hc => hclusters c (List.mem_filter.mp hc).1⟩
  rw [Ne, List.map_eq_nil_iff, List.filter_eq_nil_iff]
  push Not
  -- with few strong clusters all are kept, else the strong ones
  by_cases hfew : (clusters.filter fun c => decide (2 ≤ c.members.length) ||
      decide (height * 2.0 ≤ c.verticalSupport)).length < 2
  · obtain ⟨c, rest, rfl⟩ := List.exists_cons_of_ne_nil hne
    exact ⟨c, List.mem_cons_self .., by simp only [hfew, decide_true, Bool.true_or]⟩
  · obtain ⟨c, hc⟩ := List.exists_mem_of_length_pos
      (show 0 < (clusters.filter fun c => decide (2 ≤ c.members.length) ||
        decide (height * 2.0 ≤ c.verticalSupport)).length by omega)
    obtain ⟨hmem, hstrong⟩ := List.mem_filter.mp hc
    exact ⟨c, hmem, by simp only [hstrong, Bool.or_true, Bool.true_or]⟩

end Clusters

/-! ## The gutter -/

section Gutter

variable {elements : List (PageElement ℚ)}

theorem largest_large : (1000 : ℚ) < Double.largest := by
  have hpow : (1 : ℚ) ≤ 2 ^ 971 := one_le_pow₀ (by norm_num)
  calc (1000 : ℚ) < (2 ^ 53 - 1) * 1 := by norm_num
    _ ≤ (2 ^ 53 - 1) * 2 ^ 971 := mul_le_mul_of_nonneg_left hpow (by norm_num)

theorem minimumGutter_eq (width height : ℚ) :
    minimumGutter width height = max 1 (min (height * 0.10) (width * 0.02)) := by
  unfold minimumGutter
  rw [double_max, double_min]

theorem medianWidth_le {candidates : List Nat}
    (hboxes : ∀ i ∈ candidates, ProperBox (elementAt elements i).bbox) :
    medianWidth elements candidates ≤ 2 * Double.largest := by
  have hlarge := largest_large
  unfold medianWidth
  dsimp only
  rw [double_max]
  refine max_le ?_ ?_
  · have heps : (kEpsilon : ℚ) ≤ 1 := by
      show (1.0e-3 : ℚ) ≤ 1
      norm_num
    linarith
  · generalize hvalues : ((candidates.map fun i => (elementAt elements i).bbox).filter fun b =>
      decide (kEpsilon < bboxWidth b)).map (fun b => (bboxWidth b, Double.max 1 (bboxHeight b))) =
        values
    by_cases hne : values = []
    · rw [hne]
      show (0 : ℚ) ≤ _
      linarith
    · have hspec := weightedMedian_spec hne fun v hv => by
        rw [← hvalues] at hv
        obtain ⟨b, -, rfl⟩ := List.mem_map.mp hv
        exact one_le_weight b
      obtain ⟨v, hv, hmedian⟩ := List.mem_map.mp hspec.mem
      rw [← hmedian]
      rw [← hvalues] at hv
      obtain ⟨b, hb, rfl⟩ := List.mem_map.mp hv
      obtain ⟨i, hi, rfl⟩ := List.mem_map.mp (List.mem_filter.mp hb).1
      have hfinite := (hboxes i hi).finite
      have hx0 := abs_le.mp (hfinite _ (by simp : (elementAt elements i).bbox.x0 ∈ _))
      have hx1 := abs_le.mp (hfinite _ (by simp : (elementAt elements i).bbox.x1 ∈ _))
      show bboxWidth _ ≤ _
      unfold bboxWidth
      rw [double_max]
      exact max_le (by show (0 : ℚ) ≤ _; linarith) (by linarith)

theorem minimumGutter_lt {candidates : List Nat} (height : ℚ)
    (hboxes : ∀ i ∈ candidates, ProperBox (elementAt elements i).bbox) :
    minimumGutter (medianWidth elements candidates) height < Double.largest := by
  have hlarge := largest_large
  have hwidth := medianWidth_le hboxes
  rw [minimumGutter_eq]
  refine max_lt (by linarith) ((min_le_right _ _).trans_lt ?_)
  have hsmall : medianWidth elements candidates * 0.02 ≤ 2 * Double.largest * 0.02 := by
    norm_num
    linarith
  refine hsmall.trans_lt ?_
  norm_num
  linarith

end Gutter

/-! ## The inference -/

section Inference

variable {α : Type} [Double α]

/-- The smallest distance of columns that the inference computes for a list. -/
def gutterOf (elements : List (PageElement α)) : α :=
  let candidates := columnCandidates elements (List.range elements.length)
  minimumGutter (medianWidth elements candidates) (medianHeight elements candidates)

/-- The columns of the supported clusters of a list, sorted by their centres. -/
def clusterColumns (elements : List (PageElement α)) : List (Column α) :=
  let candidates := columnCandidates elements (List.range elements.length)
  let width := medianWidth elements candidates
  let height := medianHeight elements candidates
  let tolerance := Double.max 1 (Double.min (height * 0.75) (width * 0.22))
  let clusters := clusterElements elements tolerance (regularElements elements candidates width)
  sortBy columnLess (supportedColumns elements clusters height (gutterOf elements))

/-- Columns from left to right, with gaps that are wider than the gutter. -/
structure SeparatedColumns (gutter : ℚ) (columns : List (Column ℚ)) : Prop where
  count : 1 ≤ columns.length ∧ columns.length ≤ 6
  ordered : columns.Pairwise fun c d => c.x0 < d.x0
  disjoint : columns.Pairwise fun c d => c.x1 < d.x0
  apart : columns.IsChain fun c d => c.x1 + gutter < d.x0

/-- Each column that starts behind all before it is at a cut, or there are five cuts. -/
def StepsAreCuts (gutter : ℚ) (columns : List (Column ℚ)) : Prop :=
  (∀ place, 1 ≤ place → place < columns.length →
      StepAt gutter (columns.map Column.interval) place →
        CutAt gutter (columns.map Column.interval) place) ∨
    5 ≤ (List.range' 1 (columns.length - 1)).countP fun place =>
      CutAt gutter (columns.map Column.interval) place

variable {elements : List (PageElement ℚ)}

theorem inferColumns_eq {first : Column ℚ} {rest : List (Column ℚ)} (hne : elements ≠ [])
    (h : clusterColumns elements = first :: rest) :
    inferColumns elements (List.range elements.length) =
      mergeExcessColumns ((mergeCloseColumns (gutterOf elements) first rest).length - 6)
        (mergeCloseColumns (gutterOf elements) first rest) := by
  unfold clusterColumns gutterOf at h
  dsimp only at h
  unfold inferColumns
  rw [if_neg (by simpa using hne)]
  dsimp only
  rw [h]
  rfl

theorem clusterColumns_spec (hne : elements ≠ []) (hboxes : ∀ e ∈ elements, ProperBox e.bbox) :
    clusterColumns elements ≠ [] ∧ (∀ c ∈ clusterColumns elements, c.x0 < c.x1) ∧
      0 ≤ gutterOf elements ∧ gutterOf elements < Double.largest := by
  have hindices : List.range elements.length ≠ [] := by
    rw [Ne, List.range_eq_nil]
    exact fun h => hne (List.eq_nil_of_length_eq_zero h)
  have hbox : ∀ i ∈ List.range elements.length, ProperBox (elementAt elements i).bbox := by
    intro i hi
    have hlt := List.mem_range.mp hi
    have hget : elementAt elements i = elements[i] := by simp [elementAt, List.getD, hlt]
    rw [hget]
    exact hboxes _ (List.getElem_mem hlt)
  obtain ⟨hcandidates, hcandidatesMem⟩ := columnCandidates_spec elements hindices
  obtain ⟨hregular, hregularMem⟩ := regularElements_spec elements
    (medianWidth elements (columnCandidates elements (List.range elements.length))) hcandidates
  have hclusters : ∀ tolerance : ℚ, ∀ c ∈ clusterElements elements tolerance
      (regularElements elements (columnCandidates elements (List.range elements.length))
        (medianWidth elements (columnCandidates elements (List.range elements.length)))),
      (clusterColumn elements c).x0 < (clusterColumn elements c).x1 := by
    intro tolerance c hc
    obtain ⟨hmembers, hregularMembers⟩ := clusterElements_members tolerance _ c hc
    exact clusterColumn_proper hmembers fun i hi =>
      hbox i (hcandidatesMem i (hregularMem i (hregularMembers i hi)))
  have hproper := fun height tolerance : ℚ => supportedColumns_spec height (gutterOf elements)
    (clusterElements_ne_nil tolerance hregular) (hclusters tolerance)
  refine ⟨fun hnil => ?_, fun c hc => ?_, ?_,
    minimumGutter_lt _ fun i hi => hbox i (hcandidatesMem i hi)⟩
  · exact (hproper _ _).1 ((sortBy_perm _ _).symm.trans (List.Perm.of_eq hnil)).eq_nil
  · exact (hproper _ _).2 c ((sortBy_perm _ _).mem_iff.mp hc)
  · show (0 : ℚ) ≤ minimumGutter _ _
    rw [minimumGutter_eq]
    exact zero_le_one.trans (le_max_left _ _)

/-- Proper columns are separated when they are apart throughout. -/
theorem separatedColumns_iff {gutter : ℚ} {columns : List (Column ℚ)} (hzero : 0 ≤ gutter)
    (hproper : ∀ c ∈ columns, c.x0 < c.x1) (hcount : 1 ≤ columns.length ∧ columns.length ≤ 6) :
    SeparatedColumns gutter columns ↔
      (columns.map Column.interval).Pairwise (Apart gutter) := by
  constructor
  · intro h
    refine pairwise_of_isChain hzero (List.forall_mem_map.mpr hproper) ?_
    rw [List.isChain_map]
    exact h.apart
  · intro h
    rw [List.pairwise_map] at h
    have hlt : columns.Pairwise fun c d => c.x0 < c.x1 ∧ c.x1 + gutter < d.x0 := by
      rw [List.pairwise_iff_forall_sublist] at h ⊢
      intro c d hsub
      exact ⟨hproper c (hsub.subset (List.mem_cons_self ..)), h hsub⟩
    refine ⟨hcount, hlt.imp fun h => ?_, hlt.imp fun h => ?_, h.isChain⟩
    · linarith [h.1, h.2]
    · linarith [h.2]

/-- **Columns.** The inferred columns of proper boxes are separated exactly when each step of the
columns of the clusters is a cut, or there are five cuts. -/
theorem columns_separated_iff (elements : List (PageElement ℚ)) (hne : elements ≠ [])
    (hboxes : ∀ e ∈ elements, ProperBox e.bbox) :
    SeparatedColumns (gutterOf elements) (inferColumns elements (List.range elements.length)) ↔
      StepsAreCuts (gutterOf elements) (clusterColumns elements) := by
  obtain ⟨hcolumns, hproper, hzero, hlargest⟩ := clusterColumns_spec hne hboxes
  obtain ⟨first, rest, heq⟩ := List.exists_cons_of_ne_nil hcolumns
  rw [inferColumns_eq hne heq]
  rw [heq] at hproper ⊢
  generalize gutterOf elements = gutter at hzero hlargest ⊢
  -- the first pass
  have hclose : (mergeCloseColumns gutter first rest).map Column.interval = _ :=
    mergeCloseColumns_interval rest first
  generalize mergeCloseColumns gutter first rest = merged at hclose ⊢
  have hproperFirst : ∀ b ∈ first.interval :: rest.map Column.interval, b.lo < b.hi := by
    rw [← List.map_cons]
    exact List.forall_mem_map.mpr hproper
  have hmergedCuts : cuts gutter (merged.map Column.interval) =
      cuts gutter ((first :: rest).map Column.interval) := by
    rw [hclose, cuts_close]
    rfl
  have hmergedProper : ∀ c ∈ merged, c.x0 < c.x1 := by
    have hall : ∀ b ∈ close gutter first.interval (rest.map Column.interval), b.lo < b.hi :=
      proper_close hproperFirst
    rw [← hclose] at hall
    exact List.forall_mem_map.mp hall
  have hmergedLength : 1 ≤ merged.length := by
    have hpos : 0 < (close gutter first.interval (rest.map Column.interval)).length :=
      List.length_pos_of_ne_nil (close_ne_nil _ _)
    rwa [← hclose, List.length_map] at hpos
  have hsteps : (∀ place, 1 ≤ place → place < (first :: rest).length →
      StepAt gutter ((first :: rest).map Column.interval) place →
        CutAt gutter ((first :: rest).map Column.interval) place) ↔
      merged.length ≤ cuts gutter ((first :: rest).map Column.interval) + 1 := by
    have hplaces := stepsCut_iff (rest.map Column.interval) first.interval.hi [first.interval]
      (lastEnd_singleton gutter first.interval)
    rw [List.singleton_append, ← List.map_cons, List.length_map] at hplaces
    have hlength : merged.length =
        (close gutter first.interval (rest.map Column.interval)).length := by
      rw [← hclose, List.length_map]
    rw [hlength]
    refine hplaces.symm.trans ⟨fun h => ?_, fun h => ?_⟩
    · exact (length_close_of_stepsCut hzero _ _ hproperFirst h).le
    · exact stepsCut_of_length_close _ _ _ le_rfl h
  -- the second pass
  obtain ⟨hlength, hfinalProper, hfinalCuts⟩ := excess_spec hzero hlargest (merged.length - 6)
    merged (by omega) hmergedProper
  generalize mergeExcessColumns (merged.length - 6) merged = final
    at hlength hfinalProper hfinalCuts
  have hcount : 1 ≤ final.length ∧ final.length ≤ 6 := by omega
  have hfinal : (final.map Column.interval).Pairwise (Apart gutter) ↔
      final.length ≤ cuts gutter (final.map Column.interval) + 1 := by
    obtain ⟨c, tail, rfl⟩ := List.exists_cons_of_length_pos hcount.1
    have hlt : cuts gutter ((c :: tail).map Column.interval) <
      ((c :: tail).map Column.interval).length := cuts_lt
    rw [List.map_cons, ← cuts_eq_iff, ← List.map_cons]
    rw [List.length_map] at hlt ⊢
    omega
  unfold StepsAreCuts
  have hcountP : cuts gutter ((first :: rest).map Column.interval) = _ := cuts_eq_countP _
  rw [List.length_map] at hcountP
  rw [separatedColumns_iff hzero hfinalProper hcount, hfinal, hfinalCuts, hmergedCuts, hsteps,
    ← hcountP]
  omega

end Inference

/-! ## A column that reaches back -/

def rowElement (index : Nat) (bbox : BBox ℚ) : PageElement ℚ :=
  ⟨index, ⟨"b", .text, "", "", bbox, 1, -1, []⟩, bbox⟩

theorem properBoxes {elements : List (PageElement ℚ)}
    (hwidth : ∀ e ∈ elements, e.bbox.x0 < e.bbox.x1)
    (hheight : ∀ e ∈ elements, e.bbox.y0 < e.bbox.y1)
    (hfinite : ∀ e ∈ elements, ∀ x ∈ [e.bbox.x0, e.bbox.y0, e.bbox.x1, e.bbox.y1],
      |x| ≤ Double.largest) : ∀ e ∈ elements, ProperBox e.bbox :=
  fun e he => ⟨hwidth e he, hheight e he, hfinite e he⟩

/-- A row and one beside it. -/
def besideRows : List (PageElement ℚ) :=
  [rowElement 0 ⟨0, 0, 160, 10⟩, rowElement 1 ⟨180, 20, 260, 30⟩]

theorem besideRows_proper : ∀ e ∈ besideRows, ProperBox e.bbox :=
  properBoxes (by decide +kernel) (by decide +kernel) (by decide +kernel)

/-- The only step is a cut. -/
theorem columns_separated_iff_beside :
    inferColumns besideRows (List.range besideRows.length) = [⟨0, 160⟩, ⟨180, 260⟩] ∧
      SeparatedColumns (gutterOf besideRows)
        (inferColumns besideRows (List.range besideRows.length)) := by
  have hclusters : (clusterColumns besideRows).length = 2 := by decide +kernel
  refine ⟨by decide +kernel,
    (columns_separated_iff besideRows (by decide) besideRows_proper).mpr (.inl ?_)⟩
  intro place hfirst hlast _
  obtain rfl : place = 1 := by omega
  decide +kernel

/-- The third element reaches back to the first, and the second stands between their centres. -/
def reachingBack : List (PageElement ℚ) :=
  [rowElement 0 ⟨0, 0, 160, 10⟩, rowElement 1 ⟨180, 20, 260, 30⟩,
    rowElement 2 ⟨150, 40, 320, 50⟩]

theorem reachingBack_proper : ∀ e ∈ reachingBack, ProperBox e.bbox :=
  properBoxes (by decide +kernel) (by decide +kernel) (by decide +kernel)

/-- The second column is closed to the first, and widened over it afterwards. -/
theorem columns_overlap :
    (∀ e ∈ reachingBack, ProperBox e.bbox) ∧ gutterOf reachingBack = 1 ∧
      inferColumns reachingBack (List.range reachingBack.length) = [⟨0, 160⟩, ⟨150, 320⟩] ∧
      ¬ SeparatedColumns (gutterOf reachingBack)
        (inferColumns reachingBack (List.range reachingBack.length)) := by
  have hcolumns : inferColumns reachingBack (List.range reachingBack.length) =
      [⟨0, 160⟩, ⟨150, 320⟩] := by decide +kernel
  refine ⟨reachingBack_proper, by decide +kernel, hcolumns, fun h => ?_⟩
  have hdisjoint := h.disjoint
  rw [hcolumns] at hdisjoint
  revert hdisjoint
  decide +kernel

end DocParser.ReadingOrder
