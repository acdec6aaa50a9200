import Mathlib.Data.List.Pairwise
import DocParser.Common.NanDouble
import DocParser.Lib.GreedySelection
import DocParser.Table.StructureGrid

/-!
# Duplicate table regions

The detection of tables reports a region several times. `suppressDuplicateRegions` goes through the
regions from the most confident one on and keeps those that overlap none of the kept ones too much.
`suppression_is_greedy`: only kept regions suppress others, and nothing else depends on the input
order than ties of the confidence, as long as every confidence is a number.
-/

namespace DocParser.TableTransformer

open Document Layout Comparators

section Definitions

variable {α : Type} [Double α]

def intersectionOverUnion (lhs rhs : BBox α) : α :=
  let intersection := intersectionArea lhs rhs
  let area := bboxArea lhs + bboxArea rhs - intersection
  if area ≤ 0 then 0 else intersection / area

/-- The order of the regions, from the most confident one on. -/
def moreConfident (lhs rhs : Prediction α) : Bool := decide (rhs.confidence < lhs.confidence)

/-- A region that is detected again. -/
def isSameRegion (region candidate : Prediction α) : Bool :=
  decide (0.8 < intersectionOverUnion region.bbox candidate.bbox)

def suppressDuplicateRegions (regions : List (Prediction α)) : List (Prediction α) :=
  (sortBy moreConfident regions).foldl (fun kept region =>
    if kept.any (isSameRegion region) then kept else kept ++ [region]) []

theorem suppressDuplicateRegions_eq (regions : List (Prediction α)) :
    suppressDuplicateRegions regions =
      Greedy.select (fun _ => true) isSameRegion [] (sortBy moreConfident regions) := by
  unfold suppressDuplicateRegions Greedy.select
  congr 1
  funext kept region
  unfold Greedy.step
  cases kept.any (isSameRegion region) <;> rfl

end Definitions

/-! ## Confidences that are numbers -/

section Numbers

variable {α : Type} [Double α] [IeeeDouble α] {regions regions' : List (Prediction α)}

theorem strictWeakOn_moreConfident :
    StrictWeakOn (fun region : Prediction α => IsNumber region.confidence)
      fun a b => moreConfident a b = true := by
  unfold moreConfident
  simp only [decide_eq_true_eq]
  constructor
  · intro a b ha hb hab
    exact IeeeDouble.strictWeakOn.asymm _ _ hb ha hab
  · intro a b c ha hb hc hac
    exact (IeeeDouble.strictWeakOn.split _ _ _ hc hb ha hac).symm

/-- A region that is not behind another one has at least its confidence. -/
theorem moreConfident_eq_false {a b : Prediction α} (ha : IsNumber a.confidence)
    (hb : IsNumber b.confidence) : moreConfident b a = false ↔ b.confidence ≤ a.confidence := by
  unfold moreConfident
  rw [decide_eq_false_iff_not, IeeeDouble.le_iff _ _ hb ha]

theorem sorted_by_confidence (hnumbers : ∀ region ∈ regions, IsNumber region.confidence) :
    (sortBy moreConfident regions).Pairwise fun a b => b.confidence ≤ a.confidence := by
  have hmem : ∀ {region}, region ∈ sortBy moreConfident regions → IsNumber region.confidence :=
    fun h => hnumbers _ ((sortBy_perm _ _).mem_iff.mp h)
  refine (sortBy_sorted strictWeakOn_moreConfident hnumbers).imp_of_mem fun {a b} ha hb h => ?_
  exact (moreConfident_eq_false (hmem ha) (hmem hb)).mp h

theorem suppress_sorted (hnumbers : ∀ region ∈ regions, IsNumber region.confidence) :
    (suppressDuplicateRegions regions).Pairwise fun a b => b.confidence ≤ a.confidence := by
  rw [suppressDuplicateRegions_eq]
  exact (sorted_by_confidence hnumbers).sublist (Greedy.select_sublist _)

omit [IeeeDouble α] in
theorem suppress_subset (regions : List (Prediction α)) :
    suppressDuplicateRegions regions ⊆ regions := by
  rw [suppressDuplicateRegions_eq]
  exact fun _ h => (sortBy_perm _ _).mem_iff.mp ((Greedy.select_sublist _).subset h)

omit [IeeeDouble α] in
/-- No two kept regions are the same. -/
theorem suppress_pairwise (regions : List (Prediction α)) :
    (suppressDuplicateRegions regions).Pairwise fun a b => isSameRegion b a = false := by
  rw [suppressDuplicateRegions_eq]
  exact Greedy.select_pairwise _ List.Pairwise.nil

/-- Every removed region is one that was kept, with more confidence. -/
theorem suppress_removed (hnumbers : ∀ region ∈ regions, IsNumber region.confidence) :
    ∃ removed, (suppressDuplicateRegions regions ++ removed).Perm regions ∧
      ∀ region ∈ removed, ∃ kept ∈ suppressDuplicateRegions regions,
        region.confidence ≤ kept.confidence ∧ isSameRegion region kept = true := by
  rw [suppressDuplicateRegions_eq]
  obtain ⟨removed, hperm, hremoved⟩ := Greedy.exists_dropped (fun _ => true) isSameRegion
    (sortBy moreConfident regions) [] (sorted_by_confidence hnumbers)
  refine ⟨removed, hperm.trans (sortBy_perm _ _), fun region hregion => ?_⟩
  rcases hremoved region hregion with h | ⟨kept, hkept, hsame, hconfidence⟩
  · cases h
  · exact ⟨kept, hkept, hconfidence, hsame⟩

theorem suppress_suppress (hnumbers : ∀ region ∈ regions, IsNumber region.confidence) :
    suppressDuplicateRegions (suppressDuplicateRegions regions) =
      suppressDuplicateRegions regions := by
  have hsorted : sortBy moreConfident (suppressDuplicateRegions regions) =
      suppressDuplicateRegions regions := by
    refine sortBy_eq_self ((suppress_sorted hnumbers).imp_of_mem fun {a b} ha hb h => ?_)
    exact (moreConfident_eq_false (hnumbers a (suppress_subset regions ha))
      (hnumbers b (suppress_subset regions hb))).mpr h
  rw [suppressDuplicateRegions_eq (suppressDuplicateRegions regions), hsorted]
  exact Greedy.select_eq_append _ (fun _ _ => rfl) (suppress_pairwise regions)

/-- Without ties the input order does not matter. -/
theorem suppress_congr (hnumbers : ∀ region ∈ regions, IsNumber region.confidence)
    (hdistinct : regions.Pairwise fun a b => (a.confidence == b.confidence) = false)
    (hperm : regions.Perm regions') :
    suppressDuplicateRegions regions = suppressDuplicateRegions regions' := by
  have hapart : regions.Pairwise fun a b =>
      a.confidence < b.confidence ∨ b.confidence < a.confidence := by
    refine hdistinct.imp_of_mem fun {a b} ha hb h => ?_
    by_contra hnot
    rw [not_or] at hnot
    rw [(IeeeDouble.beq_iff _ _ (hnumbers a ha) (hnumbers b hb)).mpr hnot] at h
    cases h
  have hsort : sortBy moreConfident regions = sortBy moreConfident regions' := by
    have horder := strictWeakOn_moreConfident (α := α)
    refine sortBy_congr (P := (· ∈ regions))
      ⟨fun a b ha hb => horder.asymm a b (hnumbers a ha) (hnumbers b hb),
        fun a b c ha hb hc => horder.split a b c (hnumbers a ha) (hnumbers b hb) (hnumbers c hc)⟩
      ?_ (fun _ h => h) hperm
    intro a b ha hb hab hba
    unfold moreConfident at hab hba
    rw [decide_eq_false_iff_not] at hab hba
    by_contra hne
    have : Std.Symm fun a b : Prediction α =>
        a.confidence < b.confidence ∨ b.confidence < a.confidence := ⟨fun _ _ => Or.symm⟩
    exact (hapart.forall ha hb hne).elim hba hab
  rw [suppressDuplicateRegions_eq, suppressDuplicateRegions_eq, hsort]

/-- **Suppression** is greedy: no kept region overlaps one kept before it too much, every removed
one overlaps a kept one of at least its confidence, the kept ones are sorted and stay as they are
in a second run, and without ties of the confidence they do not depend on the input order. -/
theorem suppression_is_greedy (regions : List (Prediction α))
    (hnumbers : ∀ region ∈ regions, IsNumber region.confidence) :
    ((suppressDuplicateRegions regions).Pairwise fun a b =>
      ¬ 0.8 < intersectionOverUnion b.bbox a.bbox) ∧
    (∃ removed, (suppressDuplicateRegions regions ++ removed).Perm regions ∧
      ∀ region ∈ removed, ∃ kept ∈ suppressDuplicateRegions regions,
        region.confidence ≤ kept.confidence ∧
          0.8 < intersectionOverUnion region.bbox kept.bbox) ∧
    ((suppressDuplicateRegions regions).Pairwise fun a b => b.confidence ≤ a.confidence) ∧
    suppressDuplicateRegions (suppressDuplicateRegions regions) =
      suppressDuplicateRegions regions ∧
    ((regions.Pairwise fun a b => (a.confidence == b.confidence) = false) →
      ∀ regions', regions.Perm regions' →
        suppressDuplicateRegions regions = suppressDuplicateRegions regions') := by
  refine ⟨(suppress_pairwise regions).imp fun {a b} h => ?_, ?_, suppress_sorted hnumbers,
    suppress_suppress hnumbers,
    fun hdistinct regions' hperm => suppress_congr hnumbers hdistinct hperm⟩
  · unfold isSameRegion at h
    simpa using h
  · obtain ⟨removed, hperm, hremoved⟩ := suppress_removed hnumbers
    refine ⟨removed, hperm, fun region hregion => ?_⟩
    obtain ⟨kept, hkept, hconfidence, hsame⟩ := hremoved region hregion
    exact ⟨kept, hkept, hconfidence, by simpa [isSameRegion] using hsame⟩

end Numbers

/-- A table that is detected twice, and another one. -/
def detectedRegions : List (Prediction ℚ) :=
  [⟨"table", ⟨10, 10, 110, 60⟩, 0.7⟩, ⟨"table", ⟨10, 12, 110, 60⟩, 0.9⟩,
    ⟨"table", ⟨10, 80, 110, 90⟩, 0.8⟩]

theorem suppression_of_detectedRegions :
    (∀ region ∈ detectedRegions, IsNumber region.confidence) ∧
    (detectedRegions.Pairwise fun a b => (a.confidence == b.confidence) = false) ∧
    (suppressDuplicateRegions detectedRegions).length = 2 ∧
    suppressDuplicateRegions detectedRegions =
      suppressDuplicateRegions detectedRegions.reverse := by
  have hnumbers : ∀ region ∈ detectedRegions, IsNumber region.confidence := fun region _ =>
    beq_self_eq_true region.confidence
  have hdistinct : detectedRegions.Pairwise fun a b => (a.confidence == b.confidence) = false := by
    decide +kernel
  exact ⟨hnumbers, hdistinct, by decide +kernel,
    (suppression_is_greedy detectedRegions hnumbers).2.2.2.2 hdistinct _
      (List.reverse_perm _).symm⟩

/-- One table, first without a confidence that is a number. -/
def unratedRegions : List (Prediction NanDouble) :=
  [⟨"table", ⟨10, 10, 110, 60⟩, .nan⟩, ⟨"table", ⟨10, 10, 110, 60⟩, 0.99⟩]

/-- Neither region is more confident than the other one, so the one that comes first removes the
other. -/
theorem suppression_without_number :
    suppressDuplicateRegions unratedRegions = unratedRegions.take 1 ∧
    (¬ ∃ removed, (suppressDuplicateRegions unratedRegions ++ removed).Perm unratedRegions ∧
      ∀ region ∈ removed, ∃ kept ∈ suppressDuplicateRegions unratedRegions,
        region.confidence ≤ kept.confidence ∧
          0.8 < intersectionOverUnion region.bbox kept.bbox) ∧
    (unratedRegions.Pairwise fun a b => (a.confidence == b.confidence) = false) ∧
    unratedRegions.Perm unratedRegions.reverse ∧
    suppressDuplicateRegions unratedRegions ≠ suppressDuplicateRegions unratedRegions.reverse := by
  have hkept : suppressDuplicateRegions unratedRegions = unratedRegions.take 1 := by decide +kernel
  refine ⟨hkept, ?_, by decide +kernel, (List.reverse_perm _).symm, by decide +kernel⟩
  rintro ⟨removed, hperm, hremoved⟩
  have hone : removed.length = 1 := by
    have hlength := hperm.length_eq
    rw [hkept, List.length_append] at hlength
    exact Nat.add_left_cancel (n := 1) hlength
  obtain ⟨region, rfl⟩ := List.length_eq_one_iff.mp hone
  obtain ⟨kept, hmem, hconfidence, -⟩ := hremoved region (List.mem_singleton_self region)
  rw [hkept] at hmem
  rw [List.mem_singleton.mp hmem] at hconfidence
  exact NanDouble.not_isNumber_nan (IeeeDouble.isNumber_of_le _ _ hconfidence).2

end DocParser.TableTransformer
