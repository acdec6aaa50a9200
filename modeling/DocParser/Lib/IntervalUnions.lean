import Mathlib.MeasureTheory.Measure.Lebesgue.Basic
import Mathlib.MeasureTheory.Measure.Real

/-!
# Lengths of unions of intervals

The points that some closed intervals cover and the length of that set. An interval that starts
inside another one joins it (`length_join`); one that lies before all others adds its own length
(`length_apart`). This is what a sweep over intervals in ascending order needs.
-/

namespace IntervalUnions

open MeasureTheory Set

variable {l : List (ℚ × ℚ)} {a b c d : ℚ}

/-- The points of an interval. -/
def interval (a b : ℚ) : Set ℝ := Icc (a : ℝ) b

/-- The points of some intervals. -/
def points (l : List (ℚ × ℚ)) : Set ℝ := {x | ∃ p ∈ l, x ∈ interval p.1 p.2}

/-- The length of the union of some intervals. -/
noncomputable def length (l : List (ℚ × ℚ)) : ℝ := volume.real (points l)

@[simp] theorem points_nil : points [] = ∅ := by
  ext x
  simp [points]

@[simp] theorem points_cons (p : ℚ × ℚ) (l : List (ℚ × ℚ)) :
    points (p :: l) = interval p.1 p.2 ∪ points l := by
  ext x
  simp [points]

theorem points_append (l l' : List (ℚ × ℚ)) : points (l ++ l') = points l ∪ points l' := by
  induction l with
  | nil => rw [List.nil_append, points_nil, empty_union]
  | cons p l ih => rw [List.cons_append, points_cons, points_cons, ih, union_assoc]

theorem length_congr {l' : List (ℚ × ℚ)} (h : ∀ p, p ∈ l ↔ p ∈ l') : length l = length l' := by
  have hpoints : points l = points l' := by
    unfold points
    simp only [h]
  unfold length
  rw [hpoints]

theorem measurableSet_interval (a b : ℚ) : MeasurableSet (interval a b) := measurableSet_Icc

theorem measure_interval_ne_top (a b : ℚ) : volume (interval a b) ≠ ⊤ := by
  unfold interval
  rw [Real.volume_Icc]
  exact ENNReal.ofReal_ne_top

theorem measurableSet_points (l : List (ℚ × ℚ)) : MeasurableSet (points l) := by
  induction l with
  | nil =>
    rw [points_nil]
    exact MeasurableSet.empty
  | cons p l ih =>
    rw [points_cons]
    exact (measurableSet_interval p.1 p.2).union ih

theorem measure_points_ne_top (l : List (ℚ × ℚ)) : volume (points l) ≠ ⊤ := by
  induction l with
  | nil => simp
  | cons p l ih =>
    rw [points_cons]
    exact measure_union_ne_top (measure_interval_ne_top p.1 p.2) ih

theorem length_singleton (h : a ≤ b) : length [(a, b)] = b - a := by
  unfold length
  rw [points_cons, points_nil, union_empty]
  exact Real.volume_real_Icc_of_le (Rat.cast_le.mpr h)

/-- **Joining.** An interval that starts inside another one extends it. -/
theorem length_join (hac : a ≤ c) (hcb : c ≤ b) (l : List (ℚ × ℚ)) (hcd : c ≤ d) :
    length ((a, b) :: (c, d) :: l) = length ((a, max b d) :: l) := by
  have had : (a : ℝ) ≤ d := Rat.cast_le.mpr (hac.trans hcd)
  have hunion : interval a b ∪ interval c d = interval a (max b d) := by
    unfold interval
    rw [Icc_union_Icc' (Rat.cast_le.mpr hcb) had, min_eq_left (Rat.cast_le.mpr hac),
      Rat.cast_max]
  unfold length
  rw [points_cons, points_cons, points_cons, ← union_assoc, hunion]

/-- **Separation.** An interval before all others adds its length. -/
theorem length_apart (hab : a ≤ b) (h : ∀ p ∈ l, b < p.1) :
    length ((a, b) :: l) = (b - a) + length l := by
  have hdisjoint : Disjoint (interval a b) (points l) := by
    refine Set.disjoint_left.mpr fun x hx hx' => ?_
    obtain ⟨p, hp, hmem⟩ := hx'
    exact absurd (hmem.1.trans hx.2) (not_le.mpr (Rat.cast_lt.mpr (h p hp)))
  rw [← length_singleton hab]
  unfold length
  rw [points_cons, points_cons, points_nil, union_empty]
  exact measureReal_union hdisjoint (measurableSet_points l) (measure_interval_ne_top a b)
    (measure_points_ne_top l)

end IntervalUnions
