import DocParser.Common.Standard
import DocParser.Document.Model
import DocParser.Lib.SwapPasses

/-!
# The order of the detected boxes

At the end of `extractBoxes` the boxes are sorted from the top to the bottom, and a swap pass puts
the boxes of a line from the left to the right. Its tolerance for the tops is not transitive.
`orderBoxes_spec`: only neighbours are in order, and a second pass changes nothing.
-/

namespace DocParser.Ocr

open Document SwapPasses

section Definitions

/-- The points are `cv::Point2f`. -/
structure DetectionBox (π α : Type) where
  points : Fin 4 → π
  bbox : BBox α
  score : α

variable {π α : Type} [Double α]

/-- The comparator of `std::stable_sort`. -/
def boxLess (lhs rhs : DetectionBox π α) : Bool :=
  if lhs.bbox.y0 != rhs.bbox.y0 then decide (lhs.bbox.y0 < rhs.bbox.y0)
  else decide (lhs.bbox.x0 < rhs.bbox.x0)

/-- The condition of the swaps. -/
def overtakes (current previous : DetectionBox π α) : Bool :=
  decide (Double.abs (current.bbox.y0 - previous.bbox.y0) < 10) &&
    decide (current.bbox.x0 < previous.bbox.x0)

/-- The passes at the end of `extractBoxes`. -/
def orderBoxes (boxes : List (DetectionBox π α)) : List (DetectionBox π α) :=
  swapPass overtakes (sortBy boxLess boxes)

end Definitions

section Order

variable {π α : Type} [Double α]

/-- The corner of a box is finite. -/
def FiniteCorner (box : DetectionBox π α) : Prop :=
  Double.isFinite box.bbox.x0 = true ∧ Double.isFinite box.bbox.y0 = true

/-- Of two boxes at most one is left of the other, however far their tops are apart. -/
theorem overtakes_asymm [OrderedDouble α] (a b : DetectionBox π α) (ha : FiniteCorner a)
    (hb : FiniteCorner b) (h : overtakes a b = true) : overtakes b a = false := by
  unfold overtakes at h ⊢
  rw [Bool.and_eq_true, decide_eq_true_eq, decide_eq_true_eq] at h
  have hnot := OrderedDouble.strictWeakOn.asymm _ _ ha.1 hb.1 h.2
  rw [decide_eq_false hnot, Bool.and_false]

/-- **Order.** The passes keep the boxes. No box whose top is less than ten pixels from that of the
box before it starts left of that box, and a second swap pass changes nothing. -/
theorem orderBoxes_spec [OrderedDouble α] (boxes : List (DetectionBox π α))
    (hfinite : ∀ box ∈ boxes, FiniteCorner box) :
    (orderBoxes boxes).Perm boxes ∧
    (∀ (index : Nat) (previous current : DetectionBox π α),
      (orderBoxes boxes)[index]? = some previous → (orderBoxes boxes)[index + 1]? = some current →
      ¬ (Double.abs (current.bbox.y0 - previous.bbox.y0) < 10 ∧
        current.bbox.x0 < previous.bbox.x0)) ∧
    swapPass overtakes (orderBoxes boxes) = orderBoxes boxes := by
  have hsorted := sortBy_perm boxLess boxes
  obtain ⟨hperm, hchain⟩ := swapPass_spec overtakes_asymm (sortBy boxLess boxes)
    fun box hbox => hfinite box (hsorted.mem_iff.mp hbox)
  refine ⟨hperm.trans hsorted, fun index previous current hprevious hcurrent h => ?_,
    swapPass_eq_self hchain⟩
  obtain ⟨hlt, rfl⟩ := List.getElem?_eq_some_iff.mp hcurrent
  obtain ⟨hlt', rfl⟩ := List.getElem?_eq_some_iff.mp hprevious
  have hsettled : overtakes (orderBoxes boxes)[index + 1] (orderBoxes boxes)[index] = false :=
    hchain.getElem index hlt
  unfold overtakes at hsettled
  simp [h.1, h.2] at hsettled

/-- The last box stays behind the first one, whose top is far from its own, and so it stays behind
the second one as well, although that is near. -/
theorem orderBoxes_spec_three :
    let box : ℚ → ℚ → DetectionBox Unit ℚ := fun x y => ⟨fun _ => (), ⟨x, y, x + 5, y + 5⟩, 1⟩
    (orderBoxes [box 30 0, box 10 16, box 20 8]).map (fun box => box.bbox.x0) = [20, 30, 10] ∧
    swapPass overtakes (orderBoxes [box 30 0, box 10 16, box 20 8]) =
      orderBoxes [box 30 0, box 10 16, box 20 8] := by
  intro box
  refine ⟨by decide +kernel, ?_⟩
  exact (orderBoxes_spec [box 30 0, box 10 16, box 20 8] fun _ _ => ⟨rfl, rfl⟩).2.2

end Order

end DocParser.Ocr
