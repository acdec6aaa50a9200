import DocParser.Common.Sorting
import DocParser.Lib.IntervalUnions
import DocParser.Pipeline.TextQuality

/-!
# Vertical coverage

How much of the height of a page the lines of a text cover. The sweep over the sorted intervals
computes the length of their union, so that `verticalCoverage` is a measure:
`verticalCoverage_eq_measure`.
-/

namespace DocParser.Pipeline

open Document Layout Comparators MeasureTheory

/-! ## The sweep -/

section Sweep

theorem coveredLength_cons (covered start stop : ℚ) (p : ℚ × ℚ) (rest : List (ℚ × ℚ)) :
    coveredLength covered start stop (p :: rest) =
      if p.1 ≤ stop then coveredLength covered start (max stop p.2) rest
      else coveredLength (covered + (stop - start)) p.1 p.2 rest := by
  rw [← double_max]
  rfl

/-- **The sweep** adds the length of the union of the intervals. -/
theorem coveredLength_eq (rest : List (ℚ × ℚ)) : ∀ covered start stop : ℚ, start ≤ stop →
    (∀ p ∈ rest, start ≤ p.1 ∧ p.1 < p.2) → (rest.Pairwise fun p q => p.1 ≤ q.1) →
    ((coveredLength covered start stop rest : ℚ) : ℝ) =
      covered + IntervalUnions.length ((start, stop) :: rest) := by
  induction rest with
  | nil =>
    intro covered start stop hle _ _
    rw [IntervalUnions.length_singleton hle]
    show ((covered + (stop - start) : ℚ) : ℝ) = _
    push_cast
    rfl
  | cons p rest ih =>
    intro covered start stop hle hrest hsorted
    obtain ⟨⟨hstart, hp⟩, hrest⟩ := List.forall_mem_cons.mp hrest
    obtain ⟨hfirst, hsorted⟩ := List.pairwise_cons.mp hsorted
    rw [coveredLength_cons]
    split
    next hjoin =>
      rw [ih covered start (max stop p.2) (hle.trans (le_max_left _ _)) hrest hsorted,
        ← IntervalUnions.length_join hstart hjoin rest hp.le]
    next hgap =>
      have happart : ∀ q ∈ p :: rest, stop < q.1 := by
        intro q hq
        rcases List.mem_cons.mp hq with rfl | hq
        · exact not_le.mp hgap
        · exact (not_le.mp hgap).trans_le (hfirst q hq)
      rw [ih (covered + (stop - start)) p.1 p.2 hp.le
        (fun q hq => ⟨hfirst q hq, (hrest q hq).2⟩) hsorted,
        IntervalUnions.length_apart hle happart]
      push_cast
      ring

end Sweep

/-! ## The heights that lines cover -/

section Heights

/-- The heights of a line that are on the page. -/
def lineHeights (height : Int) (line : TextLine ℚ) : Set ℝ :=
  Set.Icc (line.bbox.y0 : ℝ) line.bbox.y1 ∩ Set.Icc 0 (height : ℝ)

/-- The heights of a page that some lines cover. -/
def coveredHeights (height : Int) (lines : List (TextLine ℚ)) : Set ℝ :=
  {y | ∃ line ∈ lines, y ∈ lineHeights height line}

variable {height : Int} {lines lines' : List (TextLine ℚ)}

theorem coveredHeights_cons (line : TextLine ℚ) : coveredHeights height (line :: lines) =
    lineHeights height line ∪ coveredHeights height lines := by
  ext y
  simp [coveredHeights]

theorem coveredHeights_mono (h : ∀ line ∈ lines, line ∈ lines') :
    coveredHeights height lines ⊆ coveredHeights height lines' :=
  fun _ ⟨line, hline, hy⟩ => ⟨line, h line hline, hy⟩

theorem coveredHeights_subset : coveredHeights height lines ⊆ Set.Icc 0 (height : ℝ) :=
  fun _ ⟨_, _, hy⟩ => hy.2

theorem measure_coveredHeights_ne_top : volume (coveredHeights height lines) ≠ ⊤ :=
  measure_ne_top_of_subset coveredHeights_subset measure_Icc_lt_top.ne

theorem clamp_eq (value high : ℚ) (hhigh : 0 ≤ high) :
    clamp value 0 high = max 0 (min high value) := by
  show (if value < (Int.cast 0 : ℚ) then (Int.cast 0 : ℚ)
    else if high < value then high else value) = _
  rw [Int.cast_zero]
  split_ifs with hlow hhigh'
  · rw [max_eq_left ((min_le_right _ _).trans hlow.le)]
  · rw [min_eq_left hhigh'.le, max_eq_right hhigh]
  · rw [min_eq_right (not_lt.mp hhigh'), max_eq_right (not_lt.mp hlow)]

theorem lineHeights_eq (height : Int) (line : TextLine ℚ) : lineHeights height line =
    IntervalUnions.interval (max line.bbox.y0 0) (min line.bbox.y1 (height : ℚ)) := by
  unfold lineHeights IntervalUnions.interval
  rw [Set.Icc_inter_Icc]
  push_cast
  rfl

/-- The interval that the code takes for a line covers the heights of the line on the page, up to
a set without length. -/
theorem lineHeights_ae (hheight : 0 < height) (line : TextLine ℚ) :
    lineHeights height line =ᵐ[volume]
      IntervalUnions.points (lineIntervals (height : ℚ) [line]) := by
  have hpos : (0 : ℚ) ≤ height := by exact_mod_cast hheight.le
  have hlow := clamp_eq line.bbox.y0 height hpos
  have hhigh := clamp_eq line.bbox.y1 height hpos
  rw [lineHeights_eq]
  by_cases hkept : clamp line.bbox.y0 0 (height : ℚ) < clamp line.bbox.y1 0 (height : ℚ)
  · have hintervals : lineIntervals (height : ℚ) [line] =
        [(clamp line.bbox.y0 0 (height : ℚ), clamp line.bbox.y1 0 (height : ℚ))] := by
      unfold lineIntervals
      simp [hkept]
    rw [hintervals, IntervalUnions.points_cons, IntervalUnions.points_nil, Set.union_empty]
    rw [hlow, hhigh] at hkept ⊢
    have hbelow : line.bbox.y0 < height := by
      by_contra hnot
      rw [min_eq_left (not_lt.mp hnot), max_eq_right hpos] at hkept
      exact absurd hkept (not_lt.mpr (max_le hpos (min_le_left _ _)))
    have habove : 0 < min (height : ℚ) line.bbox.y1 := by
      by_contra hnot
      rw [max_eq_left (not_lt.mp hnot)] at hkept
      exact absurd hkept (not_lt.mpr (le_max_left _ _))
    show _ =ᵐ[volume] IntervalUnions.interval (max 0 (min (height : ℚ) line.bbox.y0))
      (max 0 (min (height : ℚ) line.bbox.y1))
    rw [min_eq_right hbelow.le, max_eq_right habove.le, max_comm, min_comm]
    exact Filter.EventuallyEq.rfl
  · have hintervals : lineIntervals (height : ℚ) [line] = [] := by
      unfold lineIntervals
      simp [hkept]
    rw [hintervals, IntervalUnions.points_nil]
    rw [hlow, hhigh, not_lt] at hkept
    have hle : min line.bbox.y1 (height : ℚ) ≤ max line.bbox.y0 0 := by
      calc min line.bbox.y1 (height : ℚ) = min (height : ℚ) line.bbox.y1 := min_comm _ _
        _ ≤ max 0 (min (height : ℚ) line.bbox.y1) := le_max_right _ _
        _ ≤ max 0 (min (height : ℚ) line.bbox.y0) := hkept
        _ ≤ max 0 line.bbox.y0 := max_le_max le_rfl (min_le_right _ _)
        _ = max line.bbox.y0 0 := max_comm _ _
    refine ae_eq_empty.mpr ?_
    unfold IntervalUnions.interval
    rw [Real.volume_Icc, ENNReal.ofReal_eq_zero, sub_nonpos]
    exact Rat.cast_le.mpr hle

theorem coveredHeights_ae (hheight : 0 < height) (lines : List (TextLine ℚ)) :
    coveredHeights height lines =ᵐ[volume]
      IntervalUnions.points (lineIntervals (height : ℚ) lines) := by
  induction lines with
  | nil =>
    have hempty : coveredHeights height [] = ∅ := by
      ext y
      simp [coveredHeights]
    rw [hempty, show lineIntervals (height : ℚ) [] = [] from rfl, IntervalUnions.points_nil]
    exact Filter.EventuallyEq.rfl
  | cons line lines ih =>
    have hcons : lineIntervals (height : ℚ) (line :: lines) =
        lineIntervals (height : ℚ) [line] ++ lineIntervals (height : ℚ) lines := by
      unfold lineIntervals
      rw [← List.filter_append, ← List.map_append]
      rfl
    rw [coveredHeights_cons, hcons, IntervalUnions.points_append]
    exact (lineHeights_ae hheight line).union ih

end Heights

/-! ## Coverage -/

section Coverage

theorem strictWeakOn_intervalLess :
    StrictWeakOn (fun _ : ℚ × ℚ => True) fun a b => intervalLess a b = true := by
  have heq : (fun a b : ℚ × ℚ => intervalLess a b = true) =
      LexLess (fun a b => a.1 < b.1) fun a b => a.2 < b.2 := by
    funext a b
    apply propext
    unfold intervalLess LexLess
    simp
  rw [heq]
  exact (strictWeakOn_of_linear Prod.fst).lex (strictWeakOn_of_linear Prod.snd)

theorem sorted_lineIntervals (intervals : List (ℚ × ℚ)) :
    (sortBy intervalLess intervals).Pairwise fun p q => p.1 ≤ q.1 := by
  refine (sortBy_sorted strictWeakOn_intervalLess fun _ _ => trivial).imp fun {p q} h => ?_
  unfold intervalLess at h
  simp only [Bool.or_eq_false_iff, decide_eq_false_iff_not, not_lt] at h
  exact h.1

variable {page : PageArtifact}

/-- The code computes the length of the union of its intervals. -/
theorem verticalCoverage_eq_length (hheight : 0 < page.height) (text : PageText ℚ) :
    ((verticalCoverage page text : ℚ) : ℝ) =
      IntervalUnions.length (lineIntervals (page.height : ℚ) text.lines) / page.height := by
  have hperm := sortBy_perm intervalLess (lineIntervals (page.height : ℚ) text.lines)
  have hsorted := sorted_lineIntervals (lineIntervals (page.height : ℚ) text.lines)
  have hproper : ∀ p ∈ sortBy intervalLess (lineIntervals (page.height : ℚ) text.lines),
      p.1 < p.2 := by
    intro p hp
    have hfilter := (List.mem_filter.mp (hperm.mem_iff.mp hp)).2
    simpa using hfilter
  rw [← IntervalUnions.length_congr fun p => hperm.mem_iff]
  unfold verticalCoverage
  rw [if_neg (not_le.mpr hheight)]
  rw [show (Double.ofInt page.height : ℚ) = (page.height : ℚ) from rfl]
  cases hcase : sortBy intervalLess (lineIntervals (page.height : ℚ) text.lines) with
  | nil =>
    show (((0 : Int) : ℚ) : ℝ) = _
    simp [IntervalUnions.length]
  | cons first rest =>
    rw [hcase] at hsorted hproper
    obtain ⟨hfirst, hsorted⟩ := List.pairwise_cons.mp hsorted
    obtain ⟨hproper, hrest⟩ := List.forall_mem_cons.mp hproper
    have hsweep := coveredLength_eq rest ((0 : Int) : ℚ) first.1 first.2 hproper.le
      (fun p hp => ⟨hfirst p hp, hrest p hp⟩) hsorted
    show ((coveredLength ((0 : Int) : ℚ) first.1 first.2 rest / (page.height : ℚ) : ℚ) : ℝ) = _
    rw [Rat.cast_div, hsweep]
    push_cast
    rw [zero_add]

/-- **Vertical coverage is a measure**: the length of the heights that the lines cover by the
height of the page. So it is a ratio, and lines can only add to it, in any order. -/
theorem verticalCoverage_eq_measure (hheight : 0 < page.height) (text : PageText ℚ) :
    ((verticalCoverage page text : ℚ) : ℝ) =
        volume.real (coveredHeights page.height text.lines) / page.height ∧
      (0 ≤ verticalCoverage page text ∧ verticalCoverage page text ≤ 1) ∧
      (∀ other : PageText ℚ, other.lines.Perm text.lines →
        verticalCoverage page other = verticalCoverage page text) ∧
      ∀ other : PageText ℚ, (∀ line ∈ text.lines, line ∈ other.lines) →
        verticalCoverage page text ≤ verticalCoverage page other := by
  have hmeasure : ∀ text : PageText ℚ, ((verticalCoverage page text : ℚ) : ℝ) =
      volume.real (coveredHeights page.height text.lines) / page.height := by
    intro text
    rw [verticalCoverage_eq_length hheight, measureReal_congr (coveredHeights_ae hheight _)]
    rfl
  have hpos : (0 : ℝ) < page.height := by exact_mod_cast hheight
  have hmono : ∀ text other : PageText ℚ, (∀ line ∈ text.lines, line ∈ other.lines) →
      verticalCoverage page text ≤ verticalCoverage page other := by
    intro text other hsub
    rw [← Rat.cast_le (K := ℝ), hmeasure, hmeasure]
    have hle : volume.real (coveredHeights page.height text.lines) ≤
        volume.real (coveredHeights page.height other.lines) :=
      measureReal_mono (coveredHeights_mono hsub) measure_coveredHeights_ne_top
    exact div_le_div_of_nonneg_right hle hpos.le
  refine ⟨hmeasure text, ⟨?_, ?_⟩, fun other hperm => ?_, hmono text⟩
  · rw [← Rat.cast_nonneg (K := ℝ), hmeasure]
    exact div_nonneg measureReal_nonneg hpos.le
  · rw [← Rat.cast_le (K := ℝ), hmeasure, Rat.cast_one, div_le_one hpos]
    calc volume.real (coveredHeights page.height text.lines)
        ≤ volume.real (Set.Icc 0 (page.height : ℝ)) :=
          measureReal_mono coveredHeights_subset measure_Icc_lt_top.ne
      _ = page.height := by rw [Real.volume_real_Icc_of_le hpos.le, sub_zero]
  · exact le_antisymm (hmono other text fun line => hperm.mem_iff.mp)
      (hmono text other fun line => hperm.mem_iff.mpr)

/-- A line from one height to another one. -/
def lineBetween (y0 y1 : ℚ) : TextLine ℚ := ⟨"text", ⟨0, y0, 10, y1⟩, .pdfTextLayer, 1, []⟩

/-- Lines that overlap, nest, end below the page or are turned over. -/
def overlappingLines : PageText ℚ :=
  ⟨0, 1, true, .pdfTextLayer, [lineBetween 20 60, lineBetween 90 120, lineBetween 10 30,
    lineBetween 25 28, lineBetween 80 70]⟩

def uprightPage : PageArtifact := ⟨0, 1, "page_1.png", 80, 100⟩

theorem verticalCoverage_overlappingLines : 0 < uprightPage.height ∧
    verticalCoverage uprightPage overlappingLines = 3 / 5 ∧
    ((verticalCoverage uprightPage overlappingLines : ℚ) : ℝ) =
      volume.real (coveredHeights uprightPage.height overlappingLines.lines) /
        uprightPage.height :=
  ⟨by decide, by decide +kernel, (verticalCoverage_eq_measure (by decide) overlappingLines).1⟩

end Coverage

end DocParser.Pipeline
