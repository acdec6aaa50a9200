import DocParser.Common.IeeeDouble
import DocParser.Lib.GreedySelection
import DocParser.Pipeline.TextQuality

/-!
# Merging native and OCR text

The merge adds the lines of an OCR text to those of the native one, each unless it repeats a line
that is there already. This is a greedy selection that starts with the native lines, followed by a
sort: `merge_selects_lines`.
-/

namespace DocParser.Pipeline

open Document Layout Comparators

section Selection

variable {α : Type} [Double α] (config : NativeTextQualityConfig α)

/-- A line with text. -/
def hasLineText (line : TextLine α) : Bool := !line.text.isEmpty

/-- The first line repeats the second one. -/
def repeatsLine (candidate line : TextLine α) : Bool :=
  decide (config.duplicateOverlapThreshold ≤ overlapOverSmallerArea candidate.bbox line.bbox)

theorem isDuplicateLine_eq (candidate : TextLine α) (existing : List (TextLine α)) :
    isDuplicateLine candidate existing config.duplicateOverlapThreshold =
      existing.any (repeatsLine config candidate) := rfl

/-- The lines that the merge keeps are those of a greedy selection. -/
theorem mergedLines_eq_select (lines ocrLines : List (TextLine α)) :
    mergedLines config lines ocrLines =
      Greedy.select hasLineText (repeatsLine config) lines ocrLines := by
  unfold mergedLines Greedy.select
  congr 1
  funext kept line
  unfold Greedy.step hasLineText
  rw [isDuplicateLine_eq]
  cases line.text.isEmpty <;> cases kept.any (repeatsLine config line) <;> rfl

/-- The decisions of the merge on the OCR lines, one after the other. -/
theorem exists_mergeDecisions (lines ocrLines : List (TextLine α)) : ∃ keep : Nat → Bool,
    (∀ i, ∀ h : i < ocrLines.length, keep i = true ↔ ocrLines[i].text ≠ "" ∧
      isDuplicateLine ocrLines[i] (lines ++ Greedy.chosen keep (ocrLines.take i))
        config.duplicateOverlapThreshold = false) ∧
    mergedLines config lines ocrLines = lines ++ Greedy.chosen keep ocrLines := by
  obtain ⟨keep, hkeep, heq⟩ :=
    Greedy.exists_decisions hasLineText (repeatsLine config) lines ocrLines
  refine ⟨keep, fun i h => ?_, (mergedLines_eq_select config lines ocrLines).trans heq⟩
  have htext : hasLineText ocrLines[i] = true ↔ ocrLines[i].text ≠ "" := by
    unfold hasLineText
    rw [Bool.not_eq_true', ← Bool.not_eq_true, String.isEmpty_iff]
  rw [hkeep i h, htext, isDuplicateLine_eq, List.any_eq_false]
  simp only [Bool.not_eq_true]

end Selection

/-! ## The order of the lines -/

section Order

variable {α : Type} [Double α]

/-- The sides that the order of lines looks at are numbers. -/
def IsPlaced (line : TextLine α) : Prop := IsNumber line.bbox.y0 ∧ IsNumber line.bbox.x0

/-- Not below another line, nor right of it on one height. -/
def NotBehind (a b : TextLine α) : Prop :=
  a.bbox.y0 < b.bbox.y0 ∨ (a.bbox.y0 == b.bbox.y0) = true ∧ a.bbox.x0 ≤ b.bbox.x0

theorem mergeOrder_eq : mergeOrder (α := α) =
    byKey (·.bbox.y0) fun a b => decide (a.bbox.x0 < b.bbox.x0) := rfl

variable [IeeeDouble α]

theorem strictWeakOn_mergeOrder :
    StrictWeakOn (IsPlaced (α := α)) fun a b => mergeOrder a b = true := by
  rw [mergeOrder_eq]
  exact strictWeakOn_byKey (fun _ h => h.1) (strictWeakOn_number fun _ h => h.2)

theorem notBehind_of_mergeOrder {a b : TextLine α} (ha : IsPlaced a) (hb : IsPlaced b)
    (h : mergeOrder b a = false) : NotBehind a b := by
  have hbeq := IeeeDouble.beq_iff _ _ hb.1 ha.1
  have hbeq' := IeeeDouble.beq_iff _ _ ha.1 hb.1
  unfold mergeOrder at h
  by_cases heq : (b.bbox.y0 == a.bbox.y0) = true
  · rw [bne, heq, Bool.not_true, if_neg Bool.false_ne_true, decide_eq_false_iff_not] at h
    exact .inr ⟨hbeq'.mpr (hbeq.mp heq).symm, (IeeeDouble.le_iff _ _ ha.2 hb.2).mpr h⟩
  · rw [bne, Bool.not_eq_true _ |>.mp heq, Bool.not_false, if_pos rfl,
      decide_eq_false_iff_not] at h
    exact .inl (by_contra fun hnot => heq (hbeq.mpr ⟨h, hnot⟩))

/-- **The merge** keeps all native lines and exactly those OCR lines that have a text and repeat
neither a native line nor an OCR line kept before, sorts what it keeps unless a side is not a
number, and counts the OCR lines. -/
theorem merge_selects_lines (config : NativeTextQualityConfig α) (native : NativeText α)
    (ocr : PageText α) : ∃ keep : Nat → Bool,
    (∀ i, ∀ h : i < ocr.lines.length, keep i = true ↔ ocr.lines[i].text ≠ "" ∧
      isDuplicateLine ocr.lines[i] (native.lines ++ Greedy.chosen keep (ocr.lines.take i))
        config.duplicateOverlapThreshold = false) ∧
    (NativeTextQualityPolicy.merge config native ocr).text.lines.Perm
      (native.lines ++ Greedy.chosen keep ocr.lines) ∧
    ((∀ line ∈ native.lines ++ Greedy.chosen keep ocr.lines, IsPlaced line) →
      (NativeTextQualityPolicy.merge config native ocr).text.lines.Pairwise NotBehind) ∧
    (NativeTextQualityPolicy.merge config native ocr).addedOcrLines =
      (Greedy.chosen keep ocr.lines).length := by
  obtain ⟨keep, hkeep, heq⟩ := exists_mergeDecisions config native.lines ocr.lines
  have hlines : (NativeTextQualityPolicy.merge config native ocr).text.lines =
      sortBy mergeOrder (native.lines ++ Greedy.chosen keep ocr.lines) := by
    rw [← heq]
    rfl
  refine ⟨keep, hkeep, ?_, fun hplaced => ?_, ?_⟩
  · rw [hlines]
    exact sortBy_perm _ _
  · rw [hlines]
    have hmem : ∀ {line}, line ∈ sortBy mergeOrder (native.lines ++ Greedy.chosen keep ocr.lines) →
        IsPlaced line := fun h => hplaced _ ((sortBy_perm _ _).mem_iff.mp h)
    refine (sortBy_sorted strictWeakOn_mergeOrder hplaced).imp_of_mem fun ha hb h => ?_
    exact notBehind_of_mergeOrder (hmem ha) (hmem hb) h
  · show (mergedLines config native.lines ocr.lines).length - native.lines.length = _
    rw [heq, List.length_append]
    omega

end Order

section Example

/-- The only line of the text layer, under a scanned heading. -/
def stampedText : NativeText ℚ where
  pageIndex := 0
  pageNumber := 1
  hasText := true
  preferredSource := .pdfTextLayer
  lines := [⟨"Total 5", ⟨10, 40, 90, 50⟩, .pdfTextLayer, 1, []⟩]
  extractionSignals := ⟨7, 0, 0, Vector.replicate 32 0⟩

/-- OCR finds the line again, nothing in a stain, and the heading twice. -/
def stampedOcr : PageText ℚ where
  pageIndex := 0
  pageNumber := 1
  hasText := true
  preferredSource := .ocr
  lines := [⟨"Tota1 5", ⟨11, 40, 90, 50⟩, .ocr, 1, []⟩, ⟨"", ⟨10, 70, 90, 80⟩, .ocr, 1, []⟩,
    ⟨"Invoice", ⟨10, 10, 90, 20⟩, .ocr, 1, []⟩, ⟨"Invoice", ⟨10, 11, 90, 20⟩, .ocr, 1, []⟩]

/-- The heading is kept once and comes first. -/
theorem merge_stamped :
    let merged := NativeTextQualityPolicy.merge .standard stampedText stampedOcr
    merged.text.lines.map TextLine.text = [ "Invoice", "Total 5"] ∧
      merged.text.lines.Pairwise NotBehind ∧ merged.addedOcrLines = 1 := by
  obtain ⟨keep, -, -, hsorted, -⟩ := merge_selects_lines .standard stampedText stampedOcr
  have hplaced : ∀ line : TextLine ℚ, IsPlaced line := fun line =>
    ⟨beq_self_eq_true line.bbox.y0, beq_self_eq_true line.bbox.x0⟩
  exact ⟨by decide +kernel, hsorted fun line _ => hplaced line, by decide +kernel⟩

end Example

end DocParser.Pipeline
