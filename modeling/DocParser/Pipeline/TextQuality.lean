import DocParser.Layout.Lines

/-!
# The quality of native text

The policy decides from the bytes of a page, the controls that were decoded and the height that
the lines cover, whether the native text is used, replaced by OCR or merged with it.
-/

namespace DocParser.Pipeline

open Document Layout

/-- The counts that the extraction of a page leaves; one count for each of the 32 controls. -/
structure NativeTextExtractionSignals where
  decodedCodepoints : Nat
  invalidUtf16Codepoints : Nat
  replacementCodepoints : Nat
  c0ControlCounts : Vector Nat 32
  deriving DecidableEq, Repr

/-- A page text with the counts of its extraction, which only the policy reads. -/
structure NativeText (α : Type) extends PageText α where
  extractionSignals : NativeTextExtractionSignals
  deriving DecidableEq, Repr

inductive NativeTextAction
  | useNative | useOcr | mergeOcr
  deriving DecidableEq, Repr

structure NativeTextQuality (α : Type) where
  action : NativeTextAction
  nonWhitespaceBytes : Nat
  suspiciousBytes : Nat
  controlCodepoints : Nat
  distinctControlCodepoints : Nat
  damagingControlCodepoints : Nat
  distinctDamagingControlCodepoints : Nat
  damagingControlRatio : α
  verticalCoverage : α
  reason : String
  deriving DecidableEq, Repr

structure NativeTextQualityConfig (α : Type) where
  sparseTextByteThreshold : Nat
  sparseVerticalCoverageThreshold : α
  suspiciousByteRatioThreshold : α
  damagingControlMinimum : Nat
  severeDamagingControlRatioThreshold : α
  diverseDamagingControlRatioThreshold : α
  diverseDamagingControlTypeThreshold : Nat
  duplicateOverlapThreshold : α

structure TextMergeResult (α : Type) where
  text : NativeText α
  addedOcrLines : Nat
  deriving DecidableEq, Repr

section Definitions

variable {α : Type} [Double α]

/-- The configuration that the stage uses. -/
def NativeTextQualityConfig.standard : NativeTextQualityConfig α where
  sparseTextByteThreshold := 256
  sparseVerticalCoverageThreshold := 0.12
  suspiciousByteRatioThreshold := 0.02
  damagingControlMinimum := 8
  severeDamagingControlRatioThreshold := 0.20
  diverseDamagingControlRatioThreshold := 0.05
  diverseDamagingControlTypeThreshold := 4
  duplicateOverlapThreshold := 0.5

def overlapOverSmallerArea (lhs rhs : BBox α) : α :=
  let width := Double.max 0 (Double.min lhs.x1 rhs.x1 - Double.max lhs.x0 rhs.x0)
  let height := Double.max 0 (Double.min lhs.y1 rhs.y1 - Double.max lhs.y0 rhs.y0)
  let denominator := Double.min (bboxArea lhs) (bboxArea rhs)
  if denominator ≤ 0 then 0 else width * height / denominator

/-- `std::clamp` -/
def clamp (value low high : α) : α :=
  if value < low then low else if high < value then high else value

/-- The order of `std::pair`. -/
def intervalLess (lhs rhs : α × α) : Bool :=
  decide (lhs.1 < rhs.1) || (!decide (rhs.1 < lhs.1) && decide (lhs.2 < rhs.2))

/-- The loop over the sorted intervals, which joins those that touch. -/
def coveredLength (covered currentStart currentEnd : α) : List (α × α) → α
  | [] => covered + (currentEnd - currentStart)
  | interval :: rest =>
    if interval.1 ≤ currentEnd then
      coveredLength covered currentStart (Double.max currentEnd interval.2) rest
    else coveredLength (covered + (currentEnd - currentStart)) interval.1 interval.2 rest

def lineIntervals (height : α) (lines : List (TextLine α)) : List (α × α) :=
  (lines.map fun line => (clamp line.bbox.y0 0 height, clamp line.bbox.y1 0 height)).filter
    fun interval => decide (interval.1 < interval.2)

def verticalCoverage (page : PageArtifact) (text : PageText α) : α :=
  if page.height ≤ 0 then 0
  else
    match sortBy intervalLess (lineIntervals (Double.ofInt page.height) text.lines) with
    | [] => 0
    | first :: rest => coveredLength 0 first.1 first.2 rest / Double.ofInt page.height

def isDuplicateLine (candidate : TextLine α) (existing : List (TextLine α)) (threshold : α) :
    Bool :=
  existing.any fun line => decide (threshold ≤ overlapOverSmallerArea candidate.bbox line.bbox)

def isBenignControlCodepoint (codepoint : Nat) : Bool :=
  codepoint == 0x02 || codepoint == 9 || codepoint == 10 || codepoint == 13

/-- A control that is no white space, or DEL. -/
def isSuspiciousByte (c : Char) : Bool :=
  (decide (c.toNat < 0x20) && !isSpace c) || c.toNat == 0x7F

/-- The replacement characters of a text, as they are found one behind the other. -/
def replacementCount : List Char → Nat
  | a :: b :: c :: rest =>
    if a.toNat = 0xEF ∧ b.toNat = 0xBF ∧ c.toNat = 0xBD then replacementCount rest + 1
    else replacementCount (b :: c :: rest)
  | _ => 0

def suspiciousBytes (line : TextLine α) : Nat :=
  line.text.toList.countP isSuspiciousByte + 3 * replacementCount line.text.toList

/-- The controls that occur, with their counts. -/
def controlCounts (signals : NativeTextExtractionSignals) : List (Nat × Nat) :=
  signals.c0ControlCounts.toList.zipIdx.map fun p => (p.2, p.1)

def NativeTextQualityPolicy.evaluate (config : NativeTextQualityConfig α) (page : PageArtifact)
    (native : NativeText α) :
    NativeTextQuality α :=
  let nonWhitespace :=
    (native.lines.map fun line => line.text.toList.countP fun c => !isSpace c).sum
  let suspicious := (native.lines.map suspiciousBytes).sum
  let controls := controlCounts native.extractionSignals
  let damagingControls := controls.filter fun p => !isBenignControlCodepoint p.1
  let damaging : Nat := (damagingControls.map (·.2)).sum
  let distinctDamaging := damagingControls.countP fun p => decide (0 < p.2)
  let decoded := native.extractionSignals.decodedCodepoints
  let ratio : α :=
    if 0 < decoded then Double.ofInt (Int.ofNat damaging) / Double.ofInt (Int.ofNat decoded) else 0
  let coverage := verticalCoverage page native.toPageText
  let answer (action : NativeTextAction) (reason : String) : NativeTextQuality α := {
    action := action
    nonWhitespaceBytes := nonWhitespace
    suspiciousBytes := suspicious
    controlCodepoints := (controls.map (·.2)).sum
    distinctControlCodepoints := controls.countP fun p => decide (0 < p.2)
    damagingControlCodepoints := damaging
    distinctDamagingControlCodepoints := distinctDamaging
    damagingControlRatio := ratio
    verticalCoverage := coverage
    reason := reason }
  if !native.hasText || nonWhitespace == 0 then answer .useOcr "empty_native_text"
  else if (config.damagingControlMinimum ≤ damaging ∧
        config.severeDamagingControlRatioThreshold ≤ ratio) ∨
      (config.damagingControlMinimum ≤ damaging ∧
        config.diverseDamagingControlRatioThreshold ≤ ratio ∧
        config.diverseDamagingControlTypeThreshold ≤ distinctDamaging) then
    answer .useOcr "corrupt_native_text_controls"
  else if config.suspiciousByteRatioThreshold <
      (Double.ofInt (Int.ofNat suspicious) : α) / Double.ofInt (Int.ofNat nonWhitespace) then
    answer .useOcr "suspicious_native_text"
  else if 0 < page.height ∧ nonWhitespace < config.sparseTextByteThreshold ∧
      coverage < config.sparseVerticalCoverageThreshold then
    answer .mergeOcr "sparse_native_text"
  else answer .useNative "usable_native_text"

/-! ## The merge -/

/-- The lines of a text with those OCR lines that duplicate none of them, nor one another. -/
def mergedLines (config : NativeTextQualityConfig α) (lines ocrLines : List (TextLine α)) :
    List (TextLine α) :=
  ocrLines.foldl (fun kept line =>
    if line.text.isEmpty || isDuplicateLine line kept config.duplicateOverlapThreshold then kept
    else kept ++ [line]) lines

/-- From top to bottom, and from left to right. -/
def mergeOrder (lhs rhs : TextLine α) : Bool :=
  if lhs.bbox.y0 != rhs.bbox.y0 then decide (lhs.bbox.y0 < rhs.bbox.y0)
  else decide (lhs.bbox.x0 < rhs.bbox.x0)

def NativeTextQualityPolicy.merge (config : NativeTextQualityConfig α) (native : NativeText α)
    (ocr : PageText α) :
    TextMergeResult α :=
  let kept := mergedLines config native.lines ocr.lines
  let added := kept.length - native.lines.length
  ⟨{ native with
      lines := sortBy mergeOrder kept
      hasText := !kept.isEmpty
      preferredSource := if 0 < added then .mixed else native.preferredSource },
    added⟩

end Definitions

end DocParser.Pipeline
