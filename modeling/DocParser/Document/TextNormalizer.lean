import Mathlib.Data.List.Induction
import Mathlib.Data.List.ModifyLast
import DocParser.Document.Model

/-!
# Lines of a text

`normalize` gathers the glyphs of a page into spans and the spans into lines. A line is opened by
its first glyph; a span is closed by a blank, a break, a jump of the boxes or the end.
`normalize_conserves`: no text is lost, moved or doubled. The comparisons of boxes need a strict
order, which those of `double` are, NaNs included.
-/

namespace DocParser.Document.TextNormalizer

open Comparators

section Definitions

inductive TextTokenKind
  | glyph | lineBreak
  deriving DecidableEq, Repr

structure TextToken (α : Type) where
  kind : TextTokenKind
  text : String
  bbox : BBox α
  source : TextSource
  confidence : α
  deriving DecidableEq, Repr

/-- Only spaces and tabs. -/
def isBlank (text : String) : Bool := text.toList.all fun value => value == ' ' || value == '\t'

variable {α : Type}

def isInlineWhitespace (token : TextToken α) : Bool := !token.text.isEmpty && isBlank token.text

def toSpan (token : TextToken α) : TextSpan α :=
  ⟨token.text, token.bbox, token.source, token.confidence⟩

variable [Double α]

def expandBBox (target value : BBox α) : BBox α where
  x0 := Double.min target.x0 value.x0
  y0 := Double.min target.y0 value.y0
  x1 := Double.max target.x1 value.x1
  y1 := Double.max target.y1 value.y1

/-! ## Lines -/

def startLine (lines : List (TextLine α)) (span : TextSpan α) : List (TextLine α) :=
  lines ++ [⟨span.text, span.bbox, span.source, span.confidence, [span]⟩]

def appendTextToLine (lines : List (TextLine α)) (text : String) (bbox : BBox α) :
    List (TextLine α) :=
  lines.modifyLast fun line =>
    { line with text := line.text ++ text, bbox := expandBBox line.bbox bbox }

def appendWhitespaceToLine (lines : List (TextLine α)) (text : String) : List (TextLine α) :=
  lines.modifyLast fun line => { line with text := line.text ++ text }

def appendSpan (lines : List (TextLine α)) (span : TextSpan α) : List (TextLine α) :=
  if lines.isEmpty then startLine lines span
  else lines.modifyLast fun line =>
    { line with bbox := expandBBox line.bbox span.bbox, spans := line.spans ++ [span] }

def bboxHeight (bbox : BBox α) : α := Double.max 0 (bbox.y1 - bbox.y0)

def verticalOverlap (lhs rhs : BBox α) : α :=
  Double.max 0 (Double.min lhs.y1 rhs.y1 - Double.max lhs.y0 rhs.y0)

def startsNewGeometricLine (previous current : BBox α) : Bool :=
  let previousHeight := bboxHeight previous
  let currentHeight := bboxHeight current
  let referenceHeight := Double.max previousHeight currentHeight
  let shorterHeight := Double.min previousHeight currentHeight
  if referenceHeight ≤ 0 || shorterHeight ≤ 0 then false
  else
    let overlapRatio := verticalOverlap previous current / shorterHeight
    let centerDelta :=
      Double.abs ((previous.y0 + previous.y1) * 0.5 - (current.y0 + current.y1) * 0.5)
    if overlapRatio < 0.20 && referenceHeight * 0.80 < centerDelta then true
    else
      let forwardGap := current.x0 - previous.x1
      let backwardGap := previous.x0 - current.x1
      decide (0.50 ≤ overlapRatio) &&
        (decide (referenceHeight * 6 < forwardGap) || decide (referenceHeight * 2 < backwardGap))

/-! ## Tokens -/

/-- The page and the locals of the loop; `current` is the span of the accumulator. -/
structure NormalizerState (α : Type) where
  lines : List (TextLine α)
  pendingNewLine : Bool
  previousGlyph : Option (BBox α)
  current : Option (TextSpan α)
  deriving DecidableEq, Repr

/-- `SpanAccumulator::add` -/
def add (s : NormalizerState α) (span : TextSpan α) : NormalizerState α :=
  { s with
    lines := appendTextToLine s.lines span.text span.bbox
    current := match s.current with
      | none => some span
      | some current => some { current with
          text := current.text ++ span.text, bbox := expandBBox current.bbox span.bbox } }

/-- `SpanAccumulator::flush` -/
def flush (s : NormalizerState α) : NormalizerState α :=
  match s.current with
  | none => s
  | some current => { s with lines := appendSpan s.lines current, current := none }

/-- Opens an empty line that has the box of its first span. -/
def openLine (s : NormalizerState α) (span : TextSpan α) : NormalizerState α :=
  { s with
    lines := (startLine s.lines span).modifyLast fun line => { line with text := "", spans := [] }
    pendingNewLine := false }

/-- The body of the loop. -/
def normalizeToken (s : NormalizerState α) (token : TextToken α) : NormalizerState α :=
  if token.kind = .lineBreak then
    { flush s with pendingNewLine := true, previousGlyph := none }
  else if token.text.isEmpty then s
  else
    let whitespace := isInlineWhitespace token
    if whitespace && (s.lines.isEmpty || s.pendingNewLine) then s
    else
      let span := toSpan token
      let jumps := s.previousGlyph.any fun previous => startsNewGeometricLine previous span.bbox
      let s := if !whitespace && jumps then { flush s with pendingNewLine := true } else s
      let s := if s.pendingNewLine || s.lines.isEmpty then openLine (flush s) span else s
      if whitespace then
        let s := flush s
        { s with lines := appendWhitespaceToLine s.lines span.text }
      else { add s span with previousGlyph := some span.bbox }

def runTokens (tokens : List (TextToken α)) : NormalizerState α :=
  flush (tokens.foldl normalizeToken ⟨[], false, none, none⟩)

/-- `TextNormalizer::normalize` -/
def normalize (pageIndex : Int) (tokens : List (TextToken α)) : PageText α :=
  let lines := (runTokens tokens).lines
  let firstTextLine := lines.find? fun line => !line.spans.isEmpty
  { pageIndex := pageIndex
    pageNumber := pageIndex + 1
    hasText := firstTextLine.isSome
    preferredSource := (firstTextLine.map (·.source)).getD .unknown
    lines := lines }

end Definitions

/-! ## Spaced texts -/

section Spaced

/-- The text is that of the words in order, with blanks between and behind them. -/
def SpacedText (words : List String) (text : String) : Prop :=
  ∃ gaps : List String, gaps.length = words.length ∧ (∀ gap ∈ gaps, isBlank gap = true) ∧
    text = String.join (List.zipWith (· ++ ·) words gaps)

theorem isBlank_append {s t : String} :
    isBlank (s ++ t) = true ↔ isBlank s = true ∧ isBlank t = true := by
  unfold isBlank
  rw [String.toList_append, List.all_append, Bool.and_eq_true]

theorem spacedText_nil : SpacedText [] "" := ⟨[], rfl, by simp, rfl⟩

theorem SpacedText.word {words : List String} {text : String} (h : SpacedText words text)
    (word : String) : SpacedText (words ++ [word]) (text ++ word) := by
  obtain ⟨gaps, hlength, hblank, rfl⟩ := h
  refine ⟨gaps ++ [""], by simp [hlength], ?_, ?_⟩
  · intro gap hgap
    rcases List.mem_append.mp hgap with h | h
    · exact hblank gap h
    · rw [List.mem_singleton.mp h]
      rfl
  · rw [List.zipWith_append hlength.symm, String.join_append]
    simp

theorem SpacedText.gap {words : List String} {text gap : String} (h : SpacedText words text)
    (hwords : words ≠ []) (hgap : isBlank gap = true) : SpacedText words (text ++ gap) := by
  obtain ⟨gaps, hlength, hblank, rfl⟩ := h
  obtain ⟨front, word, rfl⟩ := (List.eq_nil_or_concat' words).resolve_left hwords
  have hgaps : gaps ≠ [] := by
    rw [← List.length_pos_iff, hlength]
    simp
  obtain ⟨gapsFront, last, rfl⟩ := (List.eq_nil_or_concat' gaps).resolve_left hgaps
  have hfront : front.length = gapsFront.length := by simpa using hlength.symm
  -- the last gap grows
  refine ⟨gapsFront ++ [last ++ gap], by simp [hfront], ?_, ?_⟩
  · intro g hg
    rcases List.mem_append.mp hg with h | h
    · exact hblank g (List.mem_append_left _ h)
    · rw [List.mem_singleton.mp h, isBlank_append]
      exact ⟨hblank last (by simp), hgap⟩
  · rw [List.zipWith_append hfront, List.zipWith_append hfront, String.join_append,
      String.join_append]
    simp [String.append_assoc]

end Spaced

/-! ## Boxes -/

section Boxes

variable {α : Type} [Double α] {outer inner other : BBox α}

/-- No side of the second box lies outside of the first one. -/
structure Contains (outer inner : BBox α) : Prop where
  left : ¬ inner.x0 < outer.x0
  top : ¬ inner.y0 < outer.y0
  right : ¬ outer.x1 < inner.x1
  bottom : ¬ outer.y1 < inner.y1

variable [IsStrictOrder α (· < ·)]

theorem contains_expandBBox (outer inner : BBox α) : Contains (expandBBox outer inner) inner where
  left := not_rel_pick_right _ _
  top := not_rel_pick_right _ _
  right := not_rel_pick_right (r := fun a b => b < a) _ _
  bottom := not_rel_pick_right (r := fun a b => b < a) _ _

theorem Contains.expandBBox (h : Contains outer inner) (other : BBox α) :
    Contains (expandBBox outer other) inner where
  left := not_rel_pick _ h.left
  top := not_rel_pick _ h.top
  right := not_rel_pick (r := fun a b => b < a) _ h.right
  bottom := not_rel_pick (r := fun a b => b < a) _ h.bottom

end Boxes

/-! ## What a page keeps of the tokens -/

section Invariant

variable {α : Type} [Double α]

/-- The tokens whose texts a page keeps. -/
def isText (token : TextToken α) : Bool := token.kind == .glyph && !isBlank token.text

def keptText (tokens : List (TextToken α)) : String :=
  String.join ((tokens.filter isText).map (·.text))

def spanTexts (lines : List (TextLine α)) : List String :=
  lines.flatMap fun line => line.spans.map (·.text)

structure LineOk (line : TextLine α) : Prop where
  spans : line.spans ≠ []
  text : SpacedText (line.spans.map (·.text)) line.text
  boxes : ∀ span ∈ line.spans, Contains line.bbox span.bbox

/-- The line ends with the text of a span that it does not have yet. -/
structure OpenLine (line : TextLine α) (current : TextSpan α) : Prop where
  text : ∃ text, SpacedText (line.spans.map (·.text)) text ∧ line.text = text ++ current.text
  boxes : ∀ span ∈ line.spans, Contains line.bbox span.bbox

/-- Only the last line can wait for a span. -/
def LinesOk (lines : List (TextLine α)) : Option (TextSpan α) → Prop
  | none => ∀ line ∈ lines, LineOk line
  | some current => ∃ front line, lines = front ++ [line] ∧ (∀ l ∈ front, LineOk l) ∧
      OpenLine line current

/-- The lines and the span of the accumulator hold the texts of the tokens. -/
structure Accumulated (tokens : List (TextToken α)) (lines : List (TextLine α))
    (current : Option (TextSpan α)) : Prop where
  wellFormed : LinesOk lines current
  text : String.join (spanTexts lines) ++ (current.map (·.text)).getD "" = keptText tokens
  nonempty : lines ≠ [] ↔ ∃ token ∈ tokens, isText token = true

end Invariant

section Lemmas

variable {α : Type} [Double α] {tokens : List (TextToken α)} {token : TextToken α}
  {lines : List (TextLine α)} {current : TextSpan α}

omit [Double α] in
theorem keptText_append_of_text (h : isText token = true) :
    keptText (tokens ++ [token]) = keptText tokens ++ token.text := by
  unfold keptText
  rw [List.filter_append, List.filter_cons_of_pos h, List.map_append, String.join_append]
  simp

omit [Double α] in
theorem spanTexts_concat (front : List (TextLine α)) (line : TextLine α) :
    spanTexts (front ++ [line]) = spanTexts front ++ line.spans.map (·.text) := by
  unfold spanTexts
  rw [List.flatMap_append, List.flatMap_singleton]

theorem Accumulated.skip {current : Option (TextSpan α)} (h : Accumulated tokens lines current)
    (htoken : isText token = false) : Accumulated (tokens ++ [token]) lines current where
  wellFormed := h.wellFormed
  text := by
    rw [h.text]
    unfold keptText
    rw [List.filter_append, List.filter_cons_of_neg (by simp [htoken])]
    simp
  nonempty := by
    rw [h.nonempty]
    simp [htoken]

/-- The first glyph of a line. -/
theorem Accumulated.newLine (h : Accumulated tokens lines none) (htoken : isText token = true) :
    Accumulated (tokens ++ [token])
      (appendTextToLine ((startLine lines (toSpan token)).modifyLast fun line =>
        { line with text := "", spans := [] }) token.text token.bbox) (some (toSpan token)) := by
  unfold startLine appendTextToLine
  rw [List.modifyLast_concat, List.modifyLast_concat]
  refine ⟨⟨lines, _, rfl, h.wellFormed, ⟨"", spacedText_nil, rfl⟩, fun span hspan => ?_⟩, ?_, ?_⟩
  · exact absurd hspan List.not_mem_nil
  · rw [keptText_append_of_text htoken, ← h.text, spanTexts_concat]
    simp [toSpan]
  · simp [htoken]

/-- A blank behind a line. -/
theorem Accumulated.blank {text : String} (h : Accumulated tokens lines none) (hne : lines ≠ [])
    (htext : isBlank text = true) :
    Accumulated tokens (appendWhitespaceToLine lines text) none := by
  obtain ⟨front, line, rfl⟩ := (List.eq_nil_or_concat' lines).resolve_left hne
  have hline : LineOk line := h.wellFormed line (by simp)
  unfold appendWhitespaceToLine
  rw [List.modifyLast_concat]
  refine ⟨?_, ?_, ?_⟩
  · show ∀ l ∈ _, LineOk l
    rw [List.forall_mem_append, List.forall_mem_singleton]
    exact ⟨fun l hl => h.wellFormed l (List.mem_append_left _ hl), hline.spans,
      hline.text.gap (by simpa using hline.spans) htext, hline.boxes⟩
  · rw [← h.text, spanTexts_concat, spanTexts_concat]
  · rw [← h.nonempty]
    simp

theorem flush_current (s : NormalizerState α) : (flush s).current = none := by
  unfold flush
  split
  next h => exact h
  next => rfl

end Lemmas

/-! ## Steps -/

section Steps

variable {α : Type} [Double α] [IsStrictOrder α (· < ·)] {tokens : List (TextToken α)}
  {token : TextToken α} {lines : List (TextLine α)} {current : TextSpan α}
  {s : NormalizerState α}

/-- Closing the span turns the open line into a line. -/
theorem OpenLine.close {line : TextLine α} (h : OpenLine line current) : LineOk
    { line with bbox := expandBBox line.bbox current.bbox, spans := line.spans ++ [current] } where
  spans := by simp
  text := by
    obtain ⟨text, htext, heq⟩ := h.text
    rw [List.map_append, heq]
    exact htext.word current.text
  boxes := by
    intro span hspan
    rcases List.mem_append.mp hspan with hspan | hspan
    · exact (h.boxes span hspan).expandBBox current.bbox
    · rw [List.mem_singleton.mp hspan]
      exact contains_expandBBox line.bbox current.bbox

theorem Accumulated.flush (h : Accumulated tokens s.lines s.current) :
    Accumulated tokens (TextNormalizer.flush s).lines none := by
  unfold TextNormalizer.flush
  split
  next hcurrent =>
    rw [hcurrent] at h
    exact h
  next current hcurrent =>
    rw [hcurrent] at h
    obtain ⟨front, line, hlines, hfront, hopen⟩ := h.wellFormed
    have happend : appendSpan s.lines current = front ++ [{ line with
        bbox := expandBBox line.bbox current.bbox, spans := line.spans ++ [current] }] := by
      unfold appendSpan
      rw [hlines, if_neg (by simp), List.modifyLast_concat]
    refine ⟨?_, ?_, ?_⟩
    · show ∀ l ∈ appendSpan s.lines current, LineOk l
      rw [happend, List.forall_mem_append, List.forall_mem_singleton]
      exact ⟨hfront, hopen.close⟩
    · have htext := h.text
      rw [hlines, spanTexts_concat, String.join_append] at htext
      show String.join (spanTexts (appendSpan s.lines current)) ++ "" = _
      rw [happend, spanTexts_concat, ← htext]
      simp [String.join_append, String.append_assoc]
    · have hnonempty := h.nonempty
      rw [hlines] at hnonempty
      show appendSpan s.lines current ≠ [] ↔ _
      rw [happend, ← hnonempty]
      simp

/-- The first glyph of a span in a line. -/
theorem Accumulated.first (h : Accumulated tokens lines none) (hne : lines ≠ [])
    (htoken : isText token = true) : Accumulated (tokens ++ [token])
      (appendTextToLine lines token.text token.bbox) (some (toSpan token)) := by
  obtain ⟨front, line, rfl⟩ := (List.eq_nil_or_concat' lines).resolve_left hne
  have hline : LineOk line := h.wellFormed line (by simp)
  unfold appendTextToLine
  rw [List.modifyLast_concat]
  refine ⟨⟨front, _, rfl, fun l hl => h.wellFormed l (List.mem_append_left _ hl),
    ⟨line.text, hline.text, rfl⟩, fun span hspan => (hline.boxes span hspan).expandBBox _⟩, ?_, ?_⟩
  · rw [keptText_append_of_text htoken, ← h.text, spanTexts_concat, spanTexts_concat]
    simp [toSpan]
  · simp [htoken]

/-- A glyph behind others of its span. -/
theorem Accumulated.more (h : Accumulated tokens lines (some current))
    (htoken : isText token = true) : Accumulated (tokens ++ [token])
      (appendTextToLine lines token.text token.bbox) (some { current with
        text := current.text ++ token.text, bbox := expandBBox current.bbox token.bbox }) := by
  obtain ⟨front, line, rfl, hfront, hopen⟩ := h.wellFormed
  obtain ⟨text, htext, heq⟩ := hopen.text
  unfold appendTextToLine
  rw [List.modifyLast_concat]
  refine ⟨⟨front, _, rfl, hfront, ⟨text, htext, ?_⟩,
    fun span hspan => (hopen.boxes span hspan).expandBBox _⟩, ?_, ?_⟩
  · show line.text ++ token.text = _
    rw [heq, String.append_assoc]
  · have hkept := h.text
    rw [keptText_append_of_text htoken, ← hkept, spanTexts_concat, spanTexts_concat]
    simp [String.append_assoc]
  · simp [htoken]

theorem add_spec (h : Accumulated tokens s.lines s.current) (hne : s.lines ≠ [])
    (htoken : isText token = true) : Accumulated (tokens ++ [token])
      (add s (toSpan token)).lines (add s (toSpan token)).current := by
  unfold add
  cases hcurrent : s.current with
  | none =>
    rw [hcurrent] at h
    exact h.first hne htoken
  | some current =>
    rw [hcurrent] at h
    exact h.more htoken

theorem open_spec (h : Accumulated tokens s.lines s.current) (htoken : isText token = true) :
    Accumulated (tokens ++ [token]) (add (openLine (flush s) (toSpan token)) (toSpan token)).lines
      (add (openLine (flush s) (toSpan token)) (toSpan token)).current := by
  have hcurrent : (openLine (flush s) (toSpan token)).current = none := flush_current s
  unfold add
  rw [hcurrent]
  exact h.flush.newLine htoken

/-- **One token.** -/
theorem normalizeToken_spec (h : Accumulated tokens s.lines s.current) (token : TextToken α) :
    Accumulated (tokens ++ [token]) (normalizeToken s token).lines
      (normalizeToken s token).current := by
  unfold normalizeToken
  split_ifs with hbreak hempty
  · have htoken : isText token = false := by simp [isText, hbreak]
    show Accumulated _ (flush s).lines (flush s).current
    rw [flush_current]
    exact h.flush.skip htoken
  · have htoken : isText token = false := by
      rw [String.isEmpty_iff] at hempty
      simp [isText, hempty, isBlank]
    exact h.skip htoken
  · dsimp only
    cases hwhitespace : isInlineWhitespace token with
    | true =>
      have hblank : isBlank token.text = true := by
        unfold isInlineWhitespace at hwhitespace
        exact (Bool.and_eq_true_iff.mp hwhitespace).2
      have htoken : isText token = false := by simp [isText, hblank]
      rw [Bool.true_and, Bool.not_true, Bool.false_and, if_neg Bool.false_ne_true, if_pos rfl]
      split_ifs with hskip hopen
      · exact h.skip htoken
      · exact absurd (Bool.or_comm _ _ ▸ hopen) hskip
      · rw [Bool.or_eq_true, not_or, List.isEmpty_iff] at hskip
        show Accumulated _ (appendWhitespaceToLine (flush s).lines token.text) (flush s).current
        rw [flush_current]
        have hne := h.flush.nonempty.mpr (h.nonempty.mp hskip.1)
        exact (h.flush.blank hne hblank).skip htoken
    | false =>
      have htoken : isText token = true := by
        have hkind : token.kind = .glyph := by
          cases hk : token.kind with
          | glyph => rfl
          | lineBreak => exact absurd hk hbreak
        unfold isInlineWhitespace at hwhitespace
        rw [Bool.not_eq_true] at hempty
        rw [hempty, Bool.not_false, Bool.true_and] at hwhitespace
        simp [isText, hkind, hwhitespace]
      rw [Bool.false_and, if_neg Bool.false_ne_true, Bool.not_false, Bool.true_and,
        if_neg Bool.false_ne_true]
      have hflush : Accumulated tokens (flush s).lines (flush s).current := by
        rw [flush_current]
        exact h.flush
      split_ifs with hjumps hopen hopen
      · exact open_spec (s := { flush s with pendingNewLine := true }) hflush htoken
      · exact absurd (Bool.true_or _) hopen
      · exact open_spec h htoken
      · rw [Bool.or_eq_true, not_or, List.isEmpty_iff] at hopen
        exact add_spec h hopen.2 htoken

/-- **A run** of the loop. -/
theorem foldl_spec (tokens : List (TextToken α)) :
    Accumulated tokens (tokens.foldl normalizeToken ⟨[], false, none, none⟩).lines
      (tokens.foldl normalizeToken ⟨[], false, none, none⟩).current := by
  induction tokens using List.reverseRecOn with
  | nil => exact ⟨by simp [LinesOk], rfl, by simp⟩
  | append_singleton tokens token ih =>
    rw [List.foldl_append]
    exact normalizeToken_spec ih token

/-- **Normalisation** keeps the texts of the tokens in order, in lines of spans with blanks between
and behind them, and in boxes that contain those of the spans. -/
theorem normalize_conserves (pageIndex : Int) (tokens : List (TextToken α)) :
    String.join (spanTexts (normalize pageIndex tokens).lines) = keptText tokens ∧
      (∀ line ∈ (normalize pageIndex tokens).lines, LineOk line) ∧
      ((normalize pageIndex tokens).hasText = true ↔ ∃ token ∈ tokens, isText token = true) := by
  have h : Accumulated tokens (runTokens tokens).lines none := (foldl_spec tokens).flush
  refine ⟨?_, h.wellFormed, ?_⟩
  · have htext := h.text
    rwa [Option.map_none, Option.getD_none, String.append_empty] at htext
  rw [← h.nonempty]
  show ((runTokens tokens).lines.find? fun line => !line.spans.isEmpty).isSome = true ↔ _
  rw [List.find?_isSome]
  constructor
  · rintro ⟨line, hline, -⟩
    exact List.ne_nil_of_mem hline
  · intro hne
    obtain ⟨line, hline⟩ := List.exists_mem_of_ne_nil _ hne
    exact ⟨line, hline, by simpa using (h.wellFormed line hline).spans⟩

end Steps

/-- Two spans, a gap that starts a line, and a blank behind a break. -/
def gapTokens : List (TextToken ℚ) := [
  ⟨.glyph, "T", ⟨0, 0, 1, 1⟩, .pdfTextLayer, 1⟩, ⟨.glyph, "a", ⟨1, 0, 2, 1⟩, .pdfTextLayer, 1⟩,
  ⟨.glyph, " ", ⟨2, 0, 3, 1⟩, .pdfTextLayer, 1⟩, ⟨.glyph, "1", ⟨3, 0, 4, 1⟩, .pdfTextLayer, 1⟩,
  ⟨.glyph, "b", ⟨20, 0, 21, 1⟩, .pdfTextLayer, 1⟩, ⟨.lineBreak, "", ⟨0, 0, 0, 0⟩, .unknown, 1⟩,
  ⟨.glyph, "\t", ⟨0, 2, 1, 3⟩, .pdfTextLayer, 1⟩, ⟨.glyph, "c", ⟨1, 2, 2, 3⟩, .pdfTextLayer, 1⟩]

example : (normalize 0 gapTokens).lines.map (fun line => (line.text, line.spans.map (·.text))) =
    [("Ta 1", ["Ta", "1"]), ("b", ["b"]), ("c", ["c"])] := by decide +kernel

theorem normalize_conserves_gap :
    String.join (spanTexts (normalize 0 gapTokens).lines) = "Ta1bc" ∧
      (∀ line ∈ (normalize 0 gapTokens).lines, LineOk line) ∧
      (normalize 0 gapTokens).hasText = true := by
  obtain ⟨htext, hlines, hhasText⟩ := normalize_conserves 0 gapTokens
  exact ⟨htext.trans (by decide +kernel), hlines, hhasText.mpr (by decide +kernel)⟩

end DocParser.Document.TextNormalizer
