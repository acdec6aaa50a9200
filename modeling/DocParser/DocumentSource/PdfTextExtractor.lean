import DocParser.Common.Utf8
import DocParser.Document.TextNormalizer
import DocParser.Pipeline.TextQuality

/-!
# The text of a PDF page

PDFium reports the code units of a page and their boxes. The loop decodes one code point at a time
and makes a token of it, unless it is a control or has no box. `utf16_extraction`: every unit is
consumed once, tokens are valid UTF-8, and a unit without its partner costs no other unit.
-/

namespace DocParser.PdfTextExtractor

open Document Document.TextNormalizer Pipeline

section Definitions

/-- What `FPDFText_GetCharBox` fills in. -/
structure CharBox (α : Type) where
  left : α
  right : α
  bottom : α
  top : α
  deriving DecidableEq, Repr

/-- A loaded page: its code units, their boxes and its height, as PDFium reports them. -/
structure TextPage (α : Type) where
  units : List UInt16
  charBox : Nat → Option (CharBox α)
  pageHeight : α

structure Extraction (α : Type) where
  tokens : List (TextToken α)
  signals : NativeTextExtractionSignals

variable {α : Type}

def TextPage.charCount (page : TextPage α) : Nat := page.units.length

/-- `FPDFText_GetUnicode` -/
def TextPage.getUnicode (page : TextPage α) (index : Nat) : UInt32 :=
  (page.units.getD index 0).toUInt32

def decodedAt (page : TextPage α) (index : Nat) : DecodedUtf16CodePoint :=
  decodeUtf16CodePoint (page.getUnicode index)
    (if index + 1 < page.charCount then page.getUnicode (index + 1) else 0)

def noSignals : NativeTextExtractionSignals := ⟨0, 0, 0, Vector.replicate 32 0⟩

def countControl (signals : NativeTextExtractionSignals) (codepoint : UInt32) :
    NativeTextExtractionSignals :=
  { signals with
    c0ControlCounts := ⟨signals.c0ControlCounts.toArray.modify codepoint.toNat (· + 1), by simp⟩ }

variable [Double α]

def toRenderedBBox (box : CharBox α) (pageHeight scale : α) : BBox α where
  x0 := box.left * scale
  y0 := (pageHeight - box.top) * scale
  x1 := box.right * scale
  y1 := (pageHeight - box.bottom) * scale

def unionBox (box pair : CharBox α) : CharBox α where
  left := Double.min box.left pair.left
  right := Double.max box.right pair.right
  bottom := Double.min box.bottom pair.bottom
  top := Double.max box.top pair.top

/-- The box of a code point, of both units if both have one, unless it is turned inside out. -/
def usableBox (page : TextPage α) (firstIndex codeUnits : Nat) : Option (CharBox α) :=
  match page.charBox firstIndex with
  | none => none
  | some first =>
    let box :=
      if codeUnits = 2 then
        match page.charBox (firstIndex + 1) with
        | some pair => unionBox first pair
        | none => first
      else first
    if box.right < box.left ∨ box.top < box.bottom then none else some box

def lineBreakToken : TextToken α := ⟨.lineBreak, "", ⟨0, 0, 0, 0⟩, .unknown, 1.0⟩

def glyphToken (page : TextPage α) (scale : α) (codepoint : UInt32) (box : CharBox α) :
    TextToken α :=
  ⟨.glyph, byteText (encodeUtf8 codepoint), toRenderedBBox box page.pageHeight scale,
    .pdfTextLayer, 1.0⟩

/-- The body of the loop, for the code point at `firstIndex`. -/
def extractCodepoint (page : TextPage α) (scale : α) (firstIndex : Nat)
    (decoded : DecodedUtf16CodePoint) (s : Extraction α) : Extraction α :=
  if decoded.value = 0 then s
  else
    let signals := { s.signals with
      decodedCodepoints := s.signals.decodedCodepoints + 1
      invalidUtf16Codepoints :=
        s.signals.invalidUtf16Codepoints + if decoded.valid then 0 else 1
      replacementCodepoints := s.signals.replacementCodepoints +
        if decoded.value = kUnicodeReplacementCharacter then 1 else 0 }
    if decoded.value = 0x0D ∨ decoded.value = 0x0A then
      ⟨s.tokens ++ [lineBreakToken], countControl signals decoded.value⟩
    else
      let signals := if decoded.value < 0x20 then countControl signals decoded.value else signals
      -- of the controls a tab is kept, and the control 2 stands for a blank
      if decoded.value ≠ 0x02 ∧ decoded.value < 0x20 ∧ decoded.value ≠ 0x09 then
        ⟨s.tokens, signals⟩
      else
        let codepoint := if decoded.value = 0x02 then 0x20 else decoded.value
        match usableBox page firstIndex decoded.codeUnits with
        | none => ⟨s.tokens, signals⟩
        | some box => ⟨s.tokens ++ [glyphToken page scale codepoint box], signals⟩

end Definitions

section Loop

variable {α : Type}

theorem decodedAt_eq (page : TextPage α) (index : Nat) : decodedAt page index =
    decodeUtf16CodePoint (page.getUnicode index) (page.getUnicode (index + 1)) := by
  unfold decodedAt
  split
  · rfl
  next hlast =>
    have hzero : page.getUnicode (index + 1) = 0 := by
      unfold TextPage.getUnicode
      rw [List.getD, List.getElem?_eq_none (Nat.le_of_not_lt hlast)]
      rfl
    rw [hzero]

theorem codeUnits_pos (first following : UInt32) :
    0 < (decodeUtf16CodePoint first following).codeUnits := by
  rcases decode_cases first following with ⟨-, -, h, -⟩ | ⟨h, -⟩ | ⟨h, -⟩ <;> rw [h] <;>
    exact Nat.succ_pos _

/-- The indices that the loop visits, with what it decodes there. -/
def decodedFrom (page : TextPage α) (index : Nat) : List (Nat × DecodedUtf16CodePoint) :=
  if index < page.charCount then
    (index, decodedAt page index) ::
      decodedFrom page (index + (decodedAt page index).codeUnits)
  else []
termination_by page.charCount - index
decreasing_by
  have := decodedAt_eq page index ▸ codeUnits_pos _ _
  omega

variable [Double α]

def extractFrom (page : TextPage α) (scale : α) (index : Nat) (s : Extraction α) : Extraction α :=
  if index < page.charCount then
    let decoded := decodedAt page index
    extractFrom page scale (index + decoded.codeUnits) (extractCodepoint page scale index decoded s)
  else s
termination_by page.charCount - index
decreasing_by
  have := decodedAt_eq page index ▸ codeUnits_pos _ _
  omega

def extractTokens (page : TextPage α) (scale : α) : Extraction α :=
  extractFrom page scale 0 ⟨[], noSignals⟩

/-- `PdfTextExtractor::extractPageText`; `none` is a page that cannot be loaded. -/
def extractPageText (loadPage : Int → Option (TextPage α)) (pageIndex dpi : Int) :
    Option (NativeText α) :=
  if dpi ≤ 0 then none
  else
    (loadPage pageIndex).map fun page =>
      if page.charCount = 0 then
        { toPageText := normalize pageIndex [], extractionSignals := noSignals }
      else
        let extraction := extractTokens page (Double.ofInt dpi / 72.0)
        { toPageText := normalize pageIndex extraction.tokens
          extractionSignals := extraction.signals }

end Loop

/-! ## The units that the loop visits -/

section Units

variable {α : Type} {page : TextPage α}

theorem getUnicode_of_le {index : Nat} (h : page.charCount ≤ index) : page.getUnicode index = 0 := by
  unfold TextPage.getUnicode
  rw [List.getD, List.getElem?_eq_none h]
  rfl

theorem isLowSurrogate_lt {index : Nat} (h : isLowSurrogate (page.getUnicode index) = true) :
    index < page.charCount := by
  refine Nat.lt_of_not_le fun hle => ?_
  rw [getUnicode_of_le hle] at h
  cases h

theorem isLowSurrogate_of_not_scalar {index : Nat}
    (hscalar : isUnicodeScalarValue (page.getUnicode index) = false)
    (hhigh : isHighSurrogate (page.getUnicode index) = false) :
    isLowSurrogate (page.getUnicode index) = true := by
  have hlt : (page.getUnicode index).toNat < 0x10000 := by
    unfold TextPage.getUnicode
    rw [UInt16.toNat_toUInt32]
    exact UInt16.toNat_lt _
  have hlarge : page.getUnicode index ≤ 0x10FFFF :=
    UInt32.le_iff_toNat_le.mpr (show (page.getUnicode index).toNat ≤ 0x10FFFF by omega)
  unfold isUnicodeScalarValue at hscalar
  simpa [hhigh, hlarge] using hscalar

/-- A code point ends in the page. -/
theorem decodedAt_le {index : Nat} (h : index < page.charCount) :
    index + (decodedAt page index).codeUnits ≤ page.charCount := by
  rw [decodedAt_eq]
  rcases decode_cases (page.getUnicode index) (page.getUnicode (index + 1)) with
    ⟨-, hlow, hunits, -⟩ | ⟨heq, -⟩ | ⟨heq, -⟩
  · rw [hunits]
    exact isLowSurrogate_lt hlow
  · rw [heq]
    exact h
  · rw [heq]
    exact h

variable (page) in
/-- **Each unit is consumed once**, in order. -/
theorem decodedFrom_units (index : Nat) (h : index ≤ page.charCount) :
    ((decodedFrom page index).flatMap fun p => List.range' p.1 p.2.codeUnits) =
      List.range' index (page.charCount - index) := by
  induction index using decodedFrom.induct page with
  | case1 index hlt ih =>
    have hle := decodedAt_le hlt
    rw [decodedFrom, if_pos hlt, List.flatMap_cons, ih hle, List.range'_append_1]
    have hrest : (decodedAt page index).codeUnits +
        (page.charCount - (index + (decodedAt page index).codeUnits)) = page.charCount - index := by
      omega
    exact congrArg (List.range' index) hrest
  | case2 index hend =>
    rw [decodedFrom, if_neg hend, Nat.sub_eq_zero_of_le (Nat.le_of_not_lt hend)]
    rfl

/-- A surrogate without the half that belongs to it. -/
def unpaired (page : TextPage α) (index : Nat) : Bool :=
  (isHighSurrogate (page.getUnicode index) && !isLowSurrogate (page.getUnicode (index + 1))) ||
    (isLowSurrogate (page.getUnicode index) &&
      !(decide (0 < index) && isHighSurrogate (page.getUnicode (index - 1))))

theorem unpaired_lt {index : Nat} (h : unpaired page index = true) : index < page.charCount := by
  refine Nat.lt_of_not_le fun hle => ?_
  unfold unpaired at h
  rw [getUnicode_of_le hle] at h
  cases h

theorem decodedAt_invalid {index : Nat} (h : (decodedAt page index).valid = false) :
    decodedAt page index = invalidCodePoint := by
  rw [decodedAt_eq] at h ⊢
  rcases decode_cases (page.getUnicode index) (page.getUnicode (index + 1)) with
    ⟨-, -, -, hvalid⟩ | ⟨heq, -⟩ | ⟨heq, -⟩
  · rw [hvalid] at h
    cases h
  · exact heq
  · rw [heq] at h
    cases h

/-- An index that is not inside a pair. -/
def Aligned (page : TextPage α) (index : Nat) : Prop :=
  0 < index → isHighSurrogate (page.getUnicode (index - 1)) = true →
    isLowSurrogate (page.getUnicode index) = false

/-- **One code point**: the next index is not inside a pair, and it is invalid if and only if its
first unit is an unpaired surrogate. -/
theorem Aligned.decodedAt {index : Nat} (h : Aligned page index) :
    Aligned page (index + (decodedAt page index).codeUnits) ∧
      ((List.range' index (decodedAt page index).codeUnits).filter (unpaired page)) =
        if (PdfTextExtractor.decodedAt page index).valid then [] else [index] := by
  rw [decodedAt_eq]
  rcases decode_cases (page.getUnicode index) (page.getUnicode (index + 1)) with
    ⟨hhigh, hlow, hunits, hvalid⟩ | ⟨heq, hcase⟩ | ⟨heq, hscalar⟩
  · -- a pair: the second unit is no high surrogate
    have hfirst : unpaired page index = false := by
      unfold unpaired
      rw [hlow, not_low_of_high hhigh]
      simp
    have hsecond : unpaired page (index + 1) = false := by
      unfold unpaired
      have hnot : isHighSurrogate (page.getUnicode (index + 1)) = false :=
        Bool.eq_false_iff.mpr fun hh => by simp [not_low_of_high hh] at hlow
      simp [hnot, hhigh]
    refine ⟨fun _ hprev => ?_, ?_⟩
    · rw [hunits] at hprev
      simp [not_low_of_high (show isHighSurrogate (page.getUnicode (index + 1)) = true from hprev)]
        at hlow
    · rw [hunits, hvalid]
      simp [List.range', hfirst, hsecond]
  · -- half a pair: a low surrogate is not behind a high one, since the index is not inside a pair
    have hunpaired : unpaired page index = true := by
      unfold unpaired
      rcases hcase with ⟨hhigh, hlow⟩ | ⟨hscalar, hhigh⟩
      · simp [hhigh, hlow]
      · have hlow := isLowSurrogate_of_not_scalar hscalar hhigh
        by_cases hpos : 0 < index
        · have hprev : isHighSurrogate (page.getUnicode (index - 1)) = false :=
            Bool.eq_false_iff.mpr fun hh => by simp [h hpos hh] at hlow
          simp [hlow, hprev]
        · simp [hlow, hpos]
    rw [heq]
    refine ⟨fun _ hprev => ?_, by simp [invalidCodePoint, hunpaired]⟩
    rcases hcase with ⟨-, hlow⟩ | ⟨-, hhigh⟩
    · exact hlow
    · exact absurd hprev (by simpa [invalidCodePoint] using hhigh)
  · obtain ⟨hhigh, hlow⟩ := not_surrogate_of_scalar hscalar
    rw [heq]
    refine ⟨fun _ hprev => absurd hprev (by simpa using hhigh), ?_⟩
    simp [unpaired, hhigh, hlow]

variable (page) in
/-- The invalid code points are the unpaired surrogates. -/
theorem decodedFrom_invalid (index : Nat) (h : index ≤ page.charCount)
    (haligned : Aligned page index) :
    ((decodedFrom page index).filter fun p => !p.2.valid).map Prod.fst =
      (List.range' index (page.charCount - index)).filter (unpaired page) := by
  rw [← decodedFrom_units page index h]
  clear h
  induction index using decodedFrom.induct page with
  | case1 index hlt ih =>
    obtain ⟨hnext, hunits⟩ := haligned.decodedAt
    rw [decodedFrom, if_pos hlt, List.flatMap_cons, List.filter_append, hunits, ← ih hnext]
    cases hvalid : (decodedAt page index).valid <;> simp [hvalid]
  | case2 index hend =>
    rw [decodedFrom, if_neg hend]
    rfl

/-- The unit behind a code point begins the next one. -/
theorem decodedFrom_next {index first : Nat} {decoded : DecodedUtf16CodePoint}
    (h : (first, decoded) ∈ decodedFrom page index) :
    decoded = decodedAt page first ∧ (first + decoded.codeUnits < page.charCount →
      (first + decoded.codeUnits, decodedAt page (first + decoded.codeUnits)) ∈
        decodedFrom page index) := by
  induction index using decodedFrom.induct page with
  | case1 index hlt ih =>
    rw [decodedFrom, if_pos hlt] at h ⊢
    rcases List.mem_cons.mp h with heq | hmem
    · obtain ⟨rfl, rfl⟩ := Prod.mk.inj heq
      refine ⟨rfl, fun hnext => List.mem_cons_of_mem _ ?_⟩
      rw [decodedFrom, if_pos hnext]
      exact List.mem_cons_self ..
    · exact ⟨(ih hmem).1, fun hnext => List.mem_cons_of_mem _ ((ih hmem).2 hnext)⟩
  | case2 index hend =>
    rw [decodedFrom, if_neg hend] at h
    cases h

end Units

/-! ## The tokens -/

section Tokens

variable {α : Type} [Double α] {page : TextPage α} {scale : α}

/-- The tokens of one code point. -/
def codepointTokens (page : TextPage α) (scale : α) (p : Nat × DecodedUtf16CodePoint) :
    List (TextToken α) :=
  (extractCodepoint page scale p.1 p.2 ⟨[], noSignals⟩).tokens

theorem extractCodepoint_tokens (p : Nat × DecodedUtf16CodePoint) (s : Extraction α) :
    (extractCodepoint page scale p.1 p.2 s).tokens = s.tokens ++ codepointTokens page scale p := by
  unfold codepointTokens extractCodepoint
  dsimp only
  split
  · simp
  split
  · rfl
  split
  · simp
  cases usableBox page p.1 p.2.codeUnits with
  | none => simp
  | some box => rfl

theorem extractCodepoint_invalid (p : Nat × DecodedUtf16CodePoint) (s : Extraction α)
    (h : p.2.valid = false → p.2.value ≠ 0) :
    (extractCodepoint page scale p.1 p.2 s).signals.invalidUtf16Codepoints =
      s.signals.invalidUtf16Codepoints + if p.2.valid then 0 else 1 := by
  unfold extractCodepoint
  dsimp only
  split
  next hzero =>
    rw [if_pos (Bool.not_eq_false _ ▸ fun hvalid => h hvalid hzero)]
    rfl
  split
  · rfl
  split
  · split <;> rfl
  cases usableBox page p.1 p.2.codeUnits <;>
    · dsimp only
      split <;> rfl

theorem extractFrom_eq (index : Nat) (s : Extraction α) : extractFrom page scale index s =
    (decodedFrom page index).foldl (fun s p => extractCodepoint page scale p.1 p.2 s) s := by
  induction index using decodedFrom.induct page generalizing s with
  | case1 index hlt ih =>
    rw [extractFrom, decodedFrom, if_pos hlt, if_pos hlt, List.foldl_cons]
    exact ih _
  | case2 index hend =>
    rw [extractFrom, decodedFrom, if_neg hend, if_neg hend]
    rfl

theorem extractTokens_tokens :
    (extractTokens page scale).tokens = (decodedFrom page 0).flatMap (codepointTokens page scale) := by
  have hfold : ∀ (ps : List (Nat × DecodedUtf16CodePoint)) (s : Extraction α),
      (ps.foldl (fun s p => extractCodepoint page scale p.1 p.2 s) s).tokens =
        s.tokens ++ ps.flatMap (codepointTokens page scale) := by
    intro ps
    induction ps with
    | nil => simp
    | cons p ps ih =>
      intro s
      rw [List.foldl_cons, ih, extractCodepoint_tokens, List.flatMap_cons, List.append_assoc]
  unfold extractTokens
  rw [extractFrom_eq, hfold]
  rfl

/-- Every code point that stands for no character is counted. -/
theorem extractTokens_invalid : (extractTokens page scale).signals.invalidUtf16Codepoints =
    ((List.range page.charCount).filter (unpaired page)).length := by
  have hfold : ∀ (ps : List (Nat × DecodedUtf16CodePoint)) (s : Extraction α),
      (∀ p ∈ ps, p.2.valid = false → p.2.value ≠ 0) →
      (ps.foldl (fun s p => extractCodepoint page scale p.1 p.2 s) s).signals.invalidUtf16Codepoints =
        s.signals.invalidUtf16Codepoints + (ps.filter fun p => !p.2.valid).length := by
    intro ps
    induction ps with
    | nil => exact fun s _ => rfl
    | cons p ps ih =>
      intro s h
      rw [List.foldl_cons, ih _ fun q hq => h q (List.mem_cons_of_mem _ hq),
        extractCodepoint_invalid p s (h p (List.mem_cons_self ..))]
      cases hvalid : p.2.valid with
      | false =>
        rw [List.filter_cons_of_pos (by simp [hvalid]), List.length_cons, if_neg Bool.false_ne_true]
        omega
      | true => simp [hvalid]
  unfold extractTokens
  rw [extractFrom_eq, hfold _ _ fun p hp hinvalid => ?_]
  · have hcount := congrArg List.length
      (decodedFrom_invalid page 0 (Nat.zero_le _) fun h => absurd h (Nat.lt_irrefl 0))
    rw [List.length_map, Nat.sub_zero, ← List.range_eq_range'] at hcount
    rw [hcount]
    exact Nat.zero_add _
  · rw [(decodedFrom_next hp).1] at hinvalid ⊢
    rw [decodedAt_invalid hinvalid]
    decide

/-- A glyph is the encoding of one character. -/
theorem codepointTokens_valid {p : Nat × DecodedUtf16CodePoint} {token : TextToken α}
    (h : token ∈ codepointTokens page scale p) (hglyph : token.kind = .glyph) :
    ∃ c : Char, textBytes token.text = String.utf8EncodeChar c := by
  unfold codepointTokens extractCodepoint at h
  dsimp only at h
  split at h
  · cases h
  split at h
  · obtain rfl := List.mem_singleton.mp h
    cases hglyph
  split at h
  · cases h
  cases hbox : usableBox page p.1 p.2.codeUnits with
  | none =>
    rw [hbox] at h
    cases h
  | some box =>
    rw [hbox] at h
    obtain rfl := List.mem_singleton.mp h
    exact ⟨_, (textBytes_byteText _).trans (encodeUtf8_eq _)⟩

/-- The token of a code point that is no control, in its box. -/
theorem codepointTokens_glyph {p : Nat × DecodedUtf16CodePoint} (hvalue : 0x20 ≤ p.2.value)
    {box : CharBox α} (hbox : usableBox page p.1 p.2.codeUnits = some box) :
    codepointTokens page scale p = [glyphToken page scale p.2.value box] := by
  have hne : ∀ control : UInt32, control < 0x20 → p.2.value ≠ control := by
    rintro control hlt heq
    rw [heq] at hvalue
    exact absurd hvalue (UInt32.not_le.mpr hlt)
  unfold codepointTokens extractCodepoint
  rw [if_neg (hne 0 (by decide))]
  dsimp only
  rw [if_neg (not_or.mpr ⟨hne 0x0D (by decide), hne 0x0A (by decide)⟩),
    if_neg fun h => absurd hvalue (UInt32.not_le.mpr h.2.1), hbox, if_neg (hne 0x02 (by decide))]
  rfl

omit [Double α] in
theorem getUnicode_of_drop {index : Nat} {unit : UInt16} {rest : List UInt16}
    (h : page.units.drop index = unit :: rest) :
    index < page.charCount ∧ page.getUnicode index = unit.toUInt32 ∧
      page.units.drop (index + 1) = rest := by
  have hlt : index < page.units.length := by
    refine Nat.lt_of_not_le fun hle => ?_
    rw [List.drop_eq_nil_of_le hle] at h
    cases h
  rw [List.drop_eq_getElem_cons hlt] at h
  obtain ⟨hunit, hrest⟩ := List.cons.inj h
  refine ⟨hlt, ?_, hrest⟩
  unfold TextPage.getUnicode
  rw [List.getD, List.getElem?_eq_getElem hlt, Option.getD_some, hunit]

omit [Double α] in
/-- Well-formed units are decoded to their characters. -/
theorem decodedFrom_encode (chars : List Char) : ∀ index : Nat,
    page.units.drop index = chars.flatMap encodeUtf16 →
    (decodedFrom page index).map (fun p => p.2.value) = chars.map (·.val) := by
  induction chars with
  | nil =>
    intro index h
    have hend : ¬ index < page.charCount := Nat.not_lt.mpr (List.drop_eq_nil_iff.mp h)
    rw [decodedFrom, if_neg hend]
    rfl
  | cons c chars ih =>
    intro index h
    rw [List.flatMap_cons] at h
    rcases decode_encode c with ⟨unit, hunits, hdecode⟩ | ⟨high, low, hunits, hdecode⟩
    · rw [hunits] at h
      obtain ⟨hlt, hunit, hrest⟩ := getUnicode_of_drop h
      have hdecoded : decodedAt page index = ⟨c.val, 1, true⟩ := by
        rw [decodedAt_eq, hunit, hdecode]
      rw [decodedFrom, if_pos hlt, hdecoded, List.map_cons, List.map_cons, ih _ hrest]
    · rw [hunits] at h
      obtain ⟨hlt, hhigh, hrest⟩ := getUnicode_of_drop h
      obtain ⟨-, hlow, hrest⟩ := getUnicode_of_drop hrest
      have hdecoded : decodedAt page index = ⟨c.val, 2, true⟩ := by
        rw [decodedAt_eq, hhigh, hlow, hdecode]
      rw [decodedFrom, if_pos hlt, hdecoded, List.map_cons, List.map_cons]
      exact congrArg (c.val :: ·) (ih _ hrest)

/-- The texts of code points from U+0020 up, if all have a box. -/
theorem flatMap_textBytes (ps : List (Nat × DecodedUtf16CodePoint))
    (h : ∀ p ∈ ps, 0x20 ≤ p.2.value ∧ (usableBox page p.1 p.2.codeUnits).isSome = true) :
    (ps.flatMap (codepointTokens page scale)).flatMap (fun token => textBytes token.text) =
      (ps.map fun p => p.2.value).flatMap encodeUtf8 := by
  induction ps with
  | nil => rfl
  | cons p ps ih =>
    obtain ⟨hvalue, hsome⟩ := h p (List.mem_cons_self ..)
    obtain ⟨box, hbox⟩ := Option.isSome_iff_exists.mp hsome
    rw [List.flatMap_cons, List.flatMap_append, codepointTokens_glyph hvalue hbox,
      ih fun q hq => h q (List.mem_cons_of_mem _ hq), List.flatMap_singleton, List.map_cons,
      List.flatMap_cons]
    exact congrArg (· ++ _) (textBytes_byteText _)

theorem encode_chars (chars : List Char) :
    ((chars.map (·.val)).flatMap encodeUtf8).toByteArray = chars.utf8Encode := by
  have hchars : (chars.map (·.val)).flatMap encodeUtf8 = chars.flatMap String.utf8EncodeChar := by
    rw [List.flatMap_map]
    refine List.flatMap_congr fun c _ => ?_
    rw [encodeUtf8_eq, scalarOf_val]
  rw [hchars]
  rfl

variable (page scale) in
/-- **Extraction of UTF-16.** The loop consumes every unit once, and the text of every glyph is
the encoding of one character. Units that encode characters from U+0020 up, all with a box, give
texts that decode to these characters. An unpaired surrogate is one code point, counted as invalid,
with U+FFFD as its token if it has a box, and the unit behind it begins the next code point. -/
theorem utf16_extraction :
    ((decodedFrom page 0).flatMap fun p => List.range' p.1 p.2.codeUnits) =
      List.range page.charCount ∧
    (extractTokens page scale).tokens = (decodedFrom page 0).flatMap (codepointTokens page scale) ∧
    (∀ token ∈ (extractTokens page scale).tokens, token.kind = .glyph →
      ∃ c : Char, textBytes token.text = String.utf8EncodeChar c) ∧
    (∀ chars : List Char, (∀ c ∈ chars, 0x20 ≤ c.val) →
      page.units = chars.flatMap encodeUtf16 →
      (∀ p ∈ decodedFrom page 0, (usableBox page p.1 p.2.codeUnits).isSome = true) →
      (textBytes (String.join ((extractTokens page scale).tokens.map (·.text)))).toByteArray.utf8Decode?
        = some chars.toArray) ∧
    (∀ index, unpaired page index = true →
      (index, invalidCodePoint) ∈ decodedFrom page 0 ∧
      (∀ box, usableBox page index 1 = some box →
        codepointTokens page scale (index, invalidCodePoint) =
          [glyphToken page scale 0xFFFD box]) ∧
      (index + 1 < page.charCount →
        (index + 1, decodedAt page (index + 1)) ∈ decodedFrom page 0)) ∧
    (extractTokens page scale).signals.invalidUtf16Codepoints =
      ((List.range page.charCount).filter (unpaired page)).length := by
  have hunits := decodedFrom_units page 0 (Nat.zero_le _)
  rw [Nat.sub_zero, ← List.range_eq_range'] at hunits
  refine ⟨hunits, extractTokens_tokens, fun token htoken hglyph => ?_,
    fun chars hchars hencode hboxes => ?_, fun index hindex => ?_, extractTokens_invalid⟩
  · rw [extractTokens_tokens] at htoken
    obtain ⟨p, -, hp⟩ := List.mem_flatMap.mp htoken
    exact codepointTokens_valid hp hglyph
  · have hvalues := decodedFrom_encode chars 0 (page.units.drop_zero.trans hencode)
    have hall : ∀ p ∈ decodedFrom page 0, 0x20 ≤ p.2.value ∧
        (usableBox page p.1 p.2.codeUnits).isSome = true := by
      intro p hp
      have hmem := List.mem_map_of_mem (f := fun p => p.2.value) hp
      rw [hvalues] at hmem
      obtain ⟨c, hc, heq⟩ := List.mem_map.mp hmem
      exact ⟨heq ▸ hchars c hc, hboxes p hp⟩
    rw [textBytes_join, List.flatMap_map, extractTokens_tokens, flatMap_textBytes _ hall, hvalues,
      encode_chars]
    exact List.utf8Decode?_utf8Encode
  · have hlt := unpaired_lt hindex
    have hmem : index ∈ (List.range page.charCount).filter (unpaired page) :=
      List.mem_filter.mpr ⟨List.mem_range.mpr hlt, hindex⟩
    rw [List.range_eq_range', ← Nat.sub_zero page.charCount,
      ← decodedFrom_invalid page 0 (Nat.zero_le _) fun h => absurd h (Nat.lt_irrefl 0)] at hmem
    obtain ⟨p, hp, rfl⟩ := List.mem_map.mp hmem
    obtain ⟨hvisited, hinvalid⟩ := List.mem_filter.mp hp
    obtain ⟨hdecoded, hnext⟩ := decodedFrom_next hvisited
    have heq : p = (p.1, invalidCodePoint) := by
      refine Prod.ext rfl ?_
      rw [Bool.not_eq_true', hdecoded] at hinvalid
      exact hdecoded.trans (decodedAt_invalid hinvalid)
    rw [heq] at hvisited hnext
    exact ⟨hvisited, fun box hbox => codepointTokens_glyph
      (show (0x20 : UInt32) ≤ invalidCodePoint.value by decide) hbox, hnext⟩

end Tokens

/-! ## A letter and a pair, and the halves of a pair apart -/

section Example

def unitPage (units : List UInt16) : TextPage ℚ := ⟨units, fun _ => some ⟨0, 1, 0, 1⟩, 100⟩

theorem unitPage_usable (units : List UInt16) (index codeUnits : Nat) :
    usableBox (unitPage units) index codeUnits = some ⟨0, 1, 0, 1⟩ := by
  unfold usableBox unitPage
  dsimp only
  by_cases h : codeUnits = 2
  · rw [if_pos h]
    decide +kernel
  · rw [if_neg h]
    decide +kernel

theorem utf16_extraction_units :
    (textBytes (String.join ((extractTokens (unitPage [0x41, 0xD83D, 0xDE00]) 1).tokens.map
      (·.text)))).toByteArray.utf8Decode? = some #['A', '😀'] ∧
    (0, invalidCodePoint) ∈ decodedFrom (unitPage [0xD83D, 0x42, 0xDE00]) 0 ∧
    codepointTokens (unitPage [0xD83D, 0x42, 0xDE00]) 1 (0, invalidCodePoint) =
      [glyphToken (unitPage [0xD83D, 0x42, 0xDE00]) 1 0xFFFD ⟨0, 1, 0, 1⟩] ∧
    (1, decodedAt (unitPage [0xD83D, 0x42, 0xDE00]) 1) ∈
      decodedFrom (unitPage [0xD83D, 0x42, 0xDE00]) 0 := by
  obtain ⟨-, -, -, hdecode, -⟩ := utf16_extraction (unitPage [0x41, 0xD83D, 0xDE00]) 1
  obtain ⟨-, -, -, -, hunpaired, -⟩ := utf16_extraction (unitPage [0xD83D, 0x42, 0xDE00]) 1
  obtain ⟨hvisited, htoken, hnext⟩ := hunpaired 0 (by decide +kernel)
  have hprintable : ∀ c ∈ ['A', '😀'], 0x20 ≤ c.val := by
    simp only [List.forall_mem_cons]
    exact ⟨by decide, by decide, fun c hc => by cases hc⟩
  refine ⟨hdecode ['A', '😀'] hprintable (by decide +kernel) fun p _ => ?_, hvisited,
    htoken _ (unitPage_usable _ _ _), hnext (by decide)⟩
  rw [unitPage_usable]
  rfl

end Example

end DocParser.PdfTextExtractor
