import Mathlib.Data.List.Basic

/-!
# UTF-16 and UTF-8

The decoder looks at a code unit and the one behind it, and the encoder writes one to four bytes.
`decode_encode` is the decoder on the encoding of a character by RFC 2781; `encodeUtf8_eq` is the
encoder against the encoding of the library.
-/

namespace DocParser

/-! ## The source -/

section Definitions

def kUnicodeReplacementCharacter : UInt32 := 0xFFFD

structure DecodedUtf16CodePoint where
  value : UInt32
  codeUnits : Nat
  valid : Bool
  deriving DecidableEq, Repr

def isHighSurrogate (value : UInt32) : Bool := decide (0xD800 ≤ value) && decide (value ≤ 0xDBFF)

def isLowSurrogate (value : UInt32) : Bool := decide (0xDC00 ≤ value) && decide (value ≤ 0xDFFF)

def isUnicodeScalarValue (value : UInt32) : Bool :=
  decide (value ≤ 0x10FFFF) && !isHighSurrogate value && !isLowSurrogate value

/-- A unit that stands for no code point. -/
def invalidCodePoint : DecodedUtf16CodePoint := ⟨kUnicodeReplacementCharacter, 1, false⟩

def decodeUtf16CodePoint (first following : UInt32) : DecodedUtf16CodePoint :=
  if isHighSurrogate first then
    if !isLowSurrogate following then invalidCodePoint
    else ⟨(0x10000 : UInt32) + ((first - 0xD800) <<< (10 : UInt32)) + (following - 0xDC00), 2, true⟩
  else if !isUnicodeScalarValue first then invalidCodePoint
  else ⟨first, 1, true⟩

/-- `static_cast<char>` -/
def byte (value : UInt32) : UInt8 := value.toUInt8

def encodeUtf8 (codepoint : UInt32) : List UInt8 :=
  let codepoint :=
    if !isUnicodeScalarValue codepoint then kUnicodeReplacementCharacter else codepoint
  if codepoint ≤ 0x7F then [byte codepoint]
  else if codepoint ≤ 0x7FF then
    [byte ((0xC0 : UInt32) ||| ((codepoint >>> 6) &&& 0x1F)),
      byte ((0x80 : UInt32) ||| (codepoint &&& 0x3F))]
  else if codepoint ≤ 0xFFFF then
    [byte ((0xE0 : UInt32) ||| ((codepoint >>> 12) &&& 0x0F)),
      byte ((0x80 : UInt32) ||| ((codepoint >>> 6) &&& 0x3F)),
      byte ((0x80 : UInt32) ||| (codepoint &&& 0x3F))]
  else
    [byte ((0xF0 : UInt32) ||| ((codepoint >>> 18) &&& 0x07)),
      byte ((0x80 : UInt32) ||| ((codepoint >>> 12) &&& 0x3F)),
      byte ((0x80 : UInt32) ||| ((codepoint >>> 6) &&& 0x3F)),
      byte ((0x80 : UInt32) ||| (codepoint &&& 0x3F))]

/-- A `std::string` holds bytes: a character of the model is one of them. -/
def byteText (bytes : List UInt8) : String :=
  String.ofList (bytes.map fun byte => Char.ofNat byte.toNat)

def textBytes (text : String) : List UInt8 := text.toList.map fun c => c.toNat.toUInt8

end Definitions

/-! ## The encodings of a character -/

/-- The code units of a character: one, or the two halves of what is left above `0x10000`. -/
def encodeUtf16 (c : Char) : List UInt16 :=
  if c.toNat < 0x10000 then [c.toNat.toUInt16]
  else [(0xD800 + (c.toNat - 0x10000) / 0x400).toUInt16,
    (0xDC00 + (c.toNat - 0x10000) % 0x400).toUInt16]

/-- The character that is written for a code point. -/
def scalarOf (codepoint : UInt32) : Char :=
  if h : codepoint.isValidChar then ⟨codepoint, h⟩ else Char.ofNat 0xFFFD

theorem textBytes_byteText (bytes : List UInt8) : textBytes (byteText bytes) = bytes := by
  have hbyte : ∀ byte : UInt8, (Char.ofNat byte.toNat).toNat.toUInt8 = byte := by
    intro byte
    have hlt := byte.toNat_lt
    have hvalid : byte.toNat.isValidChar := .inl (by omega)
    have hchar : (Char.ofNat byte.toNat).toNat = byte.toNat := by
      unfold Char.ofNat
      rw [dif_pos hvalid]
      rfl
    rw [hchar]
    exact UInt8.ofNat_toNat
  unfold textBytes byteText
  rw [String.toList_ofList, List.map_map]
  exact (List.map_congr_left fun byte _ => hbyte byte).trans (List.map_id _)

theorem textBytes_join (texts : List String) :
    textBytes (String.join texts) = texts.flatMap textBytes := by
  unfold textBytes
  rw [String.toList_join, List.map_flatMap]

/-! ## Code points -/

theorem isHighSurrogate_iff {value : UInt32} :
    isHighSurrogate value = true ↔ 0xD800 ≤ value.toNat ∧ value.toNat ≤ 0xDBFF := by
  unfold isHighSurrogate
  rw [Bool.and_eq_true, decide_eq_true_iff, decide_eq_true_iff, UInt32.le_iff_toNat_le,
    UInt32.le_iff_toNat_le]
  rfl

theorem isLowSurrogate_iff {value : UInt32} :
    isLowSurrogate value = true ↔ 0xDC00 ≤ value.toNat ∧ value.toNat ≤ 0xDFFF := by
  unfold isLowSurrogate
  rw [Bool.and_eq_true, decide_eq_true_iff, decide_eq_true_iff, UInt32.le_iff_toNat_le,
    UInt32.le_iff_toNat_le]
  rfl

theorem not_low_of_high {value : UInt32} (h : isHighSurrogate value = true) :
    isLowSurrogate value = false := by
  have hhigh := isHighSurrogate_iff.mp h
  rw [Bool.eq_false_iff, Ne, isLowSurrogate_iff]
  omega

theorem isUnicodeScalarValue_iff {value : UInt32} :
    isUnicodeScalarValue value = true ↔ value.isValidChar := by
  unfold isUnicodeScalarValue UInt32.isValidChar Nat.isValidChar
  rw [Bool.and_eq_true, Bool.and_eq_true, Bool.not_eq_true', Bool.not_eq_true', Bool.eq_false_iff,
    Bool.eq_false_iff, Ne, Ne, isHighSurrogate_iff, isLowSurrogate_iff, decide_eq_true_iff,
    UInt32.le_iff_toNat_le, show (0x10FFFF : UInt32).toNat = 0x10FFFF from rfl]
  omega

theorem not_surrogate_of_scalar {value : UInt32} (h : isUnicodeScalarValue value = true) :
    isHighSurrogate value = false ∧ isLowSurrogate value = false := by
  unfold isUnicodeScalarValue at h
  simp only [Bool.and_eq_true, Bool.not_eq_true'] at h
  exact ⟨h.1.2, h.2⟩

/-- **The encoder** writes the encoding of a scalar value, for any code point. -/
theorem encodeUtf8_eq (codepoint : UInt32) :
    encodeUtf8 codepoint = String.utf8EncodeChar (scalarOf codepoint) := by
  have hscalar : (if !isUnicodeScalarValue codepoint then kUnicodeReplacementCharacter
      else codepoint) = (scalarOf codepoint).val := by
    unfold scalarOf
    by_cases h : codepoint.isValidChar
    · rw [dif_pos h, isUnicodeScalarValue_iff.mpr h]
      rfl
    · rw [dif_neg h, Bool.eq_false_iff.mpr (isUnicodeScalarValue_iff.not.mpr h)]
      rfl
  unfold encodeUtf8
  rw [hscalar, String.utf8EncodeChar_eq_utf8EncodeCharFast]
  unfold String.utf8EncodeCharFast byte
  simp only [UInt32.toUInt8_or, UInt32.toUInt8_and]
  simp only [UInt8.or_comm _ 0xc0, UInt8.or_comm _ 0xe0, UInt8.or_comm _ 0xf0, UInt8.or_comm _ 0x80]
  rfl

theorem scalarOf_val (c : Char) : scalarOf c.val = c := dif_pos c.valid

/-! ## Decoding -/

theorem pair_toNat {first following : UInt32} (hfirst : isHighSurrogate first = true)
    (hfollowing : isLowSurrogate following = true) :
    ((0x10000 : UInt32) + ((first - 0xD800) <<< (10 : UInt32)) + (following - 0xDC00)).toNat =
      0x10000 + (first.toNat - 0xD800) * 0x400 + (following.toNat - 0xDC00) := by
  obtain ⟨hlow, hhigh⟩ := isHighSurrogate_iff.mp hfirst
  obtain ⟨hlow', hhigh'⟩ := isLowSurrogate_iff.mp hfollowing
  have hfirstSub : (first - 0xD800).toNat = first.toNat - 0xD800 :=
    UInt32.toNat_sub_of_le _ _ (UInt32.le_iff_toNat_le.mpr hlow)
  have hfollowingSub : (following - 0xDC00).toNat = following.toNat - 0xDC00 :=
    UInt32.toNat_sub_of_le _ _ (UInt32.le_iff_toNat_le.mpr hlow')
  have hshift : ((first - 0xD800) <<< (10 : UInt32)).toNat = (first.toNat - 0xD800) * 0x400 := by
    rw [UInt32.toNat_shiftLeft, hfirstSub]
    show (first.toNat - 0xD800) <<< 10 % 2 ^ 32 = _
    rw [Nat.shiftLeft_eq, Nat.mod_eq_of_lt (by omega)]
  rw [UInt32.toNat_add, UInt32.toNat_add, hshift, hfollowingSub]
  show ((0x10000 + _) % 2 ^ 32 + _) % 2 ^ 32 = _
  omega

/-- What the decoder makes of a unit and the one behind it. -/
theorem decode_cases (first following : UInt32) :
    (isHighSurrogate first = true ∧ isLowSurrogate following = true ∧
      (decodeUtf16CodePoint first following).codeUnits = 2 ∧
      (decodeUtf16CodePoint first following).valid = true) ∨
    (decodeUtf16CodePoint first following = invalidCodePoint ∧
      (isHighSurrogate first = true ∧ isLowSurrogate following = false ∨
        isUnicodeScalarValue first = false ∧ isHighSurrogate first = false)) ∨
    (decodeUtf16CodePoint first following = ⟨first, 1, true⟩ ∧
      isUnicodeScalarValue first = true) := by
  unfold decodeUtf16CodePoint
  cases hhigh : isHighSurrogate first <;> cases hlow : isLowSurrogate following <;>
    cases hscalar : isUnicodeScalarValue first <;> simp

theorem decode_single (c : Char) (following : UInt32) (h : isHighSurrogate c.val = false) :
    decodeUtf16CodePoint c.val following = ⟨c.val, 1, true⟩ := by
  unfold decodeUtf16CodePoint
  rw [h, isUnicodeScalarValue_iff.mpr c.valid]
  rfl

theorem toNat_toUInt16 {n : Nat} (h : n < 0x10000) : n.toUInt16.toUInt32.toNat = n := by
  rw [UInt16.toNat_toUInt32]
  exact Nat.mod_eq_of_lt h

/-- **The decoder** reads the encoding of a character, whatever is behind it. -/
theorem decode_encode (c : Char) :
    (∃ unit, encodeUtf16 c = [unit] ∧
      ∀ following, decodeUtf16CodePoint unit.toUInt32 following = ⟨c.val, 1, true⟩) ∨
    ∃ high low, encodeUtf16 c = [high, low] ∧
      decodeUtf16CodePoint high.toUInt32 low.toUInt32 = ⟨c.val, 2, true⟩ := by
  have hvalid : c.toNat < 0xD800 ∨ 0xDFFF < c.toNat ∧ c.toNat < 0x110000 := c.valid
  unfold encodeUtf16
  by_cases hsmall : c.toNat < 0x10000
  · rw [if_pos hsmall]
    refine .inl ⟨_, rfl, fun following => ?_⟩
    have hunit : c.toNat.toUInt16.toUInt32 = c.val := UInt32.toNat_inj.mp (toNat_toUInt16 hsmall)
    rw [hunit]
    refine decode_single c following (Bool.eq_false_iff.mpr fun hhigh => ?_)
    have hrange := isHighSurrogate_iff.mp hhigh
    have hsame : c.val.toNat = c.toNat := rfl
    omega
  · rw [if_neg hsmall]
    refine .inr ⟨_, _, rfl, ?_⟩
    generalize hoffset : c.toNat - 0x10000 = offset
    have hhighNat := toNat_toUInt16 (n := 0xD800 + offset / 0x400) (by omega)
    have hlowNat := toNat_toUInt16 (n := 0xDC00 + offset % 0x400) (by omega)
    have hhigh := isHighSurrogate_iff.mpr
      (show 0xD800 ≤ (0xD800 + offset / 0x400).toUInt16.toUInt32.toNat ∧ _ by omega)
    have hlow := isLowSurrogate_iff.mpr
      (show 0xDC00 ≤ (0xDC00 + offset % 0x400).toUInt16.toUInt32.toNat ∧ _ by omega)
    unfold decodeUtf16CodePoint
    rw [if_pos hhigh, hlow]
    have hvalue := pair_toNat hhigh hlow
    rw [hhighNat, hlowNat] at hvalue
    refine congrArg (DecodedUtf16CodePoint.mk · 2 true) (UInt32.toNat_inj.mp (hvalue.trans ?_))
    show _ = c.toNat
    omega

end DocParser
