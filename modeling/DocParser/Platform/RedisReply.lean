import Mathlib
import DocParser.Common.Standard
import DocParser.Lib.Fragments

/-!
# Replies of the Redis server

The client of the worker encodes commands and decodes replies. `readLine` and `readExact` take
bytes off the front of a buffer that stays between the calls, `readValue` calls itself for the
elements of an array. `redis_codec`: what is decoded depends on the bytes alone, and a command
that is read back is the list of its arguments.
-/

namespace DocParser.Platform.RedisClient

open Fragments

abbrev Byte := UInt8

/-- `RedisClient::Value`. -/
inductive Value where
  | null
  | string (string : List Byte)
  | integer (integer : Int)
  | array (array : List Value)
  | error (string : List Byte)

/-- `max_size` of a `std::vector<Value>`: a `Value` has 72 bytes. -/
def Value.maxSize : Nat := (2 ^ 63 - 1) / 72

theorem Value.maxSize_lt : Value.maxSize < 2 ^ 63 := by decide

/-- What the functions throw. No call runs out of `depth`. -/
inductive ReadError where
  | runtimeError (what : String)
  | invalidArgument
  | outOfRange
  | lengthError
  | depth
  deriving DecidableEq

abbrev crlf : List Byte := [13, 10]

/-! ## Numbers -/

/-- `std::to_string` -/
def toString (n : Nat) : List Byte := (Nat.toDigits 10 n).map Char.toUInt8

/-- The value of the digits a text begins with; what follows them is not read. -/
def signedValue (negative : Bool) (text : List Char) : Except ReadError Int :=
  let digits := text.takeWhile isDigit
  let value : Int := Nat.ofDigitChars 10 digits 0
  let value := if negative then -value else value
  if digits.isEmpty then .error .invalidArgument
  else if value < -2 ^ 63 ∨ 2 ^ 63 ≤ value then .error .outOfRange
  else .ok value

/-- `std::stoll`: blanks and a sign may be in front of the digits. -/
def stoll (text : List Byte) : Except ReadError Int :=
  match (text.map Char.ofUInt8).dropWhile isSpace with
  | '-' :: text => signedValue true text
  | '+' :: text => signedValue false text
  | text => signedValue false text

/-! ## The client -/

/-- A `std::string`, whose size is at most the largest signed one. -/
abbrev StdString := {bytes : List Byte // bytes.length < 2 ^ 63}

/-- A `std::vector<std::string>` that is no longer than an array of a reply. -/
abbrev Arguments := {arguments : List StdString // arguments.length ≤ Value.maxSize}

def encodeCommand (arguments : Arguments) : List Byte :=
  [42] ++ toString arguments.val.length ++ crlf ++
    arguments.val.flatMap fun argument =>
      [36] ++ toString argument.val.length ++ crlf ++ argument.val ++ crlf

/-- The bytes before the next line end. -/
def readLine (c : Connection Byte) : Except ReadError (List Byte × Connection Byte) :=
  match receive (splitAt crlf) c.inputBuffer c.pieces with
  | some r => .ok r
  | none => .error (.runtimeError "Redis connection closed while reading a line")

def readExact (size : Nat) (c : Connection Byte) :
    Except ReadError (List Byte × Connection Byte) :=
  match receive (cut size) c.inputBuffer c.pieces with
  | some r => .ok r
  | none => .error (.runtimeError "Redis connection closed while reading a payload")

/-- The loop over the elements of an array. -/
def readArray (readValue : Connection Byte → Except ReadError (Value × Connection Byte)) :
    Nat → Connection Byte → Except ReadError (List Value × Connection Byte)
  | 0, c => .ok ([], c)
  | count + 1, c => do
    let (value, c) ← readValue c
    let (values, c) ← readArray readValue count c
    return (value :: values, c)

/-- The body of `readValue`, with the function it calls for an element. -/
def readValueBody (readValue : Connection Byte → Except ReadError (Value × Connection Byte))
    (c : Connection Byte) : Except ReadError (Value × Connection Byte) := do
  let (start, c) ← readExact 1 c
  if start = [43] then
    let (line, c) ← readLine c
    return (.string line, c)
  else if start = [45] then
    let (line, c) ← readLine c
    return (.error line, c)
  else if start = [58] then
    let (line, c) ← readLine c
    let integer ← stoll line
    return (.integer integer, c)
  else if start = [36] then
    let (line, c) ← readLine c
    let length ← stoll line
    if length < 0 then
      return (.null, c)
    else
      let (data, c) ← readExact length.toNat c
      let (terminator, c) ← readExact 2 c
      if terminator = crlf then
        return (.string data, c)
      else
        throw (.runtimeError "invalid Redis bulk string terminator")
  else if start = [42] then
    let (line, c) ← readLine c
    let count ← stoll line
    if count < 0 then
      return (.null, c)
    else if Value.maxSize < count.toNat then
      -- `reserve`
      throw .lengthError
    else
      let (values, c) ← readArray readValue count.toNat c
      return (.array values, c)
  else
    throw (.runtimeError ("unsupported Redis RESP prefix: " ++
      String.ofList (start.map Char.ofUInt8)))

/-- `readValue` with a bound on the depth of its calls. -/
def readValueAt : Nat → Connection Byte → Except ReadError (Value × Connection Byte)
  | 0, _ => .error .depth
  | depth + 1, c => readValueBody (readValueAt depth) c

/-- Every call reads a byte before it calls itself, so the depth is that of the bytes. -/
def readValue (c : Connection Byte) : Except ReadError (Value × Connection Byte) :=
  readValueAt (c.content.length + 1) c

/-! ## Fragmentation -/

section Agreement

variable {σ τ : Type}

/-- A result and the bytes that are left. -/
def view (r : σ × Connection Byte) : σ × List Byte := (r.1, r.2.content)

/-- Two reads throw the same, or have the same result and leave the same bytes. -/
def Agree (x y : Except ReadError (σ × Connection Byte)) : Prop := x.map view = y.map view

theorem Agree.refl (x : Except ReadError (σ × Connection Byte)) : Agree x x := rfl

theorem agree_ok {v : σ} {c d : Connection Byte} (h : c.content = d.content) :
    Agree (.ok (v, c)) (.ok (v, d)) :=
  congrArg (fun bytes => Except.ok (v, bytes)) h

theorem Agree.bind {x y : Except ReadError (σ × Connection Byte)}
    {f g : σ × Connection Byte → Except ReadError (τ × Connection Byte)} (h : Agree x y)
    (hnext : ∀ v c d, c.content = d.content → Agree (f (v, c)) (g (v, d))) :
    Agree (x >>= f) (y >>= g) := by
  cases x with
  | error e =>
    cases y with
    | error e' => exact congrArg Except.error (Except.error.inj h)
    | ok r => cases h
  | ok r =>
    cases y with
    | error e => cases h
    | ok r' =>
      obtain ⟨v, c⟩ := r
      obtain ⟨v', d⟩ := r'
      obtain ⟨hvalue, hcontent⟩ := Prod.mk.inj (Except.ok.inj h)
      cases hvalue
      exact hnext v c d hcontent

theorem agree_bind (x : Except ReadError τ) {f g : τ → Except ReadError (σ × Connection Byte)}
    (h : ∀ v, Agree (f v) (g v)) : Agree (x >>= f) (x >>= g) := by
  cases x with
  | error e => exact Agree.refl _
  | ok v => exact h v

end Agreement

theorem readLine_view (c : Connection Byte) : (readLine c).map view =
    match splitAt crlf c.content with
    | some r => .ok r
    | none => .error (.runtimeError "Redis connection closed while reading a line") := by
  have h := receive_view (extends_splitAt crlf) c.inputBuffer c.pieces
  change _ = splitAt crlf c.content at h
  rw [← h]
  unfold readLine
  cases receive (splitAt crlf) c.inputBuffer c.pieces <;> rfl

theorem readExact_view (size : Nat) (c : Connection Byte) : (readExact size c).map view =
    match cut size c.content with
    | some r => .ok r
    | none => .error (.runtimeError "Redis connection closed while reading a payload") := by
  have h := receive_view (extends_cut size) c.inputBuffer c.pieces
  change _ = cut size c.content at h
  rw [← h]
  unfold readExact
  cases receive (cut size) c.inputBuffer c.pieces <;> rfl

theorem readLine_agree {c d : Connection Byte} (h : c.content = d.content) :
    Agree (readLine c) (readLine d) := by
  unfold Agree
  rw [readLine_view, readLine_view, h]

theorem readExact_agree (size : Nat) {c d : Connection Byte} (h : c.content = d.content) :
    Agree (readExact size c) (readExact size d) := by
  unfold Agree
  rw [readExact_view, readExact_view, h]

theorem readArray_agree
    {readValue : Connection Byte → Except ReadError (Value × Connection Byte)}
    (hread : ∀ c d, c.content = d.content → Agree (readValue c) (readValue d)) (count : Nat)
    {c d : Connection Byte} (h : c.content = d.content) :
    Agree (readArray readValue count c) (readArray readValue count d) := by
  induction count generalizing c d with
  | zero => exact agree_ok h
  | succ count ih =>
    refine (hread c d h).bind fun value c d h => ?_
    refine (ih h).bind fun values c d h => ?_
    exact agree_ok h

/-- The body of `readValue` looks at the bytes alone. -/
theorem readValueBody_agree
    {readValue : Connection Byte → Except ReadError (Value × Connection Byte)}
    (hread : ∀ c d, c.content = d.content → Agree (readValue c) (readValue d))
    {c d : Connection Byte} (h : c.content = d.content) :
    Agree (readValueBody readValue c) (readValueBody readValue d) := by
  refine (readExact_agree 1 h).bind fun start c d h => ?_
  dsimp only
  split_ifs
  · exact (readLine_agree h).bind fun line c d h => agree_ok h
  · exact (readLine_agree h).bind fun line c d h => agree_ok h
  · refine (readLine_agree h).bind fun line c d h => ?_
    exact agree_bind (stoll line) fun integer => agree_ok h
  · refine (readLine_agree h).bind fun line c d h => ?_
    refine agree_bind (stoll line) fun length => ?_
    split_ifs
    · exact agree_ok h
    · refine (readExact_agree _ h).bind fun data c d h => ?_
      refine (readExact_agree 2 h).bind fun terminator c d h => ?_
      dsimp only
      split_ifs
      · exact agree_ok h
      · exact Agree.refl _
  · refine (readLine_agree h).bind fun line c d h => ?_
    refine agree_bind (stoll line) fun count => ?_
    split_ifs
    · exact agree_ok h
    · exact Agree.refl _
    · exact (readArray_agree hread _ h).bind fun values c d h => agree_ok h
  · exact Agree.refl _

theorem readValueAt_agree (depth : Nat) {c d : Connection Byte} (h : c.content = d.content) :
    Agree (readValueAt depth c) (readValueAt depth d) := by
  induction depth generalizing c d with
  | zero => exact Agree.refl _
  | succ depth ih => exact readValueBody_agree (fun _ _ => ih) h

/-- **Fragmentation.** Connections with the same bytes give the same value and leave the same
bytes, or throw the same. -/
theorem readValue_agree {c d : Connection Byte} (h : c.content = d.content) :
    Agree (readValue c) (readValue d) := by
  unfold readValue
  rw [h]
  exact readValueAt_agree _ h

/-! ## Depth -/

theorem readExact_ok {size : Nat} {c c' : Connection Byte} {data : List Byte}
    (h : readExact size c = .ok (data, c')) :
    c.content = data ++ c'.content ∧ data.length = size := by
  have hview := readExact_view size c
  rw [h] at hview
  cases hcut : cut size c.content with
  | none =>
    rw [hcut] at hview
    cases hview
  | some r =>
    rw [hcut] at hview
    cases Except.ok.inj hview
    exact cut_eq_some hcut

theorem readLine_ok {c c' : Connection Byte} {line : List Byte}
    (h : readLine c = .ok (line, c')) : c.content = line ++ (crlf ++ c'.content) := by
  have hview := readLine_view c
  rw [h] at hview
  cases hsplit : splitAt crlf c.content with
  | none =>
    rw [hsplit] at hview
    cases hview
  | some r =>
    rw [hsplit] at hview
    cases Except.ok.inj hview
    exact splitAt_eq_some hsplit

theorem readLine_length {c c' : Connection Byte} {line : List Byte}
    (h : readLine c = .ok (line, c')) : c'.content.length ≤ c.content.length := by
  have hlength := congrArg List.length (readLine_ok h)
  rw [List.length_append, List.length_append] at hlength
  omega

theorem readExact_length {size : Nat} {c c' : Connection Byte} {data : List Byte}
    (h : readExact size c = .ok (data, c')) : c'.content.length + size = c.content.length := by
  obtain ⟨hcontent, hsize⟩ := readExact_ok h
  rw [hcontent, List.length_append, hsize, Nat.add_comm]

section Depth

variable {readValue readValue' : Connection Byte → Except ReadError (Value × Connection Byte)}

theorem readArray_length
    (hread : ∀ c v c', readValue c = .ok (v, c') → c'.content.length ≤ c.content.length)
    (count : Nat) {c c' : Connection Byte} {values : List Value}
    (h : readArray readValue count c = .ok (values, c')) :
    c'.content.length ≤ c.content.length := by
  induction count generalizing c values with
  | zero =>
    cases h
    exact le_rfl
  | succ count ih =>
    obtain ⟨⟨v, d⟩, hvalue, h⟩ := ok_of_bind h
    obtain ⟨⟨vs, d'⟩, hvalues, h⟩ := ok_of_bind h
    cases h
    exact (ih hvalues).trans (hread c v d hvalue)

/-- A value takes at least the byte it begins with. -/
theorem readValueBody_length
    (hread : ∀ c v c', readValue c = .ok (v, c') → c'.content.length ≤ c.content.length)
    {c c' : Connection Byte} {v : Value} (h : readValueBody readValue c = .ok (v, c')) :
    c'.content.length < c.content.length := by
  obtain ⟨⟨start, d⟩, hstart, h⟩ := ok_of_bind h
  have hbyte := readExact_length hstart
  suffices hle : c'.content.length ≤ d.content.length by omega
  dsimp only at h
  split_ifs at h
  · obtain ⟨⟨line, d'⟩, hline, h⟩ := ok_of_bind h
    cases h
    exact readLine_length hline
  · obtain ⟨⟨line, d'⟩, hline, h⟩ := ok_of_bind h
    cases h
    exact readLine_length hline
  · obtain ⟨⟨line, d'⟩, hline, h⟩ := ok_of_bind h
    obtain ⟨integer, -, h⟩ := ok_of_bind h
    cases h
    exact readLine_length hline
  · obtain ⟨⟨line, d'⟩, hline, h⟩ := ok_of_bind h
    obtain ⟨length, -, h⟩ := ok_of_bind h
    have hle := readLine_length hline
    split_ifs at h
    · cases h
      exact hle
    · obtain ⟨⟨data, e⟩, hdata, h⟩ := ok_of_bind h
      obtain ⟨⟨terminator, e'⟩, hterminator, h⟩ := ok_of_bind h
      dsimp only at h
      split_ifs at h
      cases h
      have hdatale : e.content.length + length.toNat = d'.content.length :=
        readExact_length hdata
      have hterminatorle : c'.content.length + 2 = e.content.length :=
        readExact_length hterminator
      omega
  · obtain ⟨⟨line, d'⟩, hline, h⟩ := ok_of_bind h
    obtain ⟨count, -, h⟩ := ok_of_bind h
    have hle := readLine_length hline
    split_ifs at h
    · cases h
      exact hle
    · obtain ⟨⟨values, e⟩, hvalues, h⟩ := ok_of_bind h
      cases h
      exact (readArray_length hread _ hvalues).trans hle

theorem readArray_congr (size : Nat)
    (hread : ∀ c v c', readValue c = .ok (v, c') → c'.content.length ≤ c.content.length)
    (hsame : ∀ c : Connection Byte, c.content.length ≤ size → readValue c = readValue' c)
    (count : Nat) {c : Connection Byte} (hc : c.content.length ≤ size) :
    readArray readValue count c = readArray readValue' count c := by
  induction count generalizing c with
  | zero => rfl
  | succ count ih =>
    unfold readArray
    rw [← hsame c hc]
    refine bind_congr_ok fun ⟨v, d⟩ hvalue => ?_
    dsimp only
    rw [ih ((hread c v d hvalue).trans hc)]

/-- Calls for elements begin behind the first byte. -/
theorem readValueBody_congr {c : Connection Byte}
    (hread : ∀ c v c', readValue c = .ok (v, c') → c'.content.length ≤ c.content.length)
    (hsame : ∀ d : Connection Byte, d.content.length < c.content.length →
      readValue d = readValue' d) :
    readValueBody readValue c = readValueBody readValue' c := by
  unfold readValueBody
  refine bind_congr_ok fun ⟨start, d⟩ hstart => ?_
  have hbyte := readExact_length hstart
  dsimp only
  split_ifs <;> try rfl
  refine bind_congr_ok fun ⟨line, d'⟩ hline => bind_congr_ok fun count _ => ?_
  have hle := readLine_length hline
  split_ifs
  · rfl
  · rfl
  · rw [readArray_congr d.content.length hread (fun e he => hsame e (by omega)) _ hle]

end Depth

theorem readValueAt_length (depth : Nat) {c c' : Connection Byte} {v : Value}
    (h : readValueAt depth c = .ok (v, c')) : c'.content.length ≤ c.content.length := by
  induction depth generalizing c c' v with
  | zero => cases h
  | succ depth ih => exact (readValueBody_length (fun _ _ _ => ih) h).le

/-- More depth than bytes changes nothing. -/
theorem readValueAt_depth {depth depth' : Nat} {c : Connection Byte}
    (h : c.content.length < depth) (h' : c.content.length < depth') :
    readValueAt depth c = readValueAt depth' c := by
  induction depth generalizing depth' c with
  | zero => omega
  | succ depth ih =>
    obtain ⟨depth', rfl⟩ := Nat.exists_eq_succ_of_ne_zero (Nat.ne_zero_of_lt h')
    exact readValueBody_congr (fun _ _ _ => readValueAt_length depth) fun d hd =>
      ih (by omega) (by omega)

/-- **Recursion.** `readValue` calls itself for the elements of an array. -/
theorem readValue_eq (c : Connection Byte) : readValue c = readValueBody readValue c := by
  refine readValueBody_congr (fun _ _ _ => readValueAt_length _) fun d hd => ?_
  exact readValueAt_depth hd (Nat.lt_succ_self _)

/-! ## Decimal numbers -/

/-- A text of digits and its value. -/
structure Digits (text : List Byte) (n : Nat) : Prop where
  ne_nil : text ≠ []
  isDigit : ∀ byte ∈ text, isDigit (Char.ofUInt8 byte) = true
  value : Nat.ofDigitChars 10 (text.map Char.ofUInt8) 0 = n

/-- The text of an integer in a reply: a sign may be in front of the digits. -/
inductive IntegerText : List Byte → Int → Prop
  | unsigned {text : List Byte} {n : Nat} : Digits text n → IntegerText text n
  | plus {text : List Byte} {n : Nat} : Digits text n → IntegerText (43 :: text) n
  | minus {text : List Byte} {n : Nat} : Digits text n → IntegerText (45 :: text) (-n)

theorem digit_range {c : Char} (h : isDigit c = true) : 48 ≤ c.toNat ∧ c.toNat ≤ 57 :=
  Char.isDigit_iff_toNat.mp h

theorem isSpace_of_isDigit {c : Char} (h : isDigit c = true) : isSpace c = false := by
  have hrange := digit_range h
  have hblank : c ≠ ' ' := by
    rintro rfl
    exact absurd hrange.1 (by decide)
  simp [isSpace, hblank]
  omega

theorem ofUInt8_toUInt8 {c : Char} (h : isDigit c = true) : Char.ofUInt8 c.toUInt8 = c := by
  have hle := (digit_range h).2
  refine Char.ext (UInt32.toNat_inj.mp ?_)
  show c.val.toUInt8.toUInt32.toNat = c.val.toNat
  rw [UInt8.toNat_toUInt32, UInt32.toNat_toUInt8]
  exact Nat.mod_eq_of_lt (Nat.lt_of_le_of_lt hle (by decide))

theorem digits_toString (n : Nat) : Digits (toString n) n where
  ne_nil := by simp [toString, Nat.toDigits_ne_nil]
  isDigit := by
    intro byte hbyte
    obtain ⟨c, hc, rfl⟩ := List.mem_map.mp hbyte
    have hdigit := Nat.isDigit_of_mem_toDigits (by decide) (by decide) hc
    rw [ofUInt8_toUInt8 hdigit]
    exact hdigit
  value := by
    have hchars : (toString n).map Char.ofUInt8 = Nat.toDigits 10 n := by
      unfold toString
      rw [List.map_map]
      refine (List.map_congr_left fun c hc => ?_).trans (List.map_id _)
      exact ofUInt8_toUInt8 (Nat.isDigit_of_mem_toDigits (by decide) (by decide) hc)
    rw [hchars, Nat.ofDigitChars_ten_toDigits]

theorem signedValue_digits {text : List Byte} {n : Nat} (h : Digits text n) (negative : Bool)
    (hlow : -2 ^ 63 ≤ (if negative then -n else n : Int))
    (hhigh : (if negative then -n else n : Int) < 2 ^ 63) :
    signedValue negative (text.map Char.ofUInt8) = .ok (if negative then -n else n) := by
  have htake : (text.map Char.ofUInt8).takeWhile isDigit = text.map Char.ofUInt8 := by
    rw [List.takeWhile_map]
    exact congrArg (List.map Char.ofUInt8) (List.takeWhile_eq_self_iff.mpr h.isDigit)
  have hempty : (text.map Char.ofUInt8).isEmpty = false := by
    simpa using h.ne_nil
  unfold signedValue
  dsimp only
  rw [htake, h.value, hempty, if_neg (by decide), if_neg (by omega)]

theorem stoll_integerText {text : List Byte} {i : Int} (h : IntegerText text i)
    (hlow : -2 ^ 63 ≤ i) (hhigh : i < 2 ^ 63) : stoll text = .ok i := by
  cases h with
  | plus h => exact signedValue_digits h false hlow hhigh
  | minus h => exact signedValue_digits h true hlow hhigh
  | unsigned h =>
    have hvalue := signedValue_digits h false hlow hhigh
    cases text with
    | nil => exact absurd rfl h.ne_nil
    | cons byte rest =>
      have hdigit := h.isDigit byte List.mem_cons_self
      have hdrop : ((byte :: rest).map Char.ofUInt8).dropWhile isSpace =
          (byte :: rest).map Char.ofUInt8 := by
        rw [List.map_cons, List.dropWhile_cons_of_neg]
        rw [isSpace_of_isDigit hdigit]
        decide
      have hrange := digit_range hdigit
      unfold stoll
      rw [hdrop]
      split
      next heq =>
        rw [(List.cons.inj heq).1] at hrange
        exact absurd hrange.1 (by decide)
      next heq =>
        rw [(List.cons.inj heq).1] at hrange
        exact absurd hrange.1 (by decide)
      · exact hvalue

theorem not_mem_crlf {text : List Byte} (h : 13 ∉ text) : ¬ crlf <:+: text :=
  fun hcrlf => h ((List.IsInfix.subset hcrlf) List.mem_cons_self)

theorem Digits.not_crlf {text : List Byte} {n : Nat} (h : Digits text n) : 13 ∉ text :=
  fun hmem => absurd (h.isDigit 13 hmem) (by decide)

theorem IntegerText.not_crlf {text : List Byte} {i : Int} (h : IntegerText text i) :
    13 ∉ text := by
  cases h with
  | unsigned h => exact h.not_crlf
  | plus h => simpa using h.not_crlf
  | minus h => simpa using h.not_crlf

/-! ## Well-formed replies -/

/-- The bytes of a sequence of replies and their values. -/
inductive Replies : List Byte → List Value → Prop
  | nil : Replies [] []
  | string {line rest : List Byte} {values : List Value} :
      ¬ crlf <:+: line → Replies rest values →
      Replies ([43] ++ (line ++ (crlf ++ rest))) (.string line :: values)
  | error {line rest : List Byte} {values : List Value} :
      ¬ crlf <:+: line → Replies rest values →
      Replies ([45] ++ (line ++ (crlf ++ rest))) (.error line :: values)
  | integer {text rest : List Byte} {i : Int} {values : List Value} :
      IntegerText text i → -2 ^ 63 ≤ i → i < 2 ^ 63 → Replies rest values →
      Replies ([58] ++ (text ++ (crlf ++ rest))) (.integer i :: values)
  | bulk {text data rest : List Byte} {values : List Value} :
      Digits text data.length → data.length < 2 ^ 63 → Replies rest values →
      Replies ([36] ++ (text ++ (crlf ++ (data ++ (crlf ++ rest))))) (.string data :: values)
  | nullBulk {rest : List Byte} {values : List Value} :
      Replies rest values → Replies ([36] ++ ([45, 49] ++ (crlf ++ rest))) (.null :: values)
  | array {text bytes rest : List Byte} {items values : List Value} :
      Digits text items.length → items.length ≤ Value.maxSize → Replies bytes items →
      Replies rest values →
      Replies ([42] ++ (text ++ (crlf ++ (bytes ++ rest)))) (.array items :: values)
  | nullArray {rest : List Byte} {values : List Value} :
      Replies rest values → Replies ([42] ++ ([45, 49] ++ (crlf ++ rest))) (.null :: values)

/-- The bytes of one reply. -/
def WellFormed (reply : List Byte) (value : Value) : Prop := Replies reply [value]

/-- A read gives a value and leaves some bytes. -/
def Reads {σ : Type} (x : Except ReadError (σ × Connection Byte)) (v : σ) (rest : List Byte) :
    Prop :=
  ∃ c, x = .ok (v, c) ∧ c.content = rest

theorem Reads.bind {σ τ : Type} {x : Except ReadError (σ × Connection Byte)} {v : σ}
    {bytes rest : List Byte} {w : τ}
    {f : σ × Connection Byte → Except ReadError (τ × Connection Byte)} (h : Reads x v bytes)
    (hnext : ∀ c, c.content = bytes → Reads (f (v, c)) w rest) : Reads (x >>= f) w rest := by
  obtain ⟨c, rfl, hc⟩ := h
  exact hnext c hc

theorem reads_ok {σ : Type} (v : σ) {c : Connection Byte} {rest : List Byte}
    (h : c.content = rest) : Reads (.ok (v, c)) v rest :=
  ⟨c, rfl, h⟩

theorem reads_of_view {σ : Type} {x : Except ReadError (σ × Connection Byte)} {v : σ}
    {rest : List Byte} (h : x.map view = .ok (v, rest)) : Reads x v rest := by
  cases x with
  | error e => cases h
  | ok r =>
    obtain ⟨hvalue, hrest⟩ := Prod.mk.inj (Except.ok.inj h)
    exact ⟨r.2, congrArg Except.ok (Prod.ext hvalue rfl), hrest⟩

theorem readExact_reads {c : Connection Byte} {data rest : List Byte}
    (h : c.content = data ++ rest) : Reads (readExact data.length c) data rest := by
  refine reads_of_view ?_
  rw [readExact_view, h, cut_append]

/-- A line ends at the first line end behind it, even when it ends in a carriage return. -/
theorem readLine_reads {c : Connection Byte} {line rest : List Byte} (hline : ¬ crlf <:+: line)
    (h : c.content = line ++ (crlf ++ rest)) : Reads (readLine c) line rest := by
  refine reads_of_view ?_
  rw [readLine_view, h, splitAt_append]
  intro j hj hprefix
  rw [List.drop_append_of_le_length hj.le] at hprefix
  have hdrop : line.drop j <:+: line := (List.drop_suffix j line).isInfix
  match hend : line.drop j with
  | [] =>
    rw [List.drop_eq_nil_iff] at hend
    omega
  | [byte] =>
    rw [hend] at hprefix
    simp at hprefix
  | byte :: byte' :: behind =>
    rw [hend] at hprefix
    refine hline (List.IsInfix.trans ?_ hdrop)
    rw [hend]
    refine List.IsPrefix.isInfix (List.prefix_of_prefix_length_le hprefix ?_ ?_)
    · exact List.prefix_append _ _
    · simp

theorem readArray_reads {n : Nat} {c : Connection Byte} {v : Value} {values : List Value}
    {bytes rest : List Byte} (h : Reads (readValueBody readValue c) v bytes)
    (hnext : ∀ c, c.content = bytes → Reads (readArray readValue n c) values rest) :
    Reads (readArray readValue (n + 1) c) (v :: values) rest := by
  unfold readArray
  rw [readValue_eq]
  exact h.bind fun c hc => (hnext c hc).bind fun d hd => reads_ok _ hd

theorem stoll_digits {text : List Byte} {n : Nat} (h : Digits text n) (hn : n < 2 ^ 63) :
    stoll text = .ok n :=
  stoll_integerText (.unsigned h) (by omega) (by omega)

/-- **Replies** are read one after another, and what follows them stays. -/
theorem readArray_replies {bytes : List Byte} {values : List Value} (h : Replies bytes values)
    {c : Connection Byte} {rest : List Byte} (hc : c.content = bytes ++ rest) :
    Reads (readArray readValue values.length c) values rest := by
  induction h generalizing c rest with
  | nil => exact reads_ok _ hc
  | string hline _ ih =>
    simp only [List.append_assoc] at hc
    refine readArray_reads ((readExact_reads hc).bind fun d hd => ?_) fun d hd => ih hd
    exact (readLine_reads hline hd).bind fun e he => reads_ok _ he
  | error hline _ ih =>
    simp only [List.append_assoc] at hc
    refine readArray_reads ((readExact_reads hc).bind fun d hd => ?_) fun d hd => ih hd
    exact (readLine_reads hline hd).bind fun e he => reads_ok _ he
  | integer htext hlow hhigh _ ih =>
    simp only [List.append_assoc] at hc
    refine readArray_reads ((readExact_reads hc).bind fun d hd => ?_) fun d hd => ih hd
    refine (readLine_reads (not_mem_crlf htext.not_crlf) hd).bind fun e he => ?_
    simp only [stoll_integerText htext hlow hhigh]
    exact reads_ok _ he
  | bulk htext hlength _ ih =>
    simp only [List.append_assoc] at hc
    refine readArray_reads ((readExact_reads hc).bind fun d hd => ?_) fun d hd => ih hd
    refine (readLine_reads (not_mem_crlf htext.not_crlf) hd).bind fun d hd => ?_
    simp only [stoll_digits htext hlength]
    refine (readExact_reads hd).bind fun d hd => ?_
    exact (@readExact_reads _ crlf _ hd).bind fun d hd => reads_ok _ hd
  | nullBulk _ ih =>
    simp only [List.append_assoc] at hc
    refine readArray_reads ((readExact_reads hc).bind fun d hd => ?_) fun d hd => ih hd
    refine (readLine_reads (not_mem_crlf (by decide)) hd).bind fun d hd => ?_
    exact reads_ok _ hd
  | array htext hlength _ _ ihitems ih =>
    simp only [List.append_assoc] at hc
    refine readArray_reads ((readExact_reads hc).bind fun d hd => ?_) fun d hd => ih hd
    refine (readLine_reads (not_mem_crlf htext.not_crlf) hd).bind fun d hd => ?_
    simp only [stoll_digits htext (hlength.trans_lt Value.maxSize_lt)]
    show Reads (if Value.maxSize < List.length _ then _ else _) _ _
    rw [if_neg (Nat.not_lt.mpr hlength)]
    exact (ihitems hd).bind fun d hd => reads_ok _ hd
  | nullArray _ ih =>
    simp only [List.append_assoc] at hc
    refine readArray_reads ((readExact_reads hc).bind fun d hd => ?_) fun d hd => ih hd
    refine (readLine_reads (not_mem_crlf (by decide)) hd).bind fun d hd => ?_
    exact reads_ok _ hd

theorem readValue_reads {reply rest : List Byte} {v : Value} (h : WellFormed reply v)
    {c : Connection Byte} (hc : c.content = reply ++ rest) : Reads (readValue c) v rest := by
  obtain ⟨d, hread, hrest⟩ := readArray_replies h hc
  obtain ⟨⟨v', d'⟩, hvalue, hread⟩ := ok_of_bind hread
  cases hread
  exact ⟨d, hvalue, hrest⟩

/-! ## Commands -/

theorem replies_arguments (arguments : List StdString) :
    Replies (arguments.flatMap fun argument =>
        [36] ++ toString argument.val.length ++ crlf ++ argument.val ++ crlf)
      (arguments.map fun argument => .string argument.val) := by
  induction arguments with
  | nil => exact .nil
  | cons argument arguments ih =>
    rw [List.flatMap_cons, List.map_cons]
    have hbulk := Replies.bulk (digits_toString argument.val.length) argument.property ih
    simpa only [List.append_assoc] using hbulk

/-- A command is itself a reply: an array of strings. -/
theorem wellFormed_encodeCommand (arguments : Arguments) :
    WellFormed (encodeCommand arguments)
      (.array (arguments.val.map fun argument => .string argument.val)) := by
  have hlength : (arguments.val.map fun argument => Value.string argument.val).length =
      arguments.val.length := by
    rw [List.length_map]
  have htext := digits_toString arguments.val.length
  rw [← hlength] at htext
  have harray := Replies.array htext (hlength.trans_le arguments.property)
    (replies_arguments arguments.val) .nil
  rw [hlength, List.append_nil] at harray
  unfold WellFormed encodeCommand
  simpa only [List.append_assoc] using harray

/-- **RESP codec.** A command that is read back is the array of its arguments, a well-formed reply
is read as its value, and both leave the bytes behind them to the next call, however the bytes are
split between the buffer and the pieces. Any bytes give the same with any other split. -/
theorem redis_codec :
    (∀ (arguments : Arguments) (c : Connection Byte) (rest : List Byte),
      c.content = encodeCommand arguments ++ rest →
      Reads (readValue c) (.array (arguments.val.map fun argument => .string argument.val)) rest) ∧
    (∀ (reply : List Byte) (v : Value) (c : Connection Byte) (rest : List Byte),
      WellFormed reply v → c.content = reply ++ rest → Reads (readValue c) v rest) ∧
    (∀ c d : Connection Byte, c.content = d.content → Agree (readValue c) (readValue d)) := by
  refine ⟨fun arguments c rest hc => ?_, fun reply v c rest h hc => ?_, fun c d h => ?_⟩
  · exact readValue_reads (wellFormed_encodeCommand arguments) hc
  · exact readValue_reads h hc
  · exact readValue_agree h

/-- `PING` and an empty argument. -/
def pingArguments : Arguments :=
  ⟨[⟨[80, 73, 78, 71], by decide⟩, ⟨[], by decide⟩], by decide⟩

/-- The command cut inside of two line ends, with the start of the next reply. -/
def pingPieces : List (Piece Byte) :=
  [⟨[42, 50, 13], by decide⟩, ⟨[10, 36, 52, 13, 10, 80, 73, 78, 71, 13], by decide⟩,
    ⟨[10, 36, 48, 13, 10, 13, 10, 43, 79], by decide⟩, ⟨[75, 13, 10], by decide⟩]

/-- The command is read back, and then the reply. -/
theorem redis_codec_ping : ∃ c,
    readValue ⟨[], pingPieces⟩ = .ok (.array [.string [80, 73, 78, 71], .string []], c) ∧
      Reads (readValue c) (.string [79, 75]) [] := by
  obtain ⟨hcommands, hreplies, -⟩ := redis_codec
  obtain ⟨c, hread, hrest⟩ :=
    hcommands pingArguments ⟨[], pingPieces⟩ [43, 79, 75, 13, 10] (by decide)
  have hreply : WellFormed [43, 79, 75, 13, 10] (.string [79, 75]) :=
    @Replies.string [79, 75] [] [] (by decide) .nil
  exact ⟨c, hread, hreplies _ _ c [] hreply hrest⟩

end DocParser.Platform.RedisClient
