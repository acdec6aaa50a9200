import Mathlib.Data.List.TakeWhile
import Mathlib.Tactic.IntervalCases
import DocParser.Lib.PosixShell

/-!
# The Tesseract command line

`TesseractCliOcrBackend` runs `tesseract` through the shell, with the executable, the image path
and the language quoted. Texts are byte strings; a command reaches the shell as a C string.
-/

namespace DocParser.Ocr

open PosixShell

/-- `shellQuote`. -/
def shellQuote (value : List Byte) : List Byte :=
  bytes "'" ++ value.flatMap (fun c => if c = '\''.toUInt8 then bytes "'\\''" else [c]) ++ bytes "'"

/-- What the callee of a `c_str` reads. -/
def cString (text : List Byte) : List Byte := text.takeWhile (· ≠ 0)

/-- `std::to_string`. -/
def decimal (n : Int) : List Byte := bytes (toString n)

structure TesseractCliOcrBackend where
  executable : List Byte
  language : List Byte
  deriving DecidableEq, Repr

structure OcrRequest where
  dpi : Int
  outputPath : List Byte
  /-- `std::filesystem::exists(output_path)` -/
  pageExists : Bool
  deriving DecidableEq, Repr

namespace TesseractCliOcrBackend

/-- The commands of `isAvailable`. -/
def lookupCommand (backend : TesseractCliOcrBackend) : List Byte :=
  bytes "command -v " ++ shellQuote backend.executable ++ bytes " >/dev/null 2>&1"

def languagesCommand (backend : TesseractCliOcrBackend) : List Byte :=
  shellQuote backend.executable ++ bytes " --list-langs 2>/dev/null"

/-- The command of `recognize`. -/
def command (backend : TesseractCliOcrBackend) (path : List Byte) (dpi : Int) : List Byte :=
  shellQuote backend.executable ++ bytes " " ++ shellQuote path ++ bytes " stdout -l " ++
    shellQuote backend.language ++ bytes " --dpi " ++ decimal dpi ++
    bytes " --psm 6 tsv 2>/dev/null"

/-- `recognize` up to `runCommand`: the command, unless the request is refused. -/
def recognizeCommand (backend : TesseractCliOcrBackend) (request : OcrRequest) :
    Option (List Byte) :=
  if request.dpi ≤ 0 ∨ request.outputPath = [] ∨ request.pageExists = false then none
  else some (backend.command request.outputPath request.dpi)

end TesseractCliOcrBackend

/-! ## One quoted text -/

theorem bytes_quote : bytes "'" = ['\''.toUInt8] := rfl

theorem run_single_quoted (w : Word) (value : List Byte) :
    run (.single w) (value.flatMap (fun c => if c = '\''.toUInt8 then bytes "'\\''" else [c]) ++
      bytes "'") = some [.word (w ++ quotedWord value)] := by
  induction value generalizing w with
  | nil =>
    rw [List.flatMap_nil, List.nil_append, bytes_quote, run_single_close]
    simp [quotedWord]
  | cons c value ih =>
    rw [List.flatMap_cons, List.append_assoc]
    by_cases hc : c = '\''.toUInt8
    · rw [if_pos hc, run_single_reopen, ih, hc]
      simp [quotedWord]
    · rw [if_neg hc, List.singleton_append, run_single_ne hc, ih]
      simp [quotedWord]

theorem tokens_shellQuote (value : List Byte) :
    tokens (shellQuote value) = some [.word (quotedWord value)] := by
  unfold shellQuote
  rw [List.append_assoc]
  nth_rewrite 1 [bytes_quote]
  rw [List.singleton_append, tokens, run_quote, run_single_quoted, List.nil_append]

/-! ## The commands -/

theorem isBlank_space : isBlank ' '.toUInt8 = true := rfl

/-- A first word before a blank. -/
theorem tokens_word_space {left : List Byte} {w : Word} (h : tokens left = some [.word w])
    (rest : List Byte) :
    tokens (left ++ ' '.toUInt8 :: rest) = (tokens rest).map (.word w :: ·) :=
  tokens_blank isBlank_space h rest

theorem tokens_plain_space {left : List Byte} (hne : left ≠ [])
    (hleft : ∀ b ∈ left, isOrdinary b = true) (rest : List Byte) :
    tokens (left ++ ' '.toUInt8 :: rest) = (tokens rest).map (.word (plainWord left) :: ·) :=
  tokens_word_space (tokens_ordinary hne hleft) rest

theorem isOrdinary_digit {c : Char} (hc : c.isDigit = true) :
    isOrdinary c.toUInt8 = true ∧ c.toUInt8 ≠ 0 := by
  obtain ⟨hlo, hhi⟩ := Char.isDigit_iff_toNat.mp hc
  rw [← Char.ofNat_toNat c]
  generalize c.toNat = k at hlo hhi ⊢
  change 48 ≤ k at hlo
  change k ≤ 57 at hhi
  interval_cases k <;> decide

/-- The digits of a positive number. -/
theorem decimal_ordinary {n : Int} (hn : 0 < n) :
    decimal n ≠ [] ∧ ∀ b ∈ decimal n, isOrdinary b = true ∧ b ≠ 0 := by
  obtain ⟨k, rfl⟩ := Int.eq_ofNat_of_zero_le (Int.le_of_lt hn)
  have hdigits : decimal (k : Int) = (Nat.toDigits 10 k).map Char.toUInt8 := by
    show ((Nat.repr k).toList).map Char.toUInt8 = _
    rw [Nat.toList_repr]
  rw [hdigits]
  refine ⟨by simp [Nat.toDigits_ne_nil], fun b hb => ?_⟩
  obtain ⟨c, hc, rfl⟩ := List.mem_map.mp hb
  exact isOrdinary_digit (Nat.isDigit_of_mem_toDigits (by decide) (by decide) hc)

theorem tokens_command (backend : TesseractCliOcrBackend) (path : List Byte) {dpi : Int}
    (hdpi : 0 < dpi) :
    tokens (backend.command path dpi) = some ([.word (quotedWord backend.executable),
      .word (quotedWord path), .word (plainWord (bytes "stdout")), .word (plainWord (bytes "-l")),
      .word (quotedWord backend.language), .word (plainWord (bytes "--dpi")),
      .word (plainWord (decimal dpi)), .word (plainWord (bytes "--psm")),
      .word (plainWord (bytes "6")), .word (plainWord (bytes "tsv")), .ioNumber (bytes "2"),
      .operator (bytes ">"), .word (plainWord (bytes "/dev/null"))]) := by
  have hspaces : backend.command path dpi = shellQuote backend.executable ++ ' '.toUInt8 ::
      (shellQuote path ++ ' '.toUInt8 :: (bytes "stdout" ++ ' '.toUInt8 ::
        (bytes "-l" ++ ' '.toUInt8 :: (shellQuote backend.language ++ ' '.toUInt8 ::
          (bytes "--dpi" ++ ' '.toUInt8 :: (decimal dpi ++ ' '.toUInt8 ::
            bytes "--psm 6 tsv 2>/dev/null")))))) := by
    simp only [TesseractCliOcrBackend.command, List.append_assoc]
    rfl
  obtain ⟨hne, hdigits⟩ := decimal_ordinary hdpi
  have hlast : tokens (bytes "--psm 6 tsv 2>/dev/null") = some [.word (plainWord (bytes "--psm")),
      .word (plainWord (bytes "6")), .word (plainWord (bytes "tsv")), .ioNumber (bytes "2"),
      .operator (bytes ">"), .word (plainWord (bytes "/dev/null"))] := by decide +kernel
  rw [hspaces, tokens_word_space (tokens_shellQuote _), tokens_word_space (tokens_shellQuote _),
    tokens_plain_space (by decide +kernel) (by decide +kernel),
    tokens_plain_space (by decide +kernel) (by decide +kernel),
    tokens_word_space (tokens_shellQuote _),
    tokens_plain_space (by decide +kernel) (by decide +kernel),
    tokens_plain_space hne fun b hb => (hdigits b hb).1, hlast]
  rfl

/-! ## Texts without NUL -/

theorem cString_eq {text : List Byte} (h : 0 ∉ text) : cString text = text :=
  List.takeWhile_eq_self_iff.mpr fun b hb => by
    simp only [ne_eq, decide_not, Bool.not_eq_true', decide_eq_false_iff_not]
    rintro rfl
    exact h hb

theorem zero_notMem_shellQuote {value : List Byte} (h : 0 ∉ value) : 0 ∉ shellQuote value := by
  have hmid : 0 ∉ value.flatMap fun c => if c = '\''.toUInt8 then bytes "'\\''" else [c] := by
    intro hmem
    obtain ⟨c, hc, hin⟩ := List.mem_flatMap.mp hmem
    split_ifs at hin
    · revert hin
      decide
    · exact h (List.mem_singleton.mp hin ▸ hc)
  simp only [shellQuote, List.mem_append, not_or]
  exact ⟨⟨by decide, hmid⟩, by decide⟩

theorem zero_notMem_command {backend : TesseractCliOcrBackend} {path : List Byte} {dpi : Int}
    (hexe : 0 ∉ backend.executable) (hpath : 0 ∉ path) (hlang : 0 ∉ backend.language)
    (hdpi : 0 < dpi) : 0 ∉ backend.command path dpi := by
  have hdigits : 0 ∉ decimal dpi := fun h => ((decimal_ordinary hdpi).2 0 h).2 rfl
  simp only [TesseractCliOcrBackend.command, List.mem_append, not_or]
  exact ⟨⟨⟨⟨⟨⟨⟨zero_notMem_shellQuote hexe, by decide⟩, zero_notMem_shellQuote hpath⟩, by decide⟩,
    zero_notMem_shellQuote hlang⟩, by decide⟩, hdigits⟩, by decide⟩

/-- The command of `recognize` is one simple command. -/
theorem simpleCommand_command {backend : TesseractCliOcrBackend} {path : List Byte} {dpi : Int}
    (hexe : 0 ∉ backend.executable) (hpath : 0 ∉ path) (hlang : 0 ∉ backend.language)
    (hdpi : 0 < dpi) : simpleCommand (cString (backend.command path dpi)) = some
      ⟨[backend.executable, path, bytes "stdout", bytes "-l", backend.language, bytes "--dpi",
          decimal dpi, bytes "--psm", bytes "6", bytes "tsv"],
        [⟨some (bytes "2"), bytes ">", bytes "/dev/null"⟩]⟩ := by
  rw [cString_eq (zero_notMem_command hexe hpath hlang hdpi)]
  rw [simpleCommand_eq (tokens_command backend path hdpi) (by rfl) (namesCommand_quotedWord _)]
  simp only [List.map_cons, unquote_quotedWord, unquote_plainWord, List.map_nil]

/-- **The command line cannot be injected.** A quoted text without NUL, with blanks around it,
is one word, equal to the text, also between other words; and the command of `recognize` is one
simple command with the arguments that are meant and the one redirection. -/
theorem command_line_not_injected :
    (∀ value : List Byte, 0 ∉ value → ∃ w : Word, w.unquote = value ∧
      (∀ before after : List Byte, (∀ b ∈ before ++ after, isBlank b = true) →
        tokens (cString (before ++ shellQuote value ++ after)) = some [.word w]) ∧
      ∀ left right ts us b c, tokens left = some ts → tokens right = some us →
        isBlank b = true → isBlank c = true →
        tokens (left ++ b :: (shellQuote value ++ c :: right)) = some (ts ++ .word w :: us)) ∧
    ∀ (backend : TesseractCliOcrBackend) (path : List Byte) (dpi : Int),
      0 ∉ backend.executable → 0 ∉ path → 0 ∉ backend.language → 0 < dpi →
      simpleCommand (cString (backend.command path dpi)) = some
        ⟨[backend.executable, path, bytes "stdout", bytes "-l", backend.language, bytes "--dpi",
            decimal dpi, bytes "--psm", bytes "6", bytes "tsv"],
          [⟨some (bytes "2"), bytes ">", bytes "/dev/null"⟩]⟩ := by
  constructor
  · intro value hnul
    refine ⟨quotedWord value, unquote_quotedWord value, fun before after hblank => ?_, ?_⟩
    · have hbefore : ∀ b ∈ before, isBlank b = true := fun b hb => hblank b (by simp [hb])
      have hafter : ∀ b ∈ after, isBlank b = true := fun b hb => hblank b (by simp [hb])
      have hzero : 0 ∉ before ++ shellQuote value ++ after := by
        simp only [List.mem_append, not_or]
        refine ⟨⟨fun h => ?_, zero_notMem_shellQuote hnul⟩, fun h => ?_⟩
        · exact absurd (hbefore 0 h) (by decide)
        · exact absurd (hafter 0 h) (by decide)
      rw [cString_eq hzero]
      refine tokens_append_blanks hafter ?_
      rw [tokens_blanks_append hbefore, tokens_shellQuote]
    · intro left right ts us b c hleft hright hb hc
      rw [tokens_blank hb hleft, tokens_blank hc (tokens_shellQuote value), hright]
      rfl
  · exact fun backend path dpi hexe hpath hlang hdpi =>
      simpleCommand_command hexe hpath hlang hdpi

/-- A path that would end the quotes and run another command. -/
theorem command_line_not_injected_path :
    0 < (300 : Int) ∧ simpleCommand (cString (TesseractCliOcrBackend.command
        ⟨bytes "tesseract", bytes "eng"⟩ (bytes "a b'; rm -rf $HOME #") 300)) = some
      ⟨[bytes "tesseract", bytes "a b'; rm -rf $HOME #", bytes "stdout", bytes "-l", bytes "eng",
          bytes "--dpi", decimal 300, bytes "--psm", bytes "6", bytes "tsv"],
        [⟨some (bytes "2"), bytes ">", bytes "/dev/null"⟩]⟩ :=
  ⟨by decide, command_line_not_injected.2 ⟨bytes "tesseract", bytes "eng"⟩
    (bytes "a b'; rm -rf $HOME #") 300 (by decide) (by decide) (by decide) (by decide)⟩

/-- Every request that `recognize` does not refuse has a positive dpi. -/
theorem recognizeCommand_eq_some {backend : TesseractCliOcrBackend} {request : OcrRequest}
    {text : List Byte} (h : backend.recognizeCommand request = some text) :
    0 < request.dpi ∧ text = backend.command request.outputPath request.dpi := by
  unfold TesseractCliOcrBackend.recognizeCommand at h
  split_ifs at h with hrefused
  push Not at hrefused
  exact ⟨hrefused.1, (Option.some.inj h).symm⟩

/-- What `recognize` runs, if it does not refuse the request. -/
theorem recognize_not_injected {backend : TesseractCliOcrBackend} {request : OcrRequest}
    {text : List Byte} (hexe : 0 ∉ backend.executable) (hpath : 0 ∉ request.outputPath)
    (hlang : 0 ∉ backend.language) (h : backend.recognizeCommand request = some text) :
    simpleCommand (cString text) = some
      ⟨[backend.executable, request.outputPath, bytes "stdout", bytes "-l", backend.language,
          bytes "--dpi", decimal request.dpi, bytes "--psm", bytes "6", bytes "tsv"],
        [⟨some (bytes "2"), bytes ">", bytes "/dev/null"⟩]⟩ := by
  obtain ⟨hdpi, rfl⟩ := recognizeCommand_eq_some h
  exact simpleCommand_command hexe hpath hlang hdpi

/-- The commands of `isAvailable`. -/
theorem isAvailable_not_injected {backend : TesseractCliOcrBackend}
    (hexe : 0 ∉ backend.executable) :
    simpleCommand (cString backend.lookupCommand) = some
        ⟨[bytes "command", bytes "-v", backend.executable],
          [⟨none, bytes ">", bytes "/dev/null"⟩, ⟨some (bytes "2"), bytes ">&", bytes "1"⟩]⟩ ∧
      simpleCommand (cString backend.languagesCommand) = some
        ⟨[backend.executable, bytes "--list-langs"],
          [⟨some (bytes "2"), bytes ">", bytes "/dev/null"⟩]⟩ := by
  have hquote := zero_notMem_shellQuote hexe
  constructor
  · have hzero : 0 ∉ backend.lookupCommand := by
      simp only [TesseractCliOcrBackend.lookupCommand, List.mem_append, not_or]
      exact ⟨⟨by decide, hquote⟩, by decide⟩
    have htext : backend.lookupCommand = bytes "command" ++ ' '.toUInt8 ::
        (bytes "-v" ++ ' '.toUInt8 :: (shellQuote backend.executable ++ ' '.toUInt8 ::
          bytes ">/dev/null 2>&1")) := by
      simp only [TesseractCliOcrBackend.lookupCommand, List.append_assoc]
      rfl
    have hlast : tokens (bytes ">/dev/null 2>&1") = some [.operator (bytes ">"),
        .word (plainWord (bytes "/dev/null")), .ioNumber (bytes "2"), .operator (bytes ">&"),
        .word (plainWord (bytes "1"))] := by decide +kernel
    have htokens : tokens backend.lookupCommand = some ([.word (plainWord (bytes "command")),
        .word (plainWord (bytes "-v")), .word (quotedWord backend.executable),
        .operator (bytes ">"), .word (plainWord (bytes "/dev/null")), .ioNumber (bytes "2"),
        .operator (bytes ">&"), .word (plainWord (bytes "1"))]) := by
      rw [htext, tokens_plain_space (by decide +kernel) (by decide +kernel),
        tokens_plain_space (by decide +kernel) (by decide +kernel),
        tokens_word_space (tokens_shellQuote _), hlast]
      rfl
    rw [cString_eq hzero, simpleCommand_eq htokens (by rfl) (by decide)]
    simp only [List.map_cons, unquote_quotedWord, unquote_plainWord, List.map_nil]
  · have hzero : 0 ∉ backend.languagesCommand := by
      simp only [TesseractCliOcrBackend.languagesCommand, List.mem_append, not_or]
      exact ⟨hquote, by decide⟩
    have htext : backend.languagesCommand = shellQuote backend.executable ++ ' '.toUInt8 ::
        bytes "--list-langs 2>/dev/null" := rfl
    have hlast : tokens (bytes "--list-langs 2>/dev/null") = some
        [.word (plainWord (bytes "--list-langs")), .ioNumber (bytes "2"), .operator (bytes ">"),
          .word (plainWord (bytes "/dev/null"))] := by decide +kernel
    have htokens := tokens_word_space (tokens_shellQuote backend.executable)
      (bytes "--list-langs 2>/dev/null")
    rw [hlast, Option.map_some, ← htext] at htokens
    rw [cString_eq hzero, simpleCommand_eq htokens (by rfl) (namesCommand_quotedWord _)]
    simp only [List.map_cons, unquote_quotedWord, unquote_plainWord, List.map_nil]

end DocParser.Ocr
