import Mathlib.Data.List.Basic
import Mathlib.Tactic.SplitIfs

/-!
# Words of the POSIX shell

Token recognition, quoting and quote removal of the shell command language, and simple commands
over the tokens. The recogniser is a transducer that reads a byte at a time; it remembers of every
byte of a word whether it was quoted.

A text is refused (`none`) when it ends inside a quotation or contains, unquoted, a byte that
begins an expansion or a comment: so no expansion happens, and no field is split, in a text that
is accepted. `tokens_blank` composes texts at an unquoted blank.
-/

namespace PosixShell

abbrev Byte := UInt8

/-- The bytes of an ASCII text. -/
def bytes (s : String) : List Byte := s.toList.map Char.toUInt8

/-- The bytes of a word in order, with those that were quoted marked. -/
abbrev Word := List (Byte × Bool)

/-- Quote removal. -/
def Word.unquote (w : Word) : List Byte := w.map Prod.fst

/-- The word of bytes that were all quoted. -/
def quotedWord (bs : List Byte) : Word := bs.map (·, true)

/-- The word of bytes none of which was quoted. -/
def plainWord (bs : List Byte) : Word := bs.map (·, false)

@[simp] theorem unquote_quotedWord (bs : List Byte) : (quotedWord bs).unquote = bs := by
  simp [Word.unquote, quotedWord, Function.comp_def]

@[simp] theorem unquote_plainWord (bs : List Byte) : (plainWord bs).unquote = bs := by
  simp [Word.unquote, plainWord, Function.comp_def]

inductive Token
  | word (w : Word)
  | ioNumber (digits : List Byte)
  | operator (op : List Byte)
  deriving DecidableEq, Repr

def isBlank (b : Byte) : Bool := b = ' '.toUInt8 || b = '\t'.toUInt8

def isDigit (b : Byte) : Bool := '0'.toUInt8 ≤ b && b ≤ '9'.toUInt8

/-- The operators of the grammar, with the newline. -/
def operators : List (List Byte) :=
  ["\n", "&", "&&", "(", ")", ";", ";;", "|", "||", "<", ">", "<<", ">>", "<&", ">&", "<>", "<<-",
    ">|"].map bytes

/-- Bytes that begin an expansion when they are not quoted. -/
def expands (b : Byte) : Bool := (bytes "$`*?[~").contains b

/-- Where the recogniser is: between tokens, in a word outside or inside quotes, after a backslash,
or in an operator. -/
inductive State
  | start
  | word (w : Word)
  | single (w : Word)
  | double (w : Word)
  | escape (w : Option Word)
  | doubleEscape (w : Word)
  | operator (op : List Byte)
  deriving DecidableEq, Repr

/-- The token of a word that ends before `next`: digits before `<` or `>` name a file
descriptor. -/
def wordToken (w : Word) (next : Option Byte) : Token :=
  if w ≠ [] ∧ w.all (fun x => isDigit x.1 && !x.2) ∧
      (next = some '<'.toUInt8 ∨ next = some '>'.toUInt8) then .ioNumber w.unquote
  else .word w

/-- The tokens that are complete before `next`. -/
def delimit (w : Option Word) (next : Option Byte) : List Token :=
  match w with
  | some w => [wordToken w next]
  | none => []

/-- An unquoted byte, in a word or between tokens. -/
def plainStep (w : Option Word) (b : Byte) : Option (List Token × State) :=
  if b = '\''.toUInt8 then some ([], .single (w.getD []))
  else if b = '"'.toUInt8 then some ([], .double (w.getD []))
  else if b = '\\'.toUInt8 then some ([], .escape w)
  else if operators.contains [b] then some (delimit w (some b), .operator [b])
  else if isBlank b then some (delimit w none, .start)
  else if expands b || (b = '#'.toUInt8 && w.isNone) then none
  else some ([], .word (w.getD [] ++ [(b, false)]))

/-- One byte: the tokens that it completes, and where it leads. -/
def step : State → Byte → Option (List Token × State)
  | .start, b => plainStep none b
  | .word w, b => plainStep (some w) b
  | .single w, b => some ([], if b = '\''.toUInt8 then .word w else .single (w ++ [(b, true)]))
  | .double w, b =>
    if b = '"'.toUInt8 then some ([], .word w)
    else if b = '\\'.toUInt8 then some ([], .doubleEscape w)
    else if b = '$'.toUInt8 || b = '`'.toUInt8 then none
    else some ([], .double (w ++ [(b, true)]))
  | .escape w, b =>
    -- a backslash before a newline continues the line
    if b = '\n'.toUInt8 then some ([], match w with | some w => .word w | none => .start)
    else some ([], .word (w.getD [] ++ [(b, true)]))
  | .doubleEscape w, b =>
    if b = '\n'.toUInt8 then some ([], .double w)
    else if (bytes "$`\"\\").contains b then some ([], .double (w ++ [(b, true)]))
    else some ([], .double (w ++ [('\\'.toUInt8, true), (b, true)]))
  | .operator op, b =>
    if operators.contains (op ++ [b]) then some ([], .operator (op ++ [b]))
    else (plainStep none b).map fun (ts, s) => (.operator op :: ts, s)

/-- The tokens of the rest of a text. -/
def run : State → List Byte → Option (List Token)
  | .start, [] => some []
  | .word w, [] => some [wordToken w none]
  | .operator op, [] => some [.operator op]
  | .single _, [] | .double _, [] | .escape _, [] | .doubleEscape _, [] => none
  | s, b :: bs => (step s b).bind fun (ts, s') => (run s' bs).map (ts ++ ·)

/-- Token recognition. -/
def tokens (text : List Byte) : Option (List Token) := run .start text

/-! ## Composition -/

theorem run_cons (s : State) (b : Byte) (bs : List Byte) :
    run s (b :: bs) = (step s b).bind fun (ts, s') => (run s' bs).map (ts ++ ·) := by
  cases s <;> rfl

/-- A step that completes no token. -/
theorem run_silent {s r : State} {b : Byte} (h : step s b = some ([], r)) (bs : List Byte) :
    run s (b :: bs) = run r bs := by
  rw [run_cons, h]
  simp

theorem plainStep_blank {b : Byte} (hb : isBlank b = true) (w : Option Word) :
    plainStep w b = some (delimit w none, .start) := by
  have h : b = ' '.toUInt8 ∨ b = '\t'.toUInt8 := by simpa [isBlank] using hb
  rcases h with rfl | rfl <;> rfl

theorem isBlank_of_mem_operator {op : List Byte} {b : Byte} (hop : op ∈ operators) (hb : b ∈ op) :
    isBlank b = false := by
  have h : ∀ op ∈ operators, ∀ b ∈ op, isBlank b = false := by decide +kernel
  exact h op hop b hb

theorem run_blank {b : Byte} (hb : isBlank b = true) {s : State} {ts : List Token}
    (hs : run s [] = some ts) (rest : List Byte) :
    run s (b :: rest) = (tokens rest).map (ts ++ ·) := by
  rw [run_cons, tokens]
  cases s with
  | start =>
    obtain rfl := Option.some.inj hs
    simp [step, plainStep_blank hb, delimit]
  | word w =>
    obtain rfl := Option.some.inj hs
    simp [step, plainStep_blank hb, delimit]
  | operator op =>
    obtain rfl := Option.some.inj hs
    have hop : op ++ [b] ∉ operators := fun h => by
      simp [isBlank_of_mem_operator h (b := b) (by simp)] at hb
    simp [step, plainStep_blank hb, delimit, hop]
  | single | double | escape | doubleEscape => simp [run] at hs

/-- Texts that meet at an unquoted blank have their own tokens. -/
theorem run_append_blank {b : Byte} (hb : isBlank b = true) (rest : List Byte) {s : State}
    {left : List Byte} {ts : List Token} (hl : run s left = some ts) :
    run s (left ++ b :: rest) = (tokens rest).map (ts ++ ·) := by
  induction left generalizing s ts with
  | nil => exact run_blank hb hl rest
  | cons c left ih =>
    rw [run_cons] at hl
    obtain ⟨⟨ts₁, s'⟩, hstep, hrest⟩ := Option.bind_eq_some_iff.mp hl
    obtain ⟨ts₂, hrun, rfl⟩ := Option.map_eq_some_iff.mp hrest
    rw [List.cons_append, run_cons, hstep, Option.bind_some]
    dsimp only
    rw [ih hrun, Option.map_map]
    congr 1
    funext x
    simp

theorem tokens_blank {b : Byte} (hb : isBlank b = true) {left : List Byte} {ts : List Token}
    (hl : tokens left = some ts) (rest : List Byte) :
    tokens (left ++ b :: rest) = (tokens rest).map (ts ++ ·) :=
  run_append_blank hb rest hl

/-- Blanks at the start of a text. -/
theorem tokens_blanks_append {bs : List Byte} (hbs : ∀ b ∈ bs, isBlank b = true)
    (rest : List Byte) : tokens (bs ++ rest) = tokens rest := by
  induction bs with
  | nil => rfl
  | cons b bs ih =>
    have hb := run_blank (hbs b (by simp)) (s := .start) rfl (bs ++ rest)
    rw [List.cons_append, tokens, hb, ih fun c hc => hbs c (by simp [hc])]
    simp

/-- Blanks at the end of a text. -/
theorem tokens_append_blanks {bs : List Byte} (hbs : ∀ b ∈ bs, isBlank b = true)
    {left : List Byte} {ts : List Token} (hl : tokens left = some ts) :
    tokens (left ++ bs) = some ts := by
  cases bs with
  | nil => rwa [List.append_nil]
  | cons b bs =>
    have hbs' : ∀ c ∈ bs, isBlank c = true := fun c hc => hbs c (List.mem_cons_of_mem b hc)
    have hrest := tokens_blanks_append hbs' []
    rw [List.append_nil] at hrest
    rw [tokens_blank (hbs b (by simp)) hl, hrest]
    simp [tokens, run]

/-! ## Words -/

/-- Bytes that stand for themselves anywhere in a word. -/
def isOrdinary (b : Byte) : Bool :=
  !(bytes "'\"\\#").contains b && !operators.contains [b] && !isBlank b && !expands b

theorem plainStep_ordinary {b : Byte} (hb : isOrdinary b = true) (w : Option Word) :
    plainStep w b = some ([], .word (w.getD [] ++ [(b, false)])) := by
  simp only [isOrdinary, Bool.and_eq_true, Bool.not_eq_true'] at hb
  obtain ⟨⟨⟨hquote, hop⟩, hblank⟩, hexp⟩ := hb
  have hne : b ≠ '\''.toUInt8 ∧ b ≠ '"'.toUInt8 ∧ b ≠ '\\'.toUInt8 ∧ b ≠ '#'.toUInt8 := by
    simpa [bytes, not_or] using hquote
  unfold plainStep
  rw [if_neg hne.1, if_neg hne.2.1, if_neg hne.2.2.1, if_neg (by simpa using hop),
    if_neg (by simp [hblank]), if_neg (by simp [hexp, hne.2.2.2])]

theorem run_word_ordinary (w : Word) {bs : List Byte} (hbs : ∀ b ∈ bs, isOrdinary b = true) :
    run (.word w) bs = some [wordToken (w ++ plainWord bs) none] := by
  induction bs generalizing w with
  | nil => simp [run, plainWord]
  | cons b bs ih =>
    rw [run_silent (s := .word w) (plainStep_ordinary (hbs b (by simp)) (some w)),
      ih _ fun c hc => hbs c (by simp [hc])]
    simp [plainWord]

theorem tokens_ordinary {bs : List Byte} (hne : bs ≠ []) (hbs : ∀ b ∈ bs, isOrdinary b = true) :
    tokens bs = some [.word (plainWord bs)] := by
  cases bs with
  | nil => simp at hne
  | cons b bs =>
    rw [tokens, run_silent (s := .start) (plainStep_ordinary (hbs b (by simp)) none),
      run_word_ordinary _ fun c hc => hbs c (by simp [hc])]
    simp [plainWord, wordToken]

/-! ## Single quotes -/

theorem run_quote (bs : List Byte) : run .start ('\''.toUInt8 :: bs) = run (.single []) bs :=
  run_silent rfl bs

theorem run_single_ne {b : Byte} (hb : b ≠ '\''.toUInt8) (w : Word) (bs : List Byte) :
    run (.single w) (b :: bs) = run (.single (w ++ [(b, true)])) bs :=
  run_silent (by simp [step, hb]) bs

/-- Closing the quotes, quoting a quote by a backslash, and opening them again. -/
theorem run_single_reopen (w : Word) (bs : List Byte) :
    run (.single w) (bytes "'\\''" ++ bs) = run (.single (w ++ [('\''.toUInt8, true)])) bs := by
  show run (.single w) ('\''.toUInt8 :: '\\'.toUInt8 :: '\''.toUInt8 :: '\''.toUInt8 :: bs) = _
  rw [run_silent (r := .word w) rfl, run_silent (r := .escape (some w)) rfl,
    run_silent (r := .word (w ++ [('\''.toUInt8, true)])) rfl, run_silent rfl]
  rfl

theorem run_single_close (w : Word) : run (.single w) ['\''.toUInt8] = some [.word w] := by
  rw [run_silent (r := .word w) rfl]
  simp [run, wordToken]

/-! ## Simple commands -/

/-- A redirection of a file descriptor, or of the default one of its operator. -/
structure Redirection where
  fd : Option (List Byte)
  op : List Byte
  target : List Byte
  deriving DecidableEq, Repr

structure SimpleCommand where
  argv : List (List Byte)
  redirections : List Redirection
  deriving DecidableEq, Repr

def redirectionOperators : List (List Byte) := ["<", ">", ">>", "<&", ">&", "<>", ">|"].map bytes

/-- The words and redirections of a command. -/
def commandParts : List Token → Option (List Word × List Redirection)
  | [] => some ([], [])
  | .word w :: ts => (commandParts ts).map fun (ws, rs) => (w :: ws, rs)
  | .ioNumber n :: .operator op :: .word w :: ts =>
    if redirectionOperators.contains op then
      (commandParts ts).map fun (ws, rs) => (ws, ⟨some n, op, w.unquote⟩ :: rs)
    else none
  | .operator op :: .word w :: ts =>
    if redirectionOperators.contains op then
      (commandParts ts).map fun (ws, rs) => (ws, ⟨none, op, w.unquote⟩ :: rs)
    else none
  | _ => none

def reservedWords : List (List Byte) :=
  ["!", "\x7b", "\x7d", "case", "do", "done", "elif", "else", "esac", "fi", "for", "if", "in",
    "then", "until", "while"].map bytes

/-- A word that is an assignment before a command: its unquoted part up to `=` is a name. -/
def isAssignment (w : Word) : Bool :=
  match w.dropWhile fun x => !x.2 && (isDigit x.1 || x.1 = '_'.toUInt8 || isLetter x.1) with
  | (b, false) :: _ => b = '='.toUInt8 && w.head?.any fun x => !isDigit x.1 && x.1 ≠ '='.toUInt8
  | _ => false
where
  isLetter (b : Byte) : Bool :=
    ('a'.toUInt8 ≤ b && b ≤ 'z'.toUInt8) || ('A'.toUInt8 ≤ b && b ≤ 'Z'.toUInt8)

/-- A first word that is neither an assignment nor reserved. -/
def namesCommand (first : Word) : Bool :=
  !isAssignment first && !(first.all (!·.2) && reservedWords.contains first.unquote)

/-- The text of one simple command without assignments. -/
def simpleCommand (text : List Byte) : Option SimpleCommand :=
  (tokens text).bind fun ts => (commandParts ts).bind fun (ws, rs) =>
    match ws with
    | [] => none
    | first :: _ => if namesCommand first then some ⟨ws.map Word.unquote, rs⟩ else none

theorem namesCommand_quotedWord (bs : List Byte) : namesCommand (quotedWord bs) = true := by
  cases bs with
  | nil => decide
  | cons b bs => simp [namesCommand, isAssignment, quotedWord]

theorem simpleCommand_eq {text : List Byte} {first : Word} {ts : List Token} {ws : List Word}
    {rs : List Redirection} (h : tokens text = some ts)
    (hparts : commandParts ts = some (first :: ws, rs)) (hfirst : namesCommand first = true) :
    simpleCommand text = some ⟨first.unquote :: ws.map Word.unquote, rs⟩ := by
  unfold simpleCommand
  rw [h, Option.bind_some, hparts, Option.bind_some]
  dsimp only
  rw [if_pos hfirst, List.map_cons]

end PosixShell
