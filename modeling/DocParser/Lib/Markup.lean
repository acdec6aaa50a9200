import Mathlib.Data.List.Basic

/-!
# Markup

A text with tags between `<` and `>`. A forest is markup as a tree, and `tokenize_render` reads its
tokens back from its text. `nest_tokens`: its tags are well nested. `Shows` says which of the
texts between the tags are content; all others are blank.
-/

namespace Markup

/-! ## Tokens -/

inductive Token
  | tag (tag : List Char)
  | char (c : Char)
  deriving DecidableEq, Repr

/-- Reads a text, inside a tag of which some characters are read, or outside of tags. -/
def scan : Option (List Char) → List Char → List Token
  | none, [] => []
  | some tag, [] => [.tag tag]
  | none, c :: rest => if c = '<' then scan (some []) rest else .char c :: scan none rest
  | some tag, c :: rest =>
    if c = '>' then .tag tag :: scan none rest else scan (some (tag ++ [c])) rest

def tokenize (markup : List Char) : List Token := scan none markup

def tags (tokens : List Token) : List (List Char) :=
  tokens.filterMap fun
    | .tag tag => some tag
    | .char _ => none

theorem tokenize_text {content : List Char} (h : '<' ∉ content) (rest : List Char) :
    tokenize (content ++ rest) = content.map .char ++ tokenize rest := by
  induction content with
  | nil => rfl
  | cons c content ih =>
    obtain ⟨hc, hcontent⟩ := List.ne_and_not_mem_of_not_mem_cons h
    have hscan : tokenize (c :: (content ++ rest)) = .char c :: tokenize (content ++ rest) := by
      unfold tokenize
      rw [scan, if_neg hc.symm]
    rw [List.cons_append, hscan, ih hcontent]
    rfl

theorem scan_tag {tag : List Char} (h : '>' ∉ tag) (rest : List Char) : ∀ front : List Char,
    scan (some front) (tag ++ '>' :: rest) = .tag (front ++ tag) :: tokenize rest := by
  induction tag with
  | nil =>
    intro front
    rw [List.nil_append, scan, if_pos rfl, List.append_nil]
    rfl
  | cons c tag ih =>
    intro front
    obtain ⟨hc, htag⟩ := List.ne_and_not_mem_of_not_mem_cons h
    rw [List.cons_append, scan, if_neg hc.symm, ih htag, List.append_assoc]
    rfl

theorem tokenize_tag {tag : List Char} (h : '>' ∉ tag) (rest : List Char) :
    tokenize ('<' :: (tag ++ '>' :: rest)) = .tag tag :: tokenize rest := by
  have hopen : tokenize ('<' :: (tag ++ '>' :: rest)) = scan (some []) (tag ++ '>' :: rest) := by
    unfold tokenize
    rw [scan, if_pos rfl]
  rw [hopen, scan_tag h]
  rfl

/-! ## Nesting -/

section Nesting

variable (voids : List (List Char))

/-- The name of an opening tag, before its attributes. -/
def tagName (tag : List Char) : List Char := tag.takeWhile fun c => c != ' '

/-- A tag that ends an element. -/
def isClosing (tag : List Char) : Bool := tag.head? == some '/'

/-- Closes the innermost element if it has the name. -/
def closeElement (name : List Char) : List (List Char) → Option (List (List Char))
  | [] => none
  | top :: below => if top = name then some below else none

/-- The open elements behind some tokens, or `none` when a closing tag closes another element. -/
def nest : List (List Char) → List Token → Option (List (List Char))
  | path, [] => some path
  | path, .char _ :: rest => nest path rest
  | path, .tag tag :: rest =>
    if isClosing tag then (closeElement tag.tail path).bind fun below => nest below rest
    else if voids.contains tag then nest path rest
    else nest (tagName tag :: path) rest

/-- Each element that is opened, with the elements around it, innermost first. -/
def paths : List (List Char) → List Token → List (List (List Char))
  | _, [] => []
  | path, .char _ :: rest => paths path rest
  | path, .tag tag :: rest =>
    if isClosing tag then paths path.tail rest
    else if voids.contains tag then paths path rest
    else (tagName tag :: path) :: paths (tagName tag :: path) rest

end Nesting

/-! ## Forests -/

/-- Texts, tags without content and elements, one behind the other. -/
inductive Forest
  | nil
  | text (content : List Char) (next : Forest)
  | void (tag : List Char) (next : Forest)
  | element (name attributes : List Char) (children next : Forest)
  deriving DecidableEq, Repr

namespace Forest

def render : Forest → List Char
  | nil => []
  | text content next => content ++ next.render
  | void tag next => '<' :: (tag ++ '>' :: next.render)
  | element name attributes children next =>
    '<' :: ((name ++ attributes) ++ '>' ::
      (children.render ++ '<' :: (('/' :: name) ++ '>' :: next.render)))

def tokens : Forest → List Token
  | nil => []
  | text content next => content.map .char ++ next.tokens
  | void tag next => .tag tag :: next.tokens
  | element name attributes children next =>
    .tag (name ++ attributes) :: (children.tokens ++ .tag ('/' :: name) :: next.tokens)

/-- The tags of a forest. -/
def tagList : Forest → List (List Char)
  | nil => []
  | text _ next => next.tagList
  | void tag next => tag :: next.tagList
  | element name attributes children next =>
    (name ++ attributes) :: (children.tagList ++ ('/' :: name) :: next.tagList)

/-- The paths of all elements of a forest inside of some elements. -/
def elementPaths : List (List Char) → Forest → List (List (List Char))
  | _, nil => []
  | path, text _ next => next.elementPaths path
  | path, void _ next => next.elementPaths path
  | path, element name _ children next =>
    (name :: path) :: (children.elementPaths (name :: path) ++ next.elementPaths path)

/-- A tag with a name, which is not taken for the end of an element. -/
structure CleanTag (voids : List (List Char)) (name attributes : List Char) : Prop where
  named : name ≠ [] ∧ '/' ∉ name ∧ ' ' ∉ name
  closed : '>' ∉ name ++ attributes
  spaced : attributes = [] ∨ ∃ rest, attributes = ' ' :: rest
  notVoid : name ++ attributes ∉ voids

/-- No text opens a tag, and every tag is what it stands for. -/
def Clean (voids : List (List Char)) : Forest → Prop
  | nil => True
  | text content next => '<' ∉ content ∧ next.Clean voids
  | void tag next => tag ∈ voids ∧ isClosing tag = false ∧ '>' ∉ tag ∧ next.Clean voids
  | element name attributes children next =>
    CleanTag voids name attributes ∧ children.Clean voids ∧ next.Clean voids

variable {voids : List (List Char)}

theorem tokenize_render_append {forest : Forest} (h : forest.Clean voids) (rest : List Char) :
    tokenize (forest.render ++ rest) = forest.tokens ++ tokenize rest := by
  induction forest generalizing rest with
  | nil => rfl
  | text content next ih =>
    rw [render, tokens, List.append_assoc, tokenize_text h.1, ih h.2, List.append_assoc]
  | void tag next ih =>
    obtain ⟨-, -, htag, hnext⟩ := h
    rw [render, tokens, List.cons_append, List.append_assoc, List.cons_append, tokenize_tag htag,
      ih hnext]
    rfl
  | element name attributes children next ihChildren ihNext =>
    obtain ⟨htag, hchildren, hnext⟩ := h
    have hend : '>' ∉ '/' :: name := by
      have := htag.closed
      simp_all
    rw [render, tokens]
    simp only [List.cons_append, List.append_assoc]
    rw [← List.append_assoc name, tokenize_tag htag.closed, ihChildren hchildren]
    have hclose := tokenize_tag hend (next.render ++ rest)
    rw [List.cons_append] at hclose
    rw [hclose, ihNext hnext]

/-- **Tokens.** A forest is read back from its text. -/
theorem tokenize_render {forest : Forest} (h : forest.Clean voids) :
    tokenize forest.render = forest.tokens := by
  have := tokenize_render_append h []
  rwa [List.append_nil, show tokenize [] = [] from rfl, List.append_nil] at this

theorem tags_tokens_append (forest : Forest) (rest : List Token) :
    tags (forest.tokens ++ rest) = forest.tagList ++ tags rest := by
  induction forest generalizing rest with
  | nil => rfl
  | text content next ih =>
    have hchars : ∀ l : List Char, tags (l.map .char ++ (next.tokens ++ rest)) =
        tags (next.tokens ++ rest) := by
      intro l
      induction l with
      | nil => rfl
      | cons c l ih => exact ih
    rw [tokens, List.append_assoc, hchars, ih]
    rfl
  | void tag next ih => exact congrArg (tag :: ·) (ih rest)
  | element name attributes children next ihChildren ihNext =>
    have hchildren := ihChildren (.tag ('/' :: name) :: (next.tokens ++ rest))
    have hclose : tags (.tag ('/' :: name) :: (next.tokens ++ rest)) =
      ('/' :: name) :: tags (next.tokens ++ rest) := rfl
    rw [hclose, ihNext] at hchildren
    rw [tokens, tagList]
    simp only [List.cons_append, List.append_assoc]
    exact congrArg ((name ++ attributes) :: ·) hchildren

theorem CleanTag.tagName_eq {name attributes : List Char} (h : CleanTag voids name attributes) :
    tagName (name ++ attributes) = name := by
  have hname : ∀ c ∈ name, (c != ' ') = true := by
    intro c hc
    simpa using fun heq : c = ' ' => h.named.2.2 (heq ▸ hc)
  unfold tagName
  rw [List.takeWhile_append_of_pos hname]
  rcases h.spaced with rfl | ⟨rest, rfl⟩ <;> simp

theorem CleanTag.not_closing {name attributes : List Char}
    (h : CleanTag voids name attributes) : isClosing (name ++ attributes) = false := by
  obtain ⟨c, name, rfl⟩ := List.exists_cons_of_ne_nil h.named.1
  have hc : c ≠ '/' := fun heq => h.named.2.1 (heq ▸ List.mem_cons_self ..)
  simpa [isClosing] using hc

/-- An opening tag is neither closing nor void. -/
theorem CleanTag.nest_eq {name attributes : List Char} (h : CleanTag voids name attributes)
    (path : List (List Char)) (rest : List Token) :
    nest voids path (.tag (name ++ attributes) :: rest) = nest voids (name :: path) rest ∧
      paths voids path (.tag (name ++ attributes) :: rest) =
        (name :: path) :: paths voids (name :: path) rest := by
  have hvoid : ¬ voids.contains (name ++ attributes) = true := by simpa using h.notVoid
  have hopening : ¬ isClosing (name ++ attributes) = true := by simp [h.not_closing]
  rw [nest, paths, if_neg hopening, if_neg hopening, if_neg hvoid, if_neg hvoid, h.tagName_eq]
  exact ⟨rfl, rfl⟩

/-- **Nesting.** Behind a forest the same elements are open as before it. -/
theorem nest_tokens {forest : Forest} (h : forest.Clean voids) (path : List (List Char))
    (rest : List Token) :
    nest voids path (forest.tokens ++ rest) = nest voids path rest ∧
      paths voids path (forest.tokens ++ rest) =
        forest.elementPaths path ++ paths voids path rest := by
  induction forest generalizing path rest with
  | nil => exact ⟨rfl, rfl⟩
  | text content next ih =>
    have hchars : ∀ (l : List Char) (rest : List Token),
        nest voids path (l.map .char ++ rest) = nest voids path rest ∧
          paths voids path (l.map .char ++ rest) = paths voids path rest := by
      intro l rest
      induction l with
      | nil => exact ⟨rfl, rfl⟩
      | cons c l ih => exact ih
    rw [tokens, List.append_assoc, (hchars _ _).1, (hchars _ _).2]
    exact ih h.2 path rest
  | void tag next ih =>
    obtain ⟨hvoid, hopening, -, hnext⟩ := h
    have hcontains : voids.contains tag = true := by simpa using hvoid
    have hnot : ¬ isClosing tag = true := by simp [hopening]
    rw [tokens, List.cons_append, nest, paths, if_neg hnot, if_neg hnot, if_pos hcontains,
      if_pos hcontains]
    exact ih hnext path rest
  | element name attributes children next ihChildren ihNext =>
    obtain ⟨htag, hchildren, hnext⟩ := h
    obtain ⟨hnest, hpaths⟩ := htag.nest_eq path
      (children.tokens ++ .tag ('/' :: name) :: (next.tokens ++ rest))
    obtain ⟨hnestChildren, hpathsChildren⟩ := ihChildren hchildren (name :: path)
      (.tag ('/' :: name) :: (next.tokens ++ rest))
    have hclosing : isClosing ('/' :: name) = true := by simp [isClosing]
    rw [tokens]
    simp only [List.cons_append, List.append_assoc]
    have hclose : closeElement name (name :: path) = some path := if_pos rfl
    rw [hnest, hpaths, hnestChildren, hpathsChildren, nest, paths, if_pos hclosing,
      if_pos hclosing, List.tail_cons, List.tail_cons, hclose, Option.bind_some]
    obtain ⟨hnestNext, hpathsNext⟩ := ihNext hnext path rest
    rw [hnestNext, hpathsNext, elementPaths, List.cons_append, List.append_assoc]
    exact ⟨rfl, rfl⟩

end Forest

/-! ## Texts between the tags -/

/-- The text before the first tag, and each tag with the text behind it. -/
def runs : List Token → List Char × List (List Char × List Char)
  | [] => ([], [])
  | .char c :: rest => (c :: (runs rest).1, (runs rest).2)
  | .tag tag :: rest => ([], (tag, (runs rest).1) :: (runs rest).2)

section Texts

variable (isContent : List Char → Bool) (isBlank : Char → Bool)

/-- The texts behind the tags with content are `texts`, and all others are blank. -/
structure Shows (tokens : List Token) (texts : List (List Char)) : Prop where
  front : (runs tokens).1.all isBlank = true
  others : ∀ run ∈ (runs tokens).2, isContent run.1 = true ∨ run.2.all isBlank = true
  texts : ((runs tokens).2.filter fun run => isContent run.1).map (·.2) = texts

variable {isContent isBlank} {rest : List Token} {texts : List (List Char)}

theorem Shows.nil : Shows isContent isBlank [] [] := ⟨rfl, by simp [runs], rfl⟩

theorem runs_chars (l : List Char) :
    runs (l.map .char ++ rest) = (l ++ (runs rest).1, (runs rest).2) := by
  induction l with
  | nil => rfl
  | cons c l ih => rw [List.map_cons, List.cons_append, runs, ih]; rfl

theorem Shows.chars (h : Shows isContent isBlank rest texts) {l : List Char}
    (hl : l.all isBlank = true) : Shows isContent isBlank (l.map .char ++ rest) texts := by
  refine ⟨?_, ?_, ?_⟩ <;> rw [runs_chars]
  · rw [List.all_append, hl, h.front]
    rfl
  · exact h.others
  · exact h.texts

theorem Shows.tag (h : Shows isContent isBlank rest texts) {tag : List Char}
    (htag : isContent tag = false) : Shows isContent isBlank (.tag tag :: rest) texts := by
  refine ⟨rfl, ?_, ?_⟩ <;> rw [runs]
  · intro run hrun
    rcases List.mem_cons.mp hrun with rfl | hrun
    · exact Or.inr h.front
    · exact h.others run hrun
  · rw [List.filter_cons_of_neg (by simp [htag])]
    exact h.texts

/-- A tag with content, its text, and a tag behind it. -/
theorem Shows.content (h : Shows isContent isBlank rest texts) {tag close text : List Char}
    (htag : isContent tag = true) (hclose : isContent close = false) :
    Shows isContent isBlank (.tag tag :: (text.map .char ++ .tag close :: rest)) (text :: texts) := by
  have hrest := h.tag hclose
  have hfront : (runs (.tag close :: rest)).1 = [] := rfl
  refine ⟨rfl, ?_, ?_⟩ <;> rw [runs, runs_chars]
  · intro run hrun
    rcases List.mem_cons.mp hrun with rfl | hrun
    · exact Or.inl htag
    · exact hrest.others run hrun
  · rw [List.filter_cons_of_pos (by simpa using htag), List.map_cons, hrest.texts, hfront,
      List.append_nil]

/-- A forest whose elements hold one text each or no text at all. -/
inductive Forest.Holds (isContent : List Char → Bool) (isBlank : Char → Bool) :
    Forest → List (List Char) → Prop
  | nil : Holds isContent isBlank .nil []
  | text {blank next texts} (hblank : blank.all isBlank = true)
      (hnext : Holds isContent isBlank next texts) :
      Holds isContent isBlank (.text blank next) texts
  | void {tag next texts} (htag : isContent tag = false)
      (hnext : Holds isContent isBlank next texts) :
      Holds isContent isBlank (.void tag next) texts
  | element {name attributes children next inner texts}
      (hopen : isContent (name ++ attributes) = false) (hclose : isContent ('/' :: name) = false)
      (hchildren : Holds isContent isBlank children inner)
      (hnext : Holds isContent isBlank next texts) :
      Holds isContent isBlank (.element name attributes children next) (inner ++ texts)
  | content {name attributes text next texts}
      (hopen : isContent (name ++ attributes) = true) (hclose : isContent ('/' :: name) = false)
      (hnext : Holds isContent isBlank next texts) :
      Holds isContent isBlank (.element name attributes (.text text .nil) next) (text :: texts)

/-- **Texts.** The tokens of a forest show the texts that it holds. -/
theorem Forest.Holds.shows {forest : Forest} {held : List (List Char)}
    (h : forest.Holds isContent isBlank held) (hrest : Shows isContent isBlank rest texts) :
    Shows isContent isBlank (forest.tokens ++ rest) (held ++ texts) := by
  induction h generalizing rest texts with
  | nil => exact hrest
  | text hblank _ ih =>
    rw [Forest.tokens, List.append_assoc]
    exact (ih hrest).chars hblank
  | void htag _ ih => exact (ih hrest).tag htag
  | element hopen hclose _ _ ihChildren ihNext =>
    rw [Forest.tokens]
    simp only [List.cons_append, List.append_assoc]
    exact (ihChildren ((ihNext hrest).tag hclose)).tag hopen
  | content hopen hclose _ ih =>
    rw [Forest.tokens, Forest.tokens, Forest.tokens]
    simp only [List.cons_append, List.append_assoc, List.nil_append]
    exact (ih hrest).content hopen hclose

end Texts

end Markup
