import Mathlib.Data.List.Forall2
import DocParser.Export.StructuredText
import DocParser.Lib.Markup

/-!
# The structure of the HTML output

The output is the text of a forest of elements: `htmlDocument_render`. So its tags are well nested
and no text becomes a tag. `html_contract` states this of the tokens of the output, together with
the sections of the rows and the texts that are read back.
-/

namespace DocParser.Export

open Document Markup

/-! ## Escapes -/

section Escapes

/-- Undoes the escapes of `htmlEscape`. -/
def htmlUnescape : List Char → List Char
  | '&' :: 'a' :: 'm' :: 'p' :: ';' :: rest => '&' :: htmlUnescape rest
  | '&' :: 'l' :: 't' :: ';' :: rest => '<' :: htmlUnescape rest
  | '&' :: 'g' :: 't' :: ';' :: rest => '>' :: htmlUnescape rest
  | '&' :: 'q' :: 'u' :: 'o' :: 't' :: ';' :: rest => '"' :: htmlUnescape rest
  | c :: rest => c :: htmlUnescape rest
  | [] => []

theorem htmlUnescape_cons {c : Char} (h : c ≠ '&') (rest : List Char) :
    htmlUnescape (c :: rest) = c :: htmlUnescape rest := by
  conv_lhs => unfold htmlUnescape
  split <;> simp_all

/-- The four characters that are escaped, and all others. -/
theorem htmlEscapeChar_cases (c : Char) : c = '&' ∨ c = '<' ∨ c = '>' ∨ c = '"' ∨
    (c ≠ '&' ∧ c ≠ '<' ∧ c ≠ '>' ∧ htmlEscapeChar c = [c]) := by
  by_cases hamp : c = '&'
  · exact Or.inl hamp
  by_cases hlt : c = '<'
  · exact Or.inr (Or.inl hlt)
  by_cases hgt : c = '>'
  · exact Or.inr (Or.inr (Or.inl hgt))
  by_cases hquote : c = '"'
  · exact Or.inr (Or.inr (Or.inr (Or.inl hquote)))
  · refine Or.inr (Or.inr (Or.inr (Or.inr ⟨hamp, hlt, hgt, ?_⟩)))
    unfold htmlEscapeChar
    split <;> simp_all

theorem htmlUnescape_escape (value : String) :
    htmlUnescape (htmlEscape value).toList = value.toList := by
  unfold htmlEscape
  rw [String.toList_ofList]
  induction value.toList with
  | nil => rfl
  | cons c l ih =>
    rw [List.flatMap_cons]
    rcases htmlEscapeChar_cases c with rfl | rfl | rfl | rfl | ⟨hamp, -, -, hc⟩
    · exact congrArg _ ih
    · exact congrArg _ ih
    · exact congrArg _ ih
    · exact congrArg _ ih
    · rw [hc, List.singleton_append, htmlUnescape_cons hamp, ih]

theorem not_mem_htmlEscape (value : String) : '<' ∉ (htmlEscape value).toList := by
  unfold htmlEscape
  rw [String.toList_ofList, List.mem_flatMap]
  rintro ⟨c, -, hc⟩
  rcases htmlEscapeChar_cases c with rfl | rfl | rfl | rfl | ⟨-, hlt, -, heq⟩
  · exact absurd hc (by decide)
  · exact absurd hc (by decide)
  · exact absurd hc (by decide)
  · exact absurd hc (by decide)
  · rw [heq, List.mem_singleton] at hc
    exact hlt hc.symm

end Escapes

/-! ## The forest of a document -/

section Forests

variable {α : Type}

def cellForest (row : TableRow α) (cell : TableCell α) (next : Forest) : Forest :=
  .text "      ".toList (.element (cellTag row cell).toList (spanAttributes cell).toList
    (.text (htmlEscape cell.text).toList .nil) (.text ['\n'] next))

def rowForest (row : TableRow α) (next : Forest) : Forest :=
  .text "    ".toList (.element "tr".toList []
    (.text ['\n'] (row.cells.foldr (cellForest row) (.text "    ".toList .nil)))
    (.text ['\n'] next))

/-- A section, unless it has no rows. -/
def sectionForest (name : List Char) (rows : List (TableRow α)) (next : Forest) : Forest :=
  if rows.isEmpty then next
  else .text "  ".toList (.element name []
    (.text ['\n'] (rows.foldr rowForest (.text "  ".toList .nil))) (.text ['\n'] next))

def headerRows (rows : List (TableRow α)) : List (TableRow α) := rows.takeWhile (·.isHeader)

def bodyRows (rows : List (TableRow α)) : List (TableRow α) := rows.dropWhile (·.isHeader)

def tableForest (rows : List (TableRow α)) (next : Forest) : Forest :=
  .element "table".toList []
    (.text ['\n'] (sectionForest "thead".toList (headerRows rows)
      (sectionForest "tbody".toList (bodyRows rows) .nil)))
    (.text ['\n'] next)

def textForest (block : DocumentBlock α) (next : Forest) : Forest :=
  if block.text.isEmpty then next
  else .element (if block.type == .title then "h2" else "p").toList []
    (.text (htmlEscape block.text).toList .nil) (.text ['\n'] next)

def blockForest (blocks : List (DocumentBlock α)) (index : Nat) (next : Forest) : Forest :=
  match blocks[index]? with
  | none => next
  | some block =>
    if !isTableBlock block then textForest block next
    else if isContinuationAlreadyWritten blocks index then next
    else tableForest (logicalRows blocks index) next

def documentForest (document : ParsedDocument α) : Forest :=
  .void "!doctype html".toList (.text ['\n'] (.element "html".toList []
    (.element "head".toList []
      (.void "meta charset=\"utf-8\"".toList (.element "title".toList []
        (.text (htmlEscape document.source.path).toList .nil) .nil))
      (.element "body".toList []
        (.text ['\n'] ((List.range document.blocks.length).foldr (blockForest document.blocks) .nil))
        .nil))
    (.text ['\n'] .nil)))

/-- The loop over parts writes the forest that is folded from them. -/
theorem render_foldr {τ : Type} {write : τ → String} {forest : τ → Forest → Forest}
    (h : ∀ x next, (forest x next).render = (write x).toList ++ next.render) (l : List τ)
    (next : Forest) :
    (l.foldr forest next).render = (String.join (l.map write)).toList ++ next.render := by
  rw [String.toList_join]
  induction l with
  | nil => rfl
  | cons x l ih => rw [List.foldr_cons, h, ih]; simp

theorem cellForest_render (row : TableRow α) (cell : TableCell α) (next : Forest) :
    (cellForest row cell next).render = (htmlCell row cell).toList ++ next.render := by
  simp [cellForest, htmlCell, Forest.render]

theorem rowForest_render (row : TableRow α) (next : Forest) :
    (rowForest row next).render = (htmlRow row).toList ++ next.render := by
  simp [rowForest, htmlRow, Forest.render, render_foldr (cellForest_render row)]

/-- The text of a section. -/
def sectionText (name : String) (rows : List (TableRow α)) : String :=
  if rows.isEmpty then ""
  else "  <" ++ name ++ ">\n" ++ String.join (rows.map htmlRow) ++ "  </" ++ name ++ ">\n"

theorem htmlRows_body (rows : List (TableRow α)) :
    htmlRows false true rows = String.join (rows.map htmlRow) ++ "  </tbody>\n" := by
  induction rows with
  | nil => rfl
  | cons row rows ih =>
    rw [htmlRows, if_neg (by simp), if_neg (by simp), ih]
    simp [← String.toList_inj]

theorem htmlRows_head (rows : List (TableRow α)) :
    htmlRows true false rows = String.join ((headerRows rows).map htmlRow) ++ "  </thead>\n" ++
      sectionText "tbody" (bodyRows rows) := by
  induction rows with
  | nil => rfl
  | cons row rows ih =>
    cases hheader : row.isHeader with
    | true =>
      have hhead : headerRows (row :: rows) = row :: headerRows rows := by simp [headerRows, hheader]
      have hbody : bodyRows (row :: rows) = bodyRows rows := by simp [bodyRows, hheader]
      rw [htmlRows, if_neg (by simp), if_neg (by simp [hheader]), ih, hhead, hbody]
      simp [← String.toList_inj]
    | false =>
      have hhead : headerRows (row :: rows) = [] := by simp [headerRows, hheader]
      have hbody : bodyRows (row :: rows) = row :: rows := by simp [bodyRows, hheader]
      rw [htmlRows, if_neg (by simp [hheader]), if_pos (by simp [hheader]), htmlRows_body, hhead,
        hbody]
      simp [← String.toList_inj, sectionText]

theorem sectionForest_render (name : String) (rows : List (TableRow α)) (next : Forest) :
    (sectionForest name.toList rows next).render =
      (sectionText name rows).toList ++ next.render := by
  unfold sectionForest sectionText
  split
  · rfl
  · simp [Forest.render, render_foldr rowForest_render]

/-- The rows of a table stand in a head and a body. -/
theorem htmlRows_eq (rows : List (TableRow α)) : htmlRows false false rows =
    sectionText "thead" (headerRows rows) ++ sectionText "tbody" (bodyRows rows) := by
  cases rows with
  | nil => rfl
  | cons row rows =>
    cases hheader : row.isHeader with
    | true =>
      have hhead : headerRows (row :: rows) = row :: headerRows rows := by simp [headerRows, hheader]
      have hbody : bodyRows (row :: rows) = bodyRows rows := by simp [bodyRows, hheader]
      rw [htmlRows, if_pos (by simp [hheader]), htmlRows_head, hhead, hbody]
      simp [← String.toList_inj, sectionText]
    | false =>
      have hhead : headerRows (row :: rows) = [] := by simp [headerRows, hheader]
      have hbody : bodyRows (row :: rows) = row :: rows := by simp [bodyRows, hheader]
      rw [htmlRows, if_neg (by simp [hheader]), if_pos (by simp [hheader]), htmlRows_body, hhead,
        hbody]
      simp [← String.toList_inj, sectionText]

theorem tableForest_render (rows : List (TableRow α)) (next : Forest) :
    (tableForest rows next).render = (htmlTable rows ++ "\n").toList ++ next.render := by
  unfold tableForest htmlTable
  rw [htmlRows_eq]
  simp only [Forest.render, sectionForest_render]
  simp

theorem textForest_render (block : DocumentBlock α) (next : Forest) :
    (textForest block next).render = (htmlText block).toList ++ next.render := by
  unfold textForest htmlText
  split
  · rfl
  · simp [Forest.render]

theorem blockForest_render (blocks : List (DocumentBlock α)) (index : Nat) (next : Forest) :
    (blockForest blocks index next).render =
      (writeBlock blocks htmlText (fun rows => htmlTable rows ++ "\n") index).toList ++
        next.render := by
  unfold blockForest writeBlock
  cases blocks[index]? with
  | none => rfl
  | some block =>
    dsimp only
    split_ifs
    · exact textForest_render block next
    · rfl
    · exact tableForest_render _ next

/-- **The output** is the text of the forest of the document. -/
theorem htmlDocument_render (document : ParsedDocument α) :
    (htmlDocument document).toList = (documentForest document).render := by
  have hblocks := render_foldr (blockForest_render document.blocks)
    (List.range document.blocks.length) .nil
  unfold htmlDocument documentForest
  simp only [Forest.render, hblocks]
  simp [-String.toList_join]

end Forests

/-! ## Clean tags -/

section Clean

variable {α : Type}

/-- The tags that open no element. -/
def voidTags : List (List Char) := ["!doctype html".toList, "meta charset=\"utf-8\"".toList]

theorem not_mem_repr {n : Int} (h : 1 < n) : '>' ∉ n.repr.toList := by
  obtain ⟨m, rfl⟩ := Int.eq_ofNat_of_zero_le (by omega : 0 ≤ n)
  intro hmem
  exact absurd (isDigit_of_mem_toString (n := m) hmem) (by decide)

theorem spanAttributes_clean (cell : TableCell α) : '>' ∉ (spanAttributes cell).toList ∧
    ((spanAttributes cell).toList = [] ∨ ∃ rest, (spanAttributes cell).toList = ' ' :: rest) := by
  unfold spanAttributes
  split_ifs with hrow hcolumn hcolumn
  · simp [not_mem_repr hrow, not_mem_repr hcolumn]
  · simp [not_mem_repr hrow]
  · simp [not_mem_repr hcolumn]
  · simp

theorem cellTag_cases (row : TableRow α) (cell : TableCell α) :
    cellTag row cell = "th" ∨ cellTag row cell = "td" := by
  unfold cellTag
  split
  · exact Or.inl rfl
  · exact Or.inr rfl

theorem cellTag_clean (row : TableRow α) (cell : TableCell α) :
    Forest.CleanTag voidTags (cellTag row cell).toList (spanAttributes cell).toList := by
  obtain ⟨hclosed, hspaced⟩ := spanAttributes_clean cell
  have hvoid : ∀ rest : List Char, 't' :: rest ∉ voidTags := by
    intro rest hmem
    simp [voidTags] at hmem
  rcases cellTag_cases row cell with htag | htag <;> rw [htag]
  · exact ⟨by decide, by simpa using hclosed, hspaced, hvoid _⟩
  · exact ⟨by decide, by simpa using hclosed, hspaced, hvoid _⟩

/-- A tag without attributes. -/
theorem cleanTag_nil {name : List Char} (hname : name ≠ [] ∧ '/' ∉ name ∧ ' ' ∉ name)
    (hclosed : '>' ∉ name) (hvoid : name ∉ voidTags) : Forest.CleanTag voidTags name [] :=
  ⟨hname, by rwa [List.append_nil], Or.inl rfl, by rwa [List.append_nil]⟩

theorem foldr_clean {τ : Type} {forest : τ → Forest → Forest}
    (h : ∀ x next, next.Clean voidTags → (forest x next).Clean voidTags) (l : List τ)
    (next : Forest) (hnext : next.Clean voidTags) : (l.foldr forest next).Clean voidTags := by
  induction l with
  | nil => exact hnext
  | cons x l ih => exact h x _ ih

theorem cellForest_clean (row : TableRow α) (cell : TableCell α) (next : Forest)
    (h : next.Clean voidTags) : (cellForest row cell next).Clean voidTags :=
  ⟨by decide, cellTag_clean row cell, ⟨not_mem_htmlEscape _, trivial⟩, by decide, h⟩

theorem rowForest_clean (row : TableRow α) (next : Forest) (h : next.Clean voidTags) :
    (rowForest row next).Clean voidTags :=
  ⟨by decide, cleanTag_nil (by decide) (by decide) (by decide),
    ⟨by decide, foldr_clean (cellForest_clean row) _ _ ⟨by decide, trivial⟩⟩, by decide, h⟩

theorem sectionForest_clean {name : List Char} (hname : Forest.CleanTag voidTags name [])
    (rows : List (TableRow α)) (next : Forest) (h : next.Clean voidTags) :
    (sectionForest name rows next).Clean voidTags := by
  unfold sectionForest
  split
  · exact h
  · exact ⟨by decide, hname, ⟨by decide, foldr_clean rowForest_clean _ _ ⟨by decide, trivial⟩⟩,
      by decide, h⟩

theorem tableForest_clean (rows : List (TableRow α)) (next : Forest) (h : next.Clean voidTags) :
    (tableForest rows next).Clean voidTags := by
  refine ⟨cleanTag_nil (by decide) (by decide) (by decide), ⟨by decide, ?_⟩, by decide, h⟩
  refine sectionForest_clean (cleanTag_nil (by decide) (by decide) (by decide)) _ _ ?_
  exact sectionForest_clean (cleanTag_nil (by decide) (by decide) (by decide)) _ _ trivial

theorem textForest_clean (block : DocumentBlock α) (next : Forest) (h : next.Clean voidTags) :
    (textForest block next).Clean voidTags := by
  unfold textForest
  split
  · exact h
  · refine ⟨?_, ⟨not_mem_htmlEscape _, trivial⟩, by decide, h⟩
    split
    · exact cleanTag_nil (by decide) (by decide) (by decide)
    · exact cleanTag_nil (by decide) (by decide) (by decide)

theorem blockForest_clean (blocks : List (DocumentBlock α)) (index : Nat) (next : Forest)
    (h : next.Clean voidTags) : (blockForest blocks index next).Clean voidTags := by
  unfold blockForest
  cases blocks[index]? with
  | none => exact h
  | some block =>
    dsimp only
    split_ifs
    · exact textForest_clean block next h
    · exact h
    · exact tableForest_clean _ next h

theorem documentForest_clean (document : ParsedDocument α) :
    (documentForest document).Clean voidTags := by
  have hblocks := foldr_clean (blockForest_clean document.blocks)
    (List.range document.blocks.length) .nil trivial
  refine ⟨by decide, by decide, by decide, by decide,
    cleanTag_nil (by decide) (by decide) (by decide), ?_, by decide, trivial⟩
  refine ⟨cleanTag_nil (by decide) (by decide) (by decide), ?_,
    cleanTag_nil (by decide) (by decide) (by decide), ⟨by decide, hblocks⟩, trivial⟩
  exact ⟨by decide, by decide, by decide, cleanTag_nil (by decide) (by decide) (by decide),
    ⟨not_mem_htmlEscape _, trivial⟩, trivial⟩

theorem tokenize_htmlDocument (document : ParsedDocument α) :
    tokenize (htmlDocument document).toList = (documentForest document).tokens := by
  rw [htmlDocument_render]
  exact Forest.tokenize_render (documentForest_clean document)

end Clean

end DocParser.Export
