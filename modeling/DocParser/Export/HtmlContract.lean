import DocParser.Export.HtmlDocument

/-!
# The contract of the HTML output

`html_contract`: the tags of the output are well nested and depend on the structure of the
document alone, every written row stands in one section of its table, and the texts between the
tags give back the texts of the document.
-/

namespace DocParser.Export

open Document Markup

/-! ## Texts -/

section Texts

variable {α : Type}

/-- Tags of the elements that hold a text of the document. -/
def isContent (tag : List Char) : Bool :=
  ["title", "h2", "p", "th", "td"].any fun name => tagName tag == name.toList

def isBlank (c : Char) : Bool := c == ' ' || c == '\n'

/-- The rows that are written for the block at an index. -/
def rowsAt (blocks : List (DocumentBlock α)) (index : Nat) : List (TableRow α) :=
  match blocks[index]? with
  | none => []
  | some block =>
    if isTableBlock block && !isContinuationAlreadyWritten blocks index then
      logicalRows blocks index
    else []

/-- The texts that are written for the block at an index. -/
def textsAt (blocks : List (DocumentBlock α)) (index : Nat) : List String :=
  match blocks[index]? with
  | none => []
  | some block =>
    if !isTableBlock block then if block.text.isEmpty then [] else [block.text]
    else (rowsAt blocks index).flatMap fun row => row.cells.map (·.text)

/-- All rows that are written. -/
def writtenRows (document : ParsedDocument α) : List (TableRow α) :=
  (List.range document.blocks.length).flatMap (rowsAt document.blocks)

/-- All texts that are written: the path of the source, and those of the blocks. -/
def writtenTexts (document : ParsedDocument α) : List String :=
  document.source.path :: (List.range document.blocks.length).flatMap (textsAt document.blocks)

/-- The escaped form of some texts. -/
def escapedTexts (texts : List String) : List (List Char) :=
  texts.map fun text => (htmlEscape text).toList

theorem escapedTexts_append (texts rest : List String) :
    escapedTexts (texts ++ rest) = escapedTexts texts ++ escapedTexts rest := List.map_append

theorem foldr_holds {τ : Type} {forest : τ → Forest → Forest} {texts : τ → List String}
    (h : ∀ (x : τ) (next : Forest) (rest : List String),
      next.Holds isContent isBlank (escapedTexts rest) →
      (forest x next).Holds isContent isBlank (escapedTexts (texts x ++ rest)))
    (l : List τ) (next : Forest) (rest : List String)
    (hnext : next.Holds isContent isBlank (escapedTexts rest)) :
    (l.foldr forest next).Holds isContent isBlank (escapedTexts (l.flatMap texts ++ rest)) := by
  induction l with
  | nil => exact hnext
  | cons x l ih =>
    rw [List.flatMap_cons, List.append_assoc]
    exact h x _ _ ih

theorem cellForest_holds (row : TableRow α) (cell : TableCell α) (next : Forest)
    (rest : List String) (h : next.Holds isContent isBlank (escapedTexts rest)) :
    (cellForest row cell next).Holds isContent isBlank (escapedTexts ([cell.text] ++ rest)) := by
  have hname := (cellTag_clean row cell).tagName_eq
  have hopen : isContent ((cellTag row cell).toList ++ (spanAttributes cell).toList) = true := by
    unfold isContent
    rw [hname]
    rcases cellTag_cases row cell with htag | htag <;> rw [htag] <;> decide
  have hclose : isContent ('/' :: (cellTag row cell).toList) = false := by
    rcases cellTag_cases row cell with htag | htag <;> rw [htag] <;> decide
  exact .text (by decide) (.content hopen hclose (.text (by decide) h))

theorem rowForest_holds (row : TableRow α) (next : Forest) (rest : List String)
    (h : next.Holds isContent isBlank (escapedTexts rest)) :
    (rowForest row next).Holds isContent isBlank
      (escapedTexts (row.cells.map (·.text) ++ rest)) := by
  have hcells := foldr_holds (cellForest_holds row) row.cells (.text "    ".toList .nil) []
    (.text (by decide) .nil)
  rw [List.append_nil, ← List.map_eq_flatMap] at hcells
  rw [escapedTexts_append]
  refine .text (by decide) (.element (by decide) (by decide) (.text (by decide) hcells) ?_)
  exact .text (by decide) h

theorem sectionForest_holds (name : List Char) (hopen : isContent (name ++ []) = false)
    (hclose : isContent ('/' :: name) = false) (rows : List (TableRow α)) (next : Forest)
    (rest : List String) (h : next.Holds isContent isBlank (escapedTexts rest)) :
    (sectionForest name rows next).Holds isContent isBlank
      (escapedTexts ((rows.flatMap fun row => row.cells.map (·.text)) ++ rest)) := by
  unfold sectionForest
  cases rows with
  | nil => exact h
  | cons row rows =>
    have hrows := foldr_holds rowForest_holds (row :: rows) (.text "  ".toList .nil) []
      (.text (by decide) .nil)
    rw [List.append_nil] at hrows
    rw [escapedTexts_append]
    refine .text (by decide) (.element hopen hclose (.text (by decide) hrows) ?_)
    exact .text (by decide) h

theorem headerRows_append_bodyRows (rows : List (TableRow α)) :
    headerRows rows ++ bodyRows rows = rows := List.takeWhile_append_dropWhile

theorem tableForest_holds (rows : List (TableRow α)) (next : Forest) (rest : List String)
    (h : next.Holds isContent isBlank (escapedTexts rest)) :
    (tableForest rows next).Holds isContent isBlank
      (escapedTexts ((rows.flatMap fun row => row.cells.map (·.text)) ++ rest)) := by
  have hbody := sectionForest_holds "tbody".toList (by decide) (by decide)
    (bodyRows rows) .nil [] .nil
  have hhead := sectionForest_holds "thead".toList (by decide) (by decide)
    (headerRows rows) _ _ hbody
  rw [List.append_nil, ← List.flatMap_append, headerRows_append_bodyRows] at hhead
  rw [escapedTexts_append]
  exact .element (by decide) (by decide) (.text (by decide) hhead) (.text (by decide) h)

theorem textForest_holds (block : DocumentBlock α) (next : Forest) (rest : List String)
    (h : next.Holds isContent isBlank (escapedTexts rest)) :
    (textForest block next).Holds isContent isBlank
      (escapedTexts ((if block.text.isEmpty then [] else [block.text]) ++ rest)) := by
  unfold textForest
  split_ifs
  · exact h
  · exact .content (by decide) (by decide) (.text (by decide) h)
  · exact .content (by decide) (by decide) (.text (by decide) h)

theorem blockForest_holds (blocks : List (DocumentBlock α)) (index : Nat) (next : Forest)
    (rest : List String) (h : next.Holds isContent isBlank (escapedTexts rest)) :
    (blockForest blocks index next).Holds isContent isBlank
      (escapedTexts (textsAt blocks index ++ rest)) := by
  unfold blockForest textsAt rowsAt
  cases blocks[index]? with
  | none => exact h
  | some block =>
    dsimp only
    cases htable : isTableBlock block with
    | false => exact textForest_holds block next rest h
    | true =>
      cases hwritten : isContinuationAlreadyWritten blocks index with
      | true => exact h
      | false => exact tableForest_holds _ next rest h

/-- **Texts of the output.** -/
theorem documentForest_holds (document : ParsedDocument α) :
    (documentForest document).Holds isContent isBlank (escapedTexts (writtenTexts document)) := by
  have hblocks := foldr_holds (blockForest_holds document.blocks)
    (List.range document.blocks.length) .nil [] .nil
  rw [List.append_nil] at hblocks
  have htitle : Forest.Holds isContent isBlank (.element "title".toList []
      (.text (htmlEscape document.source.path).toList .nil) .nil)
      (escapedTexts [document.source.path]) := .content (by decide) (by decide) .nil
  have htexts : escapedTexts (writtenTexts document) =
      escapedTexts [document.source.path] ++
        (escapedTexts ((List.range document.blocks.length).flatMap (textsAt document.blocks)) ++
          []) ++ [] := by
    rw [List.append_nil, List.append_nil, ← escapedTexts_append]
    rfl
  rw [htexts]
  -- The head holds the title, the body holds the blocks.
  refine .void (by decide) (.text (by decide) (.element (by decide) (by decide) ?_ ?_))
  · refine .element (by decide) (by decide) (.void (by decide) htitle) ?_
    exact .element (by decide) (by decide) (.text (by decide) hblocks) .nil
  · exact .text (by decide) .nil

end Texts

/-! ## Sections -/

section Sections

variable {α : Type}

def isRow (path : List (List Char)) : Bool := path.head? == some "tr".toList

/-- The sections of the rows of a table, in order. -/
def rowPaths (path : List (List Char)) (rows : List (TableRow α)) : List (List (List Char)) :=
  (headerRows rows).map (fun _ => "tr".toList :: "thead".toList :: "table".toList :: path) ++
    (bodyRows rows).map fun _ => "tr".toList :: "tbody".toList :: "table".toList :: path

theorem foldr_elementPaths {τ : Type} {forest : τ → Forest → Forest}
    {rows : τ → List (List (List Char))} {path : List (List Char)}
    (h : ∀ x next, ((forest x next).elementPaths path).filter isRow =
      rows x ++ (next.elementPaths path).filter isRow) (l : List τ) (next : Forest) :
    ((l.foldr forest next).elementPaths path).filter isRow =
      l.flatMap rows ++ (next.elementPaths path).filter isRow := by
  induction l with
  | nil => rfl
  | cons x l ih => rw [List.foldr_cons, h, ih, List.flatMap_cons, List.append_assoc]

theorem cellForest_paths (path : List (List Char)) (row : TableRow α) (cell : TableCell α)
    (next : Forest) : ((cellForest row cell next).elementPaths path).filter isRow =
      [] ++ (next.elementPaths path).filter isRow := by
  have hcell : isRow ((cellTag row cell).toList :: path) = false := by
    rcases cellTag_cases row cell with htag | htag <;> rw [htag] <;> simp [isRow]
  simp [cellForest, Forest.elementPaths, hcell]

theorem rowForest_paths (path : List (List Char)) (row : TableRow α) (next : Forest) :
    ((rowForest row next).elementPaths path).filter isRow =
      ["tr".toList :: path] ++ (next.elementPaths path).filter isRow := by
  have hcells := foldr_elementPaths (cellForest_paths ("tr".toList :: path) row) row.cells
    (.text "    ".toList .nil)
  have hrow : isRow ("tr".toList :: path) = true := by simp [isRow]
  have hnone : (row.cells.flatMap fun _ => ([] : List (List (List Char)))) = [] := by simp
  unfold rowForest
  simp only [Forest.elementPaths]
  rw [List.filter_cons_of_pos hrow, List.filter_append, hcells, hnone]
  rfl

theorem sectionForest_paths (path : List (List Char)) {name : List Char}
    (hname : name ≠ "tr".toList) (rows : List (TableRow α)) (next : Forest) :
    ((sectionForest name rows next).elementPaths path).filter isRow =
      rows.map (fun _ => "tr".toList :: name :: path) ++ (next.elementPaths path).filter isRow := by
  have hrows := foldr_elementPaths (rowForest_paths (name :: path)) rows (.text "  ".toList .nil)
  have hsection : ¬ isRow (name :: path) = true := by simpa [isRow] using hname
  unfold sectionForest
  cases rows with
  | nil => rfl
  | cons row rows =>
    rw [if_neg (by simp)]
    simp only [Forest.elementPaths]
    rw [List.filter_cons_of_neg hsection, List.filter_append, hrows, ← List.map_eq_flatMap]
    simp [Forest.elementPaths]

theorem tableForest_paths (path : List (List Char)) (rows : List (TableRow α)) (next : Forest) :
    ((tableForest rows next).elementPaths path).filter isRow =
      rowPaths path rows ++ (next.elementPaths path).filter isRow := by
  have htable : ¬ isRow ("table".toList :: path) = true := by simp [isRow]
  unfold tableForest rowPaths
  simp only [Forest.elementPaths]
  rw [List.filter_cons_of_neg htable, List.filter_append, sectionForest_paths _ (by decide),
    sectionForest_paths _ (by decide)]
  simp [Forest.elementPaths]

theorem blockForest_paths (path : List (List Char)) (blocks : List (DocumentBlock α))
    (index : Nat) (next : Forest) : ((blockForest blocks index next).elementPaths path).filter isRow =
      rowPaths path (rowsAt blocks index) ++ (next.elementPaths path).filter isRow := by
  have htext : ∀ block : DocumentBlock α, ((textForest block next).elementPaths path).filter isRow =
      (next.elementPaths path).filter isRow := by
    intro block
    unfold textForest
    split_ifs <;> simp [Forest.elementPaths, isRow]
  unfold blockForest rowsAt
  cases blocks[index]? with
  | none => rfl
  | some block =>
    dsimp only
    cases htable : isTableBlock block with
    | false => exact htext block
    | true =>
      cases hwritten : isContinuationAlreadyWritten blocks index with
      | true => rfl
      | false => exact tableForest_paths path _ next

/-- **Sections.** The rows of the output, each in one section of a table in the body. -/
theorem documentForest_paths (document : ParsedDocument α) :
    ((documentForest document).elementPaths []).filter isRow =
      (List.range document.blocks.length).flatMap fun index =>
        rowPaths ["body".toList, "html".toList] (rowsAt document.blocks index) := by
  have hblocks := foldr_elementPaths
    (blockForest_paths ["body".toList, "html".toList] document.blocks)
    (List.range document.blocks.length) .nil
  unfold documentForest
  simp only [Forest.elementPaths, List.append_nil, List.nil_append, List.cons_append]
  rw [List.filter_cons_of_neg (by decide), List.filter_cons_of_neg (by decide),
    List.filter_cons_of_neg (by decide), List.filter_cons_of_neg (by decide), hblocks]
  simp [Forest.elementPaths]

end Sections

/-! ## Structure -/

section Structure

variable {α : Type}

structure SameCell (cell cell' : TableCell α) : Prop where
  isHeader : cell.isHeader = cell'.isHeader
  rowSpan : cell.rowSpan = cell'.rowSpan
  columnSpan : cell.columnSpan = cell'.columnSpan

structure SameRow (row row' : TableRow α) : Prop where
  isHeader : row.isHeader = row'.isHeader
  cells : List.Forall₂ SameCell row.cells row'.cells

/-- Two blocks that differ in no more than the characters of their texts. -/
structure SameBlock (block block' : DocumentBlock α) : Prop where
  type : block.type = block'.type
  hasTable : block.tableId.isEmpty = block'.tableId.isEmpty
  hasText : block.text.isEmpty = block'.text.isEmpty
  group : block.tableContinuationGroupId = block'.tableContinuationGroupId
  continues : block.tableContinuesFromPreviousPage = block'.tableContinuesFromPreviousPage
  rows : List.Forall₂ SameRow block.tableRows block'.tableRows

def SameStructure (document document' : ParsedDocument α) : Prop :=
  List.Forall₂ SameBlock document.blocks document'.blocks

theorem sameRows_dropWhile {rows rows' : List (TableRow α)} (h : List.Forall₂ SameRow rows rows') :
    List.Forall₂ SameRow (headerRows rows) (headerRows rows') ∧
      List.Forall₂ SameRow (bodyRows rows) (bodyRows rows') := by
  unfold headerRows bodyRows
  induction h with
  | nil => exact ⟨.nil, .nil⟩
  | @cons row row' rows rows' hrow hrows ih =>
    rw [List.takeWhile_cons, List.takeWhile_cons, List.dropWhile_cons, List.dropWhile_cons,
      ← hrow.isHeader]
    cases row.isHeader with
    | true => exact ⟨.cons hrow ih.1, ih.2⟩
    | false => exact ⟨.nil, .cons hrow hrows⟩

theorem sameRow_atRowIndex {row row' : TableRow α} (h : SameRow row row') (index : Nat) :
    SameRow (atRowIndex row index) (atRowIndex row' index) := by
  refine ⟨h.isHeader, ?_⟩
  unfold atRowIndex
  rw [List.forall₂_map_left_iff, List.forall₂_map_right_iff]
  exact h.cells.imp fun _ _ hcell => ⟨hcell.isHeader, hcell.rowSpan, hcell.columnSpan⟩

theorem sameRows_number {rows rows' : List (TableRow α)} (h : List.Forall₂ SameRow rows rows') :
    ∀ index : Nat, List.Forall₂ SameRow ((rows.zipIdx index).map fun p => atRowIndex p.1 p.2)
      ((rows'.zipIdx index).map fun p => atRowIndex p.1 p.2) := by
  induction h with
  | nil => exact fun _ => .nil
  | cons hrow _ ih => exact fun index => .cons (sameRow_atRowIndex hrow index) (ih (index + 1))

theorem sameRows_addFragment {rows rows' : List (TableRow α)} {block block' : DocumentBlock α}
    (hrows : List.Forall₂ SameRow rows rows') (hblock : SameBlock block block') :
    List.Forall₂ SameRow (addFragment rows block) (addFragment rows' block') := by
  have hempty : rows.isEmpty = rows'.isEmpty := by
    cases hrows <;> rfl
  unfold addFragment
  rw [← hempty, ← hblock.continues, ← hrows.length_eq]
  refine List.rel_append hrows (sameRows_number ?_ _)
  split
  · exact (sameRows_dropWhile hblock.rows).2
  · exact hblock.rows

theorem sameLogicalTable_eq {first first' candidate candidate' : DocumentBlock α}
    (hfirst : SameBlock first first') (hcandidate : SameBlock candidate candidate') :
    sameLogicalTable first candidate = sameLogicalTable first' candidate' := by
  unfold sameLogicalTable
  rw [hfirst.group, hcandidate.group]

theorem sameRows_logicalRows {blocks blocks' : List (DocumentBlock α)}
    (h : List.Forall₂ SameBlock blocks blocks') (index : Nat) :
    List.Forall₂ SameRow (logicalRows blocks index) (logicalRows blocks' index) := by
  have hfold : ∀ {l l' : List (DocumentBlock α)}, List.Forall₂ SameBlock l l' →
      ∀ {rows rows' : List (TableRow α)}, List.Forall₂ SameRow rows rows' →
      List.Forall₂ SameRow (l.foldl addFragment rows) (l'.foldl addFragment rows') := by
    intro l l' hl
    induction hl with
    | nil => exact fun hrows => hrows
    | cons hblock _ ih => exact fun hrows => ih (sameRows_addFragment hrows hblock)
  have hfilter : ∀ {first first' : DocumentBlock α}, SameBlock first first' →
      ∀ {l l' : List (DocumentBlock α)}, List.Forall₂ SameBlock l l' →
      List.Forall₂ SameBlock (l.filter (sameLogicalTable first))
        (l'.filter (sameLogicalTable first')) := by
    intro first first' hfirst l l' hl
    induction hl with
    | nil => exact .nil
    | cons hblock _ ih =>
      rw [List.filter_cons, List.filter_cons, ← sameLogicalTable_eq hfirst hblock]
      split
      · exact .cons hblock ih
      · exact ih
  have hdrop := List.forall₂_drop index h
  unfold logicalRows
  generalize blocks.drop index = l, blocks'.drop index = l' at hdrop
  cases hdrop with
  | nil => exact .nil
  | cons hfirst hrest => exact hfold (.cons hfirst (hfilter hfirst hrest)) .nil

theorem isContinuationAlreadyWritten_eq {blocks blocks' : List (DocumentBlock α)}
    (h : List.Forall₂ SameBlock blocks blocks') {index : Nat} {block block' : DocumentBlock α}
    (hblock : blocks[index]? = some block) (hblock' : blocks'[index]? = some block')
    (hsame : SameBlock block block') :
    isContinuationAlreadyWritten blocks index = isContinuationAlreadyWritten blocks' index := by
  unfold isContinuationAlreadyWritten
  rw [hblock, hblock']
  have htake := List.forall₂_take index h
  dsimp only
  generalize blocks.take index = l, blocks'.take index = l' at htake
  induction htake with
  | nil => rfl
  | cons hprevious _ ih => rw [List.any_cons, List.any_cons, sameLogicalTable_eq hsame hprevious, ih]

/-- Forests with the same tags before forests with the same tags. -/
theorem foldr_tagList {τ : Type} {σ : Type} {r : τ → σ → Prop} {forest : τ → Forest → Forest}
    {forest' : σ → Forest → Forest}
    (h : ∀ x x', r x x' → ∀ next next' : Forest, next.tagList = next'.tagList →
      (forest x next).tagList = (forest' x' next').tagList)
    {l : List τ} {l' : List σ} (hl : List.Forall₂ r l l') (next next' : Forest)
    (hnext : next.tagList = next'.tagList) :
    (l.foldr forest next).tagList = (l'.foldr forest' next').tagList := by
  induction hl with
  | nil => exact hnext
  | cons hx _ ih => exact h _ _ hx _ _ ih

theorem cellForest_tagList {row row' : TableRow α} (hrow : row.isHeader = row'.isHeader)
    (cell cell' : TableCell α) (hcell : SameCell cell cell') (next next' : Forest)
    (h : next.tagList = next'.tagList) :
    (cellForest row cell next).tagList = (cellForest row' cell' next').tagList := by
  simp [cellForest, Forest.tagList, cellTag, spanAttributes, hrow, hcell.isHeader, hcell.rowSpan,
    hcell.columnSpan, h]

theorem rowForest_tagList (row row' : TableRow α) (hrow : SameRow row row') (next next' : Forest)
    (h : next.tagList = next'.tagList) :
    (rowForest row next).tagList = (rowForest row' next').tagList := by
  have hcells := foldr_tagList (cellForest_tagList hrow.isHeader) hrow.cells
    (.text "    ".toList .nil) (.text "    ".toList .nil) rfl
  unfold rowForest
  simp only [Forest.tagList, hcells, h]

theorem sectionForest_tagList (name : List Char) {rows rows' : List (TableRow α)}
    (hrows : List.Forall₂ SameRow rows rows') (next next' : Forest)
    (h : next.tagList = next'.tagList) :
    (sectionForest name rows next).tagList = (sectionForest name rows' next').tagList := by
  have htags := foldr_tagList rowForest_tagList hrows (.text "  ".toList .nil)
    (.text "  ".toList .nil) rfl
  have hempty : rows.isEmpty = rows'.isEmpty := by
    cases hrows <;> rfl
  unfold sectionForest
  rw [← hempty]
  split
  · exact h
  · simp only [Forest.tagList, htags, h]

theorem tableForest_tagList {rows rows' : List (TableRow α)}
    (hrows : List.Forall₂ SameRow rows rows') {next next' : Forest}
    (h : next.tagList = next'.tagList) :
    (tableForest rows next).tagList = (tableForest rows' next').tagList := by
  obtain ⟨hhead, hbody⟩ := sameRows_dropWhile hrows
  have hsections := sectionForest_tagList "thead".toList hhead _ _
    (sectionForest_tagList "tbody".toList hbody .nil .nil rfl)
  unfold tableForest
  simp only [Forest.tagList, hsections, h]

theorem blockForest_tagList {blocks blocks' : List (DocumentBlock α)}
    (hblocks : List.Forall₂ SameBlock blocks blocks') (index : Nat) (next next' : Forest)
    (h : next.tagList = next'.tagList) :
    (blockForest blocks index next).tagList = (blockForest blocks' index next').tagList := by
  unfold blockForest
  cases hblock : blocks[index]? with
  | none =>
    have hnone : blocks'[index]? = none := by
      rw [List.getElem?_eq_none_iff] at hblock ⊢
      rwa [← hblocks.length_eq]
    rw [hnone]
    exact h
  | some block =>
    obtain ⟨hi, rfl⟩ := List.getElem?_eq_some_iff.mp hblock
    have hi' := hblocks.length_eq ▸ hi
    have hblock' : blocks'[index]? = some blocks'[index] := List.getElem?_eq_getElem hi'
    have hsame : SameBlock blocks[index] blocks'[index] :=
      (List.forall₂_iff_get.mp hblocks).2 index hi hi'
    have htable : isTableBlock blocks[index] = isTableBlock blocks'[index] := by
      unfold isTableBlock
      rw [hsame.type, hsame.hasTable]
    rw [hblock']
    dsimp only
    rw [← htable, ← isContinuationAlreadyWritten_eq hblocks hblock hblock' hsame]
    split_ifs
    · unfold textForest
      rw [← hsame.hasText, ← hsame.type]
      split
      · exact h
      · simp only [Forest.tagList, h]
    · exact h
    · exact tableForest_tagList (sameRows_logicalRows hblocks index) h

theorem documentForest_tagList {document document' : ParsedDocument α}
    (h : SameStructure document document') :
    (documentForest document).tagList = (documentForest document').tagList := by
  have hlength : document.blocks.length = document'.blocks.length := List.Forall₂.length_eq h
  have hsame : ∀ index index' : Nat, index = index' → ∀ next next' : Forest,
      next.tagList = next'.tagList → (blockForest document.blocks index next).tagList =
        (blockForest document'.blocks index' next').tagList := by
    rintro index _ rfl
    exact blockForest_tagList h index
  have hblocks := foldr_tagList hsame (List.forall₂_refl (List.range document.blocks.length))
    .nil .nil rfl
  rw [hlength] at hblocks
  unfold documentForest
  simp only [Forest.tagList, hlength, hblocks]

end Structure

/-- **HTML output.** Its tags are well nested and are those of any document with the same
structure. Every written row stands in one head or body of a table. The texts behind the tags with
content are, unescaped, the texts of the document in order, and all others are blank. -/
theorem html_contract {α : Type} (document : ParsedDocument α) :
    nest voidTags [] (tokenize (htmlDocument document).toList) = some [] ∧
    (∀ document' : ParsedDocument α, SameStructure document document' →
      tags (tokenize (htmlDocument document').toList) =
        tags (tokenize (htmlDocument document).toList)) ∧
    ((paths voidTags [] (tokenize (htmlDocument document).toList)).filter isRow).length =
      (writtenRows document).length ∧
    (∀ path ∈ (paths voidTags [] (tokenize (htmlDocument document).toList)).filter isRow,
      ∃ name ∈ ["thead", "tbody"],
        path = ["tr", name, "table", "body", "html"].map String.toList) ∧
    ∃ shown, Shows isContent isBlank (tokenize (htmlDocument document).toList) shown ∧
      shown.map htmlUnescape = (writtenTexts document).map String.toList := by
  obtain ⟨hnest, hpaths⟩ := Forest.nest_tokens (documentForest_clean document) [] []
  rw [List.append_nil] at hnest hpaths
  have hrows : (paths voidTags [] (documentForest document).tokens).filter isRow =
      (List.range document.blocks.length).flatMap fun index =>
        rowPaths ["body".toList, "html".toList] (rowsAt document.blocks index) := by
    rw [hpaths, List.filter_append, documentForest_paths]
    simp [paths]
  have htags : ∀ d : ParsedDocument α, tags (tokenize (htmlDocument d).toList) =
      (documentForest d).tagList := by
    intro d
    have := Forest.tags_tokens_append (documentForest d) []
    rwa [List.append_nil, show tags [] = [] from rfl, List.append_nil, ← tokenize_htmlDocument]
      at this
  have hshows := (documentForest_holds document).shows Shows.nil
  rw [List.append_nil, List.append_nil] at hshows
  rw [tokenize_htmlDocument]
  refine ⟨hnest, fun document' hsame => ?_, ?_, ?_, _, hshows, ?_⟩
  · rw [htags, ← tokenize_htmlDocument, htags]
    exact (documentForest_tagList hsame).symm
  · rw [hrows, writtenRows, List.length_flatMap, List.length_flatMap]
    refine congrArg List.sum (List.map_congr_left fun index _ => ?_)
    rw [rowPaths, List.length_append, List.length_map, List.length_map, ← List.length_append,
      headerRows_append_bodyRows]
  · intro path hpath
    rw [hrows] at hpath
    obtain ⟨index, -, hpath⟩ := List.mem_flatMap.mp hpath
    rcases List.mem_append.mp hpath with hpath | hpath
    · obtain ⟨_, -, rfl⟩ := List.mem_map.mp hpath
      exact ⟨"thead", by simp, rfl⟩
    · obtain ⟨_, -, rfl⟩ := List.mem_map.mp hpath
      exact ⟨"tbody", by simp, rfl⟩
  · unfold escapedTexts
    rw [List.map_map]
    refine List.map_congr_left fun text _ => ?_
    rw [Function.comp_apply, htmlUnescape_escape]

end DocParser.Export
