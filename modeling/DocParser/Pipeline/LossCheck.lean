import DocParser.Assembly.DocumentAssembler
import DocParser.Pipeline.PageConservation

/-!
# The check for lost text

`structureLosesSourceText` counts the bytes of a block's lines and of a table's cells without
joining them. `loss_check_measures`: the counts are the sizes of the texts that the assembler
joins, so that a table that stays in cell mode loses no more than the check allows.
-/

namespace DocParser.Pipeline

open Document Assembly

section Sizes

variable {α : Type}

theorem length_appendPart (text part : String) : (appendPart text part).length =
    (if 0 < text.length then text.length + 1 else text.length) + part.length := by
  unfold appendPart
  rw [String.length_append]
  by_cases h : text.isEmpty = true
  · rw [String.isEmpty_iff] at h
    simp [h]
  · have hpos : 0 < text.length := by
      rw [Nat.pos_iff_ne_zero, Ne, String.length_eq_zero_iff]
      simpa using h
    rw [if_neg h, if_pos hpos, String.length_append]
    rfl

/-- The count of the lines is the size of the joined lines. -/
theorem foldl_line_bytes (text : PageText α) (indices : List Int) : ∀ joined : String,
    indices.foldl (fun bytes index =>
      match lineAt? text index with
      | none => bytes
      | some line => (if 0 < bytes then bytes + 1 else bytes) + line.text.length)
      joined.length =
    (indices.foldl (fun joined index =>
      match lineAt? text index with
      | none => joined
      | some line => appendPart joined line.text) joined).length := by
  induction indices with
  | nil => exact fun _ => rfl
  | cons index indices ih =>
    intro joined
    rw [List.foldl_cons, List.foldl_cons, ← ih]
    cases lineAt? text index with
    | none => rfl
    | some line =>
      dsimp only
      rw [length_appendPart]

theorem length_intercalate_tab (t : String) (texts : List String) : ∀ bytes : Nat,
    bytes + ("\t".intercalate (t :: texts)).length =
      texts.foldl (fun bytes text => bytes + (text.length + 1)) (bytes + t.length) := by
  induction texts generalizing t with
  | nil =>
    intro bytes
    rw [String.intercalate_singleton]
    rfl
  | cons u texts ih =>
    intro bytes
    rw [String.intercalate_cons_cons, List.foldl_cons, String.length_append, String.length_append]
    have htail := ih u (bytes + t.length + 1)
    have htab : "\t".length = 1 := rfl
    rw [show bytes + t.length + (u.length + 1) = bytes + t.length + 1 + u.length by omega, ← htail]
    omega

/-- The cells of a row, of which only the first one has no separator. -/
theorem foldl_cell_bytes (cells : List (TableCell α)) (bytes : Nat) :
    (cells.foldl (fun (s : Nat × Bool) cell =>
      (s.1 + (cell.text.length + if s.2 then 0 else 1), false)) (bytes, true)).1 =
      bytes + ("\t".intercalate (cells.map (·.text))).length := by
  cases cells with
  | nil => rfl
  | cons first cells =>
    rw [List.map_cons, length_intercalate_tab, List.foldl_cons]
    have hrest : ∀ (cells : List (TableCell α)) (bytes : Nat),
        (cells.foldl (fun (s : Nat × Bool) cell =>
          (s.1 + (cell.text.length + if s.2 then 0 else 1), false)) (bytes, false)).1 =
          (cells.map (·.text)).foldl (fun bytes text => bytes + (text.length + 1)) bytes := by
      intro cells
      induction cells with
      | nil => exact fun _ => rfl
      | cons cell cells ih => exact fun bytes => ih _
    exact hrest cells _

/-- **Source bytes.** -/
theorem sourceBytes_eq_length (block : LayoutBlock α) (text : PageText α) :
    sourceBytes block text = (joinLayoutBlockText text block).length :=
  foldl_line_bytes text block.textLineIndices ""

theorem foldl_row_bytes (rows : List (TableRow α)) : ∀ text : String,
    rows.foldl (fun bytes row =>
      (row.cells.foldl (fun (s : Nat × Bool) cell =>
        (s.1 + (cell.text.length + if s.2 then 0 else 1), false))
        (if 0 < bytes then bytes + 1 else bytes, true)).1) text.length =
    (rows.foldl (fun text row =>
      appendPart text ("\t".intercalate (row.cells.map (·.text)))) text).length := by
  induction rows with
  | nil => exact fun _ => rfl
  | cons row rows ih =>
    intro text
    rw [List.foldl_cons, List.foldl_cons, ← ih, foldl_cell_bytes, length_appendPart]

/-- **Cell bytes.** -/
theorem cellBytes_eq_length (table : Table α) : cellBytes table = (tableText table).length :=
  foldl_row_bytes table.rows ""

end Sizes

/-! ## Visible characters -/

section Visible

variable {α : Type} {c : Char}

theorem mem_intercalate_tab {t : String} {texts : List String} (ht : t ∈ texts)
    (hc : c ∈ t.toList) : c ∈ ("\t".intercalate texts).toList := by
  induction texts with
  | nil => exact absurd ht List.not_mem_nil
  | cons u texts ih =>
    cases texts with
    | nil =>
      rw [String.intercalate_singleton, ← List.mem_singleton.mp ht]
      exact hc
    | cons v texts =>
      rw [String.intercalate_cons_cons, String.toList_append]
      rcases List.mem_cons.mp ht with rfl | ht
      · rw [String.toList_append]
        exact List.mem_append_left _ (List.mem_append_left _ hc)
      · exact List.mem_append_right _ (ih ht)

theorem mem_appendPart {text part : String} (h : c ∈ text.toList ∨ c ∈ part.toList) :
    c ∈ (appendPart text part).toList := by
  unfold appendPart
  rw [String.toList_append, List.mem_append]
  refine h.imp_left fun htext => ?_
  split_ifs
  · exact htext
  · rw [String.toList_append]
    exact List.mem_append_left _ htext

theorem mem_foldl_appendPart (part : TableRow α → String) (rows : List (TableRow α)) :
    ∀ text : String, (c ∈ text.toList ∨ ∃ row ∈ rows, c ∈ (part row).toList) →
      c ∈ (rows.foldl (fun text row => appendPart text (part row)) text).toList := by
  induction rows with
  | nil =>
    rintro text (h | ⟨row, hrow, -⟩)
    · exact h
    · exact absurd hrow List.not_mem_nil
  | cons row rows ih =>
    rintro text (h | ⟨other, hother, hc⟩)
    · exact ih _ (.inl (mem_appendPart (.inl h)))
    · rcases List.mem_cons.mp hother with rfl | hother
      · exact ih _ (.inl (mem_appendPart (.inr hc)))
      · exact ih _ (.inr ⟨other, hother, hc⟩)

/-- A visible character of a cell is one of the joined cells. -/
theorem visible_of_hasCellText {table : Table α} (h : hasCellText table = true) :
    ∃ c ∈ (tableText table).toList, isLayoutSpace c = false := by
  obtain ⟨row, hrow, hcells⟩ := List.any_eq_true.mp h
  obtain ⟨cell, hcell, hchars⟩ := List.any_eq_true.mp hcells
  obtain ⟨c, hc, hvisible⟩ := List.any_eq_true.mp hchars
  exact ⟨c, mem_foldl_appendPart _ table.rows "" (.inr ⟨row, hrow,
    mem_intercalate_tab (List.mem_map_of_mem hcell) hc⟩), by simpa using hvisible⟩

end Visible

/-! ## Tables in cell mode -/

section Cells

variable {α : Type} [Double α] {text : PageText α} {layout : PageLayout α} {tables : PageTables α}

/-- What the check allows for a table in cell mode. -/
structure KeepsText (text : PageText α) (block : LayoutBlock α) (table : Table α) : Prop where
  visible : ∃ c ∈ (tableText table).toList, isLayoutSpace c = false
  long : 2 * table.rows.length ≤ block.textLineIndices.length →
    ¬ (Double.ofInt ((tableText table).length : Int) : α) <
      Double.ofInt ((joinLayoutBlockText text block).length : Int) * 0.9

theorem keepsText_of_check {block : LayoutBlock α} {table : Table α}
    (hcheck : structureLosesSourceText block table text = false)
    (hsource : joinLayoutBlockText text block ≠ "") : KeepsText text block table := by
  have hbytes : sourceBytes block text ≠ 0 := by
    rw [sourceBytes_eq_length, Ne, String.length_eq_zero_iff]
    exact hsource
  unfold structureLosesSourceText at hcheck
  rw [if_neg hbytes, Bool.or_eq_false_iff, sourceBytes_eq_length, cellBytes_eq_length] at hcheck
  refine ⟨visible_of_hasCellText (by simpa using hcheck.1), fun hlines => ?_⟩
  have hhalf : table.rows.length ≤ block.textLineIndices.length / 2 := by omega
  simpa [hhalf] using hcheck.2

variable (text tables) in
/-- The resolution changes no id, no type and no line of a block beyond the merges. -/
theorem resolvedBlock_lines {index : Nat} (h : index < layout.blocks.length) :
    (resolvedBlock text layout tables index).id = (blockAt layout index).id ∧
      (resolvedBlock text layout tables index).type = (blockAt layout index).type ∧
      (resolvedBlock text layout tables index).textLineIndices =
        (((merges text layout tables).regions.map Prod.fst).getD index default).textLineIndices := by
  obtain ⟨id, hresolved⟩ := resolvedBlock_eq text tables h
  have hmerged := (foldl_mergeFigure text (mergedFigures text layout tables index)
    (blockAt layout index, sourceLines (blockAt layout index) text)).1
  rw [hresolved, List.getD_eq_getElem?_getD, List.getElem?_map, merges_regions h]
  exact ⟨hmerged.id, hmerged.type, rfl⟩

/-- The block of a table is the first one with the name that the table gives. -/
theorem tableBlocks_names {owner : Nat × Nat} (h : owner ∈ tableBlocks layout tables) :
    ∃ table, tables.tables[owner.2]? = some table ∧
      table.layoutBlockId = (blockAt layout owner.1).id ∧
      ∀ j < owner.2, ∀ other, tables.tables[j]? = some other →
        other.layoutBlockId ≠ (blockAt layout owner.1).id := by
  obtain ⟨index, hindex, howner⟩ := List.mem_filterMap.mp h
  split at howner
  · obtain ⟨k, hk, rfl⟩ := Option.map_eq_some_iff.mp howner
    obtain ⟨hlt, hnamed, hfirst⟩ := List.findIdx?_eq_some_iff_getElem.mp hk
    have hid : tables.tables[k].layoutBlockId = (blockAt layout index).id := by
      rw [beq_iff_eq] at hnamed
      unfold blockWithId at hnamed
      obtain ⟨hlt', heq, -⟩ := List.findIdx?_eq_some_iff_getElem.mp hnamed
      unfold blockAt
      rw [List.getD, List.getElem?_eq_getElem hlt']
      exact (beq_iff_eq.mp heq).symm
    refine ⟨tables.tables[k], List.getElem?_eq_getElem hlt, hid, fun j hj other hother hname => ?_⟩
    obtain ⟨hjlt, rfl⟩ := List.getElem?_eq_some_iff.mp hother
    refine hfirst j hj ?_
    rw [hname, ← hid]
    exact hnamed
  · cases howner

theorem findTable_resolve {owner : Nat × Nat} (h : owner ∈ tableBlocks layout tables)
    {table : Table α} (htable : (resolvePageStructure text layout tables).2.2.tables[owner.2]? =
      some table) :
    findTableForLayoutBlock (resolvePageStructure text layout tables).2.2
      (blockAt layout owner.1).id = some table := by
  obtain ⟨old, hold, hname, hfirst⟩ := tableBlocks_names h
  have hnames : ∀ k : Nat,
      (resolvePageStructure text layout tables).2.2.tables[k]?.map (·.layoutBlockId) =
        tables.tables[k]?.map (·.layoutBlockId) := by
    intro k
    rw [← List.getElem?_map, ← List.getElem?_map, resolve_tableNames]
  unfold findTableForLayoutBlock
  obtain ⟨hlt, rfl⟩ := List.getElem?_eq_some_iff.mp htable
  rw [List.find?_eq_some_iff_getElem]
  refine ⟨?_, owner.2, hlt, rfl, fun j hj => ?_⟩
  · have hown := hnames owner.2
    rw [htable, hold] at hown
    rw [beq_iff_eq, ← hname]
    exact Option.some.inj hown
  · have hother := hnames j
    rw [List.getElem?_eq_getElem (hj.trans hlt)] at hother
    obtain ⟨other, hget, heq⟩ := Option.map_eq_some_iff.mp hother.symm
    simpa [← heq] using hfirst j hj other hget

/-- **The check for lost text.** Its counts are the sizes of the joined texts. A table that the
resolution leaves in cell mode has a visible character, and nine tenths of the text of its block
unless the block has less than two lines for each row. -/
theorem loss_check_measures (text : PageText α) (layout : PageLayout α) (tables : PageTables α) :
    (∀ (block : LayoutBlock α) (table : Table α),
      sourceBytes block text = (joinLayoutBlockText text block).length ∧
        cellBytes table = (tableText table).length) ∧
      ∀ owner ∈ tableBlocks layout tables, ∀ table,
        (resolvePageStructure text layout tables).2.2.tables[owner.2]? = some table →
        table.textMode = .cells →
          ∃ block ∈ (resolvePageStructure text layout tables).2.1.blocks,
            block.id = table.layoutBlockId ∧
            (∀ page : PipelinePageArtifacts α,
              page.tables = (resolvePageStructure text layout tables).2.2 → ∀ id ids,
                (makeDocumentBlock page block id ids).text = tableText table) ∧
            (joinLayoutBlockText text block ≠ "" → KeepsText text block table) := by
  refine ⟨fun block table => ⟨sourceBytes_eq_length block text, cellBytes_eq_length table⟩,
    fun owner howner table htable hmode => ?_⟩
  obtain ⟨hlt, htype, -⟩ := mem_tableBlocks howner
  obtain ⟨hid, htype', hlines⟩ := resolvedBlock_lines text tables hlt
  have hfind := findTable_resolve howner htable
  have hkept : isReplaced text layout tables owner.1 = false := by
    refine Bool.eq_false_iff.mpr fun hreplaced => ?_
    obtain ⟨r, hr, heq⟩ := isReplaced_iff.mp hreplaced
    have hfigure := (figureOwner_spec (mem_replacements.mp hr).2).1
    rw [heq, htype] at hfigure
    cases hfigure
  refine ⟨resolvedBlock text layout tables owner.1, ?_, ?_, ?_, ?_⟩
  · rw [resolve_blocks]
    refine List.mem_map_of_mem (List.mem_filter.mpr ⟨List.mem_range.mpr hlt, ?_⟩)
    rw [hkept]
    rfl
  · rw [hid]
    have hname := List.find?_some (p := fun t : Table α =>
      t.layoutBlockId == (blockAt layout owner.1).id) hfind
    exact (beq_iff_eq.mp hname).symm
  · intro page htables id ids
    have hdocument : toDocumentBlockType (resolvedBlock text layout tables owner.1).type =
        .table := by
      rw [htype', htype]
      rfl
    unfold makeDocumentBlock
    dsimp only
    rw [if_pos hdocument, htables, hid, hfind]
    show (if table.textMode = .cells then tableText table else _) = _
    rw [if_pos hmode]
  · intro hsource
    refine keepsText_of_check ?_ hsource
    rw [resolve_tables_eq] at htable
    obtain ⟨old, -, heq⟩ := Option.map_eq_some_iff.mp htable
    split at heq
    · rw [← heq] at hmode
      cases hmode
    next hnot =>
      subst heq
      refine Bool.eq_false_iff.mpr fun hloses => hnot ?_
      rw [Bool.or_eq_true, List.any_eq_true, List.any_eq_true]
      refine .inr ⟨owner, howner, ?_⟩
      rw [beq_self_eq_true, Bool.true_and]
      unfold structureLosesSourceText sourceBytes at hloses ⊢
      rwa [hlines] at hloses

end Cells

/-! ## A table of two rows -/

section TwoRows

def ledgerText : PageText ℚ :=
  ⟨0, 1, true, .ocr, [⟨"Qty 3", ⟨0, 0, 50, 10⟩, .ocr, 1, []⟩, ⟨"", ⟨0, 12, 50, 20⟩, .ocr, 1, []⟩,
    ⟨"Sum 12", ⟨0, 22, 50, 30⟩, .ocr, 1, []⟩]⟩

/-- One of the indices is out of range. -/
def ledgerLayout : PageLayout ℚ :=
  ⟨0, 1, [⟨"ledger", .table, "table", "", ⟨0, 0, 50, 30⟩, 1, -1, [0, 1, 7, 2]⟩]⟩

def ledgerRow (index : Int) (texts : List String) : TableRow ℚ :=
  ⟨index, ⟨0, 0, 50, 30⟩, 1, false,
    texts.map fun text => ⟨index, 0, 1, 1, false, text, ⟨0, 0, 50, 30⟩, 1, []⟩⟩

def ledgerTable : Table ℚ :=
  ⟨"table_1", "ledger", 0, 1, ⟨0, 0, 50, 30⟩, 1, "", "", false, false, [],
    [ledgerRow 0 ["Qty", "3"], ledgerRow 1 ["Sum", "", "12"]], [], .cells⟩

def ledgerTables : PageTables ℚ := ⟨0, 1, [ledgerTable]⟩

theorem loss_check_measures_ledger :
    ∃ block ∈ (resolvePageStructure ledgerText ledgerLayout ledgerTables).2.1.blocks,
      ∃ table ∈ (resolvePageStructure ledgerText ledgerLayout ledgerTables).2.2.tables,
        tableText table = "Qty\t3\nSum\t\t12" ∧ KeepsText ledgerText block table := by
  obtain ⟨-, hcells⟩ := loss_check_measures ledgerText ledgerLayout ledgerTables
  have htables : (resolvePageStructure ledgerText ledgerLayout ledgerTables).2.2 = ledgerTables := by
    decide +kernel
  have hblocks : ∀ block ∈ (resolvePageStructure ledgerText ledgerLayout ledgerTables).2.1.blocks,
      joinLayoutBlockText ledgerText block ≠ "" := by decide +kernel
  obtain ⟨block, hblock, -, -, hkeeps⟩ := hcells (0, 0) (by decide +kernel)
    ledgerTable (by rw [htables]; rfl) rfl
  refine ⟨block, hblock, ledgerTable, ?_, by decide +kernel, hkeeps (hblocks block hblock)⟩
  rw [htables]
  exact List.mem_cons_self ..

end TwoRows

end DocParser.Pipeline
