import Mathlib.Algebra.BigOperators.Group.Finset.Basic
import Mathlib.Algebra.Order.BigOperators.Group.Finset
import Mathlib.Order.Interval.Finset.Nat
import DocParser.Layout.Lines

/-!
# The structure of a page

`resolvePageStructure` merges a figure into the table that shows the same region, and decides
which tables are read by their source lines. `mem_blockLines_resolve`: the blocks list the same
lines afterwards. `count_blockLines_resolve`: and none of them more often.
-/

namespace DocParser.Pipeline

open Document Layout

structure PageStructureStats where
  mergedFigures : Nat
  preservedUniqueLines : Nat
  sourceTextTables : Nat
  deriving DecidableEq, Repr

section Definitions

variable {α : Type} [Double α]

def validBox (box : BBox α) : Bool := validBBox box

def area (box : BBox α) : α := (box.x1 - box.x0) * (box.y1 - box.y0)

def expand (box other : BBox α) : BBox α := expandBBox box other

def sameVisualRegion (table figure : LayoutBlock α) : Bool :=
  let intersection :=
    Double.max 0 (Double.min table.bbox.x1 figure.bbox.x1 -
      Double.max table.bbox.x0 figure.bbox.x0) *
    Double.max 0 (Double.min table.bbox.y1 figure.bbox.y1 -
      Double.max table.bbox.y0 figure.bbox.y0)
  validBox table.bbox && validBox figure.bbox &&
    decide (0.5 ≤ intersection / (area table.bbox + area figure.bbox - intersection))

/-- A `std::set<int>`, in ascending order. -/
def lineSet (lines : List Int) : List Int := lines.dedup.insertionSort (· ≤ ·)

/-- The lines of a block, if each of them is a line with a valid box. -/
def sourceLines (block : LayoutBlock α) (text : PageText α) : List Int :=
  if block.textLineIndices.all fun index =>
      inRange text index && validBox (lineBBox text index) then lineSet block.textLineIndices
  else []

/-- Two sets of lines that share four fifths of either one. -/
def sameLineOwnership (α : Type) [Double α] (table figure : List Int) : Bool :=
  let shared : α := Double.ofInt (figure.countP fun index => table.contains index : Nat)
  !table.isEmpty && !figure.isEmpty &&
    decide (0.8 ≤ shared / Double.ofInt (table.length : Int)) &&
    decide (0.8 ≤ shared / Double.ofInt (figure.length : Int))

/-- The bytes of the lines, with a line break between two of them. -/
def sourceBytes (block : LayoutBlock α) (text : PageText α) : Nat :=
  block.textLineIndices.foldl (fun bytes index =>
    match lineAt? text index with
    | none => bytes
    | some line => (if 0 < bytes then bytes + 1 else bytes) + line.text.length) 0

/-- The bytes of the cells, with a separator between two of a row and between two rows. -/
def cellBytes (table : Table α) : Nat :=
  table.rows.foldl (fun bytes row =>
    (row.cells.foldl (fun (s : Nat × Bool) cell =>
      (s.1 + (cell.text.length + if s.2 then 0 else 1), false))
      (if 0 < bytes then bytes + 1 else bytes, true)).1) 0

def isLayoutSpace (c : Char) : Bool := c == ' ' || c == '\t' || c == '\r' || c == '\n'

def hasCellText (table : Table α) : Bool :=
  table.rows.any fun row => row.cells.any fun cell => cell.text.toList.any fun c => !isLayoutSpace c

def structureLosesSourceText (block : LayoutBlock α) (table : Table α) (text : PageText α) : Bool :=
  if sourceBytes block text = 0 then false
  else
    !hasCellText table || (decide (table.rows.length ≤ block.textLineIndices.length / 2) &&
      decide ((Double.ofInt (cellBytes table : Int) : α) <
        Double.ofInt (sourceBytes block text : Int) * 0.9))

def blockAt (layout : PageLayout α) (index : Nat) : LayoutBlock α :=
  layout.blocks.getD index default

/-- The first block with an id. -/
def blockWithId (layout : PageLayout α) (id : String) : Option Nat :=
  layout.blocks.findIdx? fun block => block.id == id

/-- The table blocks, each with the first table that names it. -/
def tableBlocks (layout : PageLayout α) (tables : PageTables α) : List (Nat × Nat) :=
  (List.range layout.blocks.length).filterMap fun index =>
    if (blockAt layout index).type == .table then
      (tables.tables.findIdx? fun table =>
        blockWithId layout table.layoutBlockId == some index).map fun table => (index, table)
    else none

section Page

variable (text : PageText α) (layout : PageLayout α) (tables : PageTables α)

def isOwner (index : Nat) (p : Nat × Nat) : Bool :=
  sameVisualRegion (blockAt layout p.1) (blockAt layout index) &&
    sameLineOwnership α (sourceLines (blockAt layout p.1) text)
      (sourceLines (blockAt layout index) text)

/-- The only table that shows the figure at an index. -/
def figureOwner (index : Nat) : Option (Nat × Nat) :=
  if (blockAt layout index).type == .figure then
    match (tableBlocks layout tables).filter (isOwner text layout index) with
    | [owner] => some owner
    | _ => none
  else none

/-- A figure that is merged into a block with a table. -/
structure Replacement where
  figure : Nat
  block : Nat
  table : Nat
  deriving DecidableEq, Repr

def replacements : List Replacement :=
  (List.range layout.blocks.length).filterMap fun index =>
    (figureOwner text layout tables index).map fun owner => ⟨index, owner.1, owner.2⟩

/-- A block with the set of its source lines. -/
abbrev Region (α : Type) := LayoutBlock α × List Int

structure Merges (α : Type) where
  regions : List (Region α)
  tables : List (Table α)
  remappedIds : List (String × String)
  preservedUniqueLines : Nat

def mergeFigure (figure region : Region α) : Region α :=
  let lines := lineSet (region.2 ++ figure.2)
  ({ region.1 with
      textLineIndices := lines
      bbox := lines.foldl (fun bbox index => expand bbox (lineBBox text index)) region.1.bbox
      confidence := Double.min region.1.confidence figure.1.confidence },
    lines)

def readBySource (table : Table α) : Table α := { table with textMode := .sourceLines }

def mergeReplacement (s : Merges α) (r : Replacement) : Merges α :=
  let figure := s.regions.getD r.figure default
  let region := s.regions.getD r.block default
  { regions := s.regions.modify r.block (mergeFigure text figure)
    tables := s.tables.modify r.table readBySource
    remappedIds := s.remappedIds ++ [(figure.1.id, region.1.id)]
    preservedUniqueLines :=
      s.preservedUniqueLines + figure.2.countP fun index => !region.2.contains index }

def initialMerges : Merges α where
  regions := layout.blocks.map fun block => (block, sourceLines block text)
  tables := tables.tables
  remappedIds := []
  preservedUniqueLines := 0

/-- All merges, in the order of the figures. -/
def merges : Merges α :=
  (replacements text layout tables).foldl (mergeReplacement text) (initialMerges text layout tables)

/-- A table is read by its source lines when its cells lose text. -/
def preserveSourceText (blocks : List (LayoutBlock α)) (tables : List (Table α))
    (owner : Nat × Nat) : List (Table α) :=
  tables.modify owner.2 fun table =>
    if structureLosesSourceText (blocks.getD owner.1 default) table text then readBySource table
    else table

def remapRelated (remappedIds : List (String × String)) (block : LayoutBlock α) : LayoutBlock α :=
  match remappedIds.lookup block.relatedBlockId with
  | none => block
  | some id => { block with relatedBlockId := if id == block.id then "" else id }

def isReplaced (index : Nat) : Bool :=
  (replacements text layout tables).any fun r => r.figure == index

def resolvePageStructure : PageStructureStats × PageLayout α × PageTables α :=
  let merged := merges text layout tables
  let blocks := merged.regions.map (·.1)
  let owners := tableBlocks layout tables
  let resolvedTables := owners.foldl (preserveSourceText text blocks) merged.tables
  let related := blocks.map (remapRelated merged.remappedIds)
  let kept := (List.range layout.blocks.length).filter fun index =>
    !isReplaced text layout tables index
  ({ mergedFigures := (replacements text layout tables).length
     preservedUniqueLines := merged.preservedUniqueLines
     sourceTextTables := owners.countP fun owner =>
       (resolvedTables[owner.2]?.map (·.textMode)) == some .sourceLines },
    { layout with blocks := kept.map fun index => related.getD index default },
    { tables with tables := resolvedTables })

end Page

end Definitions

/-! ## Owners of figures -/

section Owners

variable {α : Type} [Double α] {text : PageText α} {layout : PageLayout α} {tables : PageTables α}

theorem mem_lineSet {lines : List Int} {index : Int} : index ∈ lineSet lines ↔ index ∈ lines := by
  unfold lineSet
  rw [(List.perm_insertionSort _ _).mem_iff, List.mem_dedup]

theorem lineSet_nodup (lines : List Int) : (lineSet lines).Nodup :=
  (List.perm_insertionSort _ _).nodup_iff.mpr (List.nodup_dedup lines)

/-- The set of source lines is empty or that of all lines of the block. -/
theorem mem_sourceLines {block : LayoutBlock α} (h : sourceLines block text ≠ []) {index : Int} :
    index ∈ sourceLines block text ↔ index ∈ block.textLineIndices := by
  unfold sourceLines at h ⊢
  split_ifs at h ⊢
  · exact mem_lineSet
  · exact absurd rfl h

theorem mem_tableBlocks {owner : Nat × Nat} (h : owner ∈ tableBlocks layout tables) :
    owner.1 < layout.blocks.length ∧ (blockAt layout owner.1).type = .table ∧
      owner.2 < tables.tables.length := by
  obtain ⟨index, hindex, howner⟩ := List.mem_filterMap.mp h
  split at howner
  next htype =>
    obtain ⟨table, htable, rfl⟩ := Option.map_eq_some_iff.mp howner
    have hlt := (List.findIdx?_eq_some_iff_getElem.mp htable).1
    exact ⟨List.mem_range.mp hindex, beq_iff_eq.mp htype, hlt⟩
  · cases howner

/-- An owner of a figure has a table and shares its lines. -/
theorem figureOwner_spec {index : Nat} {owner : Nat × Nat}
    (h : figureOwner text layout tables index = some owner) :
    (blockAt layout index).type = .figure ∧ owner ∈ tableBlocks layout tables ∧
      sourceLines (blockAt layout owner.1) text ≠ [] ∧
      sourceLines (blockAt layout index) text ≠ [] := by
  unfold figureOwner at h
  split at h
  next htype =>
    split at h
    next found howners =>
      obtain rfl := Option.some.inj h
      have hmem : found ∈ (tableBlocks layout tables).filter (isOwner text layout index) :=
        howners ▸ List.mem_singleton_self found
      obtain ⟨htable, howner⟩ := List.mem_filter.mp hmem
      unfold isOwner sameLineOwnership at howner
      simp only [Bool.and_eq_true, Bool.not_eq_true', List.isEmpty_eq_false_iff] at howner
      exact ⟨beq_iff_eq.mp htype, htable, howner.2.1.1.1, howner.2.1.1.2⟩
    · cases h
  · cases h

theorem mem_replacements {r : Replacement} :
    r ∈ replacements text layout tables ↔ r.figure < layout.blocks.length ∧
      figureOwner text layout tables r.figure = some (r.block, r.table) := by
  unfold replacements
  rw [List.mem_filterMap]
  constructor
  · rintro ⟨index, hindex, heq⟩
    obtain ⟨owner, howner, rfl⟩ := Option.map_eq_some_iff.mp heq
    exact ⟨List.mem_range.mp hindex, howner⟩
  · rintro ⟨hlt, howner⟩
    exact ⟨r.figure, List.mem_range.mpr hlt, by rw [howner]; rfl⟩

theorem isReplaced_iff {index : Nat} : isReplaced text layout tables index = true ↔
    ∃ r ∈ replacements text layout tables, r.figure = index := by
  unfold isReplaced
  rw [List.any_eq_true]
  simp only [beq_iff_eq]

/-- A block that figures are merged into is kept. -/
theorem figure_ne_block {r r' : Replacement} (hr : r ∈ replacements text layout tables)
    (hr' : r' ∈ replacements text layout tables) : r.figure ≠ r'.block := by
  intro heq
  obtain ⟨hfigure, -⟩ := figureOwner_spec (mem_replacements.mp hr).2
  obtain ⟨-, howner, -⟩ := figureOwner_spec (mem_replacements.mp hr').2
  have htable := (mem_tableBlocks howner).2.1
  rw [← heq, hfigure] at htable
  cases htable

end Owners

/-! ## Merged regions -/

section Regions

variable {α : Type} [Double α] {text : PageText α} {layout : PageLayout α} {tables : PageTables α}

/-- All figures of a block, merged into it one after the other. -/
theorem mergeReplacement_regions (rs : List Replacement) : ∀ (s : Merges α) (k : Nat),
    (∀ r ∈ rs, ∀ r' ∈ rs, r.figure ≠ r'.block) →
    (rs.foldl (mergeReplacement text) s).regions[k]? = s.regions[k]?.map fun region =>
      ((rs.filter fun r => r.block == k).map fun r => s.regions.getD r.figure default).foldl
        (fun region figure => mergeFigure text figure region) region := by
  induction rs with
  | nil => intro s k _; simp
  | cons r rs ih =>
    intro s k hne
    have hrest : ∀ r₁ ∈ rs, ∀ r₂ ∈ rs, r₁.figure ≠ r₂.block :=
      fun r₁ h₁ r₂ h₂ => hne r₁ (List.mem_cons_of_mem _ h₁) r₂ (List.mem_cons_of_mem _ h₂)
    have hfigures : (rs.filter fun r' => r'.block == k).map (fun r' =>
        (mergeReplacement text s r).regions.getD r'.figure default) =
        (rs.filter fun r' => r'.block == k).map fun r' => s.regions.getD r'.figure default := by
      refine List.map_congr_left fun r' hr' => ?_
      have hr'ne := hne r' (List.mem_cons_of_mem _ (List.mem_filter.mp hr').1) r
        (List.mem_cons_self ..)
      unfold mergeReplacement
      simp only [List.getD, List.getElem?_modify_ne _ _ hr'ne.symm]
    rw [List.foldl_cons, ih _ _ hrest, hfigures]
    by_cases hk : r.block = k
    · rw [List.filter_cons_of_pos (by simpa using hk), List.map_cons]
      show ((s.regions.modify r.block _)[k]?).map _ = _
      rw [hk, List.getElem?_modify_eq, Option.map_eq_map, Option.map_map]
      rfl
    · rw [List.filter_cons_of_neg (by simpa using hk)]
      show ((s.regions.modify r.block _)[k]?).map _ = _
      rw [List.getElem?_modify_ne _ _ hk]

/-- What merges change of a block. -/
structure MergedFrom (region region' : Region α) : Prop where
  id : region'.1.id = region.1.id
  type : region'.1.type = region.1.type
  sourceLabel : region'.1.sourceLabel = region.1.sourceLabel
  relatedBlockId : region'.1.relatedBlockId = region.1.relatedBlockId

variable (text) in
theorem foldl_mergeFigure (figures : List (Region α)) : ∀ region : Region α,
    MergedFrom region (figures.foldl (fun region figure => mergeFigure text figure region) region) ∧
    (∀ index, index ∈ (figures.foldl (fun region figure => mergeFigure text figure region)
        region).2 ↔ index ∈ region.2 ∨ ∃ figure ∈ figures, index ∈ figure.2) ∧
    (figures ≠ [] →
      (figures.foldl (fun region figure => mergeFigure text figure region)
          region).1.textLineIndices =
        (figures.foldl (fun region figure => mergeFigure text figure region) region).2 ∧
      (figures.foldl (fun region figure => mergeFigure text figure region) region).2.Nodup) := by
  induction figures with
  | nil => exact fun region => ⟨⟨rfl, rfl, rfl, rfl⟩, by simp, fun h => absurd rfl h⟩
  | cons figure figures ih =>
    intro region
    rw [List.foldl_cons]
    obtain ⟨hmerged, hlines, hlist⟩ := ih (mergeFigure text figure region)
    refine ⟨⟨hmerged.id, hmerged.type, hmerged.sourceLabel, hmerged.relatedBlockId⟩, ?_, ?_⟩
    · intro index
      have hmem : index ∈ (mergeFigure text figure region).2 ↔
          index ∈ region.2 ∨ index ∈ figure.2 := mem_lineSet.trans List.mem_append
      rw [hlines, hmem, List.exists_mem_cons_iff]
      tauto
    · intro _
      cases figures with
      | nil => exact ⟨rfl, lineSet_nodup _⟩
      | cons next rest => exact hlist (by simp)

/-- A block after the merges and with its link remapped. -/
def resolvedBlock (text : PageText α) (layout : PageLayout α) (tables : PageTables α)
    (index : Nat) : LayoutBlock α :=
  (((merges text layout tables).regions.map (·.1)).map
    (remapRelated (merges text layout tables).remappedIds)).getD index default

theorem resolve_blocks : (resolvePageStructure text layout tables).2.1.blocks =
    ((List.range layout.blocks.length).filter fun index =>
      !isReplaced text layout tables index).map (resolvedBlock text layout tables) := rfl

theorem initialMerges_regions {index : Nat} (h : index < layout.blocks.length) :
    (initialMerges text layout tables).regions[index]? =
      some (blockAt layout index, sourceLines (blockAt layout index) text) := by
  unfold initialMerges blockAt
  rw [List.getElem?_map, List.getElem?_eq_getElem h, List.getD, List.getElem?_eq_getElem h]
  rfl

/-- The figures that are merged into a block, with their lines. -/
def mergedFigures (text : PageText α) (layout : PageLayout α) (tables : PageTables α)
    (index : Nat) : List (Region α) :=
  ((replacements text layout tables).filter fun r => r.block == index).map fun r =>
    (blockAt layout r.figure, sourceLines (blockAt layout r.figure) text)

theorem merges_regions {index : Nat} (h : index < layout.blocks.length) :
    (merges text layout tables).regions[index]? =
      some ((mergedFigures text layout tables index).foldl
        (fun region figure => mergeFigure text figure region)
        (blockAt layout index, sourceLines (blockAt layout index) text)) := by
  unfold merges mergedFigures
  rw [mergeReplacement_regions _ _ _ fun r hr r' hr' => figure_ne_block hr hr',
    initialMerges_regions h, Option.map_some]
  refine congrArg some (congrArg (List.foldl _ _) (List.map_congr_left fun r hr => ?_))
  rw [List.getD, initialMerges_regions (mem_replacements.mp (List.mem_filter.mp hr).1).1,
    Option.getD_some]

omit [Double α] in
theorem remapRelated_eq (remappedIds : List (String × String)) (block : LayoutBlock α) :
    ∃ id, remapRelated remappedIds block = { block with relatedBlockId := id } := by
  unfold remapRelated
  split
  · exact ⟨block.relatedBlockId, rfl⟩
  · exact ⟨_, rfl⟩

variable (text tables) in
theorem resolvedBlock_eq {index : Nat} (h : index < layout.blocks.length) :
    ∃ id, resolvedBlock text layout tables index =
      { ((mergedFigures text layout tables index).foldl
        (fun region figure => mergeFigure text figure region)
        (blockAt layout index, sourceLines (blockAt layout index) text)).1 with
          relatedBlockId := id } := by
  unfold resolvedBlock
  rw [List.getD, List.getElem?_map, List.getElem?_map, merges_regions h]
  exact remapRelated_eq _ _

/-- **A resolved block** has its own lines and those of the figures merged into it. -/
theorem mem_resolvedBlock {index : Nat} (h : index < layout.blocks.length) {line : Int} :
    line ∈ (resolvedBlock text layout tables index).textLineIndices ↔
      line ∈ (blockAt layout index).textLineIndices ∨
        ∃ r ∈ replacements text layout tables, r.block = index ∧
          line ∈ (blockAt layout r.figure).textLineIndices := by
  obtain ⟨id, heq⟩ := resolvedBlock_eq text tables h
  obtain ⟨-, hlines, hlist⟩ := foldl_mergeFigure text
    (mergedFigures text layout tables index)
    (blockAt layout index, sourceLines (blockAt layout index) text)
  rw [heq]
  by_cases hnone : mergedFigures text layout tables index = []
  · have hno : ∀ r ∈ replacements text layout tables, r.block ≠ index := by
      intro r hr hblock
      have hmem : r ∈ (replacements text layout tables).filter fun r => r.block == index :=
        List.mem_filter.mpr ⟨hr, beq_iff_eq.mpr hblock⟩
      exact List.ne_nil_of_mem (List.mem_map_of_mem hmem) hnone
    rw [hnone]
    refine ⟨Or.inl, fun hline => hline.resolve_right ?_⟩
    rintro ⟨r, hr, hblock, -⟩
    exact hno r hr hblock
  · dsimp only
    rw [(hlist hnone).1, hlines]
    have hfigures : (∃ figure ∈ mergedFigures text layout tables index, line ∈ figure.2) ↔
        ∃ r ∈ replacements text layout tables, r.block = index ∧
          line ∈ (blockAt layout r.figure).textLineIndices := by
      unfold mergedFigures
      simp only [List.mem_map, List.mem_filter, beq_iff_eq]
      constructor
      · rintro ⟨figure, ⟨r, ⟨hr, hblock⟩, rfl⟩, hline⟩
        have hlines := (figureOwner_spec (mem_replacements.mp hr).2).2.2.2
        exact ⟨r, hr, hblock, (mem_sourceLines hlines).mp hline⟩
      · rintro ⟨r, hr, hblock, hline⟩
        have hlines := (figureOwner_spec (mem_replacements.mp hr).2).2.2.2
        exact ⟨_, ⟨r, ⟨hr, hblock⟩, rfl⟩, (mem_sourceLines hlines).mpr hline⟩
    obtain ⟨figure, hfigure⟩ := List.exists_mem_of_ne_nil _ hnone
    obtain ⟨r, hr, rfl⟩ := List.mem_map.mp hfigure
    obtain ⟨hr, hblock⟩ := List.mem_filter.mp hr
    have howner := (figureOwner_spec (mem_replacements.mp hr).2).2.2.1
    rw [beq_iff_eq.mp hblock] at howner
    rw [hfigures, mem_sourceLines howner]

variable (text tables) in
theorem resolvedBlock_nodup {index : Nat} (h : index < layout.blocks.length) :
    (resolvedBlock text layout tables index).textLineIndices =
        (blockAt layout index).textLineIndices ∨
      (resolvedBlock text layout tables index).textLineIndices.Nodup := by
  obtain ⟨id, heq⟩ := resolvedBlock_eq text tables h
  obtain ⟨-, -, hlist⟩ := foldl_mergeFigure text
    (mergedFigures text layout tables index)
    (blockAt layout index, sourceLines (blockAt layout index) text)
  rw [heq]
  by_cases hnone : mergedFigures text layout tables index = []
  · rw [hnone]
    exact Or.inl rfl
  · obtain ⟨hlines, hnodup⟩ := hlist hnone
    exact Or.inr (hlines ▸ hnodup)

end Regions

/-! ## The lines of the page -/

section Lines

variable {α : Type} [Double α] {text : PageText α} {layout : PageLayout α} {tables : PageTables α}

variable (layout) in
theorem mem_blockLines_blockAt {line : Int} : line ∈ blockLines layout.blocks ↔
    ∃ index < layout.blocks.length, line ∈ (blockAt layout index).textLineIndices := by
  have hblocks : layout.blocks = (List.range layout.blocks.length).map (blockAt layout) :=
    (map_getD_range layout.blocks default).symm
  conv_lhs => rw [hblocks]
  unfold blockLines
  simp only [List.mem_flatMap, List.mem_map, List.mem_range]
  constructor
  · rintro ⟨_, ⟨index, hlt, rfl⟩, hline⟩
    exact ⟨index, hlt, hline⟩
  · rintro ⟨index, hlt, hline⟩
    exact ⟨_, ⟨index, hlt, rfl⟩, hline⟩

theorem replacement_block_kept {r : Replacement} (hr : r ∈ replacements text layout tables) :
    r.block < layout.blocks.length ∧ isReplaced text layout tables r.block = false := by
  obtain ⟨-, howner, -⟩ := figureOwner_spec (mem_replacements.mp hr).2
  refine ⟨(mem_tableBlocks howner).1, Bool.eq_false_iff.mpr fun h => ?_⟩
  obtain ⟨r', hr', heq⟩ := isReplaced_iff.mp h
  exact figure_ne_block hr' hr heq

variable (text layout tables) in
/-- **Lines of the page.** The blocks list the same lines after the resolution. -/
theorem mem_blockLines_resolve (line : Int) :
    line ∈ blockLines (resolvePageStructure text layout tables).2.1.blocks ↔
      line ∈ blockLines layout.blocks := by
  rw [mem_blockLines_blockAt layout, resolve_blocks]
  unfold blockLines
  simp only [List.mem_flatMap, List.mem_map, List.mem_filter, List.mem_range, Bool.not_eq_true']
  constructor
  · rintro ⟨_, ⟨index, ⟨hlt, -⟩, rfl⟩, hline⟩
    rcases (mem_resolvedBlock hlt).mp hline with hown | ⟨r, hr, -, hfigure⟩
    · exact ⟨index, hlt, hown⟩
    · exact ⟨r.figure, (mem_replacements.mp hr).1, hfigure⟩
  · rintro ⟨index, hlt, hline⟩
    by_cases hreplaced : isReplaced text layout tables index = true
    · obtain ⟨r, hr, rfl⟩ := isReplaced_iff.mp hreplaced
      obtain ⟨hblock, hkept⟩ := replacement_block_kept hr
      exact ⟨_, ⟨r.block, ⟨hblock, hkept⟩, rfl⟩,
        (mem_resolvedBlock hblock).mpr (Or.inr ⟨r, hr, rfl, hline⟩)⟩
    · exact ⟨_, ⟨index, ⟨hlt, by simpa using hreplaced⟩, rfl⟩,
        (mem_resolvedBlock hlt).mpr (Or.inl hline)⟩

/-- The block that a figure is merged into. -/
def ownerBlock (text : PageText α) (layout : PageLayout α) (tables : PageTables α)
    (figure : Nat) : Nat :=
  ((figureOwner text layout tables figure).getD default).1

theorem ownerBlock_eq {r : Replacement} (hr : r ∈ replacements text layout tables) :
    ownerBlock text layout tables r.figure = r.block := by
  unfold ownerBlock
  rw [(mem_replacements.mp hr).2]
  rfl

open Finset in
/-- A kept block lists a line at most as often as it and its figures did. -/
theorem count_resolvedBlock {index : Nat} (h : index < layout.blocks.length) (line : Int) :
    (resolvedBlock text layout tables index).textLineIndices.count line ≤
      (blockAt layout index).textLineIndices.count line +
        ∑ figure ∈ (range layout.blocks.length).filter fun figure =>
            isReplaced text layout tables figure = true with
          ownerBlock text layout tables figure = index,
          (blockAt layout figure).textLineIndices.count line := by
  rcases resolvedBlock_nodup text tables h with hsame | hnodup
  · rw [hsame]
    exact Nat.le_add_right _ _
  by_cases hline : line ∈ (resolvedBlock text layout tables index).textLineIndices
  · rw [List.count_eq_one_of_mem hnodup hline]
    rcases (mem_resolvedBlock h).mp hline with hown | ⟨r, hr, hblock, hfigure⟩
    · exact (List.count_pos_iff.mpr hown).trans_le (Nat.le_add_right _ _)
    · have hmem : r.figure ∈ {figure ∈ (range layout.blocks.length).filter fun figure =>
          isReplaced text layout tables figure = true |
          ownerBlock text layout tables figure = index} :=
        mem_filter.mpr ⟨mem_filter.mpr ⟨mem_range.mpr (mem_replacements.mp hr).1,
          isReplaced_iff.mpr ⟨r, hr, rfl⟩⟩, (ownerBlock_eq hr).trans hblock⟩
      have hsum := single_le_sum (f := fun figure =>
        (blockAt layout figure).textLineIndices.count line) (fun _ _ => Nat.zero_le _) hmem
      exact ((List.count_pos_iff.mpr hfigure).trans_le hsum).trans_le (Nat.le_add_left _ _)
  · rw [List.count_eq_zero_of_not_mem hline]
    exact Nat.zero_le _

omit [Double α] in
open Finset in
/-- The count of a line over blocks of some indices. -/
theorem count_blockLines_map (block : Nat → LayoutBlock α) (p : Nat → Bool) (n : Nat) (line : Int) :
    (blockLines (((List.range n).filter p).map block)).count line =
      ∑ index ∈ (range n).filter fun index => p index = true,
        (block index).textLineIndices.count line := by
  unfold blockLines
  rw [List.flatMap_map, List.count_flatMap, ← List.sum_toFinset _ (List.nodup_range.filter p),
    List.toFinset_filter, List.toFinset_range]
  rfl

open Finset in
variable (text layout tables) in
/-- **Lines of the page.** No line is listed more often after the resolution. -/
theorem count_blockLines_resolve (line : Int) :
    (blockLines (resolvePageStructure text layout tables).2.1.blocks).count line ≤
      (blockLines layout.blocks).count line := by
  have hblocks : layout.blocks = ((List.range layout.blocks.length).filter fun _ => true).map
      (blockAt layout) := by
    rw [List.filter_true]
    exact (map_getD_range layout.blocks default).symm
  have htotal : (blockLines layout.blocks).count line =
      ∑ index ∈ range layout.blocks.length, (blockAt layout index).textLineIndices.count line := by
    conv_lhs => rw [hblocks]
    rw [count_blockLines_map, filter_true_of_mem fun _ _ => rfl]
  have hmaps : ∀ figure ∈ (range layout.blocks.length).filter fun figure =>
      isReplaced text layout tables figure = true,
      ownerBlock text layout tables figure ∈ (range layout.blocks.length).filter fun index =>
        ¬ isReplaced text layout tables index = true := by
    intro figure hfigure
    obtain ⟨r, hr, rfl⟩ := isReplaced_iff.mp (mem_filter.mp hfigure).2
    obtain ⟨hblock, hkept⟩ := replacement_block_kept hr
    rw [ownerBlock_eq hr]
    exact mem_filter.mpr ⟨mem_range.mpr hblock, Bool.eq_false_iff.mp hkept⟩
  rw [resolve_blocks, count_blockLines_map, htotal]
  simp only [Bool.not_eq_true', Bool.eq_false_iff]
  calc ∑ index ∈ range layout.blocks.length with ¬ isReplaced text layout tables index = true,
        (resolvedBlock text layout tables index).textLineIndices.count line
    _ ≤ _ := sum_le_sum fun index hindex =>
        count_resolvedBlock (mem_range.mp (mem_filter.mp hindex).1) line
    _ = _ := by rw [sum_add_distrib, sum_fiberwise_of_maps_to hmaps, add_comm,
        sum_filter_add_sum_filter_not]

end Lines

end DocParser.Pipeline
