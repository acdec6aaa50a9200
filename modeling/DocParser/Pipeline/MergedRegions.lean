import DocParser.Lib.Comparators
import DocParser.Pipeline.PageStructure

/-!
# Resolved blocks

`resolvePageStructure` works with the indices of blocks. When their ids are distinct it works block
by block: a figure with an owner is dropped, and every other block grows by the figures that it
owns (`resolve_blocks_eq`). Of a table it changes the text mode (`resolve_tables_eq`).
-/

namespace DocParser.Pipeline

open Document Layout

section Blocks

variable {α : Type} [Double α]

section Definitions

variable (text : PageText α) (blocks : List (LayoutBlock α)) (tables : List (Table α))

/-- The first table that names a table block. -/
def tableOf (block : LayoutBlock α) : Option Nat :=
  if block.type == .table then tables.findIdx? fun table => table.layoutBlockId == block.id
  else none

def owns (figure block : LayoutBlock α) : Bool :=
  (tableOf tables block).isSome && (sameVisualRegion block figure &&
    sameLineOwnership α (sourceLines block text) (sourceLines figure text))

/-- The only block that owns a figure. -/
def ownerOf (figure : LayoutBlock α) : Option (LayoutBlock α) :=
  if figure.type == .figure then
    match blocks.filter (owns text tables figure) with
    | [owner] => some owner
    | _ => none
  else none

def figuresOf (block : LayoutBlock α) : List (LayoutBlock α) :=
  blocks.filter fun figure =>
    (ownerOf text blocks tables figure).any fun owner => owner.id == block.id

/-- A block with the lines and the boxes of the figures that it owns. -/
def grown (block : LayoutBlock α) : Region α :=
  ((figuresOf text blocks tables block).map fun figure => (figure, sourceLines figure text)).foldl
    (fun region figure => mergeFigure text figure region) (block, sourceLines block text)

/-- The id of every dropped figure with that of its owner. -/
def remappings : List (String × String) :=
  blocks.filterMap fun figure =>
    (ownerOf text blocks tables figure).map fun owner => (figure.id, owner.id)

end Definitions

/-! ## Blocks and their indices -/

section Indices

variable {text : PageText α} {layout : PageLayout α} {tables : PageTables α}

theorem blocks_eq_map : layout.blocks = (List.range layout.blocks.length).map (blockAt layout) :=
  (map_getD_range layout.blocks default).symm

theorem blockAt_eq {index : Nat} (h : index < layout.blocks.length) :
    blockAt layout index = layout.blocks[index] := by
  unfold blockAt
  rw [List.getD, List.getElem?_eq_getElem h, Option.getD_some]

theorem blockAt_mem {index : Nat} (h : index < layout.blocks.length) :
    blockAt layout index ∈ layout.blocks := by
  rw [blockAt_eq h]
  exact List.getElem_mem h

theorem exists_blockAt {block : LayoutBlock α} (h : block ∈ layout.blocks) :
    ∃ index < layout.blocks.length, blockAt layout index = block := by
  obtain ⟨index, hindex, rfl⟩ := List.getElem_of_mem h
  exact ⟨index, hindex, blockAt_eq hindex⟩

theorem blockAt_inj (hids : (layout.blocks.map (·.id)).Nodup) {i j : Nat}
    (hi : i < layout.blocks.length) (hj : j < layout.blocks.length) :
    (blockAt layout i).id = (blockAt layout j).id ↔ i = j := by
  have hinj := List.nodup_iff_injective_getElem.mp hids
  rw [blockAt_eq hi, blockAt_eq hj]
  refine ⟨fun h => ?_, fun h => by simp only [h]⟩
  have heq := @hinj ⟨i, by simpa using hi⟩ ⟨j, by simpa using hj⟩ (by simpa using h)
  exact congrArg Fin.val heq

omit [Double α] in
theorem eq_of_id_eq {blocks : List (LayoutBlock α)} (hids : (blocks.map (·.id)).Nodup)
    {a b : LayoutBlock α} (ha : a ∈ blocks) (hb : b ∈ blocks) (h : a.id = b.id) : a = b :=
  List.inj_on_of_nodup_map hids ha hb h

theorem blockWithId_eq (hids : (layout.blocks.map (·.id)).Nodup) {index : Nat}
    (h : index < layout.blocks.length) (id : String) :
    (blockWithId layout id == some index) = (id == (blockAt layout index).id) := by
  rw [Bool.eq_iff_iff, beq_iff_eq, beq_iff_eq]
  unfold blockWithId
  rw [List.findIdx?_eq_some_iff_getElem]
  constructor
  · rintro ⟨_, hid, -⟩
    rw [blockAt_eq h, beq_iff_eq.mp hid]
  · rintro rfl
    rw [blockAt_eq h]
    refine ⟨h, beq_self_eq_true _, fun j hj hid => ?_⟩
    have hj' := hj.trans h
    have heq := (blockAt_inj hids hj' h).mp (by
      rw [blockAt_eq hj', blockAt_eq h]
      simpa using hid)
    omega

theorem tableBlocks_eq (hids : (layout.blocks.map (·.id)).Nodup) :
    tableBlocks layout tables = (List.range layout.blocks.length).filterMap fun index =>
      (tableOf tables.tables (blockAt layout index)).map fun table => (index, table) := by
  unfold tableBlocks tableOf
  refine List.filterMap_congr fun index hindex => ?_
  have hname : (fun table : Table α => blockWithId layout table.layoutBlockId == some index) =
      fun table => table.layoutBlockId == (blockAt layout index).id := by
    funext table
    exact blockWithId_eq hids (List.mem_range.mp hindex) _
  rw [hname]
  split <;> rfl

theorem mem_tableBlocks_iff (hids : (layout.blocks.map (·.id)).Nodup) {owner : Nat × Nat} :
    owner ∈ tableBlocks layout tables ↔ owner.1 < layout.blocks.length ∧
      tableOf tables.tables (blockAt layout owner.1) = some owner.2 := by
  rw [tableBlocks_eq hids, List.mem_filterMap]
  constructor
  · rintro ⟨index, hindex, howner⟩
    obtain ⟨table, htable, rfl⟩ := Option.map_eq_some_iff.mp howner
    exact ⟨List.mem_range.mp hindex, htable⟩
  · rintro ⟨hlt, htable⟩
    exact ⟨owner.1, List.mem_range.mpr hlt, by rw [htable]; rfl⟩

/-- A filter of indexed results, by their indices. -/
theorem map_fst_filter_filterMap (g : Nat → Option Nat) (q : Nat → Bool) (l : List Nat) :
    ((l.filterMap fun i => (g i).map fun k => (i, k)).filter fun p => q p.1).map Prod.fst =
      l.filter fun i => (g i).isSome && q i := by
  induction l with
  | nil => rfl
  | cons i l ih =>
    cases hg : g i with
    | none => simp [hg, ih]
    | some k => cases hq : q i <;> simp [hg, hq, ih]

theorem map_blockAt_owners (hids : (layout.blocks.map (·.id)).Nodup) (index : Nat) :
    ((tableBlocks layout tables).filter (isOwner text layout index)).map
        (fun owner => blockAt layout owner.1) =
      layout.blocks.filter (owns text tables.tables (blockAt layout index)) := by
  have hfst := map_fst_filter_filterMap (fun i => tableOf tables.tables (blockAt layout i))
    (fun i => sameVisualRegion (blockAt layout i) (blockAt layout index) &&
      sameLineOwnership α (sourceLines (blockAt layout i) text)
        (sourceLines (blockAt layout index) text)) (List.range layout.blocks.length)
  conv_rhs => rw [blocks_eq_map, List.filter_map]
  rw [tableBlocks_eq hids]
  exact List.map_map.symm.trans (congrArg (List.map (blockAt layout)) hfst)

theorem ownerOf_eq (hids : (layout.blocks.map (·.id)).Nodup) (index : Nat) :
    ownerOf text layout.blocks tables.tables (blockAt layout index) =
      (figureOwner text layout tables index).map fun owner => blockAt layout owner.1 := by
  unfold ownerOf figureOwner
  rw [← map_blockAt_owners hids]
  split
  · rcases (tableBlocks layout tables).filter (isOwner text layout index) with
      _ | ⟨owner, _ | ⟨other, rest⟩⟩ <;> rfl
  · rfl

/-- An owner is a table block, so it is not the figure itself. -/
theorem ownerOf_spec {blocks : List (LayoutBlock α)} {tables : List (Table α)}
    {figure owner : LayoutBlock α} (h : ownerOf text blocks tables figure = some owner) :
    figure.type = .figure ∧ blocks.filter (owns text tables figure) = [owner] := by
  unfold ownerOf at h
  split at h
  next htype =>
    split at h
    next found howners =>
      obtain rfl := Option.some.inj h
      exact ⟨beq_iff_eq.mp htype, howners⟩
    · cases h
  · cases h

theorem ownerOf_mem {blocks : List (LayoutBlock α)} {tables : List (Table α)}
    {figure owner : LayoutBlock α} (h : ownerOf text blocks tables figure = some owner) :
    owner ∈ blocks ∧ owns text tables figure owner = true := by
  have hmem : owner ∈ blocks.filter (owns text tables figure) :=
    (ownerOf_spec h).2 ▸ List.mem_singleton_self owner
  exact List.mem_filter.mp hmem

omit [Double α] in
theorem tableOf_type {tables : List (Table α)} {block : LayoutBlock α}
    (h : (tableOf tables block).isSome = true) : block.type = .table := by
  unfold tableOf at h
  split at h
  next htype => exact beq_iff_eq.mp htype
  · cases h

theorem owns_type {tables : List (Table α)} {figure block : LayoutBlock α}
    (h : owns text tables figure block = true) : block.type = .table :=
  tableOf_type (Bool.and_eq_true_iff.mp h).1

theorem isReplaced_eq (hids : (layout.blocks.map (·.id)).Nodup) {index : Nat}
    (h : index < layout.blocks.length) : isReplaced text layout tables index =
      (ownerOf text layout.blocks tables.tables (blockAt layout index)).isSome := by
  rw [ownerOf_eq hids, Bool.eq_iff_iff, isReplaced_iff, Option.isSome_map]
  constructor
  · rintro ⟨r, hr, rfl⟩
    rw [(mem_replacements.mp hr).2]
    rfl
  · intro hsome
    obtain ⟨owner, howner⟩ := Option.isSome_iff_exists.mp hsome
    exact ⟨⟨index, owner.1, owner.2⟩, mem_replacements.mpr ⟨h, howner⟩, rfl⟩

/-- The figures of a block are those whose owner has its id. -/
theorem map_figure_replacements (index : Nat) :
    ((replacements text layout tables).filter fun r => r.block == index).map (·.figure) =
      (List.range layout.blocks.length).filter fun i =>
        (figureOwner text layout tables i).any fun owner => owner.1 == index := by
  unfold replacements
  induction List.range layout.blocks.length with
  | nil => rfl
  | cons i l ih =>
    cases howner : figureOwner text layout tables i with
    | none => simp [howner, ih]
    | some owner => cases hblock : owner.1 == index <;> simp [howner, hblock, ih]

theorem mergedFigures_eq (hids : (layout.blocks.map (·.id)).Nodup) {index : Nat}
    (h : index < layout.blocks.length) : mergedFigures text layout tables index =
      (figuresOf text layout.blocks tables.tables (blockAt layout index)).map fun figure =>
        (figure, sourceLines figure text) := by
  have hfigures : ((replacements text layout tables).filter fun r => r.block == index).map
      (fun r => blockAt layout r.figure) =
      figuresOf text layout.blocks tables.tables (blockAt layout index) := by
    unfold figuresOf
    conv_rhs => rw [blocks_eq_map, List.filter_map]
    rw [← blocks_eq_map]
    refine List.map_map.symm.trans (congrArg (List.map (blockAt layout)) ?_)
    rw [map_figure_replacements]
    refine List.filter_congr fun i _ => ?_
    rw [Function.comp_apply, ownerOf_eq hids]
    cases howner : figureOwner text layout tables i with
    | none => rfl
    | some owner =>
      obtain ⟨-, htable, -⟩ := figureOwner_spec howner
      show (owner.1 == index) = ((blockAt layout owner.1).id == (blockAt layout index).id)
      rw [Bool.eq_iff_iff, beq_iff_eq, beq_iff_eq, blockAt_inj hids (mem_tableBlocks htable).1 h]
  rw [← hfigures]
  unfold mergedFigures
  rw [List.map_map]
  rfl

theorem merges_region_eq (hids : (layout.blocks.map (·.id)).Nodup) {index : Nat}
    (h : index < layout.blocks.length) : (merges text layout tables).regions[index]? =
      some (grown text layout.blocks tables.tables (blockAt layout index)) := by
  rw [merges_regions h, mergedFigures_eq hids h]
  rfl

end Indices

/-! ## What merges keep -/

section Merges

variable {text : PageText α} {layout : PageLayout α} {tables : PageTables α}

theorem mergeReplacement_id (s : Merges α) (r : Replacement) (k : Nat) :
    ((mergeReplacement text s r).regions.getD k default).1.id =
      (s.regions.getD k default).1.id := by
  unfold mergeReplacement
  simp only [List.getD, List.getElem?_modify]
  split
  · cases s.regions[k]? <;> rfl
  · simp

theorem foldl_mergeReplacement_remappedIds (rs : List Replacement) : ∀ s : Merges α,
    (rs.foldl (mergeReplacement text) s).remappedIds = s.remappedIds ++ rs.map fun r =>
      ((s.regions.getD r.figure default).1.id, (s.regions.getD r.block default).1.id) := by
  induction rs with
  | nil => simp
  | cons r rs ih =>
    intro s
    rw [List.foldl_cons, ih]
    simp only [mergeReplacement_id]
    show (s.remappedIds ++ [_]) ++ _ = _
    rw [List.append_assoc, List.map_cons]
    rfl

theorem remappedIds_eq (hids : (layout.blocks.map (·.id)).Nodup) :
    (merges text layout tables).remappedIds =
      remappings text layout.blocks tables.tables := by
  have hinit : ∀ index < layout.blocks.length,
      ((initialMerges text layout tables).regions.getD index default).1.id =
        (blockAt layout index).id := by
    intro index h
    rw [List.getD, initialMerges_regions h]
    rfl
  unfold merges
  rw [foldl_mergeReplacement_remappedIds]
  unfold remappings
  conv_rhs => rw [blocks_eq_map, List.filterMap_map]
  show [] ++ _ = _
  unfold replacements
  rw [List.nil_append, List.map_filterMap, ← blocks_eq_map]
  refine List.filterMap_congr fun index hindex => ?_
  rw [Function.comp_apply, ownerOf_eq hids]
  cases howner : figureOwner text layout tables index with
  | none => rfl
  | some owner =>
    obtain ⟨-, htable, -⟩ := figureOwner_spec howner
    simp only [Option.map_some, hinit index (List.mem_range.mp hindex),
      hinit owner.1 (mem_tableBlocks htable).1]

/-- **The resolved blocks.** A figure with an owner is dropped, and every other block grows by the
figures that it owns. -/
theorem resolve_blocks_eq (hids : (layout.blocks.map (·.id)).Nodup) :
    (resolvePageStructure text layout tables).2.1.blocks =
      (layout.blocks.filter fun block =>
        (ownerOf text layout.blocks tables.tables block).isNone).map fun block =>
          remapRelated (remappings text layout.blocks tables.tables)
            (grown text layout.blocks tables.tables block).1 := by
  conv_rhs => rw [blocks_eq_map, List.filter_map, ← blocks_eq_map]
  rw [resolve_blocks, List.map_map]
  have hfilter : (List.range layout.blocks.length).filter
      (fun index => !isReplaced text layout tables index) =
      (List.range layout.blocks.length).filter
        ((fun block => (ownerOf text layout.blocks tables.tables block).isNone) ∘
          blockAt layout) := by
    refine List.filter_congr fun index hindex => ?_
    rw [isReplaced_eq hids (List.mem_range.mp hindex), Option.not_isSome]
    rfl
  rw [hfilter]
  refine List.map_congr_left fun index hindex => ?_
  have hlt := List.mem_range.mp (List.mem_filter.mp hindex).1
  unfold resolvedBlock
  rw [List.getD, List.getElem?_map, List.getElem?_map, merges_region_eq hids hlt,
    remappedIds_eq hids]
  rfl

end Merges

/-! ## Text modes -/

section TextModes

variable {text : PageText α} {layout : PageLayout α} {tables : PageTables α}

/-- Marks in a row: an element is marked if one of its keys asks for it. -/
theorem getElem?_foldl_modify {ι τ : Type} {mark : τ → τ} (key : ι → Nat) (p : ι → τ → Bool)
    (hmark : ∀ t, mark (mark t) = mark t) (hp : ∀ i t, p i (mark t) = p i t) (k : Nat)
    (l : List ι) : ∀ ts : List τ,
    (l.foldl (fun ts i => ts.modify (key i) fun t => if p i t then mark t else t) ts)[k]? =
      ts[k]?.map fun t => if l.any fun i => key i == k && p i t then mark t else t := by
  induction l with
  | nil => simp
  | cons i l ih =>
    intro ts
    rw [List.foldl_cons, ih, List.getElem?_modify]
    cases ts[k]? with
    | none => split <;> rfl
    | some t =>
      by_cases hk : key i = k
      · cases hi : p i t <;> simp [hk, hi, hp, hmark]
      · simp [hk]

theorem foldl_mergeReplacement_tables (rs : List Replacement) : ∀ s : Merges α,
    (rs.foldl (mergeReplacement text) s).tables =
      rs.foldl (fun ts r => ts.modify r.table fun t => if true then readBySource t else t)
        s.tables := by
  induction rs with
  | nil => exact fun s => rfl
  | cons r rs ih => exact fun s => ih (mergeReplacement text s r)

/-- A table is read by its source lines when a figure is merged into its block or when its cells
lose text. -/
theorem resolve_tables_eq (k : Nat) :
    (resolvePageStructure text layout tables).2.2.tables[k]? =
      tables.tables[k]?.map fun table =>
        if ((replacements text layout tables).any fun r => r.table == k) ||
          (tableBlocks layout tables).any fun owner => owner.2 == k &&
            structureLosesSourceText
              (((merges text layout tables).regions.map (·.1)).getD owner.1 default) table text
        then readBySource table else table := by
  have hmark : ∀ table : Table α, readBySource (readBySource table) = readBySource table :=
    fun _ => rfl
  have hmerged := getElem?_foldl_modify Replacement.table (fun _ _ => true) hmark
    (fun _ _ => rfl) k (replacements text layout tables) tables.tables
  have hkept := getElem?_foldl_modify Prod.snd
    (fun (owner : Nat × Nat) (table : Table α) => structureLosesSourceText
      (((merges text layout tables).regions.map (·.1)).getD owner.1 default) table text) hmark
    (fun _ _ => rfl) k (tableBlocks layout tables) (merges text layout tables).tables
  refine hkept.trans ?_
  have htables : (merges text layout tables).tables[k]? = tables.tables[k]?.map fun table =>
      if (replacements text layout tables).any fun r => r.table == k && true
      then readBySource table else table := by
    rw [← hmerged]
    exact congrArg (·[k]?) (foldl_mergeReplacement_tables _ _)
  rw [htables, Option.map_map]
  refine congrArg (fun f => tables.tables[k]?.map f) (funext fun table => ?_)
  simp only [Bool.and_true, Function.comp_apply]
  cases (replacements text layout tables).any fun r => r.table == k with
  | false => rfl
  | true => exact ite_self _

end TextModes

end Blocks

end DocParser.Pipeline
