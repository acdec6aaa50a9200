import DocParser.Common.Status
import DocParser.Document.Model

/-!
# The checks of the core model

`validateCoreModel` refuses documents that break the public contract. Its checks are kept apart,
and each has a lemma that says when it passes: `validatePages_ok`, `validateBlocks_ok`,
`validateRelations_ok` and `validateWarnings_ok`.
-/

namespace DocParser.Export

open Document

def invalidCoreModel (code message : String) : Status := ⟨code, message, "export", false⟩

/-- Returns an error when the condition holds. -/
def reject (condition : Bool) (status : Status) : Except Status Unit :=
  if condition then .error status else .ok ()

@[simp] theorem reject_eq_ok {condition : Bool} {status : Status} :
    reject condition status = .ok () ↔ condition = false := by
  unfold reject
  cases condition <;> simp

@[simp] theorem reject_bind_eq_ok {condition : Bool} {status : Status}
    {next : Unit → Except Status Unit} :
    (reject condition status >>= next) = .ok () ↔ condition = false ∧ next () = .ok () := by
  unfold reject
  cases condition
  · show next () = .ok () ↔ _
    simp
  · show (Except.error status : Except Status Unit) = .ok () ↔ _
    simp

section Definitions

variable {α : Type} [Double α]

def isLowerHex (c : Char) : Bool :=
  (decide ('0' ≤ c) && decide (c ≤ '9')) || (decide ('a' ≤ c) && decide (c ≤ 'f'))

def validSha256 (sha256 : String) : Bool := sha256.length == 64 && sha256.toList.all isLowerHex

def validateStatus (document : ParsedDocument α) : Except Status Unit :=
  reject (document.status == .partially && document.warnings.isEmpty)
    (invalidCoreModel "export.document.partial_unexplained"
      "partial document has no warning explaining the degraded result")

def validateSource (source : DocumentSource) : Except Status Unit :=
  reject (!source.sha256.isEmpty && !validSha256 source.sha256)
    (invalidCoreModel "export.document.invalid_source" "source sha256 is not lowercase hexadecimal")

/-- The checks of a page after pages with the ids and the numbers. -/
def validatePage (index : Nat) (pageIds : List String) (pageNumbers : List Int)
    (page : DocumentPage α) : Except Status Unit := do
  let location := "page at index " ++ toString index
  let invalid := invalidCoreModel "export.document.invalid_page"
  reject page.id.isEmpty (invalid (location ++ " has an empty id"))
  reject (decide (page.number ≤ 0))
    (invalid (location ++ " ('" ++ page.id ++ "') has a non-positive page number"))
  reject (!Double.isFinite page.width || !Double.isFinite page.height ||
      decide (page.width ≤ 0) || decide (page.height ≤ 0))
    (invalid (location ++ " ('" ++ page.id ++ "') has invalid dimensions"))
  reject (pageIds.contains page.id) (invalid ("duplicate page id '" ++ page.id ++ "'"))
  reject (pageNumbers.contains page.number)
    (invalid ("duplicate page number " ++ toString page.number))

def validatePages : Nat → List String → List Int → List (DocumentPage α) → Except Status Unit
  | _, _, _, [] => .ok ()
  | index, pageIds, pageNumbers, page :: rest => do
    validatePage index pageIds pageNumbers page
    validatePages (index + 1) (page.id :: pageIds) (page.number :: pageNumbers) rest

def validateBlocks : Nat → List String → List (DocumentBlock α) → Except Status Unit
  | _, _, [] => .ok ()
  | index, blockIds, block :: rest => do
    reject block.id.isEmpty (invalidCoreModel "export.document.invalid_block"
      ("block at index " ++ toString index ++ " has an empty id"))
    reject (blockIds.contains block.id) (invalidCoreModel "export.document.invalid_block"
      ("duplicate block id '" ++ block.id ++ "'"))
    validateBlocks (index + 1) (block.id :: blockIds) rest

def validateRelations (blockIds : List String) :
    Nat → List DocumentRelation → Except Status Unit
  | _, [] => .ok ()
  | index, relation :: rest => do
    let location :=
      if relation.id.isEmpty then "relation at index " ++ toString index
      else "relation '" ++ relation.id ++ "'"
    let invalid := invalidCoreModel "export.document.invalid_relation"
    reject relation.type.isEmpty (invalid (location ++ " has an empty type"))
    reject (!blockIds.contains relation.fromBlockId)
      (invalid (location ++ " references unknown from_block_id '" ++ relation.fromBlockId ++ "'"))
    reject (!blockIds.contains relation.toBlockId)
      (invalid (location ++ " references unknown to_block_id '" ++ relation.toBlockId ++ "'"))
    reject (relation.fromBlockId == relation.toBlockId)
      (invalid (location ++ " is self-referential for block '" ++ relation.fromBlockId ++ "'"))
    validateRelations blockIds (index + 1) rest

/-- The loop over the pages of a warning, after the pages `seen`. -/
def validateWarningPages (pageIds : List String) (location : String) :
    List String → List String → Except Status Unit
  | _, [] => .ok ()
  | seen, pageId :: rest => do
    let invalid := invalidCoreModel "export.document.invalid_warning"
    reject (!pageIds.contains pageId)
      (invalid (location ++ " references unknown page_id '" ++ pageId ++ "'"))
    reject (seen.contains pageId)
      (invalid (location ++ " contains duplicate page_id '" ++ pageId ++ "'"))
    validateWarningPages pageIds location (pageId :: seen) rest

def validateWarning (pageIds blockIds : List String) (index : Nat) (warning : DocumentWarning) :
    Except Status Unit := do
  let location := "warning at index " ++ toString index
  let named := location ++ " ('" ++ warning.code ++ "')"
  let invalid := invalidCoreModel "export.document.invalid_warning"
  reject warning.code.isEmpty (invalid (location ++ " has an empty code"))
  reject warning.message.isEmpty (invalid (named ++ " has an empty message"))
  reject (!warning.pageId.isEmpty && !pageIds.contains warning.pageId)
    (invalid (named ++ " references unknown page_id '" ++ warning.pageId ++ "'"))
  reject (!warning.blockId.isEmpty && !blockIds.contains warning.blockId)
    (invalid (named ++ " references unknown block_id '" ++ warning.blockId ++ "'"))
  reject (decide (warning.occurrenceCount < 1))
    (invalid (named ++ " has a non-positive occurrence_count"))
  reject (!warning.pageId.isEmpty && !warning.pageIds.isEmpty)
    (invalid (named ++ " has both page_id and page_ids"))
  validateWarningPages pageIds named [] warning.pageIds
  reject (decide (warning.occurrenceCount < warning.pageIds.length))
    (invalid (named ++ " has fewer occurrences than affected pages"))

def validateWarnings (pageIds blockIds : List String) :
    Nat → List DocumentWarning → Except Status Unit
  | _, [] => .ok ()
  | index, warning :: rest => do
    validateWarning pageIds blockIds index warning
    validateWarnings pageIds blockIds (index + 1) rest

def validateCoreModel (document : ParsedDocument α) : Except Status Unit := do
  validateStatus document
  validateSource document.source
  validatePages 0 [] [] document.pages
  validateBlocks 0 [] document.blocks
  validateRelations (document.blocks.map (·.id)) 0 document.relations
  validateWarnings (document.pages.map (·.id)) (document.blocks.map (·.id)) 0 document.warnings

end Definitions

/-! ## When the checks pass -/

section Lemmas

variable {α : Type} [Double α]

/-- Two checks pass when both do. -/
theorem bind_eq_ok {first : Except Status Unit} {next : Unit → Except Status Unit} :
    (first >>= next) = .ok () ↔ first = .ok () ∧ next () = .ok () := by
  cases first with
  | error status => simp [bind, Except.bind]
  | ok u => simp [bind, Except.bind]

/-- A page that passes by itself. -/
structure ValidPage (page : DocumentPage α) : Prop where
  id : page.id ≠ ""
  number : 0 < page.number
  finite : Double.isFinite page.width = true ∧ Double.isFinite page.height = true
  positive : ¬ page.width ≤ 0 ∧ ¬ page.height ≤ 0

theorem validatePage_ok {index : Nat} {pageIds : List String} {pageNumbers : List Int}
    {page : DocumentPage α} :
    validatePage index pageIds pageNumbers page = .ok () ↔
      ValidPage page ∧ page.id ∉ pageIds ∧ page.number ∉ pageNumbers := by
  unfold validatePage
  simp only [reject_bind_eq_ok, reject_eq_ok]
  constructor
  · rintro ⟨hid, hnumber, hsize, hfresh, hnew⟩
    simp only [Bool.or_eq_false_iff, Bool.not_eq_false', decide_eq_false_iff_not] at hsize
    exact ⟨⟨by simpa using hid, by simpa using hnumber, ⟨hsize.1.1.1, hsize.1.1.2⟩,
      ⟨hsize.1.2, hsize.2⟩⟩, by simpa using hfresh, by simpa using hnew⟩
  · rintro ⟨⟨hid, hnumber, hfinite, hpositive⟩, hfresh, hnew⟩
    refine ⟨by simpa using hid, by simpa using hnumber, ?_, by simpa using hfresh,
      by simpa using hnew⟩
    simp [hfinite.1, hfinite.2, hpositive.1, hpositive.2]

theorem validatePages_ok {pages : List (DocumentPage α)} :
    ∀ {index : Nat} {pageIds : List String} {pageNumbers : List Int},
      validatePages index pageIds pageNumbers pages = .ok () ↔
        (∀ page ∈ pages, ValidPage page ∧ page.id ∉ pageIds ∧ page.number ∉ pageNumbers) ∧
        (pages.map (·.id)).Nodup ∧ (pages.map (·.number)).Nodup := by
  induction pages with
  | nil => intros; simp [validatePages]
  | cons page rest ih =>
    intro index pageIds pageNumbers
    unfold validatePages
    rw [bind_eq_ok, validatePage_ok, ih, List.forall_mem_cons]
    simp only [List.map_cons, List.nodup_cons, List.mem_cons, List.mem_map]
    constructor
    · rintro ⟨hpage, hrest, hids, hnumbers⟩
      refine ⟨⟨hpage, fun p hp => ⟨(hrest p hp).1, fun h => (hrest p hp).2.1 (Or.inr h),
        fun h => (hrest p hp).2.2 (Or.inr h)⟩⟩, ⟨?_, hids⟩, ?_, hnumbers⟩
      · rintro ⟨p, hp, heq⟩
        exact (hrest p hp).2.1 (Or.inl heq)
      · rintro ⟨p, hp, heq⟩
        exact (hrest p hp).2.2 (Or.inl heq)
    · rintro ⟨⟨hpage, hrest⟩, ⟨hid, hids⟩, hnumber, hnumbers⟩
      refine ⟨hpage, fun p hp => ⟨(hrest p hp).1, ?_, ?_⟩, hids, hnumbers⟩
      · rintro (heq | h)
        · exact hid ⟨p, hp, heq⟩
        · exact (hrest p hp).2.1 h
      · rintro (heq | h)
        · exact hnumber ⟨p, hp, heq⟩
        · exact (hrest p hp).2.2 h

omit [Double α] in
theorem validateBlocks_ok {blocks : List (DocumentBlock α)} :
    ∀ {index : Nat} {blockIds : List String},
      validateBlocks index blockIds blocks = .ok () ↔
        (∀ block ∈ blocks, block.id ≠ "" ∧ block.id ∉ blockIds) ∧
        (blocks.map (·.id)).Nodup := by
  induction blocks with
  | nil => intros; simp [validateBlocks]
  | cons block rest ih =>
    intro index blockIds
    unfold validateBlocks
    rw [reject_bind_eq_ok, reject_bind_eq_ok, ih, List.forall_mem_cons]
    simp only [List.map_cons, List.nodup_cons, List.mem_cons, List.mem_map]
    constructor
    · rintro ⟨hid, hfresh, hrest, hids⟩
      refine ⟨⟨⟨by simpa using hid, by simpa using hfresh⟩, fun b hb => ⟨(hrest b hb).1,
        fun h => (hrest b hb).2 (Or.inr h)⟩⟩, ?_, hids⟩
      rintro ⟨b, hb, heq⟩
      exact (hrest b hb).2 (Or.inl heq)
    · rintro ⟨⟨⟨hid, hfresh⟩, hrest⟩, hnew, hids⟩
      refine ⟨by simpa using hid, by simpa using hfresh, fun b hb => ⟨(hrest b hb).1, ?_⟩, hids⟩
      rintro (heq | h)
      · exact hnew ⟨b, hb, heq⟩
      · exact (hrest b hb).2 h

/-- A relation between two blocks with the ids. -/
structure ValidRelation (blockIds : List String) (relation : DocumentRelation) : Prop where
  type : relation.type ≠ ""
  fromBlock : relation.fromBlockId ∈ blockIds
  toBlock : relation.toBlockId ∈ blockIds
  different : relation.fromBlockId ≠ relation.toBlockId

theorem validateRelations_ok {blockIds : List String} {relations : List DocumentRelation} :
    ∀ {index : Nat}, validateRelations blockIds index relations = .ok () ↔
      ∀ relation ∈ relations, ValidRelation blockIds relation := by
  induction relations with
  | nil => intros; simp [validateRelations]
  | cons relation rest ih =>
    intro index
    unfold validateRelations
    simp only [reject_bind_eq_ok]
    rw [ih, List.forall_mem_cons]
    constructor
    · rintro ⟨htype, hfrom, hto, hne, hrest⟩
      exact ⟨⟨by simpa using htype, by simpa using hfrom, by simpa using hto,
        by simpa using hne⟩, hrest⟩
    · rintro ⟨⟨htype, hfrom, hto, hne⟩, hrest⟩
      exact ⟨by simpa using htype, by simpa using hfrom, by simpa using hto,
        by simpa using hne, hrest⟩

theorem validateWarningPages_ok {pageIds : List String} {location : String}
    {pages : List String} : ∀ {seen : List String},
      validateWarningPages pageIds location seen pages = .ok () ↔
        (∀ pageId ∈ pages, pageId ∈ pageIds ∧ pageId ∉ seen) ∧ pages.Nodup := by
  induction pages with
  | nil => intros; simp [validateWarningPages]
  | cons pageId rest ih =>
    intro seen
    unfold validateWarningPages
    simp only [reject_bind_eq_ok]
    rw [ih, List.forall_mem_cons, List.nodup_cons]
    constructor
    · rintro ⟨hknown, hfresh, hrest, hnodup⟩
      refine ⟨⟨⟨by simpa using hknown, by simpa using hfresh⟩, fun p hp => ⟨(hrest p hp).1,
        fun h => (hrest p hp).2 (List.mem_cons_of_mem _ h)⟩⟩, fun hmem => ?_, hnodup⟩
      exact (hrest pageId hmem).2 (List.mem_cons_self ..)
    · rintro ⟨⟨⟨hknown, hfresh⟩, hrest⟩, hnew, hnodup⟩
      refine ⟨by simpa using hknown, by simpa using hfresh, fun p hp => ⟨(hrest p hp).1,
        fun h => ?_⟩, hnodup⟩
      rcases List.mem_cons.mp h with rfl | h
      · exact hnew hp
      · exact (hrest p hp).2 h

/-- A warning about pages and a block with the ids. -/
structure ValidWarning (pageIds blockIds : List String) (warning : DocumentWarning) : Prop where
  code : warning.code ≠ ""
  message : warning.message ≠ ""
  page : warning.pageId ≠ "" → warning.pageId ∈ pageIds
  block : warning.blockId ≠ "" → warning.blockId ∈ blockIds
  occurs : 1 ≤ warning.occurrenceCount
  onePlace : warning.pageId = "" ∨ warning.pageIds = []
  pages : ∀ pageId ∈ warning.pageIds, pageId ∈ pageIds
  pagesOnce : warning.pageIds.Nodup
  enough : warning.pageIds.length ≤ warning.occurrenceCount

theorem validateWarning_ok {pageIds blockIds : List String} {index : Nat}
    {warning : DocumentWarning} :
    validateWarning pageIds blockIds index warning = .ok () ↔
      ValidWarning pageIds blockIds warning := by
  unfold validateWarning
  simp only [bind_eq_ok, reject_eq_ok, validateWarningPages_ok]
  constructor
  · rintro ⟨hcode, hmessage, hpage, hblock, hoccurs, hplace, ⟨hpages, hnodup⟩, henough⟩
    refine ⟨by simpa using hcode, by simpa using hmessage, fun h => ?_, fun h => ?_, ?_, ?_,
      fun p hp => (hpages p hp).1, hnodup, ?_⟩
    · simpa [h] using hpage
    · simpa [h] using hblock
    · exact Nat.not_lt.mp (of_decide_eq_false hoccurs)
    · by_cases h : warning.pageId = ""
      · exact Or.inl h
      · exact Or.inr (by simpa [h] using hplace)
    · simpa using henough
  · rintro ⟨hcode, hmessage, hpage, hblock, hoccurs, hplace, hpages, hnodup, henough⟩
    refine ⟨by simpa using hcode, by simpa using hmessage, ?_, ?_,
      decide_eq_false (Nat.not_lt.mpr hoccurs), ?_,
      ⟨fun p hp => ⟨hpages p hp, by simp⟩, hnodup⟩, by simpa using henough⟩
    · by_cases h : warning.pageId = ""
      · simp [h]
      · simpa [h] using hpage h
    · by_cases h : warning.blockId = ""
      · simp [h]
      · simpa [h] using hblock h
    · rcases hplace with h | h
      · simp [h]
      · simp [h]

theorem validateWarnings_ok {pageIds blockIds : List String} {warnings : List DocumentWarning} :
    ∀ {index : Nat}, validateWarnings pageIds blockIds index warnings = .ok () ↔
      ∀ warning ∈ warnings, ValidWarning pageIds blockIds warning := by
  induction warnings with
  | nil => intros; simp [validateWarnings]
  | cons warning rest ih =>
    intro index
    unfold validateWarnings
    rw [bind_eq_ok, validateWarning_ok, ih, List.forall_mem_cons]

/-- The documents that keep the core model. -/
structure ValidCoreModel (document : ParsedDocument α) : Prop where
  explained : document.status = .partially → document.warnings ≠ []
  source : document.source.sha256 ≠ "" → validSha256 document.source.sha256 = true
  pages : ∀ page ∈ document.pages, ValidPage page
  pageIds : (document.pages.map (·.id)).Nodup
  pageNumbers : (document.pages.map (·.number)).Nodup
  blocks : ∀ block ∈ document.blocks, block.id ≠ ""
  blockIds : (document.blocks.map (·.id)).Nodup
  relations : ∀ relation ∈ document.relations,
    ValidRelation (document.blocks.map (·.id)) relation
  warnings : ∀ warning ∈ document.warnings,
    ValidWarning (document.pages.map (·.id)) (document.blocks.map (·.id)) warning

/-- **The validator** passes exactly the documents that keep the core model. -/
theorem validateCoreModel_ok {document : ParsedDocument α} :
    validateCoreModel document = .ok () ↔ ValidCoreModel document := by
  unfold validateCoreModel validateStatus validateSource
  rw [reject_bind_eq_ok, reject_bind_eq_ok, bind_eq_ok, bind_eq_ok, bind_eq_ok,
    validatePages_ok, validateBlocks_ok, validateRelations_ok, validateWarnings_ok]
  constructor
  · rintro ⟨hstatus, hsource, ⟨hpages, hids, hnumbers⟩, ⟨hblocks, hblockIds⟩, hrelations,
      hwarnings⟩
    refine ⟨fun h => ?_, fun h => ?_, fun p hp => (hpages p hp).1, hids, hnumbers,
      fun b hb => (hblocks b hb).1, hblockIds, hrelations, hwarnings⟩
    · simpa [h] using hstatus
    · simpa [h] using hsource
  · rintro ⟨hstatus, hsource, hpages, hids, hnumbers, hblocks, hblockIds, hrelations, hwarnings⟩
    refine ⟨?_, ?_, ⟨fun p hp => ⟨hpages p hp, by simp, by simp⟩, hids, hnumbers⟩,
      ⟨fun b hb => ⟨hblocks b hb, by simp⟩, hblockIds⟩, hrelations, hwarnings⟩
    · cases hs : document.status with
      | complete => rfl
      | partially => simpa [hs] using hstatus hs
    · by_cases h : document.source.sha256 = ""
      · simp [h]
      · simpa [h] using hsource h

end Lemmas

end DocParser.Export
