import DocParser.Pipeline.RunWarnings
import DocParser.Pipeline.TableBlockIds

/-!
# Restored documents

What the assembler makes of upright pages is valid, also when its boxes have been moved back to the
source and the warnings of the run have been added: `restored_valid`, `restored_artifacts` and
`applyRunMetadata_valid`.
-/

namespace DocParser.Pipeline

open Assembly Document DocumentWarning Export Layout

/-! ## Numbers and diagnostics -/

/-- The numbers of the first pages. -/
def pageNumbers (count : Nat) : List Int :=
  (List.range count).map fun index : Nat => (index : Int) + 1

section Numbers

theorem mem_pageNumbers {count : Nat} {number : Int} :
    number ∈ pageNumbers count ↔ 0 < number ∧ number ≤ count := by
  unfold pageNumbers
  rw [List.mem_map]
  constructor
  · rintro ⟨index, hindex, rfl⟩
    have hlt := List.mem_range.mp hindex
    exact ⟨by omega, by omega⟩
  · rintro ⟨hpos, hle⟩
    exact ⟨(number - 1).toNat, List.mem_range.mpr (by omega), by omega⟩

theorem pageNumbers_succ (count : Nat) :
    pageNumbers (count + 1) = pageNumbers count ++ [(count : Int) + 1] := by
  unfold pageNumbers
  rw [List.range_succ, List.map_append]
  rfl

theorem pageNumbers_nodup (count : Nat) : (pageNumbers count).Nodup :=
  List.nodup_range.map fun i j h => by simpa using h

theorem Reportable.mono {numbers numbers' : List Int} {diagnostic : Diagnostic}
    (h : Reportable numbers diagnostic) (hsub : numbers ⊆ numbers') :
    Reportable numbers' diagnostic :=
  ⟨h.code, h.message, h.page.imp_right fun hmem => hsub hmem⟩

/-- The digest of a file is lowercase hexadecimal. -/
theorem validSha256_fingerprint (chunks : List (List Fips180.Byte)) :
    validSha256 (String.ofList (fingerprint chunks)) = true := by
  have hdigit : ∀ n < 16, isLowerHex (Nat.digitChar n) = true := by decide
  have hword : ∀ value : Fips180.Word, (hexDigits value).length = 8 ∧
      ∀ c ∈ hexDigits value, isLowerHex c = true := by
    intro value
    rw [hexDigits_eq]
    unfold Fips180.hexWord
    refine ⟨by rw [List.length_map, List.length_range], fun c hc => ?_⟩
    obtain ⟨i, -, rfl⟩ := List.mem_map.mp hc
    exact hdigit _ (Nat.mod_lt _ (by decide))
  have hwords : ∀ words : List Fips180.Word,
      (words.flatMap hexDigits).length = words.length * 8 ∧
      ∀ c ∈ words.flatMap hexDigits, isLowerHex c = true := by
    intro words
    induction words with
    | nil => exact ⟨rfl, fun c hc => absurd hc List.not_mem_nil⟩
    | cons word words ih =>
      rw [List.flatMap_cons, List.length_append, List.length_cons, (hword word).1, ih.1]
      refine ⟨by omega, fun c hc => ?_⟩
      rcases List.mem_append.mp hc with hc | hc
      · exact (hword word).2 c hc
      · exact ih.2 c hc
  obtain ⟨words, hlength, heq⟩ : ∃ words : List Fips180.Word, words.length = 8 ∧
      fingerprint chunks = words.flatMap hexDigits := by
    unfold fingerprint
    rcases Nat.lt_or_ge (chunks.foldl Sha256.update Sha256.initial).blockSize 56 with hlt | hge
    · refine ⟨_, ?_, finish_short hlt⟩
      rfl
    · refine ⟨_, ?_, finish_long hge⟩
      rfl
  unfold validSha256
  rw [String.length_ofList, String.toList_ofList, heq, (hwords words).1, hlength, Bool.and_eq_true]
  exact ⟨rfl, List.all_eq_true.mpr (hwords words).2⟩

end Numbers

/-! ## Warnings -/

section WarningGroups

variable {diagnostics : List Diagnostic} {numbers : List Int} {blockIds : List String}

/-- A document with countably many pages can report any number of diagnostics. -/
theorem validWarning_of_pages
    (hreport : ∀ diagnostic ∈ diagnostics, Reportable numbers diagnostic)
    (hpages : numbers.length ≤ maximumCount) {value : DocumentWarning}
    (hvalue : value ∈ warningGrouping.collect (diagnostics.map runWarning)) :
    ValidWarning (numbers.map Assembly.pageId) blockIds (settlePage value) := by
  obtain ⟨hpageId, hnodup, hmem⟩ := collect_pages hvalue
  have hcount := collect_count (fun warning hwarning => by
    obtain ⟨diagnostic, -, rfl⟩ := List.mem_map.mp hwarning
    show 1 ≤ maximumCount
    decide) hvalue
  obtain ⟨diagnostic, hdiagnostic, hidentity⟩ : ∃ diagnostic ∈ diagnostics,
      (runWarning diagnostic).identity = value.identity := by
    have hkey : value.identity ∈
        ((diagnostics.map runWarning).map DocumentWarning.identity).eraseDups := by
      have hkeys := Grouping.collect_keys warningGrouping
        (diagnostics.map runWarning)
      exact hkeys ▸ List.mem_map_of_mem hvalue
    rw [List.mem_eraseDups, List.map_map] at hkey
    exact List.mem_map.mp hkey
  obtain ⟨hcodeEq, hmessageEq, -, hblockEq, -⟩ : (runWarning diagnostic).code = value.code ∧
      (runWarning diagnostic).message = value.message ∧
      (runWarning diagnostic).stage = value.stage ∧
      (runWarning diagnostic).blockId = value.blockId ∧
      (runWarning diagnostic).details = value.details := by
    simpa [DocumentWarning.identity] using hidentity
  have hdeclared : value.pageIds ⊆ numbers.map Assembly.pageId := fun page hpage =>
    page_declared hreport ((hmem page).mp hpage)
  -- a page is counted once, so the pages are neither more than the diagnostics nor than the pages
  have hsub : value.pageIds.length ≤
      (pagesOf value.identity (diagnostics.map runWarning)).length :=
    (hnodup.subperm fun page hpage => (hmem page).mp hpage).length_le
  have hfew : value.pageIds.length ≤ numbers.length := by
    have hle := (hnodup.subperm hdeclared).length_le
    rwa [List.length_map] at hle
  obtain ⟨hle, -⟩ := length_pagesOf value.identity diagnostics
  have hone : 1 ≤ totalOf value.identity (diagnostics.map runWarning) := by
    have hown : runWarning diagnostic ∈ (diagnostics.map runWarning).filter fun warning =>
        warning.identity == value.identity :=
      List.mem_filter.mpr ⟨List.mem_map_of_mem hdiagnostic, beq_iff_eq.mpr hidentity⟩
    exact List.le_sum_of_mem (List.mem_map_of_mem (f := (·.occurrenceCount)) hown)
  have hmax : 1 ≤ maximumCount := by decide
  obtain ⟨hcode, hmessage, -⟩ := hreport diagnostic hdiagnostic
  exact validWarning_settlePage (hcodeEq ▸ hcode) (hmessageEq ▸ hmessage) hblockEq.symm hpageId
    hnodup hdeclared (by omega) (by omega)

end WarningGroups

/-! ## Assembly -/

section Assembling

variable {α : Type} [Double α] {rotations : List PageRotation}

/-- A page that was turned upright by a correction. -/
structure Upright (page : PageArtifact) (rotation : PageRotation) : Prop where
  width : page.width = rotation.workingWidth
  height : page.height = rotation.workingHeight
  positive : 0 < rotation.sourceWidth ∧ 0 < rotation.sourceHeight

theorem Upright.size {page : PageArtifact} {rotation : PageRotation} (h : Upright page rotation) :
    0 < page.width ∧ 0 < page.height := by
  obtain ⟨hwidth, hheight, hpositive⟩ := h
  rw [hwidth, hheight]
  unfold PageRotation.workingWidth PageRotation.workingHeight
  split_ifs
  · exact hpositive
  · exact hpositive.symm

omit [Double α] in
/-- Tables own their blocks when their names are those of table blocks. -/
theorem tablesOwnBlocks_iff {layout : PageLayout α} {tables : PageTables α} :
    TablesOwnBlocks layout tables ↔ (layout.blocks.map (·.id)).Nodup ∧
      (∀ name ∈ tables.tables.map (·.layoutBlockId), (name, .table) ∈ layout.blocks.map blockKey) ∧
      (tables.tables.map (·.layoutBlockId)).Nodup := by
  constructor
  · rintro ⟨hids, hnamed, hdistinct⟩
    refine ⟨hids, fun name hname => ?_, hdistinct⟩
    obtain ⟨table, htable, rfl⟩ := List.mem_map.mp hname
    obtain ⟨block, hfilter, htype⟩ := hnamed table htable
    have hblock : block ∈ layout.blocks.filter _ := hfilter ▸ List.mem_singleton_self block
    obtain ⟨hmem, hid⟩ := List.mem_filter.mp hblock
    exact List.mem_map.mpr ⟨block, hmem, Prod.ext (beq_iff_eq.mp hid) htype⟩
  · rintro ⟨hids, hnamed, hdistinct⟩
    refine ⟨hids, fun table htable => ?_, hdistinct⟩
    obtain ⟨block, hblock, hkey⟩ := List.mem_map.mp (hnamed _ (List.mem_map_of_mem htable))
    obtain ⟨hid, htype⟩ := Prod.mk.inj hkey
    exact ⟨block, hid ▸ filter_id_eq hids hblock, htype⟩

omit [Double α] in
theorem TablesOwnBlocks.congr {layout layout' : PageLayout α} {tables tables' : PageTables α}
    (h : TablesOwnBlocks layout tables)
    (hblocks : layout'.blocks.map blockKey = layout.blocks.map blockKey)
    (htables : tables'.tables.map (·.layoutBlockId) = tables.tables.map (·.layoutBlockId)) :
    TablesOwnBlocks layout' tables' := by
  have hids : layout'.blocks.map (·.id) = layout.blocks.map (·.id) := by
    have hfst := congrArg (List.map Prod.fst) hblocks
    rwa [List.map_map, List.map_map] at hfst
  rw [tablesOwnBlocks_iff] at h ⊢
  rw [hids, hblocks, htables]
  exact h

theorem assemble_rest {engineVersion : String} {request : DocumentAssembleRequest α}
    {document : ParsedDocument α} {artifacts : List (PipelinePageArtifacts α)}
    (h : assemble engineVersion request = some (document, artifacts)) :
    document.status = .complete ∧ document.warnings = [] ∧
      document.source.sha256 = request.sourceSha256 := by
  unfold assemble at h
  split_ifs at h
  obtain ⟨rfl, -⟩ := Prod.mk.inj (Option.some.inj h)
  exact ⟨rfl, rfl, rfl⟩

/-- The pages of a document that has been restored. -/
theorem restored_pages [LawfulDouble α] {request : DocumentAssembleRequest α}
    (h : ValidRequest request) (hupright : List.Forall₂ Upright request.pages rotations)
    {document document' : ParsedDocument α} {artifacts pages : List (PipelinePageArtifacts α)}
    {place : String → BBox α → BBox α}
    (hpages : document.pages = request.pages.map makeDocumentPage)
    (hrestored : Restored rotations place document document' artifacts pages) :
    document'.pages.map (fun page => (page.id, page.number)) =
        request.pages.map (fun page => (Assembly.pageId page.pageNumber, page.pageNumber)) ∧
      ∀ page ∈ document'.pages, ValidPage page := by
  have hlength : document'.pages.length = request.pages.length := by
    rw [hrestored.pagesLength.2, hpages, List.length_map]
  have hpage : ∀ (i : Nat) (hi : i < request.pages.length),
      ∃ rotation page, rotations[i]? = some rotation ∧ request.pages[i]? = some page ∧
        Upright page rotation ∧
        document'.pages[i]? = some { (makeDocumentPage page : DocumentPage α) with
          width := Double.ofInt rotation.sourceWidth
          height := Double.ofInt rotation.sourceHeight } := by
    intro i hi
    have hi' : i < rotations.length := hupright.length_eq ▸ hi
    refine ⟨rotations[i], request.pages[i], List.getElem?_eq_getElem hi',
      List.getElem?_eq_getElem hi, (List.forall₂_iff_get.mp hupright).2 i hi hi', ?_⟩
    refine hrestored.documentPages i _ _ (List.getElem?_eq_getElem hi') ?_
    rw [hpages, List.getElem?_map, List.getElem?_eq_getElem hi]
    rfl
  constructor
  · refine List.ext_getElem? fun i => ?_
    rw [List.getElem?_map, List.getElem?_map]
    rcases Nat.lt_or_ge i request.pages.length with hi | hi
    · obtain ⟨rotation, page, -, hrequest, -, hdocument⟩ := hpage i hi
      rw [hrequest, hdocument]
      rfl
    · rw [List.getElem?_eq_none hi, List.getElem?_eq_none (hlength ▸ hi)]
      rfl
  · intro page hmem
    obtain ⟨i, hi⟩ := List.mem_iff_getElem?.mp hmem
    obtain ⟨hlt, -⟩ := List.getElem?_eq_some_iff.mp hi
    obtain ⟨rotation, artifact, -, hrequest, hup, hdocument⟩ := hpage i (hlength ▸ hlt)
    obtain rfl := Option.some.inj (hi.symm.trans hdocument)
    have hartifact := List.mem_of_getElem? hrequest
    obtain ⟨hid, hnumber, -, -⟩ := makeDocumentPage_valid (α := α) (h.numbers artifact hartifact)
      (h.sizes artifact hartifact)
    refine ⟨hid, hnumber, ⟨LawfulDouble.isFinite_ofInt _, LawfulDouble.isFinite_ofInt _⟩, ?_, ?_⟩
    · exact fun hle => absurd (LawfulDouble.nonpos_of_ofInt_le _ hle) (not_le.mpr hup.positive.1)
    · exact fun hle => absurd (LawfulDouble.nonpos_of_ofInt_le _ hle) (not_le.mpr hup.positive.2)

/-- The coordinates of upright pages can be restored. -/
theorem assembled_upright {engineVersion : String} {request : DocumentAssembleRequest α}
    (h : ValidRequest request) (hupright : List.Forall₂ Upright request.pages rotations)
    {document : ParsedDocument α} {artifacts : List (PipelinePageArtifacts α)}
    (hassemble : assemble engineVersion request = some (document, artifacts)) :
    Assembled rotations document artifacts := by
  refine assembled_of_assemble h hupright.length_eq.symm (fun i rotation page hi hpage => ?_)
    hassemble
  obtain ⟨hlt, rfl⟩ := List.getElem?_eq_some_iff.mp hi
  obtain ⟨hlt', rfl⟩ := List.getElem?_eq_some_iff.mp hpage
  have hup := (List.forall₂_iff_get.mp hupright).2 i hlt' hlt
  exact ⟨hup.width, hup.height⟩

omit [Double α] in
/-- The parts of an artifact stand at its place. -/
theorem makeArtifacts_parts {request : DocumentAssembleRequest α} {i : Nat}
    {artifact : PipelinePageArtifacts α} (h : (makeArtifacts request)[i]? = some artifact) :
    request.pages[i]? = some artifact.image ∧ artifact.pageNumber = artifact.image.pageNumber ∧
      request.pageLayouts[i]? = some artifact.layout ∧
      request.pageTables[i]? = some artifact.tables := by
  unfold makeArtifacts at h
  rw [List.getElem?_map, Option.map_eq_some_iff] at h
  obtain ⟨⟨page, text, layout, order, tables⟩, hzip, rfl⟩ := h
  simp only [List.getElem?_zip_eq_some] at hzip
  exact ⟨hzip.1, rfl, hzip.2.2.1, hzip.2.2.2.2⟩

/-- **Assembled documents** are valid when their coordinates have been restored. -/
theorem restored_valid [LawfulDouble α] {engineVersion : String}
    {request : DocumentAssembleRequest α} (h : ValidRequest request)
    (hupright : List.Forall₂ Upright request.pages rotations)
    (hdigest : validSha256 request.sourceSha256 = true)
    {assembled document : ParsedDocument α} {artifacts pages : List (PipelinePageArtifacts α)}
    (hassemble : assemble engineVersion request = some (assembled, artifacts))
    (hrestore : restoreSourceCoordinates assembled artifacts rotations = .ok (document, pages)) :
    ValidCoreModel document ∧ document.status = .complete ∧
      document.source.sha256 = request.sourceSha256 ∧
      document.pages.map (fun page => (page.id, page.number)) =
        request.pages.map fun page => (Assembly.pageId page.pageNumber, page.pageNumber) := by
  obtain ⟨document₀, heq, hpages, hblocks, hrelations⟩ := assemble_eq engineVersion h.counts
  obtain ⟨rfl, rfl⟩ := Prod.mk.inj (Option.some.inj (heq.symm.trans hassemble))
  obtain ⟨hstatus, hwarnings, hsource⟩ := assemble_rest hassemble
  have hready := assembled_upright h hupright hassemble
  obtain ⟨document', pages', place, hrestore', hrestored⟩ := restoreSourceCoordinates_spec hready
  obtain ⟨rfl, rfl⟩ := Prod.mk.inj (Except.ok.inj (hrestore'.symm.trans hrestore))
  obtain ⟨hkeys, hvalid⟩ := restored_pages h hupright hpages hrestored
  have hids : ∀ page ∈ makeArtifacts request, (page.layout.blocks.map (·.id)).Nodup :=
    fun page hpage => (h.ids _ (makeArtifacts_layout hpage)).1
  -- the blocks keep their ids
  have hblockIds : document'.blocks.map (·.id) = document₀.blocks.map (·.id) := by
    rw [hrestored.rest]
    exact List.map_map
  have hnodup := assembleBlocks_ids_nodup (repeatedFurniture (makeArtifacts request)) hids
  have hrelated := assembleRelations_valid
    (assembleBlocks_related (repeatedFurniture (makeArtifacts request)) _ hids 0)
  rw [← hblocks] at hnodup
  rw [← hblocks, ← hrelations] at hrelated
  have hpageIds : document'.pages.map (·.id) =
      request.pages.map fun page => Assembly.pageId page.pageNumber := by
    have hfst := congrArg (List.map Prod.fst) hkeys
    rwa [List.map_map, List.map_map] at hfst
  have hpageNumbers : document'.pages.map (·.number) = request.pages.map (·.pageNumber) := by
    have hsnd := congrArg (List.map Prod.snd) hkeys
    rwa [List.map_map, List.map_map] at hsnd
  have hrest : document'.status = document₀.status ∧ document'.source = document₀.source ∧
      document'.relations = document₀.relations ∧ document'.warnings = document₀.warnings := by
    rw [hrestored.rest]
    exact ⟨rfl, rfl, rfl, rfl⟩
  obtain ⟨hstatus', hsource', hrelations', hwarnings'⟩ := hrest
  refine ⟨⟨?_, ?_, hvalid, ?_, ?_, ?_, ?_, ?_, ?_⟩, hstatus'.trans hstatus,
    by rw [hsource', hsource], hkeys⟩
  · intro hpartial
    rw [hstatus', hstatus] at hpartial
    cases hpartial
  · intro _
    rw [hsource', hsource]
    exact hdigest
  · rw [hpageIds]
    refine (List.nodup_map_iff_inj_on h.distinctNumbers.of_map).mpr fun p hp q hq heq => ?_
    exact List.inj_on_of_nodup_map h.distinctNumbers hp hq
      (pageId_inj (h.numbers p hp) (h.numbers q hq) heq)
  · rw [hpageNumbers]
    exact h.distinctNumbers
  · intro block hblock
    obtain ⟨old, hold, hid⟩ := List.mem_map.mp (hblockIds ▸ List.mem_map_of_mem hblock)
    rw [hblocks] at hold
    obtain ⟨i, hi⟩ := List.mem_iff_getElem?.mp hold
    obtain ⟨pageNumber, hname⟩ := assembleBlocks_id _ hids hi
    rw [← hid, hname]
    exact blockId_ne_empty _ _
  · rw [hblockIds]
    exact hnodup
  · rw [hrelations', hblockIds]
    exact hrelated
  · rw [hwarnings', hwarnings]
    exact fun warning hwarning => absurd hwarning List.not_mem_nil

/-- The warnings of the run complete the document. -/
theorem applyRunMetadata_valid (options : PipelineRunOptions) (provenance : RunProvenance)
    {document : ParsedDocument α} (h : ValidCoreModel document)
    (hstatus : document.status = .complete)
    {diagnostics : List Diagnostic} {numbers : List Int}
    (hids : document.pages.map (·.id) = numbers.map Assembly.pageId)
    (hreport : ∀ diagnostic ∈ diagnostics, Reportable numbers diagnostic)
    (hpages : numbers.length ≤ maximumCount) :
    ValidCoreModel (applyRunMetadata options diagnostics provenance document) ∧
      ((applyRunMetadata options diagnostics provenance document).status = .partially ↔
        (applyRunMetadata options diagnostics provenance document).warnings ≠ []) := by
  have hexplained : (if (aggregateWarnings (diagnostics.map runWarning)).isEmpty
      then document.status else .partially) = .partially ↔
        aggregateWarnings (diagnostics.map runWarning) ≠ [] := by
    rw [hstatus, Ne, ← List.isEmpty_iff]
    split_ifs with hempty
    · simp [hempty]
    · simp [hempty]
  refine ⟨⟨hexplained.mp, h.source, h.pages, h.pageIds, h.pageNumbers, h.blocks, h.blockIds,
    h.relations, fun warning hwarning => ?_⟩, hexplained⟩
  obtain ⟨value, hvalue, rfl⟩ := List.mem_map.mp hwarning
  show ValidWarning (document.pages.map (·.id)) _ _
  rw [hids]
  exact validWarning_of_pages hreport hpages hvalue

/-- The artifacts of the pages keep the numbers of the pages and the owners of the tables. -/
theorem restored_artifacts {request : DocumentAssembleRequest α} {rotations : List PageRotation}
    (hcounts : hasMatchingPageCounts request = true)
    (hupright : List.Forall₂ Upright request.pages rotations)
    (howned : List.Forall₂ TablesOwnBlocks request.pageLayouts request.pageTables)
    {document document' : ParsedDocument α} {pages' : List (PipelinePageArtifacts α)}
    {place : String → BBox α → BBox α}
    (hrestored : Restored rotations place document document' (makeArtifacts request) pages') :
    pages'.map (·.pageNumber) = request.pages.map (·.pageNumber) ∧
      ∀ page ∈ pages', TablesOwnBlocks page.layout page.tables := by
  have hlength : (makeArtifacts request).length = request.pages.length := by
    rw [← makeArtifacts_pages hcounts, List.length_map]
  have hpage : ∀ (i : Nat) (hi : i < request.pages.length), ∃ artifact page,
      (makeArtifacts request)[i]? = some artifact ∧ pages'[i]? = some page ∧
        page.pageNumber = artifact.pageNumber ∧
        page.layout.blocks.map blockKey = artifact.layout.blocks.map blockKey ∧
        page.tables.tables.map (·.layoutBlockId) =
          artifact.tables.tables.map (·.layoutBlockId) := by
    intro i hi
    have hi' : i < rotations.length := hupright.length_eq ▸ hi
    have hartifact := List.getElem?_eq_getElem (hlength ▸ hi)
    refine ⟨_, _, hartifact, hrestored.artifacts i _ _ (List.getElem?_eq_getElem hi') hartifact,
      rfl, ?_, ?_⟩
    · exact List.map_map
    · exact List.map_map
  have hlength' : pages'.length = request.pages.length := hrestored.pagesLength.1.trans hlength
  constructor
  · refine List.ext_getElem? fun i => ?_
    rw [List.getElem?_map, List.getElem?_map]
    rcases Nat.lt_or_ge i request.pages.length with hi | hi
    · obtain ⟨artifact, page, hartifact, hget, hnumber, -⟩ := hpage i hi
      obtain ⟨himage, hsame, -⟩ := makeArtifacts_parts hartifact
      rw [hget, himage]
      exact congrArg some (hnumber.trans hsame)
    · rw [List.getElem?_eq_none hi, List.getElem?_eq_none (hlength' ▸ hi)]
      rfl
  · intro page hmem
    obtain ⟨i, hi⟩ := List.mem_iff_getElem?.mp hmem
    obtain ⟨hlt, -⟩ := List.getElem?_eq_some_iff.mp hi
    obtain ⟨artifact, page', hartifact, hget, -, hblocks, htables⟩ := hpage i (hlength' ▸ hlt)
    obtain rfl := Option.some.inj (hi.symm.trans hget)
    obtain ⟨-, -, hlayout, htable⟩ := makeArtifacts_parts hartifact
    obtain ⟨hlt, hlayout⟩ := List.getElem?_eq_some_iff.mp hlayout
    obtain ⟨hlt', htable⟩ := List.getElem?_eq_some_iff.mp htable
    have hown := (List.forall₂_iff_get.mp howned).2 i hlt hlt'
    rw [List.get_eq_getElem, List.get_eq_getElem, hlayout, htable] at hown
    exact hown.congr hblocks htables

end Assembling

end DocParser.Pipeline
