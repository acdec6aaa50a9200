import DocParser.Document.WarningAggregation
import DocParser.Export.CoreModel
import DocParser.Pipeline.DocumentPipeline

/-!
# The warnings of a run

`run_warnings`: the diagnostics of a run become warnings that are joined by their identity, and
what is joined passes the checks of the exporter for the document that was assembled.
-/

namespace DocParser.Pipeline

open Document DocumentWarning Assembly Export

section RunWarnings

variable {α : Type} [Double α] {diagnostics : List Diagnostic}

/-- A diagnostic that a document with the page numbers can report. -/
structure Reportable (pageNumbers : List Int) (diagnostic : Diagnostic) : Prop where
  code : diagnostic.code ≠ ""
  message : diagnostic.message ≠ ""
  page : diagnostic.pageNumber ≤ 0 ∨ diagnostic.pageNumber ∈ pageNumbers

/-- A settled warning names its pages as the exporter wants it. -/
theorem validWarning_settlePage {pageIds blockIds : List String} {value : DocumentWarning}
    (hcode : value.code ≠ "") (hmessage : value.message ≠ "") (hblock : value.blockId = "")
    (hpageId : value.pageId = "") (hnodup : value.pageIds.Nodup)
    (hpages : ∀ pageId ∈ value.pageIds, pageId ∈ pageIds) (hoccurs : 1 ≤ value.occurrenceCount)
    (henough : value.pageIds.length ≤ value.occurrenceCount) :
    ValidWarning pageIds blockIds (settlePage value) := by
  unfold settlePage
  split
  next pageId hone =>
    refine ⟨hcode, hmessage, fun _ => hpages pageId ?_, fun h => absurd hblock h, hoccurs, .inr rfl,
      fun p hp => absurd hp List.not_mem_nil, List.nodup_nil, Nat.zero_le _⟩
    rw [hone]
    exact List.mem_singleton_self pageId
  · exact ⟨hcode, hmessage, fun h => absurd hpageId h, fun h => absurd hblock h, hoccurs,
      .inl hpageId, hpages, hnodup, henough⟩

theorem pagesOf_cons (key : WarningIdentity) (warning : DocumentWarning)
    (warnings : List DocumentWarning) : pagesOf key (warning :: warnings) =
      (if warning.identity == key then
        (warning.pageId :: warning.pageIds).filter (fun pageId => !pageId.isEmpty) else []) ++
        pagesOf key warnings := by
  unfold pagesOf
  rw [List.filter_cons]
  split_ifs <;> rfl

theorem totalOf_cons (key : WarningIdentity) (warning : DocumentWarning)
    (warnings : List DocumentWarning) : totalOf key (warning :: warnings) =
      (if warning.identity == key then warning.occurrenceCount else 0) +
        totalOf key warnings := by
  unfold totalOf
  rw [List.filter_cons]
  split_ifs
  · rw [List.map_cons, List.sum_cons]
  · exact (Nat.zero_add _).symm

/-- Each diagnostic counts once and has one page at most. -/
theorem length_pagesOf (key : WarningIdentity) (diagnostics : List Diagnostic) :
    (pagesOf key (diagnostics.map runWarning)).length ≤
        totalOf key (diagnostics.map runWarning) ∧
      totalOf key (diagnostics.map runWarning) ≤ diagnostics.length := by
  induction diagnostics with
  | nil => exact ⟨Nat.le_refl 0, Nat.le_refl 0⟩
  | cons diagnostic diagnostics ih =>
    rw [List.map_cons, pagesOf_cons, totalOf_cons, List.length_append, List.length_cons]
    have hone : ([(runWarning diagnostic).pageId].filter fun pageId =>
        !pageId.isEmpty).length ≤ 1 := List.length_filter_le _ _
    have hcount : (runWarning diagnostic).occurrenceCount = 1 := rfl
    have hpages : (runWarning diagnostic).pageIds = [] := rfl
    rw [hcount, hpages]
    split_ifs
    · exact ⟨by omega, by omega⟩
    · exact ⟨by simpa using ih.1, by omega⟩

/-- A warning of a run names declared pages only. -/
theorem page_declared {pageNumbers : List Int} {key : WarningIdentity}
    (hreport : ∀ diagnostic ∈ diagnostics, Reportable pageNumbers diagnostic) {page : String}
    (hpage : page ∈ pagesOf key (diagnostics.map runWarning)) :
    page ∈ pageNumbers.map Assembly.pageId := by
  obtain ⟨warning, hwarning, hpage⟩ := List.mem_flatMap.mp hpage
  obtain ⟨diagnostic, hdiagnostic, rfl⟩ := List.mem_map.mp (List.mem_filter.mp hwarning).1
  obtain ⟨hnamed, hne⟩ := List.mem_filter.mp hpage
  have heq : page = if 0 < diagnostic.pageNumber then
      "page_" ++ toString diagnostic.pageNumber else "" := List.mem_singleton.mp hnamed
  split_ifs at heq with hpos
  · have hdeclared := (hreport diagnostic hdiagnostic).page.resolve_left (not_le.mpr hpos)
    rw [heq]
    exact List.mem_map_of_mem hdeclared
  · rw [heq] at hne
    cases hne

/-- **Groups of diagnostics** pass the checks. -/
theorem validWarning_collect {pageNumbers : List Int} {blockIds : List String}
    (hreport : ∀ diagnostic ∈ diagnostics, Reportable pageNumbers diagnostic)
    (hlength : diagnostics.length ≤ maximumCount) {value : DocumentWarning}
    (hvalue : value ∈ warningGrouping.collect (diagnostics.map runWarning)) :
    ValidWarning (pageNumbers.map Assembly.pageId) blockIds (settlePage value) := by
  obtain ⟨hpageId, hnodup, hpages⟩ := collect_pages hvalue
  have hcounts : ∀ warning ∈ diagnostics.map runWarning,
      warning.occurrenceCount ≤ maximumCount := by
    intro warning hwarning
    obtain ⟨diagnostic, -, rfl⟩ := List.mem_map.mp hwarning
    show 1 ≤ maximumCount
    decide
  have hcount := collect_count hcounts hvalue
  obtain ⟨hle, htotal⟩ := length_pagesOf value.identity diagnostics
  -- some diagnostic gave the group its identity
  obtain ⟨diagnostic, hdiagnostic, hidentity⟩ : ∃ diagnostic ∈ diagnostics,
      (runWarning diagnostic).identity = value.identity := by
    have hkey : value.identity ∈ ((diagnostics.map runWarning).map identity).eraseDups := by
      have hkeys := Grouping.collect_keys warningGrouping (diagnostics.map runWarning)
      exact hkeys ▸ List.mem_map_of_mem hvalue
    rw [List.mem_eraseDups, List.map_map] at hkey
    exact List.mem_map.mp hkey
  obtain ⟨hcode, hmessage, -⟩ := hreport diagnostic hdiagnostic
  have hone : 1 ≤ totalOf value.identity (diagnostics.map runWarning) := by
    have hmem : runWarning diagnostic ∈ (diagnostics.map runWarning).filter fun warning =>
        warning.identity == value.identity :=
      List.mem_filter.mpr ⟨List.mem_map_of_mem hdiagnostic, beq_iff_eq.mpr hidentity⟩
    exact List.le_sum_of_mem (List.mem_map_of_mem (f := (·.occurrenceCount)) hmem)
  obtain ⟨hcodeEq, hrest⟩ := Prod.mk.inj hidentity
  obtain ⟨hmessageEq, hrest⟩ := Prod.mk.inj hrest
  obtain ⟨-, hrest⟩ := Prod.mk.inj hrest
  obtain ⟨hblockEq, -⟩ := Prod.mk.inj hrest
  refine validWarning_settlePage (hcodeEq ▸ hcode) (hmessageEq ▸ hmessage) hblockEq.symm hpageId
    hnodup (fun page hpage => ?_) (by rw [hcount]; omega) ?_
  · rw [hpages] at hpage
    exact page_declared hreport hpage
  · have hsub : value.pageIds.length ≤
        (pagesOf value.identity (diagnostics.map runWarning)).length :=
      (hnodup.subperm fun page hpage => (hpages page).mp hpage).length_le
    omega

/-- **Warnings.** Joining is idempotent, keeps for each identity the total of the counts, as far as
it can be counted, and the set of the pages, and keeps the order of the identities. The warnings
of a run pass the checks of the exporter, and its document is partial exactly if there are any. -/
theorem run_warnings :
    (∀ warnings : List DocumentWarning,
      aggregateWarnings (aggregateWarnings warnings) = aggregateWarnings warnings ∧
      (aggregateWarnings warnings).map identity = (warnings.map identity).eraseDups ∧
      (∀ key, (pagesOf key (aggregateWarnings warnings)).Nodup ∧
        ∀ pageId, pageId ∈ pagesOf key (aggregateWarnings warnings) ↔
          pageId ∈ pagesOf key warnings) ∧
      ((∀ warning ∈ warnings, warning.occurrenceCount ≤ maximumCount) → ∀ key,
        totalOf key (aggregateWarnings warnings) = min maximumCount (totalOf key warnings))) ∧
      ∀ (engineVersion : String) (request : DocumentAssembleRequest α) (document : ParsedDocument α)
        (pages : List (PipelinePageArtifacts α)) (options : PipelineRunOptions)
        (provenance : RunProvenance) (diagnostics : List Diagnostic),
        assemble engineVersion request = some (document, pages) →
        (∀ diagnostic ∈ diagnostics,
          Reportable (request.pages.map (·.pageNumber)) diagnostic) →
        diagnostics.length ≤ maximumCount →
          let final := applyRunMetadata options diagnostics provenance document
          validateWarnings (final.pages.map (·.id)) (final.blocks.map (·.id)) 0 final.warnings =
              .ok () ∧
            (final.status = .partially ↔ final.warnings ≠ []) := by
  refine ⟨fun warnings => ⟨aggregateWarnings_idem warnings, aggregateWarnings_identities warnings,
    pagesOf_aggregate warnings, fun hcounts => totalOf_aggregate warnings hcounts⟩, ?_⟩
  intro engineVersion request document pages options provenance diagnostics hassemble hreport
    hlength final
  have hdocument : document.status = .complete ∧
      document.pages.map (·.id) = (request.pages.map (·.pageNumber)).map Assembly.pageId := by
    unfold assemble at hassemble
    split_ifs at hassemble
    obtain ⟨rfl, -⟩ := Prod.mk.inj (Option.some.inj hassemble)
    refine ⟨rfl, ?_⟩
    show (request.pages.map makeDocumentPage).map _ = _
    rw [List.map_map, List.map_map]
    rfl
  refine ⟨?_, ?_⟩
  · rw [validateWarnings_ok]
    intro warning hwarning
    obtain ⟨value, hvalue, rfl⟩ := List.mem_map.mp hwarning
    show ValidWarning (document.pages.map (·.id)) _ _
    rw [hdocument.2]
    exact validWarning_collect hreport hlength hvalue
  · show (if (aggregateWarnings (diagnostics.map runWarning)).isEmpty then document.status
      else .partially) = .partially ↔ aggregateWarnings (diagnostics.map runWarning) ≠ []
    rw [hdocument.1, Ne, ← List.isEmpty_iff]
    split_ifs with hempty
    · simp [hempty]
    · simp [hempty]

end RunWarnings

/-! ## A run with repeated diagnostics -/

def reviewOptions : PipelineRunOptions :=
  ⟨"in/report.pdf", "out", 200, false, 0, 0, "run_1", 0, ⟨"auto", "auto", "auto", "auto", ""⟩⟩

def reviewDiagnostics : List Diagnostic := [
  ⟨"ocr.low_confidence", "text may be wrong", "ocr", 2, []⟩,
  ⟨"source.repaired", "the file was repaired", "open", 0, []⟩,
  ⟨"ocr.low_confidence", "text may be wrong", "ocr", 1, []⟩,
  ⟨"ocr.low_confidence", "text may be wrong", "ocr", 2, []⟩]

theorem run_warnings_review :
    ∃ document pages, assemble "1.0" runningHeader = some (document, pages) ∧
      let final := applyRunMetadata reviewOptions reviewDiagnostics .initial document
      validateWarnings (final.pages.map (·.id)) (final.blocks.map (·.id)) 0 final.warnings =
          .ok () ∧
        final.status = .partially := by
  obtain ⟨document, hassemble, -⟩ :=
    assemble_eq "1.0" (show hasMatchingPageCounts runningHeader = true from rfl)
  have hreport : ∀ diagnostic ∈ reviewDiagnostics,
      diagnostic.code ≠ "" ∧ diagnostic.message ≠ "" ∧ (diagnostic.pageNumber ≤ 0 ∨
        diagnostic.pageNumber ∈ runningHeader.pages.map (·.pageNumber)) := by decide
  obtain ⟨hvalid, hstatus⟩ := (@run_warnings ℚ _).2 "1.0" runningHeader document
    (makeArtifacts runningHeader) reviewOptions .initial reviewDiagnostics hassemble
    (fun diagnostic hmem => ⟨(hreport diagnostic hmem).1, (hreport diagnostic hmem).2.1,
      (hreport diagnostic hmem).2.2⟩) (by decide)
  refine ⟨document, _, hassemble, hvalid, hstatus.mpr ?_⟩
  show aggregateWarnings (reviewDiagnostics.map runWarning) ≠ []
  rw [Ne, aggregateWarnings_eq_nil]
  decide

example : (aggregateWarnings (reviewDiagnostics.map runWarning)).map
    (fun warning => (warning.code, warning.pageId, warning.pageIds, warning.occurrenceCount)) =
      [("ocr.low_confidence", "", ["page_2", "page_1"], 3), ("source.repaired", "", [], 1)] := by
  decide +kernel

end DocParser.Pipeline
