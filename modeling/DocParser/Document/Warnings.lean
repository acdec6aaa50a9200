import DocParser.Document.Model

/-!
# Warnings of a document

Warnings that differ only in their pages become one, which counts them and lists the pages.
-/

namespace DocParser.Document

/-- The largest `std::size_t`. -/
def maximumCount : Nat := 2 ^ 64 - 1

def saturatedAdd (left right : Nat) : Nat :=
  if maximumCount - left < right then maximumCount else left + right

namespace DocumentWarning

/-- What warnings that are joined have in common. -/
def identity (warning : DocumentWarning) :
    String × String × String × String × List (String × String) :=
  (warning.code, warning.message, warning.stage, warning.blockId, warning.details)

def appendPage (pageIds : List String) (pageId : String) : List String :=
  if pageId.isEmpty || pageIds.contains pageId then pageIds else pageIds ++ [pageId]

def appendPages (pageIds : List String) (warning : DocumentWarning) : List String :=
  warning.pageIds.foldl appendPage (appendPage pageIds warning.pageId)

/-- The loop over the warnings, for one of them. -/
def aggregate (aggregated : List DocumentWarning) (warning : DocumentWarning) :
    List DocumentWarning :=
  match aggregated.findIdx? fun other => other.identity == warning.identity with
  | none => aggregated ++ [{ warning with pageId := "", pageIds := appendPages [] warning }]
  | some existing => aggregated.modify existing fun value =>
    { value with
      occurrenceCount := saturatedAdd value.occurrenceCount warning.occurrenceCount
      pageIds := appendPages value.pageIds warning }

/-- A single page is named alone. -/
def settlePage (warning : DocumentWarning) : DocumentWarning :=
  match warning.pageIds with
  | [pageId] => { warning with pageId := pageId, pageIds := [] }
  | _ => warning

end DocumentWarning

open DocumentWarning

def aggregateWarnings (warnings : List DocumentWarning) : List DocumentWarning :=
  (warnings.foldl aggregate []).map settlePage

theorem aggregate_ne_nil (aggregated : List DocumentWarning) (warning : DocumentWarning) :
    aggregate aggregated warning ≠ [] := by
  unfold aggregate
  split
  · simp
  next existing h =>
    intro hnil
    have hlt := (List.findIdx?_eq_some_iff_getElem.mp h).1
    have hlength := congrArg List.length hnil
    rw [List.length_modify, List.length_nil] at hlength
    omega

/-- No warning disappears altogether. -/
theorem aggregateWarnings_eq_nil {warnings : List DocumentWarning} :
    aggregateWarnings warnings = [] ↔ warnings = [] := by
  constructor
  · intro h
    rcases List.eq_nil_or_concat warnings with rfl | ⟨front, last, rfl⟩
    · rfl
    · unfold aggregateWarnings at h
      rw [List.map_eq_nil_iff, List.concat_eq_append, List.foldl_append] at h
      exact absurd h (aggregate_ne_nil _ _)
  · rintro rfl
    rfl

end DocParser.Document
