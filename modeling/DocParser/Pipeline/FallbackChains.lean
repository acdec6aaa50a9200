import DocParser.Pipeline.DocumentPipeline

/-!
# Fallback chains

Layout and table backends may be chained: when one fails, the next one is tried, on a result of its
own. `chains_report`: the answer is that of the first backend that succeeds, behind one diagnostic
for each failure, and the provenance of a run is read off these.
-/

namespace DocParser.Pipeline

open Document Layout

/-! ## The source -/

section Definitions

def kLayoutBackendFallback : String := "LAYOUT_BACKEND_FALLBACK"

def kTableBackendFallback : String := "TABLE_BACKEND_FALLBACK"

/-- A backend with its name. It answers with a flag and with what it made of the result that it was
given, which may be anything when it fails. -/
structure NamedBackend (ρ σ : Type) where
  name : String
  run : ρ → σ → Bool × σ

structure LayoutRequest (α : Type) where
  page : PageArtifact
  text : PageText α

structure LayoutResult (α : Type) where
  layout : PageLayout α
  diagnostics : List Diagnostic
  deriving DecidableEq, Repr

structure TableRequest (α : Type) where
  page : PageArtifact
  text : PageText α
  layout : PageLayout α

structure TableResult (α : Type) where
  tables : PageTables α
  diagnostics : List Diagnostic
  deriving DecidableEq, Repr

/-- What the two kinds of chains differ in. -/
structure ChainKind (ρ σ : Type) where
  code : String
  message : String
  stage : String
  pageNumber : ρ → Int
  /-- A result as it is constructed. -/
  candidate : σ
  diagnostics : σ → List Diagnostic
  setDiagnostics : σ → List Diagnostic → σ
  diagnostics_set : ∀ result list, diagnostics (setDiagnostics result list) = list

variable {ρ σ α : Type}

def fallbackDiagnostic (kind : ChainKind ρ σ) (request : ρ) (failed fallback : String) :
    Diagnostic where
  code := kind.code
  message := kind.message
  stage := kind.stage
  pageNumber := kind.pageNumber request
  details := [("failed_backend", failed), ("fallback_backend", fallback),
    ("reason", "inference_failed")]

/-- The loop over the backends. -/
def runChain (kind : ChainKind ρ σ) (request : ρ) (result : σ) :
    List Diagnostic → List (NamedBackend ρ σ) → Bool × σ
  | _, [] => (false, result)
  | diagnostics, backend :: rest =>
    let (succeeded, candidate) := backend.run request kind.candidate
    if succeeded then
      (true, kind.setDiagnostics candidate (diagnostics ++ kind.diagnostics candidate))
    else
      match rest with
      | [] => (false, result)
      | next :: _ => runChain kind request result
          (diagnostics ++ [fallbackDiagnostic kind request backend.name next.name]) rest

def layoutChain : ChainKind (LayoutRequest α) (LayoutResult α) where
  code := kLayoutBackendFallback
  message := "layout inference failed; continued with the configured fallback chain"
  stage := "layout"
  pageNumber request := request.page.pageNumber
  candidate := ⟨⟨0, 0, []⟩, []⟩
  diagnostics := LayoutResult.diagnostics
  setDiagnostics result diagnostics := { result with diagnostics := diagnostics }
  diagnostics_set _ _ := rfl

def tableChain : ChainKind (TableRequest α) (TableResult α) where
  code := kTableBackendFallback
  message := "table inference failed; continued with the configured fallback chain"
  stage := "table"
  pageNumber request := request.page.pageNumber
  candidate := ⟨⟨0, 0, []⟩, []⟩
  diagnostics := TableResult.diagnostics
  setDiagnostics result diagnostics := { result with diagnostics := diagnostics }
  diagnostics_set _ _ := rfl

/-- `ChainedLayoutBackend::analyze` -/
def ChainedLayoutBackend.analyze (backends : List (NamedBackend (LayoutRequest α) (LayoutResult α)))
    (request : LayoutRequest α) (result : LayoutResult α) : Bool × LayoutResult α :=
  runChain layoutChain request result [] backends

/-- `ChainedTableBackend::recognize` -/
def ChainedTableBackend.recognize (backends : List (NamedBackend (TableRequest α) (TableResult α)))
    (request : TableRequest α) (result : TableResult α) : Bool × TableResult α :=
  runChain tableChain request result [] backends

end Definitions

/-! ## What a chain reports -/

section Reports

variable {ρ σ : Type} (kind : ChainKind ρ σ) (request : ρ)

def Succeeds (backend : NamedBackend ρ σ) : Prop := (backend.run request kind.candidate).1 = true

/-- The names of the backends that failed, each with that of its successor. -/
def fallbackPairs (failed : List (NamedBackend ρ σ)) (winner : NamedBackend ρ σ) :
    List (String × String) :=
  (failed.map (·.name)).zip ((failed ++ [winner]).map (·.name)).tail

/-- The answer of a chain, and the fallbacks that a run records for it. -/
def ChainReports (backends : List (NamedBackend ρ σ)) (result : σ) (answer : Bool × σ) : Prop :=
  ((∀ backend ∈ backends, ¬ Succeeds kind request backend) ∧ answer = (false, result)) ∨
  ∃ failed winner rest, backends = failed ++ winner :: rest ∧
    (∀ backend ∈ failed, ¬ Succeeds kind request backend) ∧ Succeeds kind request winner ∧
    answer.1 = true ∧
    answer.2 = kind.setDiagnostics (winner.run request kind.candidate).2
      ((fallbackPairs failed winner).map (fun p => fallbackDiagnostic kind request p.1 p.2) ++
        kind.diagnostics (winner.run request kind.candidate).2) ∧
    ((kind.diagnostics (winner.run request kind.candidate).2).filterMap fallbackOf = [] →
      ∀ provenance, (recordDiagnostics (kind.diagnostics answer.2) provenance).fallbacks =
        provenance.fallbacks ++ (fallbackPairs failed winner).map fun p =>
          ⟨kind.stage, kind.pageNumber request, p.1, p.2, "inference_failed"⟩)

variable {kind request}

theorem fallbackOf_fallbackDiagnostic (p : String × String) :
    fallbackOf (fallbackDiagnostic kind request p.1 p.2) =
      some ⟨kind.stage, kind.pageNumber request, p.1, p.2, "inference_failed"⟩ := rfl

/-- A chain whose backends all fail. -/
theorem runChain_fails {result : σ} {backends : List (NamedBackend ρ σ)}
    (h : ∀ backend ∈ backends, ¬ Succeeds kind request backend) :
    ∀ diagnostics, runChain kind request result diagnostics backends = (false, result) := by
  induction backends with
  | nil => exact fun _ => rfl
  | cons backend rest ih =>
    intro diagnostics
    have hfails : (backend.run request kind.candidate).1 = false :=
      Bool.not_eq_true _ ▸ h backend (List.mem_cons_self ..)
    have hrest := ih fun other hother => h other (List.mem_cons_of_mem _ hother)
    unfold runChain
    dsimp only
    rw [hfails]
    cases rest with
    | nil => rfl
    | cons next rest => exact hrest _

/-- **The first success**: each failure before it adds one diagnostic. -/
theorem runChain_succeeds (result : σ) {winner : NamedBackend ρ σ}
    (rest : List (NamedBackend ρ σ)) (hwinner : Succeeds kind request winner)
    {failed : List (NamedBackend ρ σ)}
    (h : ∀ backend ∈ failed, ¬ Succeeds kind request backend) :
    ∀ diagnostics, runChain kind request result diagnostics (failed ++ winner :: rest) =
      (true, kind.setDiagnostics (winner.run request kind.candidate).2
        (diagnostics ++ (fallbackPairs failed winner).map
          (fun p => fallbackDiagnostic kind request p.1 p.2) ++
          kind.diagnostics (winner.run request kind.candidate).2)) := by
  induction failed with
  | nil =>
    intro diagnostics
    unfold Succeeds at hwinner
    rw [List.nil_append]
    unfold runChain
    dsimp only
    rw [hwinner]
    simp [fallbackPairs]
  | cons backend failed ih =>
    intro diagnostics
    have hfails : (backend.run request kind.candidate).1 = false :=
      Bool.not_eq_true _ ▸ h backend (List.mem_cons_self ..)
    have hrest := ih fun other hother => h other (List.mem_cons_of_mem _ hother)
    rw [List.cons_append]
    unfold runChain
    dsimp only
    rw [hfails]
    cases failed with
    | nil =>
      refine (hrest _).trans ?_
      simp [fallbackPairs]
    | cons next failed =>
      refine (hrest _).trans ?_
      simp [fallbackPairs]

theorem filterMap_fallbackDiagnostic (pairs : List (String × String)) :
    (pairs.map fun p => fallbackDiagnostic kind request p.1 p.2).filterMap fallbackOf =
      pairs.map fun p =>
        ⟨kind.stage, kind.pageNumber request, p.1, p.2, "inference_failed"⟩ := by
  rw [List.filterMap_map, ← List.filterMap_eq_map]
  exact List.filterMap_congr fun p _ => fallbackOf_fallbackDiagnostic p

theorem runChain_reports (backends : List (NamedBackend ρ σ)) (result : σ) :
    ChainReports kind request backends result (runChain kind request result [] backends) := by
  cases hfirst : backends.find? fun backend => (backend.run request kind.candidate).1 with
  | none =>
    have hfails : ∀ backend ∈ backends, ¬ Succeeds kind request backend :=
      List.find?_eq_none.mp hfirst
    exact .inl ⟨hfails, runChain_fails hfails []⟩
  | some winner =>
    obtain ⟨hwinner, failed, rest, rfl, hfailed⟩ := List.find?_eq_some_iff_append.mp hfirst
    have hfails : ∀ backend ∈ failed, ¬ Succeeds kind request backend := by
      intro backend hbackend hsucceeds
      have hnot := hfailed backend hbackend
      rw [show (backend.run request kind.candidate).1 = true from hsucceeds] at hnot
      cases hnot
    have hrun := runChain_succeeds result rest hwinner hfails []
    rw [List.nil_append] at hrun
    refine .inr ⟨failed, winner, rest, rfl, hfails, hwinner, ?_, ?_, fun hnone provenance => ?_⟩
    · rw [hrun]
    · rw [hrun]
    · rw [hrun]
      unfold recordDiagnostics
      rw [kind.diagnostics_set, List.filterMap_append, hnone, List.append_nil,
        filterMap_fallbackDiagnostic]

end Reports

section Chains

variable {α : Type}

/-- **Fallback chains report what happened**, those of layout backends and those of table backends,
whatever the backends leave in the results that they are given. -/
theorem chains_report :
    (∀ (backends : List (NamedBackend (LayoutRequest α) (LayoutResult α)))
      (request : LayoutRequest α) (result : LayoutResult α),
      ChainReports layoutChain request backends result
        (ChainedLayoutBackend.analyze backends request result)) ∧
    ∀ (backends : List (NamedBackend (TableRequest α) (TableResult α)))
      (request : TableRequest α) (result : TableResult α),
      ChainReports tableChain request backends result
        (ChainedTableBackend.recognize backends request result) :=
  ⟨fun backends _ result => runChain_reports backends result,
    fun backends _ result => runChain_reports backends result⟩

end Chains

/-! ## A chain with two failures -/

section Example

/-- A backend that leaves a page number and a diagnostic, also when it fails. -/
def pageBackend (name : String) (succeeds : Bool) (pageNumber : Int) :
    NamedBackend (LayoutRequest ℚ) (LayoutResult ℚ) where
  name := name
  run _ result := (succeeds, { result with
    layout := ⟨0, pageNumber, []⟩
    diagnostics := result.diagnostics ++ [⟨name, "", "", pageNumber, []⟩] })

example (request : LayoutRequest ℚ) (result : LayoutResult ℚ) :
    ChainedLayoutBackend.analyze [pageBackend "a" false 1, pageBackend "b" false 2,
      pageBackend "c" true 3] request result =
    (true, ⟨⟨0, 3, []⟩, [fallbackDiagnostic layoutChain request "a" "b",
      fallbackDiagnostic layoutChain request "b" "c", ⟨"c", "", "", 3, []⟩]⟩) := rfl

end Example

end DocParser.Pipeline
