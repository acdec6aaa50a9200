import DocParser.Pipeline.BackendRegistry
import DocParser.Pipeline.FallbackChains
import DocParser.Pipeline.RunContract
import DocParser.ReadingOrder.Backend

/-!
# The services of a pipeline

An explicit name selects its backend; "auto" selects the first document and OCR backend of a
configured order that can be created, and chains all layout and table backends of their orders that
can. `created_services` says which services a registry creates, when it creates any, what the
provenance tells of them, and that a run with them keeps its contract.
-/

namespace DocParser.ServiceFactory

open Document Layout Image Pipeline

section Definitions

variable {α : Type} [Double α]

/-! ## The selection of backends -/

def joinWith (separator : String) (parts : List String) : String :=
  parts.foldl (fun joined part => joined ++ (if joined.isEmpty then "" else separator) ++ part) ""

def joinNames (names : List String) : String := joinWith "->" names

def joinDetails (details : List String) : String := joinWith "; " details

def configureError (code message : String) : Status := ⟨code, message, "configure", false⟩

/-- `setCreationError` -/
def creationError (unknown : Bool) (stage backend detail : String) : Status :=
  let reason :=
    if unknown then "unknown " ++ stage ++ " backend: " ++ backend
    else stage ++ " backend is unavailable: " ++ backend
  configureError (if unknown then "configure.backend_unknown" else "configure.backend_unavailable")
    (if detail.isEmpty then reason else reason ++ ": " ++ detail)

section Select

variable {β : Type} (create : String → Creation β)

/-- The backend of an explicit name. -/
def selectNamed (stage name : String) : Except Status (String × β) :=
  match create name with
  | .created backend => .ok (name, backend)
  | .unknown detail => .error (creationError true stage name detail)
  | .unavailable detail => .error (creationError false stage name detail)

/-- The loop over an order up to the first backend that is created, with the reasons before it. -/
def createFirst : List String → Option (String × β) × List String
  | [] => (none, [])
  | name :: rest =>
    match create name with
    | .created backend => (some (name, backend), [])
    | .unknown message | .unavailable message =>
      let (found, reasons) := createFirst rest
      (found, (name ++ ": " ++ message) :: reasons)

/-- The loop over an order, with the backends that are created and the reasons for the others. -/
def createAll : List String → List (String × β) × List String
  | [] => ([], [])
  | name :: rest =>
    let (available, reasons) := createAll rest
    match create name with
    | .created backend => ((name, backend) :: available, reasons)
    | .unknown message | .unavailable message => (available, (name ++ ": " ++ message) :: reasons)

/-- One layout or table backend; several are chained. -/
def selectChain (stage : String) (chain : List (String × β) → β) (requested : String)
    (order : List String) : Except Status (String × β) :=
  if requested = "auto" then
    match createAll create order with
    | ([], reasons) =>
      .error (configureError ("configure." ++ stage ++ "_backend_unavailable")
        ("no " ++ stage ++ " backend from configured auto_order is available: " ++
          joinDetails reasons))
    | ([(name, backend)], _) => .ok (joinNames [name], backend)
    | (available, _) => .ok (joinNames (available.map Prod.fst), chain available)
  else selectNamed create stage requested

end Select

def chainedLayout (backends : List (String × LayoutBackend α)) : LayoutBackend α :=
  fun read page text =>
    let answer := ChainedLayoutBackend.analyze
      (backends.map fun backend =>
        ⟨backend.1, fun request result =>
          match backend.2 read page request.text with
          | none => (false, result)
          | some (layout, diagnostics) => (true, ⟨layout, diagnostics⟩)⟩)
      ⟨page.toPageArtifact, text⟩ layoutChain.candidate
    if answer.1 then some (answer.2.layout, answer.2.diagnostics) else none

def chainedTable (backends : List (String × TableBackend α)) : TableBackend α :=
  fun read page text layout =>
    let answer := ChainedTableBackend.recognize
      (backends.map fun backend =>
        ⟨backend.1, fun request result =>
          match backend.2 read page request.text request.layout with
          | none => (false, result)
          | some (tables, diagnostics) => (true, ⟨tables, diagnostics⟩)⟩)
      ⟨page.toPageArtifact, text, layout⟩ tableChain.candidate
    if answer.1 then some (answer.2.tables, answer.2.diagnostics) else none

/-- `UnavailableOcrBackend` -/
def unavailableOcr (reason : String) : OcrBackend α := ⟨fun _ _ _ => none, reason⟩

/-- `DoclingLikeReadingOrderBackend`; a run of it that does not end is taken for a failure. -/
def doclingLike : ReadingOrderBackend α := fun _ _ layout =>
  (ReadingOrder.order layout).bind fun answer => if answer.1 then some answer.2 else none

variable (registry : BackendRegistry α) (config : BackendRegistryConfig)

def selectDocument (requested : String) : Except Status (String × DocumentSourceBundle α) :=
  if requested = "auto" then
    match (createFirst registry.createDocument config.documentAutoOrder).1 with
    | none => .error (configureError "configure.document_backend_unavailable"
        "no document backend from configured auto_order is available")
    | some selected => .ok selected
  else selectNamed registry.createDocument "document_source" requested

/-- Without an OCR backend, pages that need one fail later. -/
def selectOcr (requested : String) : Except Status (String × OcrBackend α) :=
  if requested = "auto" then
    match createFirst registry.ocr.create config.ocrAutoOrder with
    | (some selected, _) => .ok selected
    | (none, reasons) => .ok ("unavailable", unavailableOcr
        ("no OCR backend from configured auto_order is available (" ++ joinDetails reasons ++
          "); install a backend or select --ocr-backend noop explicitly"))
  else selectNamed registry.ocr.create "ocr" requested

/-- What the build of the engine sets. -/
structure EngineBuild where
  engineVersion : String
  gitRevision : String

/-- `createPipelineServices` for options and a registry. -/
def createPipelineServices (build : EngineBuild) (readFile : String → ConfigFile)
    (registry : BackendRegistry α) (options : BackendOptions) :
    Except Status (PipelineServices α × RunProvenance) := do
  let config ← (loadBackendRegistryConfig options.registryConfig readFile registry).mapError
    (configureError "configure.backend_registry_invalid")
  let (documentName, documentBackend) ← selectDocument registry config options.document
  let (ocrName, ocrBackend) ← selectOcr registry config options.ocr
  let (layoutName, layoutBackend) ← selectChain registry.layout.create "layout" chainedLayout
    options.layout config.layoutAutoOrder
  let (tableName, tableBackend) ← selectChain registry.table.create "table" chainedTable
    options.table config.tableAutoOrder
  return (⟨documentBackend, ocrBackend, layoutBackend, doclingLike, tableBackend⟩,
    { RunProvenance.initial with
      engineVersion := build.engineVersion
      gitRevision := build.gitRevision
      backends := ⟨options, ⟨documentName, ocrName, layoutName, tableName,
        options.registryConfig⟩,
        if options.registryConfig.isEmpty then "builtin" else options.registryConfig⟩ })

/-! ## The models of a configuration -/

/-- The parts of an engine configuration that name models. -/
structure ModelConfig where
  detectionModel : String
  recognitionModel : String
  characterDict : String
  ocrProfile : String
  tesseractExecutable : String
  tesseractLanguage : String
  doclaynetModel : String
  paddleLayoutModel : String
  tableDetectionModel : String
  tableStructureModel : String
  deriving DecidableEq, Repr

/-- The parts of a text between its arrows, from the part `current` on. -/
def arrowParts : List Char → List Char → List (List Char)
  | current, '-' :: '>' :: rest => current :: arrowParts [] rest
  | current, c :: rest => arrowParts (current ++ [c]) rest
  | current, [] => [current]

def containsBackend (resolved backend : String) : Bool :=
  (arrowParts [] resolved.toList).any fun part => part == backend.toList

/-- `addModel`: a model without a path is left out. -/
def model (stage backend role path profile : String) : List ModelProvenance :=
  if path.isEmpty then [] else [⟨stage, backend, role, path, profile⟩]

def configuredModels (models : ModelConfig) (resolved : BackendOptions) : List ModelProvenance :=
  (if resolved.ocr = "paddle" then
    model "text" "paddle" "detection" models.detectionModel models.ocrProfile ++
      model "text" "paddle" "recognition" models.recognitionModel models.ocrProfile ++
      model "text" "paddle" "character_dictionary" models.characterDict models.ocrProfile
  else if resolved.ocr = "tesseract" then
    model "text" "tesseract" "executable" models.tesseractExecutable models.tesseractLanguage
  else []) ++
  (if containsBackend resolved.layout "doclaynet" then
    model "layout" "doclaynet" "layout" models.doclaynetModel "" else []) ++
  (if containsBackend resolved.layout "paddle-layout" then
    model "layout" "paddle-layout" "layout" models.paddleLayoutModel "" else []) ++
  (if containsBackend resolved.table "table-transformer" then
    model "table" "table-transformer" "detection" models.tableDetectionModel "" ++
      model "table" "table-transformer" "structure" models.tableStructureModel "" else [])

/-- `createPipelineServices` for an engine configuration. -/
def createConfiguredServices (build : EngineBuild) (readFile : String → ConfigFile)
    (registry : BackendRegistry α) (models : ModelConfig) (options : BackendOptions) :
    Except Status (PipelineServices α × RunProvenance) := do
  let (services, provenance) ← createPipelineServices build readFile registry options
  return (services, { provenance with
    models := provenance.models ++ configuredModels models provenance.backends.resolved })

end Definitions

/-! ## Candidates -/

section Orders

variable {β : Type} {create : String → Creation β}

/-- The backend of a name, if it can be created. -/
def created? (create : String → Creation β) (name : String) : Option (String × β) :=
  match create name with
  | .created backend => some (name, backend)
  | _ => none

/-- The backends of an order that can be created. -/
def creatable (create : String → Creation β) (order : List String) : List (String × β) :=
  order.filterMap (created? create)

theorem created?_eq_some {name : String} {p : String × β} :
    created? create name = some p ↔ p.1 = name ∧ create name = .created p.2 := by
  unfold created?
  cases hcreate : create name with
  | created backend =>
    obtain ⟨name', backend'⟩ := p
    simp only [Option.some.injEq, Prod.mk.injEq, Creation.created.injEq]
    exact and_congr_left fun _ => eq_comm
  | unknown message => simp
  | unavailable message => simp

/-- The created backends stand under names of the order. -/
theorem mem_creatable {order : List String} {p : String × β} :
    p ∈ creatable create order ↔ p.1 ∈ order ∧ create p.1 = .created p.2 := by
  unfold creatable
  rw [List.mem_filterMap]
  constructor
  · rintro ⟨name, hname, hcreated⟩
    obtain ⟨rfl, hbackend⟩ := created?_eq_some.mp hcreated
    exact ⟨hname, hbackend⟩
  · rintro ⟨hname, hbackend⟩
    exact ⟨p.1, hname, created?_eq_some.mpr ⟨rfl, hbackend⟩⟩

theorem creatable_ne_nil {order : List String} {name : String} {backend : β} (h : name ∈ order)
    (hcreate : create name = .created backend) : creatable create order ≠ [] :=
  List.ne_nil_of_mem (mem_creatable.mpr (⟨h, hcreate⟩ : (name, backend).1 ∈ order ∧ _))

theorem creatable_cons (name : String) (rest : List String) :
    creatable create (name :: rest) = (created? create name).toList ++ creatable create rest := by
  unfold creatable
  rw [List.filterMap_cons]
  cases created? create name with
  | none => rfl
  | some p => rfl

variable (create) in
theorem createFirst_fst (order : List String) :
    (createFirst create order).1 = (creatable create order).head? := by
  induction order with
  | nil => rfl
  | cons name rest ih =>
    rw [creatable_cons]
    unfold createFirst created?
    cases create name with
    | created backend => rfl
    | unknown message => exact ih
    | unavailable message => exact ih

variable (create) in
theorem createAll_fst (order : List String) :
    (createAll create order).1 = creatable create order := by
  induction order with
  | nil => rfl
  | cons name rest ih =>
    rw [creatable_cons]
    unfold createAll created?
    cases create name with
    | created backend => exact congrArg _ ih
    | unknown message => exact ih
    | unavailable message => exact ih

/-- The names that a request may be answered with. -/
def candidates (requested : String) (order : List String) : List String :=
  if requested = "auto" then order else [requested]

theorem creatable_named (name : String) :
    creatable create [name] = (created? create name).toList := by
  rw [creatable_cons]
  exact List.append_nil _

theorem selectNamed_ok {stage name : String} {p : String × β} :
    selectNamed create stage name = .ok p ↔ (creatable create [name]).head? = some p := by
  rw [creatable_named]
  unfold selectNamed created?
  cases create name with
  | created backend => simp
  | unknown message => simp
  | unavailable message => simp

theorem selectNamed_error {stage name : String} {status : Status}
    (h : selectNamed create stage name = .error status) : status.stage = "configure" := by
  unfold selectNamed at h
  cases hcreate : create name with
  | created backend =>
    rw [hcreate] at h
    cases h
  | unknown message =>
    rw [hcreate] at h
    obtain rfl := Except.error.inj h
    rfl
  | unavailable message =>
    rw [hcreate] at h
    obtain rfl := Except.error.inj h
    rfl

/-- A request that is answered by all of its candidates that can be created. -/
structure Chained (create : String → Creation β) (chain : List (String × β) → β)
    (names : List String) (p : String × β) : Prop where
  nonempty : creatable create names ≠ []
  resolved : p.1 = joinNames ((creatable create names).map Prod.fst)
  backend : p.2 = chain (creatable create names)

theorem joinNames_singleton (name : String) : joinNames [name] = name := by
  simp [joinNames, joinWith]

theorem chained_iff {chain : List (String × β) → β} {names : List String} {p : String × β}
    (h : creatable create names ≠ []) :
    Chained create chain names p ↔
      (joinNames ((creatable create names).map Prod.fst), chain (creatable create names)) = p :=
  ⟨fun hchained => Prod.ext hchained.resolved.symm hchained.backend.symm,
    fun hp => ⟨h, hp ▸ rfl, hp ▸ rfl⟩⟩

theorem selectChain_ok {chain : List (String × β) → β} (hone : ∀ p, chain [p] = p.2)
    (stage : String) {requested : String} {order : List String} {p : String × β} :
    selectChain create stage chain requested order = .ok p ↔
      Chained create chain (candidates requested order) p := by
  unfold selectChain candidates
  split_ifs with hauto
  · have hall := createAll_fst create order
    rcases hcase : createAll create order with ⟨available, reasons⟩
    rw [hcase] at hall
    dsimp only at hall ⊢
    rcases available with _ | ⟨⟨name, backend⟩, _ | ⟨second, rest⟩⟩
    · exact iff_of_false (fun h => by cases h) fun h => h.nonempty hall.symm
    · rw [chained_iff (hall ▸ List.cons_ne_nil _ _), ← hall, hone]
      exact ⟨Except.ok.inj, congrArg _⟩
    · rw [chained_iff (hall ▸ List.cons_ne_nil _ _), ← hall]
      exact ⟨Except.ok.inj, congrArg _⟩
  · rw [selectNamed_ok]
    cases hnamed : creatable create [requested] with
    | nil => exact iff_of_false (fun h => by cases h) fun h => h.nonempty hnamed
    | cons first rest =>
      obtain ⟨hname, -⟩ := mem_creatable.mp (hnamed ▸ List.mem_cons_self : first ∈ _)
      have hrest : rest = [] := by
        rw [creatable_named] at hnamed
        cases hcreated : created? create requested with
        | none => rw [hcreated] at hnamed; cases hnamed
        | some q => rw [hcreated] at hnamed; exact (List.cons.inj hnamed).2.symm
      rw [chained_iff (hnamed ▸ List.cons_ne_nil _ _), hnamed, hrest, hone]
      have hfirst : joinNames ([first].map Prod.fst) = first.1 := joinNames_singleton _
      rw [hfirst]
      exact ⟨Option.some.inj, congrArg _⟩

theorem selectChain_error {chain : List (String × β) → β} {stage requested : String}
    {order : List String} {status : Status}
    (h : selectChain create stage chain requested order = .error status) :
    status.stage = "configure" := by
  unfold selectChain at h
  split_ifs at h
  · split at h
    · obtain rfl := Except.error.inj h
      rfl
    · cases h
    · cases h
  · exact selectNamed_error h

end Orders

/-! ## Names in a chain -/

section Names

/-- A name that no arrow divides. -/
def NoArrow (name : String) : Prop := ¬ ['-', '>'] <:+: name.toList

theorem arrowParts_append {name : List Char} (h : ¬ ['-', '>'] <:+: name) (rest : List Char) :
    ∀ current, arrowParts current (name ++ '-' :: '>' :: rest) =
      (current ++ name) :: arrowParts [] rest := by
  induction name with
  | nil =>
    intro current
    rw [List.nil_append, List.append_nil, arrowParts]
  | cons c name ih =>
    intro current
    have hname : ¬ ['-', '>'] <:+: name := fun hinfix => h (List.infix_cons hinfix)
    have hstep : arrowParts current (c :: (name ++ '-' :: '>' :: rest)) =
        arrowParts (current ++ [c]) (name ++ '-' :: '>' :: rest) := by
      rw [arrowParts]
      rintro tail rfl htail
      cases name with
      | nil => exact absurd (List.cons.inj htail).1 (by decide)
      | cons d name =>
        obtain ⟨rfl, -⟩ := List.cons.inj htail
        exact h ⟨[], name, rfl⟩
    rw [List.cons_append, hstep, ih hname]
    exact congrArg (· :: _) (List.append_assoc current [c] name)

theorem arrowParts_last {name : List Char} (h : ¬ ['-', '>'] <:+: name) :
    ∀ current, arrowParts current name = [current ++ name] := by
  induction name with
  | nil =>
    intro current
    rw [List.append_nil, arrowParts]
  | cons c name ih =>
    intro current
    have hname : ¬ ['-', '>'] <:+: name := fun hinfix => h (List.infix_cons hinfix)
    have hstep : arrowParts current (c :: name) = arrowParts (current ++ [c]) name := by
      rw [arrowParts]
      rintro tail rfl rfl
      exact h ⟨[], tail, rfl⟩
    rw [hstep, ih hname]
    exact congrArg (fun part => [part]) (List.append_assoc current [c] name)

/-- The characters of a name and of those behind it. -/
def chained (name : List Char) (rest : List (List Char)) : List Char :=
  name ++ rest.flatMap fun other => '-' :: '>' :: other

theorem joinWith_chained (rest : List String) : ∀ joined : String, joined ≠ "" →
    (rest.foldl (fun joined part =>
      joined ++ (if joined.isEmpty then "" else "->") ++ part) joined).toList =
      chained joined.toList (rest.map String.toList) := by
  induction rest with
  | nil => exact fun joined _ => (List.append_nil _).symm
  | cons part rest ih =>
    intro joined hjoined
    have hsep : (if joined.isEmpty then "" else "->") = "->" :=
      if_neg fun hempty => hjoined (String.isEmpty_iff.mp hempty)
    rw [List.foldl_cons, hsep, ih _ fun hempty => hjoined ?_]
    · unfold chained
      rw [String.toList_append, String.toList_append, List.map_cons, List.flatMap_cons,
        List.append_assoc, List.append_assoc]
      rfl
    · have hchars := congrArg String.toList hempty
      rw [String.toList_append, String.toList_append] at hchars
      exact String.toList_eq_nil_iff.mp
        (List.append_eq_nil_iff.mp (List.append_eq_nil_iff.mp hchars).1).1

theorem arrowParts_chained (rest : List (List Char)) :
    ∀ name : List Char, (∀ part ∈ name :: rest, ¬ ['-', '>'] <:+: part) →
      arrowParts [] (chained name rest) = name :: rest := by
  induction rest with
  | nil =>
    intro name h
    unfold chained
    rw [List.flatMap_nil, List.append_nil]
    exact arrowParts_last (h name List.mem_cons_self) []
  | cons next rest ih =>
    intro name h
    have hnext := ih next fun part hpart => h part (List.mem_cons_of_mem _ hpart)
    unfold chained at hnext ⊢
    rw [List.flatMap_cons]
    exact (arrowParts_append (h name List.mem_cons_self) _ []).trans (congrArg (name :: ·) hnext)

/-- **The parts of a resolved name** are the names that were joined. -/
theorem containsBackend_joinNames {names : List String} (hnil : names ≠ [])
    (hnames : ∀ name ∈ names, name ≠ "" ∧ NoArrow name) (backend : String) :
    containsBackend (joinNames names) backend = names.contains backend := by
  obtain ⟨name, rest, rfl⟩ := List.exists_cons_of_ne_nil hnil
  have hname := hnames name List.mem_cons_self
  have hparts : arrowParts [] (joinNames (name :: rest)).toList =
      (name :: rest).map String.toList := by
    have hjoined : joinNames (name :: rest) = rest.foldl (fun joined part =>
        joined ++ (if joined.isEmpty then "" else "->") ++ part) name := by
      simp [joinNames, joinWith]
    rw [hjoined, joinWith_chained rest name hname.1]
    refine arrowParts_chained _ _ fun part hpart => ?_
    obtain ⟨other, hother, rfl⟩ := List.mem_map.mp (List.map_cons .. ▸ hpart :
      part ∈ (name :: rest).map String.toList)
    exact (hnames other hother).2
  unfold containsBackend
  rw [hparts, List.any_map, List.contains_eq_any_beq]
  refine List.any_congr rfl fun other => ?_
  rw [Function.comp_apply, Bool.eq_iff_iff, beq_iff_eq, beq_iff_eq]
  exact ⟨fun h => (String.toList_injective h).symm, fun h => congrArg _ h.symm⟩

end Names

/-! ## The services of a registry -/

section Services

variable {α : Type} [Double α] {registry : BackendRegistry α} {config : BackendRegistryConfig}

/-- The first candidate, or, on request for any, a backend that always fails. -/
def OcrSelected (registry : BackendRegistry α) (requested : String) (order : List String)
    (p : String × OcrBackend α) : Prop :=
  (creatable registry.ocr.create (candidates requested order)).head? = some p ∨
    requested = "auto" ∧ creatable registry.ocr.create order = [] ∧
      ∃ reason, p = ("unavailable", unavailableOcr reason)

/-- The services that a registry selects, under their resolved names. -/
structure Selected (registry : BackendRegistry α) (config : BackendRegistryConfig)
    (options resolved : BackendOptions) (services : PipelineServices α) : Prop where
  document : (creatable registry.createDocument
    (candidates options.document config.documentAutoOrder)).head? =
      some (resolved.document, services.document)
  ocr : OcrSelected registry options.ocr config.ocrAutoOrder (resolved.ocr, services.ocr)
  layout : Chained registry.layout.create chainedLayout
    (candidates options.layout config.layoutAutoOrder) (resolved.layout, services.layout)
  table : Chained registry.table.create chainedTable
    (candidates options.table config.tableAutoOrder) (resolved.table, services.table)
  readingOrder : services.readingOrder = doclingLike
  registryConfig : resolved.registryConfig = options.registryConfig

/-- Every request has a candidate that can be created, that for an OCR backend if it is explicit. -/
structure Provides (registry : BackendRegistry α) (config : BackendRegistryConfig)
    (options : BackendOptions) : Prop where
  document : creatable registry.createDocument
    (candidates options.document config.documentAutoOrder) ≠ []
  ocr : options.ocr = "auto" ∨ creatable registry.ocr.create [options.ocr] ≠ []
  layout : creatable registry.layout.create (candidates options.layout config.layoutAutoOrder) ≠ []
  table : creatable registry.table.create (candidates options.table config.tableAutoOrder) ≠ []

omit [Double α] in
theorem selectDocument_ok {requested : String} {p : String × DocumentSourceBundle α} :
    selectDocument registry config requested = .ok p ↔
      (creatable registry.createDocument
        (candidates requested config.documentAutoOrder)).head? = some p := by
  unfold selectDocument candidates
  split_ifs with hauto
  · rw [createFirst_fst]
    cases (creatable registry.createDocument config.documentAutoOrder).head? with
    | none => exact iff_of_false (fun h => by cases h) fun h => by cases h
    | some selected => exact ⟨fun h => congrArg _ (Except.ok.inj h),
        fun h => congrArg _ (Option.some.inj h)⟩
  · exact selectNamed_ok

omit [Double α] in
theorem selectDocument_error {requested : String} {status : Status}
    (h : selectDocument registry config requested = .error status) :
    status.stage = "configure" := by
  unfold selectDocument at h
  split_ifs at h
  · split at h
    · obtain rfl := Except.error.inj h
      rfl
    · cases h
  · exact selectNamed_error h

omit [Double α] in
theorem selectOcr_error {requested : String} {status : Status}
    (h : selectOcr registry config requested = .error status) : status.stage = "configure" := by
  unfold selectOcr at h
  split_ifs at h
  · split at h
    · cases h
    · cases h
  · exact selectNamed_error h

omit [Double α] in
theorem selectOcr_ok {requested : String} {p : String × OcrBackend α}
    (h : selectOcr registry config requested = .ok p) :
    OcrSelected registry requested config.ocrAutoOrder p := by
  unfold selectOcr at h
  unfold OcrSelected candidates
  split_ifs at h ⊢ with hauto
  · have hfirst := createFirst_fst registry.ocr.create config.ocrAutoOrder
    rcases hcase : createFirst registry.ocr.create config.ocrAutoOrder with ⟨found, reasons⟩
    rw [hcase] at hfirst h
    cases found with
    | some selected =>
      obtain rfl := Except.ok.inj h
      exact .inl hfirst.symm
    | none =>
      obtain rfl := Except.ok.inj h
      exact .inr ⟨hauto, List.head?_eq_none_iff.mp hfirst.symm, _, rfl⟩
  · exact .inl (selectNamed_ok.mp h)

omit [Double α] in
theorem selectOcr_some {requested : String}
    (h : requested = "auto" ∨ creatable registry.ocr.create [requested] ≠ []) :
    ∃ p, selectOcr registry config requested = .ok p := by
  unfold selectOcr
  split_ifs with hauto
  · split
    · exact ⟨_, rfl⟩
    · exact ⟨_, rfl⟩
  · obtain ⟨first, rest, hnamed⟩ := List.exists_cons_of_ne_nil (h.resolve_left hauto)
    exact ⟨first, selectNamed_ok.mpr (by rw [hnamed]; rfl)⟩

omit [Double α] in
theorem chainedLayout_one (p : String × LayoutBackend α) : chainedLayout [p] = p.2 := by
  funext read page text
  unfold chainedLayout ChainedLayoutBackend.analyze
  cases hfound : p.2 read page text with
  | none => simp [runChain, hfound]
  | some answer => simp [runChain, hfound, layoutChain]

omit [Double α] in
theorem chainedTable_one (p : String × TableBackend α) : chainedTable [p] = p.2 := by
  funext read page text layout
  unfold chainedTable ChainedTableBackend.recognize
  cases hfound : p.2 read page text layout with
  | none => simp [runChain, hfound]
  | some answer => simp [runChain, hfound, tableChain]

variable {build : EngineBuild} {readFile : String → ConfigFile} {options : BackendOptions}

/-- The provenance that services are created with. -/
def createdProvenance (build : EngineBuild) (options resolved : BackendOptions) : RunProvenance :=
  { RunProvenance.initial with
    engineVersion := build.engineVersion
    gitRevision := build.gitRevision
    backends := ⟨options, resolved,
      if options.registryConfig.isEmpty then "builtin" else options.registryConfig⟩ }

theorem createPipelineServices_ok {services : PipelineServices α} {provenance : RunProvenance}
    (h : createPipelineServices build readFile registry options = .ok (services, provenance)) :
    ∃ config resolved,
      loadBackendRegistryConfig options.registryConfig readFile registry = .ok config ∧
        Selected registry config options resolved services ∧
        provenance = createdProvenance build options resolved := by
  unfold createPipelineServices at h
  obtain ⟨config, hconfig, h⟩ := ok_of_bind h
  obtain ⟨⟨documentName, document⟩, hdocument, h⟩ := ok_of_bind h
  obtain ⟨⟨ocrName, ocr⟩, hocr, h⟩ := ok_of_bind h
  obtain ⟨⟨layoutName, layout⟩, hlayout, h⟩ := ok_of_bind h
  obtain ⟨⟨tableName, table⟩, htable, h⟩ := ok_of_bind h
  obtain ⟨rfl, rfl⟩ := Prod.mk.inj (Except.ok.inj h)
  exact ⟨config, ⟨documentName, ocrName, layoutName, tableName, options.registryConfig⟩,
    mapError_ok.mp hconfig,
    ⟨selectDocument_ok.mp hdocument, selectOcr_ok hocr,
      (selectChain_ok chainedLayout_one _).mp hlayout,
      (selectChain_ok chainedTable_one _).mp htable, rfl, rfl⟩, rfl⟩

/-- A registry that provides for the options creates services. -/
theorem createPipelineServices_some (build : EngineBuild)
    (hconfig : loadBackendRegistryConfig options.registryConfig readFile registry = .ok config)
    (h : Provides registry config options) :
    ∃ r, createPipelineServices build readFile registry options = .ok r := by
  obtain ⟨document, _, hdocument⟩ := List.exists_cons_of_ne_nil h.document
  have hdocument' : selectDocument registry config options.document = .ok document :=
    selectDocument_ok.mpr (by rw [hdocument]; rfl)
  obtain ⟨ocr, hocr⟩ : ∃ p, selectOcr registry config options.ocr = .ok p := selectOcr_some h.ocr
  have hlayout := (selectChain_ok chainedLayout_one "layout").mpr
    ((chained_iff h.layout).mpr rfl)
  have htable := (selectChain_ok chainedTable_one "table").mpr
    ((chained_iff h.table).mpr rfl)
  exact ⟨_, bind_ok (mapError_ok.mpr hconfig) <| bind_ok hdocument' <| bind_ok hocr <|
    bind_ok hlayout <| bind_ok htable rfl⟩

theorem Selected.provides {resolved : BackendOptions} {services : PipelineServices α}
    (h : Selected registry config options resolved services) :
    Provides registry config options := by
  refine ⟨fun hnil => ?_, ?_, h.layout.nonempty, h.table.nonempty⟩
  · have hdocument := h.document
    rw [hnil] at hdocument
    cases hdocument
  · by_cases hauto : options.ocr = "auto"
    · exact .inl hauto
    · refine .inr fun hnil => ?_
      rcases h.ocr with hocr | ⟨hocr, -⟩
      · unfold candidates at hocr
        rw [if_neg hauto, hnil] at hocr
        cases hocr
      · exact hauto hocr

/-- Every failure is one of the configuration. -/
theorem createPipelineServices_error {status : Status}
    (h : createPipelineServices build readFile registry options = .error status) :
    status.stage = "configure" := by
  unfold createPipelineServices at h
  rcases error_of_bind h with hconfig | ⟨config, -, h⟩
  · obtain ⟨message, rfl⟩ := mapError_error hconfig
    rfl
  rcases error_of_bind h with hdocument | ⟨document, -, h⟩
  · exact selectDocument_error hdocument
  rcases error_of_bind h with hocr | ⟨ocr, -, h⟩
  · exact selectOcr_error hocr
  rcases error_of_bind h with hlayout | ⟨layout, -, h⟩
  · exact selectChain_error hlayout
  rcases error_of_bind h with htable | ⟨table, -, h⟩
  · exact selectChain_error htable
  · cases h

/-! ## Backends that keep their part -/

/-- The backends that a registry can create keep their part of a run. -/
structure RegistryKept (registry : BackendRegistry α) : Prop where
  document : ∀ name source, registry.createDocument name = .created source → SourceKept source
  layout : ∀ name backend, registry.layout.create name = .created backend →
    ∀ read (page : StoredPage) text layout diagnostics,
      backend read page text = some (layout, diagnostics) →
        LayoutKept page.toPageArtifact text layout diagnostics
  table : ∀ name backend, registry.table.create name = .created backend →
    ∀ read (page : StoredPage) text layout tables diagnostics,
      backend read page text layout = some (tables, diagnostics) →
        NumberedBlocks layout.pageNumber layout.blocks →
          TablesKept page.toPageArtifact layout tables diagnostics

omit [Double α] in
/-- The diagnostics of a chain: those of the fallbacks before those of the backend. -/
theorem reportable_fallbacks {ρ σ : Type} {kind : ChainKind ρ σ} {request : ρ}
    (hcode : kind.code ≠ "") (hmessage : kind.message ≠ "") (pairs : List (String × String))
    {own : List Diagnostic} {pageNumber : Int} (hpage : kind.pageNumber request = pageNumber)
    (hown : ∀ diagnostic ∈ own, Reportable [pageNumber] diagnostic) :
    ∀ diagnostic ∈ pairs.map (fun p => fallbackDiagnostic kind request p.1 p.2) ++ own,
      Reportable [pageNumber] diagnostic := by
  intro diagnostic hmem
  rcases List.mem_append.mp hmem with hmem | hmem
  · obtain ⟨p, -, rfl⟩ := List.mem_map.mp hmem
    exact ⟨hcode, hmessage, .inr (List.mem_singleton.mpr hpage)⟩
  · exact hown diagnostic hmem

omit [Double α] in
/-- **A layout chain** answers as one of its backends does. -/
theorem chainedLayout_kept {backends : List (String × LayoutBackend α)} {read : ReadImage}
    {page : StoredPage} {text : PageText α}
    (h : ∀ p ∈ backends, ∀ layout diagnostics, p.2 read page text = some (layout, diagnostics) →
      LayoutKept page.toPageArtifact text layout diagnostics)
    {layout : PageLayout α} {diagnostics : List Diagnostic}
    (hsome : chainedLayout backends read page text = some (layout, diagnostics)) :
    LayoutKept page.toPageArtifact text layout diagnostics := by
  unfold chainedLayout ChainedLayoutBackend.analyze at hsome
  dsimp only at hsome
  split_ifs at hsome with hanswer
  obtain ⟨rfl, rfl⟩ := Prod.mk.inj (Option.some.inj hsome)
  rcases @runChain_reports _ _ layoutChain _ _ _ with ⟨-, hfalse⟩ |
    ⟨failed, winner, rest, hsplit, -, hwins, -, hresult, -⟩
  · rw [hfalse] at hanswer
    cases hanswer
  · obtain ⟨p, hp, rfl⟩ := List.mem_map.mp (hsplit ▸
      List.mem_append_right failed List.mem_cons_self : winner ∈ _)
    rw [hresult]
    unfold Succeeds at hwins
    dsimp only at hwins ⊢
    cases hfound : p.2 read page text with
    | none =>
      rw [hfound] at hwins
      cases hwins
    | some found =>
      obtain ⟨hnumbered, hlines, hown⟩ := h p hp found.1 found.2 hfound
      exact ⟨hnumbered, hlines, reportable_fallbacks (by simp [layoutChain, kLayoutBackendFallback])
        (by simp [layoutChain]) _ rfl hown⟩

omit [Double α] in
/-- **A table chain** answers as one of its backends does. -/
theorem chainedTable_kept {backends : List (String × TableBackend α)} {read : ReadImage}
    {page : StoredPage} {text : PageText α} {layout : PageLayout α}
    (h : ∀ p ∈ backends, ∀ tables diagnostics,
      p.2 read page text layout = some (tables, diagnostics) →
        TablesKept page.toPageArtifact layout tables diagnostics)
    {tables : PageTables α} {diagnostics : List Diagnostic}
    (hsome : chainedTable backends read page text layout = some (tables, diagnostics)) :
    TablesKept page.toPageArtifact layout tables diagnostics := by
  unfold chainedTable ChainedTableBackend.recognize at hsome
  dsimp only at hsome
  split_ifs at hsome with hanswer
  obtain ⟨rfl, rfl⟩ := Prod.mk.inj (Option.some.inj hsome)
  rcases @runChain_reports _ _ tableChain _ _ _ with ⟨-, hfalse⟩ |
    ⟨failed, winner, rest, hsplit, -, hwins, -, hresult, -⟩
  · rw [hfalse] at hanswer
    cases hanswer
  · obtain ⟨p, hp, rfl⟩ := List.mem_map.mp (hsplit ▸
      List.mem_append_right failed List.mem_cons_self : winner ∈ _)
    rw [hresult]
    unfold Succeeds at hwins
    dsimp only at hwins ⊢
    cases hfound : p.2 read page text layout with
    | none =>
      rw [hfound] at hwins
      cases hwins
    | some found =>
      obtain ⟨hnames, hown⟩ := h p hp found.1 found.2 hfound
      exact ⟨hnames, reportable_fallbacks (by simp [tableChain, kTableBackendFallback])
        (by simp [tableChain]) _ rfl hown⟩

/-- **Selected services** keep the contract when the backends of the registry do. -/
theorem Selected.contract (hkept : RegistryKept registry) {resolved : BackendOptions}
    {services : PipelineServices α} (h : Selected registry config options resolved services) :
    ContractServices services where
  pageCount := by
    obtain ⟨-, hcreated⟩ := mem_creatable.mp (List.mem_of_mem_head? h.document)
    exact (hkept.document _ _ hcreated).pageCount
  pages := by
    obtain ⟨-, hcreated⟩ := mem_creatable.mp (List.mem_of_mem_head? h.document)
    exact (hkept.document _ _ hcreated).pages
  layout read page text layout diagnostics hsome := by
    have hbackend := h.layout.backend
    dsimp only at hbackend
    rw [hbackend] at hsome
    refine chainedLayout_kept (fun p hp layout diagnostics hfound => ?_) hsome
    exact hkept.layout _ _ (mem_creatable.mp hp).2 read page text layout diagnostics hfound
  tables read page text layout tables diagnostics hsome hids := by
    have hbackend := h.table.backend
    dsimp only at hbackend
    rw [hbackend] at hsome
    refine chainedTable_kept (fun p hp tables diagnostics hfound => ?_) hsome
    exact hkept.table _ _ (mem_creatable.mp hp).2 read page text layout tables diagnostics hfound
      hids

/-! ## The models that are listed -/

/-- The models of a configuration, in the order of their stages. -/
def modelTable (models : ModelConfig) : List ModelProvenance :=
  [⟨"text", "paddle", "detection", models.detectionModel, models.ocrProfile⟩,
    ⟨"text", "paddle", "recognition", models.recognitionModel, models.ocrProfile⟩,
    ⟨"text", "paddle", "character_dictionary", models.characterDict, models.ocrProfile⟩,
    ⟨"text", "tesseract", "executable", models.tesseractExecutable, models.tesseractLanguage⟩,
    ⟨"layout", "doclaynet", "layout", models.doclaynetModel, ""⟩,
    ⟨"layout", "paddle-layout", "layout", models.paddleLayoutModel, ""⟩,
    ⟨"table", "table-transformer", "detection", models.tableDetectionModel, ""⟩,
    ⟨"table", "table-transformer", "structure", models.tableStructureModel, ""⟩]

/-- The backend names of a stage, with those of a chain one by one. -/
def usedBackends (ocr : String) (layout table : List String) (stage : String) : List String :=
  if stage = "text" then [ocr] else if stage = "layout" then layout else table

theorem filter_model (p : ModelProvenance → Bool) (stage backend role path profile : String)
    (rest : List ModelProvenance) :
    (ModelProvenance.mk stage backend role path profile :: rest).filter
        (fun m => !m.path.isEmpty && p m) =
      (if p ⟨stage, backend, role, path, profile⟩ then model stage backend role path profile
        else []) ++ rest.filter fun m => !m.path.isEmpty && p m := by
  unfold model
  rw [List.filter_cons]
  dsimp only
  cases path.isEmpty with
  | true => simp
  | false =>
    cases p ⟨stage, backend, role, path, profile⟩ with
    | true => simp
    | false => simp

/-- The models of a run are those of the backends in use that have a path. -/
theorem configuredModels_filter (models : ModelConfig) {resolved : BackendOptions}
    {layout table : List String}
    (hlayout : ∀ backend, containsBackend resolved.layout backend = layout.contains backend)
    (htable : ∀ backend, containsBackend resolved.table backend = table.contains backend) :
    configuredModels models resolved = (modelTable models).filter fun m =>
      !m.path.isEmpty && (usedBackends resolved.ocr layout table m.stage).contains m.backend := by
  have htext : ∀ backend, (usedBackends resolved.ocr layout table "text").contains backend =
      decide (resolved.ocr = backend) := by
    intro backend
    show [resolved.ocr].contains backend = _
    rw [Bool.eq_iff_iff, List.contains_iff_mem, List.mem_singleton, decide_eq_true_iff]
    exact eq_comm
  have hlayouts : usedBackends resolved.ocr layout table "layout" = layout := rfl
  have htables : usedBackends resolved.ocr layout table "table" = table := rfl
  unfold configuredModels modelTable
  simp only [filter_model, htext, hlayouts, htables, hlayout, htable, List.filter_nil]
  by_cases hpaddle : resolved.ocr = "paddle"
  · cases table.contains "table-transformer" with
    | true => simp [hpaddle]
    | false => simp [hpaddle]
  · by_cases htesseract : resolved.ocr = "tesseract"
    · cases table.contains "table-transformer" with
      | true => simp [htesseract]
      | false => simp [htesseract]
    · cases table.contains "table-transformer" with
      | true => simp [hpaddle, htesseract]
      | false => simp [hpaddle, htesseract]

/-- Names that stay apart when they are joined. -/
def PlainNames {β : Type} (registry : TypedBackendRegistry β) : Prop :=
  ∀ name, registry.contains name = true → name ≠ "" ∧ NoArrow name

omit [Double α] in
theorem contains_of_created {β : Type} {registry : TypedBackendRegistry β} {name : String}
    {backend : β} (h : registry.create name = .created backend) :
    registry.contains name = true := by
  unfold TypedBackendRegistry.create at h
  unfold TypedBackendRegistry.contains
  cases hlookup : registry.factories.lookup name with
  | none =>
    rw [hlookup] at h
    cases h
  | some factory => rfl

theorem Chained.contains {β : Type} {registry : TypedBackendRegistry β}
    (hplain : PlainNames registry) {chain : List (String × β) → β} {names : List String}
    {p : String × β}
    (h : Chained registry.create chain names p) (backend : String) :
    containsBackend p.1 backend =
      ((creatable registry.create names).map Prod.fst).contains backend := by
  rw [h.resolved]
  refine containsBackend_joinNames (fun hnil => h.nonempty (List.map_eq_nil_iff.mp hnil))
    (fun name hname => ?_) backend
  obtain ⟨q, hq, rfl⟩ := List.mem_map.mp hname
  exact hplain _ (contains_of_created (mem_creatable.mp hq).2)

/-- What is created for options. -/
structure Created (build : EngineBuild) (readFile : String → ConfigFile)
    (registry : BackendRegistry α) (models : ModelConfig) (options : BackendOptions)
    (config : BackendRegistryConfig) (services : PipelineServices α)
    (provenance : RunProvenance) : Prop where
  configured : ConfiguresAt options.registryConfig readFile config
  orders : OrdersOk registry config
  selected : Selected registry config options provenance.backends.resolved services
  recorded : ∃ listed, provenance =
    { createdProvenance build options provenance.backends.resolved with models := listed }
  models : PlainNames registry.layout → PlainNames registry.table →
    provenance.models = (modelTable models).filter fun m =>
      !m.path.isEmpty && (usedBackends provenance.backends.resolved.ocr
        ((creatable registry.layout.create
          (candidates options.layout config.layoutAutoOrder)).map Prod.fst)
        ((creatable registry.table.create
          (candidates options.table config.tableAutoOrder)).map Prod.fst) m.stage).contains
            m.backend

theorem createConfiguredServices_ok {models : ModelConfig} {services : PipelineServices α}
    {provenance : RunProvenance}
    (h : createConfiguredServices build readFile registry models options =
      .ok (services, provenance)) :
    ∃ config, Created build readFile registry models options config services provenance := by
  unfold createConfiguredServices at h
  obtain ⟨⟨created, without⟩, hcreated, h⟩ := ok_of_bind h
  obtain ⟨rfl, rfl⟩ := Prod.mk.inj (Except.ok.inj h)
  obtain ⟨config, resolved, hconfig, hselected, rfl⟩ := createPipelineServices_ok hcreated
  obtain ⟨hconfigured, horders⟩ := loadBackendRegistryConfig_ok.mp hconfig
  refine ⟨config, hconfigured, horders, hselected, ⟨_, rfl⟩, fun hlayout htable => ?_⟩
  exact (List.nil_append _).trans (configuredModels_filter models
    (hselected.layout.contains hlayout) (hselected.table.contains htable))

/-- **The services of a registry.** They are created exactly if the configuration can be read, its
orders hold names of the registry, and each request has a backend that can be created; then they are
the selected ones, under the names and, where the names of layout and table backends are plain, with
the models that the provenance lists. Every failure is one of the configuration, and backends that
keep their part make services with which every run keeps its contract. -/
theorem created_services (build : EngineBuild) (readFile : String → ConfigFile)
    (registry : BackendRegistry α) (models : ModelConfig) (options : BackendOptions) :
    (∀ services provenance, createConfiguredServices build readFile registry models options =
      .ok (services, provenance) →
        ∃ config, Created build readFile registry models options config services provenance) ∧
    ((∃ r, createConfiguredServices build readFile registry models options = .ok r) ↔
      ∃ config, ConfiguresAt options.registryConfig readFile config ∧ OrdersOk registry config ∧
        Provides registry config options) ∧
    (∀ status, createConfiguredServices build readFile registry models options = .error status →
      status.stage = "configure") ∧
    (RegistryKept registry → ∀ run : PipelineRunOptions,
      ServicesKept run none (some (createConfiguredServices build readFile registry models))) := by
  refine ⟨fun services provenance h => createConfiguredServices_ok h, ⟨?_, ?_⟩,
    fun status h => ?_, fun hkept run => And.intro (fun s hs => by cases hs) ?_⟩
  · rintro ⟨⟨services, provenance⟩, h⟩
    obtain ⟨config, hcreated⟩ := createConfiguredServices_ok h
    exact ⟨config, hcreated.configured, hcreated.orders, hcreated.selected.provides⟩
  · rintro ⟨config, hconfigured, horders, hprovides⟩
    obtain ⟨r, hr⟩ := createPipelineServices_some build
      (loadBackendRegistryConfig_ok.mpr ⟨hconfigured, horders⟩) hprovides
    exact ⟨_, bind_ok hr rfl⟩
  · rcases error_of_bind h with h | ⟨created, -, h⟩
    · exact createPipelineServices_error h
    · cases h
  · intro create services provenance hcreate h
    obtain rfl := Option.some.inj hcreate
    obtain ⟨config, hcreated⟩ := createConfiguredServices_ok h
    exact hcreated.selected.contract hkept

end Services

/-! ## The default registry -/

section DefaultRegistry

variable {α : Type} [Double α]

/-- What the default registry is made of. A build without the model runtime has no instances of the
backends that need a model. -/
structure DefaultParts (α : Type) where
  pdf : Option (DocumentSourceBundle α)
  noop : OcrBackend α
  tesseract : Offer (OcrBackend α)
  paddle : Factory (OcrBackend α)
  doclaynet : Factory (LayoutBackend α)
  paddleLayout : Factory (LayoutBackend α)
  tableTransformer : Factory (TableBackend α)
  sort : List (TextSpan α) → List (TextSpan α)

/-- The registrations one by one; a name that is taken keeps its backend. -/
def registerAll {β : Type} (entries : List (String × Factory β)) : TypedBackendRegistry β :=
  entries.foldl (fun registry entry => (registry.registerBackend entry.1 (some entry.2)).2) ⟨[]⟩

def createDefaultBackendRegistry (parts : DefaultParts α) : BackendRegistry α where
  documentFactories := [("pdf", parts.pdf)]
  ocr := registerAll [("noop", some ⟨parts.noop, true, ""⟩), ("tesseract", some parts.tesseract),
    ("paddle", parts.paddle)]
  layout := registerAll [("text", some ⟨textLayout parts.sort, true, ""⟩),
    ("doclaynet", parts.doclaynet), ("paddle-layout", parts.paddleLayout)]
  table := registerAll [("text", some ⟨textTables parts.sort, true, ""⟩),
    ("table-transformer", parts.tableTransformer)]

section Registered

variable {β : Type}

theorem registerBackend_subset (registry : TypedBackendRegistry β) (name : String)
    (factory : Option (Factory β)) {entry : String × Factory β}
    (h : entry ∈ (registry.registerBackend name factory).2.factories) :
    entry ∈ registry.factories ∨ entry.1 = name ∧ factory = some entry.2 := by
  unfold TypedBackendRegistry.registerBackend at h
  cases factory with
  | none => exact .inl h
  | some factory =>
    dsimp only at h
    split_ifs at h
    · exact .inl h
    · rcases List.mem_append.mp h with h | h
      · exact .inl h
      · obtain rfl := List.mem_singleton.mp h
        exact .inr ⟨rfl, rfl⟩

/-- A registry holds what was registered. -/
theorem registerAll_subset {entries : List (String × Factory β)} {entry : String × Factory β}
    (h : entry ∈ (registerAll entries).factories) : entry ∈ entries := by
  have hall : ∀ entry ∈ (registerAll entries).factories, entry ∈ entries := by
    unfold registerAll
    refine List.foldlRecOn (motive := fun registry : TypedBackendRegistry β =>
      ∀ entry ∈ registry.factories, entry ∈ entries) entries _
      (fun entry hentry => absurd hentry List.not_mem_nil)
      fun registry hregistry new hnew entry hentry => ?_
    rcases registerBackend_subset registry new.1 (some new.2) hentry with hentry | ⟨hname, hfactory⟩
    · exact hregistry entry hentry
    · obtain rfl : new = entry := Prod.ext hname.symm (Option.some.inj hfactory)
      exact hnew
  exact hall entry h

theorem mem_of_lookup {name : String} {factory : β} {entries : List (String × β)}
    (h : entries.lookup name = some factory) : (name, factory) ∈ entries := by
  obtain ⟨front, rest, rfl, -⟩ := List.lookup_eq_some_iff.mp h
  exact List.mem_append_right front List.mem_cons_self

theorem created_mem {entries : List (String × Factory β)} {name : String} {backend : β}
    (h : (registerAll entries).create name = .created backend) :
    ∃ offer, (name, some offer) ∈ entries ∧ offer.backend = backend := by
  unfold TypedBackendRegistry.create at h
  split at h
  · cases h
  · cases h
  next offer hlookup =>
    split_ifs at h
    obtain rfl := Creation.created.inj h
    exact ⟨offer, registerAll_subset (mem_of_lookup hlookup), rfl⟩

theorem plainNames_registerAll {entries : List (String × Factory β)}
    (h : ∀ name ∈ entries.map Prod.fst, name ≠ "" ∧ NoArrow name) :
    PlainNames (registerAll entries) := by
  intro name hname
  obtain ⟨factory, hfactory⟩ := Option.isSome_iff_exists.mp hname
  exact h name (List.mem_map_of_mem (registerAll_subset (mem_of_lookup hfactory)))

end Registered

variable (parts : DefaultParts α)

/-- The standard orders name backends of the default registry. -/
theorem loadBackendRegistryConfig_default (readFile : String → ConfigFile) :
    loadBackendRegistryConfig "" readFile (createDefaultBackendRegistry parts) =
      .ok .standard := by
  rfl

/-- The backends of the parts that need a model keep their part of a run, and so does the source. -/
structure PartsKept : Prop where
  pdf : ∀ source, parts.pdf = some source → SourceKept source
  layout : ∀ offer, parts.doclaynet = some offer ∨ parts.paddleLayout = some offer →
    ∀ read (page : StoredPage) text layout diagnostics,
      offer.backend read page text = some (layout, diagnostics) →
        LayoutKept page.toPageArtifact text layout diagnostics
  table : ∀ offer, parts.tableTransformer = some offer →
    ∀ read (page : StoredPage) text layout tables diagnostics,
      offer.backend read page text layout = some (tables, diagnostics) →
        NumberedBlocks layout.pageNumber layout.blocks →
          TablesKept page.toPageArtifact layout tables diagnostics

variable {parts}

/-- **The default registry** keeps its part when the models do. -/
theorem createDefaultBackendRegistry_kept (h : PartsKept parts) :
    RegistryKept (createDefaultBackendRegistry parts) where
  document name source hsource := by
    unfold BackendRegistry.createDocument createDefaultBackendRegistry at hsource
    dsimp only at hsource
    split at hsource
    · cases hsource
    · cases hsource
    next bundle hlookup =>
      obtain rfl := Creation.created.inj hsource
      have hmem := mem_of_lookup hlookup
      obtain ⟨-, hpdf⟩ := Prod.mk.inj (List.mem_singleton.mp hmem)
      exact h.pdf bundle hpdf.symm
  layout name backend hbackend read page text layout diagnostics hsome := by
    obtain ⟨offer, hoffer, rfl⟩ := created_mem hbackend
    rcases List.mem_cons.mp hoffer with hoffer | hoffer
    · obtain rfl := Option.some.inj (Prod.mk.inj hoffer).2
      obtain ⟨rfl, rfl⟩ := Prod.mk.inj (Option.some.inj hsome)
      exact textLayout_kept parts.sort page.toPageArtifact text
    rcases List.mem_cons.mp hoffer with hoffer | hoffer
    · exact h.layout offer (.inl (Prod.mk.inj hoffer).2.symm) read page text layout diagnostics
        hsome
    · exact h.layout offer (.inr (Prod.mk.inj (List.mem_singleton.mp hoffer)).2.symm) read page text
        layout diagnostics hsome
  table name backend hbackend read page text layout tables diagnostics hsome hnumbered := by
    obtain ⟨offer, hoffer, rfl⟩ := created_mem hbackend
    rcases List.mem_cons.mp hoffer with hoffer | hoffer
    · obtain rfl := Option.some.inj (Prod.mk.inj hoffer).2
      obtain ⟨rfl, rfl⟩ := Prod.mk.inj (Option.some.inj hsome)
      exact textTables_kept parts.sort page.toPageArtifact text hnumbered.nodup
    · exact h.table offer (Prod.mk.inj (List.mem_singleton.mp hoffer)).2.symm read page text layout
        tables diagnostics hsome hnumbered

theorem createDefaultBackendRegistry_plain :
    PlainNames (createDefaultBackendRegistry parts).layout ∧
      PlainNames (createDefaultBackendRegistry parts).table := by
  refine ⟨plainNames_registerAll ?_, plainNames_registerAll ?_⟩
  · unfold NoArrow
    simp
    decide
  · unfold NoArrow
    simp
    decide

/-- A default registry with a PDF source provides for a request of any backends. -/
theorem createDefaultBackendRegistry_provides {source : DocumentSourceBundle α}
    (h : parts.pdf = some source) :
    Provides (createDefaultBackendRegistry parts) .standard
      ⟨"auto", "auto", "auto", "auto", ""⟩ := by
  have hpdf : (createDefaultBackendRegistry parts).createDocument "pdf" = .created source := by
    unfold BackendRegistry.createDocument createDefaultBackendRegistry
    rw [h]
    rfl
  have hlayout : (createDefaultBackendRegistry parts).layout.create "text" =
      .created (textLayout parts.sort) := rfl
  have htable : (createDefaultBackendRegistry parts).table.create "text" =
      .created (textTables parts.sort) := rfl
  exact ⟨creatable_ne_nil (by decide) hpdf, .inl rfl, creatable_ne_nil (by decide) hlayout,
    creatable_ne_nil (by decide) htable⟩

end DefaultRegistry

/-! ## A registry with one layout model -/

/-- OCR and a layout model are there, the models for tables are not. -/
def scanParts : DefaultParts ℚ where
  pdf := some scanServices.document
  noop := scanServices.ocr
  tesseract := ⟨scanServices.ocr, false, "no executable"⟩
  paddle := some ⟨scanServices.ocr, true, ""⟩
  doclaynet := none
  paddleLayout := some ⟨scanServices.layout, true, ""⟩
  tableTransformer := none
  sort := TextTable.sortByLeftEdge

/-- A configuration that orders two of the stages. -/
def layoutFirst : ConfigFile :=
  .parsed (.object [("auto_order", .object [("layout",
    .array [.string "paddle-layout", .string "text"]), ("table", .array [.string "text"])]),
    ("version", .int 1)])

def scanModels : ModelConfig where
  detectionModel := "detection.onnx"
  recognitionModel := "recognition.onnx"
  characterDict := ""
  ocrProfile := "v4"
  tesseractExecutable := "tesseract"
  tesseractLanguage := "eng"
  doclaynetModel := ""
  paddleLayoutModel := "layout.onnx"
  tableDetectionModel := "tables.onnx"
  tableStructureModel := "cells.onnx"

def layoutFirstOptions : BackendOptions := ⟨"auto", "auto", "auto", "auto", "backends.json"⟩

/-- The layout model is chained before the text layout, and the models of both stages in use are
listed. -/
theorem created_services_layoutFirst : ∃ config services provenance,
    ConfiguresAt "backends.json" (fun _ => layoutFirst) config ∧
      OrdersOk (createDefaultBackendRegistry scanParts) config ∧
      createConfiguredServices ⟨"1.0", ""⟩ (fun _ => layoutFirst)
        (createDefaultBackendRegistry scanParts) scanModels layoutFirstOptions =
          .ok (services, provenance) ∧
      provenance.backends.resolved =
        ⟨"pdf", "paddle", "paddle-layout->text", "text", "backends.json"⟩ ∧
      provenance.models.map (·.path) = [ "detection.onnx", "recognition.onnx", "layout.onnx"] := by
  obtain ⟨services, provenance, hcreate, hresolved, hmodels⟩ :
      ∃ services provenance, createConfiguredServices ⟨"1.0", ""⟩ (fun _ => layoutFirst)
        (createDefaultBackendRegistry scanParts) scanModels layoutFirstOptions =
          .ok (services, provenance) ∧
        provenance.backends.resolved =
          ⟨"pdf", "paddle", "paddle-layout->text", "text", "backends.json"⟩ ∧
        provenance.models.map (·.path) =
          [ "detection.onnx", "recognition.onnx", "layout.onnx"] :=
    ⟨_, _, rfl, by decide +kernel, by decide +kernel⟩
  obtain ⟨config, hcreated⟩ := (created_services ⟨"1.0", ""⟩ (fun _ => layoutFirst)
    (createDefaultBackendRegistry scanParts) scanModels layoutFirstOptions).1 services provenance
      hcreate
  exact ⟨config, services, provenance, hcreated.configured, hcreated.orders, hcreate, hresolved,
    hmodels⟩

end DocParser.ServiceFactory
