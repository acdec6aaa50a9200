import DocParser.Lib.Json
import DocParser.Pipeline.DocumentPipeline

/-!
# The registry of backends

Backends are registered by name, and a configuration file orders the names that "auto" stands for.
`loadBackendRegistryConfig_ok`: it is loaded exactly if it can be read and its orders hold different
names of the registry.
-/

namespace DocParser.ServiceFactory

open Document Layout Image Pipeline

/-! ## Registries -/

/-- `BackendCreationResult`, with the message of a failure. -/
inductive Creation (β : Type)
  | created (backend : β)
  | unknown (message : String)
  | unavailable (message : String)

/-- A backend as its factory hands it over. -/
structure Offer (β : Type) where
  backend : β
  isAvailable : Bool
  unavailableReason : String

/-- What a factory returns, which may be no instance. -/
abbrev Factory (β : Type) := Option (Offer β)

structure TypedBackendRegistry (β : Type) where
  factories : List (String × Factory β)

namespace TypedBackendRegistry

variable {β : Type} (registry : TypedBackendRegistry β)

def contains (name : String) : Bool := (registry.factories.lookup name).isSome

/-- The name must be new; `none` is an empty function. -/
def registerBackend (name : String) (factory : Option (Factory β)) :
    Bool × TypedBackendRegistry β :=
  match factory with
  | none => (false, registry)
  | some factory =>
    if name.isEmpty || name == "auto" || registry.contains name then (false, registry)
    else (true, ⟨registry.factories ++ [(name, factory)]⟩)

def create (name : String) : Creation β :=
  match registry.factories.lookup name with
  | none => .unknown "backend is not registered"
  | some none => .unavailable "backend factory returned no instance"
  | some (some offer) =>
    if offer.isAvailable then .created offer.backend
    else .unavailable
      (if offer.unavailableReason.isEmpty then "backend reported itself unavailable"
        else offer.unavailableReason)

end TypedBackendRegistry

structure BackendRegistry (α : Type) where
  /-- `none` is a bundle without a source. -/
  documentFactories : List (String × Option (DocumentSourceBundle α))
  ocr : TypedBackendRegistry (OcrBackend α)
  layout : TypedBackendRegistry (LayoutBackend α)
  table : TypedBackendRegistry (TableBackend α)

namespace BackendRegistry

variable {α : Type} (registry : BackendRegistry α)

def hasDocument (name : String) : Bool := (registry.documentFactories.lookup name).isSome

def createDocument (name : String) : Creation (DocumentSourceBundle α) :=
  match registry.documentFactories.lookup name with
  | none => .unknown ""
  | some none => .unavailable ""
  | some (some bundle) => .created bundle

end BackendRegistry

/-! ## The configuration of a registry -/

structure BackendRegistryConfig where
  version : Int
  documentAutoOrder : List String
  ocrAutoOrder : List String
  layoutAutoOrder : List String
  tableAutoOrder : List String
  deriving DecidableEq, Repr

def BackendRegistryConfig.standard : BackendRegistryConfig where
  version := 1
  documentAutoOrder := ["pdf"]
  ocrAutoOrder := ["paddle", "tesseract"]
  layoutAutoOrder := ["doclaynet", "paddle-layout", "text"]
  tableAutoOrder := ["table-transformer", "text"]

/-- What reading and parsing a configuration gives. The members of an object are in the order of
their keys. -/
inductive ConfigFile
  | unreadable
  | malformed (what : String)
  | parsed (document : Json ℚ)

/-- The loop over the names of an order, after the names `seen`. -/
def checkNames (registered : String → Bool) (stage : String) :
    List String → List String → Except String Unit
  | _, [] => .ok ()
  | seen, name :: rest =>
    if name.isEmpty || name == "auto" then
      .error ("auto_order." ++ stage ++ " contains an invalid backend name")
    else if seen.contains name then
      .error ("auto_order." ++ stage ++ " contains duplicate backend: " ++ name)
    else if !registered name then
      .error ("auto_order." ++ stage ++ " references an unregistered backend: " ++ name)
    else checkNames registered stage (name :: seen) rest

def validOrder (order : List String) (registered : String → Bool) (stage : String) :
    Except String Unit :=
  if order.isEmpty then
    .error ("auto_order." ++ stage ++ " must contain at least one backend")
  else checkNames registered stage [] order

def stringValue : Json ℚ → Option String
  | .string s => some s
  | _ => none

def readOrder (autoOrder : Json ℚ) (key : String) (target : List String) :
    Except String (List String) :=
  match autoOrder.field key with
  | none => .ok target
  | some (.array elements) =>
    match elements.mapM stringValue with
    | none => .error ("auto_order." ++ key ++ " must contain only strings")
    | some names => .ok names
  | some _ => .error ("auto_order." ++ key ++ " must be an array")

def typeName : Json ℚ → String
  | .null => "null"
  | .bool _ => "boolean"
  | .int _ | .number _ => "number"
  | .string _ => "string"
  | .array _ => "array"
  | .object _ => "object"

/-- `get<int>`, or the text of the exception. -/
def intValue : Json ℚ → Except String Int
  | .bool b => .ok (if b then 1 else 0)
  | .int n => .ok (n.bmod (2 ^ 32))
  | .number x => .ok (x.num.tdiv x.den)
  | value =>
    .error ("[json.exception.type_error.302] type must be number, but is " ++ typeName value)

/-- The first key of an object that is not one of the known ones. -/
def unknownKey (known : List String) : Json ℚ → Option String
  | .object members => (members.find? fun member => !known.contains member.1).map Prod.fst
  | _ => none

def readVersion (document : Json ℚ) : Except String Int :=
  match document.field "version" with
  | none => .ok 1
  | some value =>
    match intValue value with
    | .error what => .error ("invalid backend registry config: " ++ what)
    | .ok version =>
      if version = 1 then .ok version
      else .error ("unsupported backend registry config version: " ++ toString version)

def readAutoOrder (document : Json ℚ) (config : BackendRegistryConfig) :
    Except String BackendRegistryConfig :=
  match document.field "auto_order" with
  | none => .ok config
  | some autoOrder =>
    if !autoOrder.isObject then .error "auto_order must be an object"
    else
      match unknownKey ["document", "ocr", "layout", "table"] autoOrder with
      | some key => .error ("unknown auto_order stage: " ++ key)
      | none => do
        let documentOrder ← readOrder autoOrder "document" config.documentAutoOrder
        let ocrOrder ← readOrder autoOrder "ocr" config.ocrAutoOrder
        let layoutOrder ← readOrder autoOrder "layout" config.layoutAutoOrder
        let tableOrder ← readOrder autoOrder "table" config.tableAutoOrder
        return { config with
          documentAutoOrder := documentOrder
          ocrAutoOrder := ocrOrder
          layoutAutoOrder := layoutOrder
          tableAutoOrder := tableOrder }

def readConfig (path : String) : ConfigFile → Except String BackendRegistryConfig
  | .unreadable => .error ("failed to read backend registry config: " ++ path)
  | .malformed what => .error ("invalid backend registry config: " ++ what)
  | .parsed document =>
    if !document.isObject then .error "backend registry config root must be an object"
    else
      match unknownKey ["version", "auto_order"] document with
      | some key => .error ("unknown backend registry config field: " ++ key)
      | none => do
        let version ← readVersion document
        readAutoOrder document { BackendRegistryConfig.standard with version := version }

section Loading

variable {α : Type}

def loadBackendRegistryConfig (path : String) (readFile : String → ConfigFile)
    (registry : BackendRegistry α) : Except String BackendRegistryConfig := do
  let config ← (if path.isEmpty then .ok .standard else readConfig path (readFile path))
  validOrder config.documentAutoOrder registry.hasDocument "document"
  validOrder config.ocrAutoOrder registry.ocr.contains "ocr"
  validOrder config.layoutAutoOrder registry.layout.contains "layout"
  validOrder config.tableAutoOrder registry.table.contains "table"
  return config

end Loading

/-! ## Exceptions -/

section Exceptions

variable {ε ε' σ τ : Type} {x : Except ε σ} {f : σ → Except ε τ}

theorem bind_ok {a : σ} {b : τ} (hx : x = .ok a) (hf : f a = .ok b) : x >>= f = .ok b := by
  rw [hx]
  exact hf

theorem error_of_bind {e : ε} (h : x >>= f = .error e) :
    x = .error e ∨ ∃ a, x = .ok a ∧ f a = .error e := by
  cases x with
  | error e' => exact .inl (congrArg _ (Except.error.inj h))
  | ok a => exact .inr ⟨a, rfl, h⟩

theorem mapError_ok {g : ε → ε'} {a : σ} : x.mapError g = .ok a ↔ x = .ok a := by
  cases x with
  | error e => exact iff_of_false (fun h => by cases h) fun h => by cases h
  | ok b => exact ⟨fun h => congrArg _ (Except.ok.inj h), fun h => congrArg _ (Except.ok.inj h)⟩

theorem mapError_error {g : ε → ε'} {e : ε'} (h : x.mapError g = .error e) : ∃ e', e = g e' := by
  cases x with
  | error e' => exact ⟨e', (Except.error.inj h).symm⟩
  | ok b => cases h

end Exceptions

/-! ## Orders -/

/-- An order that the registry accepts. -/
structure OrderOk (registered : String → Bool) (order : List String) : Prop where
  nonempty : order ≠ []
  nodup : order.Nodup
  names : ∀ name ∈ order, name ≠ "" ∧ name ≠ "auto" ∧ registered name = true

theorem checkNames_ok {registered : String → Bool} {stage : String} {order : List String} :
    ∀ {seen : List String}, checkNames registered stage seen order = .ok () ↔
      order.Nodup ∧ (∀ name ∈ order, name ∉ seen) ∧
        ∀ name ∈ order, name ≠ "" ∧ name ≠ "auto" ∧ registered name = true := by
  induction order with
  | nil => simp [checkNames]
  | cons name rest ih =>
    intro seen
    unfold checkNames
    rw [List.nodup_cons, List.forall_mem_cons, List.forall_mem_cons]
    split_ifs with hname hseen hregistered
    · refine iff_of_false (fun h => by cases h) fun h => ?_
      rcases Bool.or_eq_true _ _ ▸ hname with hempty | hauto
      · exact h.2.2.1.1 (by simpa using hempty)
      · exact h.2.2.1.2.1 (beq_iff_eq.mp hauto)
    · exact iff_of_false (fun h => by cases h) fun h =>
        h.2.1.1 (List.contains_iff_mem.mp hseen)
    · refine iff_of_false (fun h => by cases h) fun h => ?_
      rw [h.2.2.1.2.2] at hregistered
      cases hregistered
    · rw [ih]
      simp only [Bool.or_eq_true, not_or, String.isEmpty_iff, beq_iff_eq] at hname
      constructor
      · rintro ⟨hnodup, hfresh, hnames⟩
        exact ⟨⟨fun hmem => hfresh name hmem List.mem_cons_self, hnodup⟩,
          ⟨fun hmem => hseen (List.contains_iff_mem.mpr hmem),
            fun other hother hmem => hfresh other hother (List.mem_cons_of_mem _ hmem)⟩,
          ⟨hname.1, hname.2, by simpa using hregistered⟩, hnames⟩
      · rintro ⟨⟨hnew, hnodup⟩, ⟨-, hfresh⟩, -, hnames⟩
        refine ⟨hnodup, fun other hother hmem => ?_, hnames⟩
        rcases List.mem_cons.mp hmem with rfl | hmem
        · exact hnew hother
        · exact hfresh other hother hmem

theorem validOrder_ok {registered : String → Bool} {stage : String} {order : List String} :
    validOrder order registered stage = .ok () ↔ OrderOk registered order := by
  unfold validOrder
  split_ifs with hempty
  · exact iff_of_false (fun h => by cases h) fun h => h.nonempty (List.isEmpty_iff.mp hempty)
  · rw [checkNames_ok]
    exact ⟨fun h => ⟨fun hnil => hempty (List.isEmpty_iff.mpr hnil), h.1, h.2.2⟩,
      fun h => ⟨h.nodup, fun _ _ => List.not_mem_nil, h.names⟩⟩

/-! ## Configuration files -/

section Files

/-- The keys of an object. -/
def jsonKeys : Json ℚ → List String
  | .object members => members.map Prod.fst
  | _ => []

/-- What a configuration says of the order of a stage, if anything. -/
def GivesOrder (autoOrder : Option (Json ℚ)) (key : String) (standard order : List String) :
    Prop :=
  match autoOrder.bind (Json.field key) with
  | none => order = standard
  | some value => value = .array (order.map .string)

/-- A document that is a configuration. -/
structure Configures (root : Json ℚ) (config : BackendRegistryConfig) : Prop where
  isObject : root.isObject = true
  keys : ∀ key ∈ jsonKeys root, key ∈ [ "version", "auto_order"]
  version : config.version = 1 ∧
    ∀ value, root.field "version" = some value → intValue value = .ok 1
  stages : ∀ autoOrder, root.field "auto_order" = some autoOrder →
    autoOrder.isObject = true ∧
      ∀ key ∈ jsonKeys autoOrder, key ∈ [ "document", "ocr", "layout", "table"]
  document : GivesOrder (root.field "auto_order") "document"
    BackendRegistryConfig.standard.documentAutoOrder config.documentAutoOrder
  ocr : GivesOrder (root.field "auto_order") "ocr"
    BackendRegistryConfig.standard.ocrAutoOrder config.ocrAutoOrder
  layout : GivesOrder (root.field "auto_order") "layout"
    BackendRegistryConfig.standard.layoutAutoOrder config.layoutAutoOrder
  table : GivesOrder (root.field "auto_order") "table"
    BackendRegistryConfig.standard.tableAutoOrder config.tableAutoOrder

/-- The configuration at a path: the standard one without a path, else that of the file. -/
def ConfiguresAt (path : String) (readFile : String → ConfigFile)
    (config : BackendRegistryConfig) : Prop :=
  if path = "" then config = .standard
  else ∃ document, readFile path = .parsed document ∧ Configures document config

theorem bind_eq_ok {ε σ τ : Type} {x : Except ε σ} {f : σ → Except ε τ} {b : τ} :
    x >>= f = .ok b ↔ ∃ a, x = .ok a ∧ f a = .ok b :=
  ⟨ok_of_bind, fun ⟨_, hx, hf⟩ => bind_ok hx hf⟩

theorem unknownKey_eq_none {known : List String} {value : Json ℚ} :
    unknownKey known value = none ↔ ∀ key ∈ jsonKeys value, key ∈ known := by
  unfold unknownKey jsonKeys
  cases value with
  | object members => simp
  | _ => simp

theorem stringValue_eq_some {value : Json ℚ} {name : String} :
    stringValue value = some name ↔ value = .string name := by
  cases value with
  | string name' => exact ⟨fun h => congrArg _ (Option.some.inj h), fun h => by cases h; rfl⟩
  | _ => exact iff_of_false (fun h => by cases h) fun h => by cases h

theorem mapM_stringValue {elements : List (Json ℚ)} :
    ∀ {names : List String}, elements.mapM stringValue = some names ↔
      elements = names.map .string := by
  induction elements with
  | nil =>
    intro names
    rw [List.mapM_nil, eq_comm (a := []), List.map_eq_nil_iff]
    exact ⟨fun h => (Option.some.inj h).symm, fun h => congrArg _ h.symm⟩
  | cons element elements ih =>
    intro names
    rw [List.mapM_cons]
    simp only [Option.bind_eq_bind, Option.bind_eq_some_iff, Option.pure_def, Option.some.injEq,
      stringValue_eq_some, ih]
    constructor
    · rintro ⟨name, rfl, rest, rfl, rfl⟩
      rfl
    · intro h
      cases names with
      | nil => cases h
      | cons name names =>
        obtain ⟨rfl, rfl⟩ := List.cons.inj h
        exact ⟨name, rfl, names, rfl, rfl⟩

theorem readOrder_ok {autoOrder : Json ℚ} {key : String} {target order : List String} :
    readOrder autoOrder key target = .ok order ↔
      GivesOrder (some autoOrder) key target order := by
  unfold readOrder GivesOrder
  rw [Option.bind_some]
  cases autoOrder.field key with
  | none => exact ⟨fun h => (Except.ok.inj h).symm, fun h => congrArg _ h.symm⟩
  | some value =>
    cases value with
    | array elements =>
      dsimp only
      rw [Json.array.injEq, ← mapM_stringValue]
      cases elements.mapM stringValue with
      | none => simp
      | some names => simp
    | _ => exact iff_of_false (fun h => by cases h) fun h => by cases h

theorem readVersion_ok {document : Json ℚ} {version : Int} :
    readVersion document = .ok version ↔ version = 1 ∧
      ∀ value, document.field "version" = some value → intValue value = .ok 1 := by
  unfold readVersion
  cases document.field "version" with
  | none =>
    exact ⟨fun h => ⟨(Except.ok.inj h).symm, fun _ hvalue => by cases hvalue⟩,
      fun h => congrArg _ h.1.symm⟩
  | some value =>
    simp only [Option.some.injEq, forall_eq']
    cases hvalue : intValue value with
    | error what => exact iff_of_false (fun h => by cases h) fun h => by cases h.2
    | ok found =>
      dsimp only
      rw [Except.ok.injEq]
      split_ifs with hone
      · rw [Except.ok.injEq, hone]
        exact ⟨fun h => ⟨h.symm, rfl⟩, fun h => h.1.symm⟩
      · exact iff_of_false (fun h => by cases h) fun h => hone h.2

theorem readAutoOrder_ok {document : Json ℚ} {config config' : BackendRegistryConfig} :
    readAutoOrder document config = .ok config' ↔ config'.version = config.version ∧
      (∀ autoOrder, document.field "auto_order" = some autoOrder → autoOrder.isObject = true ∧
        ∀ key ∈ jsonKeys autoOrder, key ∈ [ "document", "ocr", "layout", "table"]) ∧
      GivesOrder (document.field "auto_order") "document" config.documentAutoOrder
        config'.documentAutoOrder ∧
      GivesOrder (document.field "auto_order") "ocr" config.ocrAutoOrder config'.ocrAutoOrder ∧
      GivesOrder (document.field "auto_order") "layout" config.layoutAutoOrder
        config'.layoutAutoOrder ∧
      GivesOrder (document.field "auto_order") "table" config.tableAutoOrder
        config'.tableAutoOrder := by
  unfold readAutoOrder
  cases document.field "auto_order" with
  | none =>
    simp only [GivesOrder, Option.bind_none, reduceCtorEq, false_implies, implies_true, true_and,
      Except.ok.injEq]
    cases config
    cases config'
    simp [eq_comm]
  | some autoOrder =>
    simp only [Option.some.injEq, forall_eq']
    cases hobject : autoOrder.isObject with
    | false => simp
    | true =>
      simp only [Bool.not_true, Bool.false_eq_true, if_false, true_and, ← unknownKey_eq_none]
      cases unknownKey [ "document", "ocr", "layout", "table"] autoOrder with
      | some key => simp
      | none =>
        simp only [bind_eq_ok, readOrder_ok, true_and]
        constructor
        · rintro ⟨documentOrder, hdocument, ocrOrder, hocr, layoutOrder, hlayout, tableOrder,
            htable, h⟩
          obtain rfl := Except.ok.inj h
          exact ⟨rfl, hdocument, hocr, hlayout, htable⟩
        · rintro ⟨hversion, hdocument, hocr, hlayout, htable⟩
          refine ⟨_, hdocument, _, hocr, _, hlayout, _, htable, congrArg Except.ok ?_⟩
          cases config'
          dsimp only at hversion ⊢
          rw [hversion]

/-- **A configuration file** is read exactly if it holds a configuration. -/
theorem readConfig_ok {path : String} {file : ConfigFile} {config : BackendRegistryConfig} :
    readConfig path file = .ok config ↔
      ∃ document, file = .parsed document ∧ Configures document config := by
  unfold readConfig
  cases file with
  | unreadable => exact iff_of_false (fun h => by cases h) fun ⟨_, h, _⟩ => by cases h
  | malformed what => exact iff_of_false (fun h => by cases h) fun ⟨_, h, _⟩ => by cases h
  | parsed document =>
    simp only [ConfigFile.parsed.injEq, exists_eq_left']
    cases hobject : document.isObject with
    | false =>
      refine iff_of_false (fun h => by cases h) fun h => ?_
      rw [h.isObject] at hobject
      cases hobject
    | true =>
      simp only [Bool.not_true, Bool.false_eq_true, if_false]
      cases hkeys : unknownKey [ "version", "auto_order"] document with
      | some key =>
        refine iff_of_false (fun h => by cases h) fun h => ?_
        rw [unknownKey_eq_none.mpr h.keys] at hkeys
        cases hkeys
      | none =>
        simp only [bind_eq_ok, readVersion_ok, readAutoOrder_ok]
        constructor
        · rintro ⟨version, ⟨rfl, hversion⟩, heq, hstages, hdocument, hocr, hlayout, htable⟩
          exact ⟨hobject, unknownKey_eq_none.mp hkeys, ⟨heq, hversion⟩, hstages, hdocument, hocr,
            hlayout, htable⟩
        · intro h
          exact ⟨1, ⟨rfl, h.version.2⟩, h.version.1, h.stages, h.document, h.ocr, h.layout,
            h.table⟩

end Files

section Loaded

variable {α : Type} {registry : BackendRegistry α} {config : BackendRegistryConfig}

/-- The orders of a configuration hold names of the registry. -/
structure OrdersOk (registry : BackendRegistry α) (config : BackendRegistryConfig) : Prop where
  document : OrderOk registry.hasDocument config.documentAutoOrder
  ocr : OrderOk registry.ocr.contains config.ocrAutoOrder
  layout : OrderOk registry.layout.contains config.layoutAutoOrder
  table : OrderOk registry.table.contains config.tableAutoOrder

/-- **Loading** succeeds exactly for a configuration whose orders are valid. -/
theorem loadBackendRegistryConfig_ok {path : String} {readFile : String → ConfigFile} :
    loadBackendRegistryConfig path readFile registry = .ok config ↔
      ConfiguresAt path readFile config ∧ OrdersOk registry config := by
  have hread : (if path.isEmpty then .ok BackendRegistryConfig.standard
      else readConfig path (readFile path)) = Except.ok config ↔
        ConfiguresAt path readFile config := by
    unfold ConfiguresAt
    split_ifs with hempty hpath hpath
    · rw [Except.ok.injEq]
      exact eq_comm
    · exact absurd (String.isEmpty_iff.mp hempty) hpath
    · exact absurd (String.isEmpty_iff.mpr hpath) hempty
    · exact readConfig_ok
  rw [← hread]
  unfold loadBackendRegistryConfig
  simp only [bind_eq_ok]
  constructor
  · rintro ⟨loaded, hloaded, ⟨⟩, hdocument, ⟨⟩, hocr, ⟨⟩, hlayout, ⟨⟩, htable, h⟩
    obtain rfl := Except.ok.inj h
    exact ⟨hloaded, validOrder_ok.mp hdocument, validOrder_ok.mp hocr, validOrder_ok.mp hlayout,
      validOrder_ok.mp htable⟩
  · rintro ⟨hloaded, h⟩
    exact ⟨_, hloaded, (), validOrder_ok.mpr h.document, (), validOrder_ok.mpr h.ocr, (),
      validOrder_ok.mpr h.layout, (), validOrder_ok.mpr h.table, rfl⟩

end Loaded

end DocParser.ServiceFactory
