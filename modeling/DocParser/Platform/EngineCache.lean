import DocParser.Lib.Recency
import DocParser.Pipeline.StageEvents

/-!
# The cache of document engines

A worker keeps the engines it has created in a list, the one used last at its front. A lookup
that finds no entry with its options creates an engine, and only when that succeeds does it drop
the last entry of a full list. What the cache asks of the file system, and whether a creation
succeeds, may differ from call to call.
-/

namespace DocParser.Platform

open Pipeline (BackendOptions)

/-! ## Paths -/

/-- The parts of a path between its separators. -/
def pathParts (path : String) : List String := (path.toList.splitOn '/').map String.ofList

def isRooted (path : String) : Bool := path.toList.head? = some '/'

/-- What `std::filesystem::path` iterates over: the root directory, the names between the
separators, and an empty name when a separator follows the last one. -/
def pathElements (path : String) : List String :=
  let names := (pathParts path).filter (· ≠ "")
  (if isRooted path then ["/"] else []) ++ names ++
    (if path.toList.getLast? = some '/' ∧ names ≠ [] then [""] else [])

/-- One part of a path under `lexically_normal`, onto the names before it in reverse. -/
def normalName (rooted : Bool) (names : List String) (part : String) : List String :=
  if part = "" ∨ part = "." then names
  else if part = ".." then
    match names with
    | [] => if rooted then [] else [".."]
    | last :: rest => if last = ".." then ".." :: names else rest
  else part :: names

/-- `path::lexically_normal`. -/
def lexicallyNormal (path : String) : String :=
  if path = "" then ""
  else
    let names := (pathParts path).foldl (normalName (isRooted path)) []
    let separator := match names with
      | [] => false
      | last :: _ => last ≠ ".." && ["", ".", ".."].contains ((pathParts path).getLast?.getD "")
    let normal := (if isRooted path then "/" else "") ++ "/".intercalate names.reverse ++
      (if separator then "/" else "")
    if normal = "" then "." else normal

/-- `absolute` and `weakly_canonical` at one moment; `none` is an error. -/
structure FileSystem where
  absolute : String → Option String
  weaklyCanonical : String → Option String

def normalizedPath (fs : FileSystem) (path : String) : String :=
  if path = "" then ""
  else
    let absolute := (fs.absolute path).getD path
    (fs.weaklyCanonical absolute).getD (lexicallyNormal absolute)

def normalizedBackends (fs : FileSystem) (backends : BackendOptions) : BackendOptions :=
  { backends with registryConfig := normalizedPath fs backends.registryConfig }

/-- What two backend options have in common when `sameBackends` holds of them. -/
structure BackendKey where
  document : String
  ocr : String
  layout : String
  table : String
  registryConfig : List String
  deriving DecidableEq, Repr

def backendKey (backends : BackendOptions) : BackendKey :=
  ⟨backends.document, backends.ocr, backends.layout, backends.table,
    pathElements backends.registryConfig⟩

def sameBackends (left right : BackendOptions) : Bool :=
  left.document = right.document && left.ocr = right.ocr && left.layout = right.layout &&
    left.table = right.table &&
    pathElements left.registryConfig = pathElements right.registryConfig

theorem sameBackends_eq (left right : BackendOptions) :
    sameBackends left right = (backendKey right == backendKey left) := by
  rw [Bool.eq_iff_iff, beq_iff_eq, sameBackends, backendKey, backendKey, BackendKey.mk.injEq]
  simp only [Bool.and_eq_true, decide_eq_true_eq]
  constructor
  · rintro ⟨⟨⟨⟨h1, h2⟩, h3⟩, h4⟩, h5⟩
    exact ⟨h1.symm, h2.symm, h3.symm, h4.symm, h5.symm⟩
  · rintro ⟨h1, h2, h3, h4, h5⟩
    exact ⟨⟨⟨⟨h1.symm, h2.symm⟩, h3.symm⟩, h4.symm⟩, h5.symm⟩

/-! ## The cache -/

/-- An engine as `createUnique` returns it. -/
structure CreatedEngine (ε : Type*) where
  engine : ε
  isReady : Bool
  initializationStatus : Except Status Unit

structure DocumentEngineLookup (ε : Type*) where
  engine : Option ε
  status : Except Status Unit
  cacheHit : Bool

/-- An entry of the cache. -/
structure EngineEntry (ε : Type*) where
  backends : BackendOptions
  engine : ε

structure DocumentEngineCache (ε : Type*) where
  capacity : Nat
  capacity_pos : 0 < capacity
  entries : List (EngineEntry ε)

/-- One call of `get`: its argument, and what it meets. -/
structure EngineCall (ε : Type*) where
  backends : BackendOptions
  fs : FileSystem
  createUnique : BackendOptions → CreatedEngine ε

/-- The options that the call looks for. -/
def EngineCall.key {ε : Type*} (call : EngineCall ε) : BackendKey :=
  backendKey (normalizedBackends call.fs call.backends)

namespace DocumentEngineCache

variable {ε : Type*}

/-- The constructor. -/
def create (capacity : Nat) : Except String (DocumentEngineCache ε) :=
  if h : 0 < capacity then .ok ⟨capacity, h, []⟩
  else .error "document engine cache capacity must be positive"

def get (cache : DocumentEngineCache ε) (call : EngineCall ε) :
    DocumentEngineLookup ε × DocumentEngineCache ε :=
  let normalized := normalizedBackends call.fs call.backends
  let same := fun entry : EngineEntry ε => sameBackends entry.backends normalized
  match cache.entries.find? same with
  | some entry =>
    (⟨some entry.engine, .ok (), true⟩,
      { cache with entries := entry :: cache.entries.eraseP same })
  | none =>
    let created := call.createUnique normalized
    if created.isReady = false then (⟨none, created.initializationStatus, false⟩, cache)
    else
      let kept := if cache.entries.length = cache.capacity then cache.entries.dropLast
        else cache.entries
      (⟨some created.engine, .ok (), false⟩,
        { cache with entries := ⟨normalized, created.engine⟩ :: kept })

/-- The keys of the entries, in their order. -/
def keys (cache : DocumentEngineCache ε) : List BackendKey :=
  cache.entries.map fun entry => backendKey entry.backends

end DocumentEngineCache

/-- What `createUnique` would answer to the call. -/
def EngineCall.created {ε : Type*} (call : EngineCall ε) : CreatedEngine ε :=
  call.createUnique (normalizedBackends call.fs call.backends)

/-- The cache after some calls. -/
def runCalls {ε : Type*} (cache : DocumentEngineCache ε) (calls : List (EngineCall ε)) :
    DocumentEngineCache ε :=
  calls.foldl (fun cache call => (cache.get call).2) cache

/-! ## What the calls amount to -/

/-- The keys that calls have used, and the engines they have created, in their order. -/
structure EngineLog (ε : Type*) where
  used : List BackendKey := []
  created : List (BackendKey × ε) := []

namespace EngineLog

variable {ε : Type*}

/-- The keys that the log leaves to a cache: those used last, most recent first. -/
def held (log : EngineLog ε) (capacity : Nat) : List BackendKey :=
  log.used.dedup.reverse.take capacity

/-- A call uses a key that is held; it creates the engine of any other key, and uses the key
if that succeeds. -/
def record (capacity : Nat) (log : EngineLog ε) (call : EngineCall ε) : EngineLog ε :=
  if call.key ∈ log.held capacity then { log with used := log.used ++ [call.key] }
  else if call.created.isReady then
    ⟨log.used ++ [call.key], log.created ++ [(call.key, call.created.engine)]⟩
  else log

/-- The engine that was created last for a key. -/
def lastCreated (log : EngineLog ε) (key : BackendKey) : Option ε :=
  log.created.reverse.findSome? fun c => if c.1 = key then some c.2 else none

theorem lastCreated_concat (used : List BackendKey) (created : List (BackendKey × ε))
    (key key' : BackendKey) (engine : ε) :
    (⟨used, created ++ [(key, engine)]⟩ : EngineLog ε).lastCreated key' =
      if key = key' then some engine else (⟨used, created⟩ : EngineLog ε).lastCreated key' := by
  unfold lastCreated
  rw [List.reverse_append, List.reverse_singleton, List.singleton_append, List.findSome?_cons]
  split_ifs <;> rfl

end EngineLog

/-- The log of some calls, by what they ask for and create alone. -/
def logCalls {ε : Type*} (capacity : Nat) (calls : List (EngineCall ε)) : EngineLog ε :=
  calls.foldl (EngineLog.record capacity) {}

section

variable {ε : Type*} {cache next : DocumentEngineCache ε} {call : EngineCall ε}
  {log : EngineLog ε} {lookup : DocumentEngineLookup ε}

open Recency

/-! ### One call -/

/-- The three outcomes of a call: a hit, which moves the entry with the key to the front; a failed
creation; or a creation, whose entry is put before those that are kept. -/
inductive Got (cache : DocumentEngineCache ε) (call : EngineCall ε) :
    DocumentEngineLookup ε → DocumentEngineCache ε → Prop
  | hit (entry) {next} (hentry : entry ∈ cache.entries)
      (hkey : backendKey entry.backends = call.key) (hcap : next.capacity = cache.capacity)
      (hkeys : next.keys = touch call.key cache.keys)
      (hsub : ∀ e ∈ next.entries, e ∈ cache.entries) :
      Got cache call ⟨some entry.engine, .ok (), true⟩ next
  | failure (hmiss : call.key ∉ cache.keys) (hready : call.created.isReady = false) :
      Got cache call ⟨none, call.created.initializationStatus, false⟩ cache
  | creation {next : DocumentEngineCache ε} (hmiss : call.key ∉ cache.keys)
      (hready : call.created.isReady = true)
      (hcap : next.capacity = cache.capacity)
      (hentries : next.entries =
        ⟨normalizedBackends call.fs call.backends, call.created.engine⟩ ::
          if cache.entries.length = cache.capacity then cache.entries.dropLast
          else cache.entries) :
      Got cache call ⟨some call.created.engine, .ok (), false⟩ next

theorem got_get (cache : DocumentEngineCache ε) (call : EngineCall ε) :
    Got cache call (cache.get call).1 (cache.get call).2 := by
  unfold DocumentEngineCache.get
  dsimp only
  have hsame : (fun entry : EngineEntry ε =>
      sameBackends entry.backends (normalizedBackends call.fs call.backends)) =
        (fun key => call.key == key) ∘ fun entry => backendKey entry.backends := by
    funext entry
    exact sameBackends_eq _ _
  rw [hsame]
  cases hfind : cache.entries.find?
      ((fun key => call.key == key) ∘ fun entry => backendKey entry.backends) with
  | some entry =>
    have hmem : entry ∈ cache.entries := List.mem_of_find?_eq_some hfind
    have hkey : backendKey entry.backends = call.key := by
      have h := List.find?_some hfind
      rw [Function.comp_apply, beq_iff_eq] at h
      exact h.symm
    refine .hit entry hmem hkey rfl ?_ fun e he => ?_
    · simp only [DocumentEngineCache.keys, List.map_cons, hkey, touch]
      rw [List.erase_eq_eraseP, List.eraseP_map]
    · rcases List.mem_cons.mp he with rfl | he
      · exact hmem
      · exact List.mem_of_mem_eraseP he
  | none =>
    have hmiss : call.key ∉ cache.keys := by
      intro hmem
      obtain ⟨entry, hentry, hkey⟩ := List.mem_map.mp hmem
      have h := List.find?_eq_none.mp hfind entry hentry
      simp [hkey] at h
    dsimp only
    by_cases hready : (call.createUnique (normalizedBackends call.fs call.backends)).isReady = false
    · rw [if_pos hready]
      exact .failure hmiss hready
    · rw [if_neg hready]
      exact .creation hmiss (Bool.of_not_eq_false hready) rfl rfl

theorem Got.capacity_eq (h : Got cache call lookup next) : next.capacity = cache.capacity := by
  cases h with
  | hit _ _ _ hcap | creation _ _ hcap => exact hcap
  | failure => rfl

/-! ### Sequences of calls -/

/-- The keys are those the log leaves, and each entry holds the engine created last for its
key. -/
structure IsLru (cache : DocumentEngineCache ε) (log : EngineLog ε) : Prop where
  keys : cache.keys = log.held cache.capacity
  engines : ∀ entry ∈ cache.entries,
    log.lastCreated (backendKey entry.backends) = some entry.engine

theorem IsLru.get (hl : IsLru cache log) (h : Got cache call lookup next) :
    IsLru next (log.record cache.capacity call) := by
  have hcap := cache.capacity_pos
  unfold EngineLog.record
  rw [← hl.keys]
  cases h with
  | hit entry hentry hkey hcap hkeys hsub =>
    have hmem : call.key ∈ cache.keys := List.mem_map.mpr ⟨entry, hentry, hkey⟩
    rw [if_pos hmem]
    constructor
    · rw [hl.keys] at hmem
      rw [hkeys, hcap, hl.keys]
      exact (congrArg (List.take cache.capacity) (recent_concat log.used call.key)
        |>.trans (take_touch_of_mem hmem)).symm
    · intro e he
      exact hl.engines e (hsub e he)
  | failure hmiss hready =>
    rw [if_neg hmiss, hready, if_neg (by decide)]
    exact hl
  | creation hmiss hready hcap' hentries =>
    rw [if_neg hmiss, if_pos hready]
    have hkept : ∀ e ∈ next.entries,
        e = ⟨normalizedBackends call.fs call.backends, call.created.engine⟩ ∨
          e ∈ cache.entries := by
      intro e he
      rw [hentries, List.mem_cons] at he
      refine he.imp_right fun h => ?_
      split_ifs at h
      · exact List.dropLast_subset _ h
      · exact h
    constructor
    · have hmiss' := hmiss
      rw [hl.keys] at hmiss'
      have hlen : cache.entries.length = cache.keys.length := by simp [DocumentEngineCache.keys]
      have hheld : (⟨log.used ++ [call.key], log.created ++ [(call.key, call.created.engine)]⟩ :
          EngineLog ε).held cache.capacity = call.key ::
            if cache.keys.length = cache.capacity then cache.keys.dropLast else cache.keys := by
        rw [hl.keys]
        exact (congrArg (List.take cache.capacity) (recent_concat log.used call.key)).trans
          (take_touch_of_notMem hcap hmiss')
      rw [hcap', hheld, DocumentEngineCache.keys, hentries, List.map_cons, hlen]
      split_ifs
      · rw [List.map_dropLast, DocumentEngineCache.keys, EngineCall.key]
      · rw [DocumentEngineCache.keys, EngineCall.key]
    · intro e he
      rw [EngineLog.lastCreated_concat]
      rcases hkept e he with rfl | he
      · exact if_pos rfl
      · have hne : call.key ≠ backendKey e.backends := fun heq =>
          hmiss (heq ▸ List.mem_map_of_mem he)
        rw [if_neg hne]
        exact hl.engines e he

theorem isLru_runCalls {capacity : Nat} (hnew : DocumentEngineCache.create capacity = .ok cache)
    (calls : List (EngineCall ε)) :
    IsLru (runCalls cache calls) (logCalls capacity calls) ∧
      (runCalls cache calls).capacity = capacity := by
  induction calls using List.reverseRecOn with
  | nil =>
    unfold DocumentEngineCache.create at hnew
    split_ifs at hnew
    obtain rfl := Except.ok.inj hnew
    exact ⟨⟨by simp [runCalls, logCalls, EngineLog.held, DocumentEngineCache.keys],
      by simp [runCalls]⟩, rfl⟩
  | append_singleton calls call ih =>
    obtain ⟨hl, hcap⟩ := ih
    have h := got_get (runCalls cache calls) call
    have hl' := hl.get h
    rw [hcap] at hl'
    simp only [runCalls, logCalls, List.foldl_append, List.foldl_cons, List.foldl_nil]
    exact ⟨hl', h.capacity_eq.trans hcap⟩

/-- **The cache is an LRU map.** A cache of a positive capacity can be created, and after any
calls on it: the entries do not exceed the capacity, their keys are distinct and are those used
last, most recent first. The next call answers a key it holds with the engine created last for
it, and moves the key to the front; for any other key it creates an engine, which it returns and
puts first unless the creation failed, when the cache stays as it is. -/
theorem cache_is_lru {capacity : Nat} (hcapacity : 0 < capacity) (calls : List (EngineCall ε)) :
    ∃ new : DocumentEngineCache ε, DocumentEngineCache.create capacity = .ok new ∧
      (runCalls new calls).entries.length ≤ capacity ∧
      (runCalls new calls).keys.Nodup ∧
      (runCalls new calls).keys = (logCalls capacity calls).used.dedup.reverse.take capacity ∧
      ∀ call,
        (call.key ∈ (runCalls new calls).keys →
          (∃ engine, (logCalls capacity calls).lastCreated call.key = some engine ∧
            ((runCalls new calls).get call).1 = ⟨some engine, .ok (), true⟩) ∧
          ((runCalls new calls).get call).2.keys =
            call.key :: (runCalls new calls).keys.erase call.key) ∧
        (call.key ∉ (runCalls new calls).keys → call.created.isReady = true →
          ((runCalls new calls).get call).1 = ⟨some call.created.engine, .ok (), false⟩ ∧
          ((runCalls new calls).get call).2.entries =
            ⟨normalizedBackends call.fs call.backends, call.created.engine⟩ ::
              if (runCalls new calls).entries.length = capacity
              then (runCalls new calls).entries.dropLast else (runCalls new calls).entries) ∧
        (call.key ∉ (runCalls new calls).keys → call.created.isReady = false →
          (runCalls new calls).get call =
            (⟨none, call.created.initializationStatus, false⟩, runCalls new calls)) := by
  have hnew : DocumentEngineCache.create capacity =
      .ok (⟨capacity, hcapacity, []⟩ : DocumentEngineCache ε) := dif_pos hcapacity
  obtain ⟨hl, hcap⟩ := isLru_runCalls hnew calls
  have hkeys := hl.keys
  rw [hcap] at hkeys
  refine ⟨_, hnew, ?_, ?_, hkeys, fun call => ?_⟩
  · calc (runCalls ⟨capacity, hcapacity, []⟩ calls).entries.length
        = (runCalls (⟨capacity, hcapacity, []⟩ : DocumentEngineCache ε) calls).keys.length := by
          simp [DocumentEngineCache.keys]
      _ ≤ capacity := by
          rw [hkeys]
          exact List.length_take_le _ _
  · rw [hkeys]
    exact (nodup_recent _).sublist (List.take_sublist _ _)
  · generalize hg : (runCalls ⟨capacity, hcapacity, []⟩ calls).get call = result
    have h := got_get (runCalls ⟨capacity, hcapacity, []⟩ calls) call
    rw [hg] at h
    obtain ⟨lookup, next⟩ := result
    dsimp only at h ⊢
    cases h with
    | hit entry hentry hkey hcap' hkeys' =>
      have hmem : call.key ∈ (runCalls ⟨capacity, hcapacity, []⟩ calls).keys :=
        List.mem_map.mpr ⟨entry, hentry, hkey⟩
      exact ⟨fun _ => ⟨⟨entry.engine, hkey ▸ hl.engines entry hentry, rfl⟩, hkeys'⟩,
        fun hmiss => absurd hmem hmiss, fun hmiss => absurd hmem hmiss⟩
    | failure hmiss hready =>
      exact ⟨fun hmem => absurd hmem hmiss,
        fun _ hready' => absurd (hready.symm.trans hready') (by decide), fun _ _ => rfl⟩
    | creation hmiss hready hcap' hentries =>
      rw [hcap] at hentries
      exact ⟨fun hmem => absurd hmem hmiss, fun _ _ => ⟨rfl, hentries⟩,
        fun _ hready' => absurd (hready.symm.trans hready') (by decide)⟩

end

/-- A lookup of an engine by the name of its OCR backend, under no registry. -/
def ocrCall (ocr : String) (engine : Option Nat) : EngineCall Nat where
  backends := ⟨"pdf", ocr, "auto", "auto", ""⟩
  fs := ⟨fun _ => none, fun _ => none⟩
  createUnique := fun _ => match engine with
    | some n => ⟨n, true, .ok ()⟩
    | none => ⟨0, false, .error (.error "configure.backend_unknown" "unknown backend")⟩

/-- Two engines fill the cache, a creation fails, and the third engine replaces the one that was
used before the other. -/
theorem cache_is_lru_two :
    0 < 2 ∧ ∃ new : DocumentEngineCache Nat, DocumentEngineCache.create 2 = .ok new ∧
      (runCalls new [ocrCall "a" (some 1), ocrCall "b" (some 2), ocrCall "c" none,
        ocrCall "a" none, ocrCall "c" (some 3)]).keys =
          [ "c", "a"].map fun ocr => (ocrCall ocr none).key := by
  refine ⟨by decide, ?_⟩
  obtain ⟨new, hnew, -, -, hkeys, -⟩ := cache_is_lru (by decide : 0 < 2)
    [ocrCall "a" (some 1), ocrCall "b" (some 2), ocrCall "c" none, ocrCall "a" none,
      ocrCall "c" (some 3)]
  refine ⟨new, hnew, hkeys.trans ?_⟩
  decide +kernel

example : lexicallyNormal "/worker/nested/../backends.json" = "/worker/backends.json" := by
  decide +kernel

example : lexicallyNormal "foo/.///bar/../" = "foo/" := by decide +kernel

end DocParser.Platform
