import DocParser.Lib.Flock
import DocParser.Lib.Transition
import DocParser.Platform.RunRows

/-!
# Retention of artifact files

Cleaners, the artifact endpoints of the API and workers on the directory of one run. They share
the lock file `.artifacts.lock`, the marker `.artifacts-expired` and the column
`artifacts_expired_at`. Any process may fail or crash between two steps, and a cleanup may be run
again. `retention_safe`: what is deleted belongs to a run that is over and marked, under no
reader and no worker, and none comes later.
-/

namespace DocParser.Platform

/-! ## The run and its directory -/

/-- The columns of `runs` that retention looks at. Times are in seconds. -/
structure ArtifactRow where
  status : RunStatus
  updatedAt : Nat
  artifactsExpiredAt : Option Nat
  artifactsCleanedAt : Option Nat
  deriving DecidableEq, Repr

/-- `ELIGIBLE` at time `now`, for files that are kept for `age`. -/
def ArtifactRow.eligible (row : ArtifactRow) (age now : Nat) : Bool :=
  row.status.isTerminal && row.artifactsCleanedAt.isNone &&
    (row.artifactsExpiredAt.isSome || decide (row.updatedAt + age ≤ now))

/-- `artifacts_expired_at=COALESCE(artifacts_expired_at, NOW())`. -/
def ArtifactRow.expire (row : ArtifactRow) (now : Nat) : ArtifactRow :=
  { row with artifactsExpiredAt := row.artifactsExpiredAt <|> some now }

/-- A file below an entry of the run directory. The path of the entry itself is empty. -/
abbrev RunFile := String × String

def generatedEntries : List String := ["output", "artifacts", "executions", "events.ndjson"]

def expiredMarker : RunFile := (".artifacts-expired", "")

def lockFile : RunFile := (".artifacts.lock", "")

/-- `open` with `O_CREAT`. -/
def createFile (file : RunFile) (files : List RunFile) : List RunFile :=
  if file ∈ files then files else file :: files

/-- `unlink`, and `rmdir` of an entry that `rmtree` has emptied. -/
def unlinkFile (file : RunFile) (files : List RunFile) : List RunFile :=
  files.filter (· ≠ file)

/-! ## The processes -/

/-- Who uses the files of a run: `artifact_access` and `ArtifactFileResponse`, or a worker. -/
inductive ArtifactUser
  | reader | worker
  deriving DecidableEq, Repr

inductive ArtifactProcess
  | idle
  /-- The row is selected for update, and its job path is valid. -/
  | selected
  /-- The lock file is open. -/
  | prepared
  /-- The lock is held exclusively. -/
  | holding
  /-- The row is updated in the transaction. -/
  | expiring
  | committed
  /-- The marker exists. -/
  | marked
  /-- The entries that `remove_generated_entries` has still to remove. -/
  | removing (names : List String)
  | cleaned
  /-- A reader that saw the run before it expired. -/
  | requested
  /-- The lock file is open. -/
  | opened (user : ArtifactUser)
  /-- The lock is shared, and the marker not looked at. -/
  | sharing (user : ArtifactUser)
  /-- A reader that found no marker. -/
  | unmarked
  /-- All checks are passed. -/
  | passed (user : ArtifactUser)
  /-- The descriptors will be closed: a return or an exception. -/
  | closing
  deriving DecidableEq, Repr

/-- The committed row, the transaction that has locked it with the row as it left it, the lock on
the lock file, the files, and the processes. The client of a transaction is lost when it crashes
or loses its connection. -/
structure RetentionState where
  row : ArtifactRow
  transaction : Option (Option Nat × ArtifactRow)
  lock : Flock Nat
  files : List RunFile
  process : Nat → ArtifactProcess

namespace RetentionState

def setProcess (s : RetentionState) (p : Nat) (process : ArtifactProcess) : RetentionState :=
  { s with process := Function.update s.process p process }

/-- The transaction of `p` without its client. -/
def orphan (s : RetentionState) (p : Nat) : Option (Option Nat × ArtifactRow) :=
  s.transaction.map fun tx => if tx.1 = some p then (none, tx.2) else tx

/-- The transactions after a rollback by `p`. -/
def rollback (s : RetentionState) (p : Nat) : Option (Option Nat × ArtifactRow) :=
  s.transaction.filter fun tx => tx.1 ≠ some p

end RetentionState

/-- What a worker finds after it has locked: no other check is left. -/
def ArtifactUser.afterMarker : ArtifactUser → ArtifactProcess
  | .reader => .unmarked
  | .worker => .passed .worker

/-- A step of process `p`, or of the database. -/
inductive RetentionStep : RetentionState → Nat → RetentionState → Prop
  /-- `SELECT … FOR UPDATE SKIP LOCKED`. A row that is locked or not eligible is skipped. -/
  | select (s : RetentionState) (p : Nat) (age now : Nat) :
      s.process p = .idle → s.transaction = none → s.row.eligible age now = true → 0 < age →
      RetentionStep s p { s.setProcess p .selected with transaction := some (some p, s.row) }
  | prepare (s : RetentionState) (p : Nat) :
      s.process p = .selected →
      RetentionStep s p { s.setProcess p .prepared with files := createFile lockFile s.files }
  | lockExclusive (s : RetentionState) (p : Nat) (lock : Flock Nat) :
      s.process p = .prepared → s.lock.tryExclusive p = some lock →
      RetentionStep s p { s.setProcess p .holding with lock := lock }
  | expire (s : RetentionState) (p : Nat) (row : ArtifactRow) (now : Nat) :
      s.process p = .holding → s.transaction = some (some p, row) →
      RetentionStep s p
        { s.setProcess p .expiring with transaction := some (some p, row.expire now) }
  | commit (s : RetentionState) (p : Nat) (row : ArtifactRow) :
      s.process p = .expiring → s.transaction = some (some p, row) →
      RetentionStep s p { s.setProcess p .committed with row := row, transaction := none }
  | mark (s : RetentionState) (p : Nat) :
      s.process p = .committed →
      RetentionStep s p { s.setProcess p .marked with files := createFile expiredMarker s.files }
  /-- The marker is a regular file and on disk. -/
  | verify (s : RetentionState) (p : Nat) :
      s.process p = .marked → RetentionStep s p (s.setProcess p (.removing generatedEntries))
  /-- `rmtree` removes what is below an entry in any order. -/
  | unlink (s : RetentionState) (p : Nat) (name path : String) (names : List String) :
      s.process p = .removing (name :: names) →
      RetentionStep s p { s with files := unlinkFile (name, path) s.files }
  | next (s : RetentionState) (p : Nat) (name : String) (names : List String) :
      s.process p = .removing (name :: names) → (∀ path, (name, path) ∉ s.files) →
      RetentionStep s p (s.setProcess p (.removing names))
  | clean (s : RetentionState) (p : Nat) (now : Nat) :
      s.process p = .removing [] → s.transaction = none →
      RetentionStep s p
        { s.setProcess p .cleaned with row := { s.row with artifactsCleanedAt := some now } }
  /-- An endpoint of the API looks at the run. -/
  | request (s : RetentionState) (p : Nat) :
      s.process p = .idle → s.row.artifactsExpiredAt = none →
      RetentionStep s p (s.setProcess p .requested)
  /-- `ArtifactFileResponse.__call__`, after the endpoint has returned. -/
  | respond (s : RetentionState) (p : Nat) :
      s.process p = .idle → RetentionStep s p (s.setProcess p .requested)
  | openReader (s : RetentionState) (p : Nat) :
      s.process p = .requested →
      RetentionStep s p
        { s.setProcess p (.opened .reader) with files := createFile lockFile s.files }
  | openWorker (s : RetentionState) (p : Nat) :
      s.process p = .idle →
      RetentionStep s p
        { s.setProcess p (.opened .worker) with files := createFile lockFile s.files }
  | lockShared (s : RetentionState) (p : Nat) (user : ArtifactUser) (lock : Flock Nat) :
      s.process p = .opened user → s.lock.tryShared p = some lock →
      RetentionStep s p { s.setProcess p (.sharing user) with lock := lock }
  | checkMarker (s : RetentionState) (p : Nat) (user : ArtifactUser) :
      s.process p = .sharing user → expiredMarker ∉ s.files →
      RetentionStep s p (s.setProcess p user.afterMarker)
  /-- `get_run` under the lock. -/
  | checkRow (s : RetentionState) (p : Nat) :
      s.process p = .unmarked → s.row.artifactsExpiredAt = none →
      RetentionStep s p (s.setProcess p (.passed .reader))
  | write (s : RetentionState) (p : Nat) (name path : String) :
      s.process p = .passed .worker → name ∈ generatedEntries →
      RetentionStep s p { s with files := createFile (name, path) s.files }
  /-- A return or an exception, which ends a transaction that is still open. -/
  | leave (s : RetentionState) (p : Nat) :
      s.process p ≠ .idle →
      RetentionStep s p { s.setProcess p .closing with transaction := s.rollback p }
  | close (s : RetentionState) (p : Nat) :
      s.process p = .closing →
      RetentionStep s p { s.setProcess p .idle with lock := s.lock.close p }
  /-- The reply to a statement is lost: it took effect or will or not. -/
  | disconnect (s : RetentionState) (p : Nat) :
      s.process p ≠ .idle →
      RetentionStep s p { s.setProcess p .closing with transaction := s.orphan p }
  | crash (s : RetentionState) (p : Nat) :
      RetentionStep s p
        { s.setProcess p .idle with transaction := s.orphan p, lock := s.lock.close p }
  /-- The database ends a transaction without a client. -/
  | settle (s : RetentionState) (p : Nat) (row row' : ArtifactRow) :
      s.transaction = some (none, row') → row = row' ∨ row = s.row →
      RetentionStep s p { s with row := row, transaction := none }
  /-- Another statement on the row, once it is not locked. A status that is terminal stays. -/
  | update (s : RetentionState) (p : Nat) (status : RunStatus) (updatedAt : Nat) :
      s.transaction = none → (s.row.status.isTerminal = true → status = s.row.status) →
      RetentionStep s p { s with row := { s.row with status := status, updatedAt := updatedAt } }

/-- A run directory before anything was cleaned. -/
def retention : Transition.System RetentionState Nat where
  init s := s.row.artifactsExpiredAt = none ∧ s.transaction = none ∧ s.lock = .free ∧
    expiredMarker ∉ s.files ∧ ∀ p, s.process p = .idle
  step := RetentionStep

/-! ## Steps on files -/

theorem mem_createFile {file new : RunFile} {files : List RunFile} :
    file ∈ createFile new files ↔ file = new ∨ file ∈ files := by
  unfold createFile
  split_ifs with h
  · exact ⟨Or.inr, fun hf => hf.elim (fun heq => heq ▸ h) id⟩
  · exact List.mem_cons

theorem mem_unlinkFile {file old : RunFile} {files : List RunFile} :
    file ∈ unlinkFile old files ↔ file ∈ files ∧ file ≠ old := by
  unfold unlinkFile
  rw [List.mem_filter, decide_eq_true_iff]

theorem entry_ne_marker {name path : String} (h : name ∈ generatedEntries) :
    expiredMarker ≠ (name, path) := by
  rintro heq
  cases heq
  revert h
  decide

theorem marker_ne_lockFile : expiredMarker ≠ lockFile := by decide

theorem ArtifactRow.eligible_terminal {row : ArtifactRow} {age now : Nat}
    (h : row.eligible age now = true) : row.status.isTerminal = true := by
  unfold ArtifactRow.eligible at h
  rw [Bool.and_eq_true, Bool.and_eq_true] at h
  exact h.1.1

theorem ArtifactRow.expire_isSome (row : ArtifactRow) (now : Nat) :
    (row.expire now).artifactsExpiredAt.isSome = true := by
  unfold ArtifactRow.expire
  cases row.artifactsExpiredAt <;> rfl

/-! ## The invariant -/

/-- The run is over and its expiry committed. -/
def ArtifactRow.Expired (row : ArtifactRow) : Prop :=
  row.status.isTerminal = true ∧ row.artifactsExpiredAt.isSome = true

/-- What holds while process `p` is where it is. -/
def RetentionState.Guards (s : RetentionState) (p : Nat) : ArtifactProcess → Prop
  | .idle | .requested | .opened _ | .closing => True
  | .selected | .prepared => ∃ row, s.transaction = some (some p, row)
  | .holding => s.lock.HoldsExclusive p ∧ ∃ row, s.transaction = some (some p, row)
  | .expiring => s.lock.HoldsExclusive p ∧ ∃ row, s.transaction = some (some p, row) ∧
      row.artifactsExpiredAt.isSome = true
  | .committed => s.lock.HoldsExclusive p ∧ s.row.Expired
  | .marked | .cleaned => s.lock.HoldsExclusive p ∧ s.row.Expired ∧ expiredMarker ∈ s.files
  | .removing names => s.lock.HoldsExclusive p ∧ s.row.Expired ∧ expiredMarker ∈ s.files ∧
      ∀ name ∈ names, name ∈ generatedEntries
  | .sharing _ => s.lock.HoldsShared p
  | .unmarked | .passed _ => s.lock.HoldsShared p ∧ expiredMarker ∉ s.files

/-- What holds in every reachable state. -/
structure Retained (s : RetentionState) : Prop where
  process : ∀ p, s.Guards p (s.process p)
  /-- An open transaction belongs to a run that is over, and keeps its expiry. -/
  transaction : ∀ client row, s.transaction = some (client, row) →
    s.row.status.isTerminal = true ∧ row.status = s.row.status ∧
      (s.row.artifactsExpiredAt.isSome = true → row.artifactsExpiredAt.isSome = true)

/-- What a step of another process leaves to `q`. -/
structure Frame (s t : RetentionState) (q : Nat) : Prop where
  exclusive : s.lock.HoldsExclusive q → t.lock.HoldsExclusive q
  shared : s.lock.HoldsShared q → t.lock.HoldsShared q
  transaction : ∀ row, s.transaction = some (some q, row) → t.transaction = some (some q, row)
  expired : s.row.Expired → t.row.Expired
  marker : expiredMarker ∈ s.files → expiredMarker ∈ t.files
  unmarked : s.lock.HoldsShared q → expiredMarker ∉ s.files → expiredMarker ∉ t.files

theorem Frame.guards {s t : RetentionState} {q : Nat} (h : Frame s t q)
    {process : ArtifactProcess} (hg : s.Guards q process) : t.Guards q process := by
  cases process with
  | idle | requested | opened user | closing => trivial
  | selected | prepared =>
    obtain ⟨row, hrow⟩ := hg
    exact ⟨row, h.transaction row hrow⟩
  | holding =>
    obtain ⟨hlock, row, hrow⟩ := hg
    exact ⟨h.exclusive hlock, row, h.transaction row hrow⟩
  | expiring =>
    obtain ⟨hlock, row, hrow, hexpired⟩ := hg
    exact ⟨h.exclusive hlock, row, h.transaction row hrow, hexpired⟩
  | committed => exact ⟨h.exclusive hg.1, h.expired hg.2⟩
  | marked | cleaned => exact ⟨h.exclusive hg.1, h.expired hg.2.1, h.marker hg.2.2⟩
  | removing names =>
    exact ⟨h.exclusive hg.1, h.expired hg.2.1, h.marker hg.2.2.1, hg.2.2.2⟩
  | sharing user => exact h.shared hg
  | unmarked | passed user => exact ⟨h.shared hg.1, h.unmarked hg.1 hg.2⟩

/-- **Step rule.** A step keeps the invariant when it keeps the frame of all other processes and
gives its own what that has to keep. -/
theorem Retained.of_frame {s t : RetentionState} {p : Nat} (h : Retained s)
    (hself : t.Guards p (t.process p)) (hother : ∀ q, q ≠ p → t.process q = s.process q)
    (hframe : ∀ q, q ≠ p → Frame s t q)
    (htransaction : ∀ client row, t.transaction = some (client, row) →
      t.row.status.isTerminal = true ∧ row.status = t.row.status ∧
        (t.row.artifactsExpiredAt.isSome = true → row.artifactsExpiredAt.isSome = true)) :
    Retained t := by
  refine ⟨fun q => ?_, htransaction⟩
  by_cases heq : q = p
  · rw [heq]
    exact hself
  · rw [hother q heq]
    exact (hframe q heq).guards (h.process q)

section Steps

variable {s : RetentionState} {p : Nat}

@[simp] theorem setProcess_self (process : ArtifactProcess) :
    (s.setProcess p process).process p = process := Function.update_self ..

@[simp] theorem setProcess_of_ne {process : ArtifactProcess} {q : Nat} (h : q ≠ p) :
    (s.setProcess p process).process q = s.process q := Function.update_of_ne h ..

theorem mem_createFile_of_mem {file new : RunFile} {files : List RunFile} (h : file ∈ files) :
    file ∈ createFile new files := mem_createFile.mpr (Or.inr h)

theorem marker_mem_createFile {new : RunFile} (hne : expiredMarker ≠ new) {files : List RunFile} :
    expiredMarker ∈ createFile new files ↔ expiredMarker ∈ files :=
  mem_createFile.trans (or_iff_right hne)

theorem marker_mem_unlinkFile {old : RunFile} (hne : expiredMarker ≠ old)
    {files : List RunFile} : expiredMarker ∈ unlinkFile old files ↔ expiredMarker ∈ files :=
  mem_unlinkFile.trans (and_iff_left hne)

/-- A change of files that leaves the marker alone is in every frame. -/
theorem Frame.files {t : RetentionState} {q : Nat} (hrow : t.row = s.row)
    (htransaction : t.transaction = s.transaction) (hlock : t.lock = s.lock)
    (hmarker : expiredMarker ∈ t.files ↔ expiredMarker ∈ s.files) : Frame s t q where
  exclusive h := hlock ▸ h
  shared h := hlock ▸ h
  transaction _ h := htransaction ▸ h
  expired h := hrow ▸ h
  marker h := hmarker.mpr h
  unmarked _ h := fun hm => h (hmarker.mp hm)

/-- A change of the lock that leaves what others hold. -/
theorem Frame.lock {t : RetentionState} {q : Nat} (hrow : t.row = s.row)
    (htransaction : ∀ row, s.transaction = some (some q, row) →
      t.transaction = some (some q, row))
    (hfiles : t.files = s.files)
    (hexclusive : s.lock.HoldsExclusive q → t.lock.HoldsExclusive q)
    (hshared : s.lock.HoldsShared q → t.lock.HoldsShared q) : Frame s t q where
  exclusive := hexclusive
  shared := hshared
  transaction := htransaction
  expired h := hrow ▸ h
  marker h := hfiles ▸ h
  unmarked _ h := hfiles ▸ h

/-- A change of the row when no process has it locked but `p`. -/
theorem Frame.row {t : RetentionState} {q : Nat} (hexpired : s.row.Expired → t.row.Expired)
    (hfree : ∀ row, s.transaction ≠ some (some q, row)) (hfiles : t.files = s.files)
    (hlock : t.lock = s.lock) : Frame s t q where
  exclusive h := hlock ▸ h
  shared h := hlock ▸ h
  transaction row h := absurd h (hfree row)
  expired := hexpired
  marker h := hfiles ▸ h
  unmarked _ h := hfiles ▸ h

theorem orphan_of_ne {q : Nat} (hne : q ≠ p) {row : ArtifactRow}
    (h : s.transaction = some (some q, row)) : s.orphan p = some (some q, row) := by
  unfold RetentionState.orphan
  rw [h, Option.map_some, if_neg fun heq => hne (Option.some.inj heq)]

theorem rollback_of_ne {q : Nat} (hne : q ≠ p) {row : ArtifactRow}
    (h : s.transaction = some (some q, row)) : s.rollback p = some (some q, row) := by
  unfold RetentionState.rollback
  rw [h]
  simp [hne]

theorem orphan_row {client : Option Nat} {row : ArtifactRow}
    (h : s.orphan p = some (client, row)) : ∃ client, s.transaction = some (client, row) := by
  obtain ⟨⟨client', row'⟩, htx, heq⟩ := Option.map_eq_some_iff.mp h
  dsimp only at heq
  split_ifs at heq <;> cases heq <;> exact ⟨_, htx⟩

theorem rollback_row {client : Option Nat} {row : ArtifactRow}
    (h : s.rollback p = some (client, row)) : s.transaction = some (client, row) :=
  (Option.filter_eq_some_iff.mp h).1

end Steps

/-- The frame of a step that leaves row, transaction, lock and files alone. -/
theorem Frame.refl (s : RetentionState) (p q : Nat) (process : ArtifactProcess) :
    Frame s (s.setProcess p process) q := Frame.files rfl rfl rfl Iff.rfl

/-- A step of `p` that moves it, and leaves what all others rely on. -/
theorem Retained.turn {s t : RetentionState} {p : Nat} {process : ArtifactProcess}
    (h : Retained s) (hprocess : t.process = (s.setProcess p process).process)
    (hself : t.Guards p process) (hframe : ∀ q, q ≠ p → Frame s t q)
    (htransaction : ∀ client row, t.transaction = some (client, row) →
      t.row.status.isTerminal = true ∧ row.status = t.row.status ∧
        (t.row.artifactsExpiredAt.isSome = true → row.artifactsExpiredAt.isSome = true)) :
    Retained t := by
  refine h.of_frame (p := p) ?_ (fun q hq => ?_) hframe htransaction
  · rwa [hprocess, setProcess_self]
  · rw [hprocess]
    exact setProcess_of_ne hq

/-- A step of `p` that only moves it. -/
theorem Retained.move {s : RetentionState} {p : Nat} (h : Retained s) {process : ArtifactProcess}
    (hself : s.Guards p process) : Retained (s.setProcess p process) := by
  exact h.turn rfl ((Frame.refl s p p process).guards hself) (fun q _ => .refl s p q process)
    h.transaction

/-- A step on files other than the marker. -/
theorem Retained.files {s : RetentionState} (h : Retained s) {files : List RunFile}
    (hmarker : expiredMarker ∈ files ↔ expiredMarker ∈ s.files) :
    Retained { s with files := files } := by
  refine ⟨fun q => ?_, h.transaction⟩
  have hframe : Frame s { s with files := files } q := Frame.files rfl rfl rfl hmarker
  exact hframe.guards (h.process q)

/-- A step on a row that no process has locked. -/
theorem Retained.row {s : RetentionState} (h : Retained s) {row : ArtifactRow}
    {transaction : Option (Option Nat × ArtifactRow)} (hnone : transaction = none)
    (hfree : ∀ q row, s.transaction ≠ some (some q, row))
    (hexpired : s.row.Expired → row.Expired) :
    Retained { s with row := row, transaction := transaction } := by
  refine ⟨fun q => ?_, fun client row' hrow => ?_⟩
  · have hframe : Frame s { s with row := row, transaction := transaction } q :=
      Frame.row hexpired (hfree q) rfl rfl
    exact hframe.guards (h.process q)
  · rw [show _ = none from hnone] at hrow
    cases hrow

/-- A row that no transaction has locked. -/
theorem not_locked {s : RetentionState} (h : s.transaction = none) (q : Nat) (row : ArtifactRow) :
    s.transaction ≠ some (some q, row) := by
  rw [h]
  exact nofun

/-- **Step lemma.** -/
theorem Retained.step {s t : RetentionState} {p : Nat} (h : Retained s)
    (hst : RetentionStep s p t) : Retained t := by
  have hp := h.process p
  cases hst with
  | select age now hidle hnone heligible _ =>
    refine h.turn rfl ?_ (fun q hq => ?_) ?_
    · exact ⟨s.row, rfl⟩
    · refine Frame.lock rfl (fun row hrow => ?_) rfl id id
      rw [hnone] at hrow
      cases hrow
    · rintro client row ⟨⟩
      exact ⟨ArtifactRow.eligible_terminal heligible, rfl, id⟩
  | prepare hat =>
    rw [hat] at hp
    have hmove : Retained (s.setProcess p .prepared) := h.move hp
    exact hmove.files (marker_mem_createFile marker_ne_lockFile)
  | lockExclusive lock hat hlock =>
    rw [hat] at hp
    obtain ⟨hself, hexclusive, hshared⟩ := Flock.tryExclusive_eq_some hlock
    refine h.turn rfl ?_ (fun q _ => ?_) h.transaction
    · exact ⟨hself, hp⟩
    · exact Frame.lock rfl (fun _ => id) rfl (fun hq => absurd hq (hexclusive q))
        (fun hq => absurd hq (hshared q))
  | expire row now hat htx =>
    rw [hat] at hp
    obtain ⟨hterminal, hstatus, -⟩ := h.transaction _ _ htx
    refine h.turn rfl ?_ (fun q hq => ?_) ?_
    · exact ⟨hp.1, row.expire now, rfl, row.expire_isSome now⟩
    · refine Frame.lock rfl (fun row' hrow => ?_) rfl id id
      rw [htx] at hrow
      exact absurd (Option.some.inj (Prod.mk.inj (Option.some.inj hrow)).1).symm hq
    · rintro client row' ⟨⟩
      exact ⟨hterminal, hstatus, fun _ => row.expire_isSome now⟩
  | commit row hat htx =>
    rw [hat] at hp
    obtain ⟨hlock, row', htx', hsome⟩ := hp
    rw [htx] at htx'
    cases htx'
    obtain ⟨hterminal, hstatus, -⟩ := h.transaction _ _ htx
    have hexpired : row.Expired := ⟨by rw [hstatus, hterminal], hsome⟩
    refine h.turn rfl ?_ (fun q hq => ?_) nofun
    · exact ⟨hlock, hexpired⟩
    · refine Frame.row (fun _ => hexpired) (fun row' hrow => ?_) rfl rfl
      rw [htx] at hrow
      exact hq (Option.some.inj (Prod.mk.inj (Option.some.inj hrow)).1).symm
  | mark hat =>
    rw [hat] at hp
    have hmarked : expiredMarker ∈ createFile expiredMarker s.files :=
      mem_createFile.mpr (Or.inl rfl)
    refine h.turn rfl ?_ (fun q _ => ?_) h.transaction
    · exact ⟨hp.1, hp.2, hmarked⟩
    · -- whoever shares the lock would rely on there being no marker
      exact ⟨id, id, fun _ => id, id, fun _ => hmarked,
        fun hq => absurd hq (Flock.not_holdsShared_of_exclusive hp.1)⟩
  | verify hat =>
    rw [hat] at hp
    exact h.move ⟨hp.1, hp.2.1, hp.2.2, fun _ => id⟩
  | unlink name path names hat =>
    rw [hat] at hp
    exact h.files (marker_mem_unlinkFile (entry_ne_marker (hp.2.2.2 name List.mem_cons_self)))
  | next name names hat _ =>
    rw [hat] at hp
    exact h.move ⟨hp.1, hp.2.1, hp.2.2.1, fun n hn => hp.2.2.2 n (List.mem_cons_of_mem _ hn)⟩
  | clean now hat hnone =>
    rw [hat] at hp
    have hmove : Retained (s.setProcess p .cleaned) := h.move ⟨hp.1, hp.2.1, hp.2.2.1⟩
    exact hmove.row hnone (not_locked hnone) id
  | request hat _ => exact h.move trivial
  | respond hat => exact h.move trivial
  | openReader hat =>
    have hmove : Retained (s.setProcess p (.opened .reader)) := h.move trivial
    exact hmove.files (marker_mem_createFile marker_ne_lockFile)
  | openWorker hat =>
    have hmove : Retained (s.setProcess p (.opened .worker)) := h.move trivial
    exact hmove.files (marker_mem_createFile marker_ne_lockFile)
  | lockShared user lock hat hlock =>
    obtain ⟨hself, -, hexclusive, hshared⟩ := Flock.tryShared_eq_some hlock
    refine h.turn rfl ?_ (fun q _ => ?_) h.transaction
    · exact hself
    · exact Frame.lock rfl (fun _ => id) rfl (fun hq => absurd hq (hexclusive q)) (hshared q)
  | checkMarker user hat hmarker =>
    rw [hat] at hp
    refine h.move ?_
    cases user <;> exact ⟨hp, hmarker⟩
  | checkRow hat _ =>
    rw [hat] at hp
    exact h.move hp
  | write name path hat hname =>
    exact h.files (marker_mem_createFile (entry_ne_marker hname))
  | leave hat =>
    refine h.turn rfl ?_ (fun q hq => ?_)
      (fun client row hrow => h.transaction client row (rollback_row hrow))
    · trivial
    · exact Frame.lock rfl (fun row => rollback_of_ne hq) rfl id id
  | close hat =>
    refine h.turn rfl ?_ (fun q hq => ?_) h.transaction
    · trivial
    · exact Frame.lock rfl (fun _ => id) rfl (Flock.holdsExclusive_close hq).mpr
        (Flock.holdsShared_close hq).mpr
  | disconnect hat =>
    refine h.turn rfl ?_ (fun q hq => ?_)
      (fun client row hrow => ?_)
    · trivial
    · exact Frame.lock rfl (fun row => orphan_of_ne hq) rfl id id
    · obtain ⟨client', htx⟩ := orphan_row hrow
      exact h.transaction client' row htx
  | crash =>
    refine h.turn rfl ?_ (fun q hq => ?_)
      (fun client row hrow => ?_)
    · trivial
    · exact Frame.lock rfl (fun row => orphan_of_ne hq) rfl (Flock.holdsExclusive_close hq).mpr
        (Flock.holdsShared_close hq).mpr
    · obtain ⟨client', htx⟩ := orphan_row hrow
      exact h.transaction client' row htx
  | settle row row' htx hrow =>
    obtain ⟨hterminal, hstatus, hsome⟩ := h.transaction _ _ htx
    refine h.row rfl (fun q row'' heq => ?_) (fun hexpired => ?_)
    · rw [htx] at heq
      cases heq
    · rcases hrow with rfl | rfl
      · exact ⟨by rw [hstatus, hterminal], hsome hexpired.2⟩
      · exact hexpired
  | update status updatedAt hnone hkeep =>
    refine h.row hnone (not_locked hnone) fun hexpired => ⟨?_, hexpired.2⟩
    show status.isTerminal = true
    rw [hkeep hexpired.1, hexpired.1]

/-- **Run lemma.** -/
theorem retained_reachable {s : RetentionState} (hs : retention.Reachable s) : Retained s := by
  refine hs.invariant (fun s hinit => ?_) fun s p t _ h hst => h.step hst
  obtain ⟨-, hnone, -, -, hidle⟩ := hinit
  refine ⟨fun p => ?_, fun client row hrow => ?_⟩
  · rw [hidle p]
    trivial
  · rw [hnone] at hrow
    cases hrow

/-! ## Deletions -/

/-- A file of the run directory is gone. -/
def Deletes (s t : RetentionState) : Prop := ∃ file ∈ s.files, file ∉ t.files

/-- A reader or a worker may use the files. -/
def ArtifactProcess.HasPassed : ArtifactProcess → Prop
  | .passed _ => True
  | _ => False

/-- Only the removal of an entry deletes. -/
theorem RetentionStep.removing_of_deletes {s t : RetentionState} {p : Nat}
    (hst : RetentionStep s p t) (hdeletes : Deletes s t) :
    ∃ name names path, s.process p = .removing (name :: names) ∧
      t.files = unlinkFile (name, path) s.files := by
  obtain ⟨file, hmem, hgone⟩ := hdeletes
  cases hst with
  | unlink name path names hat => exact ⟨name, names, path, hat, rfl⟩
  | prepare | mark | openReader | openWorker | write =>
    exact absurd (mem_createFile_of_mem hmem) hgone
  | _ => exact absurd hmem hgone

theorem Retained.holdsShared {s : RetentionState} (h : Retained s) {q : Nat}
    (hq : (s.process q).HasPassed) : s.lock.HoldsShared q ∧ expiredMarker ∉ s.files := by
  have hguards := h.process q
  cases hprocess : s.process q with
  | passed user =>
    rw [hprocess] at hguards
    exact hguards
  | _ =>
    rw [hprocess] at hq
    exact hq.elim

/-- The marker stays. -/
theorem Retained.marker_step {s t : RetentionState} {p : Nat} (h : Retained s)
    (hst : RetentionStep s p t) (hmarker : expiredMarker ∈ s.files) : expiredMarker ∈ t.files := by
  by_contra hgone
  obtain ⟨name, names, path, hat, hfiles⟩ := hst.removing_of_deletes ⟨_, hmarker, hgone⟩
  have hp := h.process p
  rw [hat] at hp
  rw [hfiles] at hgone
  exact hgone ((marker_mem_unlinkFile
    (entry_ne_marker (hp.2.2.2 name List.mem_cons_self))).mpr hmarker)

theorem marker_run {s t : RetentionState} {ls : List Nat} (hs : retention.Reachable s)
    (hrun : retention.Run s ls t) (hmarker : expiredMarker ∈ s.files) :
    expiredMarker ∈ t.files :=
  hrun.preserves (fun _ _ _ hr hm hst => (retained_reachable hr).marker_step hst hm) hs hmarker

/-- What holds when a step of `retention` deletes a file. -/
structure RetentionSafe (s t : RetentionState) : Prop where
  /-- The file belongs to an entry that a run generates. -/
  generated : ∀ file ∈ s.files, file ∉ t.files → file.1 ∈ generatedEntries
  terminal : s.row.status.isTerminal = true
  /-- The expiry is committed, and the marker is there. -/
  expired : s.row.artifactsExpiredAt.isSome = true
  marker : expiredMarker ∈ s.files
  /-- Nobody shares the lock, so nobody who passed the checks still uses the files. -/
  unshared : ∀ q, ¬s.lock.HoldsShared q
  unused : ∀ q, ¬(s.process q).HasPassed
  /-- From then on nobody passes the checks. -/
  closed : ∀ ls u, retention.Run t ls u → ∀ q, ¬(u.process q).HasPassed

/-- **Retention** never pulls files from under a reader or a worker. -/
theorem retention_safe {s t : RetentionState} {p : Nat} (hs : retention.Reachable s)
    (hst : retention.step s p t) (hdeletes : Deletes s t) : RetentionSafe s t := by
  have hr := retained_reachable hs
  obtain ⟨name, names, path, hat, hfiles⟩ := hst.removing_of_deletes hdeletes
  have hp := hr.process p
  rw [hat] at hp
  obtain ⟨hlock, hexpired, hmarker, hnames⟩ := hp
  refine ⟨fun file hmem hgone => ?_, hexpired.1, hexpired.2, hmarker,
    fun q => Flock.not_holdsShared_of_exclusive hlock, fun q hq => ?_, fun ls u hrun q hq => ?_⟩
  · have heq : file = (name, path) := by
      by_contra hne
      rw [hfiles] at hgone
      exact hgone (mem_unlinkFile.mpr ⟨hmem, hne⟩)
    rw [heq]
    exact hnames name List.mem_cons_self
  · exact (hr.holdsShared hq).2 hmarker
  · have ht := hs.step hst
    have hmarked := marker_run ht hrun (hr.marker_step hst hmarker)
    exact ((retained_reachable (ht.run hrun)).holdsShared hq).2 hmarked

/-- A run that is over, with the files that its worker wrote. -/
def finishedRun : RetentionState where
  row := ⟨.succeeded, 100, none, none⟩
  transaction := none
  lock := .free
  files := [("job.json", ""), ("output", ""), ("output", "document.json")]
  process := fun _ => .idle

/-- The first cleaner crashes after its commit, a paused worker comes between, and the second
cleaner deletes. -/
theorem retention_safe_crash :
    ∃ s t, retention.Reachable s ∧ Deletes s t ∧ RetentionSafe s t := by
  have h0 : retention.Reachable finishedRun :=
    .init ⟨rfl, rfl, rfl, by decide, fun _ => rfl⟩
  have h1 := h0.step (RetentionStep.select _ 0 10 200 rfl rfl rfl (by decide))
  have h2 := h1.step (RetentionStep.prepare _ 0 rfl)
  have h3 := h2.step (RetentionStep.lockExclusive _ 0 (.exclusive 0) rfl rfl)
  have h4 := h3.step (RetentionStep.expire _ 0 _ 200 rfl rfl)
  have h5 := h4.step (RetentionStep.commit _ 0 _ rfl rfl)
  have h6 := h5.step (RetentionStep.crash _ 0)
  have h7 := h6.step (RetentionStep.openWorker _ 1 rfl)
  have h8 := h7.step (RetentionStep.lockShared _ 1 .worker (.shared [1]) rfl rfl)
  have h9 := h8.step (RetentionStep.checkMarker _ 1 .worker rfl (by decide))
  have h10 := h9.step (RetentionStep.leave _ 1 nofun)
  have h11 := h10.step (RetentionStep.close _ 1 rfl)
  have h12 := h11.step (RetentionStep.select _ 2 10 300 rfl rfl rfl (by decide))
  have h13 := h12.step (RetentionStep.prepare _ 2 rfl)
  have h14 := h13.step (RetentionStep.lockExclusive _ 2 (.exclusive 2) rfl rfl)
  have h15 := h14.step (RetentionStep.expire _ 2 _ 300 rfl rfl)
  have h16 := h15.step (RetentionStep.commit _ 2 _ rfl rfl)
  have h17 := h16.step (RetentionStep.mark _ 2 rfl)
  have h18 := h17.step (RetentionStep.verify _ 2 rfl)
  obtain ⟨s, hs, hat, hmem⟩ : ∃ s, retention.Reachable s ∧
      s.process 2 = .removing generatedEntries ∧ ("output", "document.json") ∈ s.files :=
    ⟨_, h18, rfl, by decide⟩
  have hst := RetentionStep.unlink s 2 "output" "document.json" _ hat
  have hgone : ("output", "document.json") ∉ unlinkFile ("output", "document.json") s.files :=
    fun h => (mem_unlinkFile.mp h).2 rfl
  exact ⟨s, _, hs, ⟨_, hmem, hgone⟩, retention_safe hs hst ⟨_, hmem, hgone⟩⟩

end DocParser.Platform
