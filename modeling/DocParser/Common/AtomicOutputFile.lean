import DocParser.Lib.Files
import DocParser.Lib.Transition

/-!
# Atomic output files

A writer keeps its output in a file of a temporary directory of its own and renames it when it is
complete. Any number of writers run at the same time, each of them may fail at any call or crash,
and other programs change other files. `atomic_output`: what is read under a name is always what
was there before, what another program put there, or the complete output of one writer.
-/

namespace DocParser.AtomicOutput

open Files Transition

/-! ## Paths -/

/-- The components of a path, from the last one on. -/
abbrev Path := List String

def temporaryName (tick : Int) (sequence : Nat) : String :=
  ".die-output-" ++ toString tick ++ "-" ++ toString sequence

/-- A temporary directory beside the destination. -/
def candidate (destination : Path) (tick : Int) (sequence : Nat) : Path :=
  temporaryName tick sequence :: destination.tail

/-- `temporary_file_` of a temporary directory. -/
def temporaryFile (directory : Path) : Path := "content" :: directory

/-- The names that writers keep for themselves. -/
def Temporary (p : Path) : Prop :=
  ∃ destination tick sequence, p = candidate destination tick sequence ∨
    p = temporaryFile (candidate destination tick sequence)

/-! ## Writers -/

section Writers

variable {β : Type}

/-- `std::ofstream`, with what it has taken and how much of that has reached the file. -/
structure Output (β : Type) where
  isOpen : Bool
  good : Bool
  written : List β
  drained : Nat
  deriving DecidableEq, Repr

structure AtomicOutputFile (β : Type) where
  destination : Path
  /-- `none` is the empty path. -/
  temporaryDirectory : Option Path
  output : Output β
  deriving DecidableEq, Repr

/-- Where the code of a writer stands between two calls of the file system. -/
inductive Phase
  | constructing
  /-- The loop over the candidates. -/
  | attempting (attempt : Nat)
  | opening
  | constructed
  /-- In `commit`, with the output flushed and closed. -/
  | flushed
  | destroyingFile
  | destroyingDirectory
  deriving DecidableEq, Repr

structure Writer (β : Type) extends AtomicOutputFile β where
  phase : Phase
  /-- A commit has succeeded. -/
  committed : Bool
  deriving DecidableEq, Repr

def construct (destination : Path) : Writer β :=
  ⟨⟨destination, none, ⟨false, true, [], 0⟩⟩, .constructing, false⟩

namespace Writer

variable (w : Writer β)

def goto (phase : Phase) : Writer β := { w with phase := phase }

def setOutput (output : Output β) : Writer β := { w with output := output }

/-- The node of the temporary file after `drained` elements have reached it. -/
def content (drained : Nat) : Option (Node β) := some (.file (w.output.written.take drained))

end Writer

/-- What a step of a writer does to the file system. -/
inductive Action (β : Type)
  | silent
  | put (p : Path) (node : Option (Node β))
  /-- The output of the directory under the name of the destination. -/
  | publish (directory destination : Path)
  /-- The directory is left behind. -/
  | abandon (directory : Option Path)

/-- The names after the step. -/
def Action.apply (names : Names Path β) : Action β → Names Path β
  | .silent | .abandon _ => names
  | .put p node => names.put p node
  | .publish directory destination => names.rename (temporaryFile directory) destination

/-- A step of a writer. It sees what is under the names, and may be gone afterwards. -/
inductive WriterStep (names : Names Path β) :
    Writer β → Action β → Option (Writer β) → Prop
  /-- The destination is a regular file, or there is none. -/
  | check (w : Writer β) : w.phase = .constructing →
      (names w.destination = none ∨ ∃ content, names w.destination = some (.file content)) →
      WriterStep names w .silent (w.goto (.attempting 0))
  | checkFails (w : Writer β) : w.phase = .constructing →
      WriterStep names w .silent (w.goto .constructed)
  | createDirectory (w : Writer β) (attempt : Nat) (tick : Int) (sequence : Nat) :
      w.phase = .attempting attempt → attempt < 100 →
      names (candidate w.destination tick sequence) = none →
      WriterStep names w (.put (candidate w.destination tick sequence) (some .directory))
        (some { w.goto .opening with
          temporaryDirectory := some (candidate w.destination tick sequence) })
  | taken (w : Writer β) (attempt : Nat) (tick : Int) (sequence : Nat) :
      w.phase = .attempting attempt → attempt < 100 →
      names (candidate w.destination tick sequence) ≠ none →
      WriterStep names w .silent (w.goto (.attempting (attempt + 1)))
  /-- After the last attempt, or after another error. -/
  | createFails (w : Writer β) (attempt : Nat) : w.phase = .attempting attempt →
      WriterStep names w .silent (w.goto .constructed)
  | openFile (w : Writer β) (directory : Path) : w.phase = .opening →
      w.temporaryDirectory = some directory →
      WriterStep names w (.put (temporaryFile directory) (some (.file [])))
        ((w.goto .constructed).setOutput ⟨true, true, [], 0⟩)
  | openFails (w : Writer β) : w.phase = .opening →
      WriterStep names w .silent (w.goto .constructed)
  /-- The stream takes what the caller writes. -/
  | write (w : Writer β) (elements : List β) : w.output.isOpen = true → w.output.good = true →
      WriterStep names w .silent
        (w.setOutput { w.output with written := w.output.written ++ elements })
  /-- More of what was written reaches the file. -/
  | drain (w : Writer β) (directory : Path) (drained : Nat) : w.output.isOpen = true →
      w.temporaryDirectory = some directory →
      w.output.drained ≤ drained → drained ≤ w.output.written.length →
      WriterStep names w (.put (temporaryFile directory) (w.content drained))
        (w.setOutput { w.output with drained := drained })
  /-- A write fails, or the caller says so. -/
  | fail (w : Writer β) : w.output.isOpen = true →
      WriterStep names w .silent (w.setOutput { w.output with good := false })
  /-- `commit` flushes and closes. -/
  | flush (w : Writer β) (directory : Path) : w.phase = .constructed → w.output.isOpen = true →
      w.output.good = true → w.temporaryDirectory = some directory →
      WriterStep names w
        (.put (temporaryFile directory) (w.content w.output.written.length))
        ((w.goto .flushed).setOutput
          { w.output with isOpen := false, drained := w.output.written.length })
  /-- `commit` closes, but not all that was written has reached the file. -/
  | flushFails (w : Writer β) : w.phase = .constructed → w.output.isOpen = true →
      WriterStep names w .silent (w.setOutput { w.output with isOpen := false, good := false })
  /-- A destination that has become a directory is not replaced. -/
  | rename (w : Writer β) (directory : Path) : w.phase = .flushed →
      w.temporaryDirectory = some directory → names w.destination ≠ some .directory →
      WriterStep names w (.publish directory w.destination)
        (some { w.goto .constructed with committed := true })
  | renameFails (w : Writer β) : w.phase = .flushed →
      WriterStep names w .silent (w.goto .constructed)
  /-- The destructor begins. -/
  | destroy (w : Writer β) : w.phase = .constructed →
      WriterStep names w .silent
        ((w.goto .destroyingFile).setOutput { w.output with isOpen := false })
  | removeFile (w : Writer β) (directory : Path) : w.phase = .destroyingFile →
      w.temporaryDirectory = some directory →
      WriterStep names w (.put (temporaryFile directory) none) (w.goto .destroyingDirectory)
  /-- Also when there is no file. -/
  | removeFileFails (w : Writer β) : w.phase = .destroyingFile →
      WriterStep names w .silent (w.goto .destroyingDirectory)
  /-- A directory that is not empty is not removed. -/
  | removeDirectory (w : Writer β) (directory : Path) : w.phase = .destroyingDirectory →
      w.temporaryDirectory = some directory → (∀ name, names (name :: directory) = none) →
      WriterStep names w (.put directory none) none
  | removeDirectoryFails (w : Writer β) : w.phase = .destroyingDirectory →
      WriterStep names w (.abandon w.temporaryDirectory) none
  | crash (w : Writer β) : WriterStep names w (.abandon w.temporaryDirectory) none

end Writers

/-! ## The system -/

section System

variable {β : Type}

/-- A change of a name that is not temporary. -/
inductive Change (β : Type)
  | foreign (p : Path) (node : Option (Node β))
  | committed (writer : Nat) (destination : Path) (output : List β)

namespace Change

def path : Change β → Path
  | foreign p _ => p
  | committed _ destination _ => destination

/-- What the change leaves there: of a writer, all that it has written. -/
def node : Change β → Option (Node β)
  | foreign _ node => node
  | committed _ _ output => some (.file output)

def isOf (i : Nat) : Change β → Bool
  | foreign _ _ => false
  | committed writer _ _ => writer = i

end Change

structure State (β : Type) where
  names : Names Path β
  writers : Nat → Option (Writer β)
  /-- The number of writers so far. -/
  started : Nat
  /-- The changes so far, oldest first. -/
  changes : List (Change β)
  /-- The temporary directories that were left behind. -/
  abandoned : List Path

/-- What the log shows of a step of writer `i`. -/
def Action.changes (i : Nat) (w : Writer β) : Action β → List (Change β)
  | .publish _ destination => [.committed i destination w.output.written]
  | _ => []

def Action.abandoned : Action β → List Path
  | .abandon directory => directory.toList
  | _ => []

/-- The state after a step of writer `i` that leaves it as `w'`. -/
def State.act (s : State β) (i : Nat) (w : Writer β) (action : Action β)
    (w' : Option (Writer β)) : State β where
  names := action.apply s.names
  writers := Function.update s.writers i w'
  started := s.started
  changes := s.changes ++ action.changes i w
  abandoned := action.abandoned ++ s.abandoned

/-- A step of the system: a writer is constructed, a writer goes on, or another program changes a
name that is not temporary. -/
inductive Step : State β → Unit → State β → Prop
  | start (s : State β) (destination : Path) : ¬ Temporary destination →
      Step s () { s with
        writers := Function.update s.writers s.started (some (construct destination))
        started := s.started + 1 }
  | writer (s : State β) (i : Nat) (w : Writer β) (action : Action β) (w' : Option (Writer β)) :
      s.writers i = some w → WriterStep s.names w action w' → Step s () (s.act i w action w')
  | foreign (s : State β) (p : Path) (node : Option (Node β)) : ¬ Temporary p →
      Step s () { s with
        names := s.names.put p node
        changes := s.changes ++ [.foreign p node] }

def initialState (names : Names Path β) : State β := ⟨names, fun _ => none, 0, [], []⟩

/-- Any number of writers, from any file system. -/
def system (names : Names Path β) : Transition.System (State β) Unit where
  init s := s = initialState names
  step := Step

end System

/-! ## Names that writers keep for themselves -/

section Names

theorem temporaryName_head (tick : Int) (sequence : Nat) :
    (temporaryName tick sequence).toList.head? = some '.' := by
  unfold temporaryName
  rw [String.append_assoc, String.append_assoc, String.toList_append]
  rfl

theorem temporaryName_ne {name : String} (h : name.toList.head? ≠ some '.') (tick : Int)
    (sequence : Nat) : temporaryName tick sequence ≠ name :=
  fun heq => h (heq ▸ temporaryName_head tick sequence)

theorem temporary_candidate (destination : Path) (tick : Int) (sequence : Nat) :
    Temporary (candidate destination tick sequence) :=
  ⟨destination, tick, sequence, .inl rfl⟩

theorem temporary_file (destination : Path) (tick : Int) (sequence : Nat) :
    Temporary (temporaryFile (candidate destination tick sequence)) :=
  ⟨destination, tick, sequence, .inr rfl⟩

theorem candidate_ne_file (destination d : Path) (tick : Int) (sequence : Nat) :
    candidate destination tick sequence ≠ temporaryFile d :=
  fun h => temporaryName_ne (by decide) tick sequence (List.cons.inj h).1

theorem temporaryFile_inj {d e : Path} (h : temporaryFile d = temporaryFile e) : d = e :=
  (List.cons.inj h).2

end Names

/-! ## What a writer keeps -/

section Writers

variable {β : Type} {names names' : Names Path β} {w v : Writer β} {action : Action β}
  {w' : Option (Writer β)}

/-- Phases before the output is open. -/
def Phase.isEarly : Phase → Bool
  | .constructing | .attempting _ | .opening => true
  | _ => false

/-- Phases with nothing left to publish, unless the output is open. -/
def Phase.isLate : Phase → Bool
  | .constructed | .destroyingFile | .destroyingDirectory => true
  | _ => false

theorem Phase.late_cases {phase : Phase} (h : phase.isLate = true) :
    phase.isEarly = false ∧ phase ≠ .flushed := by
  cases phase with
  | constructed | destroyingFile | destroyingDirectory => exact ⟨rfl, by decide⟩
  | constructing | attempting _ | opening | flushed => cases h

/-- What holds of a writer between two of its steps, whatever the others do. -/
structure Writer.Ok (names : Names Path β) (w : Writer β) : Prop where
  destination : ¬ Temporary w.destination
  directory : ∀ d, w.temporaryDirectory = some d →
    (∃ tick sequence, d = candidate w.destination tick sequence) ∧ names d = some .directory
  early : w.phase.isEarly = true → w.output.isOpen = false ∧ w.committed = false ∧
    (w.phase ≠ .opening → w.temporaryDirectory = none)
  drained : w.output.drained ≤ w.output.written.length
  opened : w.output.isOpen = true → w.phase = .constructed ∧ w.committed = false
  flushed : w.phase = .flushed →
    w.output.drained = w.output.written.length ∧ w.committed = false
  content : ∀ d, w.temporaryDirectory = some d →
    w.output.isOpen = true ∨ w.phase = .flushed →
      names (temporaryFile d) = w.content w.output.drained

/-- The kinds of steps of a writer. -/
inductive Effect (names : Names Path β) (w : Writer β) :
    Action β → Option (Writer β) → Prop
  | silent (v : Writer β) : v.temporaryDirectory = w.temporaryDirectory →
      v.committed = w.committed → Effect names w .silent (some v)
  | directory (tick : Int) (sequence : Nat) (v : Writer β) :
      names (candidate w.destination tick sequence) = none → w.temporaryDirectory = none →
      v.temporaryDirectory = some (candidate w.destination tick sequence) →
      v.committed = w.committed →
      Effect names w (.put (candidate w.destination tick sequence) (some .directory)) (some v)
  | file (d : Path) (node : Option (Node β)) (v : Writer β) : w.temporaryDirectory = some d →
      v.temporaryDirectory = some d → v.committed = w.committed →
      Effect names w (.put (temporaryFile d) node) (some v)
  | publish (d : Path) (v : Writer β) : w.temporaryDirectory = some d →
      names (temporaryFile d) = some (.file w.output.written) → w.committed = false →
      v.temporaryDirectory = some d → v.committed = true →
      Effect names w (.publish d w.destination) (some v)
  | remove (d : Path) : w.temporaryDirectory = some d → names (temporaryFile d) = none →
      Effect names w (.put d none) none
  | abandon : Effect names w (.abandon w.temporaryDirectory) none

theorem WriterStep.effect (h : WriterStep names w action w') (hw : w.Ok names) :
    Effect names w action w' := by
  cases h with
  | check hphase _ => exact .silent _ rfl rfl
  | checkFails hphase => exact .silent _ rfl rfl
  | createDirectory attempt tick sequence hphase _ hnone =>
    have hearly := hw.early (by rw [hphase]; rfl)
    have hphase' : w.phase ≠ .opening := by
      rw [hphase]
      exact Phase.noConfusion
    exact .directory tick sequence _ hnone (hearly.2.2 hphase') rfl rfl
  | taken attempt tick sequence hphase _ _ => exact .silent _ rfl rfl
  | createFails attempt hphase => exact .silent _ rfl rfl
  | openFile d hphase hd => exact .file d _ _ hd hd rfl
  | openFails hphase => exact .silent _ rfl rfl
  | write elements _ _ => exact .silent _ rfl rfl
  | drain d drained _ hd _ _ => exact .file d _ _ hd hd rfl
  | fail _ => exact .silent _ rfl rfl
  | flush d _ _ _ hd => exact .file d _ _ hd hd rfl
  | flushFails _ _ => exact .silent _ rfl rfl
  | rename d hphase hd _ =>
    obtain ⟨hcomplete, hcommitted⟩ := hw.flushed hphase
    have hcontent := hw.content d hd (.inr hphase)
    rw [hcomplete] at hcontent
    refine .publish d _ hd (hcontent.trans ?_) hcommitted hd rfl
    unfold Writer.content
    rw [List.take_length]
  | renameFails _ => exact .silent _ rfl rfl
  | destroy _ => exact .silent _ rfl rfl
  | removeFile d _ hd => exact .file d _ _ hd hd rfl
  | removeFileFails _ => exact .silent _ rfl rfl
  | removeDirectory d _ hd hempty => exact .remove d hd (hempty _)
  | removeDirectoryFails _ => exact .abandon
  | crash => exact .abandon

/-- Nothing under the names of a writer has changed. -/
theorem Writer.Ok.frame (hw : w.Ok names)
    (h : ∀ d, w.temporaryDirectory = some d →
      names' d = names d ∧ names' (temporaryFile d) = names (temporaryFile d)) :
    w.Ok names' where
  destination := hw.destination
  directory d hd := ⟨(hw.directory d hd).1, (h d hd).1.trans (hw.directory d hd).2⟩
  early := hw.early
  drained := hw.drained
  opened := hw.opened
  flushed := hw.flushed
  content d hd hphase := (h d hd).2.trans (hw.content d hd hphase)

theorem construct_ok {destination : Path} (h : ¬ Temporary destination) :
    (construct destination : Writer β).Ok names where
  destination := h
  directory d hd := by cases hd
  early _ := ⟨rfl, rfl, fun _ => rfl⟩
  drained := Nat.le_refl _
  opened hopen := by cases hopen
  flushed hphase := by cases hphase
  content d hd := by cases hd

theorem Writer.Ok.notOpen (hw : w.Ok names) (h : w.phase ≠ .constructed) :
    w.output.isOpen = false :=
  Bool.eq_false_iff.mpr fun hopen => h (hw.opened hopen).1

/-- A writer without an output, before it has a directory. -/
theorem Writer.Ok.attempting (hw : w.Ok names) (hearly : w.phase.isEarly = true)
    (hphase : w.phase ≠ .opening) (attempt : Nat) : (w.goto (.attempting attempt)).Ok names where
  destination := hw.destination
  directory := hw.directory
  early _ := by
    obtain ⟨hopen, hcommitted, hnone⟩ := hw.early hearly
    exact ⟨hopen, hcommitted, fun _ => hnone hphase⟩
  drained := hw.drained
  opened h := absurd ((hw.early hearly).1.symm.trans h) Bool.false_ne_true
  flushed h := by cases h
  content d hd h := by
    rcases h with h | h
    · exact absurd ((hw.early hearly).1.symm.trans h) Bool.false_ne_true
    · cases h

/-- A writer whose output is closed for good. -/
theorem Writer.Ok.late (hw : w.Ok names) (hdestination : v.destination = w.destination)
    (hdirectory : v.temporaryDirectory = w.temporaryDirectory) (hopen : v.output.isOpen = false)
    (hdrained : v.output.drained ≤ v.output.written.length)
    (hphase : v.phase.isLate = true)
    (h : ∀ d, w.temporaryDirectory = some d → names' d = names d) : v.Ok names' where
  destination := hdestination ▸ hw.destination
  directory d hd := by
    rw [hdirectory] at hd
    rw [hdestination]
    exact ⟨(hw.directory d hd).1, (h d hd).trans (hw.directory d hd).2⟩
  early hearly := absurd ((Phase.late_cases hphase).1.symm.trans hearly)
    Bool.false_ne_true
  drained := hdrained
  opened hv := absurd (hopen.symm.trans hv) Bool.false_ne_true
  flushed hv := absurd hv (Phase.late_cases hphase).2
  content d hd hv := by
    rcases hv with hv | hv
    · exact absurd (hopen.symm.trans hv) Bool.false_ne_true
    · exact absurd hv (Phase.late_cases hphase).2

/-- The temporary file holds what has reached it. -/
theorem Writer.Ok.filed (hw : w.Ok names) {d : Path} (hd : w.temporaryDirectory = some d)
    (hcommitted : w.committed = false) (output : Output β)
    (hdrained : output.drained ≤ output.written.length) {phase : Phase}
    (hphase : phase = .constructed ∨ phase = .flushed ∧ output.isOpen = false ∧
      output.drained = output.written.length) :
    ((w.goto phase).setOutput output).Ok
      (names.put (temporaryFile d) (some (.file (output.written.take output.drained)))) where
  destination := hw.destination
  directory e he := by
    obtain ⟨⟨tick, sequence, hcandidate⟩, hdirectory⟩ := hw.directory e he
    refine ⟨⟨tick, sequence, hcandidate⟩, (Names.put_of_ne _ ?_).trans hdirectory⟩
    rw [hcandidate]
    exact candidate_ne_file _ _ _ _
  early h := by
    rcases hphase with rfl | ⟨rfl, -⟩
    · cases h
    · cases h
  drained := hdrained
  opened h := by
    rcases hphase with rfl | ⟨rfl, hclosed, -⟩
    · exact ⟨rfl, hcommitted⟩
    · exact absurd (hclosed.symm.trans h) Bool.false_ne_true
  flushed h := by
    rcases hphase with rfl | ⟨rfl, -, hcomplete⟩
    · cases h
    · exact ⟨hcomplete, hcommitted⟩
  content e he _ := by
    obtain rfl := Option.some.inj (hd.symm.trans he)
    exact Names.put_self _

/-- A stream that takes more, or fails: the file stays as it is. -/
theorem Writer.Ok.taking (hw : w.Ok names) (hopen : w.output.isOpen = true) (good : Bool)
    (elements : List β) :
    (w.setOutput { w.output with good := good, written := w.output.written ++ elements }).Ok
      names where
  destination := hw.destination
  directory := hw.directory
  early h := by
    have hclosed := (hw.early h).1
    rw [hopen] at hclosed
    cases hclosed
  drained := by
    show w.output.drained ≤ (w.output.written ++ elements).length
    rw [List.length_append]
    exact Nat.le_trans hw.drained (Nat.le_add_right _ _)
  opened _ := hw.opened hopen
  flushed h := by
    have hphase : w.phase = .flushed := h
    rw [(hw.opened hopen).1] at hphase
    cases hphase
  content d hd _ := by
    refine (hw.content d hd (.inl hopen)).trans ?_
    unfold Writer.content Writer.setOutput
    dsimp only
    rw [List.take_append_of_le_length hw.drained]

/-- **A step of a writer** keeps what holds of it. -/
theorem WriterStep.ok (h : WriterStep names w action (some v)) (hw : w.Ok names) :
    v.Ok (action.apply names) := by
  have hown : ∀ (d e : Path) (node : Option (Node β)), w.temporaryDirectory = some d →
      names.put (temporaryFile e) node d = names d := by
    intro d e node hd
    obtain ⟨⟨tick, sequence, rfl⟩, -⟩ := hw.directory d hd
    exact Names.put_of_ne _ (candidate_ne_file _ _ _ _)
  cases h with
  | check hphase _ =>
    exact hw.attempting (by rw [hphase]; rfl) (by rw [hphase]; decide) 0
  | checkFails hphase =>
    exact hw.late rfl rfl (hw.notOpen (by rw [hphase]; decide)) hw.drained rfl
      fun _ _ => rfl
  | createDirectory attempt tick sequence hphase _ hnone =>
    have hearly := hw.early (by rw [hphase]; rfl)
    exact {
      destination := hw.destination
      directory := fun d hd => by
        obtain rfl := Option.some.inj hd
        exact ⟨⟨tick, sequence, rfl⟩, Names.put_self _⟩
      early := fun _ => ⟨hearly.1, hearly.2.1, fun hne => absurd rfl hne⟩
      drained := hw.drained
      opened := fun hopen => absurd (hearly.1.symm.trans hopen) Bool.false_ne_true
      flushed := fun hflushed => by cases hflushed
      content := fun d hd hopen => by
        rcases hopen with hopen | hopen
        · exact absurd (hearly.1.symm.trans hopen) Bool.false_ne_true
        · cases hopen }
  | taken attempt tick sequence hphase _ _ =>
    have hphase' : w.phase ≠ .opening := by
      rw [hphase]
      exact Phase.noConfusion
    exact hw.attempting (by rw [hphase]; rfl) hphase' _
  | createFails attempt hphase =>
    have hphase' : w.phase ≠ .constructed := by
      rw [hphase]
      exact Phase.noConfusion
    exact hw.late rfl rfl (hw.notOpen hphase') hw.drained rfl fun _ _ => rfl
  | openFile d hphase hd =>
    exact hw.filed hd (hw.early (by rw [hphase]; rfl)).2.1 ⟨true, true, [], 0⟩ (Nat.le_refl _)
      (.inl rfl)
  | openFails hphase =>
    exact hw.late rfl rfl (hw.notOpen (by rw [hphase]; decide)) hw.drained rfl
      fun _ _ => rfl
  | write elements hopen _ => exact hw.taking hopen _ elements
  | drain d drained hopen hd _ hle =>
    obtain ⟨hphase, hcommitted⟩ := hw.opened hopen
    exact hw.filed hd hcommitted { w.output with drained := drained } hle (.inl hphase)
  | fail hopen =>
    have htaking := hw.taking hopen false []
    rw [List.append_nil] at htaking
    exact htaking
  | flush d hphase hopen _ hd =>
    exact hw.filed hd (hw.opened hopen).2
      { w.output with isOpen := false, drained := w.output.written.length } (Nat.le_refl _)
      (.inr ⟨rfl, rfl, rfl⟩)
  | flushFails hphase hopen =>
    refine hw.late rfl rfl rfl hw.drained ?_ fun _ _ => rfl
    show w.phase.isLate = true
    rw [hphase]
    rfl
  | rename d hphase hd _ =>
    refine hw.late rfl rfl (hw.notOpen (by rw [hphase]; decide)) hw.drained rfl
      fun e he => ?_
    obtain ⟨⟨tick, sequence, rfl⟩, -⟩ := hw.directory e he
    exact Names.rename_of_ne _ (candidate_ne_file _ _ _ _)
      fun heq => hw.destination (heq ▸ temporary_candidate _ _ _)
  | renameFails hphase =>
    exact hw.late rfl rfl (hw.notOpen (by rw [hphase]; decide)) hw.drained rfl
      fun _ _ => rfl
  | destroy hphase =>
    exact hw.late rfl rfl rfl hw.drained rfl fun _ _ => rfl
  | removeFile d hphase hd =>
    exact hw.late rfl rfl (hw.notOpen (by rw [hphase]; decide)) hw.drained rfl
      fun e he => hown e d none he
  | removeFileFails hphase =>
    exact hw.late rfl rfl (hw.notOpen (by rw [hphase]; decide)) hw.drained rfl
      fun _ _ => rfl

/-- What a step leaves alone. -/
theorem Effect.untouched (h : Effect names w action w') {p : Path}
    (hown : ∀ d, w.temporaryDirectory = some d → p ≠ d ∧ p ≠ temporaryFile d)
    (hnew : names p ≠ none ∨ ∃ d, p = temporaryFile d) (hdestination : p ≠ w.destination) :
    action.apply names p = names p := by
  cases h with
  | silent => rfl
  | directory tick sequence v hnone =>
    refine Names.put_of_ne _ fun heq => ?_
    rcases hnew with hnew | ⟨d, rfl⟩
    · exact hnew (heq ▸ hnone)
    · exact candidate_ne_file _ _ _ _ heq.symm
  | file d node v hd => exact Names.put_of_ne _ (hown d hd).2
  | publish d v hd => exact Names.rename_of_ne _ (hown d hd).2 hdestination
  | remove d hd => exact Names.put_of_ne _ (hown d hd).1
  | abandon => rfl

/-- **Other writers** do not notice a step. -/
theorem Writer.Ok.others (hv : v.Ok names) (hw : w.Ok names) (h : Effect names w action w')
    (hne : ∀ d, w.temporaryDirectory = some d → v.temporaryDirectory ≠ some d) :
    v.Ok (action.apply names) := by
  refine hv.frame fun e he => ?_
  obtain ⟨⟨tick, sequence, hcandidate⟩, hdirectory⟩ := hv.directory e he
  have hapart : ∀ d, w.temporaryDirectory = some d → e ≠ d := fun d hd heq =>
    hne d hd (heq ▸ he)
  constructor
  · refine h.untouched (fun d hd => ⟨hapart d hd, ?_⟩) (.inl ?_) fun heq => ?_
    · rw [hcandidate]
      exact candidate_ne_file _ _ _ _
    · rw [hdirectory]
      exact Option.some_ne_none _
    · exact hw.destination (heq ▸ hcandidate ▸ temporary_candidate _ _ _)
  · refine h.untouched (fun d hd => ⟨fun heq => ?_, fun heq => hapart d hd (temporaryFile_inj heq)⟩)
      (.inr ⟨e, rfl⟩) fun heq => ?_
    · obtain ⟨⟨tick', sequence', hd'⟩, -⟩ := hw.directory d hd
      exact candidate_ne_file _ _ _ _ (hd' ▸ heq.symm)
    · exact hw.destination (heq ▸ hcandidate ▸ temporary_file _ _ _)

end Writers

/-! ## The invariant -/

section Invariant

variable {β : Type} {initial : Names Path β} {s : State β}

/-- A name of a writer with the directory. -/
def Below (d p : Path) : Prop := p = d ∨ p = temporaryFile d

structure Inv (initial : Names Path β) (s : State β) : Prop where
  /-- The names that are not temporary stand as the changes have left them. -/
  agree : AgreeOn {p | ¬ Temporary p} s.names
    (initial.replay (s.changes.map fun change => (change.path, change.node)))
  writers : ∀ i w, s.writers i = some w → w.Ok s.names ∧ i < s.started
  apart : ∀ i j w v d, s.writers i = some w → s.writers j = some v →
    w.temporaryDirectory = some d → v.temporaryDirectory = some d → i = j
  once : ∀ i, s.changes.countP (Change.isOf i) ≤ 1
  counted : ∀ i w, s.writers i = some w →
    s.changes.countP (Change.isOf i) = w.committed.toNat
  unstarted : ∀ i, s.started ≤ i → s.changes.countP (Change.isOf i) = 0
  /-- A temporary name was there before, is in use, or was left behind. -/
  left : ∀ p, Temporary p → s.names p ≠ none → initial p ≠ none ∨
    (∃ i w d, s.writers i = some w ∧ w.temporaryDirectory = some d ∧ Below d p) ∨
      ∃ d ∈ s.abandoned, Below d p

theorem inv_initial : Inv initial (initialState initial) where
  agree _ _ := rfl
  writers i w h := by cases h
  apart i j w v d h := by cases h
  once i := Nat.zero_le 1
  counted i w h := by cases h
  unstarted i _ := rfl
  left p _ h := .inl h

theorem update_cases {writers : Nat → Option (Writer β)} {i j : Nat} {w' : Option (Writer β)}
    {v : Writer β} (h : Function.update writers i w' j = some v) :
    j = i ∧ w' = some v ∨ j ≠ i ∧ writers j = some v := by
  by_cases hj : j = i
  · subst hj
    rw [Function.update_self] at h
    exact .inl ⟨rfl, h⟩
  · rw [Function.update_of_ne hj] at h
    exact .inr ⟨hj, h⟩

theorem Inv.start (h : Inv initial s) {destination : Path}
    (hdestination : ¬ Temporary destination) :
    Inv initial { s with
      writers := Function.update s.writers s.started (some (construct destination))
      started := s.started + 1 } where
  agree := h.agree
  writers i w hw := by
    rcases update_cases hw with ⟨rfl, hnew⟩ | ⟨-, hw⟩
    · obtain rfl := Option.some.inj hnew
      exact ⟨construct_ok hdestination, Nat.lt_succ_self _⟩
    · exact ⟨(h.writers i w hw).1, Nat.lt_succ_of_lt (h.writers i w hw).2⟩
  apart i j w v d hw hv hwd hvd := by
    rcases update_cases hw with ⟨-, hnew⟩ | ⟨-, hw⟩
    · obtain rfl := Option.some.inj hnew
      cases hwd
    · rcases update_cases hv with ⟨-, hnew⟩ | ⟨-, hv⟩
      · obtain rfl := Option.some.inj hnew
        cases hvd
      · exact h.apart i j w v d hw hv hwd hvd
  once := h.once
  counted i w hw := by
    rcases update_cases hw with ⟨rfl, hnew⟩ | ⟨-, hw⟩
    · obtain rfl := Option.some.inj hnew
      exact h.unstarted _ (Nat.le_refl _)
    · exact h.counted i w hw
  unstarted i hi := h.unstarted i (Nat.le_of_succ_le hi)
  left p hp hnames := by
    rcases h.left p hp hnames with hinitial | ⟨i, w, d, hw, hd, hbelow⟩ | habandoned
    · exact .inl hinitial
    · refine .inr (.inl ⟨i, w, d, ?_, hd, hbelow⟩)
      exact (Function.update_of_ne (Nat.ne_of_lt (h.writers i w hw).2) _ _).trans hw
    · exact .inr (.inr habandoned)

/-- Another program changes a name that is not temporary. -/
theorem Inv.foreign (h : Inv initial s) {p : Path} (hp : ¬ Temporary p)
    (node : Option (Node β)) :
    Inv initial { s with
      names := s.names.put p node
      changes := s.changes ++ [.foreign p node] } where
  agree := by
    rw [List.map_append, List.map_singleton, Names.replay_concat]
    exact h.agree.change
  writers i w hw := by
    obtain ⟨hok, hlt⟩ := h.writers i w hw
    refine ⟨hok.frame fun d hd => ?_, hlt⟩
    obtain ⟨⟨tick, sequence, rfl⟩, -⟩ := hok.directory d hd
    exact ⟨Names.put_of_ne _ fun heq => hp (heq ▸ temporary_candidate _ _ _),
      Names.put_of_ne _ fun heq => hp (heq ▸ temporary_file _ _ _)⟩
  apart := h.apart
  once i := by
    rw [List.countP_append]
    exact h.once i
  counted i w hw := by
    rw [List.countP_append]
    exact h.counted i w hw
  unstarted i hi := by
    rw [List.countP_append]
    exact h.unstarted i hi
  left q hq hnames := by
    have hne : q ≠ p := fun heq => hp (heq ▸ hq)
    exact h.left q hq fun hnone => hnames ((Names.put_of_ne _ hne).trans hnone)

section Act

variable {i : Nat} {w : Writer β} {action : Action β} {w' : Option (Writer β)}

theorem Inv.agree_act (h : Inv initial s) (hw : w.Ok s.names) (he : Effect s.names w action w') :
    AgreeOn {p | ¬ Temporary p} (action.apply s.names) (initial.replay
      ((s.changes ++ action.changes i w).map fun change => (change.path, change.node))) := by
  have hdirectory : ∀ d, w.temporaryDirectory = some d →
      Temporary d ∧ Temporary (temporaryFile d) := by
    intro d hd
    obtain ⟨⟨tick, sequence, rfl⟩, -⟩ := hw.directory d hd
    exact ⟨temporary_candidate _ _ _, temporary_file _ _ _⟩
  have hsame (hnil : action.changes i w = []) : s.changes ++ action.changes i w = s.changes := by
    rw [hnil, List.append_nil]
  cases he with
  | silent v =>
    rw [hsame rfl]
    exact h.agree
  | directory tick sequence v =>
    rw [hsame rfl]
    exact h.agree.ofPrivate fun hp => hp (temporary_candidate _ _ _)
  | file d node v hd =>
    rw [hsame rfl]
    exact h.agree.ofPrivate fun hp => hp (hdirectory d hd).2
  | publish d v hd hcontent =>
    show AgreeOn _ (s.names.rename _ _) (initial.replay ((s.changes ++ [_]).map _))
    rw [List.map_append, List.map_singleton, Names.replay_concat]
    exact h.agree.rename (fun hp => hp (hdirectory d hd).2) hcontent
  | remove d hd =>
    rw [hsame rfl]
    exact h.agree.ofPrivate fun hp => hp (hdirectory d hd).1
  | abandon =>
    rw [hsame rfl]
    exact h.agree

/-- A step publishes for its own writer, once. -/
theorem Effect.counts {names : Names Path β} (he : Effect names w action w') :
    (∀ j, j ≠ i → (action.changes i w).countP (Change.isOf j) = 0) ∧
      w.committed.toNat + (action.changes i w).countP (Change.isOf i) ≤ 1 ∧
      ∀ v, w' = some v →
        v.committed.toNat = w.committed.toNat + (action.changes i w).countP (Change.isOf i) := by
  have hsame (v : Writer β) (hv : v.committed = w.committed) (u : Writer β)
      (hu : some v = some u) : u.committed.toNat = w.committed.toNat + 0 := by
    obtain rfl := Option.some.inj hu
    rw [hv]
    rfl
  cases he with
  | silent v _ hv => exact ⟨fun _ _ => rfl, Bool.toNat_le _, hsame v hv⟩
  | directory tick sequence v _ _ _ hv => exact ⟨fun _ _ => rfl, Bool.toNat_le _, hsame v hv⟩
  | file d node v _ _ hv => exact ⟨fun _ _ => rfl, Bool.toNat_le _, hsame v hv⟩
  | publish d v _ _ hnot _ hv =>
    have hone : [Change.committed i w.destination w.output.written].countP (Change.isOf i) = 1 := by
      simp [Change.isOf]
    refine ⟨fun j hj => ?_, ?_, fun u hu => ?_⟩
    · show [Change.committed i w.destination w.output.written].countP (Change.isOf j) = 0
      simp [Change.isOf, Ne.symm hj]
    · rw [hnot]
      exact Nat.le_of_eq ((Nat.zero_add _).trans hone)
    · obtain rfl := Option.some.inj hu
      rw [hv, hnot]
      exact ((Nat.zero_add _).trans hone).symm
  | remove d => exact ⟨fun _ _ => rfl, Bool.toNat_le _, fun u hu => by cases hu⟩
  | abandon => exact ⟨fun _ _ => rfl, Bool.toNat_le _, fun u hu => by cases hu⟩

/-- A directory that a writer has after a step was its own before or is new. -/
theorem Effect.directory_cases {names : Names Path β} (he : Effect names w action w')
    {v : Writer β} (hv : w' = some v) {d : Path} (hd : v.temporaryDirectory = some d) :
    w.temporaryDirectory = some d ∨ names d = none := by
  cases he with
  | silent u hu =>
    obtain rfl := Option.some.inj hv
    exact .inl (hu ▸ hd)
  | directory tick sequence u hnone _ hu =>
    obtain rfl := Option.some.inj hv
    obtain rfl := Option.some.inj (hu.symm.trans hd)
    exact .inr hnone
  | file e node u he hu =>
    obtain rfl := Option.some.inj hv
    exact .inl (he.trans (hu.symm.trans hd))
  | publish e u he _ _ hu =>
    obtain rfl := Option.some.inj hv
    exact .inl (he.trans (hu.symm.trans hd))
  | remove => cases hv
  | abandon => cases hv

/-- A temporary name that there is after a step was there before or is of the writer; what the
writer gives up is gone or abandoned. -/
theorem Effect.left_cases {names : Names Path β} (hw : w.Ok names)
    (he : Effect names w action w') {p : Path} (hp : Temporary p)
    (hnames : action.apply names p ≠ none) :
    (names p ≠ none ∧ ∀ d, w.temporaryDirectory = some d → ¬ Below d p) ∨
      (∃ v d, w' = some v ∧ v.temporaryDirectory = some d ∧ Below d p) ∨
        ∃ d ∈ action.abandoned, Below d p := by
  have hcases : (∃ d, w.temporaryDirectory = some d ∧ Below d p) ∨
      ∀ d, w.temporaryDirectory = some d → ¬ Below d p := by
    by_cases hown : ∃ d, w.temporaryDirectory = some d ∧ Below d p
    · exact .inl hown
    · exact .inr fun d hd hbelow => hown ⟨d, hd, hbelow⟩
  cases he with
  | silent v hv =>
    rcases hcases with ⟨d, hd, hbelow⟩ | hother
    · exact .inr (.inl ⟨v, d, rfl, hv.trans hd, hbelow⟩)
    · exact .inl ⟨hnames, hother⟩
  | directory tick sequence v _ hnone hv =>
    by_cases heq : p = candidate w.destination tick sequence
    · exact .inr (.inl ⟨v, _, rfl, hv, .inl heq⟩)
    · refine .inl ⟨fun h => hnames ((Names.put_of_ne _ heq).trans h), fun d hd => ?_⟩
      rw [hnone] at hd
      cases hd
  | file d node v hd hv =>
    rcases hcases with ⟨e, he, hbelow⟩ | hother
    · exact .inr (.inl ⟨v, e, rfl, hv.trans (hd.symm.trans he), hbelow⟩)
    · have hne : p ≠ temporaryFile d := fun heq => hother d hd (.inr heq)
      exact .inl ⟨fun h => hnames ((Names.put_of_ne _ hne).trans h), hother⟩
  | publish d v hd _ _ hv =>
    rcases hcases with ⟨e, he, hbelow⟩ | hother
    · exact .inr (.inl ⟨v, e, rfl, hv.trans (hd.symm.trans he), hbelow⟩)
    · have hne : p ≠ temporaryFile d := fun heq => hother d hd (.inr heq)
      have hne' : p ≠ w.destination := fun heq => hw.destination (heq ▸ hp)
      exact .inl ⟨fun h => hnames ((Names.rename_of_ne _ hne hne').trans h), hother⟩
  | remove d hd hnone =>
    have hne : p ≠ d := fun heq => hnames (by rw [heq]; exact Names.put_self _)
    have hkept : names p ≠ none := fun h => hnames ((Names.put_of_ne _ hne).trans h)
    refine .inl ⟨hkept, fun e he hbelow => ?_⟩
    obtain rfl := Option.some.inj (hd.symm.trans he)
    rcases hbelow with heq | heq
    · exact hne heq
    · exact hkept (heq ▸ hnone)
  | abandon =>
    rcases hcases with ⟨d, hd, hbelow⟩ | hother
    · exact .inr (.inr ⟨d, Option.mem_toList.mpr hd, hbelow⟩)
    · exact .inl ⟨hnames, hother⟩

/-- **A step of a writer** keeps the invariant. -/
theorem Inv.act (h : Inv initial s) (hi : s.writers i = some w)
    (hstep : WriterStep s.names w action w') : Inv initial (s.act i w action w') := by
  obtain ⟨hw, hlt⟩ := h.writers i w hi
  have he := hstep.effect hw
  obtain ⟨hothers, hone, hown⟩ := he.counts (i := i)
  have hapart : ∀ j v, j ≠ i → s.writers j = some v → ∀ d, w.temporaryDirectory = some d →
      v.temporaryDirectory ≠ some d := fun j v hj hv d hd hvd => hj (h.apart j i v w d hv hi hvd hd)
  have hnew : ∀ j u v d, j ≠ i → s.writers j = some u → w' = some v →
      u.temporaryDirectory = some d → v.temporaryDirectory ≠ some d := by
    intro j u v d hj hu hv hud hvd
    rcases he.directory_cases hv hvd with hd | hnone
    · exact hapart j u hj hu d hd hud
    · rw [((h.writers j u hu).1.directory d hud).2] at hnone
      cases hnone
  refine ⟨h.agree_act hw he, fun j v hv => ?_, fun j k u v d hu hv hud hvd => ?_, fun j => ?_,
    fun j v hv => ?_, fun j hj => ?_, fun p hp hnames => ?_⟩
  · rcases update_cases hv with ⟨rfl, rfl⟩ | ⟨hj, hv⟩
    · exact ⟨hstep.ok hw, hlt⟩
    · obtain ⟨hok, hltj⟩ := h.writers j v hv
      exact ⟨hok.others hw he (hapart j v hj hv), hltj⟩
  · rcases update_cases hu with ⟨rfl, hafter⟩ | ⟨hj, hbefore⟩
    · rcases update_cases hv with ⟨rfl, -⟩ | ⟨hk, hv⟩
      · rfl
      · exact absurd hud (hnew k v u d hk hv hafter hvd)
    · rcases update_cases hv with ⟨rfl, hafter⟩ | ⟨-, hv⟩
      · exact absurd hvd (hnew j u v d hj hbefore hafter hud)
      · exact h.apart j k u v d hbefore hv hud hvd
  · show (s.changes ++ _).countP _ ≤ 1
    rw [List.countP_append]
    by_cases hj : j = i
    · subst hj
      rw [h.counted j w hi]
      exact hone
    · rw [hothers j hj]
      exact h.once j
  · show (s.changes ++ _).countP _ = _
    rw [List.countP_append]
    rcases update_cases hv with ⟨rfl, hafter⟩ | ⟨hj, hv⟩
    · rw [h.counted j w hi]
      exact (hown v hafter).symm
    · rw [hothers j hj]
      exact h.counted j v hv
  · show (s.changes ++ _).countP _ = 0
    have hne : j ≠ i := fun heq => Nat.not_le_of_lt hlt (heq ▸ hj)
    rw [List.countP_append, hothers j hne]
    exact h.unstarted j hj
  · rcases he.left_cases hw hp hnames with ⟨hkept, hother⟩ | ⟨v, d, hv, hd, hbelow⟩ |
      ⟨d, hd, hbelow⟩
    · rcases h.left p hp hkept with hinitial | ⟨j, v, d, hv, hd, hbelow⟩ | ⟨d, hd, hbelow⟩
      · exact .inl hinitial
      · have hne : j ≠ i := by
          rintro rfl
          obtain rfl := Option.some.inj (hi.symm.trans hv)
          exact hother d hd hbelow
        exact .inr (.inl ⟨j, v, d, (Function.update_of_ne hne _ _).trans hv, hd, hbelow⟩)
      · exact .inr (.inr ⟨d, List.mem_append_right _ hd, hbelow⟩)
    · exact .inr (.inl ⟨i, v, d, (Function.update_self _ _ _).trans hv, hd, hbelow⟩)
    · exact .inr (.inr ⟨d, List.mem_append_left _ hd, hbelow⟩)

end Act

theorem inv_step {t : State β} {l : Unit} (h : Inv initial s) (hstep : Step s l t) :
    Inv initial t := by
  cases hstep with
  | start destination hdestination => exact h.start hdestination
  | writer i w action w' hi hw => exact h.act hi hw
  | foreign p node hp => exact h.foreign hp node

theorem inv_reachable (h : (system initial).Reachable s) : Inv initial s := by
  refine h.invariant (fun t ht => ?_) fun t l u _ hinv (hstep : Step t l u) =>
    inv_step hinv hstep
  obtain rfl : t = initialState initial := ht
  exact inv_initial

/-- **Atomic output.** Whatever the writers and the other programs do, in any order: every name that
is not temporary holds what the last change left there, a commit all that its writer has written;
a writer commits at most once; no two writers have one directory; and when the writers are gone and
none was left behind, no temporary name remains that was not there before. -/
theorem atomic_output (initial : Names Path β) {s : State β} (h : (system initial).Reachable s) :
    (∀ p, ¬ Temporary p →
      s.names p = initial.replay (s.changes.map fun change => (change.path, change.node)) p) ∧
    (∀ i, s.changes.countP (Change.isOf i) ≤ 1) ∧
    (∀ i j w v d, s.writers i = some w → s.writers j = some v →
      w.temporaryDirectory = some d → v.temporaryDirectory = some d → i = j) ∧
    ((∀ i, s.writers i = none) → s.abandoned = [] →
      ∀ p, Temporary p → s.names p ≠ none → initial p ≠ none) := by
  have hinv := inv_reachable h
  refine ⟨hinv.agree, hinv.once, hinv.apart, fun hgone hnone p hp hnames => ?_⟩
  rcases hinv.left p hp hnames with hinitial | ⟨i, w, d, hw, -⟩ | ⟨d, hd, -⟩
  · exact hinitial
  · rw [hgone i] at hw
    cases hw
  · rw [hnone] at hd
    cases hd

end Invariant

/-! ## A document that is replaced -/

section Example

def documentPath : Path := ["document.json", "output"]

def previousOutput : Names Path Nat :=
  Names.put (fun _ => none) documentPath (some (.file [0]))

theorem previousOutput_document : previousOutput documentPath = some (.file [0]) := Names.put_self _

theorem documentPath_not_temporary : ¬ Temporary documentPath := by
  rintro ⟨destination, tick, sequence, h | h⟩
  · exact temporaryName_ne (by decide) tick sequence (List.cons.inj h).1.symm
  · exact absurd (List.cons.inj h).1 (by decide)

theorem previousOutput_temporary {p : Path} (hp : Temporary p) : previousOutput p = none := by
  have hne : p ≠ documentPath := fun h => documentPath_not_temporary (h ▸ hp)
  exact Names.put_of_ne _ hne

/-- A writer up to its commit. -/
theorem document_committed : ∃ s : State Nat, (system previousOutput).Reachable s ∧
    s.changes = [.committed 0 documentPath [1, 2]] := by
  have hflushed := System.Reachable.step (.step (.step (.step (.step (.step
    (.init rfl : (system previousOutput).Reachable _)
    (.start _ documentPath documentPath_not_temporary))
    (.writer _ 0 _ _ _ rfl (.check _ rfl (.inr ⟨[0], rfl⟩))))
    (.writer _ 0 _ _ _ rfl (.createDirectory _ 0 7 0 rfl (by decide)
      (previousOutput_temporary (temporary_candidate documentPath 7 0)))))
    (.writer _ 0 _ _ _ rfl (.openFile _ _ rfl rfl)))
    (.writer _ 0 _ _ _ rfl (.write _ [1, 2] rfl rfl)))
    (.writer _ 0 _ _ _ rfl (.flush _ _ rfl rfl rfl rfl))
  refine ⟨_, hflushed.step (.writer _ 0 _ _ _ rfl (.rename _ _ rfl rfl fun hdirectory => ?_)), rfl⟩
  have hfile := ((inv_reachable hflushed).agree documentPath documentPath_not_temporary).trans
    previousOutput_document
  cases hfile.symm.trans hdirectory

theorem atomic_output_document : ∃ s : State Nat,
    (system previousOutput).Reachable s ∧ s.names documentPath = some (.file [1, 2]) := by
  obtain ⟨s, hs, hchanges⟩ := document_committed
  refine ⟨s, hs, ((atomic_output previousOutput hs).1 documentPath
    documentPath_not_temporary).trans ?_⟩
  rw [hchanges]
  show previousOutput.put documentPath (some (.file [1, 2])) documentPath = _
  exact Names.put_self _

end Example

end DocParser.AtomicOutput
