import Agilex.Capture.RecordQueue

/-!
# The files of `record`

The file operations of `record` on the paths of one output name, one step each, for two invocations at a time and the raw
recorder that each may have started. An operation may raise, before or after it has taken effect (`Env`), and a process
that dies makes no further steps.

A file remembers who created it, so that a state shows what each invocation has left of the other's files.
-/

namespace Agilex.Capture.RecordFiles

open Agilex.Lib
open RecordQueue (Exn Status)

/-! ## Files -/

/-- The paths of an output name: the name itself and the suffixes `.active`, `.partial`, `.report.json`, `.raw.bag`,
`.raw.bag.active`, `.raw.log` and `.merge.active`. -/
inductive Path where
  | dest
  | active
  | partialBag
  | report
  | rawBag
  | rawActive
  | rawLog
  | mergeActive
  deriving DecidableEq, Repr

/-- The paths `record` checks before it starts, in its order. -/
def checkedPaths : List Path :=
  [.dest, .active, .partialBag, .report, .rawBag, .rawActive, .rawLog, .mergeActive]

theorem mem_checkedPaths (q : Path) : q ∈ checkedPaths := by cases q <;> decide

/-- The two invocations. -/
inductive Pid where
  | first
  | second
  deriving DecidableEq, Repr

def Pid.other : Pid → Pid
  | .first => .second
  | .second => .first

inductive Kind where
  /-- The bag the engine writes. -/
  | core
  | raw
  | rawLog
  /-- The merged bag, complete or not. -/
  | merged (complete : Bool)
  /-- The report file, with its status once it is written. -/
  | report (status : Option Status)
  | foreign
  deriving DecidableEq, Repr

/-- A file: who created it (nobody, when it was there before), which of his files it is, and what is in it. -/
structure File where
  owner : Option Pid
  id : ℕ
  kind : Kind
  deriving DecidableEq, Repr

/-- Whether a file holds the recorded core data. -/
def File.holdsCore (f : File) : Bool := f.kind = .core ∨ f.kind = .merged true

abbrev Fs := Path → Option File

namespace Fs

def put (fs : Fs) (q : Path) (f : File) : Fs := fun q' => if q' = q then some f else fs q'

def remove (fs : Fs) (q : Path) : Fs := fun q' => if q' = q then none else fs q'

/-- `os.rename`: the target is replaced. -/
def move (fs : Fs) (q t : Path) : Fs := fun q' => if q' = t then fs q else if q' = q then none else fs q'

@[simp] theorem put_apply (fs : Fs) (q q' : Path) (f : File) : fs.put q f q' = if q' = q then some f else fs q' := rfl

@[simp] theorem remove_apply (fs : Fs) (q q' : Path) : fs.remove q q' = if q' = q then none else fs q' := rfl

@[simp] theorem move_apply (fs : Fs) (q t q' : Path) :
    fs.move q t q' = if q' = t then fs q else if q' = q then none else fs q' := rfl

end Fs

/-! ## An invocation -/

/-- Where an invocation stands: its next file operation. -/
inductive Pc where
  | checking (rest : List Path)
  | reserving
  | openingBag
  | writingSession
  /-- The checks of `RawRecording.__init__`. -/
  | rawCheck (rest : List Path)
  | openLog
  | popen
  /-- Subscribing and the event loop. -/
  | recording
  /-- The start of the `finally` block. -/
  | closing
  | stopRaw
  /-- The last frames and the report message. -/
  | lastWrites
  | closeBag
  /-- The size of the merge against the free space. -/
  | space
  | mergeCheck
  | mergeOpen
  | mergeWrite
  /-- `check_bag(candidate)`. -/
  | check
  /-- Looks at `error`, and at `.active`. -/
  | publishing
  | renamePartial
  | renameDest
  | unlinkActive
  | unlinkRaw
  | unlinkLog
  | openReport
  | writeReport
  | ended
  /-- An exception has left `record`. -/
  | crashed
  deriving DecidableEq, Repr

/-- The raw recorder of an invocation. -/
inductive RawProc where
  | off
  | started
  | writing
  | finished
  deriving DecidableEq, Repr

structure Proc where
  pc : Pc := .checking checkedPaths
  error : Option String := none
  /-- `raw_recording` is set. -/
  raw : Bool := false
  /-- The file `check_bag` has accepted. -/
  checked : Option File := none
  summary : Status := .incomplete
  rawProc : RawProc := .off
  /-- How many files it has created. -/
  created : ℕ := 0
  /-- `open('xb')` of `.active` has created it. -/
  reserved : Bool := false
  /-- `open('xb')` of `.active` has raised `FileExistsError`. -/
  refused : Bool := false
  deriving DecidableEq, Repr

/-- What an operation meets: an exception to raise, and whether it raises after it has taken effect. -/
structure Env where
  fail : Option Exn := none
  late : Bool := false
  deriving DecidableEq, Repr

/-- The outcome of an operation: the files, the invocation, and the exception it raises by itself. -/
structure Done where
  fs : Fs
  proc : Proc
  exn : Option Exn := none

def outputExists : Exn := ⟨"FileExistsError", "Output or recovery file already exists; use a new filename", true⟩

def rawExists : Exn := ⟨"FileExistsError", "Raw recovery files already exist; use a new output name", true⟩

/-- From `open` with mode `x`, and from `merge_bags`. -/
def fileExists : Exn := ⟨"FileExistsError", "[Errno 17] File exists", true⟩

def fileNotFound : Exn := ⟨"FileNotFoundError", "[Errno 2] No such file or directory", true⟩

namespace Proc

/-- The truth value of `error`. -/
def failed (pr : Proc) : Bool := pr.error.any (· ≠ "")

/-- `error or text`. -/
def orError (pr : Proc) (text : String) : Proc := { pr with error := if pr.failed then pr.error else some text }

/-- `candidate`. -/
def candidate (pr : Proc) : Path := if pr.raw then .mergeActive else .active

/-- A new file of an invocation. -/
def newFile (pr : Proc) (p : Pid) (kind : Kind) : File := ⟨some p, pr.created, kind⟩

def create (pr : Proc) (pc : Pc) : Proc := { pr with created := pr.created + 1, pc := pc }

/-- Where an exception raised at a step leads. -/
def handle (pr : Proc) (x : Exn) : Proc :=
  match pr.pc with
  | .reserving | .openingBag | .writingSession | .rawCheck _ | .openLog | .popen | .recording =>
    { pr with error := some (x.name ++ ": " ++ x.text), pc := .closing }
  | .stopRaw | .lastWrites => { pr.orError x.text with summary := .incomplete, pc := .closeBag }
  | .closeBag => if x.exception then { pr.orError x.text with pc := .publishing } else { pr with pc := .crashed }
  | .space | .mergeCheck | .mergeOpen | .mergeWrite | .check =>
    if x.exception then { pr with error := some ("Post-record validation failed: " ++ x.text), pc := .publishing }
    else { pr with pc := .crashed }
  | _ => { pr with pc := .crashed }

end Proc

/-! ## Operations -/

/-- An exclusive creation: `open(path, 'x')`. -/
def createNew (p : Pid) (fs : Fs) (pr : Proc) (q : Path) (kind : Kind) (pc : Pc) : Done :=
  if fs q ≠ none then { fs := fs, proc := pr, exn := some fileExists }
  else { fs := fs.put q (pr.newFile p kind), proc := pr.create pc }

/-- An operation on a file that must exist. -/
def requiring (fs : Fs) (pr : Proc) (q : Path) (next : Done) : Done :=
  if fs q = none then { fs := fs, proc := pr, exn := some fileNotFound } else next

/-- The next operation of an invocation with or without raw sensors, none at its end. -/
def attempt (p : Pid) (rawSensors : Bool) (fs : Fs) (pr : Proc) : Option Done :=
  match pr.pc with
  | .checking [] => some { fs := fs, proc := { pr with pc := .reserving } }
  | .checking (q :: rest) =>
    if fs q ≠ none then some { fs := fs, proc := pr, exn := some outputExists }
    else some { fs := fs, proc := { pr with pc := .checking rest } }
  | .reserving =>
    if fs .active ≠ none then some { fs := fs, proc := { pr with refused := true }, exn := some fileExists }
    else some { fs := fs.put .active (pr.newFile p .core), proc := { pr.create .openingBag with reserved := true } }
  | .openingBag => some { fs := fs.put .active (pr.newFile p .core), proc := pr.create .writingSession }
  | .writingSession =>
    some { fs := fs, proc := { pr with pc := if rawSensors then .rawCheck [.rawBag, .rawActive, .rawLog] else .recording } }
  | .rawCheck [] => some { fs := fs, proc := { pr with pc := .openLog } }
  | .rawCheck (q :: rest) =>
    if fs q ≠ none then some { fs := fs, proc := pr, exn := some rawExists }
    else some { fs := fs, proc := { pr with pc := .rawCheck rest } }
  | .openLog => some (createNew p fs pr .rawLog .rawLog .popen)
  | .popen => some { fs := fs, proc := { pr with raw := true, rawProc := .started, pc := .recording } }
  | .recording => some { fs := fs, proc := { pr with pc := .closing } }
  | .closing => some { fs := fs, proc := { pr with pc := if pr.raw then .stopRaw else .lastWrites } }
  | .stopRaw =>
    if pr.rawProc = .finished ∧ fs .rawBag ≠ none ∧ fs .rawActive = none then
      some { fs := fs, proc := { pr with pc := .lastWrites } }
    else some { fs := fs, proc := pr, exn := some ⟨"RuntimeError", "Raw recording is not finalized", true⟩ }
  | .lastWrites =>
    some { fs := fs, proc := { pr with summary := if pr.failed then .incomplete else .recorded, pc := .closeBag } }
  | .closeBag =>
    some { fs := fs, proc := { pr with pc := if pr.error ≠ none then .publishing else if pr.raw then .space else .check } }
  | .space => some (requiring fs pr .active (requiring fs pr .rawBag { fs := fs, proc := { pr with pc := .mergeCheck } }))
  | .mergeCheck =>
    if fs .mergeActive ≠ none then some { fs := fs, proc := pr, exn := some fileExists }
    else some { fs := fs, proc := { pr with pc := .mergeOpen } }
  | .mergeOpen => some (createNew p fs pr .mergeActive (.merged false) .mergeWrite)
  | .mergeWrite =>
    match fs .active, fs .rawBag with
    | some core, some _ =>
      some { fs := fs.put .mergeActive (pr.newFile p (.merged core.holdsCore)), proc := pr.create .check }
    | _, _ => some { fs := fs, proc := pr, exn := some fileNotFound }
  | .check =>
    some (requiring fs pr pr.candidate
      { fs := fs, proc := { pr with checked := fs pr.candidate, summary := .pass, pc := .publishing } })
  | .publishing =>
    if pr.failed then
      some { fs := fs
             proc := { pr with summary := .incomplete, pc := if fs .active ≠ none then .renamePartial else .openReport } }
    -- `candidate` is unbound when `error` is the empty text of an exception
    else if pr.error ≠ none then
      some { fs := fs, proc := pr, exn := some ⟨"UnboundLocalError", "local variable 'candidate'", true⟩ }
    else some { fs := fs, proc := { pr with pc := .renameDest } }
  | .renamePartial =>
    some (requiring fs pr .active { fs := fs.move .active .partialBag, proc := { pr with pc := .openReport } })
  | .renameDest =>
    some (requiring fs pr pr.candidate
      { fs := fs.move pr.candidate .dest, proc := { pr with pc := if pr.raw then .unlinkActive else .openReport } })
  | .unlinkActive => some (requiring fs pr .active { fs := fs.remove .active, proc := { pr with pc := .unlinkRaw } })
  | .unlinkRaw => some (requiring fs pr .rawBag { fs := fs.remove .rawBag, proc := { pr with pc := .unlinkLog } })
  | .unlinkLog => some (requiring fs pr .rawLog { fs := fs.remove .rawLog, proc := { pr with pc := .openReport } })
  | .openReport => some { fs := fs.put .report (pr.newFile p (.report none)), proc := pr.create .writeReport }
  | .writeReport => some { fs := fs.put .report (pr.newFile p (.report (some pr.summary))), proc := pr.create .ended }
  | .ended | .crashed => none

/-- **What an operation can do**: it raises and leaves everything as it was, or takes effect, in a case for each way. -/
inductive Attempt (p : Pid) (rawSensors : Bool) (fs : Fs) (pr : Proc) : Done → Prop where
  | raises (x : Exn) : Attempt p rawSensors fs pr { fs := fs, proc := pr, exn := some x }
  | refused (hpc : pr.pc = .reserving) :
    Attempt p rawSensors fs pr { fs := fs, proc := { pr with refused := true }, exn := some fileExists }
  | checked (hpc : pr.pc = .checking []) : Attempt p rawSensors fs pr { fs := fs, proc := { pr with pc := .reserving } }
  | checking (q : Path) (rest : List Path) (hpc : pr.pc = .checking (q :: rest)) (hq : fs q = none) :
    Attempt p rawSensors fs pr { fs := fs, proc := { pr with pc := .checking rest } }
  | reserving (hpc : pr.pc = .reserving) : Attempt p rawSensors fs pr
      { fs := fs.put .active (pr.newFile p .core), proc := { pr.create .openingBag with reserved := true } }
  | openingBag (hpc : pr.pc = .openingBag) : Attempt p rawSensors fs pr
      { fs := fs.put .active (pr.newFile p .core), proc := pr.create .writingSession }
  | writingSession (hpc : pr.pc = .writingSession) : Attempt p rawSensors fs pr
      { fs := fs
        proc := { pr with pc := if rawSensors then .rawCheck [.rawBag, .rawActive, .rawLog] else .recording } }
  | rawChecked (hpc : pr.pc = .rawCheck []) : Attempt p rawSensors fs pr { fs := fs, proc := { pr with pc := .openLog } }
  | rawCheck (q : Path) (rest : List Path) (hpc : pr.pc = .rawCheck (q :: rest)) :
    Attempt p rawSensors fs pr { fs := fs, proc := { pr with pc := .rawCheck rest } }
  | openLog (hpc : pr.pc = .openLog) :
    Attempt p rawSensors fs pr { fs := fs.put .rawLog (pr.newFile p .rawLog), proc := pr.create .popen }
  | popen (hpc : pr.pc = .popen) :
    Attempt p rawSensors fs pr { fs := fs, proc := { pr with raw := true, rawProc := .started, pc := .recording } }
  | recording (hpc : pr.pc = .recording) : Attempt p rawSensors fs pr { fs := fs, proc := { pr with pc := .closing } }
  | closing (hpc : pr.pc = .closing) :
    Attempt p rawSensors fs pr { fs := fs, proc := { pr with pc := if pr.raw then .stopRaw else .lastWrites } }
  | stopRaw (hpc : pr.pc = .stopRaw) : Attempt p rawSensors fs pr { fs := fs, proc := { pr with pc := .lastWrites } }
  | lastWrites (hpc : pr.pc = .lastWrites) : Attempt p rawSensors fs pr
      { fs := fs, proc := { pr with summary := if pr.failed then .incomplete else .recorded, pc := .closeBag } }
  | closeBag (hpc : pr.pc = .closeBag) : Attempt p rawSensors fs pr
      { fs := fs, proc := { pr with pc := if pr.error ≠ none then .publishing else if pr.raw then .space else .check } }
  | space (hpc : pr.pc = .space) : Attempt p rawSensors fs pr { fs := fs, proc := { pr with pc := .mergeCheck } }
  | mergeCheck (hpc : pr.pc = .mergeCheck) : Attempt p rawSensors fs pr { fs := fs, proc := { pr with pc := .mergeOpen } }
  | mergeOpen (hpc : pr.pc = .mergeOpen) : Attempt p rawSensors fs pr
      { fs := fs.put .mergeActive (pr.newFile p (.merged false)), proc := pr.create .mergeWrite }
  | mergeWrite (hpc : pr.pc = .mergeWrite) (core : File) (hcore : fs .active = some core) : Attempt p rawSensors fs pr
      { fs := fs.put .mergeActive (pr.newFile p (.merged core.holdsCore)), proc := pr.create .check }
  | check (hpc : pr.pc = .check) : Attempt p rawSensors fs pr
      { fs := fs, proc := { pr with checked := fs pr.candidate, summary := .pass, pc := .publishing } }
  | givingUp (hpc : pr.pc = .publishing) : Attempt p rawSensors fs pr
      { fs := fs
        proc := { pr with summary := .incomplete, pc := if fs .active ≠ none then .renamePartial else .openReport } }
  | publishing (hpc : pr.pc = .publishing) (he : pr.error = none) :
    Attempt p rawSensors fs pr { fs := fs, proc := { pr with pc := .renameDest } }
  | renamePartial (hpc : pr.pc = .renamePartial) :
    Attempt p rawSensors fs pr { fs := fs.move .active .partialBag, proc := { pr with pc := .openReport } }
  | renameDest (hpc : pr.pc = .renameDest) : Attempt p rawSensors fs pr
      { fs := fs.move pr.candidate .dest, proc := { pr with pc := if pr.raw then .unlinkActive else .openReport } }
  | unlinkActive (hpc : pr.pc = .unlinkActive) :
    Attempt p rawSensors fs pr { fs := fs.remove .active, proc := { pr with pc := .unlinkRaw } }
  | unlinkRaw (hpc : pr.pc = .unlinkRaw) :
    Attempt p rawSensors fs pr { fs := fs.remove .rawBag, proc := { pr with pc := .unlinkLog } }
  | unlinkLog (hpc : pr.pc = .unlinkLog) :
    Attempt p rawSensors fs pr { fs := fs.remove .rawLog, proc := { pr with pc := .openReport } }
  | openReport (hpc : pr.pc = .openReport) : Attempt p rawSensors fs pr
      { fs := fs.put .report (pr.newFile p (.report none)), proc := pr.create .writeReport }
  | writeReport (hpc : pr.pc = .writeReport) : Attempt p rawSensors fs pr
      { fs := fs.put .report (pr.newFile p (.report (some pr.summary))), proc := pr.create .ended }

/-- The cases of an operation, which all that holds of a step is derived from. -/
theorem attempt_cases {p : Pid} {rawSensors : Bool} {fs : Fs} {pr : Proc} {d : Done}
    (hd : attempt p rawSensors fs pr = some d) : Attempt p rawSensors fs pr d := by
  cases hpc : pr.pc with
  | checking rest =>
    cases rest with
    | nil =>
      simp only [attempt, hpc] at hd
      cases hd
      exact .checked hpc
    | cons q rest =>
      simp only [attempt, hpc] at hd
      split at hd <;> cases hd
      · exact .raises _
      · rename_i hq
        exact .checking q rest hpc (not_not.1 hq)
  | reserving =>
    simp only [attempt, hpc] at hd
    split at hd <;> cases hd
    · rw [← hpc]
      exact .refused hpc
    · exact .reserving hpc
  | openingBag => simp only [attempt, hpc] at hd; cases hd; exact .openingBag hpc
  | writingSession => simp only [attempt, hpc] at hd; cases hd; exact .writingSession hpc
  | rawCheck rest =>
    cases rest with
    | nil =>
      simp only [attempt, hpc] at hd
      cases hd
      exact .rawChecked hpc
    | cons q rest =>
      simp only [attempt, hpc] at hd
      split at hd <;> cases hd
      · exact .raises _
      · exact .rawCheck q rest hpc
  | openLog =>
    simp only [attempt, hpc, createNew] at hd
    split at hd <;> cases hd
    · exact .raises _
    · exact .openLog hpc
  | popen => simp only [attempt, hpc] at hd; cases hd; exact .popen hpc
  | recording => simp only [attempt, hpc] at hd; cases hd; exact .recording hpc
  | closing => simp only [attempt, hpc] at hd; cases hd; exact .closing hpc
  | stopRaw =>
    simp only [attempt, hpc] at hd
    split at hd <;> cases hd
    · exact .stopRaw hpc
    · exact .raises _
  | lastWrites => simp only [attempt, hpc] at hd; cases hd; exact .lastWrites hpc
  | closeBag => simp only [attempt, hpc] at hd; cases hd; exact .closeBag hpc
  | space =>
    simp only [attempt, hpc, requiring] at hd
    split_ifs at hd <;> cases hd
    · exact .raises _
    · exact .raises _
    · exact .space hpc
  | mergeCheck =>
    simp only [attempt, hpc] at hd
    split at hd <;> cases hd
    · exact .raises _
    · exact .mergeCheck hpc
  | mergeOpen =>
    simp only [attempt, hpc, createNew] at hd
    split at hd <;> cases hd
    · exact .raises _
    · exact .mergeOpen hpc
  | mergeWrite =>
    simp only [attempt, hpc] at hd
    split at hd <;> cases hd
    · exact .mergeWrite hpc _ ‹_›
    · exact .raises _
  | check =>
    simp only [attempt, hpc, requiring] at hd
    split at hd <;> cases hd
    · exact .raises _
    · exact .check hpc
  | publishing =>
    simp only [attempt, hpc] at hd
    split at hd
    · cases hd
      exact .givingUp hpc
    · split at hd <;> cases hd
      · exact .raises _
      · rename_i he
        exact .publishing hpc (not_not.1 he)
  | renamePartial =>
    simp only [attempt, hpc, requiring] at hd
    split at hd <;> cases hd
    · exact .raises _
    · exact .renamePartial hpc
  | renameDest =>
    simp only [attempt, hpc, requiring] at hd
    split at hd <;> cases hd
    · exact .raises _
    · exact .renameDest hpc
  | unlinkActive =>
    simp only [attempt, hpc, requiring] at hd
    split at hd <;> cases hd
    · exact .raises _
    · exact .unlinkActive hpc
  | unlinkRaw =>
    simp only [attempt, hpc, requiring] at hd
    split at hd <;> cases hd
    · exact .raises _
    · exact .unlinkRaw hpc
  | unlinkLog =>
    simp only [attempt, hpc, requiring] at hd
    split at hd <;> cases hd
    · exact .raises _
    · exact .unlinkLog hpc
  | openReport => simp only [attempt, hpc] at hd; cases hd; exact .openReport hpc
  | writeReport => simp only [attempt, hpc] at hd; cases hd; exact .writeReport hpc
  | ended | crashed =>
    simp only [attempt, hpc] at hd
    cases hd

/-- The path an operation creates or writes. -/
def creates : Pc → Option Path
  | .reserving | .openingBag => some .active
  | .openLog => some .rawLog
  | .mergeOpen | .mergeWrite => some .mergeActive
  | .openReport | .writeReport => some .report
  | _ => none

/-- The path an operation renames, and its new name. -/
def Proc.renames (pr : Proc) : Option (Path × Path) :=
  match pr.pc with
  | .renamePartial => some (.active, .partialBag)
  | .renameDest => some (pr.candidate, .dest)
  | _ => none

/-- The path an operation deletes. -/
def unlinks : Pc → Option Path
  | .unlinkActive => some .active
  | .unlinkRaw => some .rawBag
  | .unlinkLog => some .rawLog
  | _ => none

/-- What an operation does to the files. -/
inductive Effect (p : Pid) (fs : Fs) (pr : Proc) : Fs → Prop where
  | keep : Effect p fs pr fs
  | put (q : Path) (kind : Kind) (h : creates pr.pc = some q) : Effect p fs pr (fs.put q (pr.newFile p kind))
  | move (q t : Path) (h : pr.renames = some (q, t)) : Effect p fs pr (fs.move q t)
  | remove (q : Path) (h : unlinks pr.pc = some q) : Effect p fs pr (fs.remove q)

/-- **Every operation creates, renames or deletes one file, or leaves the files as they are.** -/
theorem attempt_effect {p : Pid} {rawSensors : Bool} {fs : Fs} {pr : Proc} {d : Done}
    (hd : attempt p rawSensors fs pr = some d) : Effect p fs pr d.fs := by
  cases attempt_cases hd with
  | reserving hpc | openingBag hpc | openLog hpc | mergeOpen hpc | mergeWrite hpc | openReport hpc | writeReport hpc =>
    exact .put _ _ (by rw [hpc]; rfl)
  | renamePartial hpc | renameDest hpc => exact .move _ _ (by simp only [Proc.renames, hpc])
  | unlinkActive hpc | unlinkRaw hpc | unlinkLog hpc => exact .remove _ (by rw [hpc]; rfl)
  | _ => exact .keep

/-- A step: the operation takes effect, or raises, before or after it has. -/
def procStep (p : Pid) (rawSensors : Bool) (env : Env) (fs : Fs) (pr : Proc) : Option (Fs × Proc) :=
  (attempt p rawSensors fs pr).map fun d =>
    match d.exn, env.fail with
    | some x, _ => (d.fs, d.proc.handle x)
    | none, some x =>
      if env.late then
        (d.fs, { pr with created := d.proc.created, reserved := d.proc.reserved, rawProc := d.proc.rawProc }.handle x)
      else (fs, pr.handle x)
    | none, none => (d.fs, d.proc)

/-- **What a step does**: its operation raises, raises late, raises at once, or takes effect. -/
theorem procStep_cases {p : Pid} {rawSensors : Bool} {env : Env} {fs : Fs} {pr : Proc} {r : Fs × Proc}
    (h : procStep p rawSensors env fs pr = some r) : ∃ d, attempt p rawSensors fs pr = some d ∧
      ((∃ x, d.exn = some x ∧ r = (d.fs, d.proc.handle x)) ∨
       (∃ x, d.exn = none ∧ env.fail = some x ∧ r = (d.fs, { pr with
          created := d.proc.created, reserved := d.proc.reserved, rawProc := d.proc.rawProc }.handle x)) ∨
       (∃ x, d.exn = none ∧ env.fail = some x ∧ r = (fs, pr.handle x)) ∨
       (d.exn = none ∧ env.fail = none ∧ r = (d.fs, d.proc))) := by
  obtain ⟨d, hd, hr⟩ := Option.map_eq_some_iff.1 h
  refine ⟨d, hd, ?_⟩
  cases hx : d.exn with
  | some x => exact Or.inl ⟨x, rfl, by simpa [hx] using hr.symm⟩
  | none =>
    cases hf : env.fail with
    | none => exact Or.inr (Or.inr (Or.inr ⟨rfl, rfl, by simpa [hx, hf] using hr.symm⟩))
    | some x =>
      by_cases hl : env.late = true
      · exact Or.inr (Or.inl ⟨x, rfl, rfl, by simpa [hx, hf, hl] using hr.symm⟩)
      · exact Or.inr (Or.inr (Or.inl ⟨x, rfl, rfl, by simpa [hx, hf, hl] using hr.symm⟩))

theorem procStep_effect {p : Pid} {rawSensors : Bool} {env : Env} {fs : Fs} {pr : Proc} {r : Fs × Proc}
    (h : procStep p rawSensors env fs pr = some r) : Effect p fs pr r.1 := by
  obtain ⟨d, hd, ⟨x, -, rfl⟩ | ⟨x, -, -, rfl⟩ | ⟨x, -, -, rfl⟩ | ⟨-, -, rfl⟩⟩ := procStep_cases h
  · exact attempt_effect hd
  · exact attempt_effect hd
  · exact .keep
  · exact attempt_effect hd

/-- A step of the raw recorder: it opens `.raw.bag.active`, and renames it at its end unless it is killed. -/
def rawStep (p : Pid) (killed : Bool) (fs : Fs) (pr : Proc) : Option (Fs × Proc) :=
  match pr.rawProc with
  | .started => some (fs.put .rawActive (pr.newFile p .raw), { pr with created := pr.created + 1, rawProc := .writing })
  | .writing =>
    if killed ∨ fs .rawActive = none then some (fs, { pr with rawProc := .finished })
    else some (fs.move .rawActive .rawBag, { pr with rawProc := .finished })
  | .off | .finished => none

/-- It opens its file, ends without one, or renames it. -/
theorem rawStep_cases {p : Pid} {killed : Bool} {fs : Fs} {pr : Proc} {r : Fs × Proc}
    (h : rawStep p killed fs pr = some r) :
    r = (fs.put .rawActive (pr.newFile p .raw), { pr with created := pr.created + 1, rawProc := .writing }) ∨
    r = (fs, { pr with rawProc := .finished }) ∨
    fs .rawActive ≠ none ∧ r = (fs.move .rawActive .rawBag, { pr with rawProc := .finished }) := by
  unfold rawStep at h
  split at h
  · exact Or.inl (Option.some.inj h).symm
  · split at h
    · exact Or.inr (Or.inl (Option.some.inj h).symm)
    · rename_i hrename
      exact Or.inr (Or.inr ⟨fun hnone => hrename (Or.inr hnone), (Option.some.inj h).symm⟩)
  · cases h
  · cases h

/-! ## Two invocations -/

structure Sys where
  fs : Fs
  proc : Pid → Proc := fun _ => {}

inductive Act where
  | op (p : Pid) (env : Env)
  | raw (p : Pid) (killed : Bool)
  deriving DecidableEq, Repr

def Act.pid : Act → Pid
  | .op p _ => p
  | .raw p _ => p

def Sys.set (s : Sys) (p : Pid) (r : Fs × Proc) : Sys :=
  { fs := r.1, proc := fun p' => if p' = p then r.2 else s.proc p' }

/-- A step of the system; `raws` says which invocation records raw sensors. -/
def step (raws : Pid → Bool) (a : Act) (s : Sys) : Option Sys :=
  match a with
  | .op p env => (procStep p (raws p) env s.fs (s.proc p)).map (s.set p)
  | .raw p killed => (rawStep p killed s.fs (s.proc p)).map (s.set p)

/-- The state after some steps, from the files that were there before. -/
def run (raws : Pid → Bool) (fs : Fs) (l : List Act) : Option Sys := Machine.run (step raws) l { fs := fs }

end Agilex.Capture.RecordFiles
