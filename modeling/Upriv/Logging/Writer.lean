import Upriv.Logging.Format
import Upriv.Logging.Names
import Upriv.Support.Runs
import Mathlib.Data.List.Sort
import Mathlib.Data.UInt

/-!
# The log writer

`logging/writer.rs` and `delete_log_files` of `logging/store.rs`.  The directory
is the list of its files, oldest first; `read_dir` gives them in an order of its
own.  System calls succeed, so the buffer is empty between calls, and a file is
written under its name.
-/

namespace Upriv.Logging

structure LogConfig where
  enabled : Bool := true
  minLevel : LogLevel := .info
  entriesPerFile : UInt32 := 1000
  keepLastEntries : UInt32 := 10000

def LogConfig.effectiveEntriesPerFile (config : LogConfig) : ℕ :=
  if config.entriesPerFile = 0 then 1000 else min config.entriesPerFile.toNat 1000

structure LogFile where
  name : List Char
  text : List Char

abbrev LogsDir := List LogFile

structure ActiveFile where
  name : List Char
  seq : UInt32
  lineIndex : ℕ

/-- A call of `log` and what the system answers to it. -/
structure LogCall where
  entry : LogEntry
  /-- The clock when a file is created. -/
  stampSeconds : ℕ
  readDir : LogsDir → LogsDir
  /-- The line-count cache. -/
  counted : LogFile → UInt32
  readDir_perm : ∀ dir, (readDir dir).Perm dir

/-! ## The directory -/

namespace LogsDir

def exists_ (name : List Char) (dir : LogsDir) : Bool := dir.any (·.name == name)

/-- `fs::rename`: a file of the new name is replaced. -/
def rename (source target : List Char) (dir : LogsDir) : LogsDir :=
  (dir.filter (·.name ≠ target)).map fun file =>
    if file.name = source then { file with name := target } else file

def append (name text : List Char) (dir : LogsDir) : LogsDir :=
  dir.map fun file =>
    if file.name = name then { file with text := file.text ++ text } else file

def remove (name : List Char) (dir : LogsDir) : LogsDir := dir.filter (·.name ≠ name)

end LogsDir

/-! ## Opening and rotating -/

section
variable (config : LogConfig) (call : LogCall)

/-- Resume the newest current file and archive the others. -/
def tryResumeCurrent (dir : LogsDir) : Option ActiveFile × LogsDir :=
  let candidates := ((call.readDir dir).filterMap fun file =>
    (parseCurrentLogName file.name).map fun parsed => (parsed.1, file)).insertionSort
      (·.1 ≤ ·.1)
  match candidates.getLast? with
  | none => (none, dir)
  | some (seq, file) =>
    (some ⟨file.name, seq, (bufLines file.text).length⟩,
      candidates.dropLast.foldl
        (fun dir stale => dir.rename stale.2.name (archiveCurrentName stale.2.name)) dir)

/-- The sequence number in the name of a log file. -/
def logSeq (name : List Char) : Option UInt32 :=
  match parseCurrentLogName name with
  | some (seq, _) => some seq
  | none => (parseArchivedLogName name).map (·.1)

/-- One more than the highest number there is; it wraps around. -/
def nextSequenceNumber (dir : LogsDir) : UInt32 :=
  (call.readDir dir).foldl (fun maxSeq file => max maxSeq ((logSeq file.name).getD 0)) 0 + 1

/-- `none` when the name is taken. -/
def createActiveFile (seq : UInt32) (dir : LogsDir) : Option (ActiveFile × LogsDir) :=
  let name := currentLogName seq (utcFilenameStamp call.stampSeconds)
  if dir.exists_ name then none else some (⟨name, seq, 0⟩, dir ++ [⟨name, []⟩])

def openOrCreateActive (dir : LogsDir) : Option ActiveFile × LogsDir :=
  match tryResumeCurrent call dir with
  | (some resumed, dir) => (some resumed, dir)
  | (none, dir) =>
    match createActiveFile call (nextSequenceNumber call dir) dir with
    | some (created, dir) => (some created, dir)
    | none => (none, dir)

/-- The loop of `prune_old_files`, oldest file first. -/
def pruneLoop : List (UInt32 × List Char × UInt32) → UInt32 → LogsDir → LogsDir
  | [], _, dir => dir
  | (_, name, lines) :: archived, totalLines, dir =>
    if totalLines ≤ config.keepLastEntries then dir
    else pruneLoop archived (totalLines - min lines totalLines) (dir.remove name)

/-- The sum of the lines wraps around. -/
def pruneOldFiles (dir : LogsDir) : LogsDir :=
  if config.keepLastEntries = 0 then dir
  else
    let archived := ((call.readDir dir).filterMap fun file =>
      (parseArchivedLogName file.name).map fun parsed =>
        (parsed.1, file.name, call.counted file)).insertionSort (·.1 ≤ ·.1)
    pruneLoop config archived (archived.map (·.2.2)).sum dir

/-- When the next file cannot be created, the archived one is current again. -/
def rotateActive (active : ActiveFile) (dir : LogsDir) : Option ActiveFile × LogsDir :=
  let archived := archiveCurrentName active.name
  let dir := pruneOldFiles config call (dir.rename active.name archived)
  match createActiveFile call (active.seq + 1) dir with
  | some (next, dir) => (some next, dir)
  | none =>
    match dir.find? (·.name = archived) with
    | some file =>
      (some { active with lineIndex := (bufLines file.text).length },
        dir.rename archived active.name)
    | none => (none, dir)

/-! ## Writing -/

/-- What a call of `write_line_locked` leaves. -/
structure Written where
  active : Option ActiveFile
  dir : LogsDir
  /-- The line, if one was written. -/
  line : Option (List Char) := none
  rotated : Bool := false

/-- The file of the handle, unless it was renamed or deleted. -/
def openForWrite (active : Option ActiveFile) (dir : LogsDir) :
    Option ActiveFile × LogsDir :=
  match active.filter fun file => dir.exists_ file.name with
  | some file => (some file, dir)
  | none => openOrCreateActive call dir

/-- The file to write to, and whether a rotation gave it. -/
def activeForWrite (active : Option ActiveFile) (dir : LogsDir) :
    Option ActiveFile × LogsDir × Bool :=
  match openForWrite call active dir with
  | (none, dir) => (none, dir, false)
  | (some file, dir) =>
    if config.effectiveEntriesPerFile ≤ file.lineIndex then
      let rotated := rotateActive config call file dir
      (rotated.1, rotated.2, true)
    else (some file, dir, false)

def writeLineLocked (active : Option ActiveFile) (dir : LogsDir) : Written :=
  match activeForWrite config call active dir with
  | (none, dir, rotated) => { active := none, dir := dir, rotated := rotated }
  | (some file, dir, rotated) =>
    let line := call.entry.line (file.lineIndex + 1)
    { active := some { file with lineIndex := file.lineIndex + 1 }
      dir := dir.append file.name (line ++ ['\n'])
      line := some line
      rotated := rotated }

end

/-! ## Runs -/

/-- The logs directory, the logger, and what is remembered of the run: the lines
in the order in which they were written and the number of rotations. -/
structure LogState where
  dir : LogsDir := []
  active : Option ActiveFile := none
  written : List (List Char) := []
  rotations : ℕ := 0

inductive LogEvent where
  | log (call : LogCall)
  /-- `release_active_named`. -/
  | release (filename : List Char)
  | remove (filename : List Char)
  | restart

/-- `safe_log_path`: a plain name that ends in `.log`. -/
def safeLogName (filename : List Char) : Bool :=
  filename ≠ [] ∧ '/' ∉ filename ∧ '\\' ∉ filename ∧ '\x00' ∉ filename ∧
    filename ≠ ['.'] ∧ filename ≠ ['.', '.'] ∧ LOG_SUFFIX <:+ filename

/-- `delete_session_log_files` checks all names, then releases all of them, then
removes them. -/
def deleteSessionLogFiles (filenames : List (List Char)) : List LogEvent :=
  if filenames.all safeLogName then
    filenames.map .release ++ filenames.map .remove
  else []

def logStep (config : LogConfig) (s : LogState) : LogEvent → Option LogState
  | .log call =>
    if config.enabled ∧ call.entry.level.enabledAt config.minLevel then
      let w := writeLineLocked config call s.active s.dir
      some {
        dir := w.dir
        active := w.active
        written := s.written ++ w.line.toList
        rotations := s.rotations + w.rotated.toNat }
    else some s
  | .release filename =>
    some { s with active := s.active.filter fun file => file.name ≠ filename }
  | .remove filename => some { s with dir := s.dir.remove filename }
  | .restart => some { s with active := none }

end Upriv.Logging
