import Upriv.Fs.Dirs
import Upriv.Logging.Writer
import Mathlib.Data.List.AList

/-!
# The log writer on a failing system

`logging/writer.rs` once more, with the bytes of the files, the buffer of the open
file, and system calls that may be refused.
-/

namespace Upriv.Logging.Raw

open FallibleM

/-- The logs directory: what is in the files. -/
abbrev LogsDisk := AList fun _ : List Char => Bytes

def LogsDisk.append (name : List Char) (bytes : Bytes) (disk : LogsDisk) : LogsDisk :=
  match disk.lookup name with
  | some old => disk.insert name (old ++ bytes)
  | none => disk

/-- What the operating system answers, call by call. -/
structure LogSystem where
  refused : ℕ → Option IoError
  /-- How many bytes of a refused write have been written. -/
  accepted : ℕ → ℕ
  readDir : LogsDisk → List (List Char)
  /-- The line-count cache; `none` where the file cannot be counted. -/
  counted : ℕ → List Char → Option UInt32
  /-- Seconds and milliseconds. -/
  clock : ℕ → ℕ × ℕ
  readDir_perm : ∀ disk, (readDir disk).Perm disk.keys

theorem perm_keys (disk : LogsDisk) : disk.keys.Perm disk.keys := .refl _

inductive LogError where
  | system (error : IoError)
  /-- `InvalidData` of `BufRead::lines`. -/
  | invalidUtf8

/-- The open file; `pending` is in the buffer of its `BufWriter`. -/
structure ActiveFile where
  name : List Char
  seq : UInt32
  lineIndex : UInt32
  pending : Bytes := []

structure LogState where
  disk : LogsDisk
  active : Option ActiveFile := none
  /-- System calls made so far, and those that failed since the process began. -/
  calls : ℕ := 0
  failed : ℕ := 0

abbrev LogM := FallibleM LogError LogState

def setActive (active : Option ActiveFile) : LogM Unit := modify fun s => { s with active }

section
variable (config : LogConfig) (sys : LogSystem)

/-! ## System calls -/

def osCall {α : Type} (f : LogsDisk → Except IoError (α × LogsDisk)) : LogM α :=
  FallibleM.op fun s =>
    let answer : Except IoError (α × LogsDisk) :=
      match sys.refused s.calls with
      | some error => .error error
      | none => f s.disk
    match answer with
    | .ok (a, disk) => (.ok a, { s with disk, calls := s.calls + 1 })
    | .error error =>
      (.error (.system error), { s with calls := s.calls + 1, failed := s.failed + 1 })

/-- Write to an open file: the answer, and what has not been written.  A file that was
deleted takes the bytes with it. -/
def writeFile (name : List Char) (bytes : Bytes) : LogM (Except LogError Unit × Bytes) :=
  FallibleM.op fun s =>
    match sys.refused s.calls with
    | none =>
      (.ok (.ok (), []), { s with disk := s.disk.append name bytes, calls := s.calls + 1 })
    | some error =>
      let accepted := sys.accepted s.calls
      (.ok (.error (.system error), bytes.drop accepted),
        { s with
          disk := s.disk.append name (bytes.take accepted)
          calls := s.calls + 1
          failed := s.failed + 1 })

def ensureLogsDir : LogM Unit := osCall sys fun disk => .ok ((), disk)

def readDir : LogM (List (List Char)) := osCall sys fun disk => .ok (sys.readDir disk, disk)

def renameFile (source target : List Char) : LogM Unit :=
  osCall sys fun disk =>
    match disk.lookup source with
    | some bytes => .ok ((), (disk.erase source).insert target bytes)
    | none => .error .notFound

def removeFile (name : List Char) : LogM Unit :=
  osCall sys fun disk => if name ∈ disk then .ok ((), disk.erase name) else .error .notFound

def openAppend (name : List Char) : LogM Unit :=
  osCall sys fun disk => if name ∈ disk then .ok ((), disk) else .error .notFound

def readLog (name : List Char) : LogM Bytes :=
  osCall sys fun disk =>
    match disk.lookup name with
    | some bytes => .ok (bytes, disk)
    | none => .error .notFound

/-! ## `BufWriter` -/

def BUFFER_CAPACITY : ℕ := 8192

/-- `flush_buf`. -/
def flushBuf (active : ActiveFile) : LogM (Except LogError Unit × ActiveFile) :=
  if active.pending = [] then return (.ok (), active)
  else do
    let (answer, rest) ← writeFile sys active.name active.pending
    return (answer, { active with pending := rest })

/-- What does not fit is flushed first. -/
def makeRoom (active : ActiveFile) (count : ℕ) : LogM (Except LogError Unit × ActiveFile) :=
  if BUFFER_CAPACITY - active.pending.length < count then flushBuf sys active
  else return (.ok (), active)

/-- `write_all`: what is larger than the buffer is written past it. -/
def writeAll (active : ActiveFile) (bytes : Bytes) : LogM (Except LogError Unit × ActiveFile) := do
  if bytes.length < BUFFER_CAPACITY - active.pending.length then
    return (.ok (), { active with pending := active.pending ++ bytes })
  else
    let (answer, active) ← makeRoom sys active bytes.length
    match answer with
    | .error error => return (.error error, active)
    | .ok () =>
      if BUFFER_CAPACITY ≤ bytes.length then
        let (answer, _) ← writeFile sys active.name bytes
        return (answer, active)
      else return (.ok (), { active with pending := active.pending ++ bytes })

/-- `writeln!(writer, "{line}")`. -/
def writeln (active : ActiveFile) (line : List Char) :
    LogM (Except LogError Unit × ActiveFile) := do
  let (answer, active) ← writeAll sys active (utf8 line)
  match answer with
  | .error error => return (.error error, active)
  | .ok () => writeAll sys active [0x0A]

/-- A writer that is dropped is flushed, and nobody hears whether it was. -/
def dropActive : LogM Unit := do
  match (← get).active with
  | none => return ()
  | some active =>
    let _ ← flushBuf sys active
    setActive none

/-! ## Opening -/

def countLines (name : List Char) : LogM UInt32 := do
  match decodeUtf8 (← readLog sys name) with
  | some text => return UInt32.ofNat (min (bufLines text.toList).length (UInt32.size - 1))
  | none => throw .invalidUtf8

/-- The current files by their numbers. -/
def currentFiles (names : List (List Char)) : List (UInt32 × List Char) :=
  (names.filterMap fun name =>
    (parseCurrentLogName name).map fun parsed => (parsed.1, name)).insertionSort (·.1 ≤ ·.1)

def tryResumeCurrent : LogM (Option ActiveFile) := do
  let candidates := currentFiles (← readDir sys)
  match candidates.getLast? with
  | none => return none
  | some (seq, name) =>
    candidates.dropLast.forM fun stale => renameFile sys stale.2 (archiveCurrentName stale.2)
    let lineIndex ← countLines sys name
    openAppend sys name
    return some { name, seq, lineIndex }

/-- The highest number there is, and 0 if there is none. -/
def maxSeq (names : List (List Char)) : UInt32 :=
  names.foldl (fun maxSeq name => max maxSeq ((logSeq name).getD 0)) 0

/-- It wraps around. -/
def nextSequenceNumber : LogM UInt32 := do
  let names ← readDir sys
  return maxSeq names + 1

def createActiveFile (seq : UInt32) : LogM ActiveFile := do
  let name := currentLogName seq (utcFilenameStamp (sys.clock (← get).calls).1)
  osCall sys fun disk =>
    if name ∈ disk then .error .alreadyExists else .ok ((), disk.insert name [])
  return { name, seq, lineIndex := 0 }

def openOrCreateActive : LogM ActiveFile := do
  match ← tryResumeCurrent sys with
  | some resumed => return resumed
  | none => createActiveFile sys (← nextSequenceNumber sys)

def reopen : LogM ActiveFile := do
  ensureLogsDir sys
  let active ← openOrCreateActive sys
  setActive (some active)
  return active

/-! ## Rotating -/

structure ArchivedFile where
  seq : UInt32
  name : List Char
  lines : UInt32

def pruneLoop : List ArchivedFile → UInt32 → LogM Unit
  | [], _ => return ()
  | file :: archived, totalLines =>
    if totalLines ≤ config.keepLastEntries then return ()
    else do
      removeFile sys file.name
      pruneLoop archived (totalLines - min file.lines totalLines)

/-- An archived file, if it can be counted. -/
def archivedFile (counted : List Char → Option UInt32) (name : List Char) :
    Option ArchivedFile := do
  let parsed ← parseArchivedLogName name
  let lines ← counted name
  return ⟨parsed.1, name, lines⟩

/-- A file that cannot be counted is skipped; the sum of the lines wraps around. -/
def pruneOldFiles : LogM Unit := do
  if config.keepLastEntries = 0 then return ()
  else
    let names ← readDir sys
    let calls := (← get).calls
    let archived :=
      (names.filterMap (archivedFile (sys.counted calls))).insertionSort (·.seq ≤ ·.seq)
    pruneLoop config sys archived (archived.map (·.lines)).sum

/-- When the next file cannot be created, the archived one is current again. -/
def rotateActive (active : ActiveFile) : LogM ActiveFile := do
  setActive none
  let (answer, active) ← flushBuf sys active
  match answer with
  | .error error =>
    let _ ← flushBuf sys active
    throw error
  | .ok () =>
    let archived := archiveCurrentName active.name
    renameFile sys active.name archived
    let _ ← attempt (pruneOldFiles config sys)
    match ← attempt (createActiveFile sys (active.seq + 1)) with
    | .ok next =>
      setActive (some next)
      return next
    | .error error =>
      match ← attempt (renameFile sys archived active.name) with
      | .error _ => throw error
      | .ok () =>
        match ← attempt (openAppend sys active.name) with
        | .error _ => throw error
        | .ok () =>
          let counted ← attempt (countLines sys active.name)
          let active := { active with lineIndex := counted.toOption.getD active.lineIndex }
          setActive (some active)
          return active

/-! ## Writing -/

/-- What a call of `log` wants to say. -/
structure LogMessage where
  level : LogLevel
  event : List Char
  fields : List (List Char × List Char)

/-- A line that the writer took, and the answer to the flush that nobody looks at. -/
structure Put where
  line : List Char
  flushed : Except LogError Unit

/-- A file that was renamed or deleted is not written to. -/
def dropStale : LogM Unit := do
  let s ← get
  if s.active.any fun active => active.name ∉ s.disk then dropActive sys

def openedActive : LogM ActiveFile := do
  match (← get).active with
  | some active => return active
  | none => reopen sys

/-- The file to write to. -/
def prepareActive : LogM ActiveFile := do
  dropStale sys
  let active ← openedActive sys
  if config.effectiveEntriesPerFile ≤ active.lineIndex.toNat then rotateActive config sys active
  else return active

def putLine (active : ActiveFile) (line : List Char) : LogM Put := do
  let (answer, active) ← writeln sys active line
  setActive (some active)
  match answer with
  | .error error => throw error
  | .ok () =>
    let (flushed, active) ← flushBuf sys active
    setActive (some active)
    return ⟨line, flushed⟩

def writeNext (message : LogMessage) (active : ActiveFile) : LogM Put := do
  let active := { active with lineIndex := active.lineIndex + 1 }
  let (seconds, millis) := sys.clock (← get).calls
  putLine sys active (formatLogLine active.lineIndex.toNat (utcTimestampIsoMillis seconds millis)
    message.level message.event message.fields)

/-- After a write that failed, the file is opened again and written to once more. -/
def writeLineLocked (message : LogMessage) : LogM Put := do
  let active ← prepareActive config sys
  match ← attempt (writeNext sys message active) with
  | .ok put => return put
  | .error error =>
    dropActive sys
    let active ← reopen sys
    match ← attempt (writeNext sys message active) with
    | .ok put => return put
    | .error _ => throw error

/-- `Logger::flush`. -/
def flush : LogM Unit := do
  match (← get).active with
  | none => return ()
  | some active =>
    let (_, active) ← flushBuf sys active
    setActive (some active)

/-- `release_active_named`. -/
def releaseActiveNamed (filename : List Char) : LogM Unit := do
  match (← get).active with
  | none => return ()
  | some active =>
    if active.name = filename then
      let (_, active) ← flushBuf sys active
      setActive (some active)
      dropActive sys

end

/-! ## Runs -/

inductive LogEvent where
  | log (message : LogMessage)
  | flush
  | release (filename : List Char)
  | remove (filename : List Char)
  /-- The process ends, and some of the buffer is still written. -/
  | restart (kept : ℕ)

def logStep (config : LogConfig) (sys : LogSystem) (s : LogState) : LogEvent → Option LogState
  | .log message =>
    if config.enabled ∧ message.level.enabledAt config.minLevel then
      some ((writeLineLocked config sys message).exec s).2
    else some s
  | .flush => some ((flush sys).exec s).2
  | .release filename => some ((releaseActiveNamed sys filename).exec s).2
  | .remove filename => some { s with disk := s.disk.erase filename }
  | .restart kept =>
    let disk :=
      match s.active with
      | none => s.disk
      | some active => s.disk.append active.name (active.pending.take kept)
    some { disk, calls := s.calls }

end Upriv.Logging.Raw
