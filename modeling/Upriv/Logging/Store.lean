import Upriv.Logging.Names
import Upriv.Paths.Join
import Upriv.Support.Framing
import Upriv.Support.JsonText
import Upriv.Support.LossyUtf8

/-!
# Reading a log file

`read_log_file` of `logging/store.rs`, and the line in which the daemon answers
`log_get` with what it returns.
-/

namespace Upriv.Logging

def MAX_LOG_GET_BYTES : ℕ := 2 * 1024 * 1024

def MAX_LINE_COUNT_SCAN_BYTES : ℕ := 512 * 1024

/-- A file of the logs directory; the time is in nanoseconds since the epoch, where the
platform has one. -/
structure StoredLog where
  bytes : Bytes
  modified : Option ℤ

/-- An entry of `LINE_COUNT_CACHE`. -/
structure LineCountCacheEntry where
  mtime : ℤ
  size : ℕ
  lineCount : UInt32

structure LogFileInfo where
  filename : String
  seq : UInt32
  isCurrent : Bool
  createdAt : List Char
  sizeBytes : ℕ
  lineCount : UInt32
  lineCountExact : Bool
  content : List Char
  deriving DecidableEq, Repr

/-- `safe_log_path`. -/
def safeLogPath (logsDir : PathBuf) (filename : String) : Option PathBuf :=
  let name := filename.toList
  if name = [] ∨ '/' ∈ name ∨ '\\' ∈ name ∨ '\x00' ∈ name ∨ filename = "." ∨ filename = ".." then
    none
  else if ['.', '.'] ∈ name.splitOnP (fun c => c == '/' || c == '\\') then none
  else if ¬ LOG_SUFFIX <:+ name then none
  else
    let path := joinPath logsDir filename
    if parent path ≠ some logsDir then none else some path

/-- `stamp_to_iso`. -/
def stampToIso (stamp : List Char) : Option (List Char) :=
  if stamp.length ≠ 14 then none
  else
    some (stamp.take 4 ++ '-' :: (stamp.drop 4).take 2 ++ '-' :: (stamp.drop 6).take 2 ++
      'T' :: (stamp.drop 8).take 2 ++ ':' :: (stamp.drop 10).take 2 ++
      ':' :: stamp.drop 12 ++ ['.', '0', '0', '0', 'Z'])

/-- `mtime_iso`. -/
def mtimeIso (file : StoredLog) : List Char :=
  match file.modified with
  | some time =>
    if 0 ≤ time then
      utcTimestampIsoMillis (time.toNat / 1000000000) (time.toNat % 1000000000 / 1000000)
    else (utcYmdhms 0).isoMillis 0
  | none => (utcYmdhms 0).isoMillis 0

/-- `count_lines`: no line when one of them is no UTF-8. -/
def countLines (bytes : Bytes) : Option UInt32 :=
  let last := unfinished 0x0A bytes
  let lines := complete 0x0A bytes ++ if last = [] then [] else [last]
  if lines.all fun line => (decodeUtf8 line).isSome then
    some (UInt32.ofNat (min lines.length (UInt32.size - 1)))
  else none

/-- `count_lines_cached_with_meta`. -/
def countLinesCached (cached : Option LineCountCacheEntry) (file : StoredLog) : Option UInt32 :=
  match cached with
  | some entry =>
    if entry.size = file.bytes.length ∧ entry.mtime = file.modified.getD 0 then
      some entry.lineCount
    else countLines file.bytes
  | none => countLines file.bytes

/-- `describe_log_file`. -/
def describeLogFile (cached : Option LineCountCacheEntry) (file : StoredLog) (filename : String) :
    LogFileInfo :=
  let sizeBytes := file.bytes.length
  let (lineCount, lineCountExact) :=
    if MAX_LINE_COUNT_SCAN_BYTES < sizeBytes then (0, false)
    else ((countLinesCached cached file).getD 0, true)
  let (seq, isCurrent, createdAt) :=
    match parseCurrentLogName filename.toList with
    | some (seq, stamp) => (seq, true, (stampToIso stamp).getD (mtimeIso file))
    | none =>
      match parseArchivedLogName filename.toList with
      | some (seq, stamp) => (seq, false, (stampToIso stamp).getD (mtimeIso file))
      | none => (0, false, mtimeIso file)
  { filename, seq, isCurrent, createdAt, sizeBytes, lineCount, lineCountExact, content := [] }

/-- `read_log_file`, with the files of the directory and the cache by their names. -/
def readLogFile (logsDir : PathBuf) (files : String → Option StoredLog)
    (cache : String → Option LineCountCacheEntry) (filename : String) :
    Result (Option LogFileInfo) :=
  match safeLogPath logsDir filename with
  | none => .ok none
  | some path =>
    match files filename with
    | none => .ok none
    | some file =>
      if MAX_LOG_GET_BYTES < file.bytes.length then
        .error (.logFileTooLarge path file.bytes.length MAX_LOG_GET_BYTES)
      else
        .ok (some { describeLogFile (cache filename) file filename with
          content := fromUtf8Lossy file.bytes })

/-! ## The answer -/

open Json

/-- `serde_json::to_string` of a number. -/
def numberText (n : ℕ) : List Char := Nat.toDigits 10 n

/-- `json!(file)`: a map has its keys in order. -/
def LogFileInfo.text (info : LogFileInfo) : List Char :=
  objectText
    [("content", quoted info.content),
     ("createdAt", quoted info.createdAt),
     ("filename", quoted info.filename.toList),
     ("isCurrent", boolText info.isCurrent),
     ("lineCount", numberText info.lineCount.toNat),
     ("lineCountExact", boolText info.lineCountExact),
     ("seq", numberText info.seq.toNat),
     ("sizeBytes", numberText info.sizeBytes)]

/-- The line that `write_out` writes for `log_get`, without its line feed. -/
def logGetLine (id : UInt64) (info : LogFileInfo) : List Char :=
  objectText
    [("type", quoted "response".toList),
     ("id", numberText id.toNat),
     ("ok", boolText true),
     ("result", objectText [("file", info.text)])]

/-- The line up to the content. -/
def beforeContent (id : UInt64) : List Char :=
  '{' :: (memberText "type" (quoted "response".toList) ++
    ',' :: (memberText "id" (numberText id.toNat) ++
      ',' :: (memberText "ok" (boolText true) ++
        ',' :: memberText "result" ('{' :: memberText "file"
          ('{' :: memberText "content" ['"'])))))

/-- The line after the content. -/
def afterContent (info : LogFileInfo) : List Char :=
  '"' :: (membersText
    [("createdAt", quoted info.createdAt),
     ("filename", quoted info.filename.toList),
     ("isCurrent", boolText info.isCurrent),
     ("lineCount", numberText info.lineCount.toNat),
     ("lineCountExact", boolText info.lineCountExact),
     ("seq", numberText info.seq.toNat),
     ("sizeBytes", numberText info.sizeBytes)] ++ ['}', '}'])

theorem logGetLine_eq (id : UInt64) (info : LogFileInfo) :
    logGetLine id info =
      beforeContent id ++ (info.content.flatMap escapeChar ++ afterContent info) := by
  have hcontent : quoted info.content = '"' :: (info.content.flatMap escapeChar ++ ['"']) := rfl
  simp only [logGetLine, LogFileInfo.text, objectText, membersText, beforeContent, afterContent,
    memberText, hcontent, List.append_assoc, List.cons_append, List.nil_append]

/-- The code units of the line without the content. -/
def envelopeLength (id : UInt64) (info : LogFileInfo) : ℕ :=
  (utf16 (beforeContent id)).length + (utf16 (afterContent info)).length

theorem length_logGetLine (id : UInt64) (info : LogFileInfo) :
    (utf16 (logGetLine id info)).length =
      (utf16 info.content).length + 5 * info.content.countP isLongEscape +
        info.content.countP isShortEscape + envelopeLength id info := by
  rw [logGetLine_eq, length_utf16_append, length_utf16_append, length_utf16_escaped,
    envelopeLength]
  omega

/-! ## In bytes -/

/-- The bytes of control characters that JSON writes in six characters. -/
def isLongEscapeByte (b : UInt8) : Bool := isLongEscape (Char.ofNat b.toNat)

/-- The bytes of characters that JSON writes in two. -/
def isShortEscapeByte (b : UInt8) : Bool := isShortEscape (Char.ofNat b.toNat)

theorem toNat_lt_of_isLongEscape (c : Char) (h : isLongEscape c = true) : c.toNat < 128 := by
  rw [isLongEscape, Bool.and_eq_true, decide_eq_true_eq] at h
  omega

theorem toNat_lt_of_isShortEscape (c : Char) (h : isShortEscape c = true) : c.toNat < 128 := by
  have hall : (['"', '\\', '\x08', '\t', '\n', '\x0c', '\r'].all fun c =>
      decide (c.toNat < 128)) = true := by decide
  rw [isShortEscape, List.contains_iff_mem] at h
  exact of_decide_eq_true (List.all_eq_true.mp hall c h)

/-- The code units of a content in a JSON string. -/
theorem contentLength_eq (bytes : Bytes) :
    (utf16 (fromUtf8Lossy bytes)).length + 5 * (fromUtf8Lossy bytes).countP isLongEscape +
        (fromUtf8Lossy bytes).countP isShortEscape =
      (utf16 (fromUtf8Lossy bytes)).length + 5 * bytes.countP isLongEscapeByte +
        bytes.countP isShortEscapeByte := by
  rw [countP_fromUtf8Lossy toNat_lt_of_isLongEscape, countP_fromUtf8Lossy toNat_lt_of_isShortEscape]
  rfl

section Read

variable {logsDir : PathBuf} {files : String → Option StoredLog}
  {cache : String → Option LineCountCacheEntry} {filename : String} {file : StoredLog}
  (hsafe : (safeLogPath logsDir filename).isSome = true) (hfile : files filename = some file)
  (hsize : file.bytes.length ≤ MAX_LOG_GET_BYTES)

include hsafe hfile hsize

theorem readLogFile_ok :
    readLogFile logsDir files cache filename =
      .ok (some { describeLogFile (cache filename) file filename with
        content := fromUtf8Lossy file.bytes }) := by
  obtain ⟨path, hpath⟩ := Option.isSome_iff_exists.mp hsafe
  rw [readLogFile, hpath, hfile]
  simp only
  rw [if_neg (Nat.not_lt.mpr hsize)]

end Read

end Upriv.Logging
