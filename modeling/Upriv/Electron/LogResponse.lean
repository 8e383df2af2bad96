import Upriv.Electron.Stdout
import Upriv.Logging.Store

/-!
# Logs in the buffer of the client

`read_log_file` counts bytes, and the client counts the code units of the whole line.
A control character takes one byte in the file and six units in the line.
-/

namespace Upriv.Electron

open Upriv.Logging

section Response

variable {logsDir : PathBuf} {files : String → Option StoredLog}
  {cache : String → Option LineCountCacheEntry} {filename : String} {file : StoredLog}

/-- The answer with a log is short enough exactly when its code units, the escapes and
what surrounds the content are. -/
theorem logGetLine_fits_iff (hsafe : (safeLogPath logsDir filename).isSome = true)
    (hfile : files filename = some file) (hsize : file.bytes.length ≤ MAX_LOG_GET_BYTES)
    (id : UInt64) :
    ∃ info, readLogFile logsDir files cache filename = .ok (some info) ∧
      ((utf16 (logGetLine id info)).length ≤ MAX_STDOUT_BUFFER_CHARS ↔
        (utf16 (fromUtf8Lossy file.bytes)).length + 5 * file.bytes.countP isLongEscapeByte +
            file.bytes.countP isShortEscapeByte +
            envelopeLength id (describeLogFile (cache filename) file filename) ≤
          MAX_STDOUT_BUFFER_CHARS) := by
  refine ⟨_, readLogFile_ok hsafe hfile hsize, ?_⟩
  rw [length_logGetLine, contentLength_eq]
  exact Iff.rfl

end Response

/-- A log of a quotation mark and a NUL. -/
theorem logGetLine_fits_small :
    ∃ info, readLogFile "/l" (fun _ => some ⟨[0x22, 0], none⟩) (fun _ => none) "a.log" =
        .ok (some info) ∧
      (utf16 (logGetLine 1 info)).length ≤ MAX_STDOUT_BUFFER_CHARS := by
  obtain ⟨info, hread, hfits⟩ :=
    @logGetLine_fits_iff "/l" (fun _ => some ⟨[0x22, 0], none⟩) (fun _ => none) "a.log"
      ⟨[0x22, 0], none⟩ (by decide +kernel) rfl (by decide) 1
  have hascii : ∀ b ∈ ([0x22, 0] : Bytes), b.toNat < 0x80 :=
    List.forall_mem_cons.mpr ⟨by decide, List.forall_mem_singleton.mpr (by decide)⟩
  refine ⟨info, hread, hfits.mpr ?_⟩
  rw [fromUtf8Lossy_of_ascii hascii]
  decide +kernel

/-- A log of 2 MiB of NULs. -/
def nulLog : StoredLog := ⟨List.replicate MAX_LOG_GET_BYTES 0, none⟩

def nulInfo : LogFileInfo :=
  { describeLogFile none nulLog "a.log" with content := fromUtf8Lossy nulLog.bytes }

theorem countP_nulLog : nulLog.bytes.countP isLongEscapeByte = MAX_LOG_GET_BYTES := by
  rw [nulLog, List.countP_replicate, if_pos (by decide)]

/-- Its answer has 12 MiB. -/
theorem not_logGetLine_fits_nul :
    readLogFile "/l" (fun _ => some nulLog) (fun _ => none) "a.log" = .ok (some nulInfo) ∧
      ¬ (utf16 (logGetLine 1 nulInfo)).length ≤ MAX_STDOUT_BUFFER_CHARS := by
  have hsize : nulLog.bytes.length ≤ MAX_LOG_GET_BYTES := by
    rw [nulLog, List.length_replicate]
  constructor
  · exact readLogFile_ok (by decide +kernel) rfl hsize
  · have hlength := length_logGetLine 1 nulInfo
    have hcontent : nulInfo.content = fromUtf8Lossy nulLog.bytes := rfl
    rw [hcontent, contentLength_eq, countP_nulLog] at hlength
    have hlarge : MAX_STDOUT_BUFFER_CHARS < 5 * MAX_LOG_GET_BYTES := by decide
    omega

end Upriv.Electron
