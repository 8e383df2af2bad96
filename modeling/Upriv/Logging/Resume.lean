import Upriv.Logging.Reopening
import Upriv.Support.Runs

/-!
# Lines in resumed log files

Where a call of `log` puts its line, whatever is in the files and whatever system
calls are refused.  The file that is resumed is appended to as it is: a torn last line
takes the next line with it, and a file that is not UTF-8 is never opened again.
-/

namespace Upriv.Logging.Raw

open FallibleM

section
variable {config : LogConfig} {sys : LogSystem} {n : ℕ} {s : LogState}

/-! ## What a call asks of the files -/

/-- No system call of this call is refused. -/
def Quiet (config : LogConfig) (sys : LogSystem) (message : LogMessage) (s : LogState) : Prop :=
  ((writeLineLocked config sys message).exec s).2.failed = s.failed

/-- The open file has not been renamed or deleted. -/
def Live (s : LogState) : Prop :=
  ∃ active content, s.active = some active ∧ Holds s.disk active content

/-- After a refused write the call opens a file again. -/
inductive Reopens (config : LogConfig) (sys : LogSystem) (message : LogMessage) (s t : LogState) :
    Prop where
  | intro {active : ActiveFile} {error : LogError} {s₁ s₂ : LogState}
      (hprepare : (prepareActive config sys).exec s = (.ok active, s₁))
      (hwrite : (writeNext sys message active).exec s₁ = (.error error, s₂))
      (hdrop : (dropActive sys).exec s₂ = (.ok (), t))

/-- The next line starts where a line ends, or the file is full and will be left. -/
def StartsLine (config : LogConfig) (quiet : Prop) (content : Bytes) (lines : ℕ) : Prop :=
  EndsLine content ∨ config.effectiveEntriesPerFile ≤ lines ∧ quiet

/-- The files that the call opens again are texts that end in a line break, and so is
what a file holds that is open since a system call failed. -/
structure Meets (config : LogConfig) (sys : LogSystem) (message : LogMessage) (s : LogState) :
    Prop where
  resumed : ¬ Live s → ∀ name bytes, Resumes sys s.disk name bytes →
    ∃ text, decodeUtf8 bytes = some text ∧
      StartsLine config (Quiet config sys message s) bytes (bufLines text.toList).length
  kept : s.failed ≠ 0 → ∀ active content, s.active = some active → Holds s.disk active content →
    StartsLine config (Quiet config sys message s) content active.lineIndex.toNat
  reopened : ∀ t, Reopens config sys message s t → ∀ name bytes, Resumes sys t.disk name bytes →
    (∃ text, decodeUtf8 bytes = some text) ∧ EndsLine bytes

/-! ## The file to write to -/

theorem effectiveEntriesPerFile_lt (config : LogConfig) :
    config.effectiveEntriesPerFile < UInt32.size - 1 := by
  rw [LogConfig.effectiveEntriesPerFile]
  split
  · decide
  · exact lt_of_le_of_lt (min_le_right _ _) (by decide)

/-- Counting does not go beyond what matters. -/
theorem le_cappedLines (text : String) :
    config.effectiveEntriesPerFile ≤ (cappedLines text).toNat ↔
      config.effectiveEntriesPerFile ≤ (bufLines text.toList).length := by
  have hlt := effectiveEntriesPerFile_lt config
  have hcap : min (bufLines text.toList).length (UInt32.size - 1) < UInt32.size :=
    lt_of_le_of_lt (min_le_right _ _) (by decide)
  rw [cappedLines, UInt32.toNat_ofNat_of_lt' hcap]
  omega

theorem flushBuf_gone {active : ActiveFile} (h : active.name ∉ s.disk) :
    ((flushBuf sys active).exec s).2.disk = s.disk := by
  have happend : ∀ bytes, s.disk.append active.name bytes = s.disk := by
    intro bytes
    rw [LogsDisk.append, AList.lookup_eq_none.mpr h]
  rw [flushBuf]
  split
  · rfl
  · rw [exec_bind]
    simp only [writeFile, exec_op]
    cases sys.refused s.calls with
    | none => exact happend _
    | some io => exact happend _

theorem exec_dropActive (s : LogState) :
    ∃ s', (dropActive sys).exec s = (.ok (), s') ∧ s'.active = none ∧ s.failed ≤ s'.failed ∧
      ((∀ active, s.active = some active → active.name ∉ s.disk) → s'.disk = s.disk) := by
  rw [dropActive, exec_bind_of_ok (exec_get s)]
  cases hactive : s.active with
  | none => exact ⟨s, rfl, hactive, le_refl _, fun _ => rfl⟩
  | some active =>
      obtain ⟨answer, a, s', hrun, hwrote, -, -⟩ := @exec_flushBuf sys active s
      refine ⟨{ s' with active := none }, ?_, rfl, hwrote.failed_le, fun hgone => ?_⟩
      · dsimp only
        rw [exec_bind_of_ok hrun]
        rfl
      · have hsame := @flushBuf_gone sys s active (hgone active rfl)
        rwa [hrun] at hsame

theorem live_iff : Live s ↔ ∃ active, s.active = some active ∧ active.name ∈ s.disk := by
  constructor
  · rintro ⟨active, content, hactive, bytes, hbytes, -⟩
    exact ⟨active, hactive, AList.lookup_isSome.mp (Option.isSome_of_mem hbytes)⟩
  · rintro ⟨active, hactive, hmem⟩
    obtain ⟨bytes, hbytes⟩ := Option.isSome_iff_exists.mp (AList.lookup_isSome.mpr hmem)
    exact ⟨active, _, hactive, bytes, hbytes, rfl⟩

theorem exec_dropStale_of_live (h : Live s) : (dropStale sys).exec s = (.ok (), s) := by
  obtain ⟨active, hactive, hmem⟩ := live_iff.mp h
  rw [dropStale, exec_bind_of_ok (exec_get s), hactive]
  simp only [Option.any_some, hmem, not_true_eq_false, decide_false, Bool.false_eq_true, if_false,
    exec_pure]

theorem exec_dropStale_of_not_live (h : ¬ Live s) :
    ∃ s', (dropStale sys).exec s = (.ok (), s') ∧ s'.active = none ∧ s.failed ≤ s'.failed ∧
      s'.disk = s.disk := by
  rw [live_iff] at h
  rw [dropStale, exec_bind_of_ok (exec_get s)]
  cases hactive : s.active with
  | none => exact ⟨s, rfl, hactive, le_refl _, rfl⟩
  | some active =>
      have hgone : active.name ∉ s.disk := fun hmem => h ⟨active, hactive, hmem⟩
      obtain ⟨s', hrun, hnone, hle, hsame⟩ := @exec_dropActive sys s
      refine ⟨s', ?_, hnone, hle, hsame ?_⟩
      · simp only [Option.any_some, hgone, not_false_eq_true, decide_true, if_true, hrun]
      · rintro active' hactive'
        obtain rfl : active = active' := Option.some.inj (hactive.symm.trans hactive')
        exact hgone

/-- The line goes to a fresh line, or a system call has failed that should not. -/
def LineStart (n : ℕ) (quiet : Prop) (active : ActiveFile) (s : LogState) : Prop :=
  ∃ content, Holds s.disk active content ∧ (EndsLine content ∨ quiet ∧ n < s.failed)

theorem ends_rotateFull {quiet : Prop} {active : ActiveFile} {content : Bytes}
    (hholds : Holds s.disk active content)
    (hstart : StartsLine config quiet content active.lineIndex.toNat) (hle : n ≤ s.failed) :
    Ends n (if config.effectiveEntriesPerFile ≤ active.lineIndex.toNat then
        rotateActive config sys active else return active) s (LineStart n quiet) := by
  split
  · refine (ends_rotateActive hholds hle).mono ?_
    rintro next s' - (⟨-, hempty⟩ | ⟨-, hsame, hlt⟩)
    · exact ⟨[], hempty, .inl endsLine_nil⟩
    · exact ⟨content, hsame, hstart.imp id fun hfull => ⟨hfull.2, hlt⟩⟩
  · rename_i hfull
    exact ends_pure hle ⟨content, hholds, .inl (hstart.resolve_right fun h => hfull h.1)⟩

theorem ends_prepareActive {quiet : Prop}
    (hresumed : ¬ Live s → ∀ name bytes, Resumes sys s.disk name bytes →
      ∃ text, decodeUtf8 bytes = some text ∧
        StartsLine config quiet bytes (bufLines text.toList).length)
    (hkept : ∀ active content, s.active = some active → Holds s.disk active content →
      StartsLine config quiet content active.lineIndex.toNat) :
    Ends s.failed (prepareActive config sys) s (LineStart s.failed quiet) := by
  by_cases hlive : Live s
  · obtain ⟨active, content, hactive, hholds⟩ := hlive
    refine ends_congr (exec_bind_of_ok (exec_dropStale_of_live ⟨_, _, hactive, hholds⟩) _) ?_
    have hopened : (openedActive sys).exec s = (.ok active, s) := by
      rw [openedActive, exec_bind_of_ok (exec_get s), hactive]
      rfl
    refine ends_congr (exec_bind_of_ok hopened _) ?_
    exact ends_rotateFull hholds (hkept active content hactive hholds) (le_refl _)
  · obtain ⟨s₁, hrun, hnone, hle₁, hdisk⟩ := @exec_dropStale_of_not_live sys s hlive
    have hclean := hresumed hlive
    refine ends_congr (exec_bind_of_ok hrun _) ?_
    have hopened : (openedActive sys).exec s₁ = (reopen sys).exec s₁ := by
      rw [openedActive, exec_bind_of_ok (exec_get s₁), hnone]
    have hcountable : Countable sys s₁.disk := by
      intro name bytes h
      rw [hdisk] at h
      obtain ⟨text, htext, -⟩ := hclean name bytes h
      exact ⟨text, htext⟩
    refine Ends.bind (ends_congr hopened (ends_reopen hcountable hle₁)) ?_
    rintro active s₂ hle₂ ⟨-, hempty | ⟨bytes, text, hfile⟩⟩
    · exact ends_rotateFull hempty (.inl endsLine_nil) hle₂
    · obtain ⟨text', htext', hstart⟩ := hclean active.name bytes (hdisk ▸ hfile.resumes)
      obtain rfl : text = text' := Option.some.inj (hfile.decodes.symm.trans htext')
      have hholds : Holds s₂.disk active bytes :=
        ⟨bytes, hfile.lookup, by rw [hfile.pending, List.append_nil]⟩
      refine ends_rotateFull hholds ?_ hle₂
      rw [StartsLine, hfile.lineIndex, le_cappedLines]
      exact hstart

/-! ## Calls -/

/-- The answer to a call is an error of the file system, or its line is in a file by
itself; after a flush that failed it is still in the buffer behind the file. -/
def Served (config : LogConfig) (sys : LogSystem) (message : LogMessage) (s : LogState) : Prop :=
  match (writeLineLocked config sys message).exec s with
  | (.error error, _) => BySystem error
  | (.ok put, s') => LineOf message put.line ∧ ∃ active bytes,
      s'.active = some active ∧ s'.disk.lookup active.name = some bytes ∧
        match put.flushed with
        | .ok () => OwnLine bytes put.line
        | .error error => BySystem error ∧ OwnLine (bytes ++ active.pending) put.line

/-- As long as no system call has failed, the open file ends where a line ends. -/
def Tidy (s : LogState) : Prop :=
  s.failed = 0 → ∀ active content, s.active = some active → Holds s.disk active content →
    EndsLine content

variable {message : LogMessage}

theorem ends_writeLineLocked (h : Meets config sys message s)
    (hkept : ∀ active content, s.active = some active → Holds s.disk active content →
      StartsLine config (Quiet config sys message s) content active.lineIndex.toNat) :
    Ends s.failed (writeLineLocked config sys message) s fun put s' =>
      LineOf message put.line ∧ ∃ s₁ before after, HasPut s₁ s' before after put ∧
        LineStart s.failed (Quiet config sys message s) before s₁ ∧ s₁.failed ≤ s'.failed := by
  have hprepared := ends_prepareActive h.resumed hkept
  rcases hprepare : (prepareActive config sys).exec s with ⟨error | active, s₁⟩
  · obtain ⟨hsystem, hlt⟩ := hprepared.error hprepare
    exact ends_of_error (exec_bind_of_error hprepare _) hsystem hlt
  obtain ⟨hle₁, hstart⟩ := hprepared.ok hprepare
  refine ends_congr (exec_bind_of_ok hprepare _) ?_
  have hnext := @ends_writeNext sys s₁.failed message active s₁ (le_refl _)
  rcases hwrite : (writeNext sys message active).exec s₁ with ⟨error | put, s₂⟩
  · obtain ⟨hsystem, hlt₂⟩ := hnext.error hwrite
    obtain ⟨s₃, hdrop, -, hle₃, -⟩ := @exec_dropActive sys s₂
    have hclean := h.reopened s₃ ⟨hprepare, hwrite, hdrop⟩
    refine ends_attempt_bind hwrite (ends_congr (exec_bind_of_ok hdrop _) ?_)
    refine (ends_reopen (fun name bytes hfile => (hclean name bytes hfile).1)
      (hle₁.trans (hlt₂.le.trans hle₃))).bind ?_
    rintro next s₄ hle₄ ⟨-, hfresh⟩
    have hagain := @ends_writeNext sys s₄.failed message next s₄ (le_refl _)
    rcases hwrite' : (writeNext sys message next).exec s₄ with ⟨error' | put, s₅⟩
    · exact ends_attempt_bind hwrite'
        (ends_throw hsystem (hle₄.trans_lt (hagain.error hwrite').2))
    · obtain ⟨hle₅, hline, after, hput⟩ := hagain.ok hwrite'
      refine ends_attempt_bind hwrite' (ends_pure (hle₄.trans hle₅)
        ⟨hline, s₄, next, after, hput, ?_, hle₅⟩)
      rcases hfresh with hempty | ⟨bytes, text, hfile⟩
      · exact ⟨[], hempty, .inl endsLine_nil⟩
      · refine ⟨bytes, ⟨bytes, hfile.lookup, ?_⟩, .inl (hclean _ _ hfile.resumes).2⟩
        rw [hfile.pending, List.append_nil]
  · obtain ⟨hle₂, hline, after, hput⟩ := hnext.ok hwrite
    exact ends_attempt_bind hwrite (ends_pure (hle₁.trans hle₂)
      ⟨hline, s₁, active, after, hput, hstart, hle₂⟩)

theorem holds_unique {disk : LogsDisk} {active : ActiveFile} {content content' : Bytes}
    (h : Holds disk active content) (h' : Holds disk active content') : content = content' := by
  obtain ⟨bytes, hbytes, rfl⟩ := h
  obtain ⟨bytes', hbytes', rfl⟩ := h'
  rw [Option.some.inj (hbytes.symm.trans hbytes')]

/-- One call. -/
theorem served_and_tidy (h : Meets config sys message s) (htidy : Tidy s) :
    Served config sys message s ∧ Tidy ((writeLineLocked config sys message).exec s).2 := by
  have hkept : ∀ active content, s.active = some active → Holds s.disk active content →
      StartsLine config (Quiet config sys message s) content active.lineIndex.toNat := by
    intro active content hactive hholds
    by_cases hfailed : s.failed = 0
    · exact .inl (htidy hfailed active content hactive hholds)
    · exact h.kept hfailed active content hactive hholds
  have hends := ends_writeLineLocked h hkept
  have hquiet : ∀ {r s'}, (writeLineLocked config sys message).exec s = (r, s') →
      Quiet config sys message s → s'.failed = s.failed := by
    intro r s' hrun hquiet
    rwa [Quiet, hrun] at hquiet
  rw [Served]
  rcases hrun : (writeLineLocked config sys message).exec s with ⟨error | put, s'⟩
  · obtain ⟨hsystem, hlt⟩ := hends.error hrun
    refine ⟨hsystem, fun hfailed => ?_⟩
    have hzero : s'.failed = 0 := hfailed
    omega
  · obtain ⟨-, hline, s₁, before, after, hput, ⟨content, hcontent, hstart⟩, hle⟩ := hends.ok hrun
    have hends : EndsLine content := by
      refine hstart.resolve_right ?_
      rintro ⟨hq, hlt⟩
      have hsame := hquiet hrun hq
      omega
    have hholds := hput.holds content hcontent
    obtain ⟨bytes, hbytes, hnew⟩ := hholds
    have hown : OwnLine (bytes ++ after.pending) put.line := ⟨hput.line, content, hnew, hends⟩
    refine ⟨⟨hline, after, bytes, hput.active, hbytes, ?_⟩, fun _ active content' hactive h' => ?_⟩
    · cases hflushed : put.flushed with
      | ok u =>
          dsimp only
          rwa [hput.flushed hflushed, List.append_nil] at hown
      | error e => exact ⟨(hput.unflushed e hflushed).1, hown⟩
    · obtain rfl : after = active := Option.some.inj (hput.active.symm.trans hactive)
      rw [holds_unique h' ⟨bytes, hbytes, hnew⟩]
      exact endsLine_append_newline _

/-! ## Runs -/

/-- Every call of `log` that is enabled meets the files as it needs them. -/
def MeetsStep (config : LogConfig) (sys : LogSystem) (s : LogState) (event : LogEvent)
    (_ : LogState) : Prop :=
  ∀ message, event = .log message → config.enabled ∧ message.level.enabledAt config.minLevel →
    Meets config sys message s

/-- Every call of `log` that is enabled is served. -/
def ServedStep (config : LogConfig) (sys : LogSystem) (s : LogState) (event : LogEvent)
    (_ : LogState) : Prop :=
  ∀ message, event = .log message → config.enabled ∧ message.level.enabledAt config.minLevel →
    Served config sys message s

theorem tidy_flush (h : Tidy s) : Tidy ((flush sys).exec s).2 := by
  rw [flush, exec_bind_of_ok (exec_get s)]
  cases hactive : s.active with
  | none => exact h
  | some active =>
      obtain ⟨answer, a, s₁, hrun, hwrote, -, hholds⟩ := @exec_flushBuf sys active s
      dsimp only
      rw [exec_bind_of_ok hrun, setActive, exec_modify]
      rintro hfailed active' content ⟨⟩ hcontent
      have hzero : s.failed = 0 := Nat.le_zero.mp (hfailed ▸ hwrote.failed_le)
      by_cases hmem : active.name ∈ s.disk
      · obtain ⟨bytes, hbytes⟩ := Option.isSome_iff_exists.mp (AList.lookup_isSome.mpr hmem)
        have hbefore : Holds s.disk active (bytes ++ active.pending) := ⟨bytes, hbytes, rfl⟩
        rw [holds_unique hcontent (hholds _ hbefore)]
        exact h hzero active _ hactive hbefore
      · obtain ⟨bytes, hbytes, -⟩ := hcontent
        have hsame := @flushBuf_gone sys s active hmem
        rw [hrun] at hsame
        have hlookup : s₁.disk.lookup a.name = some bytes := hbytes
        rw [hwrote.name, show s₁.disk = s.disk from hsame, AList.lookup_eq_none.mpr hmem] at hlookup
        cases hlookup

theorem tidy_release {filename : List Char} (h : Tidy s) :
    Tidy ((releaseActiveNamed sys filename).exec s).2 := by
  rw [releaseActiveNamed, exec_bind_of_ok (exec_get s)]
  cases hactive : s.active with
  | none => exact h
  | some active =>
      dsimp only
      split
      · obtain ⟨answer, a, s₁, hrun, -, -, -⟩ := @exec_flushBuf sys active s
        obtain ⟨s₂, hdrop, hnone, -, -⟩ := @exec_dropActive sys { s₁ with active := some a }
        have hset : (setActive (some a)).exec s₁ = (.ok (), { s₁ with active := some a }) := rfl
        rw [exec_bind_of_ok hrun, exec_bind_of_ok hset, hdrop]
        intro _ active' content hactive'
        rw [hnone] at hactive'
        cases hactive'
      · exact h

theorem tidy_step {s' : LogState} {event : LogEvent} (h : Tidy s)
    (hstep : logStep config sys s event = some s') (hmeets : MeetsStep config sys s event s') :
    Tidy s' := by
  cases event with
  | log message =>
      rw [logStep] at hstep
      split at hstep
      · rename_i henabled
        cases hstep
        exact (served_and_tidy (hmeets message rfl henabled) h).2
      · cases hstep
        exact h
  | flush =>
      cases hstep
      exact tidy_flush h
  | release filename =>
      cases hstep
      exact tidy_release h
  | remove filename =>
      cases hstep
      rintro hfailed active content hactive ⟨bytes, hbytes, hcontent⟩
      by_cases hname : active.name = filename
      · rw [hname, AList.lookup_erase] at hbytes
        cases hbytes
      · rw [AList.lookup_erase_ne hname] at hbytes
        exact h hfailed active content hactive ⟨bytes, hbytes, hcontent⟩
  | restart kept =>
      cases hstep
      intro _ active content hactive
      cases hactive

/-- Whatever is in the files when the process begins: if the files that are opened again
are texts with complete lines, every line that is logged is a line by itself, unless the
file system fails. -/
theorem writeLineLocked_served {disk : LogsDisk} {calls : ℕ} {events : List LogEvent}
    {s' : LogState}
    (hrun : Run (logStep config sys) (MeetsStep config sys) { disk, calls } events s') :
    Run (logStep config sys) (ServedStep config sys) { disk, calls } events s' := by
  refine hrun.strengthen Tidy (fun _ _ _ hactive => nomatch hactive) ?_ ?_
  · intro t event t' htidy hstep hmeets
    exact tidy_step htidy hstep hmeets
  · intro t event t' htidy _ hmeets message hmessage henabled
    exact (served_and_tidy (hmeets message hmessage henabled) htidy).1

end

/-! ## Leftovers -/

/-- No call is refused. -/
def calmSystem : LogSystem where
  refused _ := none
  accepted _ := 0
  readDir disk := disk.keys
  counted _ _ := none
  clock _ := (0, 0)
  readDir_perm := perm_keys

def leftCurrent : List Char := currentLogName 1 (utcFilenameStamp 0)

/-- One current file with this in it. -/
def leftOver (bytes : Bytes) : LogsDisk := (∅ : LogsDisk).insert leftCurrent bytes

def hello : LogMessage := ⟨.info, ['h', 'i'], []⟩

theorem meets_complete :
    Meets {} calmSystem hello { disk := leftOver [0x61, 0x0A] } where
  resumed := by
    rintro - name bytes ⟨seq, hlast, hbytes⟩
    have hname : (currentFiles (calmSystem.readDir (leftOver [0x61, 0x0A]))).getLast? =
        some (1, leftCurrent) := by rfl
    cases hname.symm.trans hlast
    have hfile : (leftOver [0x61, 0x0A]).lookup leftCurrent = some [0x61, 0x0A] :=
      AList.lookup_insert _
    cases hfile.symm.trans hbytes
    exact ⟨"a\n", by rfl, .inl (endsLine_append_newline [0x61])⟩
  kept hfailed := absurd rfl hfailed
  reopened := by
    rintro t ⟨hprepare, hwrite, -⟩
    have hactive : (prepareActive {} calmSystem).exec { disk := leftOver [0x61, 0x0A] } =
        (.ok ⟨leftCurrent, 1, 1, []⟩,
          ⟨leftOver [0x61, 0x0A], some ⟨leftCurrent, 1, 1, []⟩, 4, 0⟩) := by
      rfl
    cases hactive.symm.trans hprepare
    have hput : ((writeNext calmSystem hello ⟨leftCurrent, 1, 1, []⟩).exec
        ⟨leftOver [0x61, 0x0A], some ⟨leftCurrent, 1, 1, []⟩, 4, 0⟩).1.isOk = true := by rfl
    rw [hwrite] at hput
    cases hput

theorem writeLineLocked_served_complete :
    ∃ s', Run (logStep {} calmSystem) (ServedStep {} calmSystem)
      { disk := leftOver [0x61, 0x0A] } [.log hello] s' := by
  refine ⟨_, writeLineLocked_served (.tail (.refl _) rfl ?_)⟩
  rintro message ⟨⟩ -
  exact meets_complete

/-- The line that is written behind a torn one. -/
def gluedLine : List Char := formatLogLine 2 (utcTimestampIsoMillis 0 0) .info ['h', 'i'] []

theorem exec_torn :
    (writeLineLocked {} calmSystem hello).exec { disk := leftOver [0x61] } =
      (.ok ⟨gluedLine, .ok ()⟩,
        ⟨leftOver ([0x61] ++ utf8 gluedLine ++ [0x0A]), some ⟨leftCurrent, 1, 2, []⟩, 5, 0⟩) := by
  rfl

theorem exec_undecodable (calls : ℕ) :
    (writeLineLocked {} calmSystem hello).exec { disk := leftOver [0xFF], calls } =
      (.error .invalidUtf8, { disk := leftOver [0xFF], calls := calls + 3 }) := by
  rfl

theorem run_undecodable (count : ℕ) :
    ∃ calls, Run (logStep {} calmSystem) Always { disk := leftOver [0xFF] }
      (List.replicate count (.log hello)) { disk := leftOver [0xFF], calls } := by
  induction count with
  | zero => exact ⟨0, .refl _⟩
  | succ count ih =>
      obtain ⟨calls, hrun⟩ := ih
      refine ⟨calls + 3, ?_⟩
      rw [List.replicate_succ']
      refine hrun.tail ?_ trivial
      rw [logStep, if_pos (by decide), exec_undecodable]

/-- The line is glued to a torn one, and behind a byte that is not UTF-8 no call ever
writes again. -/
theorem writeLineLocked_not_served :
    ¬ Served {} calmSystem hello { disk := leftOver [0x61] } ∧
      ∀ count, ∃ s', Run (logStep {} calmSystem) Always { disk := leftOver [0xFF] }
        (List.replicate count (.log hello)) s' ∧ ¬ Served {} calmSystem hello s' := by
  constructor
  · rw [Served, exec_torn]
    rintro ⟨-, active, bytes, hactive, hbytes, -, before, hown, hends⟩
    cases hactive
    have hglued : (leftOver ([0x61] ++ utf8 gluedLine ++ [0x0A])).lookup leftCurrent =
        some ([0x61] ++ utf8 gluedLine ++ [0x0A]) := AList.lookup_insert _
    cases hglued.symm.trans hbytes
    obtain rfl : [0x61] = before :=
      List.append_cancel_right (List.append_cancel_right hown)
    exact absurd (hends 0x61 rfl) (by decide)
  · intro count
    obtain ⟨calls, hrun⟩ := run_undecodable count
    refine ⟨_, hrun, ?_⟩
    rw [Served, exec_undecodable]
    rintro ⟨io, ⟨⟩⟩

end Upriv.Logging.Raw
