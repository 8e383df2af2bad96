import Upriv.Logging.Segments

/-!
# The invariant of the log directory

It holds while the sequence numbers last and while the year has four digits.
-/

namespace Upriv.Logging

structure LogInvariant (config : LogConfig) (s : LogState) : Prop where
  one_current : (s.dir.filter fun file => IsCurrent file.name).length ≤ 1
  /-- The lines of a file carry the indices `1, 2, …`. -/
  indexed : ∀ file ∈ s.dir, ∃ entries : List LogEntry,
    bufLines file.text = entries.mapIdx (fun i entry => entry.line (i + 1)) ∧
      entries.length ≤ config.effectiveEntriesPerFile
  current_newest : ∀ file ∈ s.dir, ∀ other ∈ s.dir,
    IsCurrent file.name → ¬ IsCurrent other.name →
      ∃ seq seq', logSeq file.name = some seq ∧ logSeq other.name = some seq' ∧ seq' < seq
  /-- Read by sequence number, the lines come in the order in which they were
  written. -/
  in_order : ∀ files : LogsDir, files.Perm s.dir →
    files.Pairwise (fun a b => (logSeq a.name).getD 0 ≤ (logSeq b.name).getD 0) →
      (files.flatMap fun file => bufLines file.text).Sublist s.written

/-- The clock shows a year of four digits. -/
def InCalendar (_ : LogState) (e : LogEvent) (_ : LogState) : Prop :=
  match e with
  | .log call => call.stampSeconds < YEAR_10000
  | _ => True

instance (s : LogState) (e : LogEvent) (s' : LogState) : Decidable (InCalendar s e s') :=
  match e with
  | .log call => inferInstanceAs (Decidable (call.stampSeconds < YEAR_10000))
  | .release _ => isTrue trivial
  | .remove _ => isTrue trivial
  | .restart => isTrue trivial

/-! ## What segments say about files -/

section
variable {limit rotations : ℕ} {written : List (List Char)} {segs init : List Segment}
  {seg : Segment}

theorem Journal.one_current (h : Journal limit rotations written segs) :
    ((segmentsDir segs).filter fun file => IsCurrent file.name).length ≤ 1 := by
  have hfiles : ((segmentsDir segs).filter fun file => IsCurrent file.name) =
      (segs.filter (·.current)).map Segment.file := by
    rw [segmentsDir, List.filter_map]
    congr 1
    apply List.filter_congr
    intro other _
    rw [Function.comp_apply, Segment.file, Bool.eq_iff_iff, decide_eq_true_iff]
    exact Segment.isCurrent_name
  rw [hfiles, List.length_map]
  by_cases hcurrent : ∃ other ∈ segs, other.current = true
  · obtain ⟨other, hother, hcurrent⟩ := hcurrent
    obtain ⟨init, rfl⟩ := h.exists_append hother hcurrent
    have hinit : init.filter (·.current) = [] := by
      rw [List.filter_eq_nil_iff]
      intro first hfirst
      rw [(h.ordered_init first hfirst).2]
      exact Bool.false_ne_true
    rw [List.filter_append, hinit, List.nil_append]
    exact List.length_filter_le _ _
  · have hnone : segs.filter (·.current) = [] := by
      rw [List.filter_eq_nil_iff]
      intro other hother hothers
      exact hcurrent ⟨other, hother, hothers⟩
    rw [hnone]
    exact Nat.zero_le _

theorem Journal.in_order (h : Journal limit rotations written segs) {files : LogsDir}
    (hperm : files.Perm (segmentsDir segs))
    (hsorted : files.Pairwise fun a b =>
      (logSeq a.name).getD 0 ≤ (logSeq b.name).getD 0) :
    (files.flatMap fun file => bufLines file.text).Sublist written := by
  have hsegs : (segmentsDir segs).Pairwise fun a b =>
      (logSeq a.name).getD 0 ≤ (logSeq b.name).getD 0 := by
    rw [segmentsDir, List.pairwise_map]
    refine h.ordered.imp ?_
    intro a b hlt
    simp only [Segment.file, Segment.logSeq_name, Option.getD_some]
    exact UInt32.le_of_lt hlt.1
  have hfiles : files = segmentsDir segs := by
    refine hperm.eq_of_pairwise ?_ hsorted hsegs
    intro a b ha hb hab hba
    obtain ⟨first, hfirst, rfl⟩ := List.mem_map.mp (hperm.mem_iff.mp ha)
    obtain ⟨second, hsecond, rfl⟩ := List.mem_map.mp hb
    simp only [Segment.file, Segment.logSeq_name, Option.getD_some] at hab hba
    rw [h.eq_of_seq_eq hfirst hsecond (UInt32.le_antisymm hab hba)]
  have hlines : (segmentsDir segs).flatMap (fun file => bufLines file.text) =
      segs.flatMap Segment.lines := by
    rw [segmentsDir, List.flatMap_map]
    exact List.flatMap_congr fun other _ => Segment.bufLines_file
  rw [hfiles, hlines]
  exact h.lines

theorem Journal.logInvariant {config : LogConfig} {s : LogState}
    (h : Journal config.effectiveEntriesPerFile s.rotations s.written segs)
    (hdir : s.dir = segmentsDir segs) : LogInvariant config s where
  one_current := by
    rw [hdir]
    exact h.one_current
  indexed := by
    intro file hfile
    rw [hdir] at hfile
    obtain ⟨other, hother, rfl⟩ := List.mem_map.mp hfile
    exact ⟨other.entries, Segment.bufLines_file, h.short other hother⟩
  current_newest := by
    intro file hfile other hother hcurrent hnot
    rw [hdir] at hfile hother
    obtain ⟨newest, hnewest, rfl⟩ := List.mem_map.mp hfile
    obtain ⟨older, holder, rfl⟩ := List.mem_map.mp hother
    refine ⟨newest.seq, older.seq, Segment.logSeq_name, Segment.logSeq_name, ?_⟩
    obtain ⟨init, rfl⟩ := h.exists_append hnewest (Segment.isCurrent_name.mp hcurrent)
    rcases List.mem_append.mp holder with hinit | hlast
    · exact (h.ordered_init older hinit).1
    · rw [List.mem_singleton.mp hlast] at hnot
      exact absurd hcurrent hnot
  in_order := by
    intro files hperm hsorted
    rw [hdir] at hperm
    exact h.in_order hperm hsorted

/-! ## One call of `log` -/

/-- The segment of a file that a call creates. -/
def newSegment (call : LogCall) (seq : UInt32) (hclock : call.stampSeconds < YEAR_10000) :
    Segment where
  seq := seq
  stamp := utcFilenameStamp call.stampSeconds
  current := true
  entries := []
  isStamp := isStamp_utcFilenameStamp hclock

variable {config : LogConfig} {call : LogCall}

theorem createActiveFile_new {seq : UInt32} (hclock : call.stampSeconds < YEAR_10000)
    (hfresh : ∀ other ∈ segs, other.seq ≠ seq) :
    createActiveFile call seq (segmentsDir segs) =
      some ((newSegment call seq hclock).activeFile,
        segmentsDir (segs ++ [newSegment call seq hclock])) :=
  @createActiveFile_segmentsDir segs (newSegment call seq hclock) call rfl rfl rfl hfresh

theorem openOrCreateActive_segmentsDir (hclock : call.stampSeconds < YEAR_10000)
    (h : Journal limit rotations written segs) (hrotations : rotations + 1 < UInt32.size) :
    ∃ init seg, openOrCreateActive call (segmentsDir segs) =
        (some seg.activeFile, segmentsDir (init ++ [seg])) ∧
      seg.current = true ∧ Journal limit rotations written (init ++ [seg]) := by
  unfold openOrCreateActive
  by_cases hcurrent : ∃ other ∈ segs, other.current = true
  · obtain ⟨seg, hseg, hcurrent⟩ := hcurrent
    obtain ⟨init, rfl⟩ := h.exists_append hseg hcurrent
    rw [tryResumeCurrent_current call h hcurrent]
    exact ⟨init, seg, rfl, hcurrent, h⟩
  · push Not at hcurrent
    have harchived : ∀ other ∈ segs, other.current = false := by
      intro other hother
      exact Bool.eq_false_iff.mpr (hcurrent other hother)
    have hseqs : ∀ other ∈ segs, other.seq.toNat ≤ rotations := by
      intro other hother
      have hseq := h.seqs other hother
      rwa [harchived other hother, Bool.toNat_false, Nat.add_zero] at hseq
    obtain ⟨hle, hlt⟩ := nextSequenceNumber_segmentsDir call hseqs hrotations
    rw [tryResumeCurrent_archived call harchived]
    dsimp only
    rw [createActiveFile_new hclock fun other hother => UInt32.ne_of_lt (hlt other hother)]
    refine ⟨segs, _, rfl, rfl, ?_⟩
    exact h.create (fun other hother => ⟨hlt other hother, harchived other hother⟩) rfl rfl hle

/-- A rotation archives the current segment, prunes, and begins the next one. -/
theorem rotateActive_segmentsDir (config : LogConfig)
    (hclock : call.stampSeconds < YEAR_10000)
    (h : Journal limit rotations written (init ++ [seg])) (hcurrent : seg.current = true)
    (hfresh : ∀ other ∈ init ++ [seg], other.seq ≠ seg.seq + 1) :
    ∃ kept, kept.Sublist (init ++ [seg.archived]) ∧
      pruneOldFiles config call (segmentsDir (init ++ [seg.archived])) = segmentsDir kept ∧
      rotateActive config call seg.activeFile (segmentsDir (init ++ [seg])) =
        (some (newSegment call (seg.seq + 1) hclock).activeFile,
          segmentsDir (kept ++ [newSegment call (seg.seq + 1) hclock])) := by
  obtain ⟨kept, hsub, hprune⟩ :=
    @pruneOldFiles_segmentsDir (init ++ [seg.archived]) config call
  refine ⟨kept, hsub, hprune, ?_⟩
  have hrename : (segmentsDir (init ++ [seg])).rename seg.activeFile.name
      (archiveCurrentName seg.activeFile.name) = segmentsDir (init ++ [seg.archived]) := by
    rw [Segment.activeFile, Segment.archiveCurrentName_name hcurrent]
    exact rename_segmentsDir h hcurrent
  have hkept : ∀ other ∈ kept, other.seq ≠ seg.seq + 1 := by
    intro other hother
    rcases List.mem_append.mp (hsub.subset hother) with hinit | hlast
    · exact hfresh other (List.mem_append_left _ hinit)
    · rw [List.mem_singleton.mp hlast]
      exact hfresh seg (List.mem_append_right _ List.mem_cons_self)
  have hseq : seg.activeFile.seq = seg.seq := rfl
  unfold rotateActive
  dsimp only
  rw [hrename, hprune, hseq, createActiveFile_new hclock hkept]

theorem rotateActive_journal (config : LogConfig)
    (hclock : call.stampSeconds < YEAR_10000)
    (h : Journal limit rotations written (init ++ [seg])) (hcurrent : seg.current = true)
    (hrotations : rotations + 2 < UInt32.size) :
    ∃ init' seg', rotateActive config call seg.activeFile (segmentsDir (init ++ [seg])) =
        (some seg'.activeFile, segmentsDir (init' ++ [seg'])) ∧
      seg'.current = true ∧ seg'.entries = [] ∧
      Journal limit (rotations + 1) written (init' ++ [seg']) := by
  have hseq := h.seqs seg (List.mem_append_right _ List.mem_cons_self)
  rw [hcurrent, Bool.toNat_true] at hseq
  have hnext : (seg.seq + 1).toNat = seg.seq.toNat + 1 := toNat_add_one (by omega)
  have hbelow : ∀ other ∈ init ++ [seg.archived],
      other.seq < seg.seq + 1 ∧ other.current = false := by
    intro other hother
    rcases List.mem_append.mp hother with hinit | hlast
    · have hlt := h.ordered_init other hinit
      refine ⟨?_, hlt.2⟩
      have hlt' := UInt32.lt_iff_toNat_lt.mp hlt.1
      rw [UInt32.lt_iff_toNat_lt, hnext]
      omega
    · rw [List.mem_singleton.mp hlast]
      refine ⟨?_, rfl⟩
      rw [UInt32.lt_iff_toNat_lt, hnext]
      exact Nat.lt_succ_self _
  have hfresh : ∀ other ∈ init ++ [seg], other.seq ≠ seg.seq + 1 := by
    intro other hother
    rcases List.mem_append.mp hother with hinit | hlast
    · exact UInt32.ne_of_lt (hbelow other (List.mem_append_left _ hinit)).1
    · rw [List.mem_singleton.mp hlast]
      exact UInt32.ne_of_lt (hbelow _ (List.mem_append_right _ List.mem_cons_self)).1
  obtain ⟨kept, hsub, -, hrotate⟩ := rotateActive_segmentsDir config hclock h hcurrent hfresh
  refine ⟨kept, _, hrotate, rfl, rfl, ?_⟩
  refine (h.archive.sublist hsub).create ?_ rfl rfl ?_
  · intro other hother
    exact hbelow other (hsub.subset hother)
  · have hnew : (newSegment call (seg.seq + 1) hclock).seq = seg.seq + 1 := rfl
    rw [hnew, hnext]
    omega

/-- The directory is a journal, and a handle whose file is there counts its
lines. -/
def WriterInv (config : LogConfig) (s : LogState) : Prop :=
  ∃ segs, s.dir = segmentsDir segs ∧
    Journal config.effectiveEntriesPerFile s.rotations s.written segs ∧
    ∀ file ∈ s.active, ∀ seg ∈ segs, seg.name = file.name →
      seg.current = true ∧ seg.activeFile = file

/-- Before a line is written there is a current segment with room for it. -/
theorem activeForWrite_journal {s : LogState} (hinv : WriterInv config s)
    (hclock : call.stampSeconds < YEAR_10000)
    (hrotations : s.rotations +
      (activeForWrite config call s.active s.dir).2.2.toNat < UInt32.size - 1) :
    ∃ init seg rotated, activeForWrite config call s.active s.dir =
        (some seg.activeFile, segmentsDir (init ++ [seg]), rotated) ∧
      seg.current = true ∧ seg.entries.length < config.effectiveEntriesPerFile ∧
      Journal config.effectiveEntriesPerFile (s.rotations + rotated.toNat) s.written
        (init ++ [seg]) := by
  obtain ⟨segs, hdir, hjournal, hactive⟩ := hinv
  have hlimit : 0 < config.effectiveEntriesPerFile := by
    unfold LogConfig.effectiveEntriesPerFile
    split
    · omega
    · rename_i hne
      have hpos : 0 < config.entriesPerFile.toNat := by
        rw [Nat.pos_iff_ne_zero]
        intro hzero
        exact hne (UInt32.toNat_inj.mp hzero)
      omega
  -- the file of the handle, or the one that is opened
  have hopened : ∃ init seg, openForWrite call s.active s.dir =
        (some seg.activeFile, segmentsDir (init ++ [seg])) ∧ seg.current = true ∧
      Journal config.effectiveEntriesPerFile s.rotations s.written (init ++ [seg]) := by
    unfold openForWrite
    cases hfilter : s.active.filter fun file => s.dir.exists_ file.name with
    | none =>
        rw [hdir]
        exact openOrCreateActive_segmentsDir hclock hjournal (by omega)
    | some file =>
        obtain ⟨hfile, hexists⟩ := Option.filter_eq_some_iff.mp hfilter
        rw [hdir, exists_segmentsDir] at hexists
        obtain ⟨seg, hseg, hname⟩ := hexists
        obtain ⟨hcurrent, rfl⟩ := hactive file hfile seg hseg hname
        obtain ⟨init, rfl⟩ := hjournal.exists_append hseg hcurrent
        exact ⟨init, seg, by rw [hdir], hcurrent, hjournal⟩
  obtain ⟨init, seg, hopen, hcurrent, hjournal'⟩ := hopened
  unfold activeForWrite at hrotations ⊢
  dsimp only at hrotations ⊢
  rw [hopen] at hrotations ⊢
  dsimp only at hrotations ⊢
  split
  · rename_i hfull
    rw [if_pos hfull, Bool.toNat_true] at hrotations
    have hnext : s.rotations + 2 < UInt32.size := by omega
    obtain ⟨init', seg', hrotate, hcurrent', hempty, hjournal''⟩ :=
      rotateActive_journal config hclock hjournal' hcurrent hnext
    rw [hrotate]
    exact ⟨init', seg', true, rfl, hcurrent', by rwa [hempty], hjournal''⟩
  · rename_i hroom
    exact ⟨init, seg, false, rfl, hcurrent, not_le.mp hroom, hjournal'⟩

theorem writerInv_log {s : LogState} (hinv : WriterInv config s)
    (hclock : call.stampSeconds < YEAR_10000)
    (hrotations : s.rotations +
      (writeLineLocked config call s.active s.dir).rotated.toNat < UInt32.size - 1) :
    let w := writeLineLocked config call s.active s.dir
    WriterInv config {
      dir := w.dir
      active := w.active
      written := s.written ++ w.line.toList
      rotations := s.rotations + w.rotated.toNat } := by
  have hsame : (writeLineLocked config call s.active s.dir).rotated =
      (activeForWrite config call s.active s.dir).2.2 := by
    unfold writeLineLocked
    split <;> rename_i hactive <;> rw [hactive]
  rw [hsame] at hrotations
  obtain ⟨init, seg, rotated, hactive, hcurrent, hroom, hjournal⟩ :=
    activeForWrite_journal hinv hclock hrotations
  intro w
  have hw : w = {
      active := some (seg.push call.entry).activeFile
      dir := segmentsDir (init ++ [seg.push call.entry])
      line := some (call.entry.line (seg.entries.length + 1))
      rotated := rotated } := by
    have happend := append_segmentsDir (fun other hother =>
      UInt32.ne_of_lt (hjournal.ordered_init other hother).1) call.entry
    change writeLineLocked config call s.active s.dir = _
    unfold writeLineLocked
    rw [hactive, Segment.activeFile_push, ← happend]
    rfl
  rw [hw]
  refine ⟨init ++ [seg.push call.entry], rfl, hjournal.push hroom call.entry, ?_⟩
  intro file hfile other hother hname
  obtain rfl : (seg.push call.entry).activeFile = file := Option.some.inj hfile
  have hsame : other = seg.push call.entry :=
    (hjournal.push hroom call.entry).eq_of_seq_eq hother
      (List.mem_append_right _ List.mem_cons_self) (Segment.seq_of_name_eq hname)
  rw [hsame]
  exact ⟨hcurrent, rfl⟩

end

/-! ## Every run -/

section
variable {config : LogConfig}

theorem rotations_le {s s' : LogState} {e : LogEvent} (hstep : logStep config s e = some s') :
    s.rotations ≤ s'.rotations := by
  cases e with
  | log call =>
      rw [logStep] at hstep
      split at hstep <;> cases hstep
      · exact Nat.le_add_right _ _
      · exact le_refl _
  | release filename => cases hstep; exact le_refl _
  | remove filename => cases hstep; exact le_refl _
  | restart => cases hstep; exact le_refl _

theorem writerInv_step {s s' : LogState} {e : LogEvent} (hinv : WriterInv config s)
    (hstep : logStep config s e = some s') (hclock : InCalendar s e s')
    (hrotations : s'.rotations < UInt32.size - 1) : WriterInv config s' := by
  cases e with
  | log call =>
      rw [logStep] at hstep
      split at hstep <;> cases hstep
      · exact writerInv_log hinv hclock hrotations
      · exact hinv
  | release filename =>
      cases hstep
      obtain ⟨segs, hdir, hjournal, hactive⟩ := hinv
      refine ⟨segs, hdir, hjournal, ?_⟩
      intro file hfile
      exact hactive file (Option.filter_eq_some_iff.mp hfile).1
  | remove filename =>
      cases hstep
      obtain ⟨segs, hdir, hjournal, hactive⟩ := hinv
      refine ⟨segs.filter fun seg => seg.name ≠ filename, ?_, ?_, ?_⟩
      · rw [hdir]
        exact remove_segmentsDir filename
      · exact hjournal.sublist List.filter_sublist
      · intro file hfile seg hseg
        exact hactive file hfile seg (List.mem_of_mem_filter hseg)
  | restart =>
      cases hstep
      obtain ⟨segs, hdir, hjournal, -⟩ := hinv
      refine ⟨segs, hdir, hjournal, ?_⟩
      intro file hfile
      cases hfile

/-- From an empty directory, while the year has four digits and there were fewer
than `2 ^ 32 - 1` rotations. -/
theorem logInvariant_run {es : List LogEvent} {s : LogState}
    (hrun : Run (logStep config) InCalendar {} es s)
    (hrotations : s.rotations < UInt32.size - 1) : LogInvariant config s := by
  have hinv : s.rotations < UInt32.size - 1 → WriterInv config s := by
    refine hrun.invariant (fun s => s.rotations < UInt32.size - 1 → WriterInv config s) ?_ ?_
    · intro _
      exact ⟨[], rfl, .nil, nofun⟩
    · intro s e s' ih hstep hclock hrotations
      have hbefore := rotations_le hstep
      exact writerInv_step (ih (by omega)) hstep hclock hrotations
  obtain ⟨segs, hdir, hjournal, -⟩ := hinv hrotations
  exact hjournal.logInvariant hdir

end

/-! ## Concrete runs -/

/-- Two lines a file, and everything is kept. -/
def twoLineConfig : LogConfig := { entriesPerFile := 2, keepLastEntries := 0 }

def sampleEntry : LogEntry := ⟨0, 0, .info, ['x'], []⟩

def sampleCall (stampSeconds : ℕ) : LogCall where
  entry := sampleEntry
  stampSeconds := stampSeconds
  readDir := List.reverse
  counted _ := 0
  readDir_perm dir := dir.reverse_perm

/-- The third line goes to a second file; then the first one is deleted. -/
def sampleEvents : List LogEvent :=
  [.log (sampleCall 0), .log (sampleCall 0), .log (sampleCall 1), .restart] ++
  deleteSessionLogFiles [archivedLogName 1 (utcFilenameStamp 0)]

theorem logInvariant_run_sample :
    ∃ s, Run (logStep twoLineConfig) InCalendar {} sampleEvents s ∧
      s.dir.map (fun file => (bufLines file.text).length) = [1] ∧
      s.written.length = 3 ∧ s.rotations = 1 ∧ LogInvariant twoLineConfig s := by
  obtain ⟨s, hrun, htest⟩ := exists_run_of_execute (logStep twoLineConfig) InCalendar
    sampleEvents {}
    (fun s => decide (s.dir.map (fun file => (bufLines file.text).length) = [1] ∧
      s.written.length = 3 ∧ s.rotations = 1))
    (by decide +kernel)
  obtain ⟨hlines, hwritten, hrotations⟩ := of_decide_eq_true htest
  exact ⟨s, hrun, hlines, hwritten, hrotations,
    logInvariant_run hrun (by rw [hrotations]; decide)⟩

/-- One line a file, and everything is kept. -/
def oneLineConfig : LogConfig := { entriesPerFile := 1, keepLastEntries := 0 }

section
variable {n : ℕ} {written : List (List Char)} {init : List Segment} {seg : Segment}

/-- When the file is full, a line goes to the next one. -/
theorem writeLineLocked_full (h : Journal 1 n written (init ++ [seg]))
    (hcurrent : seg.current = true) (hfull : seg.entries.length = 1)
    (hfresh : ∀ other ∈ init ++ [seg], other.seq ≠ seg.seq + 1) :
    ∃ next : Segment, next.current = true ∧ next.seq = seg.seq + 1 ∧
      next.entries.length = 1 ∧
      (Journal 1 (n + 1) written (init ++ [seg.archived] ++ [{ next with entries := [] }]) →
        Journal 1 (n + 1) (written ++ [sampleEntry.line 1])
          (init ++ [seg.archived] ++ [next])) ∧
      writeLineLocked oneLineConfig (sampleCall 0) (some seg.activeFile)
          (segmentsDir (init ++ [seg])) = {
        active := some next.activeFile
        dir := segmentsDir (init ++ [seg.archived] ++ [next])
        line := some (sampleEntry.line 1)
        rotated := true } := by
  have hclock : (sampleCall 0).stampSeconds < YEAR_10000 := by decide
  obtain ⟨kept, -, hprune, hrotate⟩ :=
    rotateActive_segmentsDir oneLineConfig hclock h hcurrent hfresh
  have hkept : segmentsDir kept = segmentsDir (init ++ [seg.archived]) := hprune.symm
  have hthere : (segmentsDir (init ++ [seg])).exists_ seg.activeFile.name = true :=
    exists_segmentsDir.mpr ⟨seg, List.mem_append_right _ List.mem_cons_self, rfl⟩
  have hlimit : oneLineConfig.effectiveEntriesPerFile ≤ seg.activeFile.lineIndex :=
    hfull.ge
  have harchived : ∀ other ∈ init ++ [seg.archived],
      other.seq ≠ (newSegment (sampleCall 0) (seg.seq + 1) hclock).seq := by
    intro other hother
    rcases List.mem_append.mp hother with hinit | hlast
    · exact hfresh other (List.mem_append_left _ hinit)
    · rw [List.mem_singleton.mp hlast]
      exact hfresh seg (List.mem_append_right _ List.mem_cons_self)
  refine ⟨(newSegment (sampleCall 0) (seg.seq + 1) hclock).push sampleEntry, rfl, rfl, rfl,
    fun hjournal => hjournal.push Nat.one_pos sampleEntry, ?_⟩
  have hactive : activeForWrite oneLineConfig (sampleCall 0) (some seg.activeFile)
      (segmentsDir (init ++ [seg])) =
      (some (newSegment (sampleCall 0) (seg.seq + 1) hclock).activeFile,
        segmentsDir (init ++ [seg.archived] ++
          [newSegment (sampleCall 0) (seg.seq + 1) hclock]), true) := by
    unfold activeForWrite openForWrite
    rw [Option.filter_some, if_pos hthere]
    dsimp only
    rw [if_pos hlimit, hrotate]
    simp only [segmentsDir, List.map_append] at hkept ⊢
    rw [hkept]
  unfold writeLineLocked
  rw [hactive, ← append_segmentsDir harchived, Segment.activeFile_push]
  rfl

/-- After `n` rotations. -/
def Filled (n : ℕ) (s : LogState) (init : List Segment) (seg : Segment) : Prop :=
  s.dir = segmentsDir (init ++ [seg]) ∧ s.active = some seg.activeFile ∧ s.rotations = n ∧
    Journal 1 n s.written (init ++ [seg]) ∧ seg.current = true ∧
    seg.entries.length = 1 ∧ seg.seq.toNat = n + 1 ∧
    ∀ other ∈ init ++ [seg], 0 < other.seq.toNat

theorem filled_step {s : LogState} (h : Filled n s init seg) (hn : n + 1 < UInt32.size) :
    ∃ s' next, logStep oneLineConfig s (.log (sampleCall 0)) = some s' ∧
      s'.dir = segmentsDir (init ++ [seg.archived] ++ [next]) ∧ s'.rotations = n + 1 ∧
      next.current = true ∧ next.seq = seg.seq + 1 ∧
      (n + 2 < UInt32.size → Filled (n + 1) s' (init ++ [seg.archived]) next) := by
  obtain ⟨hdir, hactive, hrotations, hjournal, hcurrent, hlength, hseq, hpos⟩ := h
  have hnext : (seg.seq + 1).toNat = (n + 2) % UInt32.size := by
    have hadd := UInt32.toNat_add seg.seq 1
    rwa [UInt32.toNat_one, hseq] at hadd
  have hle : ∀ other ∈ init ++ [seg], other.seq.toNat ≤ n + 1 := by
    intro other hother
    rcases List.mem_append.mp hother with hinit | hlast
    · have hlt := UInt32.lt_iff_toNat_lt.mp (hjournal.ordered_init other hinit).1
      omega
    · rw [List.mem_singleton.mp hlast, hseq]
  have hfresh : ∀ other ∈ init ++ [seg], other.seq ≠ seg.seq + 1 := by
    intro other hother hsame
    have hother₁ := hle other hother
    have hother₂ := hpos other hother
    rw [hsame, hnext] at hother₁ hother₂
    by_cases hlast : n + 2 = UInt32.size
    · rw [hlast, Nat.mod_self] at hother₂
      exact Nat.lt_irrefl 0 hother₂
    · rw [Nat.mod_eq_of_lt (by omega)] at hother₁
      omega
  obtain ⟨next, hcurrent', hseq', hlength', hpush, hwrite⟩ :=
    writeLineLocked_full hjournal hcurrent hlength hfresh
  have hstep : logStep oneLineConfig s (.log (sampleCall 0)) = some {
      dir := segmentsDir (init ++ [seg.archived] ++ [next])
      active := some next.activeFile
      written := s.written ++ [sampleEntry.line 1]
      rotations := n + 1 } := by
    rw [logStep, if_pos (by decide), hdir, hactive, hwrite, hrotations]
    rfl
  refine ⟨_, next, hstep, rfl, rfl, hcurrent', hseq', ?_⟩
  intro hbound
  rw [Nat.mod_eq_of_lt hbound] at hnext
  have harchived : ∀ other ∈ init ++ [seg.archived],
      other.seq.toNat < n + 2 ∧ 0 < other.seq.toNat ∧ other.current = false := by
    intro other hother
    rcases List.mem_append.mp hother with hinit | hlast
    · have hmem := List.mem_append_left [seg] hinit
      exact ⟨Nat.lt_succ_of_le (hle other hmem), hpos other hmem,
        (hjournal.ordered_init other hinit).2⟩
    · rw [List.mem_singleton.mp hlast]
      have hmem : seg ∈ init ++ [seg] := List.mem_append_right _ List.mem_cons_self
      exact ⟨Nat.lt_succ_of_le (hle seg hmem), hpos seg hmem, rfl⟩
  refine ⟨rfl, rfl, rfl, hpush ?_, hcurrent', hlength', by rw [hseq', hnext], ?_⟩
  · refine hjournal.archive.create ?_ hcurrent' rfl ?_
    · intro other hother
      refine ⟨?_, (harchived other hother).2.2⟩
      rw [UInt32.lt_iff_toNat_lt, hseq', hnext]
      exact (harchived other hother).1
    · rw [hseq', hnext]
  · intro other hother
    rcases List.mem_append.mp hother with hold | hlast
    · exact (harchived other hold).2.1
    · rw [List.mem_singleton.mp hlast, hseq', hnext]
      omega

theorem filled_first : ∃ s seg,
    logStep oneLineConfig {} (.log (sampleCall 0)) = some s ∧ Filled 0 s [] seg := by
  have hclock : (sampleCall 0).stampSeconds < YEAR_10000 := by decide
  have hfirst : Journal 1 0 [] ([] ++ [newSegment (sampleCall 0) 1 hclock]) :=
    Journal.nil.create (by simp) rfl rfl (le_refl 1)
  have hopen : openForWrite (sampleCall 0) none [] =
      (some (newSegment (sampleCall 0) 1 hclock).activeFile,
        segmentsDir ([] ++ [newSegment (sampleCall 0) 1 hclock])) := by
    have hcreate := @createActiveFile_new [] (sampleCall 0) 1 hclock (by simp)
    have hnext : nextSequenceNumber (sampleCall 0) [] = 1 := by decide
    have hresume := @tryResumeCurrent_archived [] (sampleCall 0) (by simp)
    have hnone : segmentsDir [] = [] := rfl
    rw [hnone] at hcreate hresume
    unfold openForWrite openOrCreateActive
    rw [Option.filter_none]
    dsimp only
    rw [hresume]
    dsimp only
    rw [hnext, hcreate]
  have hwrite : writeLineLocked oneLineConfig (sampleCall 0) none [] = {
      active := some ((newSegment (sampleCall 0) 1 hclock).push sampleEntry).activeFile
      dir := segmentsDir ([] ++ [(newSegment (sampleCall 0) 1 hclock).push sampleEntry])
      line := some (sampleEntry.line 1)
      rotated := false } := by
    have hlimit : ¬ oneLineConfig.effectiveEntriesPerFile ≤ 0 := by decide
    have hroom : ¬ oneLineConfig.effectiveEntriesPerFile ≤
        (newSegment (sampleCall 0) 1 hclock).activeFile.lineIndex := hlimit
    unfold writeLineLocked activeForWrite
    rw [hopen]
    dsimp only
    rw [if_neg hroom]
    dsimp only
    rw [← append_segmentsDir (by simp), Segment.activeFile_push]
    rfl
  have hstep : logStep oneLineConfig {} (.log (sampleCall 0)) = some {
      dir := segmentsDir ([] ++ [(newSegment (sampleCall 0) 1 hclock).push sampleEntry])
      active := some ((newSegment (sampleCall 0) 1 hclock).push sampleEntry).activeFile
      written := [sampleEntry.line 1]
      rotations := 0 } := by
    rw [logStep, if_pos (by decide), hwrite]
    rfl
  refine ⟨_, _, hstep, rfl, rfl, rfl, ?_, rfl, rfl, rfl, ?_⟩
  · exact hfirst.push Nat.one_pos sampleEntry
  · intro other hother
    rw [List.mem_singleton.mp hother]
    exact Nat.one_pos

theorem exists_filled (n : ℕ) (hn : n + 1 < UInt32.size) : ∃ s init seg,
    Run (logStep oneLineConfig) Always {} (List.replicate (n + 1) (.log (sampleCall 0))) s ∧
      Filled n s init seg := by
  induction n with
  | zero =>
      obtain ⟨s, seg, hstep, hfilled⟩ := filled_first
      exact ⟨s, [], seg, .cons hstep trivial (.refl s), hfilled⟩
  | succ n ih =>
      obtain ⟨s, init, seg, hrun, hfilled⟩ := ih (by omega)
      obtain ⟨s', next, hstep, -, -, -, -, hfilled'⟩ := filled_step hfilled (by omega)
      rw [List.replicate_succ']
      exact ⟨s', _, next, hrun.tail hstep trivial, hfilled' hn⟩

end

/-- After `2 ^ 32 - 1` rotations the current file has the number zero.  And a
file that was created in the year 10000 is not resumed after a restart. -/
theorem logInvariant_limits :
    (∃ es s, Run (logStep oneLineConfig) Always {} es s ∧ s.rotations < UInt32.size ∧
      ¬ LogInvariant oneLineConfig s) ∧
    ∃ s, Run (logStep twoLineConfig) Always {}
        [.log (sampleCall YEAR_10000), .restart, .log (sampleCall (YEAR_10000 + 1))] s ∧
      s.rotations = 0 ∧ ¬ LogInvariant twoLineConfig s := by
  constructor
  · have hsize : UInt32.size = 4294967296 := rfl
    obtain ⟨s, init, seg, hrun, hfilled⟩ := exists_filled (UInt32.size - 2) (by omega)
    obtain ⟨s', next, hstep, hdir, hrotations, hcurrent, hseq, -⟩ :=
      filled_step hfilled (by omega)
    refine ⟨_, s', hrun.tail hstep trivial, by omega, ?_⟩
    intro hinv
    have hnew : next.file ∈ s'.dir := by
      rw [hdir]
      exact List.mem_map_of_mem (List.mem_append_right _ List.mem_cons_self)
    have hold : seg.archived.file ∈ s'.dir := by
      rw [hdir]
      exact List.mem_map_of_mem (List.mem_append_left _
        (List.mem_append_right _ List.mem_cons_self))
    have hnot : ¬ IsCurrent seg.archived.name := by
      rw [Segment.isCurrent_name]
      exact Bool.false_ne_true
    obtain ⟨seq, seq', hseq₁, hseq₂, hlt⟩ := hinv.current_newest _ hnew _ hold
      (Segment.isCurrent_name.mpr hcurrent) hnot
    have hzero : next.seq.toNat = 0 := by
      obtain ⟨-, -, -, -, -, -, hlast, -⟩ := hfilled
      have hadd := UInt32.toNat_add seg.seq 1
      rw [hlast, UInt32.toNat_one] at hadd
      rw [hseq, hadd]
      exact Nat.mod_self UInt32.size
    obtain rfl : next.seq = seq := Option.some.inj (Segment.logSeq_name.symm.trans hseq₁)
    have hlt' := UInt32.lt_iff_toNat_lt.mp hlt
    omega
  · obtain ⟨s, hrun, htest⟩ := exists_run_of_execute (logStep twoLineConfig) Always
      [.log (sampleCall YEAR_10000), .restart, .log (sampleCall (YEAR_10000 + 1))] {}
      (fun s => decide (s.rotations = 0 ∧
        (s.dir.filter fun file => IsCurrent file.name).length = 2))
      (by decide +kernel)
    obtain ⟨hrotations, hcurrent⟩ := of_decide_eq_true htest
    refine ⟨s, hrun, hrotations, ?_⟩
    intro hinv
    have hone := hinv.one_current
    omega

end Upriv.Logging
