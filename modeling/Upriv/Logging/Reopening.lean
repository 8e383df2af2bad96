import Upriv.Logging.RawLines
import Upriv.Support.Preserves

/-!
# Opening log files again

Which file is resumed and what is left in it, and what a rotation leaves to write to:
a new file, or the old one when the next cannot be created.
-/

namespace Upriv.Logging.Raw

open FallibleM

section
variable {config : LogConfig} {sys : LogSystem} {n : ℕ} {s : LogState}

/-! ## The current files -/

/-- The current file that is opened again, and what is in it. -/
def Resumes (sys : LogSystem) (disk : LogsDisk) (name : List Char) (bytes : Bytes) : Prop :=
  ∃ seq, (currentFiles (sys.readDir disk)).getLast? = some (seq, name) ∧
    disk.lookup name = some bytes

theorem mem_currentFiles {names : List (List Char)} {file : UInt32 × List Char}
    (h : file ∈ currentFiles names) :
    file.2 ∈ names ∧ ∃ parsed, parseCurrentLogName file.2 = some parsed := by
  rw [currentFiles, List.mem_insertionSort, List.mem_filterMap] at h
  obtain ⟨name, hname, hparse⟩ := h
  obtain ⟨parsed, hparsed, rfl⟩ := Option.map_eq_some_iff.mp hparse
  exact ⟨hname, parsed, hparsed⟩

theorem nodup_currentFiles {names : List (List Char)} (h : names.Nodup) :
    ((currentFiles names).map (·.2)).Nodup := by
  rw [currentFiles, ((List.perm_insertionSort _ _).map _).nodup_iff, List.map_filterMap]
  refine h.filterMap ?_
  intro name name' found hname hname'
  simp only [Option.map_map, Option.mem_def, Option.map_eq_some_iff, Function.comp] at hname hname'
  obtain ⟨_, _, rfl⟩ := hname
  obtain ⟨_, _, rfl⟩ := hname'
  rfl

/-- No other current file is the newest, also not under its archived name. -/
theorem stale_ne_newest {names : List (List Char)} (h : names.Nodup)
    {newest stale : UInt32 × List Char} (hnewest : (currentFiles names).getLast? = some newest)
    (hstale : stale ∈ (currentFiles names).dropLast) :
    stale.2 ≠ newest.2 ∧ archiveCurrentName stale.2 ≠ newest.2 := by
  have hsplit : (currentFiles names).dropLast ++ [newest] = currentFiles names :=
    List.dropLast_append_getLast? newest hnewest
  constructor
  · have hnodup := nodup_currentFiles h
    rw [← hsplit, List.map_append, List.nodup_append] at hnodup
    exact hnodup.2.2 _ (List.mem_map_of_mem hstale) _ (List.mem_singleton_self _)
  · intro harchived
    obtain ⟨-, parsed, hparsed⟩ := mem_currentFiles (List.dropLast_subset _ hstale)
    obtain ⟨-, parsed', hparsed'⟩ := mem_currentFiles (List.mem_of_getLast? hnewest)
    have hcurrent := isCurrent_of_parse hparsed'
    rw [← harchived] at hcurrent
    exact not_isCurrent_archiveCurrentName hparsed hcurrent

theorem exists_resumes {disk : LogsDisk} {newest : UInt32 × List Char}
    (h : (currentFiles (sys.readDir disk)).getLast? = some newest) :
    ∃ bytes, Resumes sys disk newest.2 bytes := by
  obtain ⟨hname, -⟩ := mem_currentFiles (List.mem_of_getLast? h)
  have hmem : newest.2 ∈ disk := (sys.readDir_perm disk).mem_iff.mp hname
  obtain ⟨bytes, hbytes⟩ := Option.isSome_iff_exists.mp (AList.lookup_isSome.mpr hmem)
  exact ⟨bytes, newest.1, h, hbytes⟩

/-! ## Opening -/

theorem ends_renameFile (source target : List Char) (hle : n ≤ s.failed) :
    Ends n (renameFile sys source target) s fun _ s' => ∃ bytes,
      s.disk.lookup source = some bytes ∧
      s'.disk = (s.disk.erase source).insert target bytes ∧ s'.active = s.active := by
  refine ends_osCall hle ?_
  intro u disk h
  cases hbytes : s.disk.lookup source with
  | none =>
      rw [hbytes] at h
      cases h
  | some bytes =>
      rw [hbytes] at h
      cases h
      exact ⟨bytes, rfl, rfl, rfl⟩

theorem ends_archiveStale {stales : List (UInt32 × List Char)} {newest : List Char}
    (h : ∀ stale ∈ stales, stale.2 ≠ newest ∧ archiveCurrentName stale.2 ≠ newest)
    (hle : n ≤ s.failed) :
    Ends n (stales.forM fun stale => renameFile sys stale.2 (archiveCurrentName stale.2)) s
      fun _ s' => s'.disk.lookup newest = s.disk.lookup newest ∧ s'.active = s.active := by
  induction stales generalizing s with
  | nil => exact ends_pure hle ⟨rfl, rfl⟩
  | cons stale stales ih =>
      obtain ⟨hsource, htarget⟩ := h stale List.mem_cons_self
      refine Ends.bind (f := fun _ => stales.forM fun stale =>
        renameFile sys stale.2 (archiveCurrentName stale.2)) (ends_renameFile _ _ hle) ?_
      rintro u s₁ hle₁ ⟨bytes, -, hdisk, hactive⟩
      refine (ih (fun stale' hstale' => h stale' (List.mem_cons_of_mem _ hstale')) hle₁).mono ?_
      rintro u s₂ - ⟨hlookup, hactive'⟩
      refine ⟨?_, hactive'.trans hactive⟩
      rw [hlookup, hdisk, AList.lookup_insert_ne htarget.symm, AList.lookup_erase_ne hsource.symm]

/-- The number of lines, as far as it goes. -/
def cappedLines (text : String) : UInt32 :=
  UInt32.ofNat (min (bufLines text.toList).length (UInt32.size - 1))

theorem ends_readLog (name : List Char) (hle : n ≤ s.failed) :
    Ends n (readLog sys name) s fun bytes s' =>
      s.disk.lookup name = some bytes ∧ s'.disk = s.disk ∧ s'.active = s.active := by
  refine ends_osCall hle ?_
  intro bytes disk h
  cases hbytes : s.disk.lookup name with
  | none =>
      rw [hbytes] at h
      cases h
  | some bytes' =>
      rw [hbytes] at h
      cases h
      exact ⟨rfl, rfl, rfl⟩

theorem ends_countLines {name : List Char} {bytes : Bytes} {text : String}
    (hbytes : s.disk.lookup name = some bytes) (htext : decodeUtf8 bytes = some text)
    (hle : n ≤ s.failed) :
    Ends n (countLines sys name) s fun lines s' =>
      lines = cappedLines text ∧ s'.disk = s.disk ∧ s'.active = s.active := by
  refine (ends_readLog name hle).bind ?_
  rintro bytes' s₁ hle₁ ⟨hread, hdisk, hactive⟩
  obtain rfl : bytes = bytes' := Option.some.inj (hbytes.symm.trans hread)
  rw [htext]
  exact ends_pure hle₁ ⟨rfl, hdisk, hactive⟩

theorem ends_openAppend (name : List Char) (hle : n ≤ s.failed) :
    Ends n (openAppend sys name) s fun _ s' => s'.disk = s.disk ∧ s'.active = s.active := by
  refine ends_osCall hle ?_
  intro u disk h
  split at h
  · cases h
    exact ⟨rfl, rfl⟩
  · cases h

theorem ends_readDir (hle : n ≤ s.failed) :
    Ends n (readDir sys) s fun names s' =>
      names = sys.readDir s.disk ∧ s'.disk = s.disk ∧ s'.active = s.active := by
  refine ends_osCall hle ?_
  rintro names disk ⟨⟩
  exact ⟨rfl, rfl, rfl⟩

/-- The file was resumed as it was found. -/
structure Resumed (sys : LogSystem) (before after : LogsDisk) (active : ActiveFile)
    (bytes : Bytes) (text : String) : Prop where
  resumes : Resumes sys before active.name bytes
  decodes : decodeUtf8 bytes = some text
  lookup : after.lookup active.name = some bytes
  pending : active.pending = []
  lineIndex : active.lineIndex = cappedLines text

/-- Every file that is resumed can be counted. -/
def Countable (sys : LogSystem) (disk : LogsDisk) : Prop :=
  ∀ name bytes, Resumes sys disk name bytes → ∃ text, decodeUtf8 bytes = some text

theorem ends_tryResumeCurrent (h : Countable sys s.disk) (hle : n ≤ s.failed) :
    Ends n (tryResumeCurrent sys) s fun resumed s' =>
      s'.active = s.active ∧ ∀ active, resumed = some active →
        ∃ bytes text, Resumed sys s.disk s'.disk active bytes text := by
  refine (ends_readDir hle).bind ?_
  rintro names s₁ hle₁ ⟨rfl, hdisk, hactive⟩
  have hnames : (sys.readDir s.disk).Nodup :=
    (sys.readDir_perm s.disk).nodup_iff.mpr s.disk.keys_nodup
  dsimp only
  cases hnewest : (currentFiles (sys.readDir s.disk)).getLast? with
  | none => exact ends_pure hle₁ ⟨hactive, nofun⟩
  | some newest =>
      obtain ⟨bytes, hresumes⟩ := exists_resumes hnewest
      obtain ⟨text, htext⟩ := h _ _ hresumes
      refine (ends_archiveStale (fun stale => stale_ne_newest hnames hnewest) hle₁).bind ?_
      rintro u s₂ hle₂ ⟨hlookup₂, hactive₂⟩
      have hbytes : s₂.disk.lookup newest.2 = some bytes := by
        rw [hlookup₂, hdisk, hresumes.choose_spec.2]
      refine (ends_countLines hbytes htext hle₂).bind ?_
      rintro lines s₃ hle₃ ⟨rfl, hdisk₃, hactive₃⟩
      refine (ends_openAppend newest.2 hle₃).bind ?_
      rintro u s₄ hle₄ ⟨hdisk₄, hactive₄⟩
      refine ends_pure hle₄ ⟨by rw [hactive₄, hactive₃, hactive₂, hactive], ?_⟩
      rintro active ⟨⟩
      refine ⟨bytes, text, hresumes, htext, ?_, rfl, rfl⟩
      rw [hdisk₄, hdisk₃, hbytes]

theorem ends_nextSequenceNumber (hle : n ≤ s.failed) :
    Ends n (nextSequenceNumber sys) s fun _ s' => s'.active = s.active :=
  (ends_readDir hle).bind fun _ _ hle₁ h => ends_pure hle₁ h.2.2

theorem ends_createActiveFile (seq : UInt32) (hle : n ≤ s.failed) :
    Ends n (createActiveFile sys seq) s fun active s' =>
      active.seq = seq ∧ Holds s'.disk active [] ∧ s'.active = s.active := by
  refine (ends_get hle).bind ?_
  rintro t s₁ hle₁ ⟨rfl, rfl⟩
  refine Ends.bind (ends_osCall hle₁ fun u disk h => ?_) fun u s₂ hle₂ h =>
    ends_pure hle₂ ⟨rfl, h⟩
  split at h
  · cases h
  · cases h
    exact ⟨⟨[], AList.lookup_insert _, rfl⟩, rfl⟩

/-- A new file, or one that was there. -/
def Fresh (sys : LogSystem) (before after : LogsDisk) (active : ActiveFile) : Prop :=
  Holds after active [] ∨ ∃ bytes text, Resumed sys before after active bytes text

theorem ends_openOrCreateActive (h : Countable sys s.disk) (hle : n ≤ s.failed) :
    Ends n (openOrCreateActive sys) s fun active s' =>
      Fresh sys s.disk s'.disk active ∧ s'.active = s.active := by
  refine (ends_tryResumeCurrent h hle).bind ?_
  rintro resumed s₁ hle₁ ⟨hactive, hresumed⟩
  cases resumed with
  | some active => exact ends_pure hle₁ ⟨.inr (hresumed active rfl), hactive⟩
  | none =>
      refine (ends_nextSequenceNumber hle₁).bind ?_
      intro seq s₂ hle₂ hactive₂
      refine (ends_createActiveFile seq hle₂).mono ?_
      rintro active s₃ - ⟨-, hholds, hactive₃⟩
      exact ⟨.inl hholds, by rw [hactive₃, hactive₂, hactive]⟩

theorem ends_ensureLogsDir (hle : n ≤ s.failed) :
    Ends n (ensureLogsDir sys) s fun _ s' => s'.disk = s.disk := by
  refine ends_osCall hle ?_
  rintro u disk ⟨⟩
  rfl

theorem ends_reopen (h : Countable sys s.disk) (hle : n ≤ s.failed) :
    Ends n (reopen sys) s fun active s' =>
      s'.active = some active ∧ Fresh sys s.disk s'.disk active := by
  refine (ends_ensureLogsDir hle).bind ?_
  intro u s₁ hle₁ hdisk
  refine (ends_openOrCreateActive (hdisk ▸ h) hle₁).bind ?_
  rintro active s₂ hle₂ ⟨hfresh, -⟩
  refine (ends_setActive (some active) hle₂).bind ?_
  rintro u s₃ hle₃ rfl
  exact ends_pure hle₃ ⟨rfl, hdisk ▸ hfresh⟩

/-! ## Rotating -/

/-- The same files. -/
structure SameFiles (s s' : LogState) : Prop where
  disk : s'.disk = s.disk
  failed_le : s.failed ≤ s'.failed

instance : IsPreorder LogState SameFiles where
  refl _ := ⟨rfl, le_refl _⟩
  trans _ _ _ h h' := ⟨h'.disk.trans h.disk, h.failed_le.trans h'.failed_le⟩

/-- Nothing but the removal of files. -/
structure OnlyRemoves (s s' : LogState) : Prop where
  failed_le : s.failed ≤ s'.failed
  files : ∀ name bytes, s'.disk.lookup name = some bytes → s.disk.lookup name = some bytes

instance : IsPreorder LogState OnlyRemoves where
  refl _ := ⟨le_refl _, fun _ _ h => h⟩
  trans _ _ _ h h' := ⟨h.failed_le.trans h'.failed_le, fun _ _ hf => h.files _ _ (h'.files _ _ hf)⟩

theorem SameFiles.onlyRemoves (s s' : LogState) (h : SameFiles s s') : OnlyRemoves s s' where
  failed_le := h.failed_le
  files name bytes hbytes := by rwa [← h.disk]

theorem sameFiles_onError_osCall {α : Type} (f : LogsDisk → Except IoError (α × LogsDisk)) :
    PreservesOnError SameFiles (osCall sys f) := by
  intro s error s' hrun
  simp only [osCall, exec_op] at hrun
  split at hrun
  · cases hrun
  · cases hrun
    exact ⟨rfl, Nat.le_succ _⟩

theorem onlyRemoves_osCall {α : Type} {f : LogsDisk → Except IoError (α × LogsDisk)}
    (h : ∀ disk a disk', f disk = .ok (a, disk') → ∀ name bytes,
      disk'.lookup name = some bytes → disk.lookup name = some bytes) :
    Preserves OnlyRemoves (osCall sys f) := by
  intro s
  rcases hrun : (osCall sys f).exec s with ⟨error | a, s'⟩
  · exact (sameFiles_onError_osCall f _ _ _ hrun).onlyRemoves
  · have hends : Ends s.failed (osCall sys f) s fun a s' => f s.disk = .ok (a, s'.disk) :=
      ends_osCall (le_refl _) fun _ _ hf => hf
    obtain ⟨hle, hf⟩ := hends.ok hrun
    exact ⟨hle, h _ _ _ hf⟩

theorem onlyRemoves_removeFile (name : List Char) :
    Preserves OnlyRemoves (removeFile sys name) := by
  refine onlyRemoves_osCall ?_
  intro disk u disk' h other bytes hbytes
  split at h
  · cases h
    by_cases hname : other = name
    · rw [hname, AList.lookup_erase] at hbytes
      cases hbytes
    · rwa [AList.lookup_erase_ne hname] at hbytes
  · cases h

theorem onlyRemoves_pruneLoop (archived : List ArchivedFile) (totalLines : UInt32) :
    Preserves OnlyRemoves (pruneLoop config sys archived totalLines) := by
  induction archived generalizing totalLines with
  | nil => exact preserves_pure _
  | cons file archived ih =>
      rw [pruneLoop]
      split
      · exact preserves_pure _
      · exact preserves_bind (onlyRemoves_removeFile _) fun _ => ih _

theorem onlyRemoves_pruneOldFiles : Preserves OnlyRemoves (pruneOldFiles config sys) := by
  rw [pruneOldFiles]
  split
  · exact preserves_pure _
  · refine preserves_bind (onlyRemoves_osCall ?_) fun names => ?_
    · rintro disk names disk' ⟨⟩ name bytes hbytes
      exact hbytes
    · exact preserves_bind preserves_get fun s => onlyRemoves_pruneLoop _ _

theorem sameFiles_countLines (name : List Char) : Preserves SameFiles (countLines sys name) := by
  have hread : Preserves SameFiles (readLog sys name) := by
    intro s
    rcases hrun : (readLog sys name).exec s with ⟨error | bytes, s'⟩
    · exact sameFiles_onError_osCall _ _ _ _ hrun
    · obtain ⟨hle, -, hdisk, -⟩ := (ends_readLog name (le_refl s.failed)).ok hrun
      exact ⟨hdisk, hle⟩
  refine preserves_bind hread fun bytes => ?_
  split
  · exact preserves_pure _
  · exact preserves_throw _

theorem sameFiles_onError_createActiveFile (seq : UInt32) :
    PreservesOnError SameFiles (createActiveFile sys seq) :=
  preservesOnError_bind preserves_get fun _ =>
    preservesOnError_bind_of_succeeds (sameFiles_onError_osCall _) fun _ _ => ⟨_, rfl⟩

/-- The next file is new, or there is none, and the old one is written to again. -/
theorem ends_rotateActive {active : ActiveFile} {content : Bytes}
    (h : Holds s.disk active content) (hle : n ≤ s.failed) :
    Ends n (rotateActive config sys active) s fun next s' =>
      next.seq = active.seq + 1 ∧ Holds s'.disk next [] ∨
        (next.name = active.name ∧ next.seq = active.seq) ∧
          Holds s'.disk next content ∧ n < s'.failed := by
  refine (ends_setActive none hle).bind ?_
  rintro u s₁ hle₁ rfl
  obtain ⟨answer, a, s₂, hrun, hwrote, hempty, hholds⟩ :=
    @exec_flushBuf sys active { s with active := none }
  refine ends_congr (exec_bind_of_ok hrun _) ?_
  have hle₂ : n ≤ s₂.failed := hle₁.trans hwrote.failed_le
  cases answer with
  | error e =>
      obtain ⟨hsystem, hlt⟩ := hwrote.error e rfl
      obtain ⟨answer', a', s₃, hrun', hwrote', -, -⟩ := @exec_flushBuf sys a s₂
      exact ends_congr (exec_bind_of_ok hrun' _) (ends_throw hsystem
        (lt_of_lt_of_le (lt_of_le_of_lt hle₁ hlt) hwrote'.failed_le))
  | ok u =>
      obtain ⟨bytes, hbytes, hcontent⟩ := hholds content h
      have hpending : a.pending = [] := hempty rfl
      obtain rfl : bytes = content := by rw [← hcontent, hpending, List.append_nil]
      refine (ends_renameFile a.name (archiveCurrentName a.name) hle₂).bind ?_
      rintro u s₃ hle₃ ⟨bytes', hbytes', hdisk₃, -⟩
      obtain rfl : bytes = bytes' := Option.some.inj (hbytes.symm.trans hbytes')
      have hprune := @onlyRemoves_pruneOldFiles config sys s₃
      refine ends_attempt_bind (Prod.eta _).symm ?_
      generalize ((pruneOldFiles config sys).exec s₃).2 = s₄ at hprune ⊢
      have hle₄ : n ≤ s₄.failed := hle₃.trans hprune.failed_le
      have hcreate := @ends_createActiveFile sys n s₄ (a.seq + 1) hle₄
      rcases hrun₅ : (createActiveFile sys (a.seq + 1)).exec s₄ with ⟨error | next, s₅⟩
      · obtain ⟨hsystem, hlt⟩ := hcreate.error hrun₅
        have hsame₅ := sameFiles_onError_createActiveFile _ _ _ _ hrun₅
        refine ends_attempt_bind hrun₅ ?_
        have hrename := @ends_renameFile sys s₅.failed s₅ (archiveCurrentName a.name) a.name
          (le_refl _)
        rcases hrun₆ : (renameFile sys (archiveCurrentName a.name) a.name).exec s₅ with
          ⟨error' | u, s₆⟩
        · refine ends_attempt_bind hrun₆ (ends_throw hsystem ?_)
          exact hlt.trans (hrename.error hrun₆).2
        · obtain ⟨hle₆, bytes', hbytes', hdisk₆, -⟩ := hrename.ok hrun₆
          refine ends_attempt_bind hrun₆ ?_
          -- What is renamed back is what was archived: pruning adds no file.
          obtain rfl : bytes = bytes' := by
            rw [hsame₅.disk] at hbytes'
            have harchived := hprune.files _ _ hbytes'
            rw [hdisk₃, AList.lookup_insert] at harchived
            exact Option.some.inj harchived
          have hopen := @ends_openAppend sys s₆.failed s₆ a.name (le_refl _)
          rcases hrun₇ : (openAppend sys a.name).exec s₆ with ⟨error' | u, s₇⟩
          · refine ends_attempt_bind hrun₇ (ends_throw hsystem ?_)
            exact (hlt.trans_le hle₆).trans (hopen.error hrun₇).2
          · obtain ⟨hle₇, hdisk₇, -⟩ := hopen.ok hrun₇
            refine ends_attempt_bind hrun₇ ?_
            have hsame₈ := @sameFiles_countLines sys a.name s₇
            refine ends_attempt_bind (Prod.eta _).symm ?_
            generalize ((countLines sys a.name).exec s₇).2 = s₈ at hsame₈ ⊢
            have hlt₈ : n < s₈.failed :=
              hlt.trans_le (hle₆.trans (hle₇.trans hsame₈.failed_le))
            refine (ends_setActive _ hlt₈.le).bind ?_
            rintro u s₉ hle₉ rfl
            refine ends_pure hle₉ (.inr ⟨⟨hwrote.name, hwrote.seq⟩, ⟨bytes, ?_, ?_⟩, hlt₈⟩)
            · rw [hsame₈.disk, hdisk₇, hdisk₆]
              exact AList.lookup_insert _
            · rw [hpending, List.append_nil]
      · obtain ⟨hle₅, hseq, hnext, -⟩ := hcreate.ok hrun₅
        refine ends_attempt_bind hrun₅ ((ends_setActive (some next) hle₅).bind ?_)
        rintro u s₆ hle₆ rfl
        exact ends_pure hle₆ (.inl ⟨hseq.trans (congrArg (· + 1) hwrote.seq), hnext⟩)

end

end Upriv.Logging.Raw
