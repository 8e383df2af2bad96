import Upriv.Logging.Writer
import Mathlib.Data.List.Flatten

/-!
# The log as a list of segments

What the files of the logs directory stand for: segments with rising sequence
numbers, of which only the last may be current.  Every operation of the writer
does to the files what a simple operation does to the segments.
-/

namespace Upriv.Logging

/-! ## Segments -/

structure Segment where
  seq : UInt32
  stamp : List Char
  current : Bool
  entries : List LogEntry
  isStamp : IsStamp stamp

namespace Segment

def name (seg : Segment) : List Char :=
  if seg.current then currentLogName seg.seq seg.stamp else archivedLogName seg.seq seg.stamp

def lines (seg : Segment) : List (List Char) :=
  seg.entries.mapIdx fun i entry => entry.line (i + 1)

def file (seg : Segment) : LogFile :=
  ⟨seg.name, seg.lines.flatMap (· ++ ['\n'])⟩

def archived (seg : Segment) : Segment := { seg with current := false }

def push (seg : Segment) (entry : LogEntry) : Segment :=
  { seg with entries := seg.entries ++ [entry] }

variable {seg other : Segment}

theorem length_lines : seg.lines.length = seg.entries.length := List.length_mapIdx

theorem bufLines_file : bufLines seg.file.text = seg.lines := by
  apply bufLines_flatMap
  intro line hline
  obtain ⟨i, hi, rfl⟩ := List.mem_mapIdx.mp hline
  exact newline_not_mem_line _ _

theorem lines_push (entry : LogEntry) :
    (seg.push entry).lines = seg.lines ++ [entry.line (seg.entries.length + 1)] := by
  simp [lines, push, List.mapIdx_append]

theorem parseCurrent_name :
    parseCurrentLogName seg.name =
      if seg.current then some (seg.seq, seg.stamp) else none := by
  unfold name
  split
  · exact parseCurrentLogName_current seg.isStamp
  · exact parseCurrentLogName_archived

theorem parseArchived_name :
    parseArchivedLogName seg.name =
      if seg.current then none else some (seg.seq, seg.stamp) := by
  unfold name
  split
  · exact parseArchivedLogName_current
  · exact parseArchivedLogName_archived seg.isStamp

theorem logSeq_name : logSeq seg.name = some seg.seq := by
  unfold logSeq
  rw [parseCurrent_name, parseArchived_name]
  cases seg.current <;> rfl

theorem isCurrent_name : IsCurrent seg.name ↔ seg.current = true := by
  unfold name
  split
  · rename_i hcurrent
    exact ⟨fun _ => hcurrent, fun _ => isCurrent_currentLogName⟩
  · rename_i hcurrent
    exact ⟨fun h => absurd h not_isCurrent_archivedLogName, fun h => absurd h hcurrent⟩

theorem seq_of_name_eq (h : seg.name = other.name) : seg.seq = other.seq := by
  have hseq := congrArg logSeq h
  rw [logSeq_name, logSeq_name] at hseq
  exact Option.some.inj hseq

theorem current_of_name_eq (h : seg.name = other.name) : seg.current = other.current := by
  have hcurrent : seg.current = true ↔ other.current = true := by
    rw [← isCurrent_name, ← isCurrent_name, h]
  exact Bool.eq_iff_iff.mpr hcurrent

theorem archiveCurrentName_name (h : seg.current = true) :
    archiveCurrentName seg.name = seg.archived.name := by
  simp [name, archived, h, archiveCurrentName_current]

end Segment

/-! ## The journal -/

/-- The segments of a run with the given rotations and written lines. -/
structure Journal (limit rotations : ℕ) (written : List (List Char))
    (segs : List Segment) : Prop where
  ordered : segs.Pairwise fun a b => a.seq < b.seq ∧ a.current = false
  short : ∀ seg ∈ segs, seg.entries.length ≤ limit
  lines : (segs.flatMap Segment.lines).Sublist written
  seqs : ∀ seg ∈ segs, seg.seq.toNat ≤ rotations + seg.current.toNat

namespace Journal

variable {limit rotations : ℕ} {written : List (List Char)} {segs segs' init : List Segment}
  {seg : Segment}

theorem nil : Journal limit 0 [] [] where
  ordered := .nil
  short := by simp
  lines := .slnil
  seqs := by simp

theorem sublist (h : Journal limit rotations written segs) (hsub : segs'.Sublist segs) :
    Journal limit rotations written segs' where
  ordered := h.ordered.sublist hsub
  short seg hseg := h.short seg (hsub.subset hseg)
  lines := (hsub.flatMap _).trans h.lines
  seqs seg hseg := h.seqs seg (hsub.subset hseg)

/-- The current segment is the last one. -/
theorem exists_append (h : Journal limit rotations written segs) (hseg : seg ∈ segs)
    (hcurrent : seg.current = true) : ∃ init, segs = init ++ [seg] := by
  obtain ⟨init, rest, rfl⟩ := List.append_of_mem hseg
  refine ⟨init, ?_⟩
  rcases rest with _ | ⟨next, rest⟩
  · rfl
  · have hrest := (List.pairwise_append.mp h.ordered).2.1
    have hnot := ((List.pairwise_cons.mp hrest).1 next List.mem_cons_self).2
    rw [hcurrent] at hnot
    cases hnot

theorem ordered_init (h : Journal limit rotations written (init ++ [seg])) :
    ∀ other ∈ init, other.seq < seg.seq ∧ other.current = false := by
  intro other hother
  exact (List.pairwise_append.mp h.ordered).2.2 other hother seg List.mem_cons_self

/-- A segment is known by its sequence number. -/
theorem eq_of_seq_eq (h : Journal limit rotations written segs) {a b : Segment}
    (ha : a ∈ segs) (hb : b ∈ segs) (hseq : a.seq = b.seq) : a = b := by
  have hnodup : (segs.map Segment.seq).Nodup := by
    rw [List.Nodup, List.pairwise_map]
    exact h.ordered.imp fun hlt => UInt32.ne_of_lt hlt.1
  exact List.inj_on_of_nodup_map hnodup ha hb hseq

/-- Archiving the current segment is what a rotation begins with. -/
theorem archive (h : Journal limit rotations written (init ++ [seg])) :
    Journal limit (rotations + 1) written (init ++ [seg.archived]) where
  ordered := by
    rw [List.pairwise_append]
    refine ⟨(List.pairwise_append.mp h.ordered).1, List.pairwise_singleton _ _, ?_⟩
    intro other hother last hlast
    rw [List.mem_singleton.mp hlast]
    exact h.ordered_init other hother
  short := by
    intro other hother
    rcases List.mem_append.mp hother with hinit | hlast
    · exact h.short other (List.mem_append_left _ hinit)
    · rw [List.mem_singleton.mp hlast]
      exact h.short seg (List.mem_append_right _ List.mem_cons_self)
  lines := by
    have hlines := h.lines
    rw [List.flatMap_append] at hlines ⊢
    exact hlines
  seqs := by
    intro other hother
    rcases List.mem_append.mp hother with hinit | hlast
    · have hseq := h.seqs other (List.mem_append_left _ hinit)
      omega
    · rw [List.mem_singleton.mp hlast]
      have hseq := h.seqs seg (List.mem_append_right _ List.mem_cons_self)
      have hle := Bool.toNat_le seg.current
      simp only [Segment.archived, Bool.toNat_false]
      omega

/-- A new current segment behind archived ones. -/
theorem create (h : Journal limit rotations written segs)
    (harchived : ∀ other ∈ segs, other.seq < seg.seq ∧ other.current = false)
    (hcurrent : seg.current = true) (hempty : seg.entries = [])
    (hseq : seg.seq.toNat ≤ rotations + 1) :
    Journal limit rotations written (segs ++ [seg]) where
  ordered := by
    rw [List.pairwise_append]
    refine ⟨h.ordered, List.pairwise_singleton _ _, ?_⟩
    intro other hother last hlast
    rw [List.mem_singleton.mp hlast]
    exact harchived other hother
  short := by
    intro other hother
    rcases List.mem_append.mp hother with hold | hlast
    · exact h.short other hold
    · rw [List.mem_singleton.mp hlast, hempty]
      exact Nat.zero_le _
  lines := by
    have hnone : seg.lines = [] := by rw [Segment.lines, hempty, List.mapIdx_nil]
    rw [List.flatMap_append, List.flatMap_singleton, hnone, List.append_nil]
    exact h.lines
  seqs := by
    intro other hother
    rcases List.mem_append.mp hother with hold | hlast
    · exact h.seqs other hold
    · rw [List.mem_singleton.mp hlast, hcurrent]
      exact hseq

/-- A line goes to the last segment while there is room in it. -/
theorem push (h : Journal limit rotations written (init ++ [seg]))
    (hroom : seg.entries.length < limit) (entry : LogEntry) :
    Journal limit rotations (written ++ [entry.line (seg.entries.length + 1)])
      (init ++ [seg.push entry]) where
  ordered := by
    rw [List.pairwise_append]
    refine ⟨(List.pairwise_append.mp h.ordered).1, List.pairwise_singleton _ _, ?_⟩
    intro other hother last hlast
    rw [List.mem_singleton.mp hlast]
    exact h.ordered_init other hother
  short := by
    intro other hother
    rcases List.mem_append.mp hother with hold | hlast
    · exact h.short other (List.mem_append_left _ hold)
    · rw [List.mem_singleton.mp hlast, Segment.push, List.length_append,
        List.length_singleton]
      omega
  lines := by
    have hlines := h.lines
    rw [List.flatMap_append, List.flatMap_singleton] at hlines ⊢
    rw [Segment.lines_push, ← List.append_assoc]
    exact hlines.append_right _
  seqs := by
    intro other hother
    rcases List.mem_append.mp hother with hold | hlast
    · exact h.seqs other (List.mem_append_left _ hold)
    · rw [List.mem_singleton.mp hlast]
      exact h.seqs seg (List.mem_append_right _ List.mem_cons_self)

end Journal

/-! ## The directory -/

def segmentsDir (segs : List Segment) : LogsDir := segs.map Segment.file

section
variable {limit rotations : ℕ} {written : List (List Char)} {segs init : List Segment}
  {seg : Segment}

theorem exists_segmentsDir {name : List Char} :
    (segmentsDir segs).exists_ name = true ↔ ∃ other ∈ segs, other.name = name := by
  simp [LogsDir.exists_, segmentsDir, Segment.file]

theorem remove_segmentsDir (name : List Char) :
    (segmentsDir segs).remove name =
      segmentsDir (segs.filter fun other => other.name ≠ name) := by
  rw [LogsDir.remove, segmentsDir, List.filter_map]
  rfl

theorem rename_segmentsDir (h : Journal limit rotations written (init ++ [seg]))
    (hcurrent : seg.current = true) :
    (segmentsDir (init ++ [seg])).rename seg.name seg.archived.name =
      segmentsDir (init ++ [seg.archived]) := by
  have hfree : ∀ other ∈ init ++ [seg], other.name ≠ seg.archived.name := by
    intro other hother hname
    have hseq : other.seq = seg.archived.seq := Segment.seq_of_name_eq hname
    have hother' : other = seg :=
      h.eq_of_seq_eq hother (List.mem_append_right _ List.mem_cons_self) hseq
    have hnot := Segment.current_of_name_eq hname
    rw [hother', hcurrent] at hnot
    cases hnot
  have hinit : ∀ other ∈ init, other.name ≠ seg.name := by
    intro other hother hname
    exact UInt32.ne_of_lt (h.ordered_init other hother).1 (Segment.seq_of_name_eq hname)
  have hkeep : (segmentsDir (init ++ [seg])).filter (·.name ≠ seg.archived.name) =
      segmentsDir (init ++ [seg]) := by
    rw [List.filter_eq_self]
    intro file hfile
    obtain ⟨other, hother, rfl⟩ := List.mem_map.mp hfile
    exact decide_eq_true (hfree other hother)
  rw [LogsDir.rename, hkeep]
  simp only [segmentsDir, List.map_append, List.map_cons, List.map_nil, List.map_map]
  congr 1
  · apply List.map_congr_left
    intro other hother
    exact if_neg (hinit other hother)
  · rw [if_pos (by rfl)]
    rfl

theorem append_segmentsDir (hinit : ∀ other ∈ init, other.seq ≠ seg.seq)
    (entry : LogEntry) :
    (segmentsDir (init ++ [seg])).append seg.name
        (entry.line (seg.entries.length + 1) ++ ['\n']) =
      segmentsDir (init ++ [seg.push entry]) := by
  simp only [LogsDir.append, segmentsDir, List.map_append, List.map_cons, List.map_nil,
    List.map_map]
  congr 1
  · apply List.map_congr_left
    intro other hother
    apply if_neg
    intro hname
    exact hinit other hother (Segment.seq_of_name_eq hname)
  · rw [if_pos (by rfl)]
    simp only [Segment.file, Segment.lines_push, List.flatMap_append, List.flatMap_singleton]
    rfl

/-- Pruning removes some of the files. -/
theorem pruneLoop_segmentsDir (config : LogConfig)
    (archived : List (UInt32 × List Char × UInt32)) (totalLines : UInt32) :
    ∃ segs', segs'.Sublist segs ∧
      pruneLoop config archived totalLines (segmentsDir segs) = segmentsDir segs' := by
  induction archived generalizing totalLines segs with
  | nil => exact ⟨segs, .refl _, rfl⟩
  | cons first archived ih =>
      obtain ⟨seq, name, lines⟩ := first
      rw [pruneLoop]
      split
      · exact ⟨segs, .refl _, rfl⟩
      · rw [remove_segmentsDir]
        obtain ⟨segs', hsub, hprune⟩ :=
          @ih (segs.filter fun other => other.name ≠ name) (totalLines - min lines totalLines)
        exact ⟨segs', hsub.trans List.filter_sublist, hprune⟩

theorem pruneOldFiles_segmentsDir (config : LogConfig) (call : LogCall) :
    ∃ segs', segs'.Sublist segs ∧
      pruneOldFiles config call (segmentsDir segs) = segmentsDir segs' := by
  unfold pruneOldFiles
  split
  · exact ⟨segs, .refl _, rfl⟩
  · exact pruneLoop_segmentsDir config _ _

/-! ## Opening -/

/-- The handle on a current segment. -/
def Segment.activeFile (seg : Segment) : ActiveFile :=
  ⟨seg.name, seg.seq, seg.entries.length⟩

theorem Segment.activeFile_push (entry : LogEntry) :
    (seg.push entry).activeFile =
      { seg.activeFile with lineIndex := seg.activeFile.lineIndex + 1 } := by
  rw [activeFile, activeFile, push, List.length_append]
  rfl

/-- What `read_dir` and a test of the names find among segments. -/
theorem filterMap_readDir_perm {α : Type} (segs : List Segment) (call : LogCall)
    (f : LogFile → Option α) :
    ((call.readDir (segmentsDir segs)).filterMap f).Perm
      (segs.filterMap fun other => f other.file) := by
  have hperm := (call.readDir_perm (segmentsDir segs)).filterMap f
  rwa [segmentsDir, List.filterMap_map] at hperm

theorem tryResumeCurrent_archived (call : LogCall)
    (harchived : ∀ other ∈ segs, other.current = false) :
    tryResumeCurrent call (segmentsDir segs) = (none, segmentsDir segs) := by
  have hnone : segs.filterMap (fun other => (parseCurrentLogName other.file.name).map
      fun parsed => (parsed.1, other.file)) = [] := by
    rw [List.filterMap_eq_nil_iff]
    intro other hother
    have hname : parseCurrentLogName other.file.name = none := by
      rw [Segment.file, Segment.parseCurrent_name, harchived other hother]
      rfl
    rw [hname]
    rfl
  have hperm := filterMap_readDir_perm segs call fun file =>
    (parseCurrentLogName file.name).map fun parsed => (parsed.1, file)
  rw [hnone, List.perm_nil] at hperm
  unfold tryResumeCurrent
  rw [hperm]
  rfl

theorem tryResumeCurrent_current (call : LogCall)
    (h : Journal limit rotations written (init ++ [seg])) (hcurrent : seg.current = true) :
    tryResumeCurrent call (segmentsDir (init ++ [seg])) =
      (some seg.activeFile, segmentsDir (init ++ [seg])) := by
  have hone : (init ++ [seg]).filterMap (fun other =>
      (parseCurrentLogName other.file.name).map fun parsed => (parsed.1, other.file)) =
      [(seg.seq, seg.file)] := by
    have hinit : init.filterMap (fun other => (parseCurrentLogName other.file.name).map
        fun parsed => (parsed.1, other.file)) = [] := by
      rw [List.filterMap_eq_nil_iff]
      intro other hother
      have hname : parseCurrentLogName other.file.name = none := by
        rw [Segment.file, Segment.parseCurrent_name, (h.ordered_init other hother).2]
        rfl
      rw [hname]
      rfl
    have hname : parseCurrentLogName seg.file.name = some (seg.seq, seg.stamp) := by
      rw [Segment.file, Segment.parseCurrent_name, if_pos hcurrent]
    rw [List.filterMap_append, hinit, List.nil_append, List.filterMap_cons, hname]
    rfl
  have hperm := filterMap_readDir_perm (init ++ [seg]) call fun file =>
    (parseCurrentLogName file.name).map fun parsed => (parsed.1, file)
  rw [hone, List.perm_singleton] at hperm
  unfold tryResumeCurrent
  rw [hperm]
  have hlength : (bufLines seg.file.text).length = seg.entries.length := by
    rw [Segment.bufLines_file, Segment.length_lines]
  simp only [List.insertionSort_cons, List.insertionSort_nil, List.orderedInsert_nil,
    List.getLast?_singleton, hlength]
  rfl

/-- A file with a new number can be created. -/
theorem createActiveFile_segmentsDir (call : LogCall)
    (hcurrent : seg.current = true) (hstamp : seg.stamp = utcFilenameStamp call.stampSeconds)
    (hempty : seg.entries = []) (hfresh : ∀ other ∈ segs, other.seq ≠ seg.seq) :
    createActiveFile call seg.seq (segmentsDir segs) =
      some (seg.activeFile, segmentsDir (segs ++ [seg])) := by
  have hname : currentLogName seg.seq (utcFilenameStamp call.stampSeconds) = seg.name := by
    rw [Segment.name, if_pos hcurrent, hstamp]
  have hfree : ¬ (segmentsDir segs).exists_ seg.name = true := by
    rw [exists_segmentsDir]
    rintro ⟨other, hother, hsame⟩
    exact hfresh other hother (Segment.seq_of_name_eq hsame)
  have hfile : (⟨seg.name, []⟩ : LogFile) = seg.file := by
    rw [Segment.file, Segment.lines, hempty]
    rfl
  unfold createActiveFile
  rw [hname]
  dsimp only
  rw [if_neg hfree, hfile, Segment.activeFile, hempty]
  simp [segmentsDir]

theorem toNat_add_one {a : UInt32} (h : a.toNat + 1 < UInt32.size) :
    (a + 1).toNat = a.toNat + 1 := by
  rw [UInt32.toNat_add, UInt32.toNat_one]
  exact Nat.mod_eq_of_lt h

theorem toNat_max (a b : UInt32) : (max a b).toNat = max a.toNat b.toNat := by
  have hmax : max a b = if a ≤ b then b else a := rfl
  rw [hmax]
  split
  · rename_i hle
    exact (max_eq_right (UInt32.le_iff_toNat_le.mp hle)).symm
  · rename_i hle
    rw [UInt32.le_iff_toNat_le, not_le] at hle
    exact (max_eq_left hle.le).symm

section
variable {α : Type} {f : α → UInt32}

theorem foldl_max_le {as : List α} {bound : ℕ} {start : UInt32} (hstart : start.toNat ≤ bound)
    (has : ∀ a ∈ as, (f a).toNat ≤ bound) :
    (as.foldl (fun acc a => max acc (f a)) start).toNat ≤ bound := by
  induction as generalizing start with
  | nil => exact hstart
  | cons a as ih =>
      rw [List.forall_mem_cons] at has
      apply ih _ has.2
      rw [toNat_max]
      exact max_le hstart has.1

theorem le_foldl_max (as : List α) (start : UInt32) :
    start.toNat ≤ (as.foldl (fun acc a => max acc (f a)) start).toNat ∧
      ∀ a ∈ as, (f a).toNat ≤ (as.foldl (fun acc a => max acc (f a)) start).toNat := by
  induction as generalizing start with
  | nil => exact ⟨le_refl _, by simp⟩
  | cons a as ih =>
      obtain ⟨hstart, has⟩ := ih (max start (f a))
      rw [toNat_max] at hstart
      rw [List.forall_mem_cons]
      exact ⟨(le_max_left _ _).trans hstart, (le_max_right _ _).trans hstart, has⟩

end

/-- While the numbers last, the next one is above all others. -/
theorem nextSequenceNumber_segmentsDir (call : LogCall) {bound : ℕ}
    (hseqs : ∀ other ∈ segs, other.seq.toNat ≤ bound) (hbound : bound + 1 < UInt32.size) :
    (nextSequenceNumber call (segmentsDir segs)).toNat ≤ bound + 1 ∧
      ∀ other ∈ segs, other.seq < nextSequenceNumber call (segmentsDir segs) := by
  have hperm := call.readDir_perm (segmentsDir segs)
  have hle : ((call.readDir (segmentsDir segs)).foldl
      (fun maxSeq file => max maxSeq ((logSeq file.name).getD 0)) 0).toNat ≤ bound := by
    apply foldl_max_le (Nat.zero_le _)
    intro file hfile
    obtain ⟨other, hother, rfl⟩ := List.mem_map.mp (hperm.mem_iff.mp hfile)
    rw [Segment.file, Segment.logSeq_name]
    exact hseqs other hother
  have hadd : (nextSequenceNumber call (segmentsDir segs)).toNat =
      ((call.readDir (segmentsDir segs)).foldl
        (fun maxSeq file => max maxSeq ((logSeq file.name).getD 0)) 0).toNat + 1 :=
    toNat_add_one (by omega)
  constructor
  · omega
  · intro other hother
    have hmem : other.file ∈ call.readDir (segmentsDir segs) :=
      hperm.mem_iff.mpr (List.mem_map_of_mem hother)
    have hseq := (le_foldl_max (f := fun file : LogFile => (logSeq file.name).getD 0)
      (call.readDir (segmentsDir segs)) 0).2 _ hmem
    rw [Segment.file, Segment.logSeq_name] at hseq
    rw [UInt32.lt_iff_toNat_lt, hadd]
    exact Nat.lt_succ_of_le hseq

end

end Upriv.Logging
