import Upriv.Logging.RawLines
import Upriv.Support.Budget

/-!
# Pruning archived log files

`prune_old_files` deletes the oldest archived files until the rest has no more lines than
the configuration keeps.  It adds the lines up in 32 bits: with more lines than that it
believes that there are fewer, and keeps too much.
-/

namespace Upriv.Logging.Raw

open FallibleM

/-! ## Archived files -/

def archivedFiles (counted : List Char → Option UInt32) (disk : LogsDisk) : List ArchivedFile :=
  disk.keys.filterMap (archivedFile counted)

/-- The lines of all archived files. -/
def archivedLines (counted : List Char → Option UInt32) (disk : LogsDisk) : ℕ :=
  ((archivedFiles counted disk).map (·.lines.toNat)).sum

/-- What the files are counted to have when a call in `s` asks for it. -/
def countsAt (sys : LogSystem) (s : LogState) : List Char → Option UInt32 :=
  sys.counted (s.calls + 1)

/-- The oldest archived files are gone, as few as the budget allows, and nothing else. -/
structure Pruned (counted : List Char → Option UInt32) (budget : UInt32)
    (disk disk' : LogsDisk) : Prop where
  oldest : ∃ deleted kept : List ArchivedFile, (deleted ++ kept).Perm (archivedFiles counted disk) ∧
    (deleted ++ kept).Pairwise (·.seq ≤ ·.seq) ∧
    (∀ name, disk'.lookup name =
      if name ∈ deleted.map (·.name) then none else disk.lookup name) ∧
    ∀ last ∈ deleted.getLast?, budget.toNat < last.lines.toNat + archivedLines counted disk'
  fits : archivedLines counted disk' ≤ budget.toNat
  others : ∀ name, parseArchivedLogName name = none → disk'.lookup name = disk.lookup name

section
variable {counted : List Char → Option UInt32} {disk disk' : LogsDisk}

theorem archivedFile_eq_some {name : List Char} {file : ArchivedFile}
    (h : archivedFile counted name = some file) :
    file.name = name ∧ parseArchivedLogName name ≠ none := by
  simp only [archivedFile, Option.bind_eq_bind, Option.bind_eq_some_iff] at h
  obtain ⟨parsed, hparsed, lines, -, ⟨⟩⟩ := h
  exact ⟨rfl, by rw [hparsed]; exact Option.some_ne_none _⟩

theorem nodup_archivedNames : ((archivedFiles counted disk).map (·.name)).Nodup := by
  rw [archivedFiles, List.map_filterMap]
  refine disk.keys_nodup.filterMap ?_
  intro name name' found hname hname'
  obtain ⟨file, hfile, rfl⟩ := Option.map_eq_some_iff.mp hname
  obtain ⟨file', hfile', heq⟩ := Option.map_eq_some_iff.mp hname'
  rw [← (archivedFile_eq_some hfile).1, ← (archivedFile_eq_some hfile').1, heq]

/-- What was not deleted is what is archived. -/
theorem archivedFiles_of_deleted {deleted kept : List ArchivedFile}
    (hperm : (deleted ++ kept).Perm (archivedFiles counted disk))
    (hlookup : ∀ name, disk'.lookup name =
      if name ∈ deleted.map (·.name) then none else disk.lookup name) :
    kept.Perm (archivedFiles counted disk') := by
  have hkeys : disk'.keys.Perm (disk.keys.filter fun name => name ∉ deleted.map (·.name)) := by
    rw [List.perm_ext_iff_of_nodup disk'.keys_nodup (disk.keys_nodup.filter _)]
    intro name
    rw [List.mem_filter, ← AList.mem_keys, ← AList.mem_keys, ← AList.lookup_isSome,
      ← AList.lookup_isSome, hlookup name]
    by_cases hname : name ∈ deleted.map (·.name)
    · simp [hname]
    · simp [hname]
  have hfiles : (archivedFiles counted disk').Perm
      ((archivedFiles counted disk).filter fun file => file.name ∉ deleted.map (·.name)) := by
    refine (hkeys.filterMap _).trans (.of_eq ?_)
    rw [List.filterMap_filter, archivedFiles, List.filter_filterMap]
    refine List.filterMap_congr fun name _ => ?_
    cases hfile : archivedFile counted name with
    | none => simp
    | some file =>
        by_cases hname : name ∈ deleted.map (·.name)
        · rw [if_neg (by simpa using hname), Option.filter_some, (archivedFile_eq_some hfile).1,
            if_neg (by simpa using hname)]
        · rw [if_pos (by simpa using hname), Option.filter_some, (archivedFile_eq_some hfile).1,
            if_pos (by simpa using hname)]
  have hnodup : ((deleted ++ kept).map (·.name)).Nodup :=
    (hperm.map _).nodup_iff.mpr nodup_archivedNames
  rw [List.map_append, List.nodup_append] at hnodup
  refine .symm (hfiles.trans ((hperm.symm.filter _).trans (.of_eq ?_)))
  rw [List.filter_append, List.filter_eq_nil_iff.mpr, List.filter_eq_self.mpr, List.nil_append]
  · intro file hfile
    exact decide_eq_true fun hmem => hnodup.2.2 _ hmem _ (List.mem_map_of_mem hfile) rfl
  · intro file hfile
    rw [decide_eq_true_eq, not_not]
    exact List.mem_map_of_mem hfile

end

section
variable {config : LogConfig} {sys : LogSystem} {s s' : LogState}

/-! ## The loop -/

theorem removeFile_ok {name : List Char} (h : (removeFile sys name).exec s = (.ok (), s')) :
    s'.disk = s.disk.erase name := by
  have hends : Ends 0 (removeFile sys name) s fun _ s' => s'.disk = s.disk.erase name := by
    refine ends_osCall (Nat.zero_le _) ?_
    intro u disk hremove
    split at hremove
    · cases hremove
      rfl
    · cases hremove
  exact (hends.ok h).2

theorem toNat_saturatingSub (total lines : UInt32) :
    (total - min lines total).toNat = total.toNat - lines.toNat := by
  have hmin : min lines total = if lines ≤ total then lines else total := rfl
  rw [hmin]
  split
  · rename_i hle
    exact UInt32.toNat_sub_of_le _ _ hle
  · rename_i hlt
    rw [UInt32.le_iff_toNat_le] at hlt
    rw [UInt32.sub_self]
    exact (Nat.sub_eq_zero_of_le (Nat.le_of_not_le hlt)).symm

/-- The loop deletes what the running total tells it to. -/
theorem pruneLoop_ok {archived : List ArchivedFile} {total : UInt32}
    (h : (pruneLoop config sys archived total).exec s = (.ok (), s')) :
    ∃ deleted, archived = deleted ++
        dropToBudget (·.lines.toNat) config.keepLastEntries.toNat total.toNat archived ∧
      ∀ name, s'.disk.lookup name =
        if name ∈ deleted.map (·.name) then none else s.disk.lookup name := by
  induction archived generalizing total s with
  | nil =>
      cases h
      exact ⟨[], rfl, fun name => (if_neg List.not_mem_nil).symm⟩
  | cons file archived ih =>
      rw [pruneLoop] at h
      rw [dropToBudget]
      by_cases htotal : total ≤ config.keepLastEntries
      · rw [if_pos htotal] at h
        cases h
        rw [if_pos (UInt32.le_iff_toNat_le.mp htotal)]
        exact ⟨[], rfl, fun name => (if_neg List.not_mem_nil).symm⟩
      · rw [if_neg htotal, exec_bind_eq_ok_iff] at h
        obtain ⟨u, s₁, hremove, hloop⟩ := h
        have hdisk := removeFile_ok hremove
        obtain ⟨deleted, harchived, hlookup⟩ := ih hloop
        rw [if_neg fun hle => htotal (UInt32.le_iff_toNat_le.mpr hle)]
        rw [toNat_saturatingSub] at harchived
        refine ⟨file :: deleted, ?_, fun name => ?_⟩
        · rw [List.cons_append, ← harchived]
        · rw [hlookup name, hdisk, List.map_cons]
          by_cases hname : name = file.name
          · rw [hname, AList.lookup_erase, if_pos List.mem_cons_self, ite_self]
          · rw [AList.lookup_erase_ne hname]
            simp only [List.mem_cons, hname, false_or]

/-- The sum in 32 bits. -/
theorem toNat_sum_lines (archived : List ArchivedFile) :
    ((archived.map (·.lines)).sum : UInt32).toNat =
      (archived.map (·.lines.toNat)).sum % UInt32.size := by
  induction archived with
  | nil => rfl
  | cons file archived ih =>
      rw [List.map_cons, List.map_cons, List.sum_cons, List.sum_cons, UInt32.toNat_add, ih]
      exact (Nat.add_mod_mod _ _ _)

/-! ## The whole -/

/-- The archived files, the oldest first. -/
def sortedArchive (sys : LogSystem) (s : LogState) : List ArchivedFile :=
  ((sys.readDir s.disk).filterMap (archivedFile (countsAt sys s))).insertionSort
    (·.seq ≤ ·.seq)

theorem sortedArchive_perm : (sortedArchive sys s).Perm (archivedFiles (countsAt sys s) s.disk) :=
  (List.perm_insertionSort _ _).trans ((sys.readDir_perm s.disk).filterMap _)

theorem pairwise_sortedArchive : (sortedArchive sys s).Pairwise (·.seq ≤ ·.seq) := by
  have htotal : Std.Total fun a b : ArchivedFile => a.seq ≤ b.seq :=
    ⟨fun a b => UInt32.le_total a.seq b.seq⟩
  have htrans : IsTrans ArchivedFile fun a b => a.seq ≤ b.seq :=
    ⟨fun _ _ _ => UInt32.le_trans⟩
  exact List.pairwise_insertionSort _ _

theorem sum_sortedArchive :
    ((sortedArchive sys s).map (·.lines.toNat)).sum = archivedLines (countsAt sys s) s.disk :=
  (sortedArchive_perm.map _).sum_eq

theorem exec_pruneOldFiles (hkeep : config.keepLastEntries ≠ 0) :
    (∃ io s', (pruneOldFiles config sys).exec s = (.error (.system io), s') ∧
      sys.refused s.calls = some io) ∨
    (pruneOldFiles config sys).exec s =
      (pruneLoop config sys (sortedArchive sys s)
        ((sortedArchive sys s).map (·.lines)).sum).exec { s with calls := s.calls + 1 } := by
  rw [pruneOldFiles, if_neg hkeep]
  cases hrefused : sys.refused s.calls with
  | some io =>
      have hread : (readDir sys).exec s =
          (.error (.system io), { s with calls := s.calls + 1, failed := s.failed + 1 }) := by
        simp only [readDir, osCall, exec_op, hrefused]
      exact .inl ⟨io, _, exec_bind_of_error hread _, rfl⟩
  | none =>
      have hread : (readDir sys).exec s =
          (.ok (sys.readDir s.disk), { s with calls := s.calls + 1 }) := by
        simp only [readDir, osCall, exec_op, hrefused]
      refine .inr ((exec_bind_of_ok hread _).trans ?_)
      exact exec_bind_of_ok (exec_get _) _

/-- Without a refused call the loop goes through: what it deletes is there. -/
theorem pruneLoop_succeeds (hcalm : ∀ call, sys.refused call = none)
    {archived : List ArchivedFile} {total : UInt32} (hnodup : (archived.map (·.name)).Nodup)
    (hpresent : ∀ file ∈ archived, file.name ∈ s.disk) :
    ∃ s', (pruneLoop config sys archived total).exec s = (.ok (), s') := by
  induction archived generalizing total s with
  | nil => exact ⟨s, rfl⟩
  | cons file archived ih =>
      rw [pruneLoop]
      split
      · exact ⟨s, rfl⟩
      · have hremove : (removeFile sys file.name).exec s =
            (.ok (), { s with disk := s.disk.erase file.name, calls := s.calls + 1 }) := by
          simp only [removeFile, osCall, exec_op, hcalm, hpresent file List.mem_cons_self, if_true]
        rw [exec_bind_of_ok hremove]
        rw [List.map_cons, List.nodup_cons] at hnodup
        refine ih hnodup.2 fun other hother => ?_
        refine AList.mem_erase.mpr ⟨?_, hpresent other (List.mem_cons_of_mem _ hother)⟩
        rintro hname
        exact hnodup.1 (hname ▸ List.mem_map_of_mem hother)

theorem pruneOldFiles_succeeds (hcalm : ∀ call, sys.refused call = none)
    (hkeep : config.keepLastEntries ≠ 0) (s : LogState) :
    ∃ s', (pruneOldFiles config sys).exec s = (.ok (), s') := by
  rcases @exec_pruneOldFiles config sys s hkeep with ⟨io, s', -, hrefused⟩ | hloop
  · rw [hcalm] at hrefused
    cases hrefused
  · rw [hloop]
    refine pruneLoop_succeeds hcalm ?_ ?_
    · exact (sortedArchive_perm.map _).nodup_iff.mpr nodup_archivedNames
    · intro file hfile
      obtain ⟨name, hname, hsome⟩ := List.mem_filterMap.mp (sortedArchive_perm.mem_iff.mp hfile)
      rw [(archivedFile_eq_some hsome).1]
      exact AList.mem_keys.mpr hname

/-- What is deleted and what is left, whatever the total. -/
theorem pruneOldFiles_ok (hkeep : config.keepLastEntries ≠ 0)
    (h : (pruneOldFiles config sys).exec s = (.ok (), s')) :
    ∃ deleted, sortedArchive sys s = deleted ++
        dropToBudget (·.lines.toNat) config.keepLastEntries.toNat
          (archivedLines (countsAt sys s) s.disk % UInt32.size) (sortedArchive sys s) ∧
      ∀ name, s'.disk.lookup name =
        if name ∈ deleted.map (·.name) then none else s.disk.lookup name := by
  rcases @exec_pruneOldFiles config sys s hkeep with ⟨io, t, hrun, -⟩ | hloop
  · rw [hrun] at h
    cases h
  · rw [hloop] at h
    have hdeleted := pruneLoop_ok h
    rwa [toNat_sum_lines, sum_sortedArchive] at hdeleted

/-- Without a refused call pruning succeeds; and whenever it succeeds, it has deleted what
it must and no more exactly if the archived lines can be added up in 32 bits. -/
theorem pruneOldFiles_pruned_iff (hkeep : config.keepLastEntries ≠ 0) (s : LogState) :
    ((∀ call, sys.refused call = none) →
      ∃ s', (pruneOldFiles config sys).exec s = (.ok (), s')) ∧
    ∀ s', (pruneOldFiles config sys).exec s = (.ok (), s') →
      (Pruned (countsAt sys s) config.keepLastEntries s.disk s'.disk ↔
        archivedLines (countsAt sys s) s.disk < UInt32.size) := by
  refine ⟨fun hcalm => pruneOldFiles_succeeds hcalm hkeep s, fun s' hrun => ?_⟩
  obtain ⟨deleted, harchive, hlookup⟩ := pruneOldFiles_ok hkeep hrun
  have hperm := @sortedArchive_perm sys s
  rw [harchive] at hperm
  have hkept := ((archivedFiles_of_deleted hperm hlookup).map (·.lines.toNat)).sum_eq
  change _ = archivedLines _ _ at hkept
  constructor
  · intro hpruned
    by_contra hlarge
    have htotal : archivedLines (countsAt sys s) s.disk % UInt32.size + UInt32.size ≤
        ((sortedArchive sys s).map (·.lines.toNat)).sum := by
      rw [sum_sortedArchive, Nat.mod_eq_sub_mod (Nat.le_of_not_lt hlarge)]
      have hle := Nat.mod_le (archivedLines (countsAt sys s) s.disk - UInt32.size) UInt32.size
      omega
    have hover := budget_lt_of_small_total (UInt32.toNat_lt_size config.keepLastEntries)
      (fun file _ => UInt32.toNat_lt_size file.lines) htotal
    rw [hkept] at hover
    exact absurd hpruned.fits (Nat.not_le_of_lt hover)
  · intro hsmall
    rw [Nat.mod_eq_of_lt hsmall, ← sum_sortedArchive] at harchive hkept hperm
    have hfits := @sum_dropToBudget_le _ (fun file : ArchivedFile => file.lines.toNat)
      config.keepLastEntries.toNat (sortedArchive sys s)
    obtain ⟨dropped, hdropped, hlast⟩ := @exists_dropped _
      (fun file : ArchivedFile => file.lines.toNat) config.keepLastEntries.toNat
      (sortedArchive sys s)
    obtain rfl : dropped = deleted := List.append_cancel_right (hdropped.symm.trans harchive)
    rw [hkept] at hfits hlast
    refine ⟨⟨dropped, _, hperm, harchive ▸ pairwise_sortedArchive, hlookup, hlast⟩, hfits, ?_⟩
    intro name hname
    rw [hlookup name, if_neg]
    intro hmem
    obtain ⟨file, hfile, rfl⟩ := List.mem_map.mp hmem
    have harchived := hperm.mem_iff.mp (List.mem_append_left _ hfile)
    obtain ⟨name, -, hsome⟩ := List.mem_filterMap.mp harchived
    obtain ⟨rfl, hcanonical⟩ := archivedFile_eq_some hsome
    exact hcanonical hname

end

/-- No call is refused, and every file has this many lines. -/
def countingSystem (lines : UInt32) : LogSystem where
  refused _ := none
  accepted _ := 0
  readDir disk := disk.keys
  counted _ _ := some lines
  clock _ := (0, 0)
  readDir_perm := perm_keys

/-- Two archived files of this many empty lines. -/
def twoArchives (lines : ℕ) : LogsDisk :=
  ((∅ : LogsDisk).insert (archivedLogName 1 (utcFilenameStamp 0))
    (List.replicate lines 0x0A)).insert (archivedLogName 2 (utcFilenameStamp 0))
      (List.replicate lines 0x0A)

theorem pruneOldFiles_pruned_small :
    ∃ s', (pruneOldFiles { keepLastEntries := 4 } (countingSystem 3)).exec
        { disk := twoArchives 3 } = (.ok (), s') ∧
      Pruned (countsAt (countingSystem 3) { disk := twoArchives 3 }) 4 (twoArchives 3) s'.disk := by
  have hpruned := @pruneOldFiles_pruned_iff { keepLastEntries := 4 } (countingSystem 3)
    (by decide) { disk := twoArchives 3 }
  obtain ⟨s', hrun⟩ := hpruned.1 fun _ => rfl
  exact ⟨s', hrun, (hpruned.2 s' hrun).mpr (by decide +kernel)⟩

/-- Two files of 2^31 lines are taken for none. -/
theorem pruneOldFiles_not_pruned :
    ∃ s', (pruneOldFiles {} (countingSystem 0x80000000)).exec
        { disk := twoArchives 0x80000000 } = (.ok (), s') ∧
      ¬ Pruned (countsAt (countingSystem 0x80000000) { disk := twoArchives 0x80000000 }) 10000
        (twoArchives 0x80000000) s'.disk := by
  refine ⟨{ disk := twoArchives 0x80000000, calls := 1 }, by rfl, fun h => ?_⟩
  exact absurd h.fits (by decide +kernel)

end Upriv.Logging.Raw
