import Upriv.Fs.Frame

/-!
# Directories

Creating directories, removing a tree, and writing a file atomically below
directories that are made on the way.  A file is placed when every directory
on the way to it exists.
-/

namespace Upriv

open FallibleM

def IoError.alreadyExists : IoError := ⟨.alreadyExists, "File exists"⟩

/-- The directories on the way to `path`, `path` itself last. -/
def wayTo (path : PathBuf) : List PathBuf :=
  let cs := path.toList
  (cs.inits.filter fun dir =>
    dir ≠ [] ∧ dir.getLast? ≠ some '/' ∧ (dir = cs ∨ dir ++ ['/'] <+: cs)).map String.ofList

def Disk.addDir (d : Disk) (path : PathBuf) : Disk := { d with dirs := insert path d.dirs }

/-- Without what is at `dir` or below it, except what `leftover` keeps. -/
def Disk.removeBelow (d : Disk) (dir : PathBuf) (leftover : PathBuf → Bool) : Disk :=
  { d with
    files := fun path =>
      if Disk.Below dir path ∧ leftover path = false then none else d.files path
    dirs := d.dirs.filter fun path => ¬ (Disk.Below dir path ∧ leftover path = false) }

section
variable (faults : Faults)

/-- `std::fs::create_dir`. -/
def createDir (path : PathBuf) : FsM Unit :=
  sysCall faults fun d =>
    if d.exists_ path then (.error .alreadyExists, d)
    else if (parent path).all d.isDir then (.ok (), d.addDir path)
    else (.error .notFound, d)

/-- One directory of `create_dir_all`. -/
def ensureDir (path : PathBuf) : FsM Unit := do
  let d ← get
  if d.isDir path then return ()
  else
    sysCall faults fun d =>
      if d.isFile path then (.error .alreadyExists, d) else (.ok (), d.addDir path)

/-- `std::fs::create_dir_all`. -/
def createDirAll (path : PathBuf) : FsM Unit := (wayTo path).forM (ensureDir faults)

/-- `std::fs::remove_dir_all`.  A removal that fails may have removed a part:
`leftover n` says what is left of it when the `n`-th call fails. -/
def removeDirAll (leftover : ℕ → PathBuf → Bool) (dir : PathBuf) : FsM Unit :=
  FallibleM.op fun d =>
    let d' := { d with calls := d.calls + 1 }
    match faults d.calls with
    | some error => (.error (.io error), d'.removeBelow dir (leftover d.calls))
    | none => (.ok (), d'.removeBelow dir fun _ => false)

/-- `write_bytes_atomic`: missing parent directories are made. -/
def writeBytesAtomic (path : PathBuf) (bytes : Bytes) : FsM Unit := do
  match parent path with
  | none => pure ()
  | some dir => createDirAll faults dir
  sysCall faults fun d => (.ok (), d.write path (some bytes))

end

/-! ## Below a directory -/

section
variable {dir path other : PathBuf} {name : String}

theorem below_self (dir : PathBuf) : Disk.Below dir dir := .inl rfl

theorem below_iff_of_isPlain (hdir : IsPlain dir) :
    Disk.Below dir path ↔ path = dir ∨ dir.toList ++ ['/'] <+: path.toList := by
  rw [Disk.Below, toList_joinPath_of_isPlain hdir]
  rfl

theorem below_joinPath (hdir : IsPlain dir) (name : String) :
    Disk.Below dir (joinPath dir name) := by
  rw [below_iff_of_isPlain hdir, toList_joinPath_of_isPlain hdir]
  exact .inr ⟨name.toList, by simp⟩

theorem below_trans (hdir : IsPlain dir) (hpath : IsPlain path)
    (h : Disk.Below dir path) (h' : Disk.Below path other) : Disk.Below dir other := by
  rw [below_iff_of_isPlain hdir] at h ⊢
  rw [below_iff_of_isPlain hpath] at h'
  rcases h' with rfl | h'
  · exact h
  · rcases h with rfl | h
    · exact .inr h'
    · exact .inr (h.trans ((List.prefix_append _ _).trans h'))

theorem mem_wayTo : dir ∈ wayTo path ↔ IsPlain dir ∧ Disk.Below dir path := by
  simp only [wayTo, List.mem_map, List.mem_filter, List.mem_inits, decide_eq_true_eq]
  constructor
  · rintro ⟨cs, ⟨-, hne, hlast, hbelow⟩, rfl⟩
    have hplain : IsPlain (String.ofList cs) := by
      rw [IsPlain, String.toList_ofList]
      exact ⟨hne, hlast⟩
    refine ⟨hplain, ?_⟩
    rw [below_iff_of_isPlain hplain, String.toList_ofList]
    rcases hbelow with rfl | hprefix
    · exact .inl String.ofList_toList.symm
    · exact .inr hprefix
  · rintro ⟨hdir, hbelow⟩
    refine ⟨dir.toList, ⟨?_, hdir.1, hdir.2, ?_⟩, String.ofList_toList⟩
    all_goals rw [below_iff_of_isPlain hdir] at hbelow
    · rcases hbelow with rfl | hprefix
      · exact List.prefix_refl _
      · exact (List.prefix_append _ _).trans hprefix
    · rcases hbelow with rfl | hprefix
      · exact .inl rfl
      · exact .inr hprefix

/-- What a file is below of, its directory is below of as well. -/
theorem below_dir_of_below_joinPath (hdir : IsPlain dir) (hother : IsPlain other)
    (hname : '/' ∉ name.toList) (h : Disk.Below other (joinPath dir name)) :
    other = joinPath dir name ∨ Disk.Below other dir := by
  rw [below_iff_of_isPlain hother, toList_joinPath_of_isPlain hdir] at h
  rw [below_iff_of_isPlain hother]
  rcases h with rfl | hprefix
  · exact .inl rfl
  · right
    rcases List.prefix_or_prefix_of_prefix hprefix
      (show dir.toList ++ ['/'] <+: dir.toList ++ '/' :: name.toList from
        ⟨name.toList, by simp⟩) with hshort | hlong
    · obtain ⟨rest, hrest⟩ := hshort
      rcases List.eq_nil_or_concat rest with rfl | ⟨front, last, rfl⟩
      · left
        rw [List.append_nil, List.append_cancel_right_eq] at hrest
        exact String.toList_inj.mp hrest.symm
      · right
        rw [List.concat_eq_append, ← List.append_assoc] at hrest
        obtain ⟨hfront, -⟩ := List.append_inj' hrest rfl
        exact ⟨front, hfront⟩
    · left
      obtain ⟨rest, hrest⟩ := hlong
      rcases List.eq_nil_or_concat rest with rfl | ⟨front, last, rfl⟩
      · rw [List.append_nil, List.append_cancel_right_eq] at hrest
        exact String.toList_inj.mp hrest
      · exfalso
        rw [List.concat_eq_append, ← List.append_assoc] at hrest
        obtain ⟨hfront, hlast⟩ := List.append_inj' hrest rfl
        obtain ⟨tail, htail⟩ := hprefix
        have hslash : '/' ∈ name.toList := by
          have hsplit : dir.toList ++ ('/' :: (front ++ ([last] ++ tail))) =
              dir.toList ++ '/' :: name.toList := by
            rw [← htail, ← hrest]
            simp
          rw [List.append_cancel_left_eq, List.cons.injEq] at hsplit
          rw [← hsplit.2, hlast]
          simp
        exact hname hslash

end

/-! ## What an operation leaves alone -/

/-- The same files, and no directory is gone. -/
def OnlyNewDirs (d d' : Disk) : Prop := d'.files = d.files ∧ d.dirs ⊆ d'.dirs

/-- Outside of `dir` the same files; no directory is gone. -/
def Fills (dir : PathBuf) (d d' : Disk) : Prop :=
  (∀ path, ¬ Disk.Below dir path → d'.files path = d.files path) ∧ d.dirs ⊆ d'.dirs

/-- Outside of `dir` the files are the same and no directory is gone. -/
def OnlyBelow (dir : PathBuf) (d d' : Disk) : Prop :=
  ∀ path, ¬ Disk.Below dir path →
    d'.files path = d.files path ∧ (path ∈ d.dirs → path ∈ d'.dirs)

instance : IsPreorder Disk OnlyNewDirs where
  refl _ := ⟨rfl, Finset.Subset.refl _⟩
  trans _ _ _ h h' := ⟨h'.1.trans h.1, h.2.trans h'.2⟩

instance (dir : PathBuf) : IsPreorder Disk (Fills dir) where
  refl _ := ⟨fun _ _ => rfl, Finset.Subset.refl _⟩
  trans _ _ _ h h' := ⟨fun path hout => (h'.1 path hout).trans (h.1 path hout), h.2.trans h'.2⟩

instance (dir : PathBuf) : IsPreorder Disk (OnlyBelow dir) where
  refl _ _ _ := ⟨rfl, id⟩
  trans _ _ _ h h' path hout :=
    ⟨(h' path hout).1.trans (h path hout).1, (h' path hout).2 ∘ (h path hout).2⟩

theorem SameDisk.onlyNewDirs {d d' : Disk} (h : SameDisk d d') : OnlyNewDirs d d' :=
  ⟨h.1, h.2 ▸ Finset.Subset.refl _⟩

theorem OnlyNewDirs.fills {d d' : Disk} (h : OnlyNewDirs d d') (dir : PathBuf) :
    Fills dir d d' :=
  ⟨fun path _ => congrFun h.1 path, h.2⟩

theorem Fills.of_below {dir sub : PathBuf} {d d' : Disk} (hdir : IsPlain dir)
    (hsub : IsPlain sub) (hbelow : Disk.Below dir sub) (h : Fills sub d d') : Fills dir d d' :=
  ⟨fun path hout => h.1 path fun h' => hout (below_trans hdir hsub hbelow h'), h.2⟩

theorem Fills.onlyBelow {dir : PathBuf} {d d' : Disk} (h : Fills dir d d') :
    OnlyBelow dir d d' :=
  fun path hout => ⟨h.1 path hout, fun hmem => h.2 hmem⟩

section
variable (faults : Faults) {dir path : PathBuf} {name : String} {d d' : Disk}

theorem onlyNewDirs_addDir (d : Disk) (path : PathBuf) : OnlyNewDirs d (d.addDir path) :=
  ⟨rfl, Finset.subset_insert _ _⟩

theorem preserves_createDir (path : PathBuf) : Preserves OnlyNewDirs (createDir faults path) := by
  refine preserves_sysCall faults (fun _ _ => ⟨rfl, Finset.Subset.refl _⟩) fun d => ?_
  split
  · exact ⟨rfl, Finset.Subset.refl _⟩
  · split
    · exact onlyNewDirs_addDir d path
    · exact ⟨rfl, Finset.Subset.refl _⟩

theorem preserves_ensureDir (path : PathBuf) : Preserves OnlyNewDirs (ensureDir faults path) := by
  refine preserves_bind preserves_get fun d => ?_
  split
  · exact preserves_pure _
  · refine preserves_sysCall faults (fun _ _ => ⟨rfl, Finset.Subset.refl _⟩) fun d => ?_
    split
    · exact ⟨rfl, Finset.Subset.refl _⟩
    · exact onlyNewDirs_addDir d path

theorem preserves_createDirAll (path : PathBuf) :
    Preserves OnlyNewDirs (createDirAll faults path) :=
  preserves_forM fun dir => preserves_ensureDir faults dir

theorem preserves_fills_write (hbelow : Disk.Below dir path) (bytes : Bytes) :
    Preserves (Fills dir) (sysCall faults fun d => (.ok (), d.write path (some bytes))) := by
  refine preserves_sysCall faults (fun _ _ => ⟨fun _ _ => rfl, Finset.Subset.refl _⟩) fun d => ?_
  refine ⟨fun other hout => Function.update_of_ne ?_ _ _, Finset.Subset.refl _⟩
  rintro rfl
  exact hout hbelow

theorem preserves_fills_writeBytesAtomic (hbelow : Disk.Below dir path) (bytes : Bytes) :
    Preserves (Fills dir) (writeBytesAtomic faults path bytes) := by
  unfold writeBytesAtomic
  have hwrite := preserves_fills_write faults hbelow bytes
  split
  · exact hwrite
  · exact preserves_bind ((preserves_createDirAll faults _).mono fun _ _ h => h.fills dir)
      fun _ => hwrite

theorem preserves_fills_writeBytesAtomicExistingParent (hbelow : Disk.Below dir path)
    (bytes : Bytes) : Preserves (Fills dir) (writeBytesAtomicExistingParent faults path bytes) := by
  refine preserves_bind preserves_get fun d => ?_
  split
  · exact preserves_fills_write faults hbelow bytes
  · exact preserves_throw _

theorem onlyBelow_removeBelow (d : Disk) (dir : PathBuf) (leftover : PathBuf → Bool) :
    OnlyBelow dir d (d.removeBelow dir leftover) := by
  intro path hout
  constructor
  · exact if_neg fun h => hout h.1
  · intro hmem
    exact Finset.mem_filter.mpr ⟨hmem, fun h => hout h.1⟩

theorem preserves_removeDirAll (leftover : ℕ → PathBuf → Bool) (dir : PathBuf) :
    Preserves (OnlyBelow dir) (removeDirAll faults leftover dir) := by
  refine preserves_op fun d => ?_
  dsimp only
  split
  · exact onlyBelow_removeBelow _ dir _
  · exact onlyBelow_removeBelow _ dir _

/-! ## What a successful operation leaves -/

theorem ensureDir_ok (h : (ensureDir faults path).exec d = (.ok (), d')) :
    path ∈ d'.dirs := by
  rw [ensureDir, exec_bind, exec_get] at h
  dsimp only at h
  split at h
  · rename_i hisDir
    cases h
    exact of_decide_eq_true hisDir
  · simp only [sysCall, exec_op] at h
    split at h
    · cases h
    · rename_i hnone
      by_cases hfile : ({ d with calls := d.calls + 1 } : Disk).isFile path
      · simp [hfile] at h
      · simp only [hfile] at h
        cases h
        exact Finset.mem_insert_self _ _

theorem createDirAll_ok (h : (createDirAll faults path).exec d = (.ok (), d')) :
    ∀ dir ∈ wayTo path, dir ∈ d'.dirs := by
  have hmade := forM_ok_induction (fun i s => ∀ j < i, ∀ dir, (wayTo path)[j]? = some dir →
    dir ∈ s.dirs) ?_ (fun _ hj => absurd hj (Nat.not_lt_zero _)) h
  · intro dir hmem
    obtain ⟨j, hj, hget⟩ := List.getElem_of_mem hmem
    exact hmade j hj dir (by rw [List.getElem?_eq_getElem hj, hget])
  · intro i dir s s' hdir hinv hrun j hj other hother
    rcases Nat.lt_succ_iff_lt_or_eq.mp hj with hlt | rfl
    · have hgrow := preserves_ensureDir faults dir s
      rw [hrun] at hgrow
      exact hgrow.2 (hinv j hlt other hother)
    · rw [hdir, Option.some.injEq] at hother
      exact hother ▸ ensureDir_ok faults hrun

theorem createDirAll_of_present (h : ∀ dir ∈ wayTo path, dir ∈ d.dirs) :
    (createDirAll faults path).exec d = (.ok (), d) := by
  rw [createDirAll]
  generalize wayTo path = dirs at h
  induction dirs with
  | nil => rfl
  | cons dir dirs ih =>
      have hdir : (ensureDir faults dir).exec d = (.ok (), d) := by
        have hisDir : d.isDir dir = true := decide_eq_true (h dir (List.mem_cons_self ..))
        rw [ensureDir, exec_bind, exec_get]
        dsimp only
        rw [if_pos hisDir]
        rfl
      change (ensureDir faults dir >>= fun _ => dirs.forM (ensureDir faults)).exec d = _
      rw [exec_bind_of_ok hdir]
      exact ih fun other hother => h other (List.mem_cons_of_mem dir hother)

/-- A file that stays in place: its directories exist. -/
def Placed (path : PathBuf) (d : Disk) : Prop :=
  (d.files path).isSome ∧ ∀ dir, IsPlain dir → Disk.Below dir path → dir ≠ path → dir ∈ d.dirs

/-- Placed files are as they were, and still placed. -/
def KeepsPlaced (d d' : Disk) : Prop :=
  ∀ path, IsPlain path → Placed path d → d'.files path = d.files path ∧ Placed path d'

instance : IsPreorder Disk KeepsPlaced where
  refl _ _ _ hplaced := ⟨rfl, hplaced⟩
  trans _ _ _ h h' path hpath hplaced :=
    ⟨(h' path hpath (h path hpath hplaced).2).1.trans (h path hpath hplaced).1,
      (h' path hpath (h path hpath hplaced).2).2⟩

theorem OnlyNewDirs.keepsPlaced (h : OnlyNewDirs d d') : KeepsPlaced d d' := by
  intro path _ hplaced
  have hsame := congrFun h.1 path
  refine ⟨hsame, by rw [hsame]; exact hplaced.1, ?_⟩
  exact fun dir hplain hbelow hne => h.2 (hplaced.2 dir hplain hbelow hne)

/-- Operations below a directory that did not exist touch no placed file. -/
theorem OnlyBelow.keepsPlaced (h : OnlyBelow dir d d') (hdir : IsPlain dir)
    (hnew : d.exists_ dir = false) : KeepsPlaced d d' := by
  intro path hpath hplaced
  rw [Disk.exists_, Bool.or_eq_false_iff, Disk.isFile, Disk.isDir] at hnew
  have hout : ¬ Disk.Below dir path := by
    intro hbelow
    by_cases heq : dir = path
    · subst heq
      rw [hplaced.1] at hnew
      exact absurd hnew.1 (by decide)
    · exact absurd (hplaced.2 dir hdir hbelow heq) (of_decide_eq_false hnew.2)
  have hsame := (h path hout).1
  refine ⟨hsame, by rw [hsame]; exact hplaced.1, ?_⟩
  intro other hplain hbelow hne
  refine (h other fun h' => hout ?_).2 (hplaced.2 other hplain hbelow hne)
  exact below_trans hdir hplain h' hbelow

/-- An atomic write replaces the whole file or leaves every file as it was. -/
theorem files_writeBytesAtomic {bytes : Bytes} {r : Result Unit}
    (h : (writeBytesAtomic faults path bytes).exec d = (r, d')) :
    (r = .ok () ∧ d'.files = Function.update d.files path (some bytes)) ∨
      d'.files = d.files := by
  have hwrite : ∀ m : Disk, m.files = d.files →
      (sysCall faults fun d => (.ok (), d.write path (some bytes))).exec m = (r, d') →
      (r = .ok () ∧ d'.files = Function.update d.files path (some bytes)) ∨
        d'.files = d.files := by
    intro m hm hrun
    simp only [sysCall, exec_op] at hrun
    split at hrun
    · cases hrun
      exact .inr hm
    · cases hrun
      exact .inl ⟨rfl, by rw [Disk.files_write, hm]⟩
  unfold writeBytesAtomic at h
  split at h
  · exact hwrite d rfl h
  · rename_i dir _
    have hdirs : ((createDirAll faults dir).exec d).2.files = d.files :=
      (preserves_createDirAll faults dir d).1
    rw [exec_bind] at h
    rcases hmake : (createDirAll faults dir).exec d with ⟨_ | _, m⟩
    · rw [hmake] at h hdirs
      cases h
      exact .inr hdirs
    · rw [hmake] at h hdirs
      exact hwrite m hdirs h

/-- What an atomic write leaves. -/
theorem writeBytesAtomic_ok {bytes : Bytes} (hdir : IsPlain dir) (hname : IsName name)
    (h : (writeBytesAtomic faults (joinPath dir name) bytes).exec d = (.ok (), d')) :
    d'.files = Function.update d.files (joinPath dir name) (some bytes) ∧
      d.dirs ⊆ d'.dirs ∧ Placed (joinPath dir name) d' := by
  rw [writeBytesAtomic, parent_joinPath hdir hname] at h
  dsimp only at h
  obtain ⟨_, m, hmake, hwrite⟩ := exec_bind_eq_ok_iff.mp h
  have hway := createDirAll_ok faults hmake
  have hnew : OnlyNewDirs d m := (preserves_createDirAll faults dir).exec_eq hmake
  simp only [sysCall, exec_op] at hwrite
  split at hwrite
  · cases hwrite
  · cases hwrite
    refine ⟨by rw [Disk.files_write, hnew.1], hnew.2, ?_, ?_⟩
    · simp
    · intro other hplain hbelow hne
      rcases below_dir_of_below_joinPath hdir hplain hname.2 hbelow with heq | hup
      · exact absurd heq hne
      · exact hway other (mem_wayTo.mpr ⟨hplain, hup⟩)

end

end Upriv
