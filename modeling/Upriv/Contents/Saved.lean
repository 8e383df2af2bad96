import Upriv.Contents.CreateSucceeds
import Upriv.Contents.Editing

/-!
# The two copies of a store

An opened store with its sealed index is a map with a saved copy: whatever is written,
flushed and opened again, and whichever of it fails, the contents read through the index in
memory and through the sealed index change as the two copies do.
-/

namespace Upriv.Contents

open FallibleM

section
variable {U : UuidCrate} {A : XChaCha20Poly1305} {contentsDir : PathBuf}
  {header : VaultHeader U} {contentKey : ContentKey} {call : WriteCall U}
  {index index' : VaultIndex} {path : String} {e : VaultIndexEntry} {s s' : ContentsStore}
  {error : UprivError}

/-! ## What a write does to the files -/

/-- The chunks of the entry that is overwritten are gone, and only its chunks and those of
the new UUID have changed. -/
structure Overwritten (contentsDir : PathBuf) (header : VaultHeader U) (call : WriteCall U)
    (s s' : ContentsStore) : Prop where
  gone : ∀ e, s.index.find call.logicalPath = some e → chunkCount e.size header.chunkSize ≠ 0 →
    ∃ u, U.parseStr e.fileId = some u ∧ s'.files (chunkPathOf U contentsDir u 0) = none
  kept : ∀ path, path ∉ chunkPathsOf U contentsDir call.newV4 →
    (∀ e u, s.index.find call.logicalPath = some e → U.parseStr e.fileId = some u →
      path ∉ chunkPathsOf U contentsDir u) → s'.files path = s.files path

theorem overwritten_of_ok (hhonest : HonestRemovals call.faults)
    (hparses : ∀ e, s.index.find call.logicalPath = some e → ∃ u, U.parseStr e.fileId = some u)
    (hfresh : ∀ e, s.index.find call.logicalPath = some e →
      U.parseStr e.fileId ≠ some call.newV4)
    (h : exec (writeLogicalFile A contentsDir header contentKey call) s = (.ok ⟨⟩, s')) :
    Overwritten contentsDir header call s s' := by
  constructor
  · intro e hfind hcount
    obtain ⟨u, hparse⟩ := hparses e hfind
    have hne : u ≠ call.newV4 := fun heq => hfresh e hfind (heq ▸ hparse)
    have hpos : 0 < (chunkCount e.size header.chunkSize).toNat :=
      Nat.pos_of_ne_zero fun hzero => hcount (UInt32.toNat_inj.mp hzero)
    exact ⟨u, hparse, writeLogicalFile_removes hhonest hfind hparse hne h 0 hpos⟩
  · intro path hnew hold
    let P : Set PathBuf := { p | ∃ e u, s.index.find call.logicalPath = some e ∧
        U.parseStr e.fileId = some u ∧ p ∈ chunkPathsOf U contentsDir u } ∪
      chunkPathsOf U contentsDir call.newV4
    have hframe : SameFilesExcept P s
        (exec (writeLogicalFile A contentsDir header contentKey call) s).2 :=
      sameFilesExcept_writeLogicalFile
        (fun e u i hfind hparse => .inl ⟨e, u, hfind, hparse, chunkPathOf_mem u i⟩)
        (fun i => .inr (chunkPathOf_mem call.newV4 i))
    rw [h] at hframe
    refine hframe path ?_
    rintro (⟨e, u, hfind, hparse, hin⟩ | hin)
    · exact hold e u hfind hparse hin
    · exact hnew hin

theorem LateFailure.overwritten {old : VaultIndexEntry}
    (hfind : s.index.find call.logicalPath = some old)
    (h : LateFailure contentsDir header call old s s') :
    Overwritten contentsDir header call s s' where
  gone e he hcount := by
    obtain rfl := Option.some.inj (hfind.symm.trans he)
    exact h.gone hcount
  kept path hnew hold := h.kept path hnew (.inr fun u hparse => hold old u hfind hparse)

/-- A write of a new path that fails leaves the index. -/
theorem overwritten_of_new (hfind : s.index.find call.logicalPath = none)
    (h : exec (writeLogicalFile A contentsDir header contentKey call) s = (.error error, s')) :
    s'.index = s.index ∧ Overwritten contentsDir header call s s' := by
  have hof (hindex : s'.index = s.index)
      (hframe : SameFilesExcept (chunkPathsOf U contentsDir call.newV4) s s') :
      s'.index = s.index ∧ Overwritten contentsDir header call s s' :=
    ⟨hindex, ⟨fun e he => absurd (hfind.symm.trans he) nofun, fun path hnew _ => hframe path hnew⟩⟩
  rw [writeLogicalFile, exec_ofExcept_bind] at h
  split at h
  · split at h
    · cases h
      exact hof rfl fun _ _ => rfl
    · have hremove : exec (removeExisting contentsDir header call) s = (.ok ⟨⟩, s) := by
        rw [removeExisting, exec_bind, exec_get]
        simp only [hfind]
        rfl
      rw [exec_bind_of_ok hremove] at h
      obtain ⟨hindex, hframe⟩ := writeRest_error h
      exact hof hindex hframe
  · cases h
    exact hof rfl fun _ _ => rfl

/-- A UUID of neither entry keeps its chunks. -/
theorem Overwritten.file_eq (h : Overwritten contentsDir header call s s') {u : U.Uuid}
    (hnew : u ≠ call.newV4)
    (hold : ∀ old, s.index.find call.logicalPath = some old → U.parseStr old.fileId ≠ some u)
    (i : UInt32) :
    s'.files (chunkPathOf U contentsDir u i) = s.files (chunkPathOf U contentsDir u i) := by
  refine h.kept _ (chunkPathOf_not_mem hnew i) fun old v hfind hparse => ?_
  refine chunkPathOf_not_mem ?_ i
  rintro rfl
  exact hold old hfind hparse

theorem Overwritten.read_eq (h : Overwritten contentsDir header call s s')
    (hfind : index'.find path = index.find path)
    (hnew : ∀ e, index.find path = some e → U.parseStr e.fileId ≠ some call.newV4)
    (hold : ∀ e u, index.find path = some e → U.parseStr e.fileId = some u →
      ∀ old, s.index.find call.logicalPath = some old → U.parseStr old.fileId ≠ some u) :
    readLogicalFile A contentsDir header contentKey s'.read index' path =
      readLogicalFile A contentsDir header contentKey s.read index path := by
  refine readLogicalFile_congr hfind fun e u i he hparse _ => ?_
  rw [hfind] at he
  have hne : u ≠ call.newV4 := fun heq => hnew e he (heq ▸ hparse)
  rw [ContentsStore.read, ContentsStore.read, h.file_eq hne (hold e u he hparse)]

/-! ## Entries without chunks -/

/-- The entry has no chunks, or its first chunk is gone. -/
def Spent (contentsDir : PathBuf) (header : VaultHeader U) (s : ContentsStore)
    (e : VaultIndexEntry) : Prop :=
  chunkCount e.size header.chunkSize = 0 ∨
    ∃ u, U.parseStr e.fileId = some u ∧ s.files (chunkPathOf U contentsDir u 0) = none

theorem read_of_noChunks {read read' : PathBuf → Except IoError Bytes}
    (hfind : index.find path = some e) (hcount : chunkCount e.size header.chunkSize = 0) :
    readLogicalFile A contentsDir header contentKey read index path =
      readLogicalFile A contentsDir header contentKey read' index path := by
  refine readLogicalFile_congr rfl fun found u i hfound _ hi => ?_
  obtain rfl := Option.some.inj (hfind.symm.trans hfound)
  rw [hcount] at hi
  exact absurd hi (Nat.not_lt_zero i)

/-- A file of chunks is empty exactly when there are none. -/
theorem isEmpty_of_read {read : PathBuf → Except IoError Bytes} {plain : Bytes}
    (hfind : index.find path = some e)
    (hread : readLogicalFile A contentsDir header contentKey read index path = .ok plain) :
    plain.isEmpty = true ↔ chunkCount e.size header.chunkSize = 0 := by
  obtain ⟨found, g, hfound, -, hplain, hsize⟩ := readLogicalFile_eq_ok hread
  obtain rfl := Option.some.inj (hfind.symm.trans hfound)
  rw [List.isEmpty_iff]
  constructor
  · rintro rfl
    have hzero : e.size = 0 := hsize.symm
    rw [hzero, chunkCount, if_pos rfl]
  · intro hcount
    rw [hplain, hcount]
    rfl

theorem toOption_read_of_gone {u : U.Uuid} (hfind : index.find path = some e)
    (hcount : chunkCount e.size header.chunkSize ≠ 0) (hparse : U.parseStr e.fileId = some u)
    (hgone : s.files (chunkPathOf U contentsDir u 0) = none) :
    (readLogicalFile A contentsDir header contentKey s.read index path).toOption = none := by
  have hpos : 0 < (chunkCount e.size header.chunkSize).toNat :=
    Nat.pos_of_ne_zero fun hzero => hcount (UInt32.toNat_inj.mp hzero)
  rw [readLogicalFile_missing_first e hfind hparse hpos (by rw [ContentsStore.read, hgone])]
  rfl

/-- Of a spent entry nothing but an empty file is read. -/
theorem filter_read_of_spent (hfind : index.find path = some e)
    (hspent : Spent contentsDir header s e) :
    (readLogicalFile A contentsDir header contentKey s.read index path).toOption.filter
        List.isEmpty =
      (readLogicalFile A contentsDir header contentKey s.read index path).toOption := by
  by_cases hcount : chunkCount e.size header.chunkSize = 0
  · cases hread : readLogicalFile A contentsDir header contentKey s.read index path with
    | error _ => rfl
    | ok plain =>
        simp only [Except.toOption, Option.filter, (isEmpty_of_read hfind hread).mpr hcount,
          if_true]
  · obtain ⟨u, hparse, hgone⟩ := hspent.resolve_left hcount
    rw [toOption_read_of_gone hfind hcount hparse hgone]
    rfl

/-- Of the entry that was overwritten nothing but an empty file is left. -/
theorem Overwritten.read_old (h : Overwritten contentsDir header call s s')
    (hold : s.index.find call.logicalPath = some e) (hfind : index.find path = some e) :
    (readLogicalFile A contentsDir header contentKey s'.read index path).toOption =
      (readLogicalFile A contentsDir header contentKey s.read index path).toOption.filter
        List.isEmpty := by
  by_cases hcount : chunkCount e.size header.chunkSize = 0
  · rw [filter_read_of_spent hfind (.inl hcount), read_of_noChunks hfind hcount]
  · obtain ⟨u, hparse, hgone⟩ := h.gone e hold hcount
    rw [toOption_read_of_gone hfind hcount hparse hgone]
    cases hread : readLogicalFile A contentsDir header contentKey s.read index path with
    | error _ => rfl
    | ok plain =>
        have hplain : plain.isEmpty = false :=
          Bool.eq_false_iff.mpr fun hempty => hcount ((isEmpty_of_read hfind hread).mp hempty)
        simp only [Except.toOption, Option.filter, hplain, Bool.false_eq_true, if_false]

theorem Overwritten.spent_old (h : Overwritten contentsDir header call s s')
    (hold : s.index.find call.logicalPath = some e) : Spent contentsDir header s' e := by
  by_cases hcount : chunkCount e.size header.chunkSize = 0
  · exact .inl hcount
  · exact .inr (h.gone e hold hcount)

theorem Overwritten.spent (h : Overwritten contentsDir header call s s')
    (hnew : U.parseStr e.fileId ≠ some call.newV4)
    (hold : ∀ u, U.parseStr e.fileId = some u →
      ∀ old, s.index.find call.logicalPath = some old → U.parseStr old.fileId ≠ some u)
    (hspent : Spent contentsDir header s e) : Spent contentsDir header s' e := by
  rcases hspent with hcount | ⟨u, hparse, hgone⟩
  · exact .inl hcount
  · have hne : u ≠ call.newV4 := fun heq => hnew (heq ▸ hparse)
    exact .inr ⟨u, hparse, (h.file_eq hne (hold u hparse) 0).trans hgone⟩

end

section
variable {U : UuidCrate} {C : StoreCrates U} {faults : Upriv.Faults}
  {draws : ℕ → StoreDraws U} {contentsDir : PathBuf} {base : OpenedStore U}
  {saved : VaultIndex} {s s' : Editing U} {call : WriteCall U} {t : ContentsStore}

/-! ## The invariant -/

/-- The store is `base` with the index of the moment, a password unlocks it, the disk holds
its header and the sealed index `saved`, a UUID belongs to one entry, and an entry of `saved`
is the current one of its path or spent. -/
structure EditInv (C : StoreCrates U) (contentsDir : PathBuf) (base : OpenedStore U)
    (saved : VaultIndex) (s : Editing U) : Prop where
  keys : s.store = { base with index := s.store.index }
  unlocks : ∃ password, Unlocks C base.header password base.masterKey base.contentKey
    base.indexKey
  version : s.store.index.formatVersion = FORMAT_VERSION
  header : HeaderStored C contentsDir base.header s.disk
  index : IndexStored C contentsDir base.header base.indexKey saved s.disk
  parses : ∀ e ∈ s.store.index.entries ++ saved.entries, ∃ u, U.parseStr e.fileId = some u
  apart : ∀ a ∈ s.store.index.entries ++ saved.entries,
    ∀ b ∈ s.store.index.entries ++ saved.entries,
    ∀ u, U.parseStr a.fileId = some u → U.parseStr b.fileId = some u → a = b
  spent : ∀ path e, saved.find path = some e →
    s.store.index.find path = some e ∨ Spent contentsDir base.header s.contents e

theorem IndexStored.sealedIndex_eq {header : VaultHeader U} {indexKey : IndexKey} {d : Disk}
    (h : IndexStored C contentsDir header indexKey saved d) (hfiles : t.files = d.files) :
    sealedIndex C contentsDir header indexKey t = .ok saved := by
  obtain ⟨blob, plain, hblob, hopen, hdecode⟩ := h.file
  have hread : t.read (indexPath contentsDir) = .ok blob := by
    rw [ContentsStore.read, hfiles, hblob]
  rw [sealedIndex, hread]
  simp only [Except.mapError, except_ok_bind, hopen, hdecode, h.version, if_true]

theorem EditInv.entries_eq (h : EditInv C contentsDir base saved s) :
    s.entries C contentsDir = s.store.index.entries ++ saved.entries := by
  rw [Editing.entries, h.keys, h.index.sealedIndex_eq rfl]

/-- What an index reads from the files. -/
def Editing.reads (C : StoreCrates U) (contentsDir : PathBuf) (base : OpenedStore U)
    (s : Editing U) (index : VaultIndex) (path : String) : Option Bytes :=
  (readLogicalFile C.xchacha contentsDir base.header base.contentKey s.contents.read index
    path).toOption

theorem EditInv.view_eq (h : EditInv C contentsDir base saved s) :
    s.view C contentsDir =
      { live := s.reads C contentsDir base s.store.index
        saved := s.reads C contentsDir base saved } := by
  have hsealed : sealedIndex C contentsDir s.store.header s.store.indexKey s.contents =
      .ok saved := by
    rw [h.keys]
    exact h.index.sealedIndex_eq rfl
  rw [Editing.view]
  congr 1
  · rw [h.keys]
    rfl
  · funext path
    rw [readSealed, hsealed, except_ok_bind, h.keys]
    rfl

/-! ## A write -/

/-- A write that left the index with its old entries and its own, and took the old file of
its path away, keeps the invariant. -/
theorem EditInv.of_overwritten (h : EditInv C contentsDir base saved s)
    (hfresh : ∀ e ∈ s.store.index.entries ++ saved.entries,
      U.parseStr e.fileId ≠ some call.newV4)
    (hover : Overwritten contentsDir base.header call s.contents t)
    (hversion : t.index.formatVersion = FORMAT_VERSION)
    (hentries : ∀ e ∈ t.index.entries, e ∈ s.store.index.entries ∨ e = call.entry)
    (hothers : ∀ path, path ≠ call.logicalPath →
      t.index.find path = s.store.index.find path) :
    EditInv C contentsDir base saved (s.setContents t) := by
  have hmem {e : VaultIndexEntry} (he : e ∈ t.index.entries ++ saved.entries) :
      e ∈ s.store.index.entries ++ saved.entries ∨ e = call.entry := by
    rcases List.mem_append.mp he with he | he
    · exact (hentries e he).imp_left fun he => List.mem_append_left _ he
    · exact .inl (List.mem_append_right _ he)
  have hsame (path : PathBuf) (hpath : ∀ u i, path ≠ chunkPathOf U contentsDir u i) :
      t.files path = s.disk.files path :=
    hover.kept path (fun ⟨i, hi⟩ => hpath _ i hi.symm) fun _ u _ _ ⟨i, hi⟩ => hpath u i hi.symm
  have hsaved {path : String} {e : VaultIndexEntry} (he : saved.find path = some e) :
      e ∈ s.store.index.entries ++ saved.entries := List.mem_append_right _ (mem_of_find he)
  refine ⟨?_, h.unlocks, hversion, ?_, ?_, fun e he => ?_, fun a ha b hb u hau hbu => ?_,
    fun path e he => ?_⟩
  · change { s.store with index := t.index } = _
    rw [h.keys]
    rfl
  · exact h.header.of_sameAt (hsame _ fun u i => (chunkPathOf_ne_headerPath u i _).symm)
  · exact h.index.of_sameAt (hsame _ fun u i => (chunkPathOf_ne_indexPath u i _).symm)
  · rcases hmem he with he | rfl
    · exact h.parses e he
    · exact ⟨call.newV4, parseStr_fileId call⟩
  · rcases hmem ha with ha | rfl <;> rcases hmem hb with hb | rfl
    · exact h.apart a ha b hb u hau hbu
    · obtain rfl := Option.some.inj ((parseStr_fileId call).symm.trans hbu)
      exact absurd hau (hfresh a ha)
    · obtain rfl := Option.some.inj ((parseStr_fileId call).symm.trans hau)
      exact absurd hbu (hfresh b hb)
    · rfl
  · -- An entry that was spent stays so; the overwritten one becomes so.
    by_cases hold : s.store.index.find call.logicalPath = some e
    · exact .inr (hover.spent_old hold)
    · have hspent (hspent : Spent contentsDir base.header s.contents e) :
          Spent contentsDir base.header t e := by
        refine hover.spent (hfresh e (hsaved he)) (fun u hu old hfind hparse => hold ?_) hspent
        rw [h.apart e (hsaved he) old (List.mem_append_left _ (mem_of_find hfind)) u hu hparse]
        exact hfind
      rcases h.spent path e he with hlive | hgone
      · have hpath : path ≠ call.logicalPath := by
          rintro rfl
          exact hold hlive
        exact .inl ((hothers path hpath).trans hlive)
      · exact .inr (hspent hgone)

/-- The other paths read as before, and of the saved copy of the path nothing is left but
an empty file. -/
theorem EditInv.view_overwritten (h : EditInv C contentsDir base saved s)
    (hfresh : ∀ e ∈ s.store.index.entries ++ saved.entries,
      U.parseStr e.fileId ≠ some call.newV4)
    (hover : Overwritten contentsDir base.header call s.contents t)
    (hothers : ∀ path, path ≠ call.logicalPath →
      t.index.find path = s.store.index.find path)
    (h' : EditInv C contentsDir base saved (s.setContents t)) :
    (s.setContents t).view C contentsDir =
      { live := Function.update (s.view C contentsDir).live call.logicalPath
          ((s.setContents t).reads C contentsDir base t.index call.logicalPath)
        saved := Function.update (s.view C contentsDir).saved call.logicalPath
          (((s.view C contentsDir).saved call.logicalPath).filter List.isEmpty) } := by
  have hother {index index' : VaultIndex} {path : String} (hpath : path ≠ call.logicalPath)
      (hfind : index'.find path = index.find path)
      (hmem : ∀ e, index.find path = some e → e ∈ s.store.index.entries ++ saved.entries) :
      (s.setContents t).reads C contentsDir base index' path =
        s.reads C contentsDir base index path := by
    refine congrArg Except.toOption (hover.read_eq hfind (fun e he => hfresh e (hmem e he)) ?_)
    intro e u he hu old hold hparse
    have hsame : e = old :=
      h.apart e (hmem e he) old (List.mem_append_left _ (mem_of_find hold)) u hu hparse
    have hfound : old.path = call.logicalPath := path_of_find hold
    exact hpath ((path_of_find he).symm.trans (hsame ▸ hfound))
  rw [h'.view_eq, h.view_eq]
  congr 1
  · funext path
    by_cases hpath : path = call.logicalPath
    · subst hpath
      rw [Function.update_self]
      rfl
    · rw [Function.update_of_ne hpath]
      exact hother hpath (hothers path hpath) fun e he => List.mem_append_left _ (mem_of_find he)
  · funext path
    by_cases hpath : path = call.logicalPath
    · subst hpath
      rw [Function.update_self]
      cases hfind : saved.find call.logicalPath with
      | none =>
          simp only [Editing.reads, readLogicalFile, hfind]
          rfl
      | some e =>
          by_cases hold : s.store.index.find call.logicalPath = some e
          · exact hover.read_old hold hfind
          · have hspent := (h.spent _ e hfind).resolve_left hold
            refine Eq.trans ?_ (filter_read_of_spent hfind hspent).symm
            have hmem : e ∈ s.store.index.entries ++ saved.entries :=
              List.mem_append_right _ (mem_of_find hfind)
            refine congrArg Except.toOption (hover.read_eq rfl ?_ ?_)
            · intro found hfound
              obtain rfl := Option.some.inj (hfind.symm.trans hfound)
              exact hfresh e hmem
            · intro found u hfound hu old hlive hparse
              obtain rfl := Option.some.inj (hfind.symm.trans hfound)
              refine hold ?_
              rw [h.apart e hmem old (List.mem_append_left _ (mem_of_find hlive)) u hu hparse]
              exact hlive
    · rw [Function.update_of_ne hpath]
      exact hother hpath rfl fun e he => List.mem_append_right _ (mem_of_find he)

theorem EditInv.write_eq (h : EditInv C contentsDir base saved s) :
    s.write C contentsDir call =
      exec (writeLogicalFile C.xchacha contentsDir base.header base.contentKey call)
        s.contents := by
  rw [Editing.write, h.keys]

theorem EditInv.fresh (h : EditInv C contentsDir base saved s)
    (hw : Writable C contentsDir s call) :
    ∀ e ∈ s.store.index.entries ++ saved.entries, U.parseStr e.fileId ≠ some call.newV4 := by
  rw [← h.entries_eq]
  exact hw.fresh

theorem EditInv.write_ok (h : EditInv C contentsDir base saved s)
    (hw : Writable C contentsDir s call) (hrun : s.write C contentsDir call = (.ok ⟨⟩, t)) :
    EditInv C contentsDir base saved (s.setContents t) ∧
      (s.setContents t).view C contentsDir =
        (s.view C contentsDir).apply List.isEmpty (.write call.logicalPath call.plaintext) := by
  rw [h.write_eq] at hrun
  have hfits : call.plaintext.length ⌈/⌉ base.header.chunkSize.toNat < 2 ^ 32 := by
    have hfits := hw.fits
    rwa [h.keys] at hfits
  have hmem {e : VaultIndexEntry} (he : s.contents.index.find call.logicalPath = some e) :
      e ∈ s.store.index.entries ++ saved.entries := List.mem_append_left _ (mem_of_find he)
  have hindex : t.index = (s.store.index.retain call.logicalPath).push call.entry :=
    (writeLogicalFile_ok hrun).2.1
  have hover : Overwritten contentsDir base.header call s.contents t :=
    overwritten_of_ok hw.honest (fun e he => h.parses e (hmem he))
      (fun e he => h.fresh hw e (hmem he)) hrun
  have hothers : ∀ path, path ≠ call.logicalPath →
      t.index.find path = s.store.index.find path := by
    intro path hpath
    rw [hindex, find_push, find_retain_of_ne hpath]
    simp [WriteCall.entry, Ne.symm hpath]
  have h' : EditInv C contentsDir base saved (s.setContents t) := by
    refine h.of_overwritten (h.fresh hw) hover ?_ (fun e he => ?_) hothers
    · rw [hindex]
      exact h.version
    · rw [hindex] at he
      rcases List.mem_append.mp he with he | he
      · exact .inl (List.mem_of_mem_filter he)
      · exact .inr (List.mem_singleton.mp he)
  have hread : (s.setContents t).reads C contentsDir base t.index call.logicalPath =
      some call.plaintext := congrArg Except.toOption (read_written hfits hrun)
  refine ⟨h', ?_⟩
  rw [h.view_overwritten (h.fresh hw) hover hothers h', hread]
  rfl

theorem EditInv.write_error (h : EditInv C contentsDir base saved s)
    (hw : Writable C contentsDir s call) {error : UprivError}
    (hrun : s.write C contentsDir call = (.error error, t)) :
    EditInv C contentsDir base saved (s.setContents t) ∧
      ((s.setContents t).view C contentsDir = s.view C contentsDir ∨
        (s.setContents t).view C contentsDir =
          (s.view C contentsDir).apply List.isEmpty (.lose call.logicalPath)) := by
  rw [h.write_eq] at hrun
  have hlose (hover : Overwritten contentsDir base.header call s.contents t)
      (hindex : t.index = s.store.index ∨ t.index = s.store.index.retain call.logicalPath)
      (hnone : (s.setContents t).reads C contentsDir base t.index call.logicalPath = none) :
      EditInv C contentsDir base saved (s.setContents t) ∧
        ((s.setContents t).view C contentsDir = s.view C contentsDir ∨
          (s.setContents t).view C contentsDir =
            (s.view C contentsDir).apply List.isEmpty (.lose call.logicalPath)) := by
    have hothers : ∀ path, path ≠ call.logicalPath →
        t.index.find path = s.store.index.find path := by
      intro path hpath
      rcases hindex with hindex | hindex
      · rw [hindex]
      · rw [hindex, find_retain_of_ne hpath]
    have h' : EditInv C contentsDir base saved (s.setContents t) := by
      refine h.of_overwritten (h.fresh hw) hover ?_ (fun e he => .inl ?_) hothers
      · rcases hindex with hindex | hindex <;> rw [hindex] <;> exact h.version
      · rcases hindex with hindex | hindex
        · rwa [hindex] at he
        · rw [hindex] at he
          exact List.mem_of_mem_filter he
    refine ⟨h', .inr ?_⟩
    rw [h.view_overwritten (h.fresh hw) hover hothers h', hnone]
    rfl
  cases hfind : s.store.index.find call.logicalPath with
  | none =>
      obtain ⟨hindex, hover⟩ := overwritten_of_new hfind hrun
      refine hlose hover (.inl hindex) ?_
      have hgone : t.index.find call.logicalPath = none := by
        rw [hindex]
        exact hfind
      simp only [Editing.reads, readLogicalFile, hgone]
      rfl
  | some old =>
      by_cases hearly : FailsBeforeRemoval contentsDir base.header call old
      · have hsame : (exec (writeLogicalFile C.xchacha contentsDir base.header base.contentKey
            call) s.contents).2 = s.contents := writeLogicalFile_early hw.honest hfind hearly
        rw [hrun] at hsame
        rw [show t = s.contents from hsame]
        exact ⟨h, .inl rfl⟩
      · have hmem : old ∈ s.store.index.entries ++ saved.entries :=
          List.mem_append_left _ (mem_of_find hfind)
        have hlate := lateFailure_of_error hw.honest hfind (h.fresh hw old hmem) hearly hrun
        refine hlose (hlate.overwritten hfind) (hlate.index.imp_left And.left) ?_
        rw [Editing.reads]
        cases hread : readLogicalFile C.xchacha contentsDir base.header base.contentKey
            (s.setContents t).contents.read t.index call.logicalPath with
        | error _ => rfl
        | ok plain => exact absurd hread (hlate.path_lost hfind plain)

/-- Whatever the outcome, the index gains the entry of the write at most. -/
theorem EditInv.mem_entries_write (h : EditInv C contentsDir base saved s)
    {outcome : Result PUnit} (hrun : s.write C contentsDir call = (outcome, t)) :
    ∀ entry ∈ t.index.entries ++ saved.entries,
      entry ∈ s.store.index.entries ++ saved.entries ∨
        ∃ call', some call = some call' ∧ entry = call'.entry := by
  intro entry hentry
  rcases List.mem_append.mp hentry with hentry | hentry
  · have hwritten : entry ∈ (exec (writeLogicalFile C.xchacha contentsDir base.header
        base.contentKey call) s.contents).2.index.entries := by
      rw [← h.write_eq, hrun]
      exact hentry
    rcases mem_entries_writeLogicalFile hwritten with hold | rfl
    · exact .inl (List.mem_append_left _ hold)
    · exact .inr ⟨call, rfl, rfl⟩
  · exact .inl (List.mem_append_right _ hentry)

/-! ## Flushing and opening -/

theorem EditInv.flush (h : EditInv C contentsDir base saved s) {d : Disk}
    (hrun : (flushIndex C faults draws contentsDir s.store).exec s.disk = (.ok (), d)) :
    EditInv C contentsDir base s.store.index { s with disk := d } ∧
      ({ s with disk := d } : Editing U).view C contentsDir =
        (s.view C contentsDir).apply List.isEmpty .save := by
  have hrun' : (saveSealedIndex C faults draws contentsDir base.header base.indexKey
      s.store.index).exec s.disk = (.ok (), d) := by
    rw [flushIndex, h.keys] at hrun
    exact hrun
  obtain ⟨-, -, hfiles⟩ := saveSealedIndex_ok hrun'
  have hlive {e : VaultIndexEntry}
      (he : e ∈ s.store.index.entries ++ s.store.index.entries) :
      e ∈ s.store.index.entries ++ saved.entries :=
    List.mem_append_left _ ((List.mem_append.mp he).elim id id)
  have h' : EditInv C contentsDir base s.store.index { s with disk := d } :=
    { keys := h.keys
      unlocks := h.unlocks
      version := h.version
      header := h.header.of_sameAt (hfiles _ (indexPath_ne_headerPath _ _).symm)
      index := indexStored_saveSealedIndex h.version hrun'
      parses := fun e he => h.parses e (hlive he)
      apart := fun a ha b hb => h.apart a (hlive ha) b (hlive hb)
      spent := fun path e he => .inl he }
  have hreads (path : String) :
      ({ s with disk := d } : Editing U).reads C contentsDir base s.store.index path =
        s.reads C contentsDir base s.store.index path := by
    refine congrArg Except.toOption (readLogicalFile_congr rfl fun e u i _ _ _ => ?_)
    have hsame : d.files (chunkPathOf U contentsDir u (.ofNat i)) =
        s.disk.files (chunkPathOf U contentsDir u (.ofNat i)) :=
      hfiles _ (chunkPathOf_ne_indexPath u _ contentsDir)
    simp only [ContentsStore.read, Editing.contents, hsame]
  refine ⟨h', ?_⟩
  rw [h'.view_eq, h.view_eq, SavedMap.apply]
  congr 1 <;> exact funext hreads

/-- With the same files nothing changes. -/
theorem EditInv.of_sameFiles (h : EditInv C contentsDir base saved s) {d : Disk}
    (hfiles : d.files = s.disk.files) :
    EditInv C contentsDir base saved { s with disk := d } ∧
      ({ s with disk := d } : Editing U).view C contentsDir = s.view C contentsDir := by
  have hcontents : ({ s with disk := d } : Editing U).contents = s.contents := by
    rw [Editing.contents, Editing.contents, hfiles]
  refine ⟨⟨h.keys, h.unlocks, h.version, h.header.of_sameAt (congrFun hfiles _),
    h.index.of_sameAt (congrFun hfiles _), h.parses, h.apart, ?_⟩, ?_⟩
  · rw [hcontents]
    exact h.spent
  · rw [Editing.view, hcontents]
    rfl

/-- The index that is sealed becomes the one in memory. -/
theorem EditInv.of_saved (h : EditInv C contentsDir base saved s) {d : Disk}
    (hfiles : d.files = s.disk.files) :
    EditInv C contentsDir base saved ⟨{ base with index := saved }, d⟩ ∧
      (⟨{ base with index := saved }, d⟩ : Editing U).view C contentsDir =
        (s.view C contentsDir).apply List.isEmpty .restore := by
  have hsaved {e : VaultIndexEntry} (he : e ∈ saved.entries ++ saved.entries) :
      e ∈ s.store.index.entries ++ saved.entries :=
    List.mem_append_right _ ((List.mem_append.mp he).elim id id)
  have h' : EditInv C contentsDir base saved ⟨{ base with index := saved }, d⟩ :=
    { keys := rfl
      unlocks := h.unlocks
      version := h.index.version
      header := h.header.of_sameAt (congrFun hfiles _)
      index := h.index.of_sameAt (congrFun hfiles _)
      parses := fun e he => h.parses e (hsaved he)
      apart := fun a ha b hb => h.apart a (hsaved ha) b (hsaved hb)
      spent := fun path e he => .inl he }
  have hreads : (⟨{ base with index := saved }, d⟩ : Editing U).reads C contentsDir base saved =
      s.reads C contentsDir base saved := by
    funext path
    refine congrArg Except.toOption (readLogicalFile_congr rfl fun e u i _ _ _ => ?_)
    simp only [ContentsStore.read, Editing.contents, hfiles]
  refine ⟨h', ?_⟩
  rw [h'.view_eq, h.view_eq, SavedMap.apply, hreads]

/-! ## Runs -/

theorem EditInv.step {e : EditEvent U} (h : EditInv C contentsDir base saved s)
    (hstep : editStep C faults draws contentsDir s e = some s')
    (hallowed : EditAllowed C contentsDir s e s') :
    (∃ saved', EditInv C contentsDir base saved' s' ∧
        ∀ entry ∈ s'.store.index.entries ++ saved'.entries,
          entry ∈ s.store.index.entries ++ saved.entries ∨
            ∃ call, e.call? = some call ∧ entry = call.entry) ∧
      ∃ op, e.Does op ∧ s'.view C contentsDir = (s.view C contentsDir).apply List.isEmpty op := by
  cases e with
  | wrote call =>
      simp only [editStep] at hstep
      split at hstep
      · rename_i t hrun
        obtain rfl := Option.some.inj hstep
        obtain ⟨h', hview⟩ := h.write_ok hallowed hrun
        exact ⟨⟨saved, h', h.mem_entries_write hrun⟩, _, rfl, hview⟩
      · cases hstep
  | writeFailed call =>
      simp only [editStep] at hstep
      split at hstep
      · cases hstep
      · rename_i error t hrun
        obtain rfl := Option.some.inj hstep
        obtain ⟨h', hview | hview⟩ := h.write_error hallowed hrun
        · exact ⟨⟨saved, h', h.mem_entries_write hrun⟩, .idle, .inl rfl, hview⟩
        · exact ⟨⟨saved, h', h.mem_entries_write hrun⟩, _, .inr rfl, hview⟩
  | flushed =>
      simp only [editStep] at hstep
      split at hstep
      · rename_i d hrun
        obtain rfl := Option.some.inj hstep
        obtain ⟨h', hview⟩ := h.flush hrun
        refine ⟨⟨_, h', fun entry hentry => .inl (List.mem_append_left _ ?_)⟩, _, rfl, hview⟩
        exact (List.mem_append.mp hentry).elim id id
      · cases hstep
  | flushFailed =>
      simp only [editStep] at hstep
      split at hstep
      · cases hstep
      · rename_i error d hrun
        obtain rfl := Option.some.inj hstep
        obtain ⟨h', hview⟩ := h.of_sameFiles (files_saveSealedIndex_error hrun)
        exact ⟨⟨saved, h', fun _ hentry => .inl hentry⟩, .idle, rfl, hview⟩
  | opened attempt =>
      simp only [editStep] at hstep
      split at hstep
      · rename_i store d hrun
        obtain rfl := Option.some.inj hstep
        obtain ⟨password, hunlocks⟩ := h.unlocks
        have hstored : StoredAt C contentsDir password { base with index := saved } s.disk :=
          ⟨hunlocks, h.header, h.index⟩
        have hattempt : NoOtherKey C s.store.header s.store.masterKey attempt := hallowed
        rw [h.keys] at hattempt
        obtain rfl : store = { base with index := saved } :=
          hstored.unique hattempt (openStore_ok hrun)
        have hsame := (sameDisk_openStore contentsDir attempt).exec_eq hrun
        obtain ⟨h', hview⟩ := h.of_saved hsame.1
        refine ⟨⟨saved, h', fun entry hentry => .inl (List.mem_append_right _ ?_)⟩, _, rfl, hview⟩
        exact (List.mem_append.mp hentry).elim id id
      · cases hstep
  | openFailed attempt =>
      simp only [editStep] at hstep
      split at hstep
      · cases hstep
      · rename_i error d hrun
        obtain rfl := Option.some.inj hstep
        have hsame := (sameDisk_openStore contentsDir attempt).exec_eq hrun
        obtain ⟨h', hview⟩ := h.of_sameFiles hsame.1
        exact ⟨⟨saved, h', fun _ hentry => .inl hentry⟩, .idle, rfl, hview⟩

/-! ## New stores -/

/-- The store was created, empty or with its seed, and opened with its password. -/
def NewlyOpened (C : StoreCrates U) (faults : Upriv.Faults) (draws : ℕ → StoreDraws U)
    (contentsDir : PathBuf) (s : Editing U) : Prop :=
  ∃ password preset header d d',
    ((createSeededStore C faults draws contentsDir password preset).exec d = (.ok header, d') ∨
      (createEmptyStore C faults draws contentsDir password preset).exec d = (.ok header, d')) ∧
    (openStore C faults contentsDir password).exec d' = (.ok s.store, s.disk)

theorem createEmptyStore_stored (hplain : IsPlain contentsDir) {password : Bytes}
    {preset : KdfUnlockPreset} {header : VaultHeader U} {d d' : Disk}
    (h : (createEmptyStore C faults draws contentsDir password preset).exec d =
      (.ok header, d')) :
    ∃ masterKey contentKey indexKey,
      StoredAt C contentsDir password ⟨header, masterKey, contentKey, indexKey, .empty⟩ d' := by
  obtain ⟨⟨created, contentKey, indexKey⟩, m, hcore, h⟩ := exec_bind_eq_ok_iff.mp h
  obtain ⟨_, m', hseal, h⟩ := exec_bind_eq_ok_iff.mp h
  cases h
  obtain ⟨⟨masterKey, hunlocks⟩, hheader, -⟩ := createStoreCore_ok hplain hcore
  refine ⟨masterKey, contentKey, indexKey, hunlocks, ?_, ?_⟩
  · exact hheader.of_sameAt ((saveSealedIndex_ok hseal).2.2 _ (indexPath_ne_headerPath _ _).symm)
  · exact indexStored_saveSealedIndex rfl hseal

/-- With one entry at most no two entries share a UUID. -/
theorem apart_of_single {index : VaultIndex}
    (hindex : index = .empty ∨ ∃ call : WriteCall U, index = VaultIndex.empty.push call.entry)
    {a b : VaultIndexEntry} (ha : a ∈ index.entries ++ index.entries)
    (hb : b ∈ index.entries ++ index.entries) :
    a = b ∧ ∃ u, U.parseStr a.fileId = some u := by
  rcases hindex with rfl | ⟨call, rfl⟩
  · simp [VaultIndex.empty] at ha
  · simp only [VaultIndex.empty, entries_push, List.nil_append, List.mem_append,
      List.mem_singleton, or_self] at ha hb
    rw [ha, hb]
    exact ⟨rfl, call.newV4, parseStr_fileId call⟩

theorem NewlyOpened.editInv (hplain : IsPlain contentsDir)
    (h : NewlyOpened C faults draws contentsDir s) :
    EditInv C contentsDir s.store s.store.index s := by
  obtain ⟨password, preset, header, d, d', hcreate, hopen⟩ := h
  have hstored : ∃ store, StoredAt C contentsDir password store d' ∧ (store.index = .empty ∨
      ∃ call : WriteCall U, store.index = VaultIndex.empty.push call.entry) := by
    rcases hcreate with hcreate | hcreate
    · obtain ⟨masterKey, contentKey, indexKey, index, hunlocks, hheader, hindex, hcall, -⟩ :=
        createSeededStore_stored hplain hcreate
      exact ⟨⟨header, masterKey, contentKey, indexKey, index⟩, ⟨hunlocks, hheader, hindex⟩,
        .inr hcall⟩
    · obtain ⟨masterKey, contentKey, indexKey, hstored⟩ :=
        createEmptyStore_stored hplain hcreate
      exact ⟨_, hstored, .inl rfl⟩
  obtain ⟨store, hstored, hindex⟩ := hstored
  obtain rfl : s.store = store :=
    hstored.unique hstored.unlocks.unwraps.noOtherKey (openStore_ok hopen)
  have hsame := (sameDisk_openStore contentsDir password).exec_eq hopen
  exact {
    keys := rfl
    unlocks := ⟨password, hstored.unlocks⟩
    version := hstored.index.version
    header := hstored.header.of_sameAt (congrFun hsame.1 _)
    index := hstored.index.of_sameAt (congrFun hsame.1 _)
    parses := fun e he => (apart_of_single hindex he he).2
    apart := fun a ha b hb _ _ _ => (apart_of_single hindex ha hb).1
    spent := fun path e he => .inl he }

theorem EditInv.run {events : List (EditEvent U)}
    (h : ∃ saved, EditInv C contentsDir base saved s)
    (hrun : Run (editStep C faults draws contentsDir) (EditAllowed C contentsDir) s events s') :
    (∃ saved, EditInv C contentsDir base saved s') ∧
      ∃ ops, List.Forall₂ EditEvent.Does events ops ∧
        s'.view C contentsDir = SavedMap.run List.isEmpty ops (s.view C contentsDir) := by
  refine hrun.exists_operations (fun m => ∃ saved, EditInv C contentsDir base saved m)
    (Editing.view C contentsDir) h ?_
  rintro m e m' ⟨saved, h⟩ hstep hallowed
  obtain ⟨⟨saved', h', -⟩, hop⟩ := h.step hstep hallowed
  exact ⟨⟨saved', h'⟩, hop⟩

/-- Whatever happens to a store after its creation, what its two indexes read changes as a
map with a saved copy does. -/
theorem edits_refine (hplain : IsPlain contentsDir)
    (hnew : NewlyOpened C faults draws contentsDir s) {events : List (EditEvent U)}
    (hrun : Run (editStep C faults draws contentsDir) (EditAllowed C contentsDir) s events s') :
    ∃ ops, List.Forall₂ EditEvent.Does events ops ∧
      s'.view C contentsDir = SavedMap.run List.isEmpty ops (s.view C contentsDir) := by
  exact (EditInv.run ⟨_, hnew.editInv hplain⟩ hrun).2

/-! ## What a path reads later -/

theorem EditEvent.Does.key_ne {e : EditEvent U} {op : SavedMap.Op String Bytes} {path : String}
    (h : e.Does op) (hpath : e.path? ≠ some path) : op.key? ≠ some path := by
  cases e with
  | wrote call =>
      obtain rfl := h
      exact hpath
  | writeFailed call =>
      rcases h with rfl | rfl
      · exact nofun
      · exact hpath
  | flushed => obtain rfl := h; exact nofun
  | flushFailed => obtain rfl := h; exact nofun
  | opened _ => obtain rfl := h; exact nofun
  | openFailed _ => obtain rfl := h; exact nofun

theorem keys_ne_of_paths {events : List (EditEvent U)} {ops : List (SavedMap.Op String Bytes)}
    {path : String} (hops : List.Forall₂ EditEvent.Does events ops)
    (hpaths : ∀ e ∈ events, e.path? ≠ some path) : ∀ op ∈ ops, op.key? ≠ some path := by
  induction hops with
  | nil => exact fun op hop => absurd hop List.not_mem_nil
  | cons hdoes _ ih =>
      intro op hop
      rcases List.mem_cons.mp hop with rfl | hop
      · exact hdoes.key_ne (hpaths _ List.mem_cons_self)
      · exact ih (fun e he => hpaths e (List.mem_cons_of_mem _ he)) op hop

theorem savedFirst_of_flushedFirst {events : List (EditEvent U)}
    {ops : List (SavedMap.Op String Bytes)} (hops : List.Forall₂ EditEvent.Does events ops)
    (hflushed : FlushedFirst events) : SavedMap.SavedFirst ops := by
  induction hops with
  | nil => trivial
  | @cons e _ _ _ hdoes _ ih =>
      cases e with
      | wrote call => obtain rfl := hdoes; exact ih hflushed
      | writeFailed call => rcases hdoes with rfl | rfl <;> exact ih hflushed
      | flushed => obtain rfl := hdoes; trivial
      | flushFailed => obtain rfl := hdoes; exact ih hflushed
      | opened _ => exact hflushed.elim
      | openFailed _ => obtain rfl := hdoes; exact ih hflushed

theorem toOption_eq_some {x : Result Bytes} {plain : Bytes} :
    x.toOption = some plain ↔ x = .ok plain := by
  cases x <;> simp [Except.toOption]

/-- What was written last is read, also after a restart, if it was flushed before. -/
theorem read_last_write (hplain : IsPlain contentsDir)
    (hnew : NewlyOpened C faults draws contentsDir s) {before after : List (EditEvent U)}
    {m m' : Editing U}
    (hbefore : Run (editStep C faults draws contentsDir) (EditAllowed C contentsDir) s before m)
    (hwrite : editStep C faults draws contentsDir m (.wrote call) = some m')
    (hallowed : Writable C contentsDir m call)
    (hafter : Run (editStep C faults draws contentsDir) (EditAllowed C contentsDir) m' after s')
    (hpaths : ∀ e ∈ after, e.path? ≠ some call.logicalPath)
    (hflushed : FlushedFirst after) :
    readOpen C contentsDir s'.store.header s'.store.contentKey s'.contents call.logicalPath =
      .ok call.plaintext := by
  obtain ⟨⟨saved, hm⟩, -⟩ := EditInv.run ⟨_, hnew.editInv hplain⟩ hbefore
  obtain ⟨⟨saved', hm', -⟩, op, rfl, hview⟩ := hm.step hwrite hallowed
  obtain ⟨-, ops, hops, hview'⟩ := EditInv.run ⟨_, hm'⟩ hafter
  have hlive : (s'.view C contentsDir).live call.logicalPath = some call.plaintext := by
    rw [hview', SavedMap.live_run_of_saved (keys_ne_of_paths hops hpaths)
      (savedFirst_of_flushedFirst hops hflushed), hview]
    exact Function.update_self _ _ _
  exact toOption_eq_some.mp hlive

/-- What a flush has saved is read whenever the store is opened again, until its path is
written. -/
theorem read_since_flush (hplain : IsPlain contentsDir)
    (hnew : NewlyOpened C faults draws contentsDir s) {before after : List (EditEvent U)}
    {m m' : Editing U} {path : String}
    (hbefore : Run (editStep C faults draws contentsDir) (EditAllowed C contentsDir) s before m)
    (hflush : editStep C faults draws contentsDir m .flushed = some m')
    (hafter : Run (editStep C faults draws contentsDir) (EditAllowed C contentsDir) m' after s')
    (hpaths : ∀ e ∈ after, e.path? ≠ some path) (plain : Bytes) :
    readOpen C contentsDir s'.store.header s'.store.contentKey s'.contents path = .ok plain ↔
      readOpen C contentsDir m.store.header m.store.contentKey m.contents path = .ok plain := by
  obtain ⟨⟨saved, hm⟩, -⟩ := EditInv.run ⟨_, hnew.editInv hplain⟩ hbefore
  obtain ⟨⟨saved', hm', -⟩, op, rfl, hview⟩ := hm.step hflush trivial
  obtain ⟨-, ops, hops, hview'⟩ := EditInv.run ⟨_, hm'⟩ hafter
  have hlive : (s'.view C contentsDir).live path = (m.view C contentsDir).live path := by
    rw [hview', (SavedMap.run_of_agrees (by rw [hview]; rfl) (keys_ne_of_paths hops hpaths)).1,
      hview]
    rfl
  rw [← toOption_eq_some, ← toOption_eq_some]
  exact Eq.congr_left hlive

end

/-! ## A sample store -/

theorem createEmptyStore_succeeds {U : UuidCrate} {C : StoreCrates U}
    {draws : ℕ → StoreDraws U} {contentsDir dest : PathBuf} {folders : List PathBuf}
    {password : Bytes} {preset : KdfUnlockPreset} (haccepting : Accepting C password preset)
    (hfolders : StoreFolders contentsDir dest folders) :
    Succeeds (Filling dest folders [])
      (createEmptyStore C noFaults draws contentsDir password preset)
      fun _ => Filling dest folders [indexPath contentsDir, headerPath contentsDir] := by
  refine (createStoreCore_succeeds haccepting hfolders).bind fun core => ?_
  obtain ⟨header, contentKey, indexKey⟩ := core
  exact (saveSealedIndex_succeeds haccepting hfolders header indexKey .empty).bind fun _ =>
    Succeeds.pure fun _ h => h

def sampleDraws (_ : ℕ) : StoreDraws UuidCrate.hyphenated where
  masterKey := Vector.replicate 32 1
  salt := Vector.replicate 16 1
  contentIdentity := uuidB
  wrapNonce := Vector.replicate 24 0
  indexNonce := Vector.replicate 16 0
  fileId := uuidB
  chunkNonce _ := Vector.replicate 24 0
  chunkFaults _ := none

def everyCrates : StoreCrates UuidCrate.hyphenated := .everyDocument _

def sampleFolders : List PathBuf :=
  [joinPath "contents" INDEX_DIR_NAME, joinPath "contents" DATA_DIR_NAME]

def bareDisk : Disk := ⟨fun _ => none, (wayTo "contents").toFinset, 0⟩

theorem isPlain_sample : IsPlain "contents" := by decide

section
variable {U : UuidCrate} {C : StoreCrates U} {faults : Upriv.Faults}
  {draws : ℕ → StoreDraws U} {contentsDir : PathBuf} {s : Editing U}

theorem editStep_wrote {call : WriteCall U} {t : ContentsStore}
    (h : s.write C contentsDir call = (.ok ⟨⟩, t)) :
    editStep C faults draws contentsDir s (.wrote call) = some (s.setContents t) := by
  simp only [editStep, h]

theorem editStep_flushed {d : Disk}
    (h : (flushIndex C faults draws contentsDir s.store).exec s.disk = (.ok (), d)) :
    editStep C faults draws contentsDir s .flushed = some { s with disk := d } := by
  simp only [editStep, h]

theorem editStep_opened {password : Bytes} {store : OpenedStore U} {d : Disk}
    (h : (openStore C faults contentsDir password).exec s.disk = (.ok store, d)) :
    editStep C faults draws contentsDir s (.opened password) = some ⟨store, d⟩ := by
  simp only [editStep, h]

end

/-- The sample store is a store of `base` with its folders free. -/
structure SampleState (base : OpenedStore UuidCrate.hyphenated) (saved : VaultIndex)
    (s : Editing UuidCrate.hyphenated) : Prop where
  inv : EditInv everyCrates "contents" base saved s
  free : Filling "contents" sampleFolders [] s.disk

theorem exists_newStore :
    ∃ s, NewlyOpened everyCrates noFaults sampleDraws "contents" s ∧
      s.store.index = .empty ∧ Unwraps everyCrates s.store.header [1] s.store.masterKey ∧
      SampleState s.store s.store.index s := by
  have haccepting : Accepting everyCrates [1] .m32 := accepting_everyDocument _ _ _
  have hfolders : StoreFolders "contents" "contents" sampleFolders :=
    storeFolders_self isPlain_sample
  have hbare : Filling "contents" sampleFolders [] bareDisk :=
    ⟨fun dir hdir => List.mem_toFinset.mpr hdir, fun _ _ => rfl,
      fun path hpath => absurd hpath List.not_mem_nil⟩
  have hcreates : Succeeds (Filling "contents" sampleFolders [])
      (createEmptyStore everyCrates noFaults sampleDraws "contents" [1] .m32)
      fun _ => Filling "contents" sampleFolders [indexPath "contents", headerPath "contents"] :=
    createEmptyStore_succeeds haccepting hfolders
  obtain ⟨header, d₁, hcreate, hfilled⟩ := hcreates bareDisk hbare
  obtain ⟨masterKey, contentKey, indexKey, hstored⟩ :=
    createEmptyStore_stored isPlain_sample hcreate
  obtain ⟨d₂, hopen⟩ := exec_openStore hstored.unlocks hstored.header hstored.index
  let s : Editing UuidCrate.hyphenated := ⟨⟨header, masterKey, contentKey, indexKey, .empty⟩, d₂⟩
  have hnew : NewlyOpened everyCrates noFaults sampleDraws "contents" s :=
    ⟨_, _, _, _, _, .inr hcreate, hopen⟩
  have hfilled₂ := hfilled.of_sameDisk ((sameDisk_openStore "contents" _).exec_eq hopen)
  exact ⟨s, hnew, rfl, hstored.unlocks.unwraps, hnew.editInv isPlain_sample,
    hfilled₂.of_subset fun path hpath => absurd hpath List.not_mem_nil⟩

section
variable {base : OpenedStore UuidCrate.hyphenated} {saved : VaultIndex}
  {s : Editing UuidCrate.hyphenated}

/-- An undisturbed write succeeds and touches no folder. -/
theorem SampleState.exists_wrote (h : SampleState base saved s)
    {call : WriteCall UuidCrate.hyphenated} (hpath : logicalPathInvalid call.logicalPath = false)
    (hfaults : ∀ fsCall, call.faults fsCall = none)
    (hwritable : Writable everyCrates "contents" s call) :
    ∃ t, s.write everyCrates "contents" call = (.ok ⟨⟩, t) ∧
      SampleState base saved (s.setContents t) := by
  have hchunkSize : s.store.header.chunkSize = CHUNK_SIZE := by
    rw [h.inv.keys]
    exact chunkSize_of_valid h.inv.header.valid
  have hok : (s.write everyCrates "contents" call).1 = .ok ⟨⟩ :=
    writeLogicalFile_succeeds hpath (by rw [hchunkSize]; decide) hfaults (fun _ _ _ _ => rfl)
      fun e he => h.inv.parses e (List.mem_append_left _ (mem_of_find he))
  obtain ⟨t, hwrite⟩ : ∃ t, s.write everyCrates "contents" call = (.ok ⟨⟩, t) :=
    exists_exec_eq hok
  have hframe : SameFilesExcept { path | ∃ u i, chunkPathOf UuidCrate.hyphenated "contents" u i =
      path } s.contents (s.write everyCrates "contents" call).2 :=
    sameFilesExcept_writeLogicalFile (fun _ u i _ _ => ⟨u, i, rfl⟩) fun i => ⟨_, i, rfl⟩
  rw [hwrite] at hframe
  refine ⟨t, hwrite, (h.inv.write_ok hwritable hwrite).1, h.free.way, fun folder hfolder => ?_,
    fun path hpath => absurd hpath List.not_mem_nil⟩
  refine (hframe folder ?_).trans (h.free.free folder hfolder)
  rintro ⟨u, i, rfl⟩
  have hsuffix : ∀ name ∈ [INDEX_DIR_NAME, DATA_DIR_NAME],
      ¬ CHUNK_FILE_SUFFIX.toList <:+ name.toList := by decide
  have hname := (isName_chunkFileName isHyphenated_hyphenated u i).2
  simp only [sampleFolders, List.mem_cons, List.not_mem_nil, or_false] at hfolder
  rcases hfolder with h | h
  · exact hsuffix _ List.mem_cons_self
      (name_of_joinPath_eq hname isName_INDEX_DIR_NAME.2 h ▸ suffix_chunkFileName u i)
  · exact hsuffix _ (List.mem_cons_of_mem _ List.mem_cons_self)
      (name_of_joinPath_eq hname isName_DATA_DIR_NAME.2 h ▸ suffix_chunkFileName u i)

theorem SampleState.exists_flushed (h : SampleState base saved s) :
    ∃ d, (flushIndex everyCrates noFaults sampleDraws "contents" s.store).exec s.disk =
        (.ok (), d) ∧ SampleState base s.store.index { s with disk := d } := by
  have haccepting : Accepting everyCrates [1] .m32 := accepting_everyDocument _ _ _
  have hflushes : Succeeds (Filling "contents" sampleFolders [])
      (flushIndex everyCrates noFaults sampleDraws "contents" s.store)
      fun _ => Filling "contents" sampleFolders [indexPath "contents"] :=
    saveSealedIndex_succeeds haccepting (storeFolders_self isPlain_sample) _ _ _
  obtain ⟨_, d, hflush, hfilled⟩ := hflushes _ h.free
  exact ⟨d, hflush, (h.inv.flush hflush).1,
    hfilled.of_subset fun path hpath => absurd hpath List.not_mem_nil⟩

/-- A write of at most three bytes with a UUID that no entry has. -/
theorem SampleState.writable (h : SampleState base saved s)
    {call : WriteCall UuidCrate.hyphenated} (hfaults : ∀ fsCall, call.faults fsCall = none)
    (hlength : call.plaintext.length ≤ 3)
    (hfresh : ∀ e ∈ s.store.index.entries ++ saved.entries,
      UuidCrate.hyphenated.parseStr e.fileId ≠ some call.newV4) :
    Writable everyCrates "contents" s call := by
  refine ⟨fun e he => hfresh e (h.inv.entries_eq ▸ he), fun path error hfault => ?_, ?_⟩
  · rw [hfaults] at hfault
    cases hfault
  · have hchunkSize : s.store.header.chunkSize = CHUNK_SIZE := by
      rw [h.inv.keys]
      exact chunkSize_of_valid h.inv.header.valid
    have hle := ceilDiv_le_self call.plaintext.length (c := s.store.header.chunkSize.toNat)
      (by rw [hchunkSize]; decide)
    omega

end

/-- A new store, a write, a flush and a second opening. -/
theorem editing_sample :
    ∃ s m m' s', NewlyOpened everyCrates noFaults sampleDraws "contents" s ∧
      Writable everyCrates "contents" s write123 ∧
      editStep everyCrates noFaults sampleDraws "contents" s (.wrote write123) = some m ∧
      editStep everyCrates noFaults sampleDraws "contents" m .flushed = some m' ∧
      EditAllowed everyCrates "contents" m' (.opened [1]) s' ∧
      editStep everyCrates noFaults sampleDraws "contents" m' (.opened [1]) = some s' := by
  obtain ⟨s, hnew, hempty, hunwraps, hs⟩ := exists_newStore
  have hwritable : Writable everyCrates "contents" s write123 := by
    refine hs.writable (fun _ => rfl) (by decide) fun e he => ?_
    rw [hempty] at he
    exact absurd he List.not_mem_nil
  obtain ⟨t, hwrite, hm⟩ :=
    hs.exists_wrote (logicalPathInvalid_sampleCall _ _ _) (fun _ => rfl) hwritable
  obtain ⟨d, hflush, hm'⟩ := hm.exists_flushed
  obtain ⟨_, hunlocks⟩ := hm'.inv.unlocks
  obtain ⟨d', hopen⟩ := exec_openStore ⟨hunwraps, hunlocks.derives⟩ hm'.inv.header hm'.inv.index
  exact ⟨s, _, _, _, hnew, hwritable, editStep_wrote hwrite, editStep_flushed hflush,
    hunwraps.noOtherKey, editStep_opened hopen⟩

theorem edits_refine_sample :
    ∃ s s', NewlyOpened everyCrates noFaults sampleDraws "contents" s ∧
      Run (editStep everyCrates noFaults sampleDraws "contents")
        (EditAllowed everyCrates "contents") s [.wrote write123, .flushed, .opened [1]] s' ∧
      ∃ ops, List.Forall₂ EditEvent.Does [.wrote write123, .flushed, .opened [1]] ops ∧
        s'.view everyCrates "contents" =
          SavedMap.run List.isEmpty ops (s.view everyCrates "contents") := by
  obtain ⟨s, m, m', s', hnew, hwritable, hwrote, hflushed, hallowed, hopened⟩ := editing_sample
  have hrun : Run (editStep everyCrates noFaults sampleDraws "contents")
      (EditAllowed everyCrates "contents") s [.wrote write123, .flushed, .opened [1]] s' :=
    .cons hwrote hwritable (.cons hflushed trivial (.cons hopened hallowed (.refl _)))
  exact ⟨s, s', hnew, hrun, edits_refine isPlain_sample hnew hrun⟩

theorem read_last_write_sample :
    ∃ s' : Editing UuidCrate.hyphenated, readOpen everyCrates "contents" s'.store.header
      s'.store.contentKey s'.contents "a" = .ok [1, 2, 3] := by
  obtain ⟨s, m, m', s', hnew, hwritable, hwrote, hflushed, hallowed, hopened⟩ := editing_sample
  refine ⟨s', read_last_write isPlain_sample hnew (.refl _) hwrote hwritable
    (.cons hflushed trivial (.cons hopened hallowed (.refl _))) ?_ trivial⟩
  intro e he
  simp only [List.mem_cons, List.not_mem_nil, or_false] at he
  rcases he with rfl | rfl <;> exact (Option.some_ne_none _).symm

theorem read_since_flush_sample :
    ∃ m m' s', editStep everyCrates noFaults sampleDraws "contents" m .flushed = some m' ∧
      editStep everyCrates noFaults sampleDraws "contents" m' (.opened [1]) = some s' ∧
      (readOpen everyCrates "contents" s'.store.header s'.store.contentKey s'.contents "a" =
          .ok [1, 2, 3] ↔
        readOpen everyCrates "contents" m.store.header m.store.contentKey m.contents "a" =
          .ok [1, 2, 3]) := by
  obtain ⟨s, m, m', s', hnew, hwritable, hwrote, hflushed, hallowed, hopened⟩ := editing_sample
  refine ⟨m, m', s', hflushed, hopened, read_since_flush isPlain_sample hnew
    (.cons hwrote hwritable (.refl _)) hflushed (.cons hopened hallowed (.refl _)) ?_ [1, 2, 3]⟩
  intro e he
  rw [List.mem_singleton.mp he]
  exact (Option.some_ne_none _).symm

end Upriv.Contents
