import Upriv.Config.VaultConfig.SaveLoad
import Upriv.Contents.Unlock
import Upriv.Vault.Attempts
import Upriv.Vault.Calls

/-!
# Created vaults keep opening

What `create_vault` leaves under a password opens with that password after every
later run of calls, on any vaults and with any system call refused: creating another
vault leaves the files in place, and a close seals the index that its session holds,
which is the one that was opened.
-/

namespace Upriv.Vault

open FallibleM Contents

variable {U : UuidCrate}

/-- The store of a session. -/
def OpenSession.store (session : OpenSession U) : OpenedStore U :=
  ⟨session.header, session.masterKey, session.contentKey, session.indexKey, session.index⟩

/-- The seed file reads back through the store. -/
def SeedReads (env : VaultEnv U) (dir : PathBuf) (store : OpenedStore U) (d : Disk) : Prop :=
  readLogicalFile env.crates.xchacha (contentsDir dir) store.header store.contentKey
    (ContentsStore.read ⟨store.index, d.files⟩) store.index SEED_LOGICAL_PATH =
      .ok (seedPlaintext store.header.contentIdentity)

section
variable {env : VaultEnv U} {dir dest : PathBuf} {d d' d₀ : Disk}
  {w w' : World U} {password : Bytes} {store : OpenedStore U} {root : VaultRoot}
  {vaultId : String}

/-! ## Opening -/

/-- The files and the sessions stay. -/
def SameStores (w w' : World U) : Prop := SameDisk w.disk w'.disk ∧ w'.sessions = w.sessions

instance isPreorder_sameStores : IsPreorder (World U) SameStores where
  refl w := ⟨refl w.disk, rfl⟩
  trans _ _ _ h h' := ⟨IsTrans.trans _ _ _ h.1 h'.1, h'.2.trans h.2⟩

theorem sameStores_onDisk {α : Type} {x : FsM α} (h : Preserves SameDisk x) :
    Preserves SameStores (onDisk x : VaultM U α) :=
  fun w => ⟨h w.disk, rfl⟩

theorem sameStores_openUntilStore (root : VaultRoot) (vaultId : String) (password : Bytes) :
    Preserves SameStores (openUntilStore env root vaultId password) := by
  have hsame {w w' : World U} (hdisk : w'.disk = w.disk) (hsessions : w'.sessions = w.sessions) :
      SameStores w w' := ⟨hdisk ▸ refl _, hsessions⟩
  have hcheck (vaultDir : PathBuf) : Preserves SameStores (checkUnlockAllowed env vaultDir) := by
    refine preserves_bind (fun w => hsame rfl rfl) fun now => ?_
    refine preserves_bind preserves_get fun w => ?_
    split
    · exact preserves_pure _
    · exact preserves_bind (preserves_ensure _ _) fun _ => fun w => hsame rfl rfl
  refine preserves_bind (preserves_ensure _ _) fun _ => ?_
  refine preserves_bind ?_ fun vaultDir => ?_
  · refine preserves_bind (preserves_ofExcept _) fun dir => ?_
    refine preserves_bind preserves_get fun w => ?_
    exact preserves_bind (preserves_ensure _ _) fun _ => preserves_pure _
  refine preserves_bind ?_ fun config => preserves_pure _
  refine preserves_bind (hcheck vaultDir) fun _ => ?_
  refine preserves_bind preserves_get fun w => ?_
  refine preserves_bind (preserves_ensure _ _) fun _ => ?_
  refine preserves_bind (sameStores_onDisk (sameDisk_loadVaultConfig _ _ _ _)) fun config => ?_
  exact preserves_bind (preserves_ensure _ _) fun _ => preserves_pure _

/-- A session that an open adds is of its vault and holds what the files hold. -/
theorem openVault_session (root : VaultRoot) (vaultId : String) (password : Bytes)
    (w : World U) (dir : PathBuf) :
    let w' := (exec (openVault env root vaultId password) w).2
    w'.sessions dir = w.sessions dir ∨
      root.vaultDir vaultId = .ok dir ∧ ∃ session, w'.sessions dir = some session ∧
        StoredAt env.crates (contentsDir dir) password session.store w.disk := by
  have hbefore : SameStores w (exec (openUntilStore env root vaultId password) w).2 :=
    sameStores_openUntilStore root vaultId password w
  dsimp only
  rw [openVault, exec_bind]
  rcases huntil : exec (openUntilStore env root vaultId password) w with
    ⟨error | ⟨vaultDir, config⟩, m⟩
  · rw [huntil] at hbefore
    exact .inl (congrFun hbefore.2 dir)
  rw [huntil] at hbefore
  dsimp only
  rw [openIntoSession, exec_bind, exec_attempt, exec_onDisk]
  dsimp only
  rcases hstore : (openStore env.crates env.faults (contentsDir vaultDir) password).exec m.disk
    with ⟨error | opened, disk⟩
  · -- Without a store no session is added.
    have hsame : (w.sessions dir : Option (OpenSession U)) = m.sessions dir :=
      (congrFun hbefore.2 dir).symm
    left
    rw [hsame]
    cases error <;> try rfl
    dsimp only
    rw [exec_bind, exec_attempt]
    dsimp only
    rw [exec_recordUnlockFailure]
    rfl
  · obtain ⟨hunlocks, hheader, hindex⟩ := openStore_ok hstore
    dsimp only
    rw [recordUnlockSuccess, exec_bind, exec_modify]
    dsimp only
    rw [insertSession, exec_op]
    by_cases hopen : (m.sessions vaultDir).isSome = true
    · rw [World.setThrottle, if_pos hopen]
      exact .inl (congrFun hbefore.2 dir)
    · rw [World.setThrottle, if_neg hopen]
      by_cases hdir : dir = vaultDir
      · subst hdir
        have hfiles (path : PathBuf) : w.disk.files path = m.disk.files path :=
          (congrFun hbefore.1.1 path).symm
        refine .inr ⟨(openUntilStore_ok huntil).1, _, Function.update_self _ _ _, hunlocks, ?_, ?_⟩
        · exact hheader.of_sameAt (hfiles _)
        · exact hindex.of_sameAt (hfiles _)
      · left
        exact (Function.update_of_ne hdir _ _).trans (congrFun hbefore.2 dir)

/-! ## Closing -/

/-- The disk after a close is the old one, or the one that persisting left. -/
theorem disk_closeVault (root : VaultRoot) (vaultId : String) (password : Option Bytes)
    (w : World U) :
    let w' := (exec (closeVault env root vaultId password) w).2
    w'.disk = w.disk ∨ ∃ vaultDir session, root.vaultDir vaultId = .ok vaultDir ∧
      w.sessions vaultDir = some session ∧
      w'.disk = ((persistClosed env vaultDir session).exec w.disk).2 := by
  have hlocate := exec_vaultDirOrNotFound root vaultId w
  have hinsert (session : OpenSession U) (w : World U) :
      (exec (insertSession session) w).2.disk = w.disk := by
    rw [insertSession, exec_op]
    split <;> rfl
  dsimp only
  rcases hdir : exec (vaultDirOrNotFound root vaultId : VaultM U PathBuf) w with
    ⟨error | vaultDir, m⟩
  · rw [hdir, Prod.mk.injEq] at hlocate
    rw [closeVault, exec_bind_of_error hdir, hlocate.2]
    exact .inl rfl
  obtain ⟨hfound, rfl⟩ := Prod.mk.inj (hdir.symm.trans hlocate)
  have haddr : root.vaultDir vaultId = .ok vaultDir := by
    cases haddr : root.vaultDir vaultId with
    | error error =>
        rw [haddr] at hfound
        cases hfound
    | ok found =>
        rw [haddr] at hfound
        dsimp only at hfound
        split at hfound
        · cases hfound
          rfl
        · cases hfound
  rw [closeVault, exec_bind_of_ok hdir]
  cases hsession : m.sessions vaultDir with
  | none =>
      have htake : exec (takeSession vaultDir) m = (.error (.vaultNotOpen vaultDir), m) := by
        rw [takeSession, exec_op, hsession]
      rw [exec_bind_of_error htake]
      exact .inl rfl
  | some session =>
      have htake : exec (takeSession vaultDir) m = (.ok session, m.setSession vaultDir none) := by
        rw [takeSession, exec_op, hsession]
      rw [exec_bind_of_ok htake]
      by_cases hprompt : promptRefused session password = true
      · left
        rw [if_pos hprompt, exec_bind]
        have hdisk := hinsert session (m.setSession vaultDir none)
        rcases hrun : exec (insertSession session) (m.setSession vaultDir none) with ⟨_ | _, m'⟩
        · rw [hrun] at hdisk
          exact hdisk
        · rw [hrun] at hdisk
          exact hdisk
      · refine .inr ⟨vaultDir, session, haddr, hsession, ?_⟩
        rw [if_neg hprompt, persistOrReinsert, exec_bind, exec_attempt, exec_onDisk]
        dsimp only [World.setSession]
        rcases hpersist : (persistClosed env vaultDir session).exec m.disk with ⟨error | _, disk⟩
        · dsimp only
          rw [exec_bind, exec_attempt]
          exact hinsert session _
        · rfl

/-- Closing seals the index of the session: where the files hold that index, they do
afterwards. -/
theorem keeps_persistClosed (dir : PathBuf) (session : OpenSession U) :
    Preserves (Keeps (IndexStored env.crates (contentsDir dir) session.header session.indexKey
      session.index)) (persistClosed env dir session) := by
  have hof {d d' : Disk}
      (h : d'.files (indexPath (contentsDir dir)) = d.files (indexPath (contentsDir dir))) :
      Keeps (IndexStored env.crates (contentsDir dir) session.header session.indexKey
        session.index) d d' := fun hstored => hstored.of_sameAt h
  have hrecord (displayName hash : String) : Preserves (Keeps (IndexStored env.crates
      (contentsDir dir) session.header session.indexKey session.index)) (do
        let d ← get
        saveVaultPersistence env dir (persistenceClosed session.vaultId displayName (some hash)
          (env.timestamp d.calls))) := by
    refine preserves_bind preserves_get fun d => ?_
    refine preserves_bind (preserves_ofExcept _) fun body => ?_
    refine (overwrites_writeBytesAtomic env.faults (List.mem_singleton_self _) _).mono ?_
    intro d d' h
    refine hof (h.1 _ fun hmem => ?_)
    exact persistencePath_ne_indexPath _ _ (List.mem_singleton.mp hmem).symm
  refine preserves_bind keeps_saveSealedIndex fun _ => ?_
  refine preserves_bind ?_ fun hash => ?_
  · exact (sameDisk_contentHashHex _).mono fun _ _ h => hof (congrFun h.1 _)
  refine preserves_bind (preserves_attempt ?_) fun outcome => ?_
  · exact (sameDisk_loadVaultConfigRaw env.faults env.codec dir).mono fun _ _ h =>
      hof (congrFun h.1 _)
  dsimp only
  split
  · exact preserves_bind (preserves_pure _) fun displayName => hrecord displayName hash
  · exact preserves_bind (preserves_pure _) fun displayName => hrecord displayName hash

/-! ## The invariant -/

/-- The files of a vault that only its creation writes. -/
def StaticFile (U : UuidCrate) (dir path : PathBuf) : Prop :=
  path = headerPath (contentsDir dir) ∨ path = vaultConfigPath dir ∨
    ∃ u i, path = chunkPathOf U (contentsDir dir) u i

theorem isPlain_staticFile
    (hhyphens : ∀ u, UuidCrate.isHyphenated (U.toString u).toList = true) {path : PathBuf}
    (h : StaticFile U dir path) : IsPlain path := by
  rcases h with rfl | rfl | ⟨u, i, rfl⟩
  · exact isPlain_joinPath _ isName_HEADER_FILE_NAME
  · exact isPlain_joinPath _ (by decide)
  · exact isPlain_joinPath _ (isName_chunkFileName hhyphens u i)

theorem vaultConfigPath_ne_indexPath (dir dir' : PathBuf) :
    vaultConfigPath dir ≠ indexPath dir' := fun h =>
  absurd (name_of_joinPath_eq (by decide) (by decide) h) (by decide)

theorem vaultConfigPath_ne_persistencePath (dir dir' : PathBuf) :
    vaultConfigPath dir ≠ persistencePath dir' := fun h =>
  absurd (name_of_joinPath_eq (by decide) (by decide) h) (by decide)

theorem staticFile_not_closedFiles {path dir' : PathBuf} (h : StaticFile U dir path) :
    path ∉ closedFiles dir' := by
  simp only [closedFiles, List.mem_cons, List.not_mem_nil, or_false, not_or]
  rcases h with rfl | rfl | ⟨u, i, rfl⟩
  · exact ⟨headerPath_ne_indexPath _ _, (persistencePath_ne_headerPath _ _).symm⟩
  · exact ⟨vaultConfigPath_ne_indexPath _ _, vaultConfigPath_ne_persistencePath _ _⟩
  · refine ⟨chunkPathOf_ne_indexPath u i _, ?_⟩
    exact joinPath_ne_of_suffix (suffix_chunkFileName u i) (by decide) (by decide)

/-- Since the disk `d₀` the vault holds this store, and so does its session. -/
structure Holds (env : VaultEnv U) (dir : PathBuf) (store : OpenedStore U) (d₀ : Disk)
    (w : World U) : Prop where
  static : ∀ path, StaticFile U dir path → Placed path d₀ →
    w.disk.files path = d₀.files path ∧ Placed path w.disk
  index : IndexStored env.crates (contentsDir dir) store.header store.indexKey store.index w.disk
  indexPlaced : Placed (indexPath (contentsDir dir)) w.disk
  session : ∀ session, w.sessions dir = some session → session.store = store
  keyed : ∀ dir session, w.sessions dir = some session → session.vaultDir = dir

theorem Holds.of_keepsPlaced
    (hhyphens : ∀ u, UuidCrate.isHyphenated (U.toString u).toList = true)
    (h : Holds env dir store d₀ w) {disk : Disk} (hkeeps : KeepsPlaced w.disk disk) :
    Holds env dir store d₀ { w with disk := disk } where
  static path hstatic hplaced := by
    obtain ⟨hsame, hthere⟩ := h.static path hstatic hplaced
    obtain ⟨hkept, hplaced'⟩ := hkeeps path (isPlain_staticFile hhyphens hstatic) hthere
    exact ⟨hkept.trans hsame, hplaced'⟩
  index := h.index.of_sameAt
    (hkeeps _ (isPlain_joinPath _ isName_INDEX_FILE_NAME) h.indexPlaced).1
  indexPlaced := (hkeeps _ (isPlain_joinPath _ isName_INDEX_FILE_NAME) h.indexPlaced).2
  session := h.session
  keyed := h.keyed

theorem Holds.of_open
    (hunlocks : Unlocks env.crates store.header password store.masterKey store.contentKey
      store.indexKey)
    (hheader : HeaderStored env.crates (contentsDir dir) store.header d₀)
    (hplaced : Placed (headerPath (contentsDir dir)) d₀)
    (h : Holds env dir store d₀ w) (root : VaultRoot) (vaultId : String) (attempt : Bytes)
    (hattempt : root.vaultDir vaultId = .ok dir →
      NoOtherKey env.crates store.header store.masterKey attempt) :
    Holds env dir store d₀ (exec (openVault env root vaultId attempt) w).2 := by
  have hopens : Opens w (exec (openVault env root vaultId attempt) w).2 :=
    opens_openVault root vaultId attempt w
  obtain ⟨hdisk, hsessions⟩ := hopens
  have hstored : StoredAt env.crates (contentsDir dir) password store w.disk :=
    ⟨hunlocks, hheader.of_sameAt (h.static _ (.inl rfl) hplaced).1, h.index⟩
  refine ⟨fun path hstatic hthere => ?_, ?_, ?_, ?_, ?_⟩
  · obtain ⟨hsame, hkept⟩ := h.static path hstatic hthere
    refine ⟨(congrFun hdisk.1 path).trans hsame, ?_⟩
    rw [Placed, hdisk.1, hdisk.2]
    exact hkept
  · exact h.index.of_sameAt (congrFun hdisk.1 _)
  · rw [Placed, hdisk.1, hdisk.2]
    exact h.indexPlaced
  · intro session hsession
    have hadds : (exec (openVault env root vaultId attempt) w).2.sessions dir = w.sessions dir ∨
        root.vaultDir vaultId = .ok dir ∧
          ∃ added, (exec (openVault env root vaultId attempt) w).2.sessions dir = some added ∧
            StoredAt env.crates (contentsDir dir) attempt added.store w.disk :=
      openVault_session root vaultId attempt w dir
    rcases hadds with hsame | ⟨haddr, added, hadded, hopened⟩
    · exact h.session session (hsame ▸ hsession)
    · obtain rfl := Option.some.inj (hadded.symm.trans hsession)
      exact hstored.unique (hattempt haddr) hopened
  · intro other session hsession
    rcases hsessions other with hsame | ⟨added, hadded, hkey⟩
    · exact h.keyed other session (hsame ▸ hsession)
    · obtain rfl := Option.some.inj (hadded.symm.trans hsession)
      exact hkey

theorem Holds.of_close (hdir : IsPlain dir) (h : Holds env dir store d₀ w) (root : VaultRoot)
    (vaultId : String) (attempt : Option Bytes) :
    Holds env dir store d₀ (exec (closeVault env root vaultId attempt) w).2 := by
  have hsessions (other : PathBuf) :
      (exec (closeVault env root vaultId attempt) w).2.sessions other = w.sessions other ∨
        (exec (closeVault env root vaultId attempt) w).2.sessions other = none := by
    rcases closeVault_cases root vaultId attempt h.keyed with
      hsame | ⟨vaultDir, -, -, -, hsame | ⟨hdropped, -⟩⟩
    · exact .inl (by rw [hsame])
    · exact .inl (by rw [hsame])
    · rw [hdropped]
      by_cases hother : other = vaultDir
      · subst hother
        exact .inr (Function.update_self _ _ _)
      · exact .inl (Function.update_of_ne hother _ _)
  have hdisk : ∀ disk, disk = (exec (closeVault env root vaultId attempt) w).2.disk →
      (∀ path, StaticFile U dir path → Placed path d₀ →
        disk.files path = d₀.files path ∧ Placed path disk) ∧
      IndexStored env.crates (contentsDir dir) store.header store.indexKey store.index disk ∧
      Placed (indexPath (contentsDir dir)) disk := by
    intro disk hdisk
    have hcloses : disk = w.disk ∨ ∃ vaultDir session, root.vaultDir vaultId = .ok vaultDir ∧
        w.sessions vaultDir = some session ∧
        disk = ((persistClosed env vaultDir session).exec w.disk).2 := by
      rw [hdisk]
      exact disk_closeVault root vaultId attempt w
    rcases hcloses with hsame | ⟨vaultDir, session, haddr, hsession, hpersisted⟩
    · rw [hsame]
      exact ⟨h.static, h.index, h.indexPlaced⟩
    · have hoverwrites : Overwrites (closedFiles vaultDir) w.disk disk := by
        rw [hpersisted]
        exact overwrites_persistClosed vaultDir session w.disk
      refine ⟨fun path hstatic hthere => ?_, ?_, hoverwrites.placed h.indexPlaced⟩
      · obtain ⟨hsame, hkept⟩ := h.static path hstatic hthere
        exact ⟨(hoverwrites.1 path (staticFile_not_closedFiles hstatic)).trans hsame,
          hoverwrites.placed hkept⟩
      · by_cases heq : dir = vaultDir
        · -- The session that is sealed is the one of this vault.
          subst heq
          have hkept : Keeps (IndexStored env.crates (contentsDir dir) session.header
              session.indexKey session.index) w.disk disk := by
            rw [hpersisted]
            exact keeps_persistClosed dir session w.disk
          have hstore := h.session session hsession
          rw [← hstore] at h ⊢
          exact hkept h.index
        · refine h.index.of_sameAt (hoverwrites.1 _ ?_)
          exact recordedFiles_not_closedFiles hdir (isPlain_vaultDir haddr) heq
            (by simp [recordedFiles])
  obtain ⟨hstatic, hindex, hplaced⟩ := hdisk _ rfl
  refine ⟨hstatic, hindex, hplaced, ?_, ?_⟩
  · intro session hsession
    rcases hsessions dir with hsame | hnone
    · exact h.session session (hsame ▸ hsession)
    · cases hnone.symm.trans hsession
  · intro other session hsession
    rcases hsessions other with hsame | hnone
    · exact h.keyed other session (hsame ▸ hsession)
    · cases hnone.symm.trans hsession

/-! ## Creating -/

theorem isPlain_vaultsDir (root : VaultRoot) : IsPlain root.vaultsDir := by
  have hname : VAULTS_DIR_REL.toList ≠ [] := by decide
  constructor
  · rw [VaultRoot.vaultsDir, joinPath_eq]
    simp [hname]
  · rw [VaultRoot.vaultsDir, getLast?_joinPath _ hname]
    decide

/-- The directory of a vault is named by its id. -/
theorem name_of_vaultDir {id : String} (h : root.vaultDir id = .ok dir) :
    IsName (trim id) ∧ dir = joinPath root.vaultsDir (trim id) := by
  obtain ⟨component, hcomponent, h⟩ := except_bind_eq_ok.mp h
  cases h
  obtain ⟨rfl, hvalid⟩ := trimmed_of_vaultIdComponent hcomponent
  refine ⟨⟨fun hnil => ?_, fun hslash => ?_⟩, rfl⟩
  · rw [String.toList_eq_nil_iff.mp hnil] at hvalid
    exact absurd hvalid (by decide)
  · exact absurd (all_isSlugChar hvalid hslash) (by decide)

/-- What a creation under the password leaves. -/
structure CreatedAt (env : VaultEnv U) (dir : PathBuf) (config : VaultConfig)
    (password : Bytes) (store : OpenedStore U) (d : Disk) : Prop
    extends StoredAt env.crates (contentsDir dir) password store d where
  seed : SeedReads env dir store d
  dataDir : ∀ folder ∈ wayTo (joinPath (contentsDir dir) DATA_DIR_NAME), folder ∈ d.dirs
  document : configsOn env.codec d dir = some config.written
  mount : validateMountWorkspacePath env.canonicalize config.mount.workspacePath none = .ok ()

theorem validateMount_of_saveVaultConfig {faults : Upriv.Faults} {codec : TomlCodec VaultConfig}
    {canonicalize : Canonicalize} {config : VaultConfig}
    (h : (saveVaultConfig faults codec canonicalize dir config).exec d = (.ok (), d')) :
    validateMountWorkspacePath canonicalize config.mount.workspacePath none = .ok () := by
  obtain ⟨_, hbody, -⟩ := exec_ofExcept_bind_eq_ok_iff.mp h
  obtain ⟨_, hmount, -⟩ := except_bind_eq_ok.mp hbody
  cases hvalid : validateMountWorkspacePath canonicalize config.mount.workspacePath none with
  | error e =>
      rw [hvalid] at hmount
      cases hmount
  | ok u => rfl

theorem vaultConfigPath_not_below_contentsDir (hdest : IsPlain dest) :
    ¬ Disk.Below (contentsDir dest) (vaultConfigPath dest) := by
  rw [below_iff_of_isPlain (isPlain_contentsDir dest), contentsDir, vaultConfigPath]
  rintro (heq | hprefix)
  · exact absurd (joinPath_injective dest heq) (by decide)
  · rw [toList_joinPath_of_isPlain hdest, toList_joinPath_of_isPlain hdest, List.append_assoc,
      List.prefix_append_right_inj] at hprefix
    revert hprefix
    decide

theorem fillDestination_created {config : VaultConfig} {preset : KdfUnlockPreset}
    (hdest : IsPlain dest)
    (h : (fillDestination env dest config password preset).exec d = (.ok (), d')) :
    ∃ store, CreatedAt env dest config password store d' := by
  obtain ⟨_, m₁, hconfig, h⟩ := exec_bind_eq_ok_iff.mp h
  obtain ⟨header, m₂, hcreate, h⟩ := exec_bind_eq_ok_iff.mp h
  obtain ⟨_, m₃, hbackups, h⟩ := exec_bind_eq_ok_iff.mp h
  obtain ⟨hash, m₄, hhash, h⟩ := exec_bind_eq_ok_iff.mp h
  rw [exec_bind, exec_get] at h
  dsimp only at h
  obtain ⟨masterKey, contentKey, indexKey, index, hunlocks, hheader, hindex, -, hseed⟩ :=
    createSeededStore_stored (isPlain_contentsDir dest) hcreate
  -- The rest of the creation writes the record only.
  have hfills := (fills_createSeededStore (isPlain_contentsDir dest) _ _).exec_eq hcreate
  have hnew := (preserves_createDirAll env.faults _).exec_eq hbackups
  have hsame := (sameDisk_contentHashHex _).exec_eq hhash
  obtain ⟨body, -, hfiles, hdirs, -⟩ := saveVaultPersistence_ok hdest h
  have hrest {path : PathBuf} (hne : path ≠ persistencePath dest) :
      d'.files path = m₂.files path := by
    rw [hfiles, Function.update_of_ne hne, hsame.1, hnew.1]
  refine ⟨⟨header, masterKey, contentKey, indexKey, index⟩, ⟨hunlocks, ?_, ?_⟩, ?_, ?_, ?_,
    validateMount_of_saveVaultConfig hconfig⟩
  · exact hheader.of_sameAt (hrest (persistencePath_ne_headerPath _ _).symm)
  · exact hindex.of_sameAt (hrest (persistencePath_ne_indexPath _ _).symm)
  · refine readLogicalFile_of_present hseed fun u i blob hblob => ?_
    have hne : chunkPathOf U (contentsDir dest) u i ≠ persistencePath dest :=
      joinPath_ne_of_suffix (suffix_chunkFileName u i) (by decide) (by decide)
    rw [ContentsStore.read] at hblob ⊢
    dsimp only at hblob ⊢
    rwa [hrest hne]
  · intro folder hfolder
    have hthere := dataDir_createSeededStore (isPlain_contentsDir dest) hcreate hfolder
    refine hdirs ?_
    rw [hsame.2]
    exact hnew.2 hthere
  · obtain ⟨text, hfile, htext⟩ := saveVaultConfig_ok hconfig
    have hwritten : configsOn env.codec m₁ dest = some config.written := by
      rw [configsOn, hfile, Option.bind_some, decodeUtf8_utf8, Option.bind_some, htext]
      rfl
    rw [← hwritten]
    refine configsOn_congr ((hrest (vaultConfigPath_ne_persistencePath _ _)).trans ?_)
    exact hfills.1 _ (vaultConfigPath_not_below_contentsDir hdest)

theorem createVault_created {config : VaultConfig} {preset : KdfUnlockPreset}
    (haddr : root.vaultDir (trim config.vault.id) = .ok dest)
    (h : (createVault env root config password preset).exec d = (.ok (), d')) :
    (password ≠ [] ∧ config.storageMode ≠ .uprivPlain) ∧
      ∃ store, CreatedAt env dest (trimmedId config) password store d' := by
  rw [createVault, exec_ensure_bind_eq_ok_iff] at h
  obtain ⟨hpassword, h⟩ := h
  rw [exec_ensure_bind_eq_ok_iff] at h
  obtain ⟨hstorage, h⟩ := h
  refine ⟨⟨hpassword, hstorage⟩, ?_⟩
  rw [exec_ofExcept_bind, haddr] at h
  dsimp only at h
  obtain ⟨_, m, -, h⟩ := exec_bind_eq_ok_iff.mp h
  obtain ⟨_, m', -, h⟩ := exec_bind_eq_ok_iff.mp h
  rw [fillOrRemove, exec_bind, exec_attempt] at h
  dsimp only at h
  cases hfill : ((fillDestination env dest (trimmedId config) password preset).exec m').1 with
  | error error =>
      rw [hfill] at h
      simp [exec_bind] at h
  | ok _ =>
      obtain ⟨m'', hfill⟩ := exists_exec_eq hfill
      rw [hfill] at h
      cases h
      exact fillDestination_created (isPlain_vaultDir haddr) hfill

theorem placed_chunk (hhyphens : ∀ u, UuidCrate.isHyphenated (U.toString u).toList = true)
    {u : U.Uuid} {i : UInt32} {blob : Bytes}
    (hblob : d.files (chunkPathOf U (contentsDir dest) u i) = some blob)
    (hdirs : ∀ folder ∈ wayTo (joinPath (contentsDir dest) DATA_DIR_NAME), folder ∈ d.dirs) :
    Placed (chunkPathOf U (contentsDir dest) u i) d := by
  have hdata : IsPlain (joinPath (contentsDir dest) DATA_DIR_NAME) :=
    isPlain_joinPath _ isName_DATA_DIR_NAME
  refine ⟨by rw [hblob]; rfl, fun other hother hbelow hne => ?_⟩
  rcases below_dir_of_below_joinPath hdata hother (isName_chunkFileName hhyphens u i).2 hbelow
    with heq | hup
  · exact absurd heq hne
  · exact hdirs other (mem_wayTo.mpr ⟨hother, hup⟩)

/-- The configuration file is placed next to the store. -/
theorem placed_config (hdest : IsPlain dest) {document : VaultConfig}
    (hconfig : configsOn env.codec d dest = some document)
    (hheader : Placed (headerPath (contentsDir dest)) d) : Placed (vaultConfigPath dest) d := by
  constructor
  · cases hfile : d.files (vaultConfigPath dest) with
    | none =>
        rw [configsOn, hfile] at hconfig
        cases hconfig
    | some bytes => rfl
  · intro other hother hbelow hne
    rcases below_dir_of_below_joinPath hdest hother (by decide) hbelow with heq | hup
    · exact absurd heq hne
    have hcontents := below_trans hother hdest hup (below_joinPath hdest "contents")
    refine hheader.2 other hother (below_trans hother (isPlain_contentsDir dest) hcontents
      (below_joinPath (isPlain_contentsDir dest) _)) ?_
    rintro rfl
    -- The header is no directory on the way to the vault.
    rw [below_iff_of_isPlain hother] at hup
    have hlong : dest.toList.length < (headerPath (contentsDir dest)).toList.length := by
      rw [headerPath, toList_joinPath_of_isPlain (isPlain_contentsDir dest), contentsDir,
        toList_joinPath_of_isPlain hdest]
      simp only [List.length_append, List.length_cons]
      omega
    rcases hup with heq | hprefix
    · rw [← heq] at hlong
      exact absurd hlong (Nat.lt_irrefl _)
    · have hle := hprefix.length_le
      rw [List.length_append] at hle
      omega

/-! ## Runs -/

/-- A password tried at the vault gives the master key that `password` gives, or none. -/
def GivesSameKey (env : VaultEnv U) (dir : PathBuf) (password : Bytes) (s : Calls U) :
    VaultCall → Calls U → Prop
  | .openVault root vaultId attempt, _ => root.vaultDir vaultId = .ok dir →
      ∀ header masterKey, HeaderStored env.crates (contentsDir dir) header s.world.disk →
        Unwraps env.crates header password masterKey →
          NoOtherKey env.crates header masterKey attempt
  | _, _ => True

theorem holds_step
    (hhyphens : ∀ u, UuidCrate.isHyphenated (U.toString u).toList = true) (hdir : IsPlain dir)
    {config : VaultConfig} (hcreated : CreatedAt env dir config password store d₀)
    (hplaced : Placed (headerPath (contentsDir dir)) d₀) {s s' : Calls U} {call : VaultCall}
    (h : Holds env dir store d₀ s.world) (hstep : callsStep env s call = some s')
    (hsameKey : GivesSameKey env dir password s call s') :
    Holds env dir store d₀ s'.world := by
  cases call with
  | create root config password preset =>
      have hkeeps : KeepsPlaced s.world.disk
          (exec (createVault env root config password preset) s.world.disk).2 :=
        keepsPlaced_createVault root config password preset s.world.disk
      have hworld : s'.world = { s.world with
          disk := (exec (createVault env root config password preset) s.world.disk).2 } := by
        rw [← Option.some.inj hstep]
      rw [hworld]
      exact h.of_keepsPlaced hhyphens hkeeps
  | openVault root vaultId attempt =>
      have hworld : s'.world = (exec (openVault env root vaultId attempt) s.world).2 := by
        rw [← Option.some.inj hstep]
      rw [hworld]
      refine h.of_open hcreated.unlocks hcreated.header hplaced root vaultId attempt fun haddr => ?_
      exact hsameKey haddr _ _
        (hcreated.header.of_sameAt (h.static _ (.inl rfl) hplaced).1) hcreated.unlocks.unwraps
  | close root vaultId attempt =>
      have hworld : s'.world = (exec (closeVault env root vaultId attempt) s.world).2 := by
        rw [← Option.some.inj hstep]
      rw [hworld]
      exact h.of_close hdir root vaultId attempt

/-- A run in which the vault is created, at a time when no session of an earlier vault in
its directory is left.  No password that is tried at it afterwards forges another key. -/
structure CreatingRun (env : VaultEnv U) (root : VaultRoot) (config : VaultConfig)
    (password : Bytes) (preset : KdfUnlockPreset) (dest : PathBuf) (s s' : Calls U) : Prop where
  before : ∃ disk calls, Run (callsStep env) Always ⟨World.fresh disk, []⟩ calls s
  addr : root.vaultDir (trim config.vault.id) = .ok dest
  noSession : s.world.sessions dest = none
  created : ((createVault env root config password preset).exec s.world.disk).1 = .ok ()
  after : ∃ s₁ calls, callsStep env s (.create root config password preset) = some s₁ ∧
    Run (callsStep env) (GivesSameKey env dest password) s₁ calls s'

theorem CreatingRun.holds {s s' : Calls U} {config : VaultConfig} {preset : KdfUnlockPreset}
    (hhyphens : ∀ u, UuidCrate.isHyphenated (U.toString u).toList = true)
    (hrun : CreatingRun env root config password preset dest s s') :
    ∃ store d₀, CreatedAt env dest (trimmedId config) password store d₀ ∧
      Placed (headerPath (contentsDir dest)) d₀ ∧ Holds env dest store d₀ s'.world := by
  obtain ⟨⟨disk, before, hbefore⟩, haddr, hnone, hok, s₁, after, hcreate, hafter⟩ := hrun
  have hdest := isPlain_vaultDir haddr
  have hinv : CallsInv env s := by
    refine hbefore.invariant (CallsInv env) (.start disk) ?_
    intro s call s' hinv hstep _
    exact callsInv_step hinv hstep
  obtain ⟨d, hexec⟩ := exists_exec_eq hok
  have hs₁ : s₁ = ⟨{ s.world with disk := d }, dest :: s.created⟩ := by
    rw [callsStep, hexec, haddr] at hcreate
    exact (Option.some.inj hcreate).symm
  obtain ⟨-, store, hcreated⟩ := createVault_created haddr hexec
  obtain ⟨dest', haddr', -, hplaced⟩ := createVault_ok hexec
  obtain rfl := Except.ok.inj (haddr.symm.trans haddr')
  have hheader : Placed (headerPath (contentsDir dest)) d := hplaced _ (by simp [recordedFiles])
  have hstart : Holds env dest store d s₁.world := by
    subst hs₁
    refine ⟨fun path _ hthere => ⟨rfl, hthere⟩, hcreated.index,
      hplaced _ (by simp [recordedFiles]), fun session hsession => ?_, hinv.keyed⟩
    cases hnone.symm.trans hsession
  refine ⟨store, d, hcreated, hheader, ?_⟩
  refine hafter.invariant (fun s => Holds env dest store d s.world) hstart ?_
  intro s call s' h hstep hsameKey
  exact holds_step hhyphens hdest hcreated hheader h hstep hsameKey

end

end Upriv.Vault
