import Upriv.Vault.Attempts
import Upriv.Vault.CreateSucceeds

/-!
# Which created vaults can be opened

`create_vault` checks the mount path without the vault-root and does not look at the
display name; the loader that `open_vault` uses does both.  A created vault opens exactly
when the loader accepts what was written, and it stays so over later calls.
-/

namespace Upriv.Vault

open FallibleM Contents

section
variable {U : UuidCrate} {env : VaultEnv U} {dir dest : PathBuf} {root : VaultRoot}
  {vaultId : String} {password : Bytes} {store : OpenedStore U} {w : World U}

/-- With a store that opens, no session and no pending block, what is left to an open is
the configuration. -/
theorem openVault_ok_iff (haddr : root.vaultDir vaultId = .ok dir) (hpassword : password ≠ [])
    (hisDir : w.disk.isDir dir = true) (hnone : w.sessions dir = none)
    (hunblocked : ∀ blockedUntil, (w.throttle dir).blockedUntil = some blockedUntil →
      blockedUntil ≤ env.clock w.clockReads)
    (hstore : ∀ d, SameDisk w.disk d →
      ((openStore env.crates env.faults (contentsDir dir) password).exec d).1 = .ok store) :
    (exec (openVault env root vaultId password) w).1 = .ok () ↔
      ∃ config, ((loadVaultConfig env.faults env.codec env.canonicalize dir).exec w.disk).1 =
        .ok config ∧ config.storageMode ≠ .uprivPlain := by
  obtain ⟨w₁, hcheck⟩ := exists_exec_eq ((checkUnlockAllowed_ok_iff dir w).mpr hunblocked)
  obtain ⟨hdisk, hsessions⟩ := checkUnlockAllowed_same hcheck
  have hfst := @openUntilStore_fst U env dir root vaultId password w w₁ haddr hcheck
  have hclosed : ¬ (w₁.sessions dir).isSome = true := by
    rw [hsessions, hnone]
    exact Bool.false_ne_true
  rw [if_neg hpassword, if_neg (not_not.mpr hisDir), if_neg hclosed, hdisk] at hfst
  have hsame : SameStores w (exec (openUntilStore env root vaultId password) w).2 :=
    sameStores_openUntilStore root vaultId password w
  rw [openVault, exec_bind]
  rcases huntil : exec (openUntilStore env root vaultId password) w with
    ⟨error | ⟨vaultDir, config⟩, m⟩
  · rw [huntil] at hfst
    dsimp only at hfst ⊢
    simp only [reduceCtorEq, false_iff, not_exists, not_and]
    intro config hload hstorage
    rw [hload] at hfst
    dsimp only at hfst
    rw [if_neg hstorage] at hfst
    cases hfst
  · rw [huntil] at hfst hsame
    dsimp only at hfst ⊢
    have hloaded : vaultDir = dir ∧ ((loadVaultConfig env.faults env.codec env.canonicalize
        dir).exec w.disk).1 = .ok config ∧ config.storageMode ≠ .uprivPlain := by
      cases hload : ((loadVaultConfig env.faults env.codec env.canonicalize dir).exec
          w.disk).1 with
      | error error =>
          rw [hload] at hfst
          cases hfst
      | ok found =>
          rw [hload] at hfst
          dsimp only at hfst
          split at hfst
          · cases hfst
          · cases hfst
            exact ⟨rfl, rfl, ‹_›⟩
    obtain ⟨rfl, hload, hstorage⟩ := hloaded
    refine iff_of_true ?_ ⟨config, hload, hstorage⟩
    obtain ⟨d', hopen⟩ := exists_exec_eq (hstore m.disk hsame.1)
    rw [openIntoSession, exec_bind, exec_attempt, exec_onDisk, hopen]
    dsimp only
    rw [recordUnlockSuccess, exec_bind, exec_modify]
    dsimp only
    rw [insertSession, exec_op, World.setThrottle, hsame.2, hnone]
    rfl

/-- Undisturbed, the password opens a store of the vault that has the seed file; every
session of the vault holds that store, and no password opens another one unless it forges
another key. -/
def OpensWith (env : VaultEnv U) (dir : PathBuf) (password : Bytes) (w : World U) : Prop :=
  ∃ store, (∃ d', (openStore env.crates noFaults (contentsDir dir) password).exec w.disk =
      (.ok store, d')) ∧
    SeedReads env dir store w.disk ∧
    (∀ session, w.sessions dir = some session → session.store = store) ∧
    ∀ faults attempt other d', NoOtherKey env.crates store.header store.masterKey attempt →
      (openStore env.crates faults (contentsDir dir) attempt).exec w.disk = (.ok other, d') →
        other = store

/-- The state after the sample vault was created. -/
def createdSample : Calls UuidCrate.hyphenated where
  world := { World.fresh emptyDisk with
    disk := ((createVault openEnv sampleRoot sampleConfig [1] .m32).exec emptyDisk).2 }
  created := [sampleVaultDir]

theorem callsStep_createdSample :
    callsStep openEnv ⟨World.fresh emptyDisk, []⟩ (.create sampleRoot sampleConfig [1] .m32) =
      some createdSample := by
  obtain ⟨d, hrun, -⟩ := createVault_sample
  simp only [callsStep, createdSample, World.fresh, hrun, vaultDir_sample]

theorem creatingRun_sample {calls : List VaultCall} {s' : Calls UuidCrate.hyphenated}
    (hafter : Run (callsStep openEnv) (GivesSameKey openEnv sampleVaultDir [1]) createdSample
      calls s') :
    CreatingRun openEnv sampleRoot sampleConfig [1] .m32 sampleVaultDir
      ⟨World.fresh emptyDisk, []⟩ s' where
  before := ⟨emptyDisk, [], .refl _⟩
  addr := vaultDir_sample
  noSession := rfl
  created := by
    obtain ⟨d, hrun, -⟩ := createVault_sample
    exact congrArg Prod.fst hrun
  after := ⟨createdSample, calls, callsStep_createdSample, hafter⟩

/-- While the vault holds the store that was created, what is left to an open with the
password of the creation is what the loader checks. -/
theorem Holds.openVault_ok_iff {d : Disk} {config : VaultConfig}
    (h : Holds env dest store d w)
    (haddr : root.vaultDir (trim config.vault.id) = .ok dest)
    (hcreated : CreatedAt env dest (trimmedId config) password store d)
    (hheader : Placed (headerPath (contentsDir dest)) d)
    (hpassword : password ≠ []) (hstorage : config.storageMode ≠ .uprivPlain)
    (hnone : w.sessions dest = none)
    (hunblocked : ∀ blockedUntil, (w.throttle dest).blockedUntil = some blockedUntil →
      blockedUntil ≤ env.clock w.clockReads) :
    (exec (openVault { env with faults := noFaults } root (trim config.vault.id) password)
        w).1 = .ok () ↔
      trim config.vault.displayName ≠ "" ∧
        MountOutsideRoot env.canonicalize dest config.mount.workspacePath := by
  have hdest := isPlain_vaultDir haddr
  obtain ⟨hisName, hnamed⟩ := name_of_vaultDir haddr
  have hne : trim (trimmedId config).vault.id ≠ "" :=
    fun hempty => hisName.1 (congrArg String.toList hempty)
  have hname : (trimmedId config).vault.id = (fileName dest).getD "" := by
    rw [hnamed, fileName_joinPath (isPlain_vaultsDir root) hisName, trim_trim]
    rfl
  have hisDir : w.disk.isDir dest = true := by
    refine decide_eq_true (h.indexPlaced.2 dest hdest ?_ ?_)
    · exact below_trans hdest (isPlain_contentsDir dest) (below_joinPath hdest _)
        (below_indexPath (isPlain_contentsDir dest))
    · intro heq
      have hlength := congrArg (fun path : PathBuf => path.toList.length) heq
      rw [indexPath, toList_joinPath_of_isPlain (isPlain_indexDir _),
        toList_joinPath_of_isPlain (isPlain_contentsDir dest), contentsDir,
        toList_joinPath_of_isPlain hdest] at hlength
      simp only [List.length_append, List.length_cons] at hlength
      omega
  have hstore : ∀ d', SameDisk w.disk d' →
      ((openStore env.crates noFaults (contentsDir dest) password).exec d').1 = .ok store := by
    intro d' hsame
    have hstored : HeaderStored env.crates (contentsDir dest) store.header d' :=
      hcreated.header.of_sameAt
        ((congrFun hsame.1 _).trans (h.static _ (.inl rfl) hheader).1)
    obtain ⟨_, hopen⟩ := exec_openStore hcreated.unlocks hstored
      (h.index.of_sameAt (congrFun hsame.1 _))
    rw [hopen]
  have hloaded : loadedOn env.codec w.disk dest =
      if trim config.vault.displayName = "" then none else some (trimmedId config).normalized := by
    have hkept := (h.static _ (.inr (.inl rfl))
      (placed_config hdest hcreated.document hheader)).1
    rw [loadedOn, loadRaw, configsOn_congr hkept, hcreated.document, Option.bind_some,
      loadDocument_written hne hname]
    rfl
  have hopens : (exec (openVault { env with faults := noFaults } root (trim config.vault.id)
        password) w).1 = .ok () ↔
      ∃ found, ((loadVaultConfig noFaults env.codec env.canonicalize dest).exec
        w.disk).1 = .ok found ∧ found.storageMode ≠ .uprivPlain :=
    Vault.openVault_ok_iff haddr hpassword hisDir hnone hunblocked hstore
  rw [hopens]
  simp only [loadVaultConfig_noFaults_iff, hloaded]
  by_cases hblank : trim config.vault.displayName = ""
  · simp [hblank]
  · have hplain : (trimmedId config).normalized.storageMode ≠ .uprivPlain := hstorage
    have hmount : mountAccepted env.canonicalize dest (trimmedId config).normalized = true ↔
        MountOutsideRoot env.canonicalize dest config.mount.workspacePath :=
      mountAccepted_iff hcreated.mount
    rw [if_neg hblank]
    constructor
    · rintro ⟨found, ⟨hfound, hmounted⟩, -⟩
      obtain rfl := Option.some.inj hfound
      exact ⟨hblank, hmount.mp hmounted⟩
    · rintro ⟨-, hmounted⟩
      exact ⟨_, ⟨rfl, hmount.mpr hmounted⟩, hplain⟩

/-- A vault that was created opens with its password, after every later run of calls, exactly
when its display name is not blank and its mount path does not lead into the vault-root. -/
theorem openVault_of_created_iff {s s' : Calls U} {config : VaultConfig}
    {preset : KdfUnlockPreset}
    (hhyphens : ∀ u, UuidCrate.isHyphenated (U.toString u).toList = true)
    (hrun : CreatingRun env root config password preset dest s s')
    (hnone : s'.world.sessions dest = none)
    (hunblocked : ∀ blockedUntil,
      (s'.world.throttle dest).blockedUntil = some blockedUntil →
        blockedUntil ≤ env.clock s'.world.clockReads) :
    (exec (openVault { env with faults := noFaults } root (trim config.vault.id) password)
        s'.world).1 = .ok () ↔
      trim config.vault.displayName ≠ "" ∧
        MountOutsideRoot env.canonicalize dest config.mount.workspacePath := by
  obtain ⟨store, d, hcreated, hheader, hend⟩ := hrun.holds hhyphens
  obtain ⟨m, hexec⟩ := exists_exec_eq hrun.created
  obtain ⟨⟨hpassword, hstorage⟩, -⟩ := createVault_created hrun.addr hexec
  exact hend.openVault_ok_iff hrun.addr hcreated hheader hpassword hstorage hnone hunblocked

theorem openVault_of_created_iff_sample :
    (exec (openVault { openEnv with faults := noFaults } sampleRoot
        (trim sampleConfig.vault.id) [1]) createdSample.world).1 = .ok () ↔
      trim sampleConfig.vault.displayName ≠ "" ∧
        MountOutsideRoot openEnv.canonicalize sampleVaultDir sampleConfig.mount.workspacePath :=
  openVault_of_created_iff isHyphenated_hyphenated
    (creatingRun_sample (.refl _)) rfl nofun

end

/-! ## A vault that is opened and closed -/

section
variable {U : UuidCrate} {env : VaultEnv U} {root : VaultRoot} {vaultId : String}
  {dir : PathBuf} {w w' : World U}

/-- An open that succeeds leaves the files and adds a session of the vault. -/
theorem openVault_ok_session {password : Bytes} (haddr : root.vaultDir vaultId = .ok dir)
    (h : exec (openVault env root vaultId password) w = (.ok (), w')) :
    SameDisk w.disk w'.disk ∧ ∃ session, w'.sessions dir = some session := by
  have hopens : Opens w (exec (openVault env root vaultId password) w).2 :=
    opens_openVault root vaultId password w
  rw [h] at hopens
  refine ⟨hopens.1, ?_⟩
  obtain ⟨⟨vaultDir, config⟩, m, huntil, h⟩ := exec_bind_eq_ok_iff.mp h
  obtain rfl := Except.ok.inj (haddr.symm.trans (openUntilStore_ok huntil).1)
  dsimp only at h
  rw [openIntoSession, exec_bind, exec_attempt, exec_onDisk] at h
  dsimp only at h
  rcases hstore : (openStore env.crates env.faults (contentsDir dir) password).exec m.disk
    with ⟨error | opened, disk⟩
  · rw [hstore] at h
    cases error <;> cases h
  · rw [hstore] at h
    dsimp only at h
    rw [recordUnlockSuccess, exec_bind, exec_modify] at h
    dsimp only at h
    rw [insertSession, exec_op] at h
    split at h
    · cases h
    · cases h
      exact ⟨_, Function.update_self _ _ _⟩

/-- A close with a password succeeds and drops the session when the session can be
persisted. -/
theorem closeVault_of_persistClosed {password : Bytes} {session : OpenSession U} {d : Disk}
    (haddr : root.vaultDir vaultId = .ok dir) (hisDir : w.disk.isDir dir = true)
    (hsession : w.sessions dir = some session) (hpassword : password ≠ [])
    (hpersist : (persistClosed env dir session).exec w.disk = (.ok (), d)) :
    exec (closeVault env root vaultId (some password)) w =
      (.ok (), { w.setSession dir none with disk := d }) := by
  have hlocate : exec (vaultDirOrNotFound root vaultId : VaultM U PathBuf) w = (.ok dir, w) := by
    rw [exec_vaultDirOrNotFound, haddr]
    dsimp only
    rw [if_pos hisDir]
  have htake : exec (takeSession dir) w = (.ok session, w.setSession dir none) := by
    rw [takeSession, exec_op, hsession]
  have hprompt : promptRefused session (some password) = false := by
    simp [promptRefused, hpassword]
  rw [closeVault, exec_bind_of_ok hlocate, exec_bind_of_ok htake, hprompt]
  simp only [Bool.false_eq_true, if_false]
  have hpersisted : exec (onDisk (persistClosed env dir session)) (w.setSession dir none) =
      (.ok (), { w.setSession dir none with disk := d }) := by
    rw [exec_onDisk]
    dsimp only [World.setSession]
    rw [hpersist]
  rw [persistOrReinsert, exec_bind, exec_attempt, hpersisted]
  rfl

end

/-- The sample vault is created, opened and closed, and its record is current. -/
theorem closed_hashCurrent_sample :
    ∃ d w w', (createVault openEnv sampleRoot sampleConfig [1] .m32).exec emptyDisk = (.ok (), d) ∧
      exec (openVault openEnv sampleRoot "notes" [1]) { World.fresh emptyDisk with disk := d } =
        (.ok (), w) ∧
      (w.sessions sampleVaultDir).isSome ∧
      exec (closeVault openEnv sampleRoot "notes" (some [1])) w = (.ok (), w') ∧
      w'.sessions sampleVaultDir = none ∧ HashCurrent openEnv sampleVaultDir w'.disk := by
  obtain ⟨d, hcreate, hfilled⟩ := createVault_sample
  have hcreated : createdSample.world = { World.fresh emptyDisk with disk := d } := by
    rw [createdSample, hcreate]
  have haddr : sampleRoot.vaultDir "notes" = .ok sampleVaultDir := by decide +kernel
  have hdir : IsPlain sampleVaultDir := isPlain_vaultDir haddr
  -- The open.
  obtain ⟨store, d₀, hstored, hheader, hend⟩ :=
    (creatingRun_sample (.refl _)).holds isHyphenated_hyphenated
  have hopens : (exec (openVault { openEnv with faults := noFaults } sampleRoot
      (trim sampleConfig.vault.id) [1]) createdSample.world).1 = .ok () := by
    refine (hend.openVault_ok_iff vaultDir_sample hstored hheader (by decide) (by decide) rfl
      fun _ h => by cases h).mpr ⟨by decide +kernel, .inl (by decide +kernel)⟩
  have hid : trim sampleConfig.vault.id = "notes" := by decide +kernel
  rw [hid, hcreated] at hopens
  obtain ⟨w, hopen⟩ : ∃ w, exec (openVault openEnv sampleRoot "notes" [1])
      { World.fresh emptyDisk with disk := d } = (.ok (), w) := exists_exec_eq hopens
  obtain ⟨hsame, session, hsession⟩ := openVault_ok_session haddr hopen
  -- The close.
  have haccepting : Accepting openEnv.crates [1] .m32 := accepting_everyDocument _ _ _
  have hready : Filling sampleVaultDir (vaultFolders sampleVaultDir)
      [headerPath (contentsDir sampleVaultDir)] w.disk :=
    (hfilled.of_sameDisk hsame).of_subset (by simp)
  have hpersists : Succeeds (Filling sampleVaultDir (vaultFolders sampleVaultDir)
      [headerPath (contentsDir sampleVaultDir)])
      (persistClosed { openEnv with faults := noFaults } sampleVaultDir session) fun _ _ => True :=
    persistClosed_succeeds haccepting hdir session
  obtain ⟨_, d', hpersist, -⟩ := hpersists _ hready
  have hisDir : w.disk.isDir sampleVaultDir = true :=
    decide_eq_true (hready.way _ (mem_wayTo.mpr ⟨hdir, below_self _⟩))
  have hclose : exec (closeVault openEnv sampleRoot "notes" (some [1])) w =
      (.ok (), { w.setSession sampleVaultDir none with disk := d' }) :=
    closeVault_of_persistClosed haddr hisDir hsession (by decide) hpersist
  have hopenStep : callsStep openEnv createdSample (.openVault sampleRoot "notes" [1]) =
      some ⟨w, [sampleVaultDir]⟩ := by
    rw [callsStep, hcreated, hopen]
    rfl
  have hcloseStep : callsStep openEnv ⟨w, [sampleVaultDir]⟩
      (.close sampleRoot "notes" (some [1])) =
        some ⟨{ w.setSession sampleVaultDir none with disk := d' }, [sampleVaultDir]⟩ := by
    rw [callsStep, hclose]
  have hrun : Run (callsStep openEnv) Always ⟨World.fresh emptyDisk, []⟩
      [.create sampleRoot sampleConfig [1] .m32, .openVault sampleRoot "notes" [1],
        .close sampleRoot "notes" (some [1])]
      ⟨{ w.setSession sampleVaultDir none with disk := d' }, [sampleVaultDir]⟩ :=
    .cons callsStep_createdSample trivial
      (.cons hopenStep trivial (.cons hcloseStep trivial (.refl _)))
  have hnone : (w.setSession sampleVaultDir none).sessions sampleVaultDir = none := by
    simp only [World.setSession, Function.update_self]
  refine ⟨d, w, _, hcreate, hopen, by rw [hsession]; rfl, hclose, hnone, ?_⟩
  exact closed_hashCurrent hrun sampleVaultDir (List.mem_singleton_self _) hnone

end Upriv.Vault
