import Upriv.Vault.ContentHash

/-!
# Runs of calls

`create_vault`, `open_vault` and `close_vault` one after another, on any
vault-roots, with any file-system call refused.  The run remembers which
directories a call reported as created.
-/

namespace Upriv.Vault

open FallibleM Contents

section
variable {U : UuidCrate} (env : VaultEnv U)

inductive VaultCall where
  | create (root : VaultRoot) (config : VaultConfig) (password : Bytes)
      (preset : KdfUnlockPreset)
  | openVault (root : VaultRoot) (vaultId : String) (password : Bytes)
  | close (root : VaultRoot) (vaultId : String) (password : Option Bytes)

structure Calls (U : UuidCrate) where
  world : World U
  /-- What a call of `create_vault` that returned `Ok` has created. -/
  created : List PathBuf

def callsStep (s : Calls U) : VaultCall → Option (Calls U)
  | .create root config password preset =>
      let outcome := (createVault env root config password preset).exec s.world.disk
      some {
        world := { s.world with disk := outcome.2 }
        created :=
          match outcome.1, root.vaultDir (trim config.vault.id) with
          | .ok _, .ok dest => dest :: s.created
          | _, _ => s.created }
  | .openVault root vaultId password =>
      some { s with world := (exec (openVault env root vaultId password) s.world).2 }
  | .close root vaultId password =>
      some { s with world := (exec (closeVault env root vaultId password) s.world).2 }

variable {env}

/-! ## Opening -/

/-- The files stay; sessions are added under their own directory. -/
def Opens (w w' : World U) : Prop :=
  SameDisk w.disk w'.disk ∧ ∀ dir, w'.sessions dir = w.sessions dir ∨
    ∃ session, w'.sessions dir = some session ∧ session.vaultDir = dir

instance : IsPreorder (World U) Opens where
  refl w := ⟨refl w.disk, fun _ => .inl rfl⟩
  trans w w' w'' h h' := by
    refine ⟨IsTrans.trans _ _ _ h.1 h'.1, fun dir => ?_⟩
    rcases h'.2 dir with hsame | hadded
    · rw [hsame]
      exact h.2 dir
    · exact .inr hadded

theorem opens_onDisk {α : Type} {x : FsM α} (h : Preserves SameDisk x) :
    Preserves Opens (onDisk x : VaultM U α) :=
  fun w => ⟨h w.disk, fun _ => .inl rfl⟩

theorem opens_of_same {w w' : World U} (hdisk : w'.disk = w.disk)
    (hsessions : w'.sessions = w.sessions) : Opens w w' :=
  ⟨⟨congrArg Disk.files hdisk, congrArg Disk.dirs hdisk⟩, fun dir => .inl (congrFun hsessions dir)⟩

theorem opens_checkUnlockAllowed (vaultDir : PathBuf) :
    Preserves Opens (checkUnlockAllowed env vaultDir) := by
  refine preserves_bind (fun w => opens_of_same rfl rfl) fun now => ?_
  refine preserves_bind preserves_get fun w => ?_
  split
  · exact preserves_pure _
  · exact preserves_bind (preserves_ensure _ _) fun _ => fun w => opens_of_same rfl rfl

theorem opens_insertSession (session : OpenSession U) :
    Preserves Opens (insertSession session) := by
  refine preserves_op fun w => ?_
  split
  · exact refl w
  · refine ⟨refl w.disk, fun dir => ?_⟩
    by_cases hdir : dir = session.vaultDir
    · exact .inr ⟨session, by rw [hdir]; exact Function.update_self _ _ _, hdir.symm⟩
    · exact .inl (Function.update_of_ne hdir _ _)

theorem sameDisk_loadVaultConfig (faults : Upriv.Faults) (codec : TomlCodec VaultConfig)
    (canonicalize : Canonicalize) (dir : PathBuf) :
    Preserves SameDisk (loadVaultConfig faults codec canonicalize dir) := by
  refine preserves_bind (sameDisk_loadVaultConfigRaw faults codec dir) fun config => ?_
  exact preserves_bind (preserves_ofExcept _) fun _ => preserves_pure _

theorem opens_openVault (root : VaultRoot) (vaultId : String) (password : Bytes) :
    Preserves Opens (openVault env root vaultId password) := by
  have hdir : Preserves Opens (vaultDirOrNotFound root vaultId : VaultM U PathBuf) := by
    refine preserves_bind (preserves_ofExcept _) fun dir => ?_
    refine preserves_bind preserves_get fun w => ?_
    exact preserves_bind (preserves_ensure _ _) fun _ => preserves_pure _
  have hprelude (vaultDir : PathBuf) : Preserves Opens (openPrelude env vaultDir vaultId) := by
    refine preserves_bind (opens_checkUnlockAllowed vaultDir) fun _ => ?_
    refine preserves_bind preserves_get fun w => ?_
    refine preserves_bind (preserves_ensure _ _) fun _ => ?_
    refine preserves_bind (opens_onDisk (sameDisk_loadVaultConfig _ _ _ _)) fun config => ?_
    exact preserves_bind (preserves_ensure _ _) fun _ => preserves_pure _
  refine preserves_bind ?_ fun located => ?_
  · refine preserves_bind (preserves_ensure _ _) fun _ => ?_
    refine preserves_bind hdir fun vaultDir => ?_
    exact preserves_bind (hprelude vaultDir) fun config => preserves_pure _
  · refine preserves_bind (preserves_attempt (opens_onDisk (sameDisk_openStore _ _))) ?_
    intro outcome
    split
    · exact preserves_bind (fun w => opens_of_same rfl rfl) fun _ => opens_insertSession _
    · refine preserves_bind (preserves_attempt fun w => ?_) fun _ => preserves_throw _
      rw [exec_recordUnlockFailure]
      exact opens_of_same rfl rfl
    · exact preserves_throw _

/-! ## Closing -/

theorem exec_vaultDirOrNotFound (root : VaultRoot) (vaultId : String) (w : World U) :
    exec (vaultDirOrNotFound root vaultId : VaultM U PathBuf) w =
      (match root.vaultDir vaultId with
        | .ok dir => if w.disk.isDir dir then .ok dir else .error (.vaultNotFound dir)
        | .error error => .error error, w) := by
  rw [vaultDirOrNotFound, exec_ofExcept_bind]
  cases root.vaultDir vaultId with
  | error error => rfl
  | ok dir =>
      dsimp only
      rw [exec_bind, exec_get]
      dsimp only
      rw [exec_bind, ensure]
      by_cases hisDir : w.disk.isDir dir
      · simp [hisDir]
      · simp [hisDir]

/-- Taking a session out and putting it back. -/
theorem exec_insertSession_taken {w : World U} {vaultDir : PathBuf} {session : OpenSession U}
    (hsession : w.sessions vaultDir = some session) (hkey : session.vaultDir = vaultDir)
    (disk : Disk) :
    exec (insertSession session) { w.setSession vaultDir none with disk := disk } =
      (.ok (), { w with disk := disk }) := by
  subst hkey
  rw [insertSession, exec_op]
  simp only [World.setSession, Function.update_self, Option.isSome_none, Bool.false_eq_true,
    ↓reduceIte, Function.update_idem]
  rw [← hsession, Function.update_eq_self]

/-- A taken session is put back, or dropped with a current record. -/
theorem persistOrReinsert_cases {w : World U} {vaultDir : PathBuf} {session : OpenSession U}
    (hdir : IsPlain vaultDir) (hsession : w.sessions vaultDir = some session)
    (hkey : session.vaultDir = vaultDir) :
    let w' := (exec (persistOrReinsert env vaultDir session) (w.setSession vaultDir none)).2
    Overwrites (closedFiles vaultDir) w.disk w'.disk ∧
      (w'.sessions = w.sessions ∨
        w'.sessions = Function.update w.sessions vaultDir none ∧
          HashCurrent env vaultDir w'.disk) := by
  have hdisk : Overwrites (closedFiles vaultDir) w.disk
      (exec (persistClosed env vaultDir session) w.disk).2 :=
    overwrites_persistClosed vaultDir session w.disk
  have hpersisted : exec (onDisk (persistClosed env vaultDir session))
      (w.setSession vaultDir none) =
        (((persistClosed env vaultDir session).exec w.disk).1,
          { w.setSession vaultDir none with
            disk := ((persistClosed env vaultDir session).exec w.disk).2 }) := rfl
  rw [persistOrReinsert, exec_bind, exec_attempt, hpersisted]
  dsimp only
  rcases hpersist : (persistClosed env vaultDir session).exec w.disk with ⟨error | _, disk⟩
  · rw [hpersist] at hdisk
    dsimp only
    rw [exec_bind, exec_attempt, exec_insertSession_taken hsession hkey]
    exact ⟨hdisk, .inl rfl⟩
  · rw [hpersist] at hdisk
    exact ⟨hdisk, .inr ⟨rfl, persistClosed_ok hdir hpersist⟩⟩

/-- A close keeps the session, or drops it and leaves a current record; of the
files it changes two. -/
theorem closeVault_cases (root : VaultRoot) (vaultId : String) (password : Option Bytes)
    {w : World U}
    (hkeyed : ∀ dir session, w.sessions dir = some session → session.vaultDir = dir) :
    let w' := (exec (closeVault env root vaultId password) w).2
    w' = w ∨ ∃ vaultDir, root.vaultDir vaultId = .ok vaultDir ∧
      (w.sessions vaultDir).isSome ∧
      Overwrites (closedFiles vaultDir) w.disk w'.disk ∧
      (w'.sessions = w.sessions ∨
        w'.sessions = Function.update w.sessions vaultDir none ∧
          HashCurrent env vaultDir w'.disk) := by
  have hlocate := exec_vaultDirOrNotFound root vaultId w
  dsimp only
  cases haddr : root.vaultDir vaultId with
  | error error =>
      rw [haddr] at hlocate
      rw [closeVault, exec_bind_of_error hlocate]
      exact .inl rfl
  | ok vaultDir =>
      rw [haddr] at hlocate
      dsimp only at hlocate
      by_cases hisDir : w.disk.isDir vaultDir
      · rw [if_pos hisDir] at hlocate
        rw [closeVault, exec_bind_of_ok hlocate]
        cases hsession : w.sessions vaultDir with
        | none =>
            have htake : exec (takeSession vaultDir) w = (.error (.vaultNotOpen vaultDir), w) := by
              rw [takeSession, exec_op, hsession]
            rw [exec_bind_of_error htake]
            exact .inl rfl
        | some session =>
            have htake : exec (takeSession vaultDir) w =
                (.ok session, w.setSession vaultDir none) := by
              rw [takeSession, exec_op, hsession]
            have hkey := hkeyed _ _ hsession
            rw [exec_bind_of_ok htake]
            by_cases hprompt : promptRefused session password = true
            · left
              have hback : exec (insertSession session) (w.setSession vaultDir none) =
                  (.ok (), w) := exec_insertSession_taken hsession hkey w.disk
              rw [if_pos hprompt, exec_bind_of_ok hback]
              rfl
            · right
              rw [if_neg hprompt]
              refine ⟨vaultDir, rfl, by rw [hsession]; rfl, ?_⟩
              exact persistOrReinsert_cases (isPlain_vaultDir haddr) hsession hkey
      · rw [if_neg hisDir] at hlocate
        rw [closeVault, exec_bind_of_error hlocate]
        exact .inl rfl

/-! ## Runs -/

/-- Created vaults stay in place, and without a session their record is
current. -/
structure CallsInv (env : VaultEnv U) (s : Calls U) : Prop where
  keyed : ∀ dir session, s.world.sessions dir = some session → session.vaultDir = dir
  plain : ∀ dir ∈ s.created, IsPlain dir
  placed : ∀ dir ∈ s.created, ∀ path ∈ recordedFiles dir, Placed path s.world.disk
  current : ∀ dir ∈ s.created, s.world.sessions dir = none → HashCurrent env dir s.world.disk

theorem CallsInv.start (disk : Disk) : CallsInv env ⟨World.fresh disk, []⟩ where
  keyed := nofun
  plain := nofun
  placed := nofun
  current := nofun

/-- What keeps placed files keeps the invariant. -/
theorem CallsInv.of_keepsPlaced {s : Calls U} (hinv : CallsInv env s) {disk : Disk}
    (hkeeps : KeepsPlaced s.world.disk disk) :
    CallsInv env { s with world := { s.world with disk := disk } } where
  keyed := hinv.keyed
  plain := hinv.plain
  placed dir hdir path hpath :=
    (hkeeps path (isPlain_recordedFiles hpath) (hinv.placed dir hdir path hpath)).2
  current dir hdir hnone := by
    refine (hinv.current dir hdir hnone).of_sameFiles fun path hpath => ?_
    exact (hkeeps path (isPlain_recordedFiles hpath) (hinv.placed dir hdir path hpath)).1

theorem callsInv_create {s : Calls U} (hinv : CallsInv env s) (root : VaultRoot)
    (config : VaultConfig) (password : Bytes) (preset : KdfUnlockPreset) {s' : Calls U}
    (hstep : callsStep env s (.create root config password preset) = some s') :
    CallsInv env s' := by
  have hkeeps : KeepsPlaced s.world.disk
      (exec (createVault env root config password preset) s.world.disk).2 :=
    keepsPlaced_createVault root config password preset s.world.disk
  have hkept := hinv.of_keepsPlaced hkeeps
  cases hstep
  rcases hrun : (createVault env root config password preset).exec s.world.disk
    with ⟨error | _, disk⟩
  · rw [hrun] at hkept
    exact hkept
  · rw [hrun] at hkept
    obtain ⟨dest, haddr, hcurrent, hplaced⟩ := createVault_ok hrun
    rw [haddr]
    refine ⟨hkept.keyed, ?_, ?_, ?_⟩
    · exact List.forall_mem_cons.mpr ⟨isPlain_vaultDir haddr, hkept.plain⟩
    · exact List.forall_mem_cons.mpr ⟨hplaced, hkept.placed⟩
    · exact List.forall_mem_cons.mpr ⟨fun _ => hcurrent, hkept.current⟩

theorem CallsInv.of_opens {s : Calls U} (hinv : CallsInv env s) {w : World U}
    (hopens : Opens s.world w) : CallsInv env { s with world := w } where
  keyed dir session hsession := by
    rcases hopens.2 dir with hsame | ⟨added, hadded, hkey⟩
    · exact hinv.keyed dir session (hsame ▸ hsession)
    · dsimp only at hsession
      rw [hadded, Option.some.injEq] at hsession
      exact hsession ▸ hkey
  plain := hinv.plain
  placed dir hdir path hpath :=
    (hopens.1.onlyNewDirs.keepsPlaced path (isPlain_recordedFiles hpath)
      (hinv.placed dir hdir path hpath)).2
  current dir hdir hnone := by
    rcases hopens.2 dir with hsame | ⟨added, hadded, -⟩
    · refine (hinv.current dir hdir (hsame ▸ hnone)).of_sameFiles fun path _ => ?_
      exact congrFun hopens.1.1 path
    · dsimp only at hnone
      rw [hadded] at hnone
      cases hnone

theorem CallsInv.of_close {s : Calls U} (hinv : CallsInv env s) {vaultDir : PathBuf}
    {w : World U} (hplain : IsPlain vaultDir) (hopen : (s.world.sessions vaultDir).isSome)
    (hdisk : Overwrites (closedFiles vaultDir) s.world.disk w.disk)
    (hsessions : w.sessions = s.world.sessions ∨
      w.sessions = Function.update s.world.sessions vaultDir none ∧
        HashCurrent env vaultDir w.disk) :
    CallsInv env { s with world := w } := by
  have hother (dir : PathBuf) (hdir : dir ∈ s.created) (hne : dir ≠ vaultDir)
      (hnone : s.world.sessions dir = none) : HashCurrent env dir w.disk := by
    refine (hinv.current dir hdir hnone).of_sameFiles fun path hpath => ?_
    exact hdisk.1 path
      (recordedFiles_not_closedFiles (hinv.plain dir hdir) hplain hne hpath)
  refine ⟨?_, hinv.plain, fun dir hdir path hpath =>
    hdisk.placed (hinv.placed dir hdir path hpath), ?_⟩
  · intro dir session hsession
    dsimp only at hsession
    rcases hsessions with hsame | ⟨hdropped, -⟩
    · exact hinv.keyed dir session (hsame ▸ hsession)
    · rw [hdropped] at hsession
      by_cases hdir : dir = vaultDir
      · rw [hdir, Function.update_self] at hsession
        cases hsession
      · rw [Function.update_of_ne hdir] at hsession
        exact hinv.keyed dir session hsession
  · intro dir hdir hnone
    dsimp only at hdir hnone ⊢
    rcases hsessions with hsame | ⟨hdropped, hcurrent⟩
    · rw [hsame] at hnone
      refine hother dir hdir ?_ hnone
      rintro rfl
      rw [hnone] at hopen
      cases hopen
    · by_cases heq : dir = vaultDir
      · exact heq ▸ hcurrent
      · rw [hdropped, Function.update_of_ne heq] at hnone
        exact hother dir hdir heq hnone

theorem callsInv_step {s s' : Calls U} {call : VaultCall} (hinv : CallsInv env s)
    (hstep : callsStep env s call = some s') : CallsInv env s' := by
  cases call with
  | create root config password preset => exact callsInv_create hinv root config _ _ hstep
  | openVault root vaultId password =>
      cases hstep
      exact hinv.of_opens (opens_openVault root vaultId password s.world)
  | close root vaultId password =>
      obtain rfl := Option.some.inj hstep
      rcases closeVault_cases root vaultId password hinv.keyed with
        hsame | ⟨vaultDir, haddr, hopen, hdisk, hsessions⟩
      · rw [hsame]
        exact hinv
      · exact hinv.of_close (isPlain_vaultDir haddr) hopen hdisk hsessions

/-- In every run, a vault that was created and has no session has a current
record. -/
theorem closed_hashCurrent {disk : Disk} {calls : List VaultCall} {s : Calls U}
    (hrun : Run (callsStep env) Always ⟨World.fresh disk, []⟩ calls s) :
    ∀ dir ∈ s.created, s.world.sessions dir = none → HashCurrent env dir s.world.disk := by
  refine (hrun.invariant (CallsInv env) (.start disk) ?_).current
  intro s call s' hinv hstep _
  exact callsInv_step hinv hstep

end

end Upriv.Vault
