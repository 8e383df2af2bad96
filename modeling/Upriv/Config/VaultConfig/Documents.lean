import Upriv.Config.EditPolicy

/-!
# The documents on disk

What the loaders make of the document in a `config.toml`, and how the documents
on a disk change when a vault is hidden or shown.
-/

namespace Upriv

open FallibleM

/-- The documents in the `config.toml` files, by vault directory. -/
abbrev Configs := PathBuf → Option VaultConfig

/-- What `load_vault_config_raw` makes of a document. -/
def loadDocument (dir : PathBuf) (document : VaultConfig) : Option VaultConfig :=
  if (validateIdentity (vaultConfigPath dir) ((fileName dir).getD "") document).isOk then
    some document.normalized
  else none

def loadRaw (configs : Configs) (dir : PathBuf) : Option VaultConfig :=
  (configs dir).bind (loadDocument dir)

/-- The check that `load_vault_config` adds. -/
def mountAccepted (canonicalize : Canonicalize) (dir : PathBuf) (config : VaultConfig) :
    Bool :=
  (validateMountWorkspacePath canonicalize config.mount.workspacePath
    (vaultRootForConfig dir)).isOk

/-- `require_assignable_vault`. -/
def assignable (canonicalize : Canonicalize) (configs : Configs) (dir : PathBuf) : Bool :=
  (loadRaw configs dir).any (mountAccepted canonicalize dir)

def VaultConfig.withHidden (config : VaultConfig) (hidden : Bool) : VaultConfig :=
  { config with vault := { config.vault with hidden := hidden } }

/-- Whose configuration a document is. -/
def VaultConfig.identity (config : VaultConfig) : String × String :=
  (config.vault.id, config.vault.displayName)

theorem loadDocument_identity {dir : PathBuf} {document config : VaultConfig}
    (h : loadDocument dir document = some config) : config.identity = document.identity := by
  unfold loadDocument at h
  split at h
  · cases h
    simp only [VaultConfig.identity, VaultConfig.normalized]
  · cases h

theorem loadDocument_isSome_congr {dir : PathBuf} {document document' : VaultConfig}
    (h : document'.identity = document.identity) :
    (loadDocument dir document').isSome = (loadDocument dir document).isSome := by
  obtain ⟨hid, hname⟩ := Prod.mk.inj h
  have hcheck : validateIdentity (vaultConfigPath dir) ((fileName dir).getD "") document' =
      validateIdentity (vaultConfigPath dir) ((fileName dir).getD "") document := by
    simp only [validateIdentity, hid, hname]
  unfold loadDocument
  rw [hcheck]
  split <;> rfl

/-! ## What loading and hiding leave alone -/

section
variable (faults : Faults) (codec : TomlCodec VaultConfig) (canonicalize : Canonicalize)

theorem preserves_loadVaultConfigRaw (dir : PathBuf) :
    Preserves SameDisk (loadVaultConfigRaw faults codec dir) := by
  refine preserves_bind preserves_get fun d => ?_
  refine preserves_bind (preserves_ensure _ _) fun _ => ?_
  refine preserves_bind (preserves_readToString faults _) fun raw => ?_
  split
  · exact preserves_throw _
  · exact preserves_bind (preserves_ofExcept _) fun _ => preserves_pure _

theorem preserves_loadVaultConfig (dir : PathBuf) :
    Preserves SameDisk (loadVaultConfig faults codec canonicalize dir) := by
  refine preserves_bind (preserves_loadVaultConfigRaw faults codec dir) fun config => ?_
  exact preserves_bind (preserves_ofExcept _) fun _ => preserves_pure _

theorem preserves_setVaultHidden {path dir : PathBuf} (hidden : Bool)
    (hne : path ≠ vaultConfigPath dir) :
    Preserves (SameAt path) (setVaultHidden faults codec dir hidden) := by
  refine preserves_bind
    (preserves_sameAt (preserves_loadVaultConfigRaw faults codec dir) path) fun config => ?_
  split
  · exact preserves_pure _
  · refine preserves_bind (preserves_ofExcept _) fun body => ?_
    refine preserves_bind
      (preserves_writeBytesAtomicExistingParent faults hne _) fun _ => ?_
    exact preserves_pure _

end

/-! ## On disk -/

/-- The documents on a disk. -/
def configsOn (codec : TomlCodec VaultConfig) (d : Disk) : Configs := fun dir =>
  ((d.files (vaultConfigPath dir)).bind decodeUtf8).bind fun raw => (codec.fromStr raw).toOption

/-- The configuration that `load_vault_config_raw` gives when the file can be read. -/
def loadedOn (codec : TomlCodec VaultConfig) (d : Disk) (dir : PathBuf) : Option VaultConfig :=
  loadRaw (configsOn codec d) dir

section
variable {faults : Faults} {codec : TomlCodec VaultConfig} {canonicalize : Canonicalize}
  {dir : PathBuf} {config : VaultConfig} {d d' : Disk}

theorem configsOn_congr (h : d'.files (vaultConfigPath dir) = d.files (vaultConfigPath dir)) :
    configsOn codec d' dir = configsOn codec d dir := by
  rw [configsOn, configsOn, h]

theorem loadedOn_congr (h : d'.files (vaultConfigPath dir) = d.files (vaultConfigPath dir)) :
    loadedOn codec d' dir = loadedOn codec d dir := by
  rw [loadedOn, loadedOn, loadRaw, loadRaw, configsOn_congr h]

theorem SameDisk.loadedOn (h : SameDisk d d') (dir : PathBuf) :
    loadedOn codec d' dir = Upriv.loadedOn codec d dir :=
  loadedOn_congr (congrFun h.1 _)

theorem loadedOn_eq_some_iff :
    loadedOn codec d dir = some config ↔
      ∃ bytes raw document, d.files (vaultConfigPath dir) = some bytes ∧
        decodeUtf8 bytes = some raw ∧ codec.fromStr raw = .ok document ∧
        loadDocument dir document = some config := by
  simp only [loadedOn, loadRaw, configsOn, Option.bind_eq_some_iff]
  constructor
  · rintro ⟨document, ⟨raw, ⟨bytes, hfile, hraw⟩, hdocument⟩, hload⟩
    refine ⟨bytes, raw, document, hfile, hraw, ?_, hload⟩
    cases hparse : codec.fromStr raw with
    | error e =>
        rw [hparse] at hdocument
        cases hdocument
    | ok parsed =>
        rw [hparse] at hdocument
        exact congrArg Except.ok (Option.some.inj hdocument)
  · rintro ⟨bytes, raw, document, hfile, hraw, hdocument, hload⟩
    exact ⟨document, ⟨raw, ⟨bytes, hfile, hraw⟩, by rw [hdocument]; rfl⟩, hload⟩

theorem loadDocument_eq_some_iff {document : VaultConfig} :
    loadDocument dir document = some config ↔
      validateIdentity (vaultConfigPath dir) ((fileName dir).getD "") document = .ok () ∧
        document.normalized = config := by
  unfold loadDocument
  cases hcheck : validateIdentity (vaultConfigPath dir) ((fileName dir).getD "") document with
  | error e => simp [Except.isOk, Except.toBool]
  | ok u => simp [Except.isOk, Except.toBool]

theorem loadVaultConfigRaw_ok
    (h : (loadVaultConfigRaw faults codec dir).exec d = (.ok config, d')) :
    loadedOn codec d dir = some config := by
  rw [loadVaultConfigRaw, exec_bind, exec_get] at h
  obtain ⟨-, h⟩ := exec_ensure_bind_eq_ok_iff.mp h
  obtain ⟨raw, m, hread, h⟩ := exec_bind_eq_ok_iff.mp h
  obtain ⟨bytes, hfile, hraw⟩ := readToString_ok faults hread
  split at h
  · cases h
  · rename_i document hdocument
    obtain ⟨_, hcheck, h⟩ := exec_ofExcept_bind_eq_ok_iff.mp h
    cases h
    exact loadedOn_eq_some_iff.mpr ⟨bytes, raw, document, hfile, hraw, hdocument,
      loadDocument_eq_some_iff.mpr ⟨hcheck, rfl⟩⟩

theorem exec_loadVaultConfigRaw (hcall : faults d.calls = none)
    (hload : loadedOn codec d dir = some config) :
    (loadVaultConfigRaw faults codec dir).exec d =
      (.ok config, { d with calls := d.calls + 1 }) := by
  obtain ⟨bytes, raw, document, hfile, hraw, hdocument, hload⟩ := loadedOn_eq_some_iff.mp hload
  obtain ⟨hcheck, hnormal⟩ := loadDocument_eq_some_iff.mp hload
  have hisFile : d.isFile (vaultConfigPath dir) = true := by
    rw [Disk.isFile, hfile]
    rfl
  rw [loadVaultConfigRaw, exec_bind, exec_get]
  dsimp only
  rw [ensure, if_pos hisFile, pure_bind,
    exec_bind_of_ok (exec_readToString faults hcall hfile hraw), hdocument, exec_ofExcept_bind,
    hcheck, ← hnormal]
  rfl

theorem exec_loadVaultConfigRaw_of_refused {error : IoError} (hcall : faults d.calls = some error)
    (hload : loadedOn codec d dir = some config) :
    (loadVaultConfigRaw faults codec dir).exec d =
      (.error (.io error), { d with calls := d.calls + 1 }) := by
  obtain ⟨bytes, _, _, hfile, -⟩ := loadedOn_eq_some_iff.mp hload
  have hisFile : d.isFile (vaultConfigPath dir) = true := by
    rw [Disk.isFile, hfile]
    rfl
  rw [loadVaultConfigRaw, exec_bind, exec_get]
  dsimp only
  rw [ensure, if_pos hisFile, pure_bind,
    exec_bind_of_error (exec_readToString_of_refused faults hcall)]

theorem loadVaultConfigRaw_noFaults_iff :
    ((loadVaultConfigRaw noFaults codec dir).exec d).1 = .ok config ↔
      loadedOn codec d dir = some config := by
  constructor
  · intro h
    obtain ⟨m, hrun⟩ := exists_exec_eq h
    exact loadVaultConfigRaw_ok hrun
  · intro h
    rw [exec_loadVaultConfigRaw rfl h]

/-- The full load adds the check of the mount path. -/
theorem loadVaultConfig_noFaults_iff :
    ((loadVaultConfig noFaults codec canonicalize dir).exec d).1 = .ok config ↔
      loadedOn codec d dir = some config ∧ mountAccepted canonicalize dir config = true := by
  have hcheck : ∀ other : VaultConfig,
      (validateMountWorkspacePath canonicalize other.mount.workspacePath
        (vaultRootForConfig dir)).mapError (mapMountValidateError (vaultConfigPath dir)) =
        .ok () ↔ mountAccepted canonicalize dir other = true := by
    intro other
    rw [mountAccepted]
    cases validateMountWorkspacePath canonicalize other.mount.workspacePath
      (vaultRootForConfig dir) <;> simp [Except.mapError, Except.isOk, Except.toBool]
  constructor
  · intro h
    obtain ⟨m, hrun⟩ := exists_exec_eq h
    obtain ⟨other, _, hload, hrun⟩ := exec_bind_eq_ok_iff.mp hrun
    obtain ⟨_, hmount, hrun⟩ := exec_ofExcept_bind_eq_ok_iff.mp hrun
    cases hrun
    exact ⟨loadVaultConfigRaw_ok hload, (hcheck _).mp hmount⟩
  · rintro ⟨hload, hmount⟩
    rw [loadVaultConfig, exec_bind_of_ok (exec_loadVaultConfigRaw rfl hload),
      exec_ofExcept_bind, (hcheck config).mpr hmount]
    rfl

end

/-! ## Hiding and showing a vault -/

theorem VaultConfig.withHidden_self (config : VaultConfig) :
    config.withHidden config.vault.hidden = config := rfl

@[simp] theorem VaultConfig.withHidden_withHidden (config : VaultConfig) (hidden other : Bool) :
    (config.withHidden hidden).withHidden other = config.withHidden other := rfl

@[simp] theorem VaultConfig.hidden_withHidden (config : VaultConfig) (hidden : Bool) :
    (config.withHidden hidden).vault.hidden = hidden := rfl

/-- A loaded configuration is loaded again with the flag it is written with. -/
theorem loadDocument_withHidden {dir : PathBuf} {document config : VaultConfig}
    (h : loadDocument dir document = some config) (hidden : Bool) :
    loadDocument dir (config.withHidden hidden).written = some (config.withHidden hidden) := by
  obtain ⟨hcheck, rfl⟩ := loadDocument_eq_some_iff.mp h
  refine loadDocument_eq_some_iff.mpr ⟨hcheck, ?_⟩
  simp only [VaultConfig.normalized, VaultConfig.withHidden, VaultConfig.written,
    VaultSecurityMode.normalized_normalized, normalizeMountWorkspacePath_idem]

/-- The flag of the vault at `dir` has been set. -/
structure SetsHidden (codec : TomlCodec VaultConfig) (dir : PathBuf) (hidden : Bool)
    (d d' : Disk) : Prop where
  loaded : ∃ config, loadedOn codec d dir = some config ∧
    loadedOn codec d' dir = some (config.withHidden hidden)
  others : ∀ path, path ≠ vaultConfigPath dir → d'.files path = d.files path
  dirs : d'.dirs = d.dirs

theorem vaultConfigPath_inj {dir dir' : PathBuf} (hdir : IsPlain dir) (hdir' : IsPlain dir')
    (h : vaultConfigPath dir = vaultConfigPath dir') : dir = dir' :=
  dir_of_joinPath_eq hdir hdir' h

theorem parent_vaultConfigPath {dir : PathBuf} (hdir : IsPlain dir) :
    parent (vaultConfigPath dir) = some dir :=
  parent_joinPath hdir (by decide)

section
variable {faults : Faults} {codec : TomlCodec VaultConfig} {dir : PathBuf} {hidden : Bool}
  {d d' : Disk} {e : UprivError}

theorem SetsHidden.loadedOn_of_ne {other : PathBuf} (h : SetsHidden codec dir hidden d d')
    (hdir : IsPlain dir) (hother : IsPlain other) (hne : other ≠ dir) :
    loadedOn codec d' other = loadedOn codec d other :=
  loadedOn_congr (h.others _ fun heq => hne (vaultConfigPath_inj hother hdir heq))

theorem serializeVaultConfigTomlUnchecked_ok {config : VaultConfig} {body : String}
    (h : serializeVaultConfigTomlUnchecked codec config = .ok body) :
    codec.fromStr body = .ok config.written := by
  rw [serializeVaultConfigTomlUnchecked] at h
  dsimp only at h
  split at h
  · cases h
  · rename_i text htext
    cases h
    exact codec.fromStr_toStringPretty _ _ _ htext isCommentBlock_note

theorem serializeVaultConfigTomlUnchecked_error {config : VaultConfig}
    (h : serializeVaultConfigTomlUnchecked codec config = .error e) :
    ¬ codec.Serializes config.written ∧ ∀ error, e ≠ .io error := by
  rw [serializeVaultConfigTomlUnchecked] at h
  dsimp only at h
  split at h
  · rename_i error hbody
    cases h
    refine ⟨?_, fun _ heq => by cases heq⟩
    rintro ⟨text, htext⟩
    exact absurd (hbody.symm.trans htext) (by simp)
  · cases h

/-- A successful `set_vault_hidden` sets the flag; it writes only if the flag differs. -/
theorem setVaultHidden_ok {changed : Bool}
    (h : (setVaultHidden faults codec dir hidden).exec d = (.ok changed, d')) :
    SetsHidden codec dir hidden d d' ∧
      ∀ config, loadedOn codec d dir = some config → config.vault.hidden = hidden →
        d'.files = d.files := by
  obtain ⟨config, m, hload, h⟩ := exec_bind_eq_ok_iff.mp h
  have hsame : SameDisk d m := (preserves_loadVaultConfigRaw faults codec dir).exec_eq hload
  have hloaded := loadVaultConfigRaw_ok hload
  split at h
  · rename_i hflag
    cases h
    refine ⟨⟨⟨config, hloaded, ?_⟩, fun path _ => congrFun hsame.1 path, hsame.2⟩,
      fun _ _ _ => hsame.1⟩
    rw [hsame.loadedOn, hloaded, ← hflag, config.withHidden_self]
  · rename_i hflag
    obtain ⟨body, hbody, h⟩ := exec_ofExcept_bind_eq_ok_iff.mp h
    obtain ⟨_, m', hwrite, h⟩ := exec_bind_eq_ok_iff.mp h
    cases h
    have hfiles := files_of_writeBytesAtomic_ok faults hwrite
    obtain ⟨_, _, document, -, -, -, hdocument⟩ := loadedOn_eq_some_iff.mp hloaded
    refine ⟨⟨⟨config, hloaded, ?_⟩, ?_, ?_⟩, ?_⟩
    · refine loadedOn_eq_some_iff.mpr ⟨utf8 body.toList, body, _, ?_, decodeUtf8_utf8 body,
        serializeVaultConfigTomlUnchecked_ok hbody, loadDocument_withHidden hdocument hidden⟩
      rw [hfiles, Function.update_self]
    · intro path hne
      rw [hfiles, Function.update_of_ne hne, hsame.1]
    · exact (sameDirs_writeBytesAtomicExistingParent faults _ _ |>.exec_eq hwrite).trans hsame.2
    · intro other hother hother'
      rw [hloaded, Option.some.injEq] at hother
      exact absurd (hother ▸ hother') hflag

/-- A failed `set_vault_hidden` writes nothing. -/
theorem preservesOnError_setVaultHidden (dir : PathBuf) (hidden : Bool) :
    PreservesOnError SameDisk (setVaultHidden faults codec dir hidden) := by
  refine preservesOnError_bind (preserves_loadVaultConfigRaw faults codec dir) fun config => ?_
  split
  · exact (preserves_pure _).onError
  · refine preservesOnError_bind (preserves_ofExcept _) fun body => ?_
    exact preservesOnError_bind_of_succeeds (sameDisk_of_writeBytesAtomic_error faults _)
      fun _ _ => ⟨true, rfl⟩

theorem callsGrow_loadVaultConfigRaw (dir : PathBuf) :
    Preserves CallsGrow (loadVaultConfigRaw faults codec dir) := by
  refine preserves_bind preserves_get fun d => ?_
  refine preserves_bind (preserves_ensure _ _) fun _ => ?_
  refine preserves_bind (callsGrow_readToString faults _) fun raw => ?_
  split
  · exact preserves_throw _
  · exact preserves_bind (preserves_ofExcept _) fun _ => preserves_pure _

theorem callsGrow_setVaultHidden (dir : PathBuf) (hidden : Bool) :
    Preserves CallsGrow (setVaultHidden faults codec dir hidden) := by
  refine preserves_bind (callsGrow_loadVaultConfigRaw dir) fun config => ?_
  split
  · exact preserves_pure _
  · refine preserves_bind (preserves_ofExcept _) fun body => ?_
    exact preserves_bind (callsGrow_writeBytesAtomicExistingParent faults _ _)
      fun _ => preserves_pure _

/-- A system call between two states was refused with this error. -/
def RefusedWith (faults : Faults) (d d' : Disk) (e : UprivError) : Prop :=
  ∃ n error, d.calls ≤ n ∧ n < d'.calls ∧ faults n = some error ∧ e = .io error

theorem RefusedWith.of_callsGrow {m : Disk} (hcalls : CallsGrow d m)
    (h : RefusedWith faults m d' e) : RefusedWith faults d d' e := by
  obtain ⟨n, error, hge, hlt, hrefused⟩ := h
  exact ⟨n, error, hcalls.trans hge, hlt, hrefused⟩

/-- A configuration that can be loaded is not loaded only if the read is refused. -/
theorem loadVaultConfigRaw_error
    (h : (loadVaultConfigRaw faults codec dir).exec d = (.error e, d')) :
    RefusedWith faults d d' e ∨ loadedOn codec d dir = none := by
  cases hloaded : loadedOn codec d dir with
  | none => exact .inr rfl
  | some config =>
      cases hcall : faults d.calls with
      | none =>
          rw [exec_loadVaultConfigRaw hcall hloaded] at h
          cases h
      | some error =>
          rw [exec_loadVaultConfigRaw_of_refused hcall hloaded] at h
          cases h
          exact .inl ⟨d.calls, error, Nat.le_refl _, Nat.lt_succ_self _, hcall, rfl⟩

/-- `set_vault_hidden` of a vault that can be loaded fails only because a system call
is refused, the document cannot be written as TOML, or its directory is missing. -/
theorem setVaultHidden_error {config : VaultConfig} (hdir : IsPlain dir)
    (hloaded : loadedOn codec d dir = some config)
    (h : (setVaultHidden faults codec dir hidden).exec d = (.error e, d')) :
    RefusedWith faults d d' e ∨
      (¬ codec.Serializes (config.withHidden hidden).written ∨ d.isDir dir = false) ∧
        ∀ error, e ≠ .io error := by
  cases hcall : faults d.calls with
  | some error =>
      rw [setVaultHidden, exec_bind_of_error (exec_loadVaultConfigRaw_of_refused hcall hloaded)]
        at h
      cases h
      exact .inl ⟨d.calls, error, Nat.le_refl _, Nat.lt_succ_self _, hcall, rfl⟩
  | none =>
      rw [setVaultHidden, exec_bind_of_ok (exec_loadVaultConfigRaw hcall hloaded)] at h
      split at h
      · cases h
      · rw [exec_ofExcept_bind] at h
        split at h
        · rename_i body hbody
          rw [exec_bind] at h
          split at h
          · cases h
          · rename_i error m hwrite
            cases h
            rcases writeBytesAtomic_error faults hwrite with ⟨error, hfault, rfl, hcalls⟩ |
              ⟨hparent, rfl⟩
            · refine .inl ⟨d.calls + 1, error, Nat.le_succ _, ?_, hfault, rfl⟩
              rw [hcalls]
              exact Nat.lt_succ_self _
            · refine .inr ⟨.inr ?_, fun _ heq => by cases heq⟩
              rw [parent_vaultConfigPath hdir] at hparent
              exact hparent
        · rename_i error hbody
          cases h
          obtain ⟨hserializes, hother⟩ := serializeVaultConfigTomlUnchecked_error hbody
          exact .inr ⟨.inl hserializes, hother⟩

/-- The errors of loading and of setting a flag. -/
def IsConfigError : UprivError → Prop
  | .io _ | .vaultConfigInvalid _ _ | .vaultRootNotFound _ => True
  | _ => False

theorem isConfigError_of_validateIdentity {path : PathBuf} {dirName : String}
    {parsed : VaultConfig} (h : validateIdentity path dirName parsed = .error e) :
    IsConfigError e := by
  unfold validateIdentity at h
  split at h
  · cases h
    trivial
  split at h
  · cases h
    trivial
  split at h <;> cases h
  trivial

theorem errors_loadVaultConfigRaw (dir : PathBuf) :
    Errors IsConfigError (loadVaultConfigRaw faults codec dir) := by
  refine errors_bind errors_get fun d => ?_
  refine errors_bind (errors_ensure trivial) fun _ => ?_
  refine errors_bind (errors_readToString faults (fun _ => trivial) _) fun raw => ?_
  split
  · exact errors_throw trivial
  · exact errors_bind (errors_ofExcept fun _ => isConfigError_of_validateIdentity)
      fun _ => errors_pure _

theorem errors_setVaultHidden (dir : PathBuf) (hidden : Bool) :
    Errors IsConfigError (setVaultHidden faults codec dir hidden) := by
  refine errors_bind (errors_loadVaultConfigRaw dir) fun config => ?_
  split
  · exact errors_pure _
  · refine errors_bind (errors_ofExcept fun e hbody => ?_) fun body => ?_
    · rw [serializeVaultConfigTomlUnchecked] at hbody
      dsimp only at hbody
      split at hbody <;> cases hbody
      trivial
    · exact errors_bind
        (errors_writeBytesAtomicExistingParent faults (fun _ => trivial) trivial _)
        fun _ => errors_pure _

end

end Upriv
