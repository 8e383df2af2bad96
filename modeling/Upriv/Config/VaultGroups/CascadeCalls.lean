import Upriv.Config.VaultConfig.SaveLoad
import Upriv.Config.VaultGroups.CascadeSave
import Upriv.Config.VaultGroups.Membership

/-!
# The calls that the steps stand for

A create or an update of a group, run on a disk, goes through the steps of a
mutation, and a save goes through the steps of a save.  The documents of the
steps are those on the disk, at every vault directory.
-/

namespace Upriv

open FallibleM

/-! ## The documents on a disk -/

/-- At every vault directory, the documents are those on the disk. -/
def DocumentsOn (codec : TomlCodec VaultConfig) (d : Disk) (c : Configs) : Prop :=
  ∀ dir, IsPlain dir → c dir = configsOn codec d dir

section
variable {faults : Faults} {codec : TomlCodec VaultConfig} {canonicalize : Canonicalize}
  {d m d' : Disk} {c : Configs} {dir : PathBuf} {hidden : Bool} {config : VaultConfig}

theorem documentsOn_configsOn (codec : TomlCodec VaultConfig) (d : Disk) :
    DocumentsOn codec d (configsOn codec d) := fun _ _ => rfl

theorem DocumentsOn.of_files (h : DocumentsOn codec d c)
    (hfiles : ∀ dir, d'.files (vaultConfigPath dir) = d.files (vaultConfigPath dir)) :
    DocumentsOn codec d' c :=
  fun dir hdir => (h dir hdir).trans (configsOn_congr (hfiles dir)).symm

theorem DocumentsOn.of_sameDisk (h : DocumentsOn codec d c) (hsame : SameDisk d d') :
    DocumentsOn codec d' c :=
  h.of_files fun _ => congrFun hsame.1 _

theorem DocumentsOn.loadRaw_eq (h : DocumentsOn codec d c) (hdir : IsPlain dir) :
    loadRaw c dir = loadedOn codec d dir := by
  rw [loadedOn, loadRaw, loadRaw, h dir hdir]

/-- One document is written. -/
theorem DocumentsOn.update (h : DocumentsOn codec d c) (hdir : IsPlain dir)
    {document : VaultConfig} (hwritten : configsOn codec d' dir = some document)
    (hothers : ∀ path, path ≠ vaultConfigPath dir → d'.files path = d.files path) :
    DocumentsOn codec d' (Function.update c dir (some document)) := by
  intro other hother
  by_cases hne : other = dir
  · subst hne
    rw [Function.update_self, hwritten]
  · rw [Function.update_of_ne hne, h other hother]
    refine (configsOn_congr (hothers _ fun heq => hne ?_)).symm
    exact vaultConfigPath_inj hother hdir heq

/-- A vault that `load_vault_config` accepts is assignable. -/
theorem DocumentsOn.assignable (h : DocumentsOn codec d c) (hdir : IsPlain dir)
    (hrun : (loadVaultConfig faults codec canonicalize dir).exec d = (.ok config, d')) :
    assignable canonicalize c dir = true := by
  obtain ⟨found, m, hload, hrun⟩ := exec_bind_eq_ok_iff.mp hrun
  obtain ⟨_, hmount, -⟩ := exec_ofExcept_bind_eq_ok_iff.mp hrun
  rw [Upriv.assignable, h.loadRaw_eq hdir, loadVaultConfigRaw_ok hload, Option.any_some,
    mountAccepted]
  cases hvalid : validateMountWorkspacePath canonicalize found.mount.workspacePath
      (vaultRootForConfig dir) with
  | ok u => rfl
  | error e =>
      rw [hvalid] at hmount
      cases hmount

/-- What `set_vault_hidden` makes of the documents. -/
theorem DocumentsOn.setVaultHidden (h : DocumentsOn codec d c) (hdir : IsPlain dir)
    {changed : Bool} (hrun : (setVaultHidden faults codec dir hidden).exec d = (.ok changed, d')) :
    ∃ config, loadRaw c dir = some config ∧
      (config.vault.hidden = hidden ∧ DocumentsOn codec d' c ∨
        config.vault.hidden ≠ hidden ∧ DocumentsOn codec d'
          (Function.update c dir (some (config.withHidden hidden).written))) := by
  obtain ⟨config, m, hload, hrun⟩ := exec_bind_eq_ok_iff.mp hrun
  have hsame : SameDisk d m := (preserves_loadVaultConfigRaw faults codec dir).exec_eq hload
  refine ⟨config, (h.loadRaw_eq hdir).trans (loadVaultConfigRaw_ok hload), ?_⟩
  split at hrun
  · rename_i hflag
    cases hrun
    exact .inl ⟨hflag, h.of_sameDisk hsame⟩
  · rename_i hflag
    obtain ⟨body, hbody, hrun⟩ := exec_ofExcept_bind_eq_ok_iff.mp hrun
    obtain ⟨_, m', hwrite, hrun⟩ := exec_bind_eq_ok_iff.mp hrun
    cases hrun
    have hfiles := files_of_writeBytesAtomic_ok faults hwrite
    refine .inr ⟨hflag, (h.of_sameDisk hsame).update hdir ?_ fun path hne => ?_⟩
    · rw [configsOn, hfiles, Function.update_self, Option.bind_some, decodeUtf8_utf8,
        Option.bind_some, serializeVaultConfigTomlUnchecked_ok hbody]
      rfl
    · rw [hfiles, Function.update_of_ne hne]

end

/-! ## The mutation of a call -/

/-- The directories of these vaults, whether or not they exist. -/
def vaultDirs (root : VaultRoot) (vaultIds : List String) : List PathBuf :=
  vaultIds.filterMap fun vaultId => (root.vaultDir vaultId).toOption

theorem vaultDir_ok {root : VaultRoot} {vaultId : String} {dir : PathBuf}
    (h : (root.vaultDir vaultId).toOption = some dir) :
    dir = joinPath root.vaultsDir (trim vaultId) := by
  rw [VaultRoot.vaultDir] at h
  cases hcomponent : vaultIdComponent vaultId with
  | error e =>
      rw [hcomponent] at h
      cases h
  | ok id =>
      rw [hcomponent] at h
      rw [← (trimmed_of_vaultIdComponent hcomponent).1]
      exact (Option.some.inj h).symm

/-- Different vaults have different directories. -/
theorem nodup_vaultDirs (root : VaultRoot) {vaultIds : List String} (h : CleanIds vaultIds) :
    (vaultDirs root vaultIds).Nodup := by
  refine List.Pairwise.filterMap _ ?_ (List.Pairwise.and_mem.mp h.nodup)
  rintro vaultId vaultId' ⟨hmem, hmem', hne⟩ dir hdir dir' hdir' heq
  subst heq
  have htrimmed : trim vaultId = trim vaultId' :=
    joinPath_injective root.vaultsDir ((vaultDir_ok hdir).symm.trans (vaultDir_ok hdir'))
  exact hne (by rwa [(h.trimmed vaultId hmem).1, (h.trimmed vaultId' hmem').1] at htrimmed)

theorem cascadeDirs_sublist (root : VaultRoot) (d : Disk) (vaultIds : List String) :
    (cascadeDirs root d vaultIds).Sublist (vaultDirs root vaultIds) := by
  have hfilter : cascadeDirs root d vaultIds = (vaultDirs root vaultIds).filter d.isDir :=
    List.filter_filterMap.symm
  rw [hfilter]
  exact List.filter_sublist

/-- The mutation that checks the vaults `taken` and sets the flag of those `vaultIds`
that exist on the disk. -/
def hidingMutation (root : VaultRoot) (d : Disk) {taken vaultIds : List String}
    (htaken : CleanIds taken) (hvaultIds : CleanIds vaultIds) (hidden : Bool) :
    GroupMutation where
  checked := vaultDirs root taken
  members := cascadeDirs root d vaultIds
  hidden := hidden
  checked_nodup := nodup_vaultDirs root htaken
  members_nodup := (nodup_vaultDirs root hvaultIds).sublist (cascadeDirs_sublist root d vaultIds)

/-! ## From the checks to the result -/

/-- A run of the mutation reaches `pc`, with the documents that are on the disk. -/
def Reaches (env : GroupsEnv) (op : GroupMutation) (c₀ : Configs) (d : Disk) (pc : MutationPc) :
    Prop :=
  ∃ c, MutationRun env.canonicalize op c₀ c pc ∧ DocumentsOn env.configCodec d c

/-- A planned vault, as the steps have it. -/
def VaultHiddenRevert.planned {root : VaultRoot} (entry : VaultHiddenRevert root) :
    PathBuf × Bool :=
  (entry.dir, entry.previous)

section
variable {env : GroupsEnv} {root : VaultRoot} {op : GroupMutation} {d d' : Disk} {c₀ : Configs}
  {pc pc' : MutationPc} {vaultIds : List String} {e : UprivError}

theorem Reaches.of_sameDisk (h : Reaches env op c₀ d pc) (hsame : SameDisk d d') :
    Reaches env op c₀ d' pc := by
  obtain ⟨c, hrun, hdocuments⟩ := h
  exact ⟨c, hrun, hdocuments.of_sameDisk hsame⟩

/-- A step that writes nothing. -/
theorem Reaches.move (h : Reaches env op c₀ d pc)
    (hmove : ∀ c, DocumentsOn env.configCodec d c →
      MutationMoves env.canonicalize op c pc c pc') : Reaches env op c₀ d pc' := by
  obtain ⟨c, hrun, hdocuments⟩ := h
  exact ⟨c, hrun.step (hmove c hdocuments), hdocuments⟩

theorem Reaches.checks (hreaches : Reaches env op c₀ d (.check (vaultDirs root vaultIds)))
    (h : (vaultIds.forM (requireAssignableVault env root)).exec d = (.ok ⟨⟩, d')) :
    Reaches env op c₀ d' (.check []) := by
  induction vaultIds generalizing d with
  | nil =>
      cases h
      exact hreaches
  | cons vaultId vaultIds ih =>
      obtain ⟨_, m, hfirst, h⟩ := exec_bind_eq_ok_iff.mp h
      have hsame : SameDisk d m :=
        (preserves_requireAssignableVault env root vaultId).exec_eq hfirst
      obtain ⟨dir, hdir, hfirst⟩ := exec_ofExcept_bind_eq_ok_iff.mp hfirst
      rw [exec_bind, exec_get] at hfirst
      obtain ⟨-, hfirst⟩ := exec_ensure_bind_eq_ok_iff.mp hfirst
      obtain ⟨config, _, hload, -⟩ := exec_bind_eq_ok_iff.mp hfirst
      have hdirs : vaultDirs root (vaultId :: vaultIds) = dir :: vaultDirs root vaultIds := by
        rw [vaultDirs, List.filterMap_cons, hdir]
        rfl
      rw [hdirs] at hreaches
      refine ih (.of_sameDisk (hreaches.move fun c hdocuments => .checkPass ?_) hsame) h
      exact hdocuments.assignable (isPlain_of_vaultDir hdir) hload

/-- One vault is read for the plan. -/
theorem Reaches.planRead {dir : PathBuf} {rest : List PathBuf} {before : List (PathBuf × Bool)}
    {config : VaultConfig} (hdir : IsPlain dir)
    (hreaches : Reaches env op c₀ d (.plan (dir :: rest) before))
    (hload : (loadVaultConfigRaw env.faults env.configCodec dir).exec d = (.ok config, d')) :
    Reaches env op c₀ d' (.plan rest (planEntry op.hidden before dir config)) := by
  have hsame : SameDisk d d' := (preserves_loadVaultConfigRaw _ _ _).exec_eq hload
  refine .of_sameDisk (hreaches.move fun c hdocuments => .planRead ?_) hsame
  exact (hdocuments.loadRaw_eq hdir).trans (loadVaultConfigRaw_ok hload)

theorem Reaches.plans_ok {before : List (PathBuf × Bool)}
    {planned : List (VaultHiddenRevert root)}
    (hreaches : Reaches env op c₀ d (.plan (cascadeDirs root d vaultIds) before))
    (h : (planSetGroupedVaultsHidden env root op.hidden vaultIds).exec d = (.ok planned, d')) :
    Reaches env op c₀ d' (.apply (before ++ planned.map VaultHiddenRevert.planned) []) := by
  induction vaultIds generalizing d d' before planned with
  | nil =>
      cases h
      rw [List.map_nil, List.append_nil]
      exact hreaches.move fun _ _ => .planDone
  | cons vaultId vaultIds ih =>
      unfold planSetGroupedVaultsHidden at h
      split at h
      · rename_i error herror
        rw [cascadeDirs_cons_error herror] at hreaches
        exact ih hreaches h
      · rename_i dir hdir
        rw [exec_bind, exec_get] at h
        dsimp only at h
        split at h
        · rename_i hmissing
          rw [cascadeDirs_cons_missing hdir (by simpa using hmissing)] at hreaches
          exact ih hreaches h
        · rename_i hexists
          rw [cascadeDirs_cons_dir hdir (by simpa using hexists)] at hreaches
          obtain ⟨config, m, hload, h⟩ := exec_bind_eq_ok_iff.mp h
          obtain ⟨rest, m', hrest, h⟩ := exec_bind_eq_ok_iff.mp h
          have hsame : SameDisk d m := (preserves_loadVaultConfigRaw _ _ _).exec_eq hload
          have hread := hreaches.planRead (isPlain_of_vaultDir hdir) hload
          rw [← cascadeDirs_congr hsame.2] at hread
          have happly := ih hread hrest
          rw [planEntry] at happly
          split at h
          · rename_i hflag
            cases h
            rwa [if_pos hflag] at happly
          · rename_i hflag
            cases h
            rw [if_neg hflag, List.append_assoc] at happly
            exact happly

theorem Reaches.plans_error {before : List (PathBuf × Bool)}
    (hreaches : Reaches env op c₀ d (.plan (cascadeDirs root d vaultIds) before))
    (h : (planSetGroupedVaultsHidden env root op.hidden vaultIds).exec d = (.error e, d')) :
    Reaches env op c₀ d' (.returned false) := by
  induction vaultIds generalizing d d' before with
  | nil => cases h
  | cons vaultId vaultIds ih =>
      unfold planSetGroupedVaultsHidden at h
      split at h
      · rename_i error herror
        rw [cascadeDirs_cons_error herror] at hreaches
        exact ih hreaches h
      · rename_i dir hdir
        rw [exec_bind, exec_get] at h
        dsimp only at h
        split at h
        · rename_i hmissing
          rw [cascadeDirs_cons_missing hdir (by simpa using hmissing)] at hreaches
          exact ih hreaches h
        · rename_i hexists
          rw [cascadeDirs_cons_dir hdir (by simpa using hexists)] at hreaches
          rw [exec_bind] at h
          split at h
          · rename_i config m hload
            have hsame : SameDisk d m := (preserves_loadVaultConfigRaw _ _ _).exec_eq hload
            have hread := hreaches.planRead (isPlain_of_vaultDir hdir) hload
            rw [← cascadeDirs_congr hsame.2] at hread
            rw [exec_bind] at h
            split at h
            · split at h <;> cases h
            · rename_i error m' hrest
              cases h
              exact ih hread hrest
          · rename_i error m hload
            have hsame : SameDisk d m := (preserves_loadVaultConfigRaw _ _ _).exec_eq hload
            cases h
            exact .of_sameDisk (hreaches.move fun _ _ => .planFail) hsame

/-- Taking back, the vault that was applied last first. -/
theorem Reaches.reverts {applied : List (VaultHiddenRevert root)}
    (hreaches : Reaches env op c₀ d (.revert (applied.map VaultHiddenRevert.planned).reverse))
    (h : (revertVaultHidden env applied).exec d = (.ok (), d')) :
    Reaches env op c₀ d' (.returned false) := by
  rw [revertVaultHidden] at h
  rw [← List.map_reverse] at hreaches
  generalize applied.reverse = entries at h hreaches
  induction entries generalizing d with
  | nil =>
      cases h
      exact hreaches.move fun _ _ => .revertDone
  | cons entry rest ih =>
      rw [List.forM_eq_forM, List.forM_cons, bind_assoc, exec_attempt_bind, pure_bind] at h
      rcases hset : (setVaultHidden env.faults env.configCodec entry.dir entry.previous).exec d with
        ⟨error | changed, m⟩
      · rw [hset] at h
        have hsame : SameDisk d m := preservesOnError_setVaultHidden _ _ d _ m hset
        exact ih h (.of_sameDisk (hreaches.move fun _ _ => .revertSkip) hsame)
      · rw [hset] at h
        obtain ⟨c, hrun, hdocuments⟩ := hreaches
        obtain ⟨config, hload, ⟨-, hkept⟩ | ⟨hflag, hwritten⟩⟩ :=
          hdocuments.setVaultHidden entry.isPlain hset
        · exact ih h ⟨c, hrun.step .revertSkip, hkept⟩
        · exact ih h ⟨_, (hrun.step (.revertLoad hload hflag)).step .revertWrite, hwritten⟩

/-- One vault of the plan is set. -/
theorem Reaches.apply_entry {entry : VaultHiddenRevert root} {rest applied : List (PathBuf × Bool)}
    {changed : Bool} (hreaches : Reaches env op c₀ d (.apply (entry.planned :: rest) applied))
    (hset : (setVaultHidden env.faults env.configCodec entry.dir op.hidden).exec d =
      (.ok changed, d')) :
    Reaches env op c₀ d' (.apply rest (applied ++ [entry.planned])) := by
  obtain ⟨c, hrun, hdocuments⟩ := hreaches
  obtain ⟨config, hload, ⟨hflag, hkept⟩ | ⟨hflag, hwritten⟩⟩ :=
    hdocuments.setVaultHidden entry.isPlain hset
  · exact ⟨c, hrun.step (.applySame hload hflag), hkept⟩
  · exact ⟨_, (hrun.step (.applyLoad hload hflag)).step .write, hwritten⟩

theorem Reaches.applies_ok {applied plan res : List (VaultHiddenRevert root)}
    (hreaches : Reaches env op c₀ d (.apply (plan.map VaultHiddenRevert.planned)
      (applied.map VaultHiddenRevert.planned)))
    (h : (applyVaultHiddenPlan env op.hidden applied plan).exec d = (.ok res, d')) :
    Reaches env op c₀ d' (.saveGroups (res.map VaultHiddenRevert.planned)) := by
  induction plan generalizing d applied with
  | nil =>
      cases h
      exact hreaches.move fun _ _ => .applyDone
  | cons entry plan ih =>
      rw [applyVaultHiddenPlan, exec_attempt_bind] at h
      rcases hset : (setVaultHidden env.faults env.configCodec entry.dir op.hidden).exec d with
        ⟨error | changed, m⟩
      · rw [hset] at h
        obtain ⟨_, _, _, hthrow⟩ := exec_bind_eq_ok_iff.mp h
        cases hthrow
      · rw [hset] at h
        refine ih ?_ h
        rw [List.map_append]
        exact hreaches.apply_entry hset

theorem Reaches.applies_error {applied plan : List (VaultHiddenRevert root)}
    (hreaches : Reaches env op c₀ d (.apply (plan.map VaultHiddenRevert.planned)
      (applied.map VaultHiddenRevert.planned)))
    (h : (applyVaultHiddenPlan env op.hidden applied plan).exec d = (.error e, d')) :
    Reaches env op c₀ d' (.returned false) := by
  induction plan generalizing d applied with
  | nil => cases h
  | cons entry plan ih =>
      rw [applyVaultHiddenPlan, exec_attempt_bind] at h
      rcases hset : (setVaultHidden env.faults env.configCodec entry.dir op.hidden).exec d with
        ⟨error | changed, m⟩
      · rw [hset] at h
        have hsame : SameDisk d m := preservesOnError_setVaultHidden _ _ d _ m hset
        have hfailed := (hreaches.move fun _ _ => .applyFail).of_sameDisk hsame
        exact hfailed.reverts (revert_throw_error h).2
      · rw [hset] at h
        refine ih ?_ h
        rw [List.map_append]
        exact hreaches.apply_entry hset

/-- The registry is not a configuration. -/
theorem Reaches.saveVaultGroups {groups : List VaultGroup} {result : Result Unit}
    (hreaches : Reaches env op c₀ d pc)
    (h : (saveVaultGroups env.faults env.groupsCodec root groups).exec d = (result, d')) :
    Reaches env op c₀ d' pc := by
  obtain ⟨c, hrun, hdocuments⟩ := hreaches
  refine ⟨c, hrun, hdocuments.of_files fun dir => ?_⟩
  exact (sameAt_saveVaultGroups (vaultConfigPath_ne root dir) groups).exec_eq h

theorem Reaches.saveOrRevert {applied : List (VaultHiddenRevert root)}
    {groups : List VaultGroup} {result : Result Unit}
    (hreaches : Reaches env op c₀ d (.saveGroups (applied.map VaultHiddenRevert.planned)))
    (h : (saveOrRevert env root applied groups).exec d = (result, d')) :
    Reaches env op c₀ d' (.returned result.isOk) := by
  rw [Upriv.saveOrRevert, exec_attempt_bind] at h
  rcases hsave : (Upriv.saveVaultGroups env.faults env.groupsCodec root groups).exec d with
    ⟨error | _, m⟩
  · rw [hsave] at h
    have hfailed := (hreaches.saveVaultGroups hsave).move fun _ _ => .saveFail
    cases result with
    | error e => exact hfailed.reverts (revert_throw_error h).2
    | ok u =>
        obtain ⟨_, _, _, hthrow⟩ := exec_bind_eq_ok_iff.mp h
        cases hthrow
  · rw [hsave] at h
    cases h
    exact (hreaches.saveVaultGroups hsave).move fun _ _ => .saved

/-- From the plan to the result. -/
theorem Reaches.hideAndSave {groups : List VaultGroup} {result : Result Unit}
    (hreaches : Reaches env op c₀ d (.plan (cascadeDirs root d vaultIds) []))
    (h : (hideAndSave env root vaultIds op.hidden groups).exec d = (result, d')) :
    Reaches env op c₀ d' (.returned result.isOk) := by
  rw [Upriv.hideAndSave, setGroupedVaultsHidden, bind_assoc, exec_bind] at h
  split at h
  · rename_i plan m hplan
    have happly : Reaches env op c₀ m (.apply (plan.map VaultHiddenRevert.planned)
        (([] : List (VaultHiddenRevert root)).map VaultHiddenRevert.planned)) :=
      hreaches.plans_ok hplan
    rw [exec_bind] at h
    split at h
    · rename_i applied m' hset
      exact (happly.applies_ok hset).saveOrRevert h
    · rename_i error m' hset
      cases h
      exact happly.applies_error hset
  · rename_i error m hplan
    cases h
    exact hreaches.plans_error hplan

/-! ## Before the plan -/

/-- The checks `rest` lie ahead, and nothing has been written since `d₀`. -/
structure Checking (env : GroupsEnv) (op : GroupMutation) (d₀ d : Disk) (rest : List PathBuf) :
    Prop where
  reaches : Reaches env op (configsOn env.configCodec d₀) d (.check rest)
  same : SameDisk d₀ d

/-- What a computation does from `d`, a run of the mutation from `d₀` does as well. -/
def Simulated (env : GroupsEnv) (op : GroupMutation) (d₀ : Disk) {α : Type} (x : FsM α)
    (d : Disk) : Prop :=
  ∀ result d', x.exec d = (result, d') →
    Reaches env op (configsOn env.configCodec d₀) d' (.returned result.isOk)

variable {α β : Type} {d₀ m : Disk} {rest : List PathBuf}

theorem checking_start (env : GroupsEnv) (op : GroupMutation) (d : Disk) :
    Checking env op d d op.checked where
  reaches := ⟨_, .start _, documentsOn_configsOn _ _⟩
  same := ⟨rfl, rfl⟩

theorem Checking.of_sameDisk (h : Checking env op d₀ d rest) (hsame : SameDisk d m) :
    Checking env op d₀ m rest where
  reaches := h.reaches.of_sameDisk hsame
  same := ⟨hsame.1.trans h.same.1, hsame.2.trans h.same.2⟩

/-- What only reads may come before the plan. -/
theorem Checking.bind {x : FsM α} {f : α → FsM β} (h : Checking env op d₀ d rest)
    (hsame : Preserves SameDisk x)
    (hf : ∀ a m, x.exec d = (.ok a, m) → Checking env op d₀ m rest →
      Simulated env op d₀ (f a) m) : Simulated env op d₀ (x >>= f) d := by
  intro result d' hrun
  rw [exec_bind] at hrun
  split at hrun
  · rename_i a m hx
    exact hf a m hx (h.of_sameDisk (hsame.exec_eq hx)) result d' hrun
  · rename_i error m hx
    have hread := h.of_sameDisk (hsame.exec_eq hx)
    cases hrun
    exact hread.reaches.move fun _ _ => .checkFail

theorem Checking.ensure {p : Prop} [Decidable p] {f : Unit → FsM β}
    (h : Checking env op d₀ d rest)
    (hf : ∀ m, Checking env op d₀ m rest → Simulated env op d₀ (f ()) m) :
    Simulated env op d₀ (FallibleM.ensure p e >>= f) d :=
  h.bind (preserves_ensure _ _) fun _ m _ hm => hf m hm

theorem Checking.ofExcept {x : Except UprivError α} {f : α → FsM β}
    (h : Checking env op d₀ d rest)
    (hf : ∀ a m, Checking env op d₀ m rest → Simulated env op d₀ (f a) m) :
    Simulated env op d₀ (FallibleM.ofExcept x >>= f) d :=
  h.bind (preserves_ofExcept _) fun a m _ hm => hf a m hm

theorem Checking.assignable {f : PUnit → FsM β}
    (h : Checking env op d₀ d (vaultDirs root vaultIds))
    (hf : ∀ m, Checking env op d₀ m [] → Simulated env op d₀ (f ⟨⟩) m) :
    Simulated env op d₀ (vaultIds.forM (requireAssignableVault env root) >>= f) d :=
  h.bind (preserves_forM fun _ => preserves_requireAssignableVault env root _)
    fun _ m hx hm => hf m ⟨h.reaches.checks hx, hm.same⟩

/-- From the last check to the result. -/
theorem Checking.hideAndSave {groups : List VaultGroup} (h : Checking env op d₀ d [])
    (hmembers : op.members = cascadeDirs root d₀ vaultIds) (f : β) :
    Simulated env op d₀
      (hideAndSave env root vaultIds op.hidden groups >>= fun _ => pure f) d := by
  have hplan : Reaches env op (configsOn env.configCodec d₀) d
      (.plan (cascadeDirs root d vaultIds) []) := by
    rw [cascadeDirs_congr h.same.2, ← hmembers]
    exact h.reaches.move fun _ _ => .checkDone
  intro result d' hrun
  rw [exec_bind] at hrun
  split at hrun
  · rename_i u m hx
    cases hrun
    exact hplan.hideAndSave hx
  · rename_i error m hx
    cases hrun
    exact hplan.hideAndSave hx

end

/-! ## The two mutators -/

section
variable {env : GroupsEnv} {root : VaultRoot} {d d' : Disk}

/-- A create is a mutation that checks its vaults and sets their flag. -/
theorem createVaultGroupWithSort_run {id displayName : String} {groupedVaults : List String}
    {sort direction : Option String} {hidden : Bool} {result : Result VaultGroupCreate}
    (h : (createVaultGroupWithSort env root id displayName groupedVaults sort direction
      hidden).exec d = (result, d')) :
    Reaches env (hidingMutation root d (cleanIds_trimVaultIds groupedVaults)
        (cleanIds_trimVaultIds groupedVaults) hidden)
      (configsOn env.configCodec d) d' (.returned result.isOk) := by
  rw [createVaultGroupWithSort_eq] at h
  refine (checking_start env _ d).bind preserves_requireUprivDir (fun _ m _ hm => ?_) _ _ h
  refine hm.ensure fun m hm => hm.ensure fun m hm => ?_
  refine hm.bind preserves_loadVaultGroupsForMutate fun groups m _ hm => ?_
  refine hm.ensure fun m hm => hm.assignable fun m hm => ?_
  refine hm.ofExcept fun sort m hm => hm.ofExcept fun direction m hm => ?_
  exact hm.hideAndSave rfl _

/-- The vaults that an update concerns and the flag they are to get, from the group that
is found. -/
def UpdateVaultGroupParams.cascade (params : UpdateVaultGroupParams) :
    Option (ℕ × VaultGroup) → List String × Bool
  | none => ([], false)
  | some (_, group) =>
    (cascadeIds group.hidden (params.hidden.getD group.hidden) group.groupedVaults
      ((params.groupedVaults.map trimVaultIds).getD group.groupedVaults),
      params.hidden.getD group.hidden)

theorem cleanIds_taken (params : UpdateVaultGroupParams) : CleanIds params.taken := by
  unfold UpdateVaultGroupParams.taken
  cases params.groupedVaults with
  | none => exact ⟨by simp, List.nodup_nil⟩
  | some vaultIds => exact cleanIds_trimVaultIds vaultIds

theorem cleanIds_cascade (params : UpdateVaultGroupParams) (found : Option (ℕ × VaultGroup))
    (hsettled : ∀ idx group, found = some (idx, group) → group.Settled) :
    CleanIds (params.cascade found).1 := by
  rcases found with _ | ⟨idx, group⟩
  · exact ⟨by simp [UpdateVaultGroupParams.cascade],
      by simp [UpdateVaultGroupParams.cascade]⟩
  · have hprevious : CleanIds group.groupedVaults := (hsettled idx group rfl).vaults
    have hcurrent : CleanIds
        ((params.groupedVaults.map trimVaultIds).getD group.groupedVaults) := by
      cases params.groupedVaults with
      | none => exact hprevious
      | some vaultIds => exact cleanIds_trimVaultIds vaultIds
    simp only [UpdateVaultGroupParams.cascade, cascadeIds]
    split
    · exact hcurrent
    · exact hprevious.unique hcurrent
    · exact hprevious.unique hcurrent
    · exact hcurrent.filter _

theorem settled_of_findGroup {groups : List VaultGroup} {groupId : String}
    (hsettled : ∀ group ∈ groups, group.Settled) (idx : ℕ) (group : VaultGroup)
    (h : findGroup groups groupId = some (idx, group)) : group.Settled :=
  hsettled group (List.mem_of_getElem? (findGroup_eq_some h).1)

/-- The group that an update finds. -/
def updatedGroup (env : GroupsEnv) (root : VaultRoot) (d : Disk) (groupId : String) :
    Option (ℕ × VaultGroup) :=
  findGroup (healedGroups env.groupsCodec root d) groupId

/-- An update is a mutation that checks the vaults it assigns and sets the flag of those
that enter or leave, or of all when the group changes its flag. -/
theorem updateVaultGroup_run {groupId : String} {params : UpdateVaultGroupParams}
    {result : Result VaultGroupUpdate}
    (h : (updateVaultGroup env root groupId params).exec d = (result, d')) :
    Reaches env (hidingMutation root d (cleanIds_taken params)
        (cleanIds_cascade params (updatedGroup env root d groupId)
          (settled_of_findGroup settled_healedGroups))
        (params.cascade (updatedGroup env root d groupId)).2)
      (configsOn env.configCodec d) d' (.returned result.isOk) := by
  generalize hop : hidingMutation root d (cleanIds_taken params) _ _ = op
  have hchecked : op.checked = vaultDirs root params.taken := by rw [← hop]; rfl
  have hmembers : op.members =
      cascadeDirs root d (params.cascade (updatedGroup env root d groupId)).1 := by
    rw [← hop]
    rfl
  have hhidden : op.hidden = (params.cascade (updatedGroup env root d groupId)).2 := by
    rw [← hop]
    rfl
  have hstart := checking_start env op d
  rw [hchecked] at hstart
  rw [updateVaultGroup_eq] at h
  refine hstart.bind preserves_requireUprivDir (fun _ m _ hm => ?_) _ _ h
  refine hm.bind preserves_loadVaultGroupsForMutate fun groups m' hload hm' => ?_
  have hgroups : groups = healedGroups env.groupsCodec root d := by
    rw [(loadVaultGroupsForMutate_ok hload).1]
    exact healedGroups_congr (hm.same.sameAt _)
  rcases hfound : findGroup groups groupId with _ | ⟨idx, group⟩
  · intro result d' hrun
    cases hrun
    exact hm'.reaches.move fun _ _ => .checkFail
  · rw [updatedGroup, ← hgroups, hfound] at hmembers hhidden
    refine hm'.ofExcept fun headers m hm => hm.assignable fun m hm => ?_
    have hflag : (params.updated group headers).hidden = op.hidden := hhidden.symm
    dsimp only
    rw [hflag]
    refine hm.hideAndSave ?_ _
    rw [hmembers, ← hflag]
    rfl

end

/-! ## The save -/

section
variable {faults : Faults} {codec : TomlCodec VaultConfig} {canonicalize : Canonicalize}
  {busy : Bool} {dir : PathBuf} {after : VaultConfig} {d d' : Disk} {c : Configs}

/-- A save that fails writes nothing. -/
theorem preservesOnError_saveVaultConfigChecked :
    PreservesOnError SameDisk
      (saveVaultConfigChecked faults codec canonicalize busy dir after) := by
  refine preservesOnError_bind (preserves_loadVaultConfigRaw faults codec dir) fun before => ?_
  refine preservesOnError_bind (preserves_ensure _ _) fun _ => ?_
  refine preservesOnError_bind (preserves_ofExcept _) fun _ => ?_
  refine preservesOnError_bind (preserves_ofExcept _) fun body => ?_
  exact sameDisk_of_writeBytesAtomic_error faults _

theorem sameAt_saveVaultConfigChecked {path : PathBuf} (hne : path ≠ vaultConfigPath dir) :
    Preserves (SameAt path)
      (saveVaultConfigChecked faults codec canonicalize busy dir after) := by
  refine preserves_bind
    (preserves_sameAt (preserves_loadVaultConfigRaw faults codec dir) path) fun before => ?_
  refine preserves_bind (preserves_ensure _ _) fun _ => ?_
  refine preserves_bind (preserves_ofExcept _) fun _ => ?_
  refine preserves_bind (preserves_ofExcept _) fun body => ?_
  exact preserves_writeBytesAtomicExistingParent faults hne _

/-- A call of `save_vault_config_checked` goes through the steps of a save. -/
theorem saveVaultConfigChecked_run (hdir : IsPlain dir) (hdocuments : DocumentsOn codec d c)
    {result : Result Unit}
    (h : (saveVaultConfigChecked faults codec canonicalize busy dir after).exec d =
      (result, d')) :
    ∃ c', ConfigSaveRun dir after c c' (.returned result.isOk) ∧ DocumentsOn codec d' c' := by
  cases result with
  | error e =>
      have hsame : SameDisk d d' := preservesOnError_saveVaultConfigChecked d e d' h
      exact ⟨c, configSaveRun_refused c, hdocuments.of_sameDisk hsame⟩
  | ok u =>
      obtain ⟨before, m, hload, hrest⟩ := exec_bind_eq_ok_iff.mp h
      obtain ⟨hid, -⟩ := exec_ensure_bind_eq_ok_iff.mp hrest
      have hsavable : Savable dir after c :=
        ⟨before, (hdocuments.loadRaw_eq hdir).trans (loadVaultConfigRaw_ok hload), hid⟩
      refine ⟨_, configSaveRun_saved hsavable, hdocuments.update hdir ?_ fun path hne => ?_⟩
      · exact (saveVaultConfigChecked_ok h).2.2.2
      · exact (sameAt_saveVaultConfigChecked hne).exec_eq h

end

end Upriv
