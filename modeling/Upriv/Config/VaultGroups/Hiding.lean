import Upriv.Config.VaultGroups.Frame

/-!
# What hiding and showing the vaults of a group does on disk

The plan reads every vault of the cascade that exists, and the vaults in it are
set one after the other.  Taking them back sets each of them to the flag it had.
-/

namespace Upriv

open FallibleM

/-! ## Vault directories -/

theorem isName_of_slugIdIsValid {id : String} (h : slugIdIsValid id = true) : IsName id := by
  constructor
  · intro hempty
    rw [slugIdIsValid, String.isEmpty_iff.mpr (String.toList_inj.mp hempty)] at h
    cases h
  · intro hslash
    exact absurd (all_isSlugChar h hslash) (by decide)

theorem isPlain_of_vaultDir {root : VaultRoot} {vaultId : String} {dir : PathBuf}
    (h : root.vaultDir vaultId = .ok dir) : IsPlain dir := by
  obtain ⟨id, hid, hdir⟩ := except_bind_eq_ok.mp h
  cases hdir
  exact isPlain_joinPath _ (isName_of_slugIdIsValid (trimmed_of_vaultIdComponent hid).2)

theorem VaultHiddenRevert.isPlain {root : VaultRoot} (entry : VaultHiddenRevert root) :
    IsPlain entry.dir := by
  obtain ⟨vaultId, hdir⟩ := entry.isVaultDir
  exact isPlain_of_vaultDir hdir

theorem isPlain_of_mem_planned {root : VaultRoot} (planned : List (VaultHiddenRevert root)) :
    ∀ dir ∈ planned.map (·.dir), IsPlain dir :=
  List.forall_mem_map.mpr fun entry _ => entry.isPlain

/-- The directories that a cascade over the vaults concerns: those that exist. -/
def cascadeDirs (root : VaultRoot) (d : Disk) (vaultIds : List String) : List PathBuf :=
  vaultIds.filterMap fun vaultId => (root.vaultDir vaultId).toOption.filter d.isDir

theorem mem_cascadeDirs {root : VaultRoot} {d : Disk} {vaultIds : List String} {dir : PathBuf} :
    dir ∈ cascadeDirs root d vaultIds ↔
      ∃ vaultId ∈ vaultIds, root.vaultDir vaultId = .ok dir ∧ d.isDir dir = true := by
  simp only [cascadeDirs, List.mem_filterMap, Option.filter_eq_some_iff]
  refine exists_congr fun vaultId => and_congr_right fun _ => and_congr_left fun _ => ?_
  cases root.vaultDir vaultId <;> simp [Except.toOption]

theorem cascadeDirs_congr {root : VaultRoot} {d m : Disk} (hdirs : m.dirs = d.dirs)
    (vaultIds : List String) : cascadeDirs root m vaultIds = cascadeDirs root d vaultIds := by
  have hisDir : m.isDir = d.isDir := by
    funext path
    rw [Disk.isDir, Disk.isDir, hdirs]
  rw [cascadeDirs, cascadeDirs, hisDir]

theorem isPlain_of_mem_cascadeDirs {root : VaultRoot} {d : Disk} {vaultIds : List String}
    {dir : PathBuf} (h : dir ∈ cascadeDirs root d vaultIds) : IsPlain dir := by
  obtain ⟨vaultId, -, hdir, -⟩ := mem_cascadeDirs.mp h
  exact isPlain_of_vaultDir hdir

/-! ## Several vaults -/

/-- The flag of each of these vaults has been set, and no other file is touched. -/
structure Cascaded (codec : TomlCodec VaultConfig) (dirs : List PathBuf) (hidden : Bool)
    (d d' : Disk) : Prop where
  loaded : ∀ dir ∈ dirs, ∃ config, loadedOn codec d dir = some config ∧
    loadedOn codec d' dir = some (config.withHidden hidden)
  others : ∀ path, (∀ dir ∈ dirs, path ≠ vaultConfigPath dir) → d'.files path = d.files path
  dirs : d'.dirs = d.dirs

section
variable {codec : TomlCodec VaultConfig} {dirs : List PathBuf} {dir : PathBuf} {hidden : Bool}
  {d m d' : Disk}

theorem Cascaded.of_sameDisk (h : SameDisk d d') : Cascaded codec [] hidden d d' where
  loaded := by simp
  others path _ := congrFun h.1 path
  dirs := h.2

theorem Cascaded.loadedOn_of_notMem (h : Cascaded codec dirs hidden d d')
    (hdirs : ∀ dir ∈ dirs, IsPlain dir) {other : PathBuf} (hother : IsPlain other)
    (hnot : other ∉ dirs) : loadedOn codec d' other = loadedOn codec d other := by
  refine loadedOn_congr (h.others _ fun dir hdir heq => hnot ?_)
  rwa [vaultConfigPath_inj hother (hdirs dir hdir) heq]

/-- A vault that loaded loads afterwards, up to the flag that was set. -/
theorem Cascaded.loadedOn_eq_some (h : Cascaded codec dirs hidden d d')
    (hdirs : ∀ dir ∈ dirs, IsPlain dir) {other : PathBuf} (hother : IsPlain other)
    {config : VaultConfig} (hload : loadedOn codec d other = some config) :
    ∃ config', loadedOn codec d' other = some config' ∧
      config'.withHidden hidden = config.withHidden hidden := by
  by_cases hmem : other ∈ dirs
  · obtain ⟨before, hbefore, hafter⟩ := h.loaded other hmem
    rw [hload, Option.some.injEq] at hbefore
    exact ⟨_, hafter, by rw [hbefore, VaultConfig.withHidden_withHidden]⟩
  · exact ⟨config, by rw [h.loadedOn_of_notMem hdirs hother hmem, hload], rfl⟩

theorem SetsHidden.cascaded (h : SetsHidden codec dir hidden d d') :
    Cascaded codec [dir] hidden d d' where
  loaded := List.forall_mem_singleton.mpr h.loaded
  others path hpath := h.others path (hpath dir (List.mem_singleton_self dir))
  dirs := h.dirs

theorem Cascaded.trans {dirs' : List PathBuf} (h : Cascaded codec dirs hidden d m)
    (h' : Cascaded codec dirs' hidden m d') (hdirs : ∀ dir ∈ dirs, IsPlain dir)
    (hdirs' : ∀ dir ∈ dirs', IsPlain dir) : Cascaded codec (dirs ++ dirs') hidden d d' where
  loaded other hother := by
    by_cases hmem : other ∈ dirs
    · obtain ⟨config, hbefore, hmiddle⟩ := h.loaded other hmem
      refine ⟨config, hbefore, ?_⟩
      by_cases hmem' : other ∈ dirs'
      · obtain ⟨config', hmiddle', hafter⟩ := h'.loaded other hmem'
        rw [hmiddle, Option.some.injEq] at hmiddle'
        rw [hafter, ← hmiddle', VaultConfig.withHidden_withHidden]
      · rw [h'.loadedOn_of_notMem hdirs' (hdirs other hmem) hmem', hmiddle]
    · have hmem' := (List.mem_append.mp hother).resolve_left hmem
      obtain ⟨config, hmiddle, hafter⟩ := h'.loaded other hmem'
      refine ⟨config, ?_, hafter⟩
      rw [← h.loadedOn_of_notMem hdirs (hdirs' other hmem') hmem, hmiddle]
  others path hpath := by
    obtain ⟨hnot, hnot'⟩ := List.forall_mem_append.mp hpath
    rw [h'.others path hnot', h.others path hnot]
  dirs := h'.dirs.trans h.dirs

end

/-! ## Planning and applying -/

section
variable {env : GroupsEnv} {root : VaultRoot} {vaultIds : List String} {hidden : Bool}
  {d m d' : Disk} {e : UprivError}

/-- A plan holds the vaults of the cascade whose flag has to change. -/
structure Planned (env : GroupsEnv) (root : VaultRoot) (d : Disk) (hidden : Bool)
    (dirs : List PathBuf) (planned : List (VaultHiddenRevert root)) : Prop where
  loads : ∀ dir ∈ dirs, ∃ config, loadedOn env.configCodec d dir = some config ∧
    (config.vault.hidden = hidden ∨ dir ∈ planned.map (·.dir))
  entries : ∀ entry ∈ planned, entry.dir ∈ dirs ∧
    ∃ config, loadedOn env.configCodec d entry.dir = some config ∧
      config.vault.hidden = entry.previous ∧ entry.previous ≠ hidden

theorem Planned.of_sameDisk {dirs : List PathBuf} {planned : List (VaultHiddenRevert root)}
    (hsame : SameDisk d m) (h : Planned env root m hidden dirs planned) :
    Planned env root d hidden dirs planned where
  loads dir hdir := by
    obtain ⟨config, hload, hcases⟩ := h.loads dir hdir
    exact ⟨config, hsame.loadedOn dir ▸ hload, hcases⟩
  entries entry hentry := by
    obtain ⟨hmem, config, hload, hprevious⟩ := h.entries entry hentry
    exact ⟨hmem, config, hsame.loadedOn entry.dir ▸ hload, hprevious⟩

theorem Planned.cons_kept {dir : PathBuf} {dirs : List PathBuf}
    {planned : List (VaultHiddenRevert root)} {config : VaultConfig}
    (h : Planned env root d hidden dirs planned)
    (hload : loadedOn env.configCodec d dir = some config) (hflag : config.vault.hidden = hidden) :
    Planned env root d hidden (dir :: dirs) planned where
  loads := List.forall_mem_cons.mpr ⟨⟨config, hload, .inl hflag⟩, h.loads⟩
  entries entry hentry := by
    obtain ⟨hmem, hconfig⟩ := h.entries entry hentry
    exact ⟨List.mem_cons_of_mem _ hmem, hconfig⟩

theorem Planned.cons_changed {dirs : List PathBuf} {planned : List (VaultHiddenRevert root)}
    {config : VaultConfig} (h : Planned env root d hidden dirs planned)
    (entry : VaultHiddenRevert root)
    (hload : loadedOn env.configCodec d entry.dir = some config)
    (hprevious : config.vault.hidden = entry.previous) (hflag : config.vault.hidden ≠ hidden) :
    Planned env root d hidden (entry.dir :: dirs) (entry :: planned) where
  loads := by
    refine List.forall_mem_cons.mpr ⟨⟨config, hload, .inr List.mem_cons_self⟩, ?_⟩
    intro dir hdir
    obtain ⟨other, hother, hcases⟩ := h.loads dir hdir
    exact ⟨other, hother, hcases.imp_right (List.mem_cons_of_mem _)⟩
  entries := by
    refine List.forall_mem_cons.mpr
      ⟨⟨List.mem_cons_self, config, hload, hprevious, hprevious ▸ hflag⟩, ?_⟩
    intro other hother
    obtain ⟨hmem, hconfig⟩ := h.entries other hother
    exact ⟨List.mem_cons_of_mem _ hmem, hconfig⟩

theorem cascadeDirs_cons_error {vaultId : String} {error : UprivError}
    (h : root.vaultDir vaultId = .error error) :
    cascadeDirs root d (vaultId :: vaultIds) = cascadeDirs root d vaultIds := by
  simp [cascadeDirs, h, Except.toOption]

theorem cascadeDirs_cons_missing {vaultId : String} {dir : PathBuf}
    (h : root.vaultDir vaultId = .ok dir) (hdir : d.isDir dir = false) :
    cascadeDirs root d (vaultId :: vaultIds) = cascadeDirs root d vaultIds := by
  simp [cascadeDirs, h, hdir, Except.toOption, Option.filter]

theorem cascadeDirs_cons_dir {vaultId : String} {dir : PathBuf}
    (h : root.vaultDir vaultId = .ok dir) (hdir : d.isDir dir = true) :
    cascadeDirs root d (vaultId :: vaultIds) = dir :: cascadeDirs root d vaultIds := by
  simp [cascadeDirs, h, hdir, Except.toOption, Option.filter]

theorem planSetGroupedVaultsHidden_ok {planned : List (VaultHiddenRevert root)}
    (h : (planSetGroupedVaultsHidden env root hidden vaultIds).exec d = (.ok planned, d')) :
    Planned env root d hidden (cascadeDirs root d vaultIds) planned := by
  induction vaultIds generalizing d d' planned with
  | nil =>
      cases h
      exact ⟨by simp [cascadeDirs], by simp⟩
  | cons vaultId vaultIds ih =>
      unfold planSetGroupedVaultsHidden at h
      split at h
      · rename_i error herror
        rw [cascadeDirs_cons_error herror]
        exact ih h
      · rename_i dir hdir
        rw [exec_bind, exec_get] at h
        dsimp only at h
        split at h
        · rename_i hmissing
          rw [cascadeDirs_cons_missing hdir (by simpa using hmissing)]
          exact ih h
        · rename_i hexists
          obtain ⟨config, m, hload, h⟩ := exec_bind_eq_ok_iff.mp h
          obtain ⟨rest, m', hrest, h⟩ := exec_bind_eq_ok_iff.mp h
          have hsame : SameDisk d m := (preserves_loadVaultConfigRaw _ _ _).exec_eq hload
          have hloaded := loadVaultConfigRaw_ok hload
          have hplanned : Planned env root d hidden (cascadeDirs root d vaultIds) rest := by
            have hplanned := (ih hrest).of_sameDisk hsame
            rwa [cascadeDirs_congr hsame.2] at hplanned
          rw [cascadeDirs_cons_dir hdir (by simpa using hexists)]
          split at h
          · rename_i hflag
            cases h
            exact hplanned.cons_kept hloaded hflag
          · rename_i hflag
            cases h
            exact hplanned.cons_changed ⟨dir, config.vault.hidden, vaultId, hdir⟩ hloaded rfl hflag

theorem callsGrow_planSetGroupedVaultsHidden (vaultIds : List String) :
    Preserves CallsGrow (planSetGroupedVaultsHidden env root hidden vaultIds) := by
  induction vaultIds with
  | nil => exact preserves_pure _
  | cons vaultId vaultIds ih =>
      unfold planSetGroupedVaultsHidden
      split
      · exact ih
      · refine preserves_bind preserves_get fun d => ?_
        split
        · exact ih
        · refine preserves_bind (callsGrow_loadVaultConfigRaw _) fun config => ?_
          refine preserves_bind ih fun planned => ?_
          split <;> exact preserves_pure _

/-- Planning fails because a read is refused, or at a vault that does not load. -/
theorem planSetGroupedVaultsHidden_error
    (h : (planSetGroupedVaultsHidden env root hidden vaultIds).exec d = (.error e, d')) :
    RefusedWith env.faults d d' e ∨
      ∃ dir ∈ cascadeDirs root d vaultIds, loadedOn env.configCodec d dir = none := by
  induction vaultIds generalizing d with
  | nil => cases h
  | cons vaultId vaultIds ih =>
      unfold planSetGroupedVaultsHidden at h
      split at h
      · rename_i error herror
        rw [cascadeDirs_cons_error herror]
        exact ih h
      · rename_i dir hdir
        rw [exec_bind, exec_get] at h
        dsimp only at h
        split at h
        · rename_i hmissing
          rw [cascadeDirs_cons_missing hdir (by simpa using hmissing)]
          exact ih h
        · rename_i hexists
          rw [cascadeDirs_cons_dir hdir (by simpa using hexists)]
          rw [exec_bind] at h
          split at h
          · rename_i config m hload
            have hsame : SameDisk d m := (preserves_loadVaultConfigRaw _ _ _).exec_eq hload
            rw [exec_bind] at h
            split at h
            · split at h <;> cases h
            · rename_i error m' hrest
              cases h
              rcases ih hrest with hrefused | ⟨other, hother, hload'⟩
              · exact .inl
                  (hrefused.of_callsGrow ((callsGrow_loadVaultConfigRaw dir).exec_eq hload))
              · rw [cascadeDirs_congr hsame.2] at hother
                rw [hsame.loadedOn] at hload'
                exact .inr ⟨other, List.mem_cons_of_mem _ hother, hload'⟩
          · rename_i error m hload
            cases h
            exact (loadVaultConfigRaw_error hload).imp_right fun hnone =>
              ⟨dir, List.mem_cons_self, hnone⟩

/-- Setting the vaults of a plan sets those of the cascade. -/
theorem Planned.cascaded {planned : List (VaultHiddenRevert root)}
    (h : Planned env root d hidden (cascadeDirs root d vaultIds) planned)
    (hset : Cascaded env.configCodec (planned.map (·.dir)) hidden d d') :
    Cascaded env.configCodec (cascadeDirs root d vaultIds) hidden d d' where
  loaded dir hdir := by
    obtain ⟨config, hload, hflag | hmem⟩ := h.loads dir hdir
    · refine ⟨config, hload, ?_⟩
      by_cases hmem : dir ∈ planned.map (·.dir)
      · obtain ⟨config', hload', hafter⟩ := hset.loaded dir hmem
        rw [hload, Option.some.injEq] at hload'
        rw [hafter, hload']
      · rw [hset.loadedOn_of_notMem (isPlain_of_mem_planned planned)
          (isPlain_of_mem_cascadeDirs hdir) hmem, hload, ← hflag, config.withHidden_self]
    · exact hset.loaded dir hmem
  others path hpath := by
    refine hset.others path fun dir hmem => ?_
    obtain ⟨entry, hentry, rfl⟩ := List.mem_map.mp hmem
    exact hpath _ (h.entries entry hentry).1
  dirs := hset.dirs

theorem applyVaultHiddenPlan_ok {applied plan res : List (VaultHiddenRevert root)}
    (h : (applyVaultHiddenPlan env hidden applied plan).exec d = (.ok res, d')) :
    res = applied ++ plan ∧ Cascaded env.configCodec (plan.map (·.dir)) hidden d d' ∧
      CallsGrow d d' := by
  induction plan generalizing d applied with
  | nil =>
      cases h
      exact ⟨(List.append_nil _).symm, .of_sameDisk ⟨rfl, rfl⟩, Nat.le_refl _⟩
  | cons entry plan ih =>
      rw [applyVaultHiddenPlan, exec_attempt_bind] at h
      rcases hset : (setVaultHidden env.faults env.configCodec entry.dir hidden).exec d with
        ⟨error | changed, m⟩
      · rw [hset] at h
        obtain ⟨_, _, _, hthrow⟩ := exec_bind_eq_ok_iff.mp h
        cases hthrow
      · rw [hset] at h
        obtain ⟨hres, hrest, hcalls⟩ := ih h
        refine ⟨by rw [hres, List.append_assoc]; rfl, ?_,
          IsTrans.trans _ _ _ ((callsGrow_setVaultHidden _ _).exec_eq hset) hcalls⟩
        exact (setVaultHidden_ok hset).1.cascaded.trans hrest
          (List.forall_mem_singleton.mpr entry.isPlain) (isPlain_of_mem_planned plan)

/-- Taking back never fails. -/
theorem exec_revertVaultHidden (env : GroupsEnv) (applied : List (VaultHiddenRevert root))
    (d : Disk) : ∃ d', (revertVaultHidden env applied).exec d = (.ok (), d') :=
  exists_exec_eq (forM_succeeds (fun _ _ _ => rfl) d)

/-- The error is the one that it is done for. -/
theorem revert_throw_error {applied : List (VaultHiddenRevert root)} {error : UprivError} {α : Type}
    (h : (do revertVaultHidden env applied; throw error : FsM α).exec d = (.error e, d')) :
    e = error ∧ (revertVaultHidden env applied).exec d = (.ok (), d') := by
  obtain ⟨m, hrevert⟩ := exec_revertVaultHidden env applied d
  rw [exec_bind_of_ok hrevert] at h
  cases h
  exact ⟨rfl, hrevert⟩

/-- A plan that fails has set a part of it, and takes that back. -/
theorem applyVaultHiddenPlan_error {applied plan : List (VaultHiddenRevert root)}
    (h : (applyVaultHiddenPlan env hidden applied plan).exec d = (.error e, d')) :
    ∃ done entry rest m m', plan = done ++ entry :: rest ∧
      Cascaded env.configCodec (done.map (·.dir)) hidden d m ∧ CallsGrow d m ∧
      (setVaultHidden env.faults env.configCodec entry.dir hidden).exec m = (.error e, m') ∧
      (revertVaultHidden env (applied ++ done)).exec m' = (.ok (), d') := by
  induction plan generalizing d applied with
  | nil => cases h
  | cons entry plan ih =>
      rw [applyVaultHiddenPlan, exec_attempt_bind] at h
      rcases hset : (setVaultHidden env.faults env.configCodec entry.dir hidden).exec d with
        ⟨error | changed, m⟩
      · rw [hset] at h
        obtain ⟨rfl, hrevert⟩ := revert_throw_error h
        exact ⟨[], entry, plan, d, m, rfl, .of_sameDisk ⟨rfl, rfl⟩, Nat.le_refl _, hset,
          by rwa [List.append_nil]⟩
      · rw [hset] at h
        obtain ⟨done, entry', rest, m₁, m₂, rfl, hdone, hcalls, hfail, hrevert⟩ := ih h
        refine ⟨entry :: done, entry', rest, m₁, m₂, rfl, ?_,
          IsTrans.trans _ _ _ ((callsGrow_setVaultHidden _ _).exec_eq hset) hcalls, hfail, ?_⟩
        · exact (setVaultHidden_ok hset).1.cascaded.trans hdone
            (List.forall_mem_singleton.mpr entry.isPlain) (isPlain_of_mem_planned done)
        · rwa [List.append_assoc] at hrevert

/-- A cascade that succeeds has set the vaults of a plan, and only those. -/
theorem setGroupedVaultsHidden_ok {applied : List (VaultHiddenRevert root)}
    (h : (setGroupedVaultsHidden env root vaultIds hidden).exec d = (.ok applied, d')) :
    Planned env root d hidden (cascadeDirs root d vaultIds) applied ∧
      Cascaded env.configCodec (applied.map (·.dir)) hidden d d' := by
  obtain ⟨plan, m, hplan, happly⟩ := exec_bind_eq_ok_iff.mp h
  have hsame : SameDisk d m :=
    (preserves_planSetGroupedVaultsHidden env root hidden vaultIds).exec_eq hplan
  obtain ⟨rfl, hset, -⟩ := applyVaultHiddenPlan_ok happly
  refine ⟨planSetGroupedVaultsHidden_ok hplan, ?_⟩
  exact (Cascaded.of_sameDisk hsame).trans hset (by simp) (isPlain_of_mem_planned applied)

theorem errors_planSetGroupedVaultsHidden (vaultIds : List String) :
    Errors IsConfigError (planSetGroupedVaultsHidden env root hidden vaultIds) := by
  induction vaultIds with
  | nil => exact errors_pure _
  | cons vaultId vaultIds ih =>
      unfold planSetGroupedVaultsHidden
      split
      · exact ih
      · refine errors_bind errors_get fun d => ?_
        split
        · exact ih
        · refine errors_bind (errors_loadVaultConfigRaw _) fun config => ?_
          refine errors_bind ih fun planned => ?_
          split <;> exact errors_pure _

theorem errors_applyVaultHiddenPlan (applied plan : List (VaultHiddenRevert root)) :
    Errors IsConfigError (applyVaultHiddenPlan env hidden applied plan) := by
  intro d e d' h
  obtain ⟨_, entry, _, m, m', -, -, -, hfail, -⟩ := applyVaultHiddenPlan_error h
  exact errors_setVaultHidden entry.dir hidden m e m' hfail

theorem errors_setGroupedVaultsHidden (vaultIds : List String) :
    Errors IsConfigError (setGroupedVaultsHidden env root vaultIds hidden) :=
  errors_bind (errors_planSetGroupedVaultsHidden vaultIds) fun plan =>
    errors_applyVaultHiddenPlan [] plan

end

end Upriv
