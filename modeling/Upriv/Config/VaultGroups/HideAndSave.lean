import Upriv.Config.VaultGroups.Hiding

/-!
# Creating and updating a group: hide or show vaults, then save

A create and an update end in the same way: some vaults get one flag, and the
groups are saved.  An update never hides some vaults and shows others.
-/

namespace Upriv

open FallibleM

/-- The vaults whose flag an update sets, all of them to the flag of the group. -/
def cascadeIds (wasHidden destHidden : Bool) (previous current : List String) : List String :=
  match destHidden, wasHidden with
  | true, true => current
  | true, false => uniqueVaultIds previous current
  | false, true => uniqueVaultIds previous current
  | false, false => current.filter (· ∉ previous)

theorem hideAndUnhideIds_eq (wasHidden destHidden : Bool) (previous current : List String) :
    hideAndUnhideIds wasHidden destHidden previous current =
      if destHidden then (cascadeIds wasHidden destHidden previous current, [])
      else ([], cascadeIds wasHidden destHidden previous current) := by
  cases wasHidden <;> cases destHidden <;> rfl

section
variable (env : GroupsEnv) (root : VaultRoot)

/-- Set the flags, then save or take them back. -/
def hideAndSave (vaultIds : List String) (hidden : Bool) (groups : List VaultGroup) :
    FsM Unit := do
  let applied ← setGroupedVaultsHidden env root vaultIds hidden
  saveOrRevert env root applied groups

theorem hideVaults_eq (hideIds : List String) :
    hideVaults env root hideIds = setGroupedVaultsHidden env root hideIds true := by
  cases hideIds with
  | nil => rfl
  | cons vaultId vaultIds => rfl

/-- With nothing hidden before, there is nothing to take back. -/
theorem unhideVaults_nil (unhideIds : List String) :
    unhideVaults env root [] unhideIds = setGroupedVaultsHidden env root unhideIds false := by
  cases unhideIds with
  | nil => rfl
  | cons vaultId vaultIds =>
      funext d
      change exec (unhideVaults env root [] (vaultId :: vaultIds)) d =
        exec (setGroupedVaultsHidden env root (vaultId :: vaultIds) false) d
      rw [unhideVaults, List.isEmpty_cons, if_neg (by simp), exec_attempt_bind]
      rcases exec (setGroupedVaultsHidden env root (vaultId :: vaultIds) false) d with
        ⟨error | more, m⟩ <;> rfl

theorem hide_unhide_eq (wasHidden destHidden : Bool) (previous current : List String) :
    (do
      let applied ← hideVaults env root
        (hideAndUnhideIds wasHidden destHidden previous current).1
      unhideVaults env root applied
        (hideAndUnhideIds wasHidden destHidden previous current).2) =
      setGroupedVaultsHidden env root (cascadeIds wasHidden destHidden previous current)
        destHidden := by
  rw [hideAndUnhideIds_eq]
  cases destHidden with
  | true =>
      simp only [if_true, hideVaults_eq]
      exact bind_pure _
  | false =>
      simp only [Bool.false_eq_true, if_false]
      exact unhideVaults_nil env root _

/-- The vaults that an update assigns. -/
def UpdateVaultGroupParams.taken (params : UpdateVaultGroupParams) : List String :=
  (params.groupedVaults.map trimVaultIds).getD []

/-- The group that an update saves, from its checked headers. -/
def UpdateVaultGroupParams.updated (params : UpdateVaultGroupParams)
    (group headers : VaultGroup) : VaultGroup :=
  { headers with
    groupedVaults := (params.groupedVaults.map trimVaultIds).getD group.groupedVaults
    hidden := params.hidden.getD group.hidden }

/-- All groups that an update saves. -/
def UpdateVaultGroupParams.saved (params : UpdateVaultGroupParams) (groups : List VaultGroup)
    (idx : ℕ) (group headers : VaultGroup) : List VaultGroup :=
  (groups.map (VaultGroup.removeVaults params.taken)).set idx (params.updated group headers)

/-- An update from the point where the group is found. -/
def updateFound (params : UpdateVaultGroupParams) (groups : List VaultGroup) (idx : ℕ)
    (group : VaultGroup) : FsM VaultGroupUpdate := do
  let headers ← FallibleM.ofExcept (updateHeaders root params group)
  params.taken.forM (requireAssignableVault env root)
  let updated := params.updated group headers
  hideAndSave env root
    (cascadeIds group.hidden updated.hidden group.groupedVaults updated.groupedVaults)
    updated.hidden (params.saved groups idx group headers)
  return {
    group := updated
    groupedVaultsChanged := decide (group.groupedVaults ≠ updated.groupedVaults) ||
      (groups.eraseIdx idx).any (VaultGroup.losesVaults params.taken)
    hiddenBecameTrue := updated.hidden && !group.hidden }

theorem updateVaultGroup_eq (groupId : String) (params : UpdateVaultGroupParams) :
    updateVaultGroup env root groupId params = (do
      requireUprivDir root
      let groups ← loadVaultGroupsForMutate env.faults env.groupsCodec root
      match findGroup groups groupId with
      | none => throw (.vaultGroupNotFound (trim groupId))
      | some (idx, group) => updateFound env root params groups idx group) := by
  unfold updateVaultGroup
  refine bind_congr fun _ => bind_congr fun groups => ?_
  rcases findGroup groups groupId with _ | ⟨idx, group⟩
  · rfl
  · refine bind_congr fun headers => bind_congr fun _ => ?_
    dsimp only
    rw [hideAndSave, ← hide_unhide_eq]
    simp only [bind_assoc]
    rfl

/-- A create, with its last two steps in one. -/
theorem createVaultGroupWithSort_eq (id displayName : String) (groupedVaults : List String)
    (groupedVaultSort groupedVaultSortDirection : Option String) (hidden : Bool) :
    createVaultGroupWithSort env root id displayName groupedVaults groupedVaultSort
      groupedVaultSortDirection hidden = (do
      requireUprivDir root
      FallibleM.ensure (slugIdIsValid (trim id))
        (groupsInvalid root ("invalid group id: " ++ trim id))
      FallibleM.ensure (trim displayName ≠ "")
        (groupsInvalid root "id and display_name are required")
      let groups ← loadVaultGroupsForMutate env.faults env.groupsCodec root
      FallibleM.ensure (!groups.any (·.id == trim id))
        (groupsInvalid root ("group already exists: " ++ trim id))
      let cleanGrouped := trimVaultIds groupedVaults
      let siblings := groups.map (VaultGroup.removeVaults cleanGrouped)
      cleanGrouped.forM (requireAssignableVault env root)
      let sort ← FallibleM.ofExcept
        ((groupedVaultSort.map (requireSort root)).getD (.ok "order"))
      let direction ← MonadExcept.ofExcept
        ((groupedVaultSortDirection.map (requireSortDirection root)).getD (.ok "asc"))
      let group : VaultGroup := {
        id := trim id
        displayName := trim displayName
        order := nextOrder siblings
        collapsed := false
        hidden := hidden
        groupedVaults := cleanGrouped
        groupedVaultSort := sort
        groupedVaultSortDirection := direction }
      hideAndSave env root cleanGrouped hidden (siblings ++ [group])
      return ⟨group, groups.any (VaultGroup.losesVaults cleanGrouped)⟩) := by
  unfold createVaultGroupWithSort hideAndSave
  simp only [bind_assoc]

end

/-! ## What is saved -/

section
variable {env : GroupsEnv} {root : VaultRoot} {vaultIds : List String} {hidden : Bool}
  {groups : List VaultGroup} {d d' : Disk}

theorem vaultConfigPath_ne (root : VaultRoot) (dir : PathBuf) :
    vaultConfigPath dir ≠ vaultGroupsPath root := by
  intro heq
  have hlists : (joinPath dir "").toList ++ "config.toml".toList =
      ((joinPath root.root "").toList ++ ".upriv/vault_".toList) ++ "groups.toml".toList := by
    rw [List.append_assoc, ← joinPath_eq, ← CONFIG_FILE_NAME, ← vaultConfigPath, heq,
      vaultGroupsPath_eq]
    rfl
  exact absurd (List.append_inj' hlists (by decide)).2 (by decide)

theorem sameAt_saveVaultGroups {path : PathBuf} (hne : path ≠ vaultGroupsPath root)
    (groups : List VaultGroup) :
    Preserves (SameAt path) (saveVaultGroups env.faults env.groupsCodec root groups) := by
  refine preserves_bind (preserves_sameAt preserves_requireUprivDir _) fun _ => ?_
  refine preserves_bind (preserves_ofExcept _) fun prepared => ?_
  refine preserves_bind (preserves_ofExcept _) fun body => ?_
  exact preserves_writeBytesAtomicExistingParent _ hne _

theorem callsGrow_saveVaultGroups (groups : List VaultGroup) :
    Preserves CallsGrow (saveVaultGroups env.faults env.groupsCodec root groups) := by
  refine preserves_bind (preserves_bind preserves_get fun d => preserves_ensure _ _) fun _ => ?_
  refine preserves_bind (preserves_ofExcept _) fun prepared => ?_
  refine preserves_bind (preserves_ofExcept _) fun body => ?_
  exact callsGrow_writeBytesAtomicExistingParent _ _ _

/-- The registry is not a configuration. -/
theorem loadedOn_saveVaultGroups {codec : TomlCodec VaultConfig} {m : Disk}
    {result : Except UprivError Unit}
    (h : (saveVaultGroups env.faults env.groupsCodec root groups).exec m = (result, d'))
    (dir : PathBuf) : loadedOn codec d' dir = loadedOn codec m dir :=
  loadedOn_congr ((sameAt_saveVaultGroups (vaultConfigPath_ne root dir) groups).exec_eq h)

theorem hideAndSave_ok (h : (hideAndSave env root vaultIds hidden groups).exec d = (.ok (), d')) :
    ∃ applied m, Planned env root d hidden (cascadeDirs root d vaultIds) applied ∧
      Cascaded env.configCodec (applied.map (·.dir)) hidden d m ∧
      (saveVaultGroups env.faults env.groupsCodec root groups).exec m = (.ok (), d') := by
  obtain ⟨applied, m, hset, hsave⟩ := exec_bind_eq_ok_iff.mp h
  obtain ⟨hplanned, hcascaded⟩ := setGroupedVaultsHidden_ok hset
  exact ⟨applied, m, hplanned, hcascaded, saveOrRevert_ok env root hsave⟩

theorem prepareGroups_error {path : PathBuf} {seenIds claimed : List String} {e : UprivError}
    (h : prepareGroups path seenIds claimed groups = .error e) :
    ∃ detail, e = .vaultGroupsInvalid path detail := by
  induction groups generalizing seenIds claimed with
  | nil => cases h
  | cons group groups ih =>
      rw [prepareGroups] at h
      dsimp only at h
      split at h
      · cases h
        exact ⟨_, rfl⟩
      split at h
      · cases h
        exact ⟨_, rfl⟩
      split at h
      · cases h
        exact ⟨_, rfl⟩
      split at h
      · cases h
        exact ⟨_, rfl⟩
      · cases h
        exact ⟨_, rfl⟩
      split at h
      · cases h
        exact ⟨_, rfl⟩
      rename_i sort direction _ _ _
      cases hrest : prepareGroups path (trim group.id :: seenIds)
          (claimed ++ trimVaultIds group.groupedVaults) groups with
      | ok rest =>
          rw [hrest] at h
          cases h
      | error error =>
          rw [hrest] at h
          cases h
          exact ih hrest

theorem serializeVaultGroups_error {codec : TomlCodec VaultGroupsFile} {e : UprivError}
    (h : serializeVaultGroups codec groups = .error e) :
    ¬ codec.Serializes ⟨groups⟩ ∧ ∀ error, e ≠ .io error := by
  rw [serializeVaultGroups] at h
  split at h
  · rename_i error hbody
    cases h
    refine ⟨?_, nofun⟩
    rintro ⟨text, htext⟩
    exact absurd (hbody.symm.trans htext) (by simp)
  · cases h

theorem parent_vaultGroupsPath (root : VaultRoot) :
    parent (vaultGroupsPath root) = some root.uprivDir := by
  have hdir : IsPlain root.uprivDir := isPlain_joinPath _ (by decide)
  exact parent_joinPath hdir (by decide)

/-- A save fails because its system call is refused, the directory is missing, the
groups are refused or they cannot be written as TOML. -/
theorem saveVaultGroups_error {e : UprivError}
    (h : (saveVaultGroups env.faults env.groupsCodec root groups).exec d = (.error e, d')) :
    RefusedWith env.faults d d' e ∨
      (d.isDir root.uprivDir = false ∧ e = .vaultRootNotFound root.uprivDir) ∨
      prepareGroupsForWrite root groups = .error e ∨
      ∃ prepared, prepareGroupsForWrite root groups = .ok prepared ∧
        ¬ env.groupsCodec.Serializes ⟨prepared⟩ ∧ ∀ error, e ≠ .io error := by
  rw [saveVaultGroups, requireUprivDir, bind_assoc, exec_bind, exec_get] at h
  dsimp only at h
  by_cases hdir : d.isDir root.uprivDir = true
  · rw [ensure, if_pos hdir, pure_bind, exec_ofExcept_bind] at h
    split at h
    · rename_i prepared hprepared
      rw [exec_ofExcept_bind] at h
      split at h
      · rename_i body hbody
        rcases writeBytesAtomic_error env.faults h with ⟨error, hfault, rfl, hcalls⟩ |
          ⟨hparent, rfl⟩
        · exact .inl ⟨d.calls, error, Nat.le_refl _, by rw [hcalls]; exact Nat.lt_succ_self _,
            hfault, rfl⟩
        · rw [parent_vaultGroupsPath, Option.all_some, hdir] at hparent
          cases hparent
      · rename_i error hbody
        cases h
        obtain ⟨hserializes, hother⟩ := serializeVaultGroups_error hbody
        exact .inr (.inr (.inr ⟨prepared, hprepared, hserializes, hother⟩))
    · rename_i error hprepared
      cases h
      exact .inr (.inr (.inl hprepared))
  · rw [ensure, if_neg hdir] at h
    cases h
    exact .inr (.inl ⟨by simpa using hdir, rfl⟩)

/-- An I/O error of a save is a refused system call. -/
theorem saveVaultGroups_io_error {e : UprivError}
    (h : (saveVaultGroups env.faults env.groupsCodec root groups).exec d = (.error e, d')) :
    RefusedWith env.faults d d' e ∨ ∀ error, e ≠ .io error := by
  rcases saveVaultGroups_error h with hrefused | ⟨_, rfl⟩ | herror | ⟨_, _, _, hother⟩
  · exact .inl hrefused
  · exact .inr nofun
  · obtain ⟨detail, rfl⟩ := prepareGroups_error herror
    exact .inr nofun
  · exact .inr hother

/-- Where it fails after planning, what it has set is taken back. -/
theorem hideAndSave_error {e : UprivError}
    (h : (hideAndSave env root vaultIds hidden groups).exec d = (.error e, d')) :
    SameDisk d d' ∨ ∃ (applied : List (VaultHiddenRevert root)) (m m' : Disk),
      (∀ entry ∈ applied, entry.dir ∈ cascadeDirs root d vaultIds ∧
        ∃ config, loadedOn env.configCodec d entry.dir = some config ∧
          config.vault.hidden = entry.previous) ∧
      Cascaded env.configCodec (applied.map (·.dir)) hidden d m ∧
      SameDisk m m' ∧ CallsGrow d m' ∧
      (RefusedWith env.faults d m' e ∨ ∀ error, e ≠ .io error) ∧
      (revertVaultHidden env applied).exec m' = (.ok (), d') := by
  rw [hideAndSave, setGroupedVaultsHidden, bind_assoc, exec_bind] at h
  split at h
  swap
  · rename_i error m hplan
    cases h
    exact .inl ((preserves_planSetGroupedVaultsHidden env root hidden vaultIds).exec_eq hplan)
  rename_i plan m₀ hplan
  have hsame : SameDisk d m₀ :=
    (preserves_planSetGroupedVaultsHidden env root hidden vaultIds).exec_eq hplan
  have hcalls : CallsGrow d m₀ := (callsGrow_planSetGroupedVaultsHidden vaultIds).exec_eq hplan
  have hplanned := planSetGroupedVaultsHidden_ok hplan
  have hentries : ∀ entry ∈ plan, entry.dir ∈ cascadeDirs root d vaultIds ∧
      ∃ config, loadedOn env.configCodec d entry.dir = some config ∧
        config.vault.hidden = entry.previous := by
    intro entry hentry
    obtain ⟨hmem, config, hload, hprevious, _⟩ := hplanned.entries entry hentry
    exact ⟨hmem, config, hload, hprevious⟩
  have hfrom {dirs : List PathBuf} {m : Disk} (hdirs : ∀ dir ∈ dirs, IsPlain dir)
      (hset : Cascaded env.configCodec dirs hidden m₀ m) :
      Cascaded env.configCodec dirs hidden d m :=
    (Cascaded.of_sameDisk hsame).trans hset (by simp) hdirs
  rw [exec_bind] at h
  refine .inr ?_
  split at h
  · rename_i applied m happly
    obtain ⟨rfl, hset, hgrow⟩ := applyVaultHiddenPlan_ok happly
    rw [saveOrRevert, exec_attempt_bind] at h
    rcases hsave : (saveVaultGroups env.faults env.groupsCodec root groups).exec m with
      ⟨error | _, m'⟩
    · rw [hsave] at h
      obtain ⟨rfl, hrevert⟩ := revert_throw_error h
      have hbefore : CallsGrow d m := IsTrans.trans _ _ _ hcalls hgrow
      refine ⟨applied, m, m', hentries, hfrom (isPlain_of_mem_planned applied) hset,
        preservesOnError_saveVaultGroups m _ m' hsave,
        IsTrans.trans _ _ _ hbefore ((callsGrow_saveVaultGroups groups).exec_eq hsave), ?_, hrevert⟩
      exact (saveVaultGroups_io_error hsave).imp_left (·.of_callsGrow hbefore)
    · rw [hsave] at h
      cases h
  · rename_i error m happly
    cases h
    obtain ⟨done, entry, rest, m, m', rfl, hset, hgrow, hfail, hrevert⟩ :=
      applyVaultHiddenPlan_error happly
    have hdone := hfrom (isPlain_of_mem_planned done) hset
    have hbefore : CallsGrow d m := IsTrans.trans _ _ _ hcalls hgrow
    refine ⟨done, m, m', fun other hother => hentries other (List.mem_append_left _ hother), hdone,
      preservesOnError_setVaultHidden _ _ m _ m' hfail,
      IsTrans.trans _ _ _ hbefore ((callsGrow_setVaultHidden _ _).exec_eq hfail), ?_, hrevert⟩
    obtain ⟨hmem, config, hload, _⟩ := hentries entry (by simp)
    obtain ⟨config', hload', _⟩ :=
      hdone.loadedOn_eq_some (isPlain_of_mem_planned done) entry.isPlain hload
    exact (setVaultHidden_error entry.isPlain hload' hfail).imp (·.of_callsGrow hbefore) And.right

/-! ## When no system call is refused -/

theorem not_refusedWith {faults : Faults} (hfaults : ∀ n, faults n = none) (e : UprivError) :
    ¬ RefusedWith faults d d' e := by
  rintro ⟨n, error, -, -, hfault, -⟩
  rw [hfaults] at hfault
  cases hfault

theorem saveVaultGroups_succeeds (hfaults : ∀ n, env.faults n = none)
    (hdir : d.isDir root.uprivDir = true)
    (hprepared : prepareGroupsForWrite root groups = .ok groups)
    (hserializes : env.groupsCodec.Serializes ⟨groups⟩) :
    ∃ d', (saveVaultGroups env.faults env.groupsCodec root groups).exec d = (.ok (), d') := by
  rcases hsave : (saveVaultGroups env.faults env.groupsCodec root groups).exec d with
    ⟨error | _, d'⟩
  · rcases saveVaultGroups_error hsave with hrefused | ⟨hmissing, _⟩ | herror |
      ⟨prepared, hok, hnot, _⟩
    · exact absurd hrefused (not_refusedWith hfaults error)
    · rw [hdir] at hmissing
      cases hmissing
    · rw [hprepared] at herror
      cases herror
    · rw [hprepared] at hok
      cases hok
      exact absurd hserializes hnot
  · exact ⟨d', rfl⟩

theorem applyVaultHiddenPlan_succeeds (hfaults : ∀ n, env.faults n = none)
    {plan : List (VaultHiddenRevert root)}
    (hplan : ∀ entry ∈ plan, d.isDir entry.dir = true ∧
      ∃ config, loadedOn env.configCodec d entry.dir = some config ∧
        env.configCodec.Serializes (config.withHidden hidden).written) :
    ∃ d', (applyVaultHiddenPlan env hidden [] plan).exec d = (.ok plan, d') := by
  rcases happly : (applyVaultHiddenPlan env hidden [] plan).exec d with ⟨error | applied, d'⟩
  · obtain ⟨done, entry, rest, m, m', rfl, hset, -, hfail, -⟩ := applyVaultHiddenPlan_error happly
    obtain ⟨hdir, config, hload, hserializes⟩ := hplan entry (by simp)
    obtain ⟨config', hload', hflag⟩ :=
      hset.loadedOn_eq_some (isPlain_of_mem_planned done) entry.isPlain hload
    rcases setVaultHidden_error entry.isPlain hload' hfail with hrefused | ⟨hnot | hmissing, _⟩
    · exact absurd hrefused (not_refusedWith hfaults error)
    · exact absurd (hflag ▸ hserializes) hnot
    · rw [Disk.isDir, hset.dirs, ← Disk.isDir, hdir] at hmissing
      cases hmissing
  · obtain ⟨rfl, -, -⟩ := applyVaultHiddenPlan_ok happly
    exact ⟨d', rfl⟩

/-- Every vault that has to change can be written, and so can the groups. -/
theorem hideAndSave_succeeds (hfaults : ∀ n, env.faults n = none)
    (hconfigs : ∀ dir ∈ cascadeDirs root d vaultIds,
      ∃ config, loadedOn env.configCodec d dir = some config ∧
        (config.vault.hidden = hidden ∨
          env.configCodec.Serializes (config.withHidden hidden).written))
    (hdir : d.isDir root.uprivDir = true)
    (hprepared : prepareGroupsForWrite root groups = .ok groups)
    (hserializes : env.groupsCodec.Serializes ⟨groups⟩) :
    ∃ d', (hideAndSave env root vaultIds hidden groups).exec d = (.ok (), d') := by
  obtain ⟨plan, m, hplan⟩ : ∃ plan m,
      (planSetGroupedVaultsHidden env root hidden vaultIds).exec d = (.ok plan, m) := by
    rcases hplan : (planSetGroupedVaultsHidden env root hidden vaultIds).exec d with
      ⟨error | plan, m⟩
    · rcases planSetGroupedVaultsHidden_error hplan with hrefused | ⟨dir, hmem, hnone⟩
      · exact absurd hrefused (not_refusedWith hfaults error)
      · obtain ⟨config, hload, _⟩ := hconfigs dir hmem
        rw [hload] at hnone
        cases hnone
    · exact ⟨plan, m, rfl⟩
  have hsame : SameDisk d m :=
    (preserves_planSetGroupedVaultsHidden env root hidden vaultIds).exec_eq hplan
  have hplanned := planSetGroupedVaultsHidden_ok hplan
  have hentries : ∀ entry ∈ plan, m.isDir entry.dir = true ∧
      ∃ config, loadedOn env.configCodec m entry.dir = some config ∧
        env.configCodec.Serializes (config.withHidden hidden).written := by
    intro entry hentry
    obtain ⟨hmem, config, hload, hprevious, hflag⟩ := hplanned.entries entry hentry
    obtain ⟨_, _, _, hexists⟩ := mem_cascadeDirs.mp hmem
    obtain ⟨config', hload', hcases⟩ := hconfigs entry.dir hmem
    rw [hload, Option.some.injEq] at hload'
    subst hload'
    refine ⟨by rwa [Disk.isDir, hsame.2], config, by rw [hsame.loadedOn, hload], ?_⟩
    exact hcases.resolve_left (hprevious ▸ hflag)
  obtain ⟨m', happly⟩ := applyVaultHiddenPlan_succeeds hfaults hentries
  have hset := (applyVaultHiddenPlan_ok happly).2.1
  have hdir' : m'.isDir root.uprivDir = true := by
    rwa [Disk.isDir, hset.dirs, hsame.2]
  obtain ⟨d', hsave⟩ := saveVaultGroups_succeeds hfaults hdir' hprepared hserializes
  refine ⟨d', ?_⟩
  rw [hideAndSave, setGroupedVaultsHidden, bind_assoc, exec_bind_of_ok hplan,
    exec_bind_of_ok happly, saveOrRevert, exec_attempt_bind, hsave]
  rfl

end

end Upriv
