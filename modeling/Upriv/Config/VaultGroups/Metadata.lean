import Upriv.Config.VaultGroups.Flags

/-!
# Updates of metadata and the configurations of the vaults

An update that leaves the flag and the vaults of a group alone still runs the
cascade: the vaults of a hidden group are hidden again.  It is a matter of
metadata only if there is nothing left to hide.
-/

namespace Upriv

open FallibleM

section
variable {env : GroupsEnv} {root : VaultRoot} {file : VaultGroupsFile} {d m d' : Disk}
  {params : UpdateVaultGroupParams} {groupId : String} {idx : ℕ} {group : VaultGroup}
  {vaultIds : List String} {hidden : Bool} {groups : List VaultGroup}

/-- All files but the registry are the same. -/
def OnlyRegistryWritten (root : VaultRoot) (d d' : Disk) : Prop :=
  ∀ path, path ≠ vaultGroupsPath root → d'.files path = d.files path

/-- A cascade over vaults that have the flag already only writes the registry. -/
theorem onlyRegistryWritten_of_haveFlag (hsame : SameDisk d m)
    (hflags : HaveFlag env root d d vaultIds hidden)
    (h : (hideAndSave env root vaultIds hidden groups).exec m = (.ok (), d')) :
    OnlyRegistryWritten root d d' := by
  obtain ⟨applied, m', hplanned, hset, hsave⟩ := hideAndSave_ok h
  have hnone : applied = [] := by
    rw [List.eq_nil_iff_forall_not_mem]
    intro entry hentry
    obtain ⟨hmem, config, hload, hprevious, hne⟩ := hplanned.entries entry hentry
    rw [cascadeDirs_congr hsame.2] at hmem
    rw [hsame.loadedOn] at hload
    obtain ⟨vaultId, hvault, hdir, hexists⟩ := mem_cascadeDirs.mp hmem
    have hflag := hflags vaultId hvault entry.dir hdir hexists
    rw [hiddenOn, hload, Option.map_some, Option.some.injEq, hprevious] at hflag
    exact hne hflag
  subst hnone
  intro path hpath
  have hsaved : SameAt path m' d' := (sameAt_saveVaultGroups hpath groups).exec_eq hsave
  calc d'.files path = m'.files path := hsaved
    _ = m.files path := hset.others path (by simp)
    _ = d.files path := congrFun hsame.1 path

/-- If only the registry is written, the vaults of the cascade had the flag. -/
theorem haveFlag_of_onlyRegistryWritten (hread : SameDisk d m)
    (h : (hideAndSave env root vaultIds hidden groups).exec m = (.ok (), d'))
    (hsame : OnlyRegistryWritten root d d') : HaveFlag env root d d vaultIds hidden := by
  intro vaultId hvault dir hdir hexists
  have hflag := hideAndSave_haveFlag hread h vaultId hvault dir hdir hexists
  rwa [hiddenOn, loadedOn_congr (hsame _ (vaultConfigPath_ne root dir))] at hflag

theorem hideAndSave_succeeds_of_haveFlag (hfaults : ∀ n, env.faults n = none)
    (hflags : HaveFlag env root d d vaultIds hidden) (hdir : d.isDir root.uprivDir = true)
    (hprepared : prepareGroupsForWrite root groups = .ok groups)
    (hserializes : env.groupsCodec.Serializes ⟨groups⟩) :
    ∃ d', (hideAndSave env root vaultIds hidden groups).exec d = (.ok (), d') := by
  refine hideAndSave_succeeds hfaults (fun dir hmem => ?_) hdir hprepared hserializes
  obtain ⟨vaultId, hvault, hdir, hexists⟩ := mem_cascadeDirs.mp hmem
  obtain ⟨config, hload, hflag⟩ :=
    Option.map_eq_some_iff.mp (hflags vaultId hvault dir hdir hexists)
  exact ⟨config, hload, .inl hflag⟩

/-- The vaults that a metadata update sets: those of a hidden group. -/
theorem cascadeIds_self (hidden : Bool) (vaultIds : List String) :
    cascadeIds hidden hidden vaultIds vaultIds = if hidden then vaultIds else [] := by
  cases hidden <;> simp [cascadeIds]

/-- What an update of metadata is to do: change the group, no other group and no other
file. -/
def ChangesMetadataOnly (env : GroupsEnv) (root : VaultRoot) (d : Disk) (groupId : String)
    (params : UpdateVaultGroupParams) (idx : ℕ) (group : VaultGroup) : Prop :=
  ∃ reply d', (updateVaultGroup env root groupId params).exec d = (.ok reply, d') ∧
    healedGroups env.groupsCodec root d' =
      (healedGroups env.groupsCodec root d).set idx (group.withMetadata params) ∧
    OnlyRegistryWritten root d d'

/-- When no system call is refused, an update of the metadata of a group succeeds and
writes nothing but the group, exactly if the group is visible or the vaults in it that
exist are all hidden. -/
theorem changesMetadataOnly_iff (hfaults : ∀ n, env.faults n = none)
    (hdir : d.isDir root.uprivDir = true) (haccepts : Accepts env.groupsCodec root d file)
    (hids : ∀ group ∈ file.groups, slugIdIsValid (trim group.id) = true)
    (hfind : findGroup (healedGroups env.groupsCodec root d) groupId = some (idx, group))
    (hlegal : LegalMetadata params)
    (hserializes : env.groupsCodec.Serializes
      ⟨(healedGroups env.groupsCodec root d).set idx (group.withMetadata params)⟩) :
    ChangesMetadataOnly env root d groupId params idx group ↔
      group.hidden = false ∨ HaveFlag env root d d group.groupedVaults true := by
  have hregistry := (registry_softenGroupsForMutate_iff haccepts.validateSchema).mpr hids
  rw [haccepts.healedGroups] at hfind hserializes
  have hidx := (findGroup_eq_some hfind).1
  have hprepared := prepareGroups_set_withMetadata root
    (settled_softenGroupsForMutate file.groups) hregistry hlegal hidx
  have hsettled := settled_set_withMetadata (settled_softenGroupsForMutate file.groups) hlegal hidx
  obtain ⟨reply, hexec⟩ := haccepts.exec_update hdir (hfaults _) hlegal hfind
  rw [cascadeIds_self] at hexec
  have hread : SameDisk d { d with calls := d.calls + 1 } := ⟨rfl, rfl⟩
  constructor
  · rintro ⟨reply', d', hrun, -, hsame⟩
    rw [hexec] at hrun
    obtain ⟨_, m, hhide, hreply⟩ := exec_bind_eq_ok_iff.mp hrun
    cases hreply
    cases hhidden : group.hidden with
    | false => exact .inl rfl
    | true =>
        rw [hhidden, if_pos rfl] at hhide
        exact .inr (haveFlag_of_onlyRegistryWritten hread hhide hsame)
  · intro h
    have hflags : HaveFlag env root d d (if group.hidden then group.groupedVaults else [])
        group.hidden := by
      cases hhidden : group.hidden with
      | false => exact nofun
      | true => exact h.resolve_left (by simp [hhidden])
    obtain ⟨d', hhide⟩ :=
      hideAndSave_succeeds_of_haveFlag (d := { d with calls := d.calls + 1 }) hfaults hflags hdir
        hprepared hserializes
    refine ⟨reply, d', ?_, ?_, onlyRegistryWritten_of_haveFlag hread hflags hhide⟩
    · rw [hexec, exec_bind_of_ok hhide]
      rfl
    · obtain ⟨_, _, _, _, hsave⟩ := hideAndSave_ok hhide
      rw [haccepts.healedGroups]
      exact (saveVaultGroups_ok hsettled hsave).2

end

/-! ## Two sample updates -/

/-- `trips` is hidden, and so is the vault in it. -/
def hiddenTrips : Disk := filedDisk (tripsText, "false\nhidden = true\ngrouped_vaults = [") true

theorem haveFlag_hiddenTrips :
    HaveFlag (filedEnv noFaults) sampleRoot hiddenTrips hiddenTrips ["travel"] true := by
  intro vaultId hvault dir hdir _
  obtain rfl := List.mem_singleton.mp hvault
  obtain rfl : "/home/user/root/.upriv/vaults/travel" = dir :=
    Except.ok.inj ((by decide +kernel : _ = _).trans hdir)
  decide +kernel

theorem changesMetadataOnly_trips :
    ChangesMetadataOnly (filedEnv noFaults) sampleRoot hiddenTrips "trips"
      { collapsed := some true } 1 tripsGroup.asHidden := by
  have haccepts : Accepts (filedEnv noFaults).groupsCodec sampleRoot hiddenTrips
      ⟨[workWith ["notes"], tripsGroup.asHidden]⟩ :=
    accepts_filedDisk noFaults rfl (by decide +kernel)
  have hhealed : healedGroups (filedEnv noFaults).groupsCodec sampleRoot hiddenTrips =
      [workWith ["notes"], tripsGroup.asHidden] := by
    rw [haccepts.healedGroups]
    decide +kernel
  have hlegal : LegalMetadata { collapsed := some true } := ⟨rfl, rfl, nofun, nofun, nofun⟩
  refine (changesMetadataOnly_iff (fun _ => rfl) (by decide +kernel) haccepts (by decide +kernel)
    ?_ hlegal ?_).mpr (.inr haveFlag_hiddenTrips)
  · rw [hhealed]
    decide +kernel
  · rw [hhealed]
    exact ⟨_, rfl⟩

def hiddenGroup : VaultGroup :=
  { id := "work", displayName := "Work", hidden := true, groupedVaults := ["notes"] }

def hiddenGroupText : String :=
  "[[group]]\nid = \"work\"\ndisplay_name = \"Work\"\nhidden = true\n" ++
    "grouped_vaults = [\"notes\"]\n"

def hiddenGroupEnv : GroupsEnv where
  faults := noFaults
  groupsCodec := .ofTable [(⟨[hiddenGroup]⟩, hiddenGroupText)] (by decide +kernel)
  configCodec := .ofTable [] noConfigTexts
  canonicalize _ := none
  filenameStamp _ := "2026-01-01-00-00-00"

/-- The directory of the vault is there, its `config.toml` is gone. -/
def hiddenGroupDisk : Disk :=
  registryDisk hiddenGroupText
    {"/home/user/root/.upriv", "/home/user/root/.upriv/vaults/notes"}

/-- Collapsing a hidden group fails when a vault in it does not load. -/
theorem changesMetadataOnly_hiddenGroup_refused :
    Accepts hiddenGroupEnv.groupsCodec sampleRoot hiddenGroupDisk ⟨[hiddenGroup]⟩ ∧
      slugIdIsValid hiddenGroup.id = true ∧ LegalMetadata { collapsed := some true } ∧
      ((updateVaultGroup hiddenGroupEnv sampleRoot "work" { collapsed := some true }).exec
          hiddenGroupDisk).1 =
        .error (.vaultConfigInvalid "/home/user/root/.upriv/vaults/notes/config.toml"
          "missing config.toml") := by
  have haccepts : Accepts hiddenGroupEnv.groupsCodec sampleRoot hiddenGroupDisk ⟨[hiddenGroup]⟩ :=
    accepts_of_toStringPretty (files_registryDisk _ _) rfl (by decide +kernel)
  have hdir : hiddenGroupDisk.isDir sampleRoot.uprivDir = true := by decide +kernel
  have hhealed : softenGroupsForMutate [hiddenGroup] = [hiddenGroup] := by decide +kernel
  refine ⟨haccepts, by decide +kernel, ⟨rfl, rfl, nofun, nofun, nofun⟩, ?_⟩
  rw [updateVaultGroup_eq, exec_bind_of_ok (exec_requireUprivDir hdir),
    exec_bind_of_ok (haccepts.exec_load rfl), hhealed]
  exact eq_error_of_map (by decide +kernel)

end Upriv
