import Upriv.Config.VaultGroups.Runs
import Upriv.Config.VaultGroups.Sanitize

/-!
# Files that load and files that can be mutated

The loader asks for ids and names that are not empty and for distinct ids; the
checks before a write ask for a registry.  After healing the two differ by one
point only: the write asks for ids that are valid slugs.
-/

namespace Upriv

open FallibleM

/-! ## The checks before a write -/

section
variable {path : PathBuf} {seenIds claimed : List String} {groups : List VaultGroup}

/-- A settled registry passes the checks, and is written as it is. -/
theorem prepareGroups_of_registry (hsettled : ∀ group ∈ groups, group.Settled)
    (hregistry : Registry groups) (hseen : ∀ group ∈ groups, group.id ∉ seenIds)
    (hclaimed : ∀ group ∈ groups, ∀ vaultId ∈ group.groupedVaults, vaultId ∉ claimed) :
    prepareGroups path seenIds claimed groups = .ok groups := by
  induction groups generalizing seenIds claimed with
  | nil => rfl
  | cons group groups ih =>
      obtain ⟨hgroup, hgroups⟩ := List.forall_mem_cons.mp hsettled
      have hids := List.nodup_cons.mp hregistry.ids_nodup
      have hvaults := List.nodup_append.mp hregistry.vaults_nodup
      have hfind : group.groupedVaults.find? (· ∈ claimed) = none := by
        simpa using hclaimed group List.mem_cons_self
      have hrest : prepareGroups path (group.id :: seenIds) (claimed ++ group.groupedVaults)
          groups = .ok groups := by
        refine ih hgroups hregistry.tail ?_ ?_
        · intro other hother hmem
          rcases List.mem_cons.mp hmem with heq | hmem
          · exact hids.1 (List.mem_map.mpr ⟨other, hother, heq⟩)
          · exact hseen other (List.mem_cons_of_mem _ hother) hmem
        · intro other hother vaultId hvault hmem
          rcases List.mem_append.mp hmem with hmem | hmem
          · exact hclaimed other (List.mem_cons_of_mem _ hother) vaultId hvault hmem
          · exact hvaults.2.2 vaultId hmem vaultId
              (List.mem_flatMap.mpr ⟨other, hother, hvault⟩) rfl
      have hvalid := hregistry.id_valid group List.mem_cons_self
      have hname := hregistry.displayName_ne group List.mem_cons_self
      rw [prepareGroups]
      simp only [show trim group.id = group.id from hgroup.id,
        show trim group.displayName = group.displayName from hgroup.displayName,
        trimVaultIds_of_clean hgroup.vaults, hgroup.sort, hgroup.direction, hfind, hrest, hvalid,
        hseen group List.mem_cons_self, String.isEmpty_iff, hname]
      rfl

theorem prepareGroupsForWrite_ok_iff {root : VaultRoot} {out : List VaultGroup}
    (hsettled : ∀ group ∈ groups, group.Settled) :
    prepareGroupsForWrite root groups = .ok out ↔ Registry groups ∧ out = groups := by
  constructor
  · intro h
    have hsame := prepareGroups_of_settled hsettled h
    subst hsame
    exact ⟨(registry_of_prepareGroups h).1, rfl⟩
  · rintro ⟨hregistry, rfl⟩
    exact prepareGroups_of_registry hsettled hregistry (by simp) (by simp)

end

/-! ## What loads -/

section
variable {path : PathBuf} {seenIds claimed : List String} {groups : List VaultGroup}

theorem displayName_of_validateGroups (h : validateGroups path seenIds groups = .ok ()) :
    ∀ group ∈ groups, trim group.displayName ≠ "" := by
  induction groups generalizing seenIds with
  | nil => simp
  | cons group groups ih =>
      rw [validateGroups] at h
      split at h
      · cases h
      · split at h
        · cases h
        · rename_i hname
          split at h
          · cases h
          · refine List.forall_mem_cons.mpr ⟨?_, ih h⟩
            intro hempty
            exact hname (String.isEmpty_iff.mpr hempty)

theorem headers_softenGroups :
    (softenGroups claimed groups).map (fun group => (group.id, group.displayName)) =
      groups.map fun group => (trim group.id, trim group.displayName) := by
  induction groups generalizing claimed with
  | nil => rfl
  | cons group groups ih =>
      rw [softenGroups, List.map_cons, List.map_cons, ih]
      rfl

theorem settled_softenGroupsForMutate (groups : List VaultGroup) :
    ∀ group ∈ softenGroupsForMutate groups, group.Settled :=
  settled_softenGroups

/-- What is healed can be written exactly if it is a registry. -/
theorem prepareGroups_softenGroupsForMutate_iff (root : VaultRoot) (groups : List VaultGroup) :
    (∃ out, prepareGroupsForWrite root (softenGroupsForMutate groups) = .ok out) ↔
      Registry (softenGroupsForMutate groups) := by
  simp [prepareGroupsForWrite_ok_iff (settled_softenGroupsForMutate groups)]

/-- Healing a file that loads leaves one thing to ask for. -/
theorem registry_softenGroupsForMutate_iff {file : VaultGroupsFile}
    (hschema : validateSchema file path = .ok ()) :
    Registry (softenGroupsForMutate file.groups) ↔
      ∀ group ∈ file.groups, slugIdIsValid (trim group.id) = true := by
  have hids : (softenGroupsForMutate file.groups).map (·.id) =
      file.groups.map fun group => trim group.id := ids_softenGroups
  have hheaders : (softenGroupsForMutate file.groups).map
      (fun group => (group.id, group.displayName)) =
      file.groups.map fun group => (trim group.id, trim group.displayName) :=
    headers_softenGroups
  constructor
  · intro hregistry group hgroup
    have hmem : trim group.id ∈ (softenGroupsForMutate file.groups).map (·.id) := by
      rw [hids]
      exact List.mem_map.mpr ⟨group, hgroup, rfl⟩
    obtain ⟨healed, hhealed, heq⟩ := List.mem_map.mp hmem
    rw [← heq]
    exact hregistry.id_valid healed hhealed
  · intro hvalid
    have hsettled := settled_softenGroupsForMutate file.groups
    constructor
    · rw [hids]
      exact (validateGroups_ok hschema).1
    · intro healed hhealed
      have hmem : healed.id ∈ file.groups.map fun group => trim group.id := by
        rw [← hids]
        exact List.mem_map.mpr ⟨healed, hhealed, rfl⟩
      obtain ⟨group, hgroup, heq⟩ := List.mem_map.mp hmem
      rw [← heq]
      exact hvalid group hgroup
    · intro healed hhealed
      have hmem : (healed.id, healed.displayName) ∈
          file.groups.map fun group => (trim group.id, trim group.displayName) := by
        rw [← hheaders]
        exact List.mem_map.mpr ⟨healed, hhealed, rfl⟩
      obtain ⟨group, hgroup, heq⟩ := List.mem_map.mp hmem
      rw [← (Prod.mk.inj heq).2]
      exact displayName_of_validateGroups hschema group hgroup
    · exact fun healed hhealed => (hsettled healed hhealed).displayName
    · exact fun healed hhealed => (normalizeOption_eq_some.mp (hsettled healed hhealed).sort).2
    · exact fun healed hhealed => (normalizeOption_eq_some.mp (hsettled healed hhealed).direction).2
    · exact vaults_nodup_softenGroups List.nodup_nil

end

/-! ## Updates of metadata -/

/-- An update of metadata only, with legal values. -/
structure LegalMetadata (params : UpdateVaultGroupParams) : Prop where
  groupedVaults : params.groupedVaults = none
  hidden : params.hidden = none
  displayName : ∀ name ∈ params.displayName, trim name ≠ ""
  sort : ∀ mode ∈ params.groupedVaultSort, trim mode ∈ groupedVaultSorts
  direction : ∀ value ∈ params.groupedVaultSortDirection, trim value ∈ groupedVaultSortDirections

/-- The group with the metadata of an update. -/
def VaultGroup.withMetadata (group : VaultGroup) (params : UpdateVaultGroupParams) : VaultGroup :=
  { group with
    displayName := (params.displayName.map trim).getD group.displayName
    collapsed := params.collapsed.getD group.collapsed
    order := params.order.getD group.order
    groupedVaultSort := (params.groupedVaultSort.map trim).getD group.groupedVaultSort
    groupedVaultSortDirection :=
      (params.groupedVaultSortDirection.map trim).getD group.groupedVaultSortDirection }

section
variable {params : UpdateVaultGroupParams} {group : VaultGroup} {groups : List VaultGroup} {idx : ℕ}

/-- A legal argument is trimmed, and a missing one leaves the value. -/
theorem getD_map_of_legal {check : String → Result String} {default : String}
    {argument : Option String} (h : ∀ given ∈ argument, check given = .ok (trim given)) :
    (argument.map check).getD (.ok default) = .ok ((argument.map trim).getD default) := by
  cases argument with
  | none => rfl
  | some given => exact h given rfl

theorem updateHeaders_of_legal (root : VaultRoot) (h : LegalMetadata params) :
    updateHeaders root params group = .ok (group.withMetadata params) := by
  have hname : ∀ name ∈ params.displayName, requireDisplayName root name = .ok (trim name) := by
    intro name hname
    have hne := h.displayName name hname
    rw [requireDisplayName, if_neg (by simpa using hne)]
  have hsort : ∀ mode ∈ params.groupedVaultSort, requireSort root mode = .ok (trim mode) := by
    intro mode hmode
    rw [requireSort, normalizeGroupedVaultSort, normalizeOption, if_pos (h.sort mode hmode)]
  have hdirection : ∀ value ∈ params.groupedVaultSortDirection,
      requireSortDirection root value = .ok (trim value) := by
    intro value hvalue
    rw [requireSortDirection, normalizeGroupedVaultSortDirection, normalizeOption,
      if_pos (h.direction value hvalue)]
  rw [updateHeaders, getD_map_of_legal hname, getD_map_of_legal hsort, getD_map_of_legal hdirection]
  rfl

theorem taken_of_legal (h : LegalMetadata params) : params.taken = [] := by
  rw [UpdateVaultGroupParams.taken, h.groupedVaults]
  rfl

theorem updated_of_legal (h : LegalMetadata params) :
    params.updated group (group.withMetadata params) = group.withMetadata params := by
  rw [UpdateVaultGroupParams.updated, h.groupedVaults, h.hidden]
  rfl

theorem removeVaults_nil (group : VaultGroup) : group.removeVaults [] = group := by
  simp [VaultGroup.removeVaults]

/-- Only the group itself is changed. -/
theorem saved_of_legal (h : LegalMetadata params) :
    params.saved groups idx group (group.withMetadata params) =
      groups.set idx (group.withMetadata params) := by
  rw [UpdateVaultGroupParams.saved, updated_of_legal h, taken_of_legal h]
  congr 1
  calc groups.map (VaultGroup.removeVaults []) = groups.map id :=
        List.map_congr_left fun other _ => removeVaults_nil other
    _ = groups := List.map_id groups

theorem map_set_of_eq {α : Type} {f : VaultGroup → α} {updated : VaultGroup}
    (hidx : groups[idx]? = some group) (h : f updated = f group) :
    (groups.set idx updated).map f = groups.map f := by
  refine List.ext_getElem? fun i => ?_
  rw [List.getElem?_map, List.getElem?_map]
  by_cases hi : idx = i
  · subst hi
    obtain ⟨hlt, -⟩ := List.getElem?_eq_some_iff.mp hidx
    rw [List.getElem?_set_self hlt, hidx, Option.map_some, Option.map_some, h]
  · rw [List.getElem?_set_ne hi]

theorem set_of_getElem? (hidx : groups[idx]? = some group) : groups.set idx group = groups := by
  simpa using map_set_of_eq (f := id) hidx rfl

/-- What holds of the argument, if there is one, and of the value that it replaces. -/
theorem getD_map_trim {P : String → Prop} {argument : Option String} {default : String}
    (hargument : ∀ given ∈ argument, P (trim given)) (hdefault : P default) :
    P ((argument.map trim).getD default) := by
  cases argument with
  | none => exact hdefault
  | some given => exact hargument given rfl

/-- A list with the same members may take the place of another. -/
theorem perm_flatMap_set {updated : VaultGroup} (hidx : groups[idx]? = some group)
    (hperm : updated.groupedVaults.Perm group.groupedVaults) :
    ((groups.set idx updated).flatMap (·.groupedVaults)).Perm
      (groups.flatMap (·.groupedVaults)) := by
  induction groups generalizing idx with
  | nil => cases hidx
  | cons other groups ih =>
      cases idx with
      | zero =>
          cases hidx
          exact hperm.append_right _
      | succ idx => exact (ih hidx).append_left _

/-- A group of a registry may take legal values, and its vaults another order. -/
theorem Registry.set {updated : VaultGroup} (hregistry : Registry groups)
    (hidx : groups[idx]? = some group) (hid : updated.id = group.id)
    (hname : updated.displayName ≠ "") (htrimmed : Trimmed updated.displayName)
    (hsort : updated.groupedVaultSort ∈ groupedVaultSorts)
    (hdirection : updated.groupedVaultSortDirection ∈ groupedVaultSortDirections)
    (hvaults : updated.groupedVaults.Perm group.groupedVaults) :
    Registry (groups.set idx updated) := by
  have hids : (groups.set idx updated).map (·.id) = groups.map (·.id) := map_set_of_eq hidx hid
  have hall {P : VaultGroup → Prop} (hold : ∀ other ∈ groups, P other) (hnew : P updated) :
      ∀ other ∈ groups.set idx updated, P other := by
    intro other hother
    rcases List.mem_or_eq_of_mem_set hother with hmem | rfl
    · exact hold other hmem
    · exact hnew
  constructor
  · rw [hids]
    exact hregistry.ids_nodup
  · refine hall hregistry.id_valid ?_
    rw [hid]
    exact hregistry.id_valid group (List.mem_of_getElem? hidx)
  · exact hall hregistry.displayName_ne hname
  · exact hall hregistry.displayName_trimmed htrimmed
  · exact hall hregistry.sort_legal hsort
  · exact hall hregistry.direction_legal hdirection
  · exact (perm_flatMap_set hidx hvaults).nodup_iff.mpr hregistry.vaults_nodup

/-- Legal metadata keep a registry a registry. -/
theorem Registry.set_withMetadata (hregistry : Registry groups) (h : LegalMetadata params)
    (hidx : groups[idx]? = some group) : Registry (groups.set idx (group.withMetadata params)) := by
  have hgroup := List.mem_of_getElem? hidx
  refine hregistry.set hidx rfl ?_ ?_ ?_ ?_ (.refl _)
  · exact getD_map_trim (P := fun name => name ≠ "") h.displayName
      (hregistry.displayName_ne group hgroup)
  · exact getD_map_trim (fun given _ => trimmed_trim given)
      (hregistry.displayName_trimmed group hgroup)
  · exact getD_map_trim h.sort (hregistry.sort_legal group hgroup)
  · exact getD_map_trim h.direction (hregistry.direction_legal group hgroup)

end

/-! ## An update on disk -/

section
variable {env : GroupsEnv} {codec : TomlCodec VaultGroupsFile} {root : VaultRoot}
  {file : VaultGroupsFile} {d d' : Disk} {params : UpdateVaultGroupParams} {groupId : String}
  {idx : ℕ} {group : VaultGroup}

/-- A metadata update of a file that loads comes down to the cascade and the save. -/
theorem Accepts.exec_update (h : Accepts env.groupsCodec root d file)
    (hdir : d.isDir root.uprivDir = true) (hcall : env.faults d.calls = none)
    (hlegal : LegalMetadata params)
    (hfind : findGroup (softenGroupsForMutate file.groups) groupId = some (idx, group)) :
    ∃ reply, (updateVaultGroup env root groupId params).exec d =
      exec (do
        hideAndSave env root (cascadeIds group.hidden group.hidden group.groupedVaults
          group.groupedVaults) group.hidden
          ((softenGroupsForMutate file.groups).set idx (group.withMetadata params))
        return reply) { d with calls := d.calls + 1 } := by
  rw [updateVaultGroup_eq, exec_bind_of_ok (exec_requireUprivDir hdir),
    exec_bind_of_ok (h.exec_load hcall), hfind]
  dsimp only
  rw [updateFound, updateHeaders_of_legal root hlegal, exec_ofExcept_bind]
  dsimp only
  rw [taken_of_legal hlegal, updated_of_legal hlegal, saved_of_legal hlegal]
  exact ⟨_, rfl⟩

/-! ## Which errors an update can end with -/

/-- Any error but `VaultGroupsInvalid`. -/
def NotGroupsInvalid (e : UprivError) : Prop := ∀ path detail, e ≠ .vaultGroupsInvalid path detail

theorem IsConfigError.notGroupsInvalid {e : UprivError} (h : IsConfigError e) :
    NotGroupsInvalid e := by
  rintro path detail rfl
  exact h

/-- A registry that can be written is not refused as a registry. -/
theorem errors_saveVaultGroups {groups : List VaultGroup}
    (hprepared : prepareGroupsForWrite root groups = .ok groups)
    (hserializes : env.groupsCodec.Serializes ⟨groups⟩) :
    Errors NotGroupsInvalid (saveVaultGroups env.faults env.groupsCodec root groups) := by
  intro d e d' h
  rcases saveVaultGroups_error h with ⟨_, _, _, _, _, rfl⟩ | ⟨_, rfl⟩ | herror |
    ⟨prepared, hok, hnot, _⟩
  · exact nofun
  · exact nofun
  · rw [hprepared] at herror
    cases herror
  · rw [hprepared] at hok
    cases hok
    exact absurd hserializes hnot

theorem errors_hideAndSave {groups : List VaultGroup}
    (hprepared : prepareGroupsForWrite root groups = .ok groups)
    (hserializes : env.groupsCodec.Serializes ⟨groups⟩) (vaultIds : List String) (hidden : Bool) :
    Errors NotGroupsInvalid (hideAndSave env root vaultIds hidden groups) := by
  refine errors_bind ?_ fun applied => ?_
  · intro d e d' h
    exact (errors_setGroupedVaultsHidden vaultIds d e d' h).notGroupsInvalid
  · intro d e d' h
    rw [saveOrRevert, exec_attempt_bind] at h
    rcases hsave : (saveVaultGroups env.faults env.groupsCodec root groups).exec d with
      ⟨error | _, m⟩
    · rw [hsave] at h
      obtain ⟨rfl, -⟩ := revert_throw_error h
      exact errors_saveVaultGroups hprepared hserializes d _ m hsave
    · rw [hsave] at h
      cases h

/-- Where no vault directory exists, there is nothing to hide. -/
theorem exec_setGroupedVaultsHidden_of_none {vaultIds : List String} {hidden : Bool}
    (h : cascadeDirs root d vaultIds = []) :
    (setGroupedVaultsHidden env root vaultIds hidden).exec d = (.ok [], d) := by
  have hplan : (planSetGroupedVaultsHidden env root hidden vaultIds).exec d = (.ok [], d) := by
    induction vaultIds with
    | nil => rfl
    | cons vaultId vaultIds ih =>
        unfold planSetGroupedVaultsHidden
        split
        · rename_i error herror
          rw [cascadeDirs_cons_error herror] at h
          exact ih h
        · rename_i dir hdir
          rw [exec_bind, exec_get]
          dsimp only
          by_cases hexists : d.isDir dir = true
          · rw [cascadeDirs_cons_dir hdir hexists] at h
            cases h
          · rw [cascadeDirs_cons_missing hdir (by simpa using hexists)] at h
            rw [if_pos (by simpa using hexists)]
            exact ih h
  rw [setGroupedVaultsHidden, exec_bind_of_ok hplan]
  rfl

end

/-! ## What loads can be mutated -/

section
variable {env : GroupsEnv} {root : VaultRoot} {file : VaultGroupsFile} {d d' : Disk}
  {params : UpdateVaultGroupParams} {groupId : String} {idx : ℕ} {group : VaultGroup}

theorem settled_set_withMetadata {groups : List VaultGroup}
    (hsettled : ∀ other ∈ groups, other.Settled) (hlegal : LegalMetadata params)
    (hidx : groups[idx]? = some group) :
    ∀ other ∈ groups.set idx (group.withMetadata params), other.Settled := by
  refine settled_set hsettled ?_
  exact (updateHeaders_ok (updateHeaders_of_legal ⟨""⟩ hlegal)
    (hsettled group (List.mem_of_getElem? hidx))).1

/-- A registry stays one, so what is saved passes the checks. -/
theorem prepareGroups_set_withMetadata (root : VaultRoot) {groups : List VaultGroup}
    (hsettled : ∀ other ∈ groups, other.Settled) (hregistry : Registry groups)
    (hlegal : LegalMetadata params) (hidx : groups[idx]? = some group) :
    prepareGroupsForWrite root (groups.set idx (group.withMetadata params)) =
      .ok (groups.set idx (group.withMetadata params)) :=
  (prepareGroupsForWrite_ok_iff (settled_set_withMetadata hsettled hlegal hidx)).mpr
    ⟨hregistry.set_withMetadata hlegal hidx, rfl⟩

theorem update_not_groupsInvalid (haccepts : Accepts env.groupsCodec root d file)
    (hregistry : Registry (softenGroupsForMutate file.groups)) (hlegal : LegalMetadata params)
    (hfind : findGroup (softenGroupsForMutate file.groups) groupId = some (idx, group))
    (hserializes : env.groupsCodec.Serializes
      ⟨(softenGroupsForMutate file.groups).set idx (group.withMetadata params)⟩)
    (path : PathBuf) (detail : String) :
    ((updateVaultGroup env root groupId params).exec d).1 ≠
      .error (.vaultGroupsInvalid path detail) := by
  intro herror
  have hprepared := prepareGroups_set_withMetadata root
    (settled_softenGroupsForMutate file.groups) hregistry hlegal (findGroup_eq_some hfind).1
  by_cases hdir : d.isDir root.uprivDir = true
  · cases hcall : env.faults d.calls with
    | some error =>
        rw [updateVaultGroup_eq, exec_bind_of_ok (exec_requireUprivDir hdir),
          exec_bind_of_error (haccepts.exec_load_of_refused hcall)] at herror
        cases herror
    | none =>
        obtain ⟨reply, hexec⟩ := haccepts.exec_update hdir hcall hlegal hfind
        rw [hexec] at herror
        obtain ⟨m, hrun⟩ := exists_exec_eq herror
        have herrors := errors_bind (errors_hideAndSave hprepared hserializes
          (cascadeIds group.hidden group.hidden group.groupedVaults group.groupedVaults)
          group.hidden) fun _ => errors_pure reply
        exact herrors _ _ m hrun path detail rfl
  · rw [updateVaultGroup_eq, requireUprivDir, bind_assoc, exec_bind, exec_get] at herror
    dsimp only at herror
    rw [ensure, if_neg hdir] at herror
    cases herror

/-- On every disk that holds the file, and whatever the operating system refuses, no
metadata update of one of its groups is refused as `VaultGroupsInvalid`. -/
def MetadataUpdatesAccepted (env : GroupsEnv) (root : VaultRoot) (file : VaultGroupsFile) : Prop :=
  ∀ faults d, Accepts env.groupsCodec root d file →
    ∀ groupId params idx group, LegalMetadata params →
      findGroup (softenGroupsForMutate file.groups) groupId = some (idx, group) →
      env.groupsCodec.Serializes
        ⟨(softenGroupsForMutate file.groups).set idx (group.withMetadata params)⟩ →
      ∀ path detail, ((updateVaultGroup { env with faults := faults } root groupId params).exec
        d).1 ≠ .error (.vaultGroupsInvalid path detail)

theorem withMetadata_default (group : VaultGroup) : group.withMetadata {} = group := rfl

/-- The empty update is a legal one. -/
theorem legalMetadata_default : LegalMetadata {} where
  groupedVaults := rfl
  hidden := rfl
  displayName := nofun
  sort := nofun
  direction := nofun

/-- The files of `d`, with no vault directory. -/
def registryOnly (root : VaultRoot) (d : Disk) (calls : ℕ) : Disk where
  files := d.files
  dirs := {root.uprivDir}
  calls := calls

theorem isDir_registryOnly (root : VaultRoot) (d : Disk) (calls : ℕ) :
    (registryOnly root d calls).isDir root.uprivDir = true := by
  simp [Disk.isDir, registryOnly]

theorem cascadeDirs_registryOnly (root : VaultRoot) (d : Disk) (calls : ℕ)
    (vaultIds : List String) : cascadeDirs root (registryOnly root d calls) vaultIds = [] := by
  rw [List.eq_nil_iff_forall_not_mem]
  intro dir hmem
  obtain ⟨vaultId, -, hdir, hexists⟩ := mem_cascadeDirs.mp hmem
  have heq : dir = root.uprivDir := by
    simpa [Disk.isDir, registryOnly] using hexists
  have hprefix := (prefix_vaultsDir hdir).length_le
  rw [heq, uprivDir_eq, List.length_append, List.length_append] at hprefix
  revert hprefix
  simp

theorem exec_saveVaultGroups_of_refused {groups : List VaultGroup} {e : UprivError}
    (hdir : d.isDir root.uprivDir = true) (h : prepareGroupsForWrite root groups = .error e) :
    (saveVaultGroups env.faults env.groupsCodec root groups).exec d = (.error e, d) := by
  rw [saveVaultGroups, exec_bind_of_ok (exec_requireUprivDir hdir), exec_ofExcept_bind, h]

/-- Groups that are refused make the update fail, also where there is nothing to hide. -/
theorem update_groupsInvalid (hfaults : ∀ n, env.faults n = none)
    (haccepts : Accepts env.groupsCodec root d file)
    (hinvalid : ¬ Registry (softenGroupsForMutate file.groups))
    (hfind : findGroup (softenGroupsForMutate file.groups) groupId = some (idx, group)) :
    ∃ path detail, ((updateVaultGroup env root groupId {}).exec (registryOnly root d 0)).1 =
      .error (.vaultGroupsInvalid path detail) := by
  have haccepts' : Accepts env.groupsCodec root (registryOnly root d 0) file := haccepts.congr rfl
  have hidx := (findGroup_eq_some hfind).1
  have hset : (softenGroupsForMutate file.groups).set idx group =
      softenGroupsForMutate file.groups := set_of_getElem? hidx
  obtain ⟨e, hprepared⟩ : ∃ e, prepareGroupsForWrite root (softenGroupsForMutate file.groups) =
      .error e := by
    cases hprepared : prepareGroupsForWrite root (softenGroupsForMutate file.groups) with
    | error e => exact ⟨e, rfl⟩
    | ok out =>
        exact absurd ((prepareGroups_softenGroupsForMutate_iff root _).mp ⟨out, hprepared⟩)
          hinvalid
  obtain ⟨detail, rfl⟩ := prepareGroups_error hprepared
  obtain ⟨reply, hexec⟩ := haccepts'.exec_update (isDir_registryOnly root d 0) (hfaults _)
    legalMetadata_default hfind
  refine ⟨vaultGroupsPath root, detail, ?_⟩
  rw [hexec, withMetadata_default, hset, hideAndSave, bind_assoc,
    show { registryOnly root d 0 with calls := (registryOnly root d 0).calls + 1 } =
      registryOnly root d 1 from rfl,
    exec_bind_of_ok (exec_setGroupedVaultsHidden_of_none (cascadeDirs_registryOnly root d 1 _)),
    saveOrRevert, bind_assoc, exec_attempt_bind,
    exec_saveVaultGroups_of_refused (isDir_registryOnly root d 1) hprepared]
  rfl

theorem findGroup_head {groups : List VaultGroup} (hgroup : group.Settled) :
    findGroup (group :: groups) group.id = some (0, group) := by
  have hid : trim group.id = group.id := hgroup.id
  simp [findGroup, findGroupIndex, List.findIdx?_cons, hid]

/-- For a file that loads: it passes the checks before a write, and metadata updates of
its groups are accepted, exactly if all its group ids are valid slugs. -/
theorem metadataUpdates_accepted_iff (haccepts : Accepts env.groupsCodec root d file)
    (hserializes : env.groupsCodec.Serializes ⟨softenGroupsForMutate file.groups⟩) :
    ((∃ out, prepareGroupsForWrite root (softenGroupsForMutate file.groups) = .ok out) ↔
      ∀ group ∈ file.groups, slugIdIsValid (trim group.id) = true) ∧
    (MetadataUpdatesAccepted env root file ↔
      ∀ group ∈ file.groups, slugIdIsValid (trim group.id) = true) := by
  have hregistry := registry_softenGroupsForMutate_iff haccepts.validateSchema
  rw [← hregistry]
  constructor
  · exact prepareGroups_softenGroupsForMutate_iff root file.groups
  · constructor
    · intro h
      by_contra hinvalid
      cases hgroups : softenGroupsForMutate file.groups with
      | nil =>
          rw [hgroups] at hinvalid
          exact hinvalid ⟨by simp, by simp, by simp, by simp, by simp, by simp, by simp⟩
      | cons group groups =>
          have hsettled : group.Settled := settled_softenGroupsForMutate file.groups group (by
            rw [hgroups]
            exact List.mem_cons_self)
          have hfind : findGroup (softenGroupsForMutate file.groups) group.id =
              some (0, group) := by
            rw [hgroups]
            exact findGroup_head hsettled
          have hset : (softenGroupsForMutate file.groups).set 0 (group.withMetadata {}) =
              softenGroupsForMutate file.groups := by
            rw [hgroups]
            rfl
          obtain ⟨path, detail, herror⟩ := @update_groupsInvalid { env with faults := noFaults }
            root file d group.id 0 group (fun _ => rfl) haccepts hinvalid hfind
          refine h noFaults (registryOnly root d 0) (haccepts.congr rfl) group.id {} 0 group
            legalMetadata_default hfind ?_ path detail herror
          rwa [hset]
    · intro h faults d haccepts groupId params idx group hlegal hfind hserializes
      exact update_not_groupsInvalid haccepts h hlegal hfind hserializes

end

/-! ## Two sample files -/

theorem eq_error_of_map {α : Type} {x : Result α} {e : UprivError}
    (h : (x.map fun _ => ()) = .error e) : x = .error e := by
  cases x with
  | ok a => cases h
  | error e' =>
      cases h
      rfl

/-- A disk with this registry file and these directories. -/
def registryDisk (text : String) (dirs : Finset PathBuf) : Disk where
  files path := if path = vaultGroupsPath sampleRoot then some (utf8 text.toList) else none
  dirs := dirs
  calls := 0

theorem files_registryDisk (text : String) (dirs : Finset PathBuf) :
    (registryDisk text dirs).files (vaultGroupsPath sampleRoot) = some (utf8 text.toList) := by
  simp [registryDisk]

/-- `travel` is in `trips`. -/
def travelInTrips : Disk := filedDisk (tripsText, "false\nhidden = false\ngrouped_vaults = [") false

theorem metadataUpdates_accepted_iff_trips :
    (∃ out, prepareGroupsForWrite sampleRoot
        (softenGroupsForMutate [workWith ["notes"], tripsGroup]) = .ok out) ∧
      MetadataUpdatesAccepted (filedEnv noFaults) sampleRoot
        ⟨[workWith ["notes"], tripsGroup]⟩ := by
  have haccepts : Accepts (filedEnv noFaults).groupsCodec sampleRoot travelInTrips
      ⟨[workWith ["notes"], tripsGroup]⟩ :=
    accepts_filedDisk noFaults rfl (by decide +kernel)
  have hhealed : softenGroupsForMutate [workWith ["notes"], tripsGroup] =
      [workWith ["notes"], tripsGroup] := by
    decide +kernel
  have hvalid : ∀ group ∈ [workWith ["notes"], tripsGroup],
      slugIdIsValid (trim group.id) = true := by
    decide +kernel
  obtain ⟨hprepare, hupdates⟩ := metadataUpdates_accepted_iff haccepts
    ⟨_, by rw [hhealed]; rfl⟩
  exact ⟨hprepare.mpr hvalid, hupdates.mpr hvalid⟩

/-- The other samples have no configuration texts. -/
theorem noConfigTexts : ∀ p ∈ ([] : List (VaultConfig × String)),
    ∀ q ∈ ([] : List (VaultConfig × String)), p.2.toList <:+ q.2.toList → p = q :=
  List.forall_mem_nil _

/-- An id with a capital and a blank, as a hand edit may leave it. -/
def myGroup : VaultGroup := { id := "My Group", displayName := "Mine" }

def myGroupText : String := "[[group]]\nid = \"My Group\"\ndisplay_name = \"Mine\"\n"

def myGroupEnv : GroupsEnv where
  faults := noFaults
  groupsCodec := .ofTable [(⟨[myGroup]⟩, myGroupText)] (by decide +kernel)
  configCodec := .ofTable [] noConfigTexts
  canonicalize _ := none
  filenameStamp _ := "2026-01-01-00-00-00"

/-- The group loads, and collapsing it is refused. -/
theorem metadataUpdate_myGroup_refused :
    Accepts myGroupEnv.groupsCodec sampleRoot
        (registryDisk myGroupText {"/home/user/root/.upriv"}) ⟨[myGroup]⟩ ∧
      LegalMetadata { collapsed := some true } ∧
      ((updateVaultGroup myGroupEnv sampleRoot "My Group" { collapsed := some true }).exec
          (registryDisk myGroupText {"/home/user/root/.upriv"})).1 =
        .error (.vaultGroupsInvalid "/home/user/root/.upriv/vault_groups.toml"
          "invalid [[group]].id: My Group") := by
  have haccepts : Accepts myGroupEnv.groupsCodec sampleRoot
      (registryDisk myGroupText {"/home/user/root/.upriv"}) ⟨[myGroup]⟩ :=
    accepts_of_toStringPretty (files_registryDisk _ _) rfl (by decide +kernel)
  have hdir : (registryDisk myGroupText {"/home/user/root/.upriv"}).isDir sampleRoot.uprivDir =
      true := by
    decide +kernel
  have hhealed : softenGroupsForMutate [myGroup] = [myGroup] := by decide +kernel
  refine ⟨haccepts, ⟨rfl, rfl, nofun, nofun, nofun⟩, ?_⟩
  rw [updateVaultGroup_eq, exec_bind_of_ok (exec_requireUprivDir hdir),
    exec_bind_of_ok (haccepts.exec_load rfl), hhealed]
  exact eq_error_of_map (by decide +kernel)

end Upriv
