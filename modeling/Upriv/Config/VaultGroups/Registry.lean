import Upriv.Config.VaultGroups.Load
import Upriv.Fs.Frame

/-!
# The registry invariant

What holds of every file that passes the checks before a write.  Loading such
a file heals nothing, so the groups in memory are the groups on disk.
-/

namespace Upriv

open FallibleM

/-- Distinct valid ids, trimmed names, legal sort modes, and every vault in at
most one group and at most once in it. -/
structure Registry (groups : List VaultGroup) : Prop where
  ids_nodup : (groups.map (·.id)).Nodup
  id_valid : ∀ group ∈ groups, slugIdIsValid group.id = true
  displayName_ne : ∀ group ∈ groups, group.displayName ≠ ""
  displayName_trimmed : ∀ group ∈ groups, Trimmed group.displayName
  sort_legal : ∀ group ∈ groups, group.groupedVaultSort ∈ groupedVaultSorts
  direction_legal : ∀ group ∈ groups,
    group.groupedVaultSortDirection ∈ groupedVaultSortDirections
  vaults_nodup : (groups.flatMap (·.groupedVaults)).Nodup

theorem Registry.tail {group : VaultGroup} {groups : List VaultGroup}
    (h : Registry (group :: groups)) : Registry groups where
  ids_nodup := (List.nodup_cons.mp h.ids_nodup).2
  id_valid := (List.forall_mem_cons.mp h.id_valid).2
  displayName_ne := (List.forall_mem_cons.mp h.displayName_ne).2
  displayName_trimmed := (List.forall_mem_cons.mp h.displayName_trimmed).2
  sort_legal := (List.forall_mem_cons.mp h.sort_legal).2
  direction_legal := (List.forall_mem_cons.mp h.direction_legal).2
  vaults_nodup := (List.nodup_append.mp h.vaults_nodup).2.1

/-! ## Checks before a write -/

section
variable {path : PathBuf} {seenIds claimed : List String} {group : VaultGroup}
  {groups out : List VaultGroup}

theorem prepareGroups_cons
    (h : prepareGroups path seenIds claimed (group :: groups) = .ok out) :
    ∃ sort direction rest,
      slugIdIsValid (trim group.id) = true ∧ trim group.displayName ≠ "" ∧
      trim group.id ∉ seenIds ∧
      normalizeGroupedVaultSort group.groupedVaultSort = some sort ∧
      normalizeGroupedVaultSortDirection group.groupedVaultSortDirection =
        some direction ∧
      (∀ vaultId ∈ trimVaultIds group.groupedVaults, vaultId ∉ claimed) ∧
      prepareGroups path (trim group.id :: seenIds)
        (claimed ++ trimVaultIds group.groupedVaults) groups = .ok rest ∧
      out = { group with
        id := trim group.id
        displayName := trim group.displayName
        groupedVaults := trimVaultIds group.groupedVaults
        groupedVaultSort := sort
        groupedVaultSortDirection := direction } :: rest := by
  rw [prepareGroups] at h
  dsimp only at h
  split at h
  · cases h
  · rename_i hvalid
    split at h
    · cases h
    · rename_i hname
      split at h
      · cases h
      · rename_i hseen
        split at h
        · cases h
        · cases h
        · rename_i sort direction hsort hdirection
          split at h
          · cases h
          · rename_i hclaimed
            obtain ⟨rest, hrest, hout⟩ := except_bind_eq_ok.mp h
            cases hout
            exact ⟨sort, direction, rest, by simpa using hvalid, by simpa using hname,
              hseen, hsort, hdirection, by simpa using hclaimed, hrest, rfl⟩

/-- What is written is a registry, apart from what was seen before it. -/
theorem registry_of_prepareGroups (h : prepareGroups path seenIds claimed groups = .ok out) :
    Registry out ∧ (∀ group ∈ out, group.id ∉ seenIds) ∧
      (∀ group ∈ out, ∀ vaultId ∈ group.groupedVaults, vaultId ∉ claimed) := by
  induction groups generalizing seenIds claimed out with
  | nil =>
      cases h
      exact ⟨⟨by simp, by simp, by simp, by simp, by simp, by simp, by simp⟩,
        by simp, by simp⟩
  | cons group groups ih =>
      obtain ⟨sort, direction, rest, hvalid, hname, hseen, hsort, hdirection, hclaimed,
        hrest, rfl⟩ := prepareGroups_cons h
      obtain ⟨hregistry, hids, hvaults⟩ := ih hrest
      refine ⟨?_, ?_, ?_⟩
      · constructor
        · rw [List.map_cons, List.nodup_cons]
          refine ⟨?_, hregistry.ids_nodup⟩
          rw [List.mem_map]
          rintro ⟨other, hother, heq⟩
          exact hids other hother (heq ▸ List.mem_cons_self)
        · exact List.forall_mem_cons.mpr ⟨hvalid, hregistry.id_valid⟩
        · exact List.forall_mem_cons.mpr ⟨hname, hregistry.displayName_ne⟩
        · exact List.forall_mem_cons.mpr
            ⟨trimmed_trim _, hregistry.displayName_trimmed⟩
        · exact List.forall_mem_cons.mpr
            ⟨(normalizeOption_eq_some.mp hsort).2, hregistry.sort_legal⟩
        · exact List.forall_mem_cons.mpr
            ⟨(normalizeOption_eq_some.mp hdirection).2, hregistry.direction_legal⟩
        · rw [List.flatMap_cons, List.nodup_append]
          refine ⟨(cleanIds_trimVaultIds _).nodup, hregistry.vaults_nodup, ?_⟩
          rintro vaultId hfirst other hother rfl
          obtain ⟨group', hgroup', hmem⟩ := List.mem_flatMap.mp hother
          exact hvaults group' hgroup' _ hmem (List.mem_append_right _ hfirst)
      · refine List.forall_mem_cons.mpr ⟨hseen, fun group' hgroup' hmem => ?_⟩
        exact hids group' hgroup' (List.mem_cons_of_mem _ hmem)
      · refine List.forall_mem_cons.mpr ⟨hclaimed, fun group' hgroup' vaultId hv hmem => ?_⟩
        exact hvaults group' hgroup' vaultId hv (List.mem_append_left _ hmem)

/-- Settled groups are written as they are. -/
theorem prepareGroups_of_settled (hsettled : ∀ group ∈ groups, group.Settled)
    (h : prepareGroups path seenIds claimed groups = .ok out) : out = groups := by
  induction groups generalizing seenIds claimed out with
  | nil =>
      cases h
      rfl
  | cons group groups ih =>
      obtain ⟨sort, direction, rest, _, _, _, hsort, hdirection, _, hrest, rfl⟩ :=
        prepareGroups_cons h
      obtain ⟨hgroup, hgroups⟩ := List.forall_mem_cons.mp hsettled
      rw [hgroup.sort] at hsort
      rw [hgroup.direction] at hdirection
      cases hsort
      cases hdirection
      rw [ih hgroups hrest, trimVaultIds_of_clean hgroup.vaults,
        show trim group.id = group.id from hgroup.id,
        show trim group.displayName = group.displayName from hgroup.displayName]

end

/-! ## Loading -/

section
variable {claimed : List String} {groups : List VaultGroup}

theorem settled_softenGroups : ∀ group ∈ softenGroups claimed groups, group.Settled := by
  induction groups generalizing claimed with
  | nil => simp [softenGroups]
  | cons group groups ih =>
      rw [softenGroups, List.forall_mem_cons]
      refine ⟨?_, ih⟩
      have hsort := normalizeOption_getD normalizeGroupedVaultSort_default
        group.groupedVaultSort
      have hdirection := normalizeOption_getD normalizeGroupedVaultSortDirection_default
        group.groupedVaultSortDirection
      constructor <;> dsimp only
      · exact trimmed_trim group.id
      · exact trimmed_trim group.displayName
      · exact hsort
      · exact hdirection
      · exact (cleanIds_trimVaultIds _).filter _

theorem ids_softenGroups :
    (softenGroups claimed groups).map (·.id) = groups.map fun group => trim group.id := by
  induction groups generalizing claimed with
  | nil => rfl
  | cons group groups ih =>
      rw [softenGroups, List.map_cons, List.map_cons, ih]
      rfl

/-- Nothing to heal. -/
theorem softenGroups_of_settled (hsettled : ∀ group ∈ groups, group.Settled)
    (hnodup : (claimed ++ groups.flatMap (·.groupedVaults)).Nodup) :
    softenGroups claimed groups = groups := by
  induction groups generalizing claimed with
  | nil => rfl
  | cons group groups ih =>
      obtain ⟨hgroup, hgroups⟩ := List.forall_mem_cons.mp hsettled
      rw [List.flatMap_cons] at hnodup
      have hkeep : (trimVaultIds group.groupedVaults).filter (· ∉ claimed) =
          group.groupedVaults := by
        rw [trimVaultIds_of_clean hgroup.vaults, List.filter_eq_self]
        intro vaultId hmem
        rw [decide_eq_true_eq]
        intro hclaimed
        exact (List.nodup_append.mp hnodup).2.2 vaultId hclaimed vaultId
          (List.mem_append_left _ hmem) rfl
      rw [softenGroups]
      simp only [hkeep]
      rw [ ih hgroups (by rwa [List.append_assoc]), hgroup.sort, hgroup.direction,
        VaultGroup.trimHeaders, show trim group.id = group.id from hgroup.id,
        show trim group.displayName = group.displayName from hgroup.displayName]
      rfl

theorem vaults_nodup_softenGroups (hclaimed : claimed.Nodup) :
    (claimed ++ (softenGroups claimed groups).flatMap (·.groupedVaults)).Nodup := by
  induction groups generalizing claimed with
  | nil => simpa [softenGroups] using hclaimed
  | cons group groups ih =>
      rw [softenGroups, List.flatMap_cons, ← List.append_assoc]
      refine ih (List.nodup_append.mpr ⟨hclaimed, ?_, ?_⟩)
      · exact (nodup_firstOccurrences _).filter _
      · intro vaultId hmem other hother heq
        subst heq
        exact absurd hmem (by simpa using (List.mem_filter.mp hother).2)

@[simp] theorem trimHeaders_trimHeaders (group : VaultGroup) :
    group.trimHeaders.trimHeaders = group.trimHeaders := by
  simp only [VaultGroup.trimHeaders, trim_trim]

/-- The healer trims the headers itself. -/
theorem softenGroups_map_trimHeaders :
    softenGroups claimed (groups.map VaultGroup.trimHeaders) = softenGroups claimed groups := by
  induction groups generalizing claimed with
  | nil => rfl
  | cons group groups ih =>
      rw [List.map_cons, softenGroups, softenGroups, trimHeaders_trimHeaders]
      exact congrArg _ ih

theorem validateGroups_ok {path : PathBuf} {seenIds : List String}
    (h : validateGroups path seenIds groups = .ok ()) :
    (groups.map fun group => trim group.id).Nodup ∧
      ∀ group ∈ groups, trim group.id ∉ seenIds := by
  induction groups generalizing seenIds with
  | nil => simp
  | cons group groups ih =>
      rw [validateGroups] at h
      split at h
      · cases h
      · split at h
        · cases h
        · split at h
          · cases h
          · rename_i hseen
            obtain ⟨hnodup, hids⟩ := ih h
            refine ⟨?_, List.forall_mem_cons.mpr ⟨hseen, fun group' hgroup' hmem => ?_⟩⟩
            · rw [List.map_cons, List.nodup_cons]
              refine ⟨?_, hnodup⟩
              rw [List.mem_map]
              rintro ⟨other, hother, heq⟩
              exact hids other hother (heq ▸ List.mem_cons_self)
            · exact hids group' hgroup' (List.mem_cons_of_mem _ hmem)

/-- The path is for the errors only. -/
theorem validateGroups_anyPath {path : PathBuf} {seenIds : List String}
    (h : validateGroups path seenIds groups = .ok ()) (other : PathBuf) :
    validateGroups other seenIds groups = .ok () := by
  induction groups generalizing seenIds with
  | nil => rfl
  | cons group groups ih =>
      rw [validateGroups] at h ⊢
      split at h
      · cases h
      · split at h
        · cases h
        · split at h
          · cases h
          · rename_i hid hname hseen
            rw [if_neg hid, if_neg hname, if_neg hseen]
            exact ih h

theorem validateGroups_of_settled {path : PathBuf} {seenIds : List String}
    (hsettled : ∀ group ∈ groups, group.Settled) (hregistry : Registry groups)
    (hseen : ∀ group ∈ groups, group.id ∉ seenIds) :
    validateGroups path seenIds groups = .ok () := by
  induction groups generalizing seenIds with
  | nil => rfl
  | cons group groups ih =>
      obtain ⟨hgroup, hgroups⟩ := List.forall_mem_cons.mp hsettled
      have hnodup := List.nodup_cons.mp hregistry.ids_nodup
      have hid : group.id ≠ "" := by
        intro hempty
        have hvalid := hregistry.id_valid group List.mem_cons_self
        rw [hempty] at hvalid
        cases hvalid
      have hname := hregistry.displayName_ne group List.mem_cons_self
      have hrest : validateGroups path (group.id :: seenIds) groups = .ok () := by
        refine ih hgroups hregistry.tail fun other hother hmem => ?_
        rcases List.mem_cons.mp hmem with heq | hmem
        · exact hnodup.1 (List.mem_map.mpr ⟨other, hother, heq⟩)
        · exact hseen other (List.mem_cons_of_mem _ hother) hmem
      rw [validateGroups, show trim group.id = group.id from hgroup.id,
        show trim group.displayName = group.displayName from hgroup.displayName]
      simpa [hid, hname, hseen group List.mem_cons_self] using hrest

end

/-! ## On disk -/

section
variable (codec : TomlCodec VaultGroupsFile) (root : VaultRoot)

/-- The groups that a mutation starts from: the file on disk, healed. -/
def healedGroups (d : Disk) : List VaultGroup :=
  match (d.files (vaultGroupsPath root)).bind decodeUtf8 with
  | none => []
  | some raw =>
    match parseVaultGroups codec (vaultGroupsPath root) raw with
    | .error _ => []
    | .ok file => softenGroupsForMutate (file.groups.map VaultGroup.trimHeaders)

/-- The loader accepts the file on disk, and its groups are a registry. -/
def RegistryOnDisk (d : Disk) : Prop :=
  ∃ raw file, (d.files (vaultGroupsPath root)).bind decodeUtf8 = some raw ∧
    parseVaultGroupsTomlStr codec raw = .ok file ∧ Registry file.groups

variable {codec root}

theorem healedGroups_congr {d d' : Disk} (h : SameAt (vaultGroupsPath root) d d') :
    healedGroups codec root d' = healedGroups codec root d := by
  rw [healedGroups, show d'.files (vaultGroupsPath root) = _ from h]
  rfl

theorem settled_healedGroups {d : Disk} :
    ∀ group ∈ healedGroups codec root d, group.Settled := by
  unfold healedGroups
  split
  · simp
  · split
    · simp
    · exact settled_softenGroups

theorem RegistryOnDisk.congr {d d' : Disk} (h : SameAt (vaultGroupsPath root) d d')
    (hdisk : RegistryOnDisk codec root d) : RegistryOnDisk codec root d' := by
  rwa [RegistryOnDisk, show d'.files (vaultGroupsPath root) = _ from h]

theorem parseVaultGroups_eq_ok {path : PathBuf} {raw : String} {file : VaultGroupsFile} :
    parseVaultGroups codec path raw = .ok file ↔
      codec.fromStr raw = .ok file ∧ validateSchema file path = .ok () := by
  unfold parseVaultGroups
  cases hparse : codec.fromStr raw with
  | error error => simp
  | ok parsed =>
      simp only [except_bind_eq_ok, Except.ok.injEq]
      constructor
      · rintro ⟨_, hvalid, hfile⟩
        cases hfile
        exact ⟨rfl, hvalid⟩
      · rintro ⟨rfl, hvalid⟩
        exact ⟨(), hvalid, rfl⟩

theorem map_trimHeaders_of_settled {groups : List VaultGroup}
    (h : ∀ group ∈ groups, group.Settled) :
    groups.map VaultGroup.trimHeaders = groups := by
  calc groups.map VaultGroup.trimHeaders = groups.map id := by
        refine List.map_congr_left fun group hgroup => ?_
        have hsettled := h group hgroup
        rw [VaultGroup.trimHeaders, show trim group.id = group.id from hsettled.id,
          show trim group.displayName = group.displayName from hsettled.displayName]
        rfl
    _ = groups := List.map_id groups

variable {faults : Faults} {d d' : Disk} {groups : List VaultGroup}

theorem preserves_requireUprivDir : Preserves SameDisk (requireUprivDir root) :=
  preserves_bind preserves_get fun _ => preserves_ensure _ _

theorem preserves_parseFileFromDisk :
    Preserves SameDisk (parseFileFromDisk faults codec root) := by
  refine preserves_bind preserves_get fun d => ?_
  refine preserves_bind (preserves_ensure _ _) fun _ => ?_
  split
  · exact preserves_pure _
  · refine preserves_bind (preserves_readToString faults _) fun raw => ?_
    exact preserves_bind (preserves_ofExcept _) fun parsed => preserves_pure _

theorem preserves_loadVaultGroupsForMutate :
    Preserves SameDisk (loadVaultGroupsForMutate faults codec root) := by
  refine preserves_bind preserves_parseFileFromDisk fun parsed => ?_
  split <;> exact preserves_pure _

theorem parseFileFromDisk_ok {parsed : Option VaultGroupsFile}
    (hrun : (parseFileFromDisk faults codec root).exec d = (.ok parsed, d')) :
    (parsed = none ∧ d.files (vaultGroupsPath root) = none) ∨
    ∃ raw file, parsed = some file ∧
      (d.files (vaultGroupsPath root)).bind decodeUtf8 = some raw ∧
      parseVaultGroups codec (vaultGroupsPath root) raw = .ok file := by
  rw [parseFileFromDisk, exec_bind, exec_get] at hrun
  obtain ⟨_, hrun⟩ := exec_ensure_bind_eq_ok_iff.mp hrun
  split at hrun
  · rename_i hmissing
    cases hrun
    refine .inl ⟨rfl, ?_⟩
    simpa [Disk.isFile] using hmissing
  · obtain ⟨raw, m, hread, hrest⟩ := exec_bind_eq_ok_iff.mp hrun
    obtain ⟨file, hparse, hfile⟩ := exec_ofExcept_bind_eq_ok_iff.mp hrest
    cases hfile
    obtain ⟨bytes, hbytes, htext⟩ := readToString_ok faults hread
    exact .inr ⟨raw, file, rfl, by rw [hbytes, Option.bind_some, htext], hparse⟩

/-- A load for a mutation yields the healed groups; their ids are distinct. -/
theorem loadVaultGroupsForMutate_ok
    (hrun : (loadVaultGroupsForMutate faults codec root).exec d = (.ok groups, d')) :
    groups = healedGroups codec root d ∧ SameDisk d d' ∧
      (groups.map (·.id)).Nodup ∧ ∀ group ∈ groups, group.Settled := by
  have hsame := preserves_loadVaultGroupsForMutate.exec_eq hrun
  obtain ⟨parsed, m, hparse, hgroups⟩ := exec_bind_eq_ok_iff.mp hrun
  rcases parseFileFromDisk_ok hparse with ⟨rfl, hfile⟩ | ⟨raw, file, rfl, hraw, hfile⟩
  · cases hgroups
    refine ⟨?_, hsame, by simp, by simp⟩
    rw [healedGroups, hfile]
    rfl
  · cases hgroups
    obtain ⟨_, hvalid⟩ := parseVaultGroups_eq_ok.mp hfile
    refine ⟨?_, hsame, ?_, settled_softenGroups⟩
    · rw [healedGroups, hraw]
      simp only [hfile]
    · rw [softenGroupsForMutate, ids_softenGroups, List.map_map]
      simpa [Function.comp_def, VaultGroup.trimHeaders] using (validateGroups_ok hvalid).1

theorem fromStr_serializeVaultGroups {body : String}
    (h : serializeVaultGroups codec groups = .ok body) :
    codec.fromStr body = .ok ⟨groups⟩ := by
  unfold serializeVaultGroups at h
  split at h
  · cases h
  · rename_i text htext
    rw [← Except.ok.inj h]
    exact codec.fromStr_toStringPretty ⟨groups⟩ text _ htext isCommentBlock_header

/-- What a successful save leaves on disk. -/
theorem saveVaultGroups_ok (hsettled : ∀ group ∈ groups, group.Settled)
    (hrun : (saveVaultGroups faults codec root groups).exec d = (.ok (), d')) :
    RegistryOnDisk codec root d' ∧ healedGroups codec root d' = groups := by
  obtain ⟨_, m, _, hrun⟩ := exec_bind_eq_ok_iff.mp hrun
  obtain ⟨prepared, hprepared, hrun⟩ := exec_ofExcept_bind_eq_ok_iff.mp hrun
  obtain ⟨body, hbody, hwrite⟩ := exec_ofExcept_bind_eq_ok_iff.mp hrun
  obtain ⟨hregistry, _, _⟩ := registry_of_prepareGroups hprepared
  have hsame : prepared = groups := prepareGroups_of_settled hsettled hprepared
  subst hsame
  have hfiles := files_of_writeBytesAtomic_ok faults hwrite
  have hraw : (d'.files (vaultGroupsPath root)).bind decodeUtf8 = some body := by
    rw [hfiles, Function.update_self, Option.bind_some, decodeUtf8_utf8]
  have hparse (path : PathBuf) : parseVaultGroups codec path body = .ok ⟨prepared⟩ := by
    refine parseVaultGroups_eq_ok.mpr ⟨fromStr_serializeVaultGroups hbody, ?_⟩
    exact validateGroups_of_settled hsettled hregistry (by simp)
  refine ⟨⟨body, ⟨prepared⟩, hraw, hparse _, hregistry⟩, ?_⟩
  rw [healedGroups, hraw]
  simp only [hparse, softenGroupsForMutate, map_trimHeaders_of_settled hsettled]
  exact softenGroups_of_settled hsettled hregistry.vaults_nodup

theorem preservesOnError_saveVaultGroups :
    PreservesOnError SameDisk (saveVaultGroups faults codec root groups) := by
  refine preservesOnError_bind preserves_requireUprivDir fun _ => ?_
  refine preservesOnError_bind (preserves_ofExcept _) fun prepared => ?_
  refine preservesOnError_bind (preserves_ofExcept _) fun body => ?_
  exact sameDisk_of_writeBytesAtomic_error faults _

end

end Upriv
