import Upriv.Config.VaultGroups.Registry

/-!
# The list view of the groups

`sanitize_vault_groups`: the healer of the list.  It drops unknown vaults while
it claims; the healer of the mutators keeps them.  On the known vaults the two
agree.
-/

namespace Upriv

open FallibleM

/-- Successful load, with what was dropped on the way. -/
structure LoadedVaultGroups where
  groups : List VaultGroup
  droppedOrphans : ℕ
  droppedDuplicateAssignments : ℕ
  deriving DecidableEq, Repr

/-- The sets and counters of the loops in `sanitize_vault_groups`. -/
structure Sanitizing where
  claimed : List String := []
  seenInGroup : List String := []
  groupedVaults : List String := []
  droppedOrphans : ℕ := 0
  droppedDuplicateAssignments : ℕ := 0

/-- The body of the inner loop. -/
def sanitizeVault (known : List String) (s : Sanitizing) (vaultId : String) :
    Sanitizing :=
  let id := trim vaultId
  if id.isEmpty then s
  else if id ∈ s.seenInGroup then s
  else
    let s := { s with seenInGroup := s.seenInGroup ++ [id] }
    if id ∉ known then { s with droppedOrphans := s.droppedOrphans + 1 }
    else if id ∈ s.claimed then
      { s with droppedDuplicateAssignments := s.droppedDuplicateAssignments + 1 }
    else
      { s with claimed := s.claimed ++ [id], groupedVaults := s.groupedVaults ++ [id] }

def sanitizeGroups (known : List String) (s : Sanitizing) :
    List VaultGroup → LoadedVaultGroups
  | [] => ⟨[], s.droppedOrphans, s.droppedDuplicateAssignments⟩
  | group :: groups =>
    let s := group.groupedVaults.foldl (sanitizeVault known)
      { s with seenInGroup := [], groupedVaults := [] }
    let rest := sanitizeGroups known s groups
    { rest with groups := { group.trimHeaders with
        groupedVaults := s.groupedVaults
        groupedVaultSort := (normalizeGroupedVaultSort group.groupedVaultSort).getD "order"
        groupedVaultSortDirection :=
          (normalizeGroupedVaultSortDirection group.groupedVaultSortDirection).getD
            "asc" } :: rest.groups }

def sanitizeVaultGroups (file : VaultGroupsFile) (knownVaultIds : List String) :
    LoadedVaultGroups :=
  sanitizeGroups knownVaultIds {} file.groups

def loadVaultGroups (faults : Faults) (codec : TomlCodec VaultGroupsFile)
    (root : VaultRoot) (knownVaultIds : List String) : FsM LoadedVaultGroups := do
  match ← parseFileFromDisk faults codec root with
  | none => return ⟨[], 0, 0⟩
  | some parsed => return sanitizeVaultGroups parsed knownVaultIds

/-! ## One group -/

/-- Claiming goes by the first occurrence of each id: `seen` and `kept` are the
ids of the group read so far, and those of them that it got. -/
structure Claims (known claimed seen : List String) (s : Sanitizing) : Prop where
  seen_eq : s.seenInGroup = seen
  kept_eq : s.groupedVaults = seen.filter fun id => id ∈ known ∧ id ∉ claimed
  claimed_eq : s.claimed = claimed ++ s.groupedVaults

section
variable {known claimed seen : List String} {s : Sanitizing}

theorem Claims.step (h : Claims known claimed seen s) (vaultId : String) :
    Claims known claimed
      (if (trim vaultId).isEmpty then seen else pushNew seen (trim vaultId))
      (sanitizeVault known s vaultId) := by
  unfold sanitizeVault
  dsimp only
  generalize trim vaultId = id
  split
  · exact h
  · rw [h.seen_eq]
    split
    · rename_i hseen
      rw [pushNew, if_pos hseen]
      exact h
    · rename_i hseen
      rw [pushNew, if_neg hseen]
      -- A fresh id is claimed already only if an earlier group has it.
      have hclaimed : id ∈ s.claimed ↔ id ∈ claimed := by
        rw [h.claimed_eq, h.kept_eq, List.mem_append, or_iff_left_iff_imp]
        intro hmem
        exact absurd (List.mem_of_mem_filter hmem) hseen
      split
      · rename_i hknown
        refine ⟨rfl, ?_, h.claimed_eq⟩
        simp [List.filter_append, h.kept_eq, hknown]
      · rename_i hknown
        rw [not_not] at hknown
        split
        · rename_i hmem
          refine ⟨rfl, ?_, h.claimed_eq⟩
          simp [List.filter_append, h.kept_eq, hclaimed.mp hmem]
        · rename_i hmem
          refine ⟨rfl, ?_, ?_⟩
          · simp [List.filter_append, h.kept_eq, hknown, mt hclaimed.mpr hmem]
          · simp [h.claimed_eq, List.append_assoc]

theorem foldl_claims (h : Claims known claimed seen s) (vaultIds : List String) :
    Claims known claimed
      (((vaultIds.map trim).filter (!·.isEmpty)).foldl pushNew seen)
      (vaultIds.foldl (sanitizeVault known) s) := by
  induction vaultIds generalizing seen s with
  | nil => exact h
  | cons vaultId vaultIds ih =>
      have hrest := ih (h.step vaultId)
      rw [List.map_cons, List.foldl_cons]
      by_cases hempty : (trim vaultId).isEmpty
      · rw [List.filter_cons_of_neg (by simpa using hempty)]
        simpa [hempty] using hrest
      · rw [List.filter_cons_of_pos (by simpa using hempty), List.foldl_cons]
        simpa [hempty] using hrest

/-- What the inner loop keeps and claims. -/
theorem claims_group (known : List String) (s : Sanitizing) (vaultIds : List String) :
    Claims known s.claimed (trimVaultIds vaultIds)
      (vaultIds.foldl (sanitizeVault known)
        { s with seenInGroup := [], groupedVaults := [] }) := by
  have hstart : Claims known s.claimed []
      { s with seenInGroup := [], groupedVaults := [] } :=
    ⟨rfl, rfl, (List.append_nil _).symm⟩
  exact foldl_claims hstart vaultIds

end

/-! ## All groups -/

def VaultGroup.keepKnown (known : List String) (group : VaultGroup) : VaultGroup :=
  { group with groupedVaults := group.groupedVaults.filter (· ∈ known) }

/-- The two healers agree as long as they have claimed the same known vaults. -/
theorem sanitizeGroups_groups {known claimed : List String} {s : Sanitizing}
    (hclaimed : ∀ id ∈ known, id ∈ s.claimed ↔ id ∈ claimed) (groups : List VaultGroup) :
    (sanitizeGroups known s groups).groups =
      (softenGroups claimed groups).map (VaultGroup.keepKnown known) := by
  induction groups generalizing s claimed with
  | nil => rfl
  | cons group groups ih =>
      have hgroup := claims_group known s group.groupedVaults
      have hkept : ((trimVaultIds group.groupedVaults).filter (· ∉ claimed)).filter (· ∈ known) =
          (trimVaultIds group.groupedVaults).filter fun id => id ∈ known ∧ id ∉ s.claimed := by
        rw [List.filter_filter]
        refine List.filter_congr fun id _ => ?_
        by_cases hknown : id ∈ known
        · simp [hknown, hclaimed id hknown]
        · simp [hknown]
      rw [sanitizeGroups, softenGroups, List.map_cons]
      refine List.cons_eq_cons.mpr ⟨?_, ?_⟩
      · rw [VaultGroup.keepKnown, hgroup.kept_eq, ← hkept]
      · refine ih fun id hknown => ?_
        rw [hgroup.claimed_eq, hgroup.kept_eq, List.mem_append, List.mem_append,
          hclaimed id hknown, List.mem_filter, List.mem_filter]
        simp [hknown, hclaimed id hknown]

/-- The group at `i` is the first one that lists the vault. -/
def FirstToList (groups : List VaultGroup) (vaultId : String) (i : ℕ) : Prop :=
  (∃ group, groups[i]? = some group ∧ vaultId ∈ trimVaultIds group.groupedVaults) ∧
    ∀ j < i, ∀ group, groups[j]? = some group → vaultId ∉ trimVaultIds group.groupedVaults

/-- The group at `i` has the vault. -/
def HasVault (groups : List VaultGroup) (vaultId : String) (i : ℕ) : Prop :=
  ∃ group, groups[i]? = some group ∧ vaultId ∈ group.groupedVaults

theorem firstToList_cons_succ {group : VaultGroup} {groups : List VaultGroup}
    {vaultId : String} {i : ℕ} :
    FirstToList (group :: groups) vaultId (i + 1) ↔
      vaultId ∉ trimVaultIds group.groupedVaults ∧ FirstToList groups vaultId i := by
  constructor
  · rintro ⟨hlists, hbefore⟩
    refine ⟨hbefore 0 (Nat.succ_pos i) group rfl, hlists, fun j hj => ?_⟩
    exact hbefore (j + 1) (Nat.succ_lt_succ hj)
  · rintro ⟨hfirst, hlists, hbefore⟩
    refine ⟨hlists, fun j hj other hother => ?_⟩
    cases j with
    | zero =>
        cases hother
        exact hfirst
    | succ j => exact hbefore j (Nat.lt_of_succ_lt_succ hj) other hother

/-- First group wins. -/
theorem hasVault_softenGroups {claimed : List String} {groups : List VaultGroup}
    {vaultId : String} {i : ℕ} :
    HasVault (softenGroups claimed groups) vaultId i ↔
      vaultId ∉ claimed ∧ FirstToList groups vaultId i := by
  induction groups generalizing claimed i with
  | nil => simp [softenGroups, HasVault, FirstToList]
  | cons group groups ih =>
      cases i with
      | zero => simp [softenGroups, HasVault, FirstToList, and_comm]
      | succ i =>
          rw [firstToList_cons_succ]
          refine Iff.trans ih ?_
          rw [List.mem_append, List.mem_filter, decide_eq_true_eq]
          tauto

theorem hasVault_map_keepKnown {known : List String} {groups : List VaultGroup}
    {vaultId : String} (hknown : vaultId ∈ known) {i : ℕ} :
    HasVault (groups.map (VaultGroup.keepKnown known)) vaultId i ↔
      HasVault groups vaultId i := by
  unfold HasVault
  rw [List.getElem?_map]
  cases groups[i]? with
  | none => simp
  | some group => simp [VaultGroup.keepKnown, hknown]

/-- The list view is the mutate view without the unknown vaults, and in both of
them the first group that lists a known vault has it. -/
theorem sanitizeVaultGroups_eq_soften (file : VaultGroupsFile) (known : List String) :
    (sanitizeVaultGroups file known).groups =
        (softenGroupsForMutate file.groups).map (VaultGroup.keepKnown known) ∧
      ∀ vaultId ∈ known, ∀ i,
        (HasVault (sanitizeVaultGroups file known).groups vaultId i ↔
          FirstToList file.groups vaultId i) ∧
        (HasVault (softenGroupsForMutate file.groups) vaultId i ↔
          FirstToList file.groups vaultId i) := by
  have heq : (sanitizeVaultGroups file known).groups =
      (softenGroupsForMutate file.groups).map (VaultGroup.keepKnown known) :=
    sanitizeGroups_groups (fun _ _ => Iff.rfl) file.groups
  have hsoften (vaultId : String) (i : ℕ) :
      HasVault (softenGroupsForMutate file.groups) vaultId i ↔
        FirstToList file.groups vaultId i := by
    rw [softenGroupsForMutate, hasVault_softenGroups]
    simp
  refine ⟨heq, fun vaultId hknown i => ⟨?_, hsoften vaultId i⟩⟩
  rw [heq, hasVault_map_keepKnown hknown]
  exact hsoften vaultId i

/-! ## On disk -/

section
variable {faults : Faults} {codec : TomlCodec VaultGroupsFile} {root : VaultRoot}
  {known : List String} {d d' : Disk} {loaded : LoadedVaultGroups}

/-- The list shows the known vaults of the groups that a mutation starts from. -/
theorem loadVaultGroups_ok
    (hrun : (loadVaultGroups faults codec root known).exec d = (.ok loaded, d')) :
    loaded.groups = (healedGroups codec root d).map (VaultGroup.keepKnown known) ∧
      SameDisk d d' := by
  obtain ⟨parsed, m, hparse, hloaded⟩ := exec_bind_eq_ok_iff.mp hrun
  have hsame : SameDisk d m := preserves_parseFileFromDisk.exec_eq hparse
  rcases parseFileFromDisk_ok hparse with ⟨rfl, hfile⟩ | ⟨raw, file, rfl, hraw, hfile⟩
  · cases hloaded
    refine ⟨?_, hsame⟩
    rw [healedGroups, hfile]
    rfl
  · cases hloaded
    refine ⟨?_, hsame⟩
    rw [healedGroups, hraw]
    simp only [hfile]
    rw [softenGroupsForMutate, softenGroups_map_trimHeaders]
    exact (sanitizeVaultGroups_eq_soften file known).1

/-- What a mutation starts from, whatever is on disk. -/
structure HealedWf (groups : List VaultGroup) : Prop where
  settled : ∀ group ∈ groups, group.Settled
  ids_nodup : (groups.map (·.id)).Nodup
  vaults_nodup : (groups.flatMap (·.groupedVaults)).Nodup

theorem healedWf_healedGroups (codec : TomlCodec VaultGroupsFile) (root : VaultRoot)
    (d : Disk) : HealedWf (healedGroups codec root d) := by
  have hempty : HealedWf [] := ⟨by simp, by simp, by simp⟩
  rw [healedGroups]
  split
  · exact hempty
  · split
    · exact hempty
    · rename_i file hparse
      have hvalid := (parseVaultGroups_eq_ok.mp hparse).2
      rw [softenGroupsForMutate, softenGroups_map_trimHeaders]
      refine ⟨settled_softenGroups, ?_, ?_⟩
      · rw [ids_softenGroups]
        exact (validateGroups_ok hvalid).1
      · exact vaults_nodup_softenGroups List.nodup_nil

/-- A text that parses is loaded if the read itself does not fail. -/
theorem parseFileFromDisk_of_ok {raw : String} {file : VaultGroupsFile}
    (hraw : (d.files (vaultGroupsPath root)).bind decodeUtf8 = some raw)
    (hparse : parseVaultGroupsTomlStr codec raw = .ok file)
    (hread : faults d.calls = none) :
    (parseFileFromDisk faults codec root).exec d =
      (.ok (some file), { d with calls := d.calls + 1 }) := by
  obtain ⟨bytes, hbytes, htext⟩ := Option.bind_eq_some_iff.mp hraw
  have hfile : d.isFile (vaultGroupsPath root) = true := by
    rw [Disk.isFile, hbytes]
    rfl
  have hparse' : parseVaultGroups codec (vaultGroupsPath root) raw = .ok file := by
    obtain ⟨hfromStr, hvalid⟩ := parseVaultGroups_eq_ok.mp hparse
    exact parseVaultGroups_eq_ok.mpr ⟨hfromStr, validateGroups_anyPath hvalid _⟩
  have hraw : (readToString faults (vaultGroupsPath root)).exec d =
      (.ok raw, { d with calls := d.calls + 1 }) := by
    simp [readToString, exec_bind, readFile, sysCall, hread, hbytes, htext]
  rw [parseFileFromDisk]
  simp [-bind_pure_comp, exec_bind, FallibleM.ensure, hfile, hraw, hparse']

theorem loadVaultGroups_of_registry (known : List String) (hdisk : RegistryOnDisk codec root d)
    (hread : faults d.calls = none) :
    ∃ loaded d', (loadVaultGroups faults codec root known).exec d = (.ok loaded, d') := by
  obtain ⟨raw, file, hraw, hparse, _⟩ := hdisk
  refine ⟨sanitizeVaultGroups file known, { d with calls := d.calls + 1 }, ?_⟩
  rw [loadVaultGroups, exec_bind_of_ok (parseFileFromDisk_of_ok hraw hparse hread)]
  rfl

end

/-! ## A file that loads -/

/-- The loader accepts the file on disk. -/
def Accepts (codec : TomlCodec VaultGroupsFile) (root : VaultRoot) (d : Disk)
    (file : VaultGroupsFile) : Prop :=
  ((parseFileFromDisk noFaults codec root).exec d).1 = .ok (some file)

section
variable {codec : TomlCodec VaultGroupsFile} {root : VaultRoot} {file : VaultGroupsFile}
  {d d' : Disk}

theorem accepts_iff :
    Accepts codec root d file ↔
      ∃ raw, (d.files (vaultGroupsPath root)).bind decodeUtf8 = some raw ∧
        parseVaultGroupsTomlStr codec raw = .ok file := by
  constructor
  · intro h
    obtain ⟨m, hrun⟩ := exists_exec_eq h
    rcases parseFileFromDisk_ok hrun with ⟨hnone, -⟩ | ⟨raw, file', hsome, hraw, hparse⟩
    · cases hnone
    · cases hsome
      obtain ⟨hfromStr, hvalid⟩ := parseVaultGroups_eq_ok.mp hparse
      exact ⟨raw, hraw, parseVaultGroups_eq_ok.mpr ⟨hfromStr, validateGroups_anyPath hvalid _⟩⟩
  · rintro ⟨raw, hraw, hparse⟩
    rw [Accepts, parseFileFromDisk_of_ok hraw hparse rfl]

/-- A file that the crate wrote is accepted, if its ids and names are. -/
theorem accepts_of_toStringPretty {text : String}
    (hfile : d.files (vaultGroupsPath root) = some (utf8 text.toList))
    (htext : codec.toStringPretty file = .ok text)
    (hschema : validateSchema file VAULT_GROUPS_FILE_NAME = .ok ()) :
    Accepts codec root d file := by
  have hparse : codec.fromStr ("" ++ text) = .ok file :=
    codec.fromStr_toStringPretty file text "" htext rfl
  rw [String.empty_append] at hparse
  refine accepts_iff.mpr ⟨text, ?_, parseVaultGroups_eq_ok.mpr ⟨hparse, hschema⟩⟩
  rw [hfile, Option.bind_some, decodeUtf8_utf8]

theorem Accepts.congr (h : Accepts codec root d file) (hsame : SameAt (vaultGroupsPath root) d d') :
    Accepts codec root d' file := by
  rw [accepts_iff] at h ⊢
  rwa [show d'.files (vaultGroupsPath root) = _ from hsame]

theorem Accepts.validateSchema (h : Accepts codec root d file) :
    validateSchema file VAULT_GROUPS_FILE_NAME = .ok () := by
  obtain ⟨raw, -, hparse⟩ := accepts_iff.mp h
  exact (parseVaultGroups_eq_ok.mp hparse).2

theorem Accepts.exec_load {faults : Faults} (h : Accepts codec root d file)
    (hcall : faults d.calls = none) :
    (loadVaultGroupsForMutate faults codec root).exec d =
      (.ok (softenGroupsForMutate file.groups), { d with calls := d.calls + 1 }) := by
  obtain ⟨raw, hraw, hparse⟩ := accepts_iff.mp h
  rw [loadVaultGroupsForMutate, exec_bind_of_ok (parseFileFromDisk_of_ok hraw hparse hcall)]
  dsimp only
  rw [softenGroupsForMutate, softenGroups_map_trimHeaders]
  rfl

theorem Accepts.exec_load_of_refused {faults : Faults} (h : Accepts codec root d file)
    {error : IoError} (hcall : faults d.calls = some error) :
    (loadVaultGroupsForMutate faults codec root).exec d =
      (.error (.io error), { d with calls := d.calls + 1 }) := by
  obtain ⟨raw, hraw, -⟩ := accepts_iff.mp h
  obtain ⟨bytes, hbytes, -⟩ := Option.bind_eq_some_iff.mp hraw
  have hfile : d.isFile (vaultGroupsPath root) = true := by
    rw [Disk.isFile, hbytes]
    rfl
  have hparse : (parseFileFromDisk faults codec root).exec d =
      (.error (.io error), { d with calls := d.calls + 1 }) := by
    rw [parseFileFromDisk, exec_bind, exec_get]
    dsimp only
    rw [ensure, if_pos fun _ => hfile, pure_bind, hfile, if_neg (by simp),
      exec_bind_of_error (exec_readToString_of_refused faults hcall)]
  rw [loadVaultGroupsForMutate, exec_bind_of_error hparse]

theorem Accepts.healedGroups (h : Accepts codec root d file) :
    healedGroups codec root d = softenGroupsForMutate file.groups := by
  have hcall : noFaults d.calls = none := rfl
  exact (loadVaultGroupsForMutate_ok (h.exec_load hcall)).1.symm

theorem exec_requireUprivDir (hdir : d.isDir root.uprivDir = true) :
    (requireUprivDir root).exec d = (.ok (), d) := by
  rw [requireUprivDir, exec_bind, exec_get]
  dsimp only
  rw [ensure, if_pos hdir]
  rfl

end

end Upriv
