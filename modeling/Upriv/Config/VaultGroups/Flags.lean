import Upriv.Config.VaultGroups.Accepted

/-!
# Which vaults are hidden after a mutation

After a create or an update the vaults of the group have the flags that the
group calls for, and all others the flags they had.  A vault counts here if its
directory has a name that is a vault id: others are never looked up.
-/

namespace Upriv

open FallibleM

/-- The flag of a vault, if it loads. -/
def hiddenOn (codec : TomlCodec VaultConfig) (d : Disk) (dir : PathBuf) : Option Bool :=
  (loadedOn codec d dir).map (·.vault.hidden)

section
variable (env : GroupsEnv) (root : VaultRoot) (d d' : Disk)

/-- Those of the vaults that exist have this flag at `d'`. -/
def HaveFlag (vaultIds : List String) (hidden : Bool) : Prop :=
  ∀ vaultId ∈ vaultIds, ∀ dir, root.vaultDir vaultId = .ok dir → d.isDir dir = true →
    hiddenOn env.configCodec d' dir = some hidden

/-- All other vaults have the flag they had. -/
def OtherFlagsKept (concerned : String → Prop) : Prop :=
  ∀ dir, IsPlain dir → (∀ vaultId, concerned vaultId → root.vaultDir vaultId ≠ .ok dir) →
    hiddenOn env.configCodec d' dir = hiddenOn env.configCodec d dir

/-- After a create, every member has the flag of the group. -/
structure CreatedFlags (after : VaultGroup) : Prop where
  members : HaveFlag env root d d' after.groupedVaults after.hidden
  others : OtherFlagsKept env root d d' (· ∈ after.groupedVaults)

/-- The vaults that an update of a group concerns. -/
def UpdateConcerns (before after : VaultGroup) (vaultId : String) : Prop :=
  (after.hidden = true ∧ vaultId ∈ after.groupedVaults) ∨
    (after.hidden ≠ before.hidden ∧
      (vaultId ∈ before.groupedVaults ∨ vaultId ∈ after.groupedVaults)) ∨
    (after.hidden = false ∧ before.hidden = false ∧ vaultId ∈ after.groupedVaults ∧
      vaultId ∉ before.groupedVaults)

/-- After an update that takes a group from `before` to `after`. -/
structure UpdatedFlags (before after : VaultGroup) : Prop where
  hidden : after.hidden = true → HaveFlag env root d d' after.groupedVaults true
  becameHidden : after.hidden = true → before.hidden = false →
    HaveFlag env root d d' before.groupedVaults true
  becameVisible : after.hidden = false → before.hidden = true →
    HaveFlag env root d d' (before.groupedVaults ++ after.groupedVaults) false
  stayedVisible : after.hidden = false → before.hidden = false →
    HaveFlag env root d d' (after.groupedVaults.filter (· ∉ before.groupedVaults)) false
  others : OtherFlagsKept env root d d' (UpdateConcerns before after)

end

/-! ## The vaults of one cascade -/

theorem mem_cascadeIds {before after : VaultGroup} {vaultId : String} :
    vaultId ∈ cascadeIds before.hidden after.hidden before.groupedVaults after.groupedVaults ↔
      UpdateConcerns before after vaultId := by
  unfold cascadeIds UpdateConcerns
  cases after.hidden <;> cases before.hidden <;>
    simp +contextual [uniqueVaultIds, mem_firstOccurrences]

section
variable {env : GroupsEnv} {root : VaultRoot} {vaultIds : List String} {hidden : Bool}
  {groups : List VaultGroup} {d m d' : Disk}

theorem hideAndSave_haveFlag (hsame : SameDisk d m)
    (h : (hideAndSave env root vaultIds hidden groups).exec m = (.ok (), d')) :
    HaveFlag env root d d' vaultIds hidden := by
  obtain ⟨_, m', hplanned, hset, hsave⟩ := hideAndSave_ok h
  have hcascaded := hplanned.cascaded hset
  intro vaultId hvault dir hdir hexists
  have hmem : dir ∈ cascadeDirs root m vaultIds := by
    rw [cascadeDirs_congr hsame.2]
    exact mem_cascadeDirs.mpr ⟨vaultId, hvault, hdir, hexists⟩
  obtain ⟨config, -, hafter⟩ := hcascaded.loaded dir hmem
  rw [hiddenOn, loadedOn_saveVaultGroups hsave, hafter, Option.map_some,
    VaultConfig.hidden_withHidden]

theorem hideAndSave_otherFlags (hsame : SameDisk d m)
    (h : (hideAndSave env root vaultIds hidden groups).exec m = (.ok (), d')) :
    OtherFlagsKept env root d d' (· ∈ vaultIds) := by
  obtain ⟨_, m', hplanned, hset, hsave⟩ := hideAndSave_ok h
  have hcascaded := hplanned.cascaded hset
  intro dir hplain hother
  have hnot : dir ∉ cascadeDirs root m vaultIds := by
    intro hmem
    obtain ⟨vaultId, hvault, hdir, -⟩ := mem_cascadeDirs.mp hmem
    exact hother vaultId hvault hdir
  rw [hiddenOn, hiddenOn, loadedOn_saveVaultGroups hsave,
    hcascaded.loadedOn_of_notMem (fun _ => isPlain_of_mem_cascadeDirs) hplain hnot,
    hsame.loadedOn]

/-- The flags after the cascade of an update. -/
theorem updatedFlags_of_hideAndSave {before after : VaultGroup} (hsame : SameDisk d m)
    (h : (hideAndSave env root (cascadeIds before.hidden after.hidden before.groupedVaults
      after.groupedVaults) after.hidden groups).exec m = (.ok (), d')) :
    UpdatedFlags env root d d' before after := by
  have hflags {vaultIds : List String} {hidden : Bool} (hafter : after.hidden = hidden)
      (hconcerned : ∀ vaultId ∈ vaultIds, UpdateConcerns before after vaultId) :
      HaveFlag env root d d' vaultIds hidden := by
    subst hafter
    intro vaultId hvault
    exact hideAndSave_haveFlag hsame h vaultId (mem_cascadeIds.mpr (hconcerned vaultId hvault))
  have hchanged (hne : after.hidden ≠ before.hidden) (vaultId : String)
      (hvault : vaultId ∈ before.groupedVaults ∨ vaultId ∈ after.groupedVaults) :
      UpdateConcerns before after vaultId := .inr (.inl ⟨hne, hvault⟩)
  constructor
  · intro hafter
    exact hflags hafter fun vaultId hvault => .inl ⟨hafter, hvault⟩
  · intro hafter hbefore
    exact hflags hafter fun vaultId hvault =>
      hchanged (by rw [hafter, hbefore]; decide) vaultId (.inl hvault)
  · intro hafter hbefore
    exact hflags hafter fun vaultId hvault =>
      hchanged (by rw [hafter, hbefore]; decide) vaultId (List.mem_append.mp hvault)
  · intro hafter hbefore
    refine hflags hafter fun vaultId hvault => .inr (.inr ⟨hafter, hbefore, ?_⟩)
    obtain ⟨hmem, hnew⟩ := List.mem_filter.mp hvault
    exact ⟨hmem, by simpa using hnew⟩
  · intro dir hplain hother
    refine hideAndSave_otherFlags hsame h dir hplain fun vaultId hvault => ?_
    exact hother vaultId (mem_cascadeIds.mp hvault)

/-- The flags of the vaults after a successful create or update, in terms of the
group on disk before and after it. -/
theorem hiddenCascade_exact :
    (∀ id displayName groupedVaults sort direction hidden reply,
      (createVaultGroupWithSort env root id displayName groupedVaults sort direction
        hidden).exec d = (.ok reply, d') →
      ∃ after ∈ healedGroups env.groupsCodec root d', after.id = trim id ∧
        after.hidden = hidden ∧ after.groupedVaults = trimVaultIds groupedVaults ∧
        CreatedFlags env root d d' after) ∧
    (∀ groupId params reply,
      (updateVaultGroup env root groupId params).exec d = (.ok reply, d') →
      ∃ before ∈ healedGroups env.groupsCodec root d,
        ∃ after ∈ healedGroups env.groupsCodec root d',
          before.id = trim groupId ∧ after.id = trim groupId ∧
          UpdatedFlags env root d d' before after) := by
  constructor
  · intro id displayName groupedVaults sort direction hidden reply hrun
    obtain ⟨group, m, hid, hflag, hvaults, hgroup, hsettled, hsame, hhide⟩ :=
      createVaultGroupWithSort_saves hrun
    obtain ⟨_, m', _, _, hsave⟩ := hideAndSave_ok hhide
    have hhealed := (saveVaultGroups_ok
      (settled_append_singleton (settled_map_removeVaults hsettled _) hgroup) hsave).2
    refine ⟨group, ?_, hid, hflag, hvaults, ?_, ?_⟩
    · rw [hhealed]
      exact List.mem_append_right _ (List.mem_singleton_self group)
    · rw [hvaults, hflag]
      exact hideAndSave_haveFlag hsame hhide
    · rw [hvaults]
      exact hideAndSave_otherFlags hsame hhide
  · intro groupId params reply hrun
    obtain ⟨idx, before, headers, m, hidx, hid, hheaders, hhealed, hsettled, hsame, hhide⟩ :=
      updateVaultGroup_saves hrun
    obtain ⟨_, m', _, _, hsave⟩ := hideAndSave_ok hhide
    have hbefore := List.mem_of_getElem? hidx
    obtain ⟨_, hheadersId⟩ := updateHeaders_ok hheaders (hhealed before hbefore)
    refine ⟨before, hbefore, params.updated before headers, ?_, hid, hheadersId.trans hid,
      updatedFlags_of_hideAndSave hsame hhide⟩
    rw [(saveVaultGroups_ok hsettled hsave).2]
    refine List.mem_of_getElem? (i := idx) (List.getElem?_set_self ?_)
    rw [List.length_map]
    exact (List.getElem?_eq_some_iff.mp hidx).1

end

/-! ## A sample create and a sample update -/

/-- A folder that was named by hand is listed as a member. -/
def handEditedGroup (hidden : Bool) : VaultGroup :=
  { id := "work", displayName := "Work", hidden := hidden, groupedVaults := ["My Vault", "notes"] }

/-- Before the first write; the other keys are left out. -/
def handEditedText : String × String :=
  ("[[group]]\nid = \"work\"\ndisplay_name = \"Work\"\ngrouped_vaults = [\"My Vault\", ",
    "\"notes\"]")

def handEditedHiddenText : String × String :=
  ("[[group]]\nid = \"work\"\ndisplay_name = \"Work\"\norder = 0\ncollapsed = false\n" ++
    "hidden = true\ngrouped_vaults = [\"My Vault\", \"notes\"]\n" ++
    "grouped_vault_sort = \"order\"\ngrouped_vault_sort_direction = ", "\"asc\"")

def myVaultConfigText : String := "[vault]\nid = \"My Vault\"\ndisplay_name = \"Mine\"\n"

def notesHiddenText : String :=
  "[vault]\nid = \"notes\"\ndisplay_name = \"Notes\"\nhidden = true\n"

def handEditedEnv : GroupsEnv where
  faults := noFaults
  groupsCodec := .ofTable
    ([(⟨[handEditedGroup false]⟩, handEditedText),
      (⟨[handEditedGroup true]⟩, handEditedHiddenText)].map (withRest "\n"))
    (eq_of_suffix_withRest (by decide +kernel))
  configCodec := .reader fun raw =>
    if raw = myVaultConfigText then .ok { vault := { id := "My Vault", displayName := "Mine" } }
    else if raw = notesHiddenText then
      .ok { vault := { id := "notes", displayName := "Notes", hidden := true } }
    else .error "unsupported text"
  canonicalize _ := none
  filenameStamp _ := "2026-01-01-00-00-00"

def handEditedDisk : Disk where
  files path :=
    if path = "/home/user/root/.upriv/vault_groups.toml" then
      some (utf8 (handEditedText.1 ++ handEditedText.2 ++ "\n").toList)
    else if path = "/home/user/root/.upriv/vaults/My Vault/config.toml" then
      some (utf8 myVaultConfigText.toList)
    else if path = "/home/user/root/.upriv/vaults/notes/config.toml" then
      some (utf8 notesHiddenText.toList)
    else none
  dirs := {"/home/user/root/.upriv", "/home/user/root/.upriv/vaults/My Vault",
    "/home/user/root/.upriv/vaults/notes"}
  calls := 0

def hideHandEdited : FsM VaultGroupUpdate :=
  updateVaultGroup handEditedEnv sampleRoot "work" { hidden := some true }

theorem accepts_handEditedDisk :
    Accepts handEditedEnv.groupsCodec sampleRoot handEditedDisk ⟨[handEditedGroup false]⟩ := by
  have hpath : vaultGroupsPath sampleRoot = "/home/user/root/.upriv/vault_groups.toml" := by
    decide +kernel
  have hfile : handEditedDisk.files (vaultGroupsPath sampleRoot) =
      some (utf8 (handEditedText.1 ++ handEditedText.2 ++ "\n").toList) := by
    rw [hpath, handEditedDisk]
    dsimp only
    rw [if_pos rfl]
  exact accepts_of_toStringPretty hfile rfl (by decide +kernel)

/-- From the point where the group is found. -/
def hideFound : Result VaultGroupUpdate × Disk :=
  (updateFound handEditedEnv sampleRoot { hidden := some true } [handEditedGroup false] 0
    (handEditedGroup false)).exec { handEditedDisk with calls := 1 }

theorem exec_hideHandEdited_eq : hideHandEdited.exec handEditedDisk = hideFound := by
  have hdir : handEditedDisk.isDir sampleRoot.uprivDir = true := by decide +kernel
  have hhealed : softenGroupsForMutate [handEditedGroup false] = [handEditedGroup false] := by
    decide +kernel
  have hfind : findGroup [handEditedGroup false] "work" = some (0, handEditedGroup false) := by
    decide +kernel
  rw [hideHandEdited, updateVaultGroup_eq, exec_bind_of_ok (exec_requireUprivDir hdir),
    exec_bind_of_ok (accepts_handEditedDisk.exec_load rfl), hhealed, hfind]
  rfl

theorem exec_hideHandEdited :
    ∃ reply d', hideHandEdited.exec handEditedDisk = (.ok reply, d') ∧
      reply.group = handEditedGroup true ∧
      hiddenOn handEditedEnv.configCodec d' "/home/user/root/.upriv/vaults/My Vault" =
        some false := by
  have hfound : (hideFound.1.toOption.map (·.group),
      hiddenOn handEditedEnv.configCodec hideFound.2 "/home/user/root/.upriv/vaults/My Vault") =
      (some (handEditedGroup true), some false) := by
    decide +kernel
  obtain ⟨hrun, hflag⟩ := Prod.mk.inj hfound
  rw [exec_hideHandEdited_eq]
  obtain ⟨reply, hreply, hgroup⟩ := Option.map_eq_some_iff.mp hrun
  rcases hexec : hideFound with ⟨error | found, d'⟩
  · rw [hexec] at hreply
    cases hreply
  · rw [hexec] at hreply hflag
    cases hreply
    exact ⟨reply, d', rfl, hgroup, hflag⟩

/-- `travel` was visible before it came into a hidden group. -/
theorem hiddenCascade_exact_trips :
    (∃ d', ∃ after ∈ healedGroups (filedEnv noFaults).groupsCodec sampleRoot d',
      CreatedFlags (filedEnv noFaults) sampleRoot allAtWork d' after ∧
      hiddenOn (filedEnv noFaults).configCodec allAtWork
        "/home/user/root/.upriv/vaults/travel" = some false ∧
      hiddenOn (filedEnv noFaults).configCodec d' "/home/user/root/.upriv/vaults/travel" =
        some true) ∧
    (∃ d', ∃ before ∈ healedGroups handEditedEnv.groupsCodec sampleRoot handEditedDisk,
      ∃ after ∈ healedGroups handEditedEnv.groupsCodec sampleRoot d',
        UpdatedFlags handEditedEnv sampleRoot handEditedDisk d' before after) := by
  constructor
  · obtain ⟨reply, d', hexec⟩ := exec_createTrips true
    obtain ⟨after, hafter, -, hhidden, hvaults, hflags⟩ :=
      hiddenCascade_exact.1 " trips" "Trips" ["travel"] none none true reply hexec
    have hmember : "travel" ∈ after.groupedVaults := by
      rw [hvaults]
      decide +kernel
    refine ⟨d', after, hafter, hflags, by decide +kernel, ?_⟩
    rw [hflags.members "travel" hmember _ (by decide +kernel) (by decide +kernel), hhidden]
  · obtain ⟨reply, d', hexec, -, -⟩ := exec_hideHandEdited
    obtain ⟨before, hbefore, after, hafter, -, -, hflags⟩ :=
      hiddenCascade_exact.2 "work" { hidden := some true } reply hexec
    exact ⟨d', before, hbefore, after, hafter, hflags⟩

/-- The group is hidden now, and a folder that it lists is not. -/
theorem hiddenCascade_myVault_visible :
    ∃ reply d', hideHandEdited.exec handEditedDisk = (.ok reply, d') ∧
      reply.group.hidden = true ∧ "My Vault" ∈ reply.group.groupedVaults ∧
      handEditedDisk.isDir "/home/user/root/.upriv/vaults/My Vault" = true ∧
      hiddenOn handEditedEnv.configCodec d' "/home/user/root/.upriv/vaults/My Vault" =
        some false := by
  obtain ⟨reply, d', hexec, hgroup, hflag⟩ := exec_hideHandEdited
  refine ⟨reply, d', hexec, ?_, ?_, by decide +kernel, hflag⟩
  · rw [hgroup]
    rfl
  · rw [hgroup]
    simp [handEditedGroup]

end Upriv
