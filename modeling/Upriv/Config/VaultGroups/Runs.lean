import Upriv.Config.VaultGroups.Membership
import Upriv.Config.VaultGroups.Sanitize
import Upriv.Support.Runs

/-!
# Runs of the mutators

Any sequence of calls, with any arguments and from any disk.  Every call takes
the registry on disk to a registry, and changes membership only where its
arguments say.
-/

namespace Upriv

open FallibleM

/-- One call of a mutator. -/
inductive GroupsCall where
  | create (id displayName : String) (groupedVaults : List String)
      (sort direction : Option String) (hidden : Bool)
  | update (groupId : String) (params : UpdateVaultGroupParams)
  | delete (groupId : String)
  | reorder (orders : List (String × Int64))
  | reorderGroupedVaults (groupId : String) (orderedVaultIds : List String)
  | repair

namespace GroupsCall

/-- Perform the call.  Deleting a group that does not exist writes nothing;
every other success is a write. -/
def perform (env : GroupsEnv) (root : VaultRoot) : GroupsCall → FsM Bool
  | create id displayName groupedVaults sort direction hidden => do
      let _ ← createVaultGroupWithSort env root id displayName groupedVaults sort
        direction hidden
      return true
  | update groupId params => do
      let _ ← updateVaultGroup env root groupId params
      return true
  | delete groupId => do
      let removed ← deleteVaultGroup env root groupId
      return removed.isSome
  | reorder orders => do
      let _ ← reorderVaultGroups env root orders
      return true
  | reorderGroupedVaults groupId orderedVaultIds => do
      let _ ← reorderVaultGroupGroupedVaults env root groupId orderedVaultIds
      return true
  | repair => do
      repairVaultGroups env root
      return true

/-- The membership that the arguments speak about: the target group, and the
vaults that the call assigns. -/
def touches : GroupsCall → String → String → Prop
  | create id _ groupedVaults _ _ _, groupId, vaultId =>
      groupId = trim id ∨ vaultId ∈ trimVaultIds groupedVaults
  | update target params, groupId, vaultId =>
      ∃ vaultIds, params.groupedVaults = some vaultIds ∧
        (groupId = trim target ∨ vaultId ∈ trimVaultIds vaultIds)
  | delete target, groupId, _ => groupId = trim target
  | reorder _, _, _ => False
  | reorderGroupedVaults _ _, _, _ => False
  | repair, _, _ => True

end GroupsCall

section
variable (env : GroupsEnv) (root : VaultRoot)

def groupsStep (d : Disk) (call : GroupsCall) : Option Disk :=
  some ((call.perform env root).exec d).2

/-- The call returns `Ok` and has written the registry. -/
def Writes (d : Disk) (call : GroupsCall) : Prop :=
  ((call.perform env root).exec d).1 = .ok true

instance (d : Disk) (call : GroupsCall) : Decidable (Writes env root d call) :=
  inferInstanceAs (Decidable (_ = _))

/-- What one call does to the registry on disk. -/
structure RegistryStep (d : Disk) (call : GroupsCall) (d' : Disk) : Prop where
  written : Writes env root d call → RegistryOnDisk env.groupsCodec root d'
  kept : RegistryOnDisk env.groupsCodec root d → RegistryOnDisk env.groupsCodec root d'
  members : ∀ groupId vaultId, ¬ call.touches groupId vaultId →
    (MemberOf (healedGroups env.groupsCodec root d') groupId vaultId ↔
      MemberOf (healedGroups env.groupsCodec root d) groupId vaultId)

variable {env root} {d d' : Disk} {call : GroupsCall}

theorem RegistryStep.of_rewrites (h : Rewrites env root call.touches d d') :
    RegistryStep env root d call d' where
  written _ := h.registry
  kept _ := h.registry
  members := h.members

theorem RegistryStep.of_unchanged (hwrites : ¬ Writes env root d call)
    (h : SameRegistryFile root d d') : RegistryStep env root d call d' where
  written hwritten := absurd hwritten hwrites
  kept hregistry := hregistry.congr h
  members groupId vaultId _ := by rw [healedGroups_congr h]

theorem exec_bind_pure_ok {α : Type} {x : FsM α} {f : α → Bool} {wrote : Bool}
    (h : (do let a ← x; return f a : FsM Bool).exec d = (.ok wrote, d')) :
    ∃ a, x.exec d = (.ok a, d') ∧ wrote = f a := by
  obtain ⟨a, m, hx, hrest⟩ := exec_bind_eq_ok_iff.mp h
  cases hrest
  exact ⟨a, hx, rfl⟩

/-- A call that returns `Ok` wrote, or changed nothing. -/
theorem perform_ok {wrote : Bool}
    (hrun : (call.perform env root).exec d = (.ok wrote, d')) :
    Rewrites env root call.touches d d' ∨ (wrote = false ∧ SameDisk d d') := by
  cases call with
  | create id displayName groupedVaults sort direction hidden =>
      obtain ⟨reply, hcreate, _⟩ := exec_bind_pure_ok hrun
      exact .inl (createVaultGroupWithSort_ok hcreate)
  | update groupId params =>
      obtain ⟨reply, hupdate, _⟩ := exec_bind_pure_ok hrun
      exact .inl (updateVaultGroup_ok hupdate)
  | delete groupId =>
      obtain ⟨reply, hdelete, hwrote⟩ := exec_bind_pure_ok hrun
      rcases deleteVaultGroup_ok hdelete with ⟨rfl, hsame⟩ | ⟨_, hrewrites⟩
      · exact .inr ⟨hwrote, hsame⟩
      · exact .inl hrewrites
  | reorder orders =>
      obtain ⟨reply, hreorder, _⟩ := exec_bind_pure_ok hrun
      exact .inl (reorderVaultGroups_ok hreorder)
  | reorderGroupedVaults groupId orderedVaultIds =>
      obtain ⟨reply, hreorder, _⟩ := exec_bind_pure_ok hrun
      exact .inl (reorderVaultGroupGroupedVaults_ok hreorder)
  | repair =>
      obtain ⟨_, hrepair, _⟩ := exec_bind_pure_ok hrun
      exact .inl (repairVaultGroups_ok hrepair)

/-- A call that fails leaves the registry file alone. -/
theorem preservesOnError_perform :
    PreservesOnError (SameRegistryFile root) (call.perform env root) := by
  cases call with
  | create id displayName groupedVaults sort direction hidden =>
      exact preservesOnError_bind_of_succeeds
        (preservesOnError_createVaultGroupWithSort env root _ _ _ _ _ _)
        fun _ _ => ⟨true, rfl⟩
  | update groupId params =>
      exact preservesOnError_bind_of_succeeds
        (preservesOnError_updateVaultGroup env root _ _) fun _ _ => ⟨true, rfl⟩
  | delete groupId =>
      exact preservesOnError_bind_of_succeeds
        (preservesOnError_deleteVaultGroup env root _) fun _ _ => ⟨_, rfl⟩
  | reorder orders =>
      exact preservesOnError_bind_of_succeeds
        (preservesOnError_reorderVaultGroups env root _) fun _ _ => ⟨true, rfl⟩
  | reorderGroupedVaults groupId orderedVaultIds =>
      exact preservesOnError_bind_of_succeeds
        (preservesOnError_reorderVaultGroupGroupedVaults env root _ _)
        fun _ _ => ⟨true, rfl⟩
  | repair =>
      exact preservesOnError_bind_of_succeeds
        (preservesOnError_repairVaultGroups env root) fun _ _ => ⟨true, rfl⟩

theorem registryStep_of_groupsStep (hstep : groupsStep env root d call = some d') :
    RegistryStep env root d call d' := by
  have hd' : ((call.perform env root).exec d).2 = d' := Option.some.inj hstep
  rcases hrun : (call.perform env root).exec d with ⟨result, m⟩
  rw [hrun] at hd'
  cases hd'
  cases result with
  | error e =>
      refine .of_unchanged ?_ (preservesOnError_perform d e _ hrun)
      rw [Writes, hrun]
      exact nofun
  | ok wrote =>
      rcases perform_ok hrun with hrewrites | ⟨rfl, hsame⟩
      · exact .of_rewrites hrewrites
      · refine .of_unchanged ?_ (hsame.sameAt _)
        rw [Writes, hrun]
        exact nofun

/-- In a run of calls, each of them writes a registry or leaves the file, and
changes the membership only of its target and of the vaults it is given. -/
theorem groupsRun_registry {calls : List GroupsCall}
    (hrun : Run (groupsStep env root) Always d calls d') :
    Run (groupsStep env root) (RegistryStep env root) d calls d' :=
  hrun.strengthen (fun _ => True) trivial (fun _ _ _ _ _ _ => trivial)
    fun _ _ _ _ hstep _ => registryStep_of_groupsStep hstep

end

/-! ## A sample run -/

def sampleRoot : VaultRoot := ⟨"/home/user/root"⟩

def sampleGroup : VaultGroup := { id := "work", displayName := "Work", order := 1 }

/-- The group `work` with these vaults. -/
def workWith (groupedVaults : List String) : VaultGroup :=
  { sampleGroup with groupedVaults := groupedVaults }

def tripsGroup : VaultGroup :=
  { id := "trips", displayName := "Trips", order := 2, groupedVaults := ["travel"] }

def VaultGroup.asHidden (group : VaultGroup) : VaultGroup := { group with hidden := true }

def VaultGroup.asCollapsed (group : VaultGroup) : VaultGroup := { group with collapsed := true }

def workText : String :=
  "[[group]]\nid = \"work\"\ndisplay_name = \"Work\"\norder = 1\ncollapsed = false\nhidden = "

def tripsText : String :=
  workText ++ "false\ngrouped_vaults = [\"notes\"]\ngrouped_vault_sort = \"order\"\n" ++
    "grouped_vault_sort_direction = \"asc\"\n\n" ++
    "[[group]]\nid = \"trips\"\ndisplay_name = \"Trips\"\norder = 2\ncollapsed = "

/-- Both vaults in `work`, and `travel` moved to `trips`, with the flags they may have. -/
def filedTexts : List (VaultGroupsFile × String × String) :=
  [(⟨[workWith ["notes", "travel"]]⟩, workText, "false\ngrouped_vaults = [\"notes\", "),
    (⟨[(workWith ["notes", "travel"]).asHidden]⟩, workText,
      "true\ngrouped_vaults = [\"notes\", "),
    (⟨[workWith ["notes"], tripsGroup]⟩, tripsText, "false\nhidden = false\ngrouped_vaults = ["),
    (⟨[workWith ["notes"], tripsGroup.asHidden]⟩, tripsText,
      "false\nhidden = true\ngrouped_vaults = ["),
    (⟨[workWith ["notes"], tripsGroup.asHidden.asCollapsed]⟩, tripsText,
      "true\nhidden = true\ngrouped_vaults = [")]

def filedRest : String :=
  "\"travel\"]\ngrouped_vault_sort = \"order\"\ngrouped_vault_sort_direction = \"asc\"\n"

def sampleVault (id displayName : String) (hidden : Bool) : VaultConfig :=
  { vault := { id := id, displayName := displayName, hidden := hidden } }

/-- The other keys are left out. -/
def vaultText (id displayName : String) (hidden : Bool) : String × String :=
  ("[vault]\nid = \"" ++ id ++ "\"\ndisplay_name = ",
    "\"" ++ displayName ++ "\"\nhidden = " ++ toString hidden)

def vaultTexts : List (VaultConfig × String × String) :=
  [(sampleVault "notes" "Notes" false, vaultText "notes" "Notes" false),
    (sampleVault "notes" "Notes" true, vaultText "notes" "Notes" true),
    (sampleVault "travel" "Travel" false, vaultText "travel" "Travel" false),
    (sampleVault "travel" "Travel" true, vaultText "travel" "Travel" true)]

theorem vaultTexts_suffix :
    ∀ p ∈ vaultTexts.map (withRest "\n"), ∀ q ∈ vaultTexts.map (withRest "\n"),
      p.2.toList <:+ q.2.toList → p = q :=
  eq_of_suffix_withRest (by decide +kernel)

def filedEnv (faults : Faults) : GroupsEnv where
  faults := faults
  groupsCodec := .ofTable (filedTexts.map (withRest filedRest))
    (eq_of_suffix_withRest (by decide +kernel))
  configCodec := .ofTable _ vaultTexts_suffix
  canonicalize _ := none
  filenameStamp _ := "2026-01-01-00-00-00"

/-- A disk with this registry file; `travel` is visible or hidden, `notes` is visible. -/
def filedDisk (registry : String × String) (hidden : Bool) : Disk where
  files path :=
    if path = "/home/user/root/.upriv/vault_groups.toml" then
      some (utf8 (registry.1 ++ registry.2 ++ filedRest).toList)
    else if path = "/home/user/root/.upriv/vaults/notes/config.toml" then
      some (utf8 (withRest "\n" (sampleVault "notes" "Notes" false,
        vaultText "notes" "Notes" false)).2.toList)
    else if path = "/home/user/root/.upriv/vaults/travel/config.toml" then
      some (utf8 (withRest "\n" (sampleVault "travel" "Travel" hidden,
        vaultText "travel" "Travel" hidden)).2.toList)
    else none
  dirs := {"/home/user/root/.upriv", "/home/user/root/.upriv/vaults/notes",
    "/home/user/root/.upriv/vaults/travel"}
  calls := 0

/-- The file of a disk loads if its text is one of those of the codec. -/
theorem accepts_filedDisk {file : VaultGroupsFile} {registry : String × String} {hidden : Bool}
    (faults : Faults)
    (htext : (filedEnv faults).groupsCodec.toStringPretty file =
      .ok (registry.1 ++ registry.2 ++ filedRest))
    (hschema : validateSchema file VAULT_GROUPS_FILE_NAME = .ok ()) :
    Accepts (filedEnv faults).groupsCodec sampleRoot (filedDisk registry hidden) file := by
  have hpath : vaultGroupsPath sampleRoot = "/home/user/root/.upriv/vault_groups.toml" := by
    decide +kernel
  refine accepts_of_toStringPretty ?_ htext hschema
  rw [hpath, filedDisk]
  dsimp only
  rw [if_pos rfl]

/-- Both vaults are visible in `work`. -/
def allAtWork : Disk := filedDisk (workText, "false\ngrouped_vaults = [\"notes\", ") false

theorem accepts_allAtWork (faults : Faults) :
    Accepts (filedEnv faults).groupsCodec sampleRoot allAtWork
      ⟨[workWith ["notes", "travel"]]⟩ :=
  accepts_filedDisk faults rfl (by decide +kernel)

theorem healed_workWith :
    softenGroupsForMutate [workWith ["notes", "travel"]] = [workWith ["notes", "travel"]] := by
  decide +kernel

/-- `travel` is taken from `work`. -/
theorem exec_createTrips (hidden : Bool) :
    ∃ reply d', (createVaultGroupWithSort (filedEnv noFaults) sampleRoot " trips" "Trips"
      ["travel"] none none hidden).exec allAtWork = (.ok reply, d') := by
  have hdir : allAtWork.isDir sampleRoot.uprivDir = true := by decide +kernel
  have hok : ((createVaultGroupWithSort (filedEnv noFaults) sampleRoot " trips" "Trips"
      ["travel"] none none hidden).exec allAtWork).1.isOk = true := by
    rw [createVaultGroupWithSort_eq, exec_bind_of_ok (exec_requireUprivDir hdir),
      FallibleM.ensure, if_pos (by decide +kernel), pure_bind, FallibleM.ensure,
      if_pos (by decide +kernel), pure_bind,
      exec_bind_of_ok ((accepts_allAtWork noFaults).exec_load rfl), healed_workWith]
    cases hidden
    · decide +kernel
    · decide +kernel
  rcases hrun : (createVaultGroupWithSort (filedEnv noFaults) sampleRoot " trips" "Trips"
      ["travel"] none none hidden).exec allAtWork with ⟨error | reply, d'⟩
  · rw [hrun] at hok
    cases hok
  · exact ⟨reply, d', rfl⟩

def createTrips : GroupsCall := .create " trips" "Trips" ["travel"] none none false

theorem groupsRun_registry_sample :
    ∃ d, Run (groupsStep (filedEnv noFaults) sampleRoot)
        (RegistryStep (filedEnv noFaults) sampleRoot) allAtWork [createTrips] d ∧
      Writes (filedEnv noFaults) sampleRoot allAtWork createTrips ∧
      MemberOf (healedGroups (filedEnv noFaults).groupsCodec sampleRoot allAtWork) "work"
        "travel" ∧
      MemberOf (healedGroups (filedEnv noFaults).groupsCodec sampleRoot d) "trips" "travel" := by
  obtain ⟨reply, d', hrun⟩ := exec_createTrips false
  have hperform : (createTrips.perform (filedEnv noFaults) sampleRoot).exec allAtWork =
      (.ok true, d') := by
    rw [createTrips, GroupsCall.perform, exec_bind_of_ok hrun]
    rfl
  have hstep : groupsStep (filedEnv noFaults) sampleRoot allAtWork createTrips = some d' := by
    rw [groupsStep, hperform]
  refine ⟨d', groupsRun_registry (.tail (.refl _) hstep trivial), congrArg Prod.fst hperform, ?_,
    ?_⟩
  · rw [(accepts_allAtWork noFaults).healedGroups, healed_workWith]
    exact ⟨_, List.mem_singleton_self _, rfl, by simp [workWith]⟩
  · obtain ⟨group, m, hid, -, hvaults, hgroup, hsettled, -, hhide⟩ :=
      createVaultGroupWithSort_saves hrun
    obtain ⟨_, _, _, _, hsave⟩ := hideAndSave_ok hhide
    rw [(saveVaultGroups_ok
      (settled_append_singleton (settled_map_removeVaults hsettled _) hgroup) hsave).2,
      memberOf_append_singleton]
    refine .inr ⟨?_, ?_⟩
    · rw [hid]
      decide +kernel
    · rw [hvaults]
      decide +kernel

end Upriv
