import Upriv.Config.VaultGroups.Runs

/-!
# A failed mutation leaves no trace

What a failed create or update has set is taken back, the last vault first.
Each step brings one vault back to the configuration it had, and the steps
succeed if nothing stands in the way of the writes.
-/

namespace Upriv

open FallibleM

/-! ## Taking back -/

section
variable {env : GroupsEnv} {root : VaultRoot} {hidden : Bool} {d m d' : Disk}
  {entry : VaultHiddenRevert root} {rest : List (VaultHiddenRevert root)} {e : UprivError}

/-- Every vault loads as at `d`, except those that are still to be taken back. -/
structure PartlyRestored (env : GroupsEnv) {root : VaultRoot} (hidden : Bool)
    (rest : List (VaultHiddenRevert root)) (d m : Disk) : Prop where
  loads : ∀ dir, IsPlain dir → loadedOn env.configCodec m dir = loadedOn env.configCodec d dir ∨
    dir ∈ rest.map (·.dir) ∧ ∃ config, loadedOn env.configCodec d dir = some config ∧
      loadedOn env.configCodec m dir = some (config.withHidden hidden)
  dirs : m.dirs = d.dirs

/-- What taking a vault back relies on: its flag at `d` is known, and the
configuration it had can be written. -/
structure Restorable (env : GroupsEnv) (d : Disk) (entry : VaultHiddenRevert root) : Prop where
  loaded : ∃ config, loadedOn env.configCodec d entry.dir = some config ∧
    config.vault.hidden = entry.previous ∧ env.configCodec.Serializes config.written
  isDir : d.isDir entry.dir = true

theorem PartlyRestored.of_cascaded {applied : List (VaultHiddenRevert root)}
    (h : Cascaded env.configCodec (applied.map (·.dir)) hidden d m) :
    PartlyRestored env hidden applied d m where
  loads dir hdir := by
    by_cases hmem : dir ∈ applied.map (·.dir)
    · exact .inr ⟨hmem, h.loaded dir hmem⟩
    · exact .inl (h.loadedOn_of_notMem (isPlain_of_mem_planned applied) hdir hmem)
  dirs := h.dirs

theorem PartlyRestored.of_sameDisk (h : PartlyRestored env hidden rest d m)
    (hsame : SameDisk m d') : PartlyRestored env hidden rest d d' where
  loads dir hdir := by
    rw [hsame.loadedOn]
    exact h.loads dir hdir
  dirs := hsame.2.trans h.dirs

theorem PartlyRestored.mono {rest' : List (VaultHiddenRevert root)}
    (h : PartlyRestored env hidden rest d m) (hsubset : ∀ entry ∈ rest, entry ∈ rest') :
    PartlyRestored env hidden rest' d m where
  loads dir hdir := by
    refine (h.loads dir hdir).imp_right fun ⟨hmem, hconfig⟩ => ⟨?_, hconfig⟩
    obtain ⟨entry, hentry, rfl⟩ := List.mem_map.mp hmem
    exact List.mem_map_of_mem (hsubset entry hentry)
  dirs := h.dirs

/-- The configuration that is found, and set back to the flag it had. -/
theorem PartlyRestored.found (h : PartlyRestored env hidden rest d m)
    (hentry : Restorable env d entry) :
    ∃ config found, loadedOn env.configCodec d entry.dir = some config ∧
      env.configCodec.Serializes config.written ∧
      loadedOn env.configCodec m entry.dir = some found ∧
      found.withHidden entry.previous = config := by
  obtain ⟨config, hload, hprevious, hserializes⟩ := hentry.loaded
  rcases h.loads entry.dir entry.isPlain with hsame | ⟨_, other, hother, hset⟩
  · refine ⟨config, config, hload, hserializes, hsame.trans hload, ?_⟩
    rw [← hprevious, config.withHidden_self]
  · rw [hload, Option.some.injEq] at hother
    subst hother
    refine ⟨config, _, hload, hserializes, hset, ?_⟩
    rw [VaultConfig.withHidden_withHidden, ← hprevious, config.withHidden_self]

/-- One step of taking back. -/
theorem PartlyRestored.step (h : PartlyRestored env hidden (entry :: rest) d m)
    (hentry : Restorable env d entry)
    (hset : SetsHidden env.configCodec entry.dir entry.previous m d') :
    PartlyRestored env hidden rest d d' where
  loads dir hdir := by
    by_cases hsame : dir = entry.dir
    · subst hsame
      obtain ⟨config, found, hload, -, hfound, hback⟩ := h.found hentry
      obtain ⟨found', hfound', hafter⟩ := hset.loaded
      rw [hfound, Option.some.injEq] at hfound'
      subst hfound'
      rw [hafter, hback, hload]
      exact .inl rfl
    · rw [hset.loadedOn_of_ne entry.isPlain hdir hsame]
      refine (h.loads dir hdir).imp_right fun ⟨hmem, hconfig⟩ => ⟨?_, hconfig⟩
      rw [List.map_cons, List.mem_cons] at hmem
      exact hmem.resolve_left hsame
  dirs := hset.dirs.trans h.dirs

/-- The body of the loop. -/
def takeBack (env : GroupsEnv) (entry : VaultHiddenRevert root) : FsM PUnit := do
  let _ ← FallibleM.attempt
    (setVaultHidden env.faults env.configCodec entry.dir entry.previous)

theorem callsGrow_forM_takeBack (entries : List (VaultHiddenRevert root)) :
    Preserves CallsGrow (forM entries (takeBack env)) :=
  preserves_forM fun _ =>
    preserves_bind (preserves_attempt (callsGrow_setVaultHidden _ _)) fun _ => preserves_pure _

/-- When no system call is refused meanwhile, everything is taken back. -/
theorem revert_restores {entries : List (VaultHiddenRevert root)}
    (h : PartlyRestored env hidden entries d m)
    (hentries : ∀ entry ∈ entries, Restorable env d entry)
    (hrun : exec (forM entries (takeBack env)) m = (.ok ⟨⟩, d'))
    (hcalls : ∀ n, m.calls ≤ n → n < d'.calls → env.faults n = none) :
    PartlyRestored env hidden ([] : List (VaultHiddenRevert root)) d d' := by
  induction entries generalizing m with
  | nil =>
      cases hrun
      exact h
  | cons entry entries ih =>
      obtain ⟨hentry, hrest⟩ := List.forall_mem_cons.mp hentries
      rw [List.forM_cons, takeBack, bind_assoc, exec_attempt_bind, pure_bind] at hrun
      obtain ⟨m', hset⟩ : ∃ m', ((setVaultHidden env.faults env.configCodec entry.dir
          entry.previous).exec m).2 = m' := ⟨_, rfl⟩
      rw [hset] at hrun
      have hbefore : CallsGrow m m' := hset ▸ callsGrow_setVaultHidden entry.dir entry.previous m
      have hafter : CallsGrow m' d' := (callsGrow_forM_takeBack entries).exec_eq hrun
      rcases hresult : (setVaultHidden env.faults env.configCodec entry.dir entry.previous).exec m
        with ⟨error | changed, m₁⟩
      · -- It cannot fail: the vault loads, and can be written back.
        rw [hresult] at hset
        subst hset
        obtain ⟨config, found, -, hserializes, hfound, hback⟩ := h.found hentry
        rcases setVaultHidden_error entry.isPlain hfound hresult with
          ⟨n, error, hge, hlt, hfault, -⟩ | ⟨hnot | hmissing, -⟩
        · rw [hcalls n hge (hlt.trans_le hafter)] at hfault
          cases hfault
        · exact absurd (hback ▸ hserializes) hnot
        · rw [Disk.isDir, h.dirs, ← Disk.isDir, hentry.isDir] at hmissing
          cases hmissing
      · rw [hresult] at hset
        subst hset
        refine ih (h.step hentry (setVaultHidden_ok hresult).1) hrest hrun ?_
        exact fun n hge hlt => hcalls n (hbefore.trans hge) hlt

end

/-! ## Failing and taking back -/

/-- Nothing hinders taking back: every configuration can be written, and no system
call is refused but one that the error tells of, with none after it. -/
structure Unhindered (env : GroupsEnv) (d d' : Disk) (e : UprivError) : Prop where
  serializes : ∀ dir config, IsPlain dir → loadedOn env.configCodec d dir = some config →
    env.configCodec.Serializes config.written
  refused : ∀ n error, d.calls ≤ n → n < d'.calls → env.faults n = some error →
    e = .io error ∧ ∀ k, n < k → k < d'.calls → env.faults k = none

/-- Every vault loads as before, with the flag it had. -/
def SameConfigs (env : GroupsEnv) (d d' : Disk) : Prop :=
  ∀ dir, IsPlain dir → loadedOn env.configCodec d' dir = loadedOn env.configCodec d dir

/-- A failure that is not hindered in taking back leaves every vault as it was. -/
def AllOrNothing (env : GroupsEnv) {α : Type} (x : FsM α) : Prop :=
  ∀ d e d', x.exec d = (.error e, d') → Unhindered env d d' e → SameConfigs env d d'

section
variable {env : GroupsEnv} {root : VaultRoot} {d m d' : Disk} {e : UprivError} {α β : Type}

theorem SameConfigs.of_sameDisk (h : SameDisk d d') : SameConfigs env d d' :=
  fun dir _ => h.loadedOn dir

theorem allOrNothing_of_preservesOnError {x : FsM α} (h : PreservesOnError SameDisk x) :
    AllOrNothing env x :=
  fun d e d' hrun _ => .of_sameDisk (h d e d' hrun)

/-- What only reads may come first. -/
theorem allOrNothing_bind {x : FsM α} {f : α → FsM β} (hsame : Preserves SameDisk x)
    (hcalls : Preserves CallsGrow x) (hf : ∀ a, AllOrNothing env (f a)) :
    AllOrNothing env (x >>= f) := by
  intro d e d' hrun hunhindered
  rw [exec_bind] at hrun
  split at hrun
  · rename_i a m hfirst
    have hread : SameDisk d m := hsame.exec_eq hfirst
    have hgrow : CallsGrow d m := hcalls.exec_eq hfirst
    have hrest : SameConfigs env m d' := by
      refine hf a m e d' hrun ⟨fun dir config hdir hload => ?_, fun n error hge => ?_⟩
      · exact hunhindered.serializes dir config hdir (by rw [← hload, hread.loadedOn])
      · exact hunhindered.refused n error (hgrow.trans hge)
    intro dir hdir
    rw [hrest dir hdir, hread.loadedOn]
  · rename_i error m hfirst
    cases hrun
    exact .of_sameDisk (hsame.exec_eq hfirst)

theorem allOrNothing_bind_of_succeeds {x : FsM α} {f : α → FsM β} (hx : AllOrNothing env x)
    (hf : ∀ a s, ∃ b, (exec (f a) s).1 = .ok b) : AllOrNothing env (x >>= f) := by
  intro d e d' hrun hunhindered
  rw [exec_bind] at hrun
  split at hrun
  · rename_i a m hfirst
    obtain ⟨b, hb⟩ := hf a m
    rw [hrun] at hb
    cases hb
  · rename_i error m hfirst
    cases hrun
    exact hx d _ _ hfirst hunhindered

theorem allOrNothing_hideAndSave (vaultIds : List String) (hidden : Bool)
    (groups : List VaultGroup) :
    AllOrNothing env (hideAndSave env root vaultIds hidden groups) := by
  intro d e d' hrun hunhindered
  rcases hideAndSave_error hrun with hsame | ⟨applied, m, m', hentries, hset, hsame, hcalls,
    hreason, hrevert⟩
  · exact .of_sameDisk hsame
  have hrestorable : ∀ entry ∈ applied.reverse, Restorable env d entry := by
    intro entry hentry
    obtain ⟨hmem, config, hload, hprevious⟩ := hentries entry (List.mem_reverse.mp hentry)
    obtain ⟨_, _, _, hdir⟩ := mem_cascadeDirs.mp hmem
    exact ⟨⟨config, hload, hprevious, hunhindered.serializes _ _ entry.isPlain hload⟩, hdir⟩
  have hgrow : CallsGrow m' d' := (callsGrow_forM_takeBack applied.reverse).exec_eq hrevert
  have hquiet : ∀ n, m'.calls ≤ n → n < d'.calls → env.faults n = none := by
    intro n hge hlt
    rcases hreason with ⟨k, error, hk, hk', hfault, -⟩ | hother
    · exact (hunhindered.refused k error hk (hk'.trans_le hgrow) hfault).2 n (hk'.trans_le hge) hlt
    · by_contra hne
      obtain ⟨error, hfault⟩ := Option.ne_none_iff_exists'.mp hne
      exact hother error (hunhindered.refused n error (hcalls.trans hge) hlt hfault).1
  have hstart : PartlyRestored env hidden applied.reverse d m' :=
    ((PartlyRestored.of_cascaded hset).of_sameDisk hsame).mono fun entry => List.mem_reverse.mpr
  have hend := revert_restores hstart hrestorable hrevert hquiet
  intro dir hdir
  refine (hend.loads dir hdir).resolve_right ?_
  simp

/-! ## The mutators -/

theorem callsGrow_requireUprivDir : Preserves CallsGrow (requireUprivDir root) :=
  preserves_bind preserves_get fun _ => preserves_ensure _ _

theorem callsGrow_loadVaultGroupsForMutate :
    Preserves CallsGrow (loadVaultGroupsForMutate env.faults env.groupsCodec root) := by
  refine preserves_bind ?_ fun parsed => ?_
  · refine preserves_bind preserves_get fun d => ?_
    refine preserves_bind (preserves_ensure _ _) fun _ => ?_
    split
    · exact preserves_pure _
    · refine preserves_bind (callsGrow_readToString _ _) fun raw => ?_
      exact preserves_bind (preserves_ofExcept _) fun _ => preserves_pure _
  · split <;> exact preserves_pure _

theorem callsGrow_requireAssignableVault (vaultId : String) :
    Preserves CallsGrow (requireAssignableVault env root vaultId) := by
  refine preserves_bind (preserves_ofExcept _) fun dir => ?_
  refine preserves_bind preserves_get fun d => ?_
  refine preserves_bind (preserves_ensure _ _) fun _ => ?_
  refine preserves_bind ?_ fun _ => preserves_pure _
  refine preserves_bind (callsGrow_loadVaultConfigRaw dir) fun config => ?_
  exact preserves_bind (preserves_ofExcept _) fun _ => preserves_pure _

/-- A check or a computation without effects may come first. -/
theorem allOrNothing_ofExcept_bind {x : Except UprivError α} {f : α → FsM β}
    (hf : ∀ a, AllOrNothing env (f a)) : AllOrNothing env (FallibleM.ofExcept x >>= f) :=
  allOrNothing_bind (preserves_ofExcept _) (preserves_ofExcept _) hf

theorem allOrNothing_ensure_bind {c : Prop} [Decidable c] {error : UprivError} {f : Unit → FsM β}
    (hf : AllOrNothing env (f ())) : AllOrNothing env (FallibleM.ensure c error >>= f) :=
  allOrNothing_bind (preserves_ensure _ _) (preserves_ensure _ _) fun _ => hf

/-- A mutator loads the groups first. -/
theorem allOrNothing_load_bind {f : List VaultGroup → FsM β}
    (hf : ∀ groups, AllOrNothing env (f groups)) :
    AllOrNothing env (do
      let groups ← loadVaultGroupsForMutate env.faults env.groupsCodec root
      f groups) :=
  allOrNothing_bind preserves_loadVaultGroupsForMutate callsGrow_loadVaultGroupsForMutate hf

theorem allOrNothing_requireUprivDir_bind {f : Unit → FsM β} (hf : AllOrNothing env (f ())) :
    AllOrNothing env (requireUprivDir root >>= f) :=
  allOrNothing_bind preserves_requireUprivDir callsGrow_requireUprivDir fun _ => hf

theorem allOrNothing_assignable_bind {vaultIds : List String} {f : PUnit → FsM β}
    (hf : AllOrNothing env (f ⟨⟩)) :
    AllOrNothing env (vaultIds.forM (requireAssignableVault env root) >>= f) :=
  allOrNothing_bind (preserves_forM fun _ => preserves_requireAssignableVault env root _)
    (preserves_forM callsGrow_requireAssignableVault) fun _ => hf

theorem allOrNothing_save (groups : List VaultGroup) :
    AllOrNothing env (saveVaultGroups env.faults env.groupsCodec root groups) :=
  allOrNothing_of_preservesOnError preservesOnError_saveVaultGroups

theorem allOrNothing_createVaultGroupWithSort (id displayName : String)
    (groupedVaults : List String) (sort direction : Option String) (hidden : Bool) :
    AllOrNothing env (createVaultGroupWithSort env root id displayName groupedVaults sort
      direction hidden) := by
  rw [createVaultGroupWithSort_eq]
  refine allOrNothing_requireUprivDir_bind ?_
  refine allOrNothing_ensure_bind ?_
  refine allOrNothing_ensure_bind ?_
  refine allOrNothing_load_bind fun groups => ?_
  refine allOrNothing_ensure_bind ?_
  refine allOrNothing_assignable_bind ?_
  refine allOrNothing_ofExcept_bind fun sort => ?_
  refine allOrNothing_ofExcept_bind fun direction => ?_
  exact allOrNothing_bind_of_succeeds (allOrNothing_hideAndSave _ _ _) fun _ _ => ⟨_, rfl⟩

theorem allOrNothing_updateVaultGroup (groupId : String) (params : UpdateVaultGroupParams) :
    AllOrNothing env (updateVaultGroup env root groupId params) := by
  rw [updateVaultGroup_eq]
  refine allOrNothing_requireUprivDir_bind ?_
  refine allOrNothing_load_bind fun groups => ?_
  split
  · exact allOrNothing_of_preservesOnError (preserves_throw _).onError
  · refine allOrNothing_ofExcept_bind fun headers => ?_
    refine allOrNothing_assignable_bind ?_
    exact allOrNothing_bind_of_succeeds (allOrNothing_hideAndSave _ _ _) fun _ _ => ⟨_, rfl⟩

theorem allOrNothing_save_bind {f : Unit → FsM β} (groups : List VaultGroup)
    (hf : ∀ s, ∃ b, (exec (f ()) s).1 = .ok b) :
    AllOrNothing env (saveVaultGroups env.faults env.groupsCodec root groups >>= f) :=
  allOrNothing_bind_of_succeeds (allOrNothing_save groups) fun _ => hf

theorem allOrNothing_deleteVaultGroup (groupId : String) :
    AllOrNothing env (deleteVaultGroup env root groupId) := by
  refine allOrNothing_requireUprivDir_bind ?_
  refine allOrNothing_load_bind fun groups => ?_
  split
  · exact allOrNothing_of_preservesOnError (preserves_pure _).onError
  · exact allOrNothing_save_bind _ fun _ => ⟨_, rfl⟩

theorem allOrNothing_reorderVaultGroups (orders : List (String × Int64)) :
    AllOrNothing env (reorderVaultGroups env root orders) := by
  refine allOrNothing_requireUprivDir_bind ?_
  refine allOrNothing_load_bind fun groups => ?_
  refine allOrNothing_ofExcept_bind fun ordered => ?_
  exact allOrNothing_save_bind _ fun _ => ⟨_, rfl⟩

theorem allOrNothing_reorderVaultGroupGroupedVaults (groupId : String)
    (orderedVaultIds : List String) :
    AllOrNothing env (reorderVaultGroupGroupedVaults env root groupId orderedVaultIds) := by
  refine allOrNothing_requireUprivDir_bind ?_
  refine allOrNothing_load_bind fun groups => ?_
  split
  · exact allOrNothing_of_preservesOnError (preserves_throw _).onError
  · refine allOrNothing_ensure_bind ?_
    exact allOrNothing_save_bind _ fun _ => ⟨_, rfl⟩

theorem allOrNothing_repairVaultGroups : AllOrNothing env (repairVaultGroups env root) := by
  have hread : Preserves CallsGrow (readBackupBytes env root) := by
    refine preserves_bind preserves_get fun d => ?_
    split
    · refine preserves_bind (callsGrow_sysCall _ fun d => ?_) fun _ => preserves_pure _
      split <;> rfl
    · exact preserves_pure _
  refine allOrNothing_requireUprivDir_bind ?_
  refine allOrNothing_bind (preserves_readBackupBytes env root) hread fun backupBytes => ?_
  exact allOrNothing_save_bind _ fun d => ⟨(), writeBackup_ok env root backupBytes d⟩

theorem allOrNothing_perform (call : GroupsCall) : AllOrNothing env (call.perform env root) := by
  cases call with
  | create id displayName groupedVaults sort direction hidden =>
      exact allOrNothing_bind_of_succeeds
        (allOrNothing_createVaultGroupWithSort _ _ _ _ _ _) fun _ _ => ⟨true, rfl⟩
  | update groupId params =>
      exact allOrNothing_bind_of_succeeds
        (allOrNothing_updateVaultGroup _ _) fun _ _ => ⟨true, rfl⟩
  | delete groupId =>
      exact allOrNothing_bind_of_succeeds (allOrNothing_deleteVaultGroup _) fun _ _ => ⟨_, rfl⟩
  | reorder orders =>
      exact allOrNothing_bind_of_succeeds
        (allOrNothing_reorderVaultGroups _) fun _ _ => ⟨true, rfl⟩
  | reorderGroupedVaults groupId orderedVaultIds =>
      exact allOrNothing_bind_of_succeeds
        (allOrNothing_reorderVaultGroupGroupedVaults _ _) fun _ _ => ⟨true, rfl⟩
  | repair =>
      exact allOrNothing_bind_of_succeeds allOrNothing_repairVaultGroups
        fun _ _ => ⟨true, rfl⟩

/-- A call that fails has changed nothing: the registry file is the same, and every
vault loads with the flag it had. -/
theorem perform_unchanged_of_error {call : GroupsCall}
    (h : (call.perform env root).exec d = (.error e, d')) (hunhindered : Unhindered env d d' e) :
    d'.files (vaultGroupsPath root) = d.files (vaultGroupsPath root) ∧
      ∀ dir, IsPlain dir → loadedOn env.configCodec d' dir = loadedOn env.configCodec d dir :=
  ⟨preservesOnError_perform d e d' h, allOrNothing_perform call d e d' h hunhindered⟩

end

/-! ## A save that is refused -/

/-- The registry cannot be written, after both vaults have been hidden. -/
def saveRefused : Faults := fun n =>
  if n = 7 then some ⟨.other, "No space left on device"⟩ else none

def hideWork : GroupsCall := .update "work" { hidden := some true }

/-- The cascade of the call, after the registry has been read. -/
def hiddenAtWork : Result (List (VaultHiddenRevert sampleRoot)) × Disk :=
  (setGroupedVaultsHidden (filedEnv saveRefused) sampleRoot ["notes", "travel"] true).exec
    { allAtWork with calls := 1 }

/-- It succeeds on both vaults, and the save that follows is refused. -/
theorem hiddenAtWork_ok :
    hiddenAtWork.1.map (·.map (·.dir)) = .ok ["/home/user/root/.upriv/vaults/notes",
        "/home/user/root/.upriv/vaults/travel"] ∧
      ((saveVaultGroups (filedEnv saveRefused).faults (filedEnv saveRefused).groupsCodec
          sampleRoot [(workWith ["notes", "travel"]).asHidden]).exec hiddenAtWork.2).1 =
        .error (.io ⟨.other, "No space left on device"⟩) := by
  decide +kernel

/-- What is loaded is written as one of the texts. -/
theorem written_mem_vaultTexts :
    ∀ entry ∈ vaultTexts, entry.1.normalized.written = entry.1 := by
  decide +kernel

theorem unhindered_saveRefused (d d' : Disk) :
    Unhindered (filedEnv saveRefused) d d' (.io ⟨.other, "No space left on device"⟩) where
  serializes dir config _ hload := by
    obtain ⟨_, raw, document, -, -, hraw, hdocument⟩ := loadedOn_eq_some_iff.mp hload
    obtain ⟨-, rfl⟩ := loadDocument_eq_some_iff.mp hdocument
    obtain ⟨text, hmem⟩ := TomlCodec.mem_of_ofTable_fromStr vaultTexts_suffix hraw
    obtain ⟨entry, hentry, heq⟩ := List.mem_map.mp hmem
    have hwritten := written_mem_vaultTexts entry hentry
    rw [show entry.1 = document from congrArg Prod.fst heq] at hwritten
    rw [hwritten]
    exact TomlCodec.ofTable_serializes vaultTexts_suffix hmem
  refused n error _ _ hrefused := by
    obtain ⟨rfl, rfl⟩ : n = 7 ∧ error = ⟨.other, "No space left on device"⟩ := by
      simpa [filedEnv, saveRefused, eq_comm] using hrefused
    exact ⟨rfl, fun k hk _ => if_neg hk.ne'⟩

/-- The call comes down to the cascade and the save. -/
theorem exec_hideWork {applied : List (VaultHiddenRevert sampleRoot)} {m : Disk}
    (hset : hiddenAtWork = (.ok applied, m)) :
    ∃ d', (hideWork.perform (filedEnv saveRefused) sampleRoot).exec allAtWork =
      (.error (.io ⟨.other, "No space left on device"⟩), d') := by
  have hdir : allAtWork.isDir sampleRoot.uprivDir = true := by decide +kernel
  have hfind : findGroup [workWith ["notes", "travel"]] "work" =
      some (0, workWith ["notes", "travel"]) := by
    decide +kernel
  have hheaders : updateHeaders sampleRoot { hidden := some true } (workWith ["notes", "travel"]) =
      .ok (workWith ["notes", "travel"]) := by
    decide +kernel
  have htaken : (UpdateVaultGroupParams.taken { hidden := some true }).forM
      (requireAssignableVault (filedEnv saveRefused) sampleRoot) = pure ⟨⟩ := rfl
  have hids : cascadeIds false true ["notes", "travel"] ["notes", "travel"] =
      ["notes", "travel"] := by
    decide +kernel
  have hsave := hiddenAtWork_ok.2
  rw [hset] at hsave
  dsimp only at hsave
  obtain ⟨m', hsave⟩ := exists_exec_eq hsave
  obtain ⟨d', hrevert⟩ := exec_revertVaultHidden (filedEnv saveRefused) applied m'
  have hhide : (hideAndSave (filedEnv saveRefused) sampleRoot
      (cascadeIds false true ["notes", "travel"] ["notes", "travel"]) true
      [(workWith ["notes", "travel"]).asHidden]).exec { allAtWork with calls := 1 } =
      (.error (.io ⟨.other, "No space left on device"⟩),
        d') := by
    rw [hids, hideAndSave, exec_bind_of_ok hset, saveOrRevert, exec_attempt_bind, hsave]
    exact exec_bind_of_ok hrevert _
  refine ⟨d', ?_⟩
  rw [hideWork, GroupsCall.perform, updateVaultGroup_eq, bind_assoc,
    exec_bind_of_ok (exec_requireUprivDir hdir), bind_assoc,
    exec_bind_of_ok ((accepts_allAtWork saveRefused).exec_load rfl), healed_workWith, hfind]
  dsimp only
  rw [updateFound, hheaders, bind_assoc, exec_ofExcept_bind]
  dsimp only
  rw [htaken, bind_assoc, pure_bind, bind_assoc]
  exact exec_bind_of_error hhide _

/-- Both vaults are hidden when the save is refused, and visible again afterwards. -/
theorem perform_unchanged_of_error_hideWork :
    (∀ dir ∈ ["/home/user/root/.upriv/vaults/notes", "/home/user/root/.upriv/vaults/travel"],
      ∃ config, loadedOn (filedEnv saveRefused).configCodec allAtWork dir = some config ∧
        loadedOn (filedEnv saveRefused).configCodec hiddenAtWork.2 dir =
          some (config.withHidden true)) ∧
    ∃ d', (hideWork.perform (filedEnv saveRefused) sampleRoot).exec allAtWork =
        (.error (.io ⟨.other, "No space left on device"⟩), d') ∧
      d'.files (vaultGroupsPath sampleRoot) = allAtWork.files (vaultGroupsPath sampleRoot) ∧
      ∀ dir, IsPlain dir → loadedOn (filedEnv saveRefused).configCodec d' dir =
        loadedOn (filedEnv saveRefused).configCodec allAtWork dir := by
  rcases hset : hiddenAtWork with ⟨error | applied, m⟩
  · have hok := hiddenAtWork_ok.1
    rw [hset] at hok
    cases hok
  · have hdirs := hiddenAtWork_ok.1
    rw [hset] at hdirs
    obtain ⟨d', hrun⟩ := exec_hideWork hset
    refine ⟨?_, d', hrun, perform_unchanged_of_error hrun (unhindered_saveRefused _ _)⟩
    rw [← Except.ok.inj hdirs]
    exact (setGroupedVaultsHidden_ok hset).2.loaded

end Upriv
