import Upriv.Config.VaultGroups.HideAndSave

/-!
# Who is in which group

What the edits of the mutators do to membership, and from it what a successful
mutator does: it leaves a registry on disk and changes only the membership of
its target group and of the vaults it is given.
-/

namespace Upriv

open FallibleM

/-- `vaultId` is listed in the group `groupId`. -/
def MemberOf (groups : List VaultGroup) (groupId vaultId : String) : Prop :=
  ∃ group ∈ groups, group.id = groupId ∧ vaultId ∈ group.groupedVaults

/-! ## Edits -/

section
variable {groups : List VaultGroup} {group updated : VaultGroup} {idx : ℕ}
  {groupId vaultId : String}

theorem memberOf_append_singleton :
    MemberOf (groups ++ [group]) groupId vaultId ↔
      MemberOf groups groupId vaultId ∨
        (group.id = groupId ∧ vaultId ∈ group.groupedVaults) := by
  simp [MemberOf, or_and_right, exists_or]

/-- An edit that keeps the ids, and one vault in the groups it was in. -/
theorem memberOf_map {edit : VaultGroup → VaultGroup}
    (hid : ∀ group, (edit group).id = group.id)
    (hvault : ∀ group, vaultId ∈ (edit group).groupedVaults ↔
      vaultId ∈ group.groupedVaults) :
    MemberOf (groups.map edit) groupId vaultId ↔ MemberOf groups groupId vaultId := by
  simp [MemberOf, hid, hvault]

theorem memberOf_removeVaults {vaultIds : List String} (hvault : vaultId ∉ vaultIds) :
    MemberOf (groups.map (VaultGroup.removeVaults vaultIds)) groupId vaultId ↔
      MemberOf groups groupId vaultId := by
  refine memberOf_map (fun _ => rfl) fun group => ?_
  rw [VaultGroup.removeVaults, List.mem_filter, decide_eq_true_eq]
  exact and_iff_left hvault

theorem memberOf_iff_getElem? :
    MemberOf groups groupId vaultId ↔
      ∃ (i : ℕ) (group : VaultGroup), groups[i]? = some group ∧ group.id = groupId ∧
        vaultId ∈ group.groupedVaults := by
  constructor
  · rintro ⟨group, hmem, hgroup⟩
    obtain ⟨i, hi⟩ := List.getElem?_of_mem hmem
    exact ⟨i, group, hi, hgroup⟩
  · rintro ⟨i, group, hi, hgroup⟩
    exact ⟨group, List.mem_of_getElem? hi, hgroup⟩

/-- Replacing a group by one with the same id concerns no other group, and no
vault that both or neither of them list. -/
theorem memberOf_set (hidx : groups[idx]? = some group) (hid : updated.id = group.id)
    (h : groupId ≠ group.id ∨
      (vaultId ∈ updated.groupedVaults ↔ vaultId ∈ group.groupedVaults)) :
    MemberOf (groups.set idx updated) groupId vaultId ↔
      MemberOf groups groupId vaultId := by
  have hlt : idx < groups.length := (List.getElem?_eq_some_iff.mp hidx).1
  rw [memberOf_iff_getElem?, memberOf_iff_getElem?]
  refine exists_congr fun i => ?_
  by_cases hi : idx = i
  · subst hi
    rw [List.getElem?_set_self hlt, hidx]
    simp only [Option.some.injEq, exists_eq_left', hid]
    rcases h with hne | hiff
    · simp [Ne.symm hne]
    · rw [hiff]
  · rw [List.getElem?_set_ne hi]

theorem memberOf_eraseIdx (hidx : groups[idx]? = some group) (hne : groupId ≠ group.id) :
    MemberOf (groups.eraseIdx idx) groupId vaultId ↔
      MemberOf groups groupId vaultId := by
  constructor
  · rintro ⟨other, hmem, hother⟩
    exact ⟨other, List.mem_of_mem_eraseIdx hmem, hother⟩
  · rintro ⟨other, hmem, hother, hvault⟩
    obtain ⟨i, hi⟩ := List.getElem?_of_mem hmem
    refine ⟨other, List.mem_eraseIdx_iff_getElem?.mpr ⟨i, ?_, hi⟩, hother, hvault⟩
    rintro rfl
    rw [hidx] at hi
    cases hi
    exact hne hother.symm

end

/-! ## Settled groups stay settled -/

section
variable {groups : List VaultGroup} {group updated : VaultGroup} {idx : ℕ}

theorem VaultGroup.Settled.removeVaults (h : group.Settled) (vaultIds : List String) :
    (group.removeVaults vaultIds).Settled where
  id := h.id
  displayName := h.displayName
  sort := h.sort
  direction := h.direction
  vaults := h.vaults.filter _

theorem settled_map_removeVaults (h : ∀ group ∈ groups, group.Settled)
    (vaultIds : List String) :
    ∀ group ∈ groups.map (VaultGroup.removeVaults vaultIds), group.Settled := by
  intro group hgroup
  obtain ⟨original, hmem, rfl⟩ := List.mem_map.mp hgroup
  exact (h original hmem).removeVaults vaultIds

theorem settled_set (h : ∀ group ∈ groups, group.Settled) (hupdated : updated.Settled) :
    ∀ group ∈ groups.set idx updated, group.Settled := by
  intro group hgroup
  rcases List.mem_or_eq_of_mem_set hgroup with hmem | rfl
  · exact h group hmem
  · exact hupdated

theorem findGroup_eq_some {groupId : String}
    (h : findGroup groups groupId = some (idx, group)) :
    groups[idx]? = some group ∧ group.id = trim groupId := by
  obtain ⟨i, hi, hgroup⟩ := Option.bind_eq_some_iff.mp h
  obtain ⟨found, hfound, heq⟩ := Option.map_eq_some_iff.mp hgroup
  cases heq
  refine ⟨hfound, ?_⟩
  obtain ⟨hlt, hid, _⟩ := List.findIdx?_eq_some_iff_getElem.mp hi
  rw [List.getElem?_eq_getElem hlt] at hfound
  cases hfound
  simpa using hid

end

/-! ## Checked values -/

section
variable {root : VaultRoot}

theorem requireSort_ok {mode sort : String} (h : requireSort root mode = .ok sort) :
    normalizeGroupedVaultSort sort = some sort := by
  unfold requireSort at h
  split at h
  · rename_i hsort
    cases h
    exact normalizeOption_idem hsort
  · cases h

theorem requireSortDirection_ok {value direction : String}
    (h : requireSortDirection root value = .ok direction) :
    normalizeGroupedVaultSortDirection direction = some direction := by
  unfold requireSortDirection at h
  split at h
  · rename_i hdirection
    cases h
    exact normalizeOption_idem hdirection
  · cases h

theorem requireDisplayName_ok {name displayName : String}
    (h : requireDisplayName root name = .ok displayName) : Trimmed displayName := by
  unfold requireDisplayName at h
  split at h
  · cases h
  · cases h
    exact trimmed_trim name

/-- A checked argument, or the value that stands in for a missing one. -/
theorem getD_map_ok {check : String → Result String} {P : String → Prop}
    (hcheck : ∀ given value, check given = .ok value → P value) {default : String}
    (hdefault : P default) {argument : Option String} {value : String}
    (h : (argument.map check).getD (.ok default) = .ok value) : P value := by
  cases argument with
  | none =>
      cases h
      exact hdefault
  | some given => exact hcheck given value h

/-- An update without vaults keeps a group settled, with its id and vaults. -/
theorem updateHeaders_ok {params : UpdateVaultGroupParams} {group headers : VaultGroup}
    (h : updateHeaders root params group = .ok headers) (hgroup : group.Settled) :
    headers.Settled ∧ headers.id = group.id := by
  obtain ⟨displayName, hname, h⟩ := except_bind_eq_ok.mp h
  obtain ⟨sort, hsort, h⟩ := except_bind_eq_ok.mp h
  obtain ⟨direction, hdirection, h⟩ := except_bind_eq_ok.mp h
  cases h
  refine ⟨⟨hgroup.id, ?_, ?_, ?_, hgroup.vaults⟩, rfl⟩
  · exact getD_map_ok (fun _ _ => requireDisplayName_ok) hgroup.displayName hname
  · exact getD_map_ok (P := fun sort => normalizeGroupedVaultSort sort = some sort)
      (fun _ _ => requireSort_ok) hgroup.sort hsort
  · exact getD_map_ok
      (P := fun direction => normalizeGroupedVaultSortDirection direction = some direction)
      (fun _ _ => requireSortDirection_ok) hgroup.direction hdirection

end

/-! ## The mutators -/

theorem setOrders_ok {groups groups' : List VaultGroup} {orders : List (String × Int64)}
    (h : setOrders groups orders = .ok groups')
    (hsettled : ∀ group ∈ groups, group.Settled) :
    (∀ group ∈ groups', group.Settled) ∧ ∀ groupId vaultId,
      MemberOf groups' groupId vaultId ↔ MemberOf groups groupId vaultId := by
  induction orders generalizing groups with
  | nil =>
      cases h
      exact ⟨hsettled, fun _ _ => Iff.rfl⟩
  | cons entry orders ih =>
      obtain ⟨id, order⟩ := entry
      rw [setOrders] at h
      split at h
      · cases h
      · rename_i idx group hfind
        obtain ⟨hidx, _⟩ := findGroup_eq_some hfind
        have hgroup := hsettled group (List.mem_of_getElem? hidx)
        have hordered : VaultGroup.Settled { group with order := order } :=
          ⟨hgroup.id, hgroup.displayName, hgroup.sort, hgroup.direction, hgroup.vaults⟩
        obtain ⟨hsettled', hmember⟩ := ih h (settled_set hsettled hordered)
        refine ⟨hsettled', fun groupId vaultId => ?_⟩
        rw [hmember]
        exact memberOf_set hidx rfl (.inr Iff.rfl)

variable {env : GroupsEnv} {root : VaultRoot}

/-- A successful call that wrote: a registry is on disk, and membership is as
before except where `touches` says. -/
structure Rewrites (env : GroupsEnv) (root : VaultRoot) (touches : String → String → Prop)
    (d d' : Disk) : Prop where
  registry : RegistryOnDisk env.groupsCodec root d'
  members : ∀ groupId vaultId, ¬ touches groupId vaultId →
    (MemberOf (healedGroups env.groupsCodec root d') groupId vaultId ↔
      MemberOf (healedGroups env.groupsCodec root d) groupId vaultId)

/-- A mutator loads the healed groups, edits them and saves the result. -/
theorem Rewrites.of_save {touches : String → String → Prop} {d m d' : Disk}
    {groups : List VaultGroup} (hsettled : ∀ group ∈ groups, group.Settled)
    (hmembers : ∀ groupId vaultId, ¬ touches groupId vaultId →
      (MemberOf groups groupId vaultId ↔
        MemberOf (healedGroups env.groupsCodec root d) groupId vaultId))
    (hsave : (saveVaultGroups env.faults env.groupsCodec root groups).exec m =
      (.ok (), d')) : Rewrites env root touches d d' := by
  obtain ⟨hregistry, hhealed⟩ := saveVaultGroups_ok hsettled hsave
  refine ⟨hregistry, ?_⟩
  rw [hhealed]
  exact hmembers

theorem load_bind_ok {α : Type} {f : List VaultGroup → FsM α} {a : α} {d d' : Disk}
    (hrun : exec (do
      requireUprivDir root
      let groups ← loadVaultGroupsForMutate env.faults env.groupsCodec root
      f groups) d = (.ok a, d')) :
    ∃ m, (f (healedGroups env.groupsCodec root d)).exec m = (.ok a, d') ∧
      (∀ group ∈ healedGroups env.groupsCodec root d, group.Settled) ∧
      SameDisk d m := by
  obtain ⟨_, m₁, hrequire, hrun⟩ := exec_bind_eq_ok_iff.mp hrun
  obtain ⟨groups, m₂, hload, hrun⟩ := exec_bind_eq_ok_iff.mp hrun
  have hfirst : SameDisk d m₁ := preserves_requireUprivDir.exec_eq hrequire
  obtain ⟨hgroups, hsecond, _, hsettled⟩ := loadVaultGroupsForMutate_ok hload
  have hhealed : groups = healedGroups env.groupsCodec root d :=
    hgroups.trans (healedGroups_congr (hfirst.sameAt _))
  rw [hhealed] at hrun hsettled
  exact ⟨m₂, hrun, hsettled, IsTrans.trans _ _ _ hfirst hsecond⟩

/-- What a successful create saves, and the vaults it hides or shows. -/
theorem createVaultGroupWithSort_saves {id displayName : String}
    {groupedVaults : List String} {sort direction : Option String} {hidden : Bool}
    {reply : VaultGroupCreate} {d d' : Disk}
    (hrun : (createVaultGroupWithSort env root id displayName groupedVaults sort
      direction hidden).exec d = (.ok reply, d')) :
    ∃ group m, group.id = trim id ∧ group.hidden = hidden ∧
      group.groupedVaults = trimVaultIds groupedVaults ∧ group.Settled ∧
      (∀ group ∈ healedGroups env.groupsCodec root d, group.Settled) ∧ SameDisk d m ∧
      (hideAndSave env root (trimVaultIds groupedVaults) hidden
        ((healedGroups env.groupsCodec root d).map
          (VaultGroup.removeVaults (trimVaultIds groupedVaults)) ++ [group])).exec m =
        (.ok (), d') := by
  rw [createVaultGroupWithSort_eq] at hrun
  obtain ⟨_, m₁, hrequire, hrun⟩ := exec_bind_eq_ok_iff.mp hrun
  obtain ⟨_, hrun⟩ := exec_ensure_bind_eq_ok_iff.mp hrun
  obtain ⟨_, hrun⟩ := exec_ensure_bind_eq_ok_iff.mp hrun
  obtain ⟨groups, m₂, hload, hrun⟩ := exec_bind_eq_ok_iff.mp hrun
  obtain ⟨_, hrun⟩ := exec_ensure_bind_eq_ok_iff.mp hrun
  obtain ⟨_, m₃, hassignable, hrun⟩ := exec_bind_eq_ok_iff.mp hrun
  obtain ⟨sortMode, hsort, hrun⟩ := exec_ofExcept_bind_eq_ok_iff.mp hrun
  obtain ⟨sortDirection, hdirection, hrun⟩ := exec_ofExcept_bind_eq_ok_iff.mp hrun
  obtain ⟨_, m₄, hsave, hreply⟩ := exec_bind_eq_ok_iff.mp hrun
  cases hreply
  obtain ⟨hgroups, hsecond, _, hsettled⟩ := loadVaultGroupsForMutate_ok hload
  have hfirst : SameDisk d m₁ := preserves_requireUprivDir.exec_eq hrequire
  have hthird : SameDisk m₂ m₃ :=
    (preserves_forM fun vaultId => preserves_requireAssignableVault env root vaultId).exec_eq
      hassignable
  have hhealed : groups = healedGroups env.groupsCodec root d :=
    hgroups.trans (healedGroups_congr (hfirst.sameAt _))
  rw [hhealed] at hsettled hsave
  refine ⟨_, m₃, ?_, ?_, ?_, ?_, hsettled,
    IsTrans.trans _ _ _ hfirst (IsTrans.trans _ _ _ hsecond hthird), hsave⟩
  · rfl
  · rfl
  · rfl
  · refine ⟨trimmed_trim id, trimmed_trim displayName, ?_, ?_,
      cleanIds_trimVaultIds groupedVaults⟩
    · exact getD_map_ok (P := fun sort => normalizeGroupedVaultSort sort = some sort)
        (fun _ _ => requireSort_ok) normalizeGroupedVaultSort_default hsort
    · exact getD_map_ok
        (P := fun direction => normalizeGroupedVaultSortDirection direction = some direction)
        (fun _ _ => requireSortDirection_ok) normalizeGroupedVaultSortDirection_default
        hdirection

theorem settled_append_singleton {groups : List VaultGroup} {group : VaultGroup}
    (h : ∀ group ∈ groups, group.Settled) (hgroup : group.Settled) :
    ∀ other ∈ groups ++ [group], other.Settled :=
  List.forall_mem_append.mpr ⟨h, List.forall_mem_singleton.mpr hgroup⟩

theorem createVaultGroupWithSort_ok {id displayName : String}
    {groupedVaults : List String} {sort direction : Option String} {hidden : Bool}
    {reply : VaultGroupCreate} {d d' : Disk}
    (hrun : (createVaultGroupWithSort env root id displayName groupedVaults sort
      direction hidden).exec d = (.ok reply, d')) :
    Rewrites env root
      (fun groupId vaultId => groupId = trim id ∨ vaultId ∈ trimVaultIds groupedVaults)
      d d' := by
  obtain ⟨group, m, hid, _, _, hgroup, hsettled, _, hhide⟩ :=
    createVaultGroupWithSort_saves hrun
  obtain ⟨_, m', _, _, hsave⟩ := hideAndSave_ok hhide
  refine Rewrites.of_save
    (settled_append_singleton (settled_map_removeVaults hsettled _) hgroup) ?_ hsave
  intro groupId vaultId htouches
  obtain ⟨hne, hvault⟩ := not_or.mp htouches
  rw [memberOf_append_singleton, memberOf_removeVaults hvault, hid]
  constructor
  · rintro (hold | ⟨heq, _⟩)
    · exact hold
    · exact absurd heq.symm hne
  · exact .inl

theorem deleteVaultGroup_ok {groupId : String} {reply : Option VaultGroup} {d d' : Disk}
    (hrun : (deleteVaultGroup env root groupId).exec d = (.ok reply, d')) :
    (reply = none ∧ SameDisk d d') ∨
    (reply.isSome = true ∧ Rewrites env root (fun id _ => id = trim groupId) d d') := by
  obtain ⟨m, hrun, hsettled, hsame⟩ := load_bind_ok hrun
  split at hrun
  · cases hrun
    exact .inl ⟨rfl, hsame⟩
  · rename_i idx removed hfind
    obtain ⟨hidx, hid⟩ := findGroup_eq_some hfind
    obtain ⟨_, m', hsave, hreply⟩ := exec_bind_eq_ok_iff.mp hrun
    cases hreply
    refine .inr ⟨rfl, Rewrites.of_save ?_ ?_ hsave⟩
    · exact fun group hgroup => hsettled group (List.mem_of_mem_eraseIdx hgroup)
    · intro id vaultId hne
      exact memberOf_eraseIdx hidx (hid ▸ hne)

/-- What a successful update saves, and the vaults it hides or shows. -/
theorem updateVaultGroup_saves {groupId : String} {params : UpdateVaultGroupParams}
    {reply : VaultGroupUpdate} {d d' : Disk}
    (hrun : (updateVaultGroup env root groupId params).exec d = (.ok reply, d')) :
    ∃ idx group headers m, (healedGroups env.groupsCodec root d)[idx]? = some group ∧
      group.id = trim groupId ∧ updateHeaders root params group = .ok headers ∧
      (∀ group ∈ healedGroups env.groupsCodec root d, group.Settled) ∧
      (∀ other ∈ params.saved (healedGroups env.groupsCodec root d) idx group headers,
        other.Settled) ∧ SameDisk d m ∧
      (hideAndSave env root (cascadeIds group.hidden (params.updated group headers).hidden
          group.groupedVaults (params.updated group headers).groupedVaults)
        (params.updated group headers).hidden
        (params.saved (healedGroups env.groupsCodec root d) idx group headers)).exec m =
        (.ok (), d') := by
  rw [updateVaultGroup_eq] at hrun
  obtain ⟨m, hrun, hsettled, hfirst⟩ := load_bind_ok hrun
  split at hrun
  · cases hrun
  · rename_i idx group hfind
    obtain ⟨hidx, hid⟩ := findGroup_eq_some hfind
    obtain ⟨headers, hheaders, hrun⟩ := exec_ofExcept_bind_eq_ok_iff.mp hrun
    obtain ⟨_, m', hassignable, hrun⟩ := exec_bind_eq_ok_iff.mp hrun
    obtain ⟨_, m₄, hsave, hreply⟩ := exec_bind_eq_ok_iff.mp hrun
    cases hreply
    have hsecond : SameDisk m m' :=
      (preserves_forM fun vaultId => preserves_requireAssignableVault env root vaultId).exec_eq
        hassignable
    have hgroup := hsettled group (List.mem_of_getElem? hidx)
    obtain ⟨hheaders', _⟩ := updateHeaders_ok hheaders hgroup
    refine ⟨idx, group, headers, m', hidx, hid, hheaders, hsettled, ?_,
      IsTrans.trans _ _ _ hfirst hsecond, hsave⟩
    refine settled_set (settled_map_removeVaults hsettled _) ?_
    refine ⟨hheaders'.id, hheaders'.displayName, hheaders'.sort, hheaders'.direction, ?_⟩
    rw [UpdateVaultGroupParams.updated]
    cases params.groupedVaults with
    | none => exact hgroup.vaults
    | some vaultIds => exact cleanIds_trimVaultIds vaultIds

theorem updateVaultGroup_ok {groupId : String} {params : UpdateVaultGroupParams}
    {reply : VaultGroupUpdate} {d d' : Disk}
    (hrun : (updateVaultGroup env root groupId params).exec d = (.ok reply, d')) :
    Rewrites env root (fun id vaultId => ∃ vaultIds, params.groupedVaults = some vaultIds ∧
      (id = trim groupId ∨ vaultId ∈ trimVaultIds vaultIds)) d d' := by
  obtain ⟨idx, group, headers, m, hidx, hid, hheaders, hhealed, hsettled, _, hhide⟩ :=
    updateVaultGroup_saves hrun
  obtain ⟨_, m', _, _, hsave⟩ := hideAndSave_ok hhide
  obtain ⟨_, hheadersId⟩ :=
    updateHeaders_ok hheaders (hhealed group (List.mem_of_getElem? hidx))
  refine Rewrites.of_save hsettled ?_ hsave
  intro id vaultId htouches
  have hremoved (taken : List String) :
      (healedGroups env.groupsCodec root d |>.map (VaultGroup.removeVaults taken))[idx]? =
        some (group.removeVaults taken) := by
    rw [List.getElem?_map, hidx]
    rfl
  unfold UpdateVaultGroupParams.saved UpdateVaultGroupParams.updated
    UpdateVaultGroupParams.taken
  cases hvaults : params.groupedVaults with
  | none =>
      refine Iff.trans (memberOf_set (hremoved []) ?_ (.inr ?_))
        (memberOf_removeVaults List.not_mem_nil)
      · exact hheadersId
      · simp [VaultGroup.removeVaults]
  | some vaultIds =>
      have htouches' : ¬ (id = trim groupId ∨ vaultId ∈ trimVaultIds vaultIds) :=
        fun h => htouches ⟨vaultIds, hvaults, h⟩
      obtain ⟨hne, hvault⟩ := not_or.mp htouches'
      refine Iff.trans (memberOf_set (hremoved (trimVaultIds vaultIds)) ?_ (.inl ?_))
        (memberOf_removeVaults hvault)
      · exact hheadersId
      · exact hid ▸ hne

theorem reorderVaultGroups_ok {orders : List (String × Int64)} {reply : List VaultGroup}
    {d d' : Disk} (hrun : (reorderVaultGroups env root orders).exec d = (.ok reply, d')) :
    Rewrites env root (fun _ _ => False) d d' := by
  obtain ⟨m, hrun, hsettled, _⟩ := load_bind_ok hrun
  obtain ⟨groups, horders, hrun⟩ := exec_ofExcept_bind_eq_ok_iff.mp hrun
  obtain ⟨_, m', hsave, hreply⟩ := exec_bind_eq_ok_iff.mp hrun
  cases hreply
  obtain ⟨hsettled', hmembers⟩ := setOrders_ok horders hsettled
  exact Rewrites.of_save hsettled' (fun groupId vaultId _ => hmembers groupId vaultId) hsave

theorem perm_of_sameIdMultiset {left right : List String}
    (h : sameIdMultiset left right = true) : left.Perm right := by
  unfold sameIdMultiset at h
  obtain ⟨_, hsorted⟩ := Bool.and_eq_true_iff.mp h
  rw [beq_iff_eq] at hsorted
  calc left.Perm (left.mergeSort (· ≤ ·)) := (List.mergeSort_perm left _).symm
    _ = right.mergeSort (· ≤ ·) := hsorted
    List.Perm _ right := List.mergeSort_perm right _

theorem reorderVaultGroupGroupedVaults_ok {groupId : String}
    {orderedVaultIds : List String} {reply : VaultGroup} {d d' : Disk}
    (hrun : (reorderVaultGroupGroupedVaults env root groupId orderedVaultIds).exec d =
      (.ok reply, d')) : Rewrites env root (fun _ _ => False) d d' := by
  obtain ⟨m, hrun, hsettled, _⟩ := load_bind_ok hrun
  split at hrun
  · cases hrun
  · rename_i idx group hfind
    obtain ⟨hidx, _⟩ := findGroup_eq_some hfind
    obtain ⟨hsame, hrun⟩ := exec_ensure_bind_eq_ok_iff.mp hrun
    obtain ⟨_, m₁, hsave, hreply⟩ := exec_bind_eq_ok_iff.mp hrun
    cases hreply
    have hgroup := hsettled group (List.mem_of_getElem? hidx)
    refine Rewrites.of_save (settled_set hsettled ?_) (fun id vaultId _ => ?_) hsave
    · exact ⟨hgroup.id, hgroup.displayName, hgroup.sort, hgroup.direction,
        cleanIds_trimVaultIds orderedVaultIds⟩
    · refine memberOf_set hidx rfl (.inr ?_)
      rw [trimVaultIds_of_clean hgroup.vaults] at hsame
      exact (perm_of_sameIdMultiset hsame).mem_iff.symm

theorem repairVaultGroups_ok {d d' : Disk}
    (hrun : (repairVaultGroups env root).exec d = (.ok (), d')) :
    Rewrites env root (fun _ _ => True) d d' := by
  obtain ⟨_, m₁, _, hrun⟩ := exec_bind_eq_ok_iff.mp hrun
  obtain ⟨backupBytes, m₂, _, hrun⟩ := exec_bind_eq_ok_iff.mp hrun
  obtain ⟨_, m₃, hsave, hbackup⟩ := exec_bind_eq_ok_iff.mp hrun
  obtain ⟨hregistry, _⟩ := saveVaultGroups_ok (by simp) hsave
  refine ⟨hregistry.congr ?_, fun _ _ htouches => absurd trivial htouches⟩
  exact (preserves_writeBackup env root backupBytes).exec_eq hbackup

end Upriv
