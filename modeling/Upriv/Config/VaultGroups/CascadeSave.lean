import Upriv.Config.VaultGroups.Cascade

/-!
# A cascade beside a save of one of its vaults

`vault_config_save` holds no lock that the group mutations hold.  Both load and
then write the whole document, so what one of them writes can be lost in the
other.  Which calls the steps stand for is said in `createVaultGroupWithSort_run`,
`updateVaultGroup_run` and `saveVaultConfigChecked_run`.
-/

namespace Upriv

/-! ## The save -/

/-- The point a save has reached. -/
inductive ConfigSavePc where
  | load
  | check (before : VaultConfig)
  | write
  | returned (ok : Bool)
  deriving DecidableEq, Repr

section
variable (dir : PathBuf) (after : VaultConfig)

/-- The next step of `vault_config_save`.  `ok` is whether the file system plays
along and, in the check, that no session is in the way. -/
def configSaveStep (s : Configs × ConfigSavePc) (ok : Bool) :
    Option (Configs × ConfigSavePc) :=
  let (configs, pc) := s
  match pc with
  | .load =>
    match ok, loadRaw configs dir with
    | true, some before =>
      some (configs, if after.vault.id = before.vault.id then .check before
        else .returned false)
    | _, _ => some (configs, .returned false)
  | .check before =>
    some (configs, if !ok ∧ quietTargetsChanged before after ≠ [] then .returned false
      else .write)
  | .write =>
    if ok then some (Function.update configs dir (some after.written), .returned true)
    else some (configs, .returned false)
  | .returned _ => none

def ConfigSaveRun (c₀ c : Configs) (pc : ConfigSavePc) : Prop :=
  ∃ oks, Run (configSaveStep dir after) Always (c₀, .load) oks (c, pc)

/-- A save can go through. -/
def Savable (c : Configs) : Prop :=
  ∃ before, loadRaw c dir = some before ∧ after.vault.id = before.vault.id

variable {dir after}

theorem configSaveRun_refused (c : Configs) :
    ConfigSaveRun dir after c c (.returned false) := by
  have hstep : configSaveStep dir after (c, .load) false = some (c, .returned false) := rfl
  exact ⟨[false], .cons hstep trivial (.refl _)⟩

theorem configSaveRun_saved {c : Configs} (h : Savable dir after c) :
    ConfigSaveRun dir after c (Function.update c dir (some after.written))
      (.returned true) := by
  obtain ⟨before, hload, hid⟩ := h
  have hloaded : configSaveStep dir after (c, .load) true = some (c, .check before) := by
    simp [configSaveStep, hload, hid]
  have hchecked : configSaveStep dir after (c, .check before) true = some (c, .write) := rfl
  have hwritten : configSaveStep dir after (c, .write) true =
      some (Function.update c dir (some after.written), .returned true) := rfl
  exact ⟨[true, true, true],
    .cons hloaded trivial (.cons hchecked trivial (.cons hwritten trivial (.refl _)))⟩

/-- Whether a save can go through depends on whose document it is. -/
theorem Savable.congr {c c' : Configs}
    (h : (c' dir).map (·.identity) = (c dir).map (·.identity))
    (hsavable : Savable dir after c) : Savable dir after c' := by
  obtain ⟨before, hload, hid⟩ := hsavable
  obtain ⟨document, hdocument, hload⟩ := Option.bind_eq_some_iff.mp hload
  rw [hdocument] at h
  obtain ⟨document', hdocument', hsame⟩ := Option.map_eq_some_iff.mp h
  have hloads : (loadDocument dir document').isSome := by
    rw [loadDocument_isSome_congr hsame, hload]
    rfl
  obtain ⟨before', hload'⟩ := Option.isSome_iff_exists.mp hloads
  refine ⟨before', ?_, ?_⟩
  · rw [loadRaw, hdocument', Option.bind_some, hload']
  · have hboth : before'.identity = before.identity := by
      rw [loadDocument_identity hload', hsame, loadDocument_identity hload]
    exact hid.trans (congrArg Prod.fst hboth).symm

end

/-! ## Both together -/

/-- The documents, the mutation and the save. -/
structure Cascade where
  configs : Configs
  mutation : MutationPc
  save : ConfigSavePc

inductive CascadeEvent where
  | mutation (ok : Bool)
  | save (ok : Bool)
  deriving DecidableEq, Repr

section
variable (canonicalize : Canonicalize) (op : GroupMutation) (dir : PathBuf)
  (after : VaultConfig)

def Cascade.start (configs : Configs) : Cascade where
  configs := configs
  mutation := .check op.checked
  save := .load

def cascadeStep (s : Cascade) : CascadeEvent → Option Cascade
  | .mutation ok =>
    (mutationStep canonicalize op (s.configs, s.mutation) ok).map fun m =>
      { s with configs := m.1, mutation := m.2 }
  | .save ok =>
    (configSaveStep dir after (s.configs, s.save) ok).map fun m =>
      { s with configs := m.1, save := m.2 }

/-- One call after the other gives the same results and the same document. -/
def Serial (c₀ : Configs) (s : Cascade) : Prop :=
  (∃ m c, MutationRun canonicalize op c₀ m s.mutation ∧
    ConfigSaveRun dir after m c s.save ∧ c dir = s.configs dir) ∨
  ∃ m c, ConfigSaveRun dir after c₀ m s.save ∧
    MutationRun canonicalize op m c s.mutation ∧ c dir = s.configs dir

/-- The mutation has checked the vault and has yet to set its flag. -/
def MutationPc.Between (pc : MutationPc) : Prop :=
  dir ∈ op.checked ∧ dir ∉ pc.checksAhead ∧ dir ∈ pc.appliesAhead ++ pc.plansAhead op

/-- The mutation's check would let the saved document pass, as far as the mount
path is concerned. -/
def mountKept : Bool :=
  (loadDocument dir after.written).all (mountAccepted canonicalize dir)

/-- A step that does not lose what the other call writes: the save does not come
between a load and a write of `set_vault_hidden`, nor does it make the vault
unassignable after the mutation has checked it, and no revert takes back a flag
that the save has stored. -/
def CascadeUndisturbed (s : Cascade) (e : CascadeEvent) (_ : Cascade) : Prop :=
  match e with
  | .save ok =>
      s.save = .write → ok = true →
        s.mutation.writing.map (·.1) ≠ some dir ∧
          (s.mutation.Between op dir → mountKept canonicalize dir after = true)
  | .mutation ok =>
      s.save = .returned true → ok = true →
        s.mutation.takingBack ≠ some (dir, !after.vault.hidden)

/-! ## The save first -/

/-- After the save, the mutation reaches `pc` as well: the vault has not been
read, or it reads the same. -/
def Replayable (pc : MutationPc) : Prop :=
  (dir ∈ op.checked → dir ∈ pc.checksAhead ∨
    (loadDocument dir after.written).any (mountAccepted canonicalize dir) = true) ∧
  (dir ∈ op.members → dir ∈ pc.plansAhead op ∨
    dir ∈ pc.appliesAhead ∧ (loadDocument dir after.written).isSome = true ∧
      after.vault.hidden ≠ op.hidden)

variable {canonicalize op dir after}

theorem loadDocument_written_hidden {config : VaultConfig}
    (h : loadDocument dir after.written = some config) :
    config.vault.hidden = after.vault.hidden := by
  unfold loadDocument at h
  split at h
  · cases h
    rfl
  · cases h

theorem loadRaw_update_of_ne {c : Configs} {other : PathBuf} {document : VaultConfig}
    (hother : other ≠ dir) :
    loadRaw (Function.update c dir (some document)) other = loadRaw c other := by
  rw [loadRaw, loadRaw, Function.update_of_ne hother]

theorem loadRaw_update_self {c : Configs} {document : VaultConfig} :
    loadRaw (Function.update c dir (some document)) dir = loadDocument dir document := by
  rw [loadRaw, Function.update_self, Option.bind_some]

theorem assignable_congr {c c' : Configs} {other : PathBuf}
    (h : loadRaw c' other = loadRaw c other) :
    assignable canonicalize c' other = assignable canonicalize c other := by
  rw [assignable, assignable, h]

/-- Nothing that was replayable later was not replayable before. -/
theorem Replayable.before {c c' : Configs} {pc pc' : MutationPc}
    (hreplay : Replayable canonicalize op dir after pc')
    (hmove : MutationMoves canonicalize op c pc c' pc') :
    Replayable canonicalize op dir after pc := by
  obtain ⟨hchecked, hmembers⟩ := hreplay
  cases hmove with
  | checkPass hpass =>
      refine ⟨?_, hmembers⟩
      intro hdir
      exact (hchecked hdir).imp_left (List.mem_cons_of_mem _)
  | checkFail =>
      refine ⟨?_, ?_⟩
      · intro hdir
        exact .inr ((hchecked hdir).resolve_left List.not_mem_nil)
      · intro hdir
        exact .inl hdir
  | @planRead other rest planned config hload =>
      refine ⟨hchecked, ?_⟩
      intro hdir
      rcases hmembers hdir with hrest | ⟨hentry, hloads, hother⟩
      · exact .inl (List.mem_cons_of_mem _ hrest)
      · rw [MutationPc.appliesAhead, planEntry_fst, List.mem_append] at hentry
        rcases hentry with hplanned | hnew
        · exact .inr ⟨hplanned, hloads, hother⟩
        · split at hnew
          · cases hnew
          · rw [List.mem_singleton.mp hnew]
            exact .inl List.mem_cons_self
  | applySame hload hsame =>
      refine ⟨hchecked, ?_⟩
      intro hdir
      exact (hmembers hdir).imp_right (And.imp_left (List.mem_cons_of_mem _))
  | applyLoad hload hother =>
      refine ⟨hchecked, ?_⟩
      intro hdir
      exact (hmembers hdir).imp_right (And.imp_left (List.mem_cons_of_mem _))
  | _ =>
      refine ⟨?_, ?_⟩
      · intro hdir
        exact hchecked hdir
      · intro hdir
        simpa [MutationPc.plansAhead, MutationPc.appliesAhead] using hmembers hdir

/-- A point past the vault is replayable only when the vault is no member. -/
theorem Replayable.ne {pc : MutationPc} {other : PathBuf}
    (hreplay : Replayable canonicalize op dir after pc) (hother : other ∈ op.members)
    (hpast : other ∉ pc.appliesAhead ++ pc.plansAhead op) : other ≠ dir := by
  intro hsame
  subst hsame
  rw [List.mem_append, not_or] at hpast
  rcases hreplay.2 hother with hplan | ⟨happly, -⟩
  · exact hpast.2 hplan
  · exact hpast.1 happly

/-- A move to a replayable point is a move on the saved document. -/
theorem Replayable.move {c c' : Configs} {pc pc' : MutationPc} (hwf : pc.Wf op)
    (hreplay : Replayable canonicalize op dir after pc')
    (hmove : MutationMoves canonicalize op c pc c' pc') :
    MutationMoves canonicalize op (Function.update c dir (some after.written)) pc
      (Function.update c' dir (some after.written)) pc' := by
  cases hmove with
  | @checkPass other rest hpass =>
      apply MutationMoves.checkPass
      by_cases hother : other = dir
      · subst hother
        have hchecked : other ∈ op.checked := hwf.checks_subset List.mem_cons_self
        have hrest : other ∉ rest := (List.nodup_cons.mp hwf.checks_nodup).1
        rw [assignable, loadRaw_update_self]
        exact (hreplay.1 hchecked).resolve_left hrest
      · rw [assignable_congr (loadRaw_update_of_ne hother)]
        exact hpass
  | @planRead other rest planned config hload =>
      by_cases hother : other = dir
      · subst hother
        have hmember : other ∈ op.members :=
          hwf.plans_subset (List.mem_append_right _ List.mem_cons_self)
        have hnodup : (planned.map (·.1) ++ other :: rest).Nodup := hwf.plans_nodup
        rw [List.nodup_middle, List.nodup_cons, List.mem_append, not_or] at hnodup
        obtain ⟨⟨hplanned, hrest⟩, -⟩ := hnodup
        -- the vault is planned here, so its flag was not the one to set
        obtain ⟨hentry, hloads, hflag⟩ := (hreplay.2 hmember).resolve_left hrest
        obtain ⟨saved, hsaved⟩ := Option.isSome_iff_exists.mp hloads
        have hchange : config.vault.hidden ≠ op.hidden := by
          intro hsame
          rw [MutationPc.appliesAhead, planEntry_fst, if_pos hsame, List.append_nil] at hentry
          exact hplanned hentry
        have hsame : saved.vault.hidden = config.vault.hidden := by
          rw [loadDocument_written_hidden hsaved]
          rw [← Bool.eq_not] at hchange
          rw [← Bool.eq_not] at hflag
          rw [hchange, hflag]
        have hplan : planEntry op.hidden planned other config =
            planEntry op.hidden planned other saved := by
          rw [planEntry, planEntry, hsame]
        rw [hplan]
        exact .planRead (loadRaw_update_self.trans hsaved)
      · exact .planRead ((loadRaw_update_of_ne hother).trans hload)
  | @applySame other previous rest applied config hload hsame =>
      have hmember : other ∈ op.members := hwf.plans_subset List.mem_cons_self
      have hrest : other ∉ rest.map (·.1) ++ [] := (List.nodup_cons.mp hwf.plans_nodup).1
      exact .applySame ((loadRaw_update_of_ne (hreplay.ne hmember hrest)).trans hload) hsame
  | @applyLoad other previous rest applied config hload hflag =>
      have hmember : other ∈ op.members := hwf.plans_subset List.mem_cons_self
      have hrest : other ∉ rest.map (·.1) ++ [] := (List.nodup_cons.mp hwf.plans_nodup).1
      exact .applyLoad ((loadRaw_update_of_ne (hreplay.ne hmember hrest)).trans hload) hflag
  | @write other previous rest applied config =>
      have hmember : other ∈ op.members := hwf.plans_subset List.mem_cons_self
      have hrest : other ∉ rest.map (·.1) ++ [] := (List.nodup_cons.mp hwf.plans_nodup).1
      rw [Function.update_comm (hreplay.ne hmember hrest)]
      exact .write
  | @revertLoad other previous rest config hload hflag =>
      have hmember : other ∈ op.members := hwf.reverts_subset List.mem_cons_self
      have hne : other ≠ dir := hreplay.ne hmember List.not_mem_nil
      exact .revertLoad ((loadRaw_update_of_ne hne).trans hload) hflag
  | @revertWrite other previous rest config =>
      have hmember : other ∈ op.members := hwf.reverts_subset List.mem_cons_self
      have hne : other ≠ dir := hreplay.ne hmember List.not_mem_nil
      rw [Function.update_comm hne]
      exact .revertWrite
  | checkDone => exact .checkDone
  | checkFail => exact .checkFail
  | planDone => exact .planDone
  | planFail => exact .planFail
  | applyDone => exact .applyDone
  | applyFail => exact .applyFail
  | writeFail => exact .writeFail
  | saved => exact .saved
  | saveFail => exact .saveFail
  | revertDone => exact .revertDone
  | revertSkip => exact .revertSkip
  | revertWriteFail => exact .revertWriteFail

/-- The mutation can be run after the save. -/
theorem MutationRun.replay {c₀ c : Configs} {pc : MutationPc}
    (hrun : MutationRun canonicalize op c₀ c pc)
    (hreplay : Replayable canonicalize op dir after pc) :
    MutationRun canonicalize op (Function.update c₀ dir (some after.written))
      (Function.update c dir (some after.written)) pc := by
  have hinv : pc.Wf op ∧ (Replayable canonicalize op dir after pc →
      MutationRun canonicalize op (Function.update c₀ dir (some after.written))
        (Function.update c dir (some after.written)) pc) := by
    refine hrun.invariant (fun c pc => pc.Wf op ∧ (Replayable canonicalize op dir after pc →
      MutationRun canonicalize op (Function.update c₀ dir (some after.written))
        (Function.update c dir (some after.written)) pc)) ?_ ?_
    · exact ⟨MutationPc.wf_start, fun _ => .start _⟩
    · rintro c pc c' pc' ⟨hwf, ih⟩ hmove
      refine ⟨hwf.move hmove, ?_⟩
      intro hreplay
      exact (ih (hreplay.before hmove)).step (hreplay.move hwf hmove)
  exact hinv.2 hreplay

/-! ## The mutation first -/

/-- The mutation has checked the vault and will not set its flag: it cannot load
the saved document, or finds the flag as it wants it. -/
structure Spares (op : GroupMutation) (dir : PathBuf) (after : VaultConfig)
    (pc : MutationPc) : Prop where
  checks : dir ∉ pc.checksAhead
  plans : dir ∈ pc.plansAhead op → loadDocument dir after.written = none
  applies : dir ∈ pc.appliesAhead → ∀ config,
    loadDocument dir after.written = some config → config.vault.hidden = op.hidden
  writes : ∀ loaded, pc.writing = some (dir, loaded) → ∃ previous rest,
    pc = .revertWrite dir previous rest loaded ∧ previous ≠ after.vault.hidden

theorem Spares.of_idle {pc : MutationPc} (hidle : pc.writing = none)
    (hchecks : dir ∉ pc.checksAhead)
    (hplans : dir ∈ pc.plansAhead op → loadDocument dir after.written = none)
    (happlies : dir ∈ pc.appliesAhead → ∀ config,
      loadDocument dir after.written = some config → config.vault.hidden = op.hidden) :
    Spares op dir after pc where
  checks := hchecks
  plans := hplans
  applies := happlies
  writes loaded hloaded := by
    rw [hidle] at hloaded
    cases hloaded

theorem Spares.of_not_replayable {pc : MutationPc}
    (hreplay : ¬ Replayable canonicalize op dir after pc)
    (hwriting : pc.writing.map (·.1) ≠ some dir)
    (hbetween : pc.Between op dir → mountKept canonicalize dir after = true) :
    Spares op dir after pc := by
  -- past its check the vault is spared when the saved document does not load
  have hunloaded (hpast : dir ∈ op.checked ∧ dir ∉ pc.checksAhead ∧
      ¬ (loadDocument dir after.written).any (mountAccepted canonicalize dir) = true)
      (hahead : dir ∈ pc.appliesAhead ++ pc.plansAhead op) :
      loadDocument dir after.written = none := by
    have hkept := hbetween ⟨hpast.1, hpast.2.1, hahead⟩
    have hrefused := hpast.2.2
    unfold mountKept at hkept
    cases hload : loadDocument dir after.written with
    | none => rfl
    | some config =>
        rw [hload] at hkept hrefused
        exact absurd hkept hrefused
  rw [Replayable, not_and_or] at hreplay
  push Not at hreplay
  have hcases : (dir ∈ op.checked ∧ dir ∉ pc.checksAhead ∧
      ¬ (loadDocument dir after.written).any (mountAccepted canonicalize dir) = true) ∨
      (dir ∈ op.members ∧ dir ∉ pc.plansAhead op ∧ (dir ∈ pc.appliesAhead →
        (loadDocument dir after.written).isSome = true →
          after.vault.hidden = op.hidden)) := hreplay
  constructor
  · intro hahead
    rcases hcases with ⟨-, hpast, -⟩ | ⟨hmember, hpast, -⟩
    · exact hpast hahead
    · cases pc <;> first | exact hpast hmember | cases hahead
  · intro hahead
    rcases hcases with hpast | ⟨-, hpast, -⟩
    · exact hunloaded hpast (List.mem_append_right _ hahead)
    · exact absurd hahead hpast
  · intro hahead config hload
    rcases hcases with hpast | ⟨-, -, hsame⟩
    · rw [hunloaded hpast (List.mem_append_left _ hahead)] at hload
      cases hload
    · rw [loadDocument_written_hidden hload]
      exact hsame hahead (by rw [hload]; rfl)
  · intro loaded hloaded
    exact absurd (by rw [hloaded]; rfl) hwriting

theorem Spares.move {c c' : Configs} {pc pc' : MutationPc} (hspares : Spares op dir after pc)
    (hsaved : c dir = some after.written)
    (hmove : MutationMoves canonicalize op c pc c' pc') : Spares op dir after pc' := by
  obtain ⟨hchecks, hplans, happlies, -⟩ := hspares
  have hloads : loadRaw c dir = loadDocument dir after.written := by
    rw [loadRaw, hsaved, Option.bind_some]
  cases hmove with
  | checkDone =>
      refine .of_idle rfl List.not_mem_nil hplans ?_
      intro hahead
      cases hahead
  | checkPass hpass =>
      exact .of_idle rfl (fun h => hchecks (List.mem_cons_of_mem _ h)) hplans happlies
  | @planRead other rest planned config hload =>
      refine .of_idle rfl hchecks (fun h => hplans (List.mem_cons_of_mem _ h)) ?_
      intro hentry saved hsaved
      rw [MutationPc.appliesAhead, planEntry_fst, List.mem_append] at hentry
      rcases hentry with hplanned | hnew
      · exact happlies hplanned saved hsaved
      · split at hnew
        · cases hnew
        · have hsame : dir = other := List.mem_singleton.mp hnew
          subst hsame
          rw [hplans List.mem_cons_self] at hsaved
          cases hsaved
  | applySame hload hsame =>
      exact .of_idle rfl hchecks hplans fun h => happlies (List.mem_cons_of_mem _ h)
  | @applyLoad other previous rest applied config hload hother =>
      refine ⟨hchecks, hplans, fun h => happlies (List.mem_cons_of_mem _ h), ?_⟩
      intro loaded hloaded
      cases hloaded
      rw [hloads] at hload
      exact absurd (happlies List.mem_cons_self _ hload) hother
  | @revertLoad other previous rest config hload hother =>
      refine ⟨hchecks, hplans, happlies, ?_⟩
      intro loaded hloaded
      cases hloaded
      refine ⟨previous, rest, rfl, ?_⟩
      rw [hloads] at hload
      rw [loadDocument_written_hidden hload] at hother
      exact hother.symm
  | planDone => exact .of_idle rfl hchecks hplans happlies
  | write => exact .of_idle rfl hchecks hplans happlies
  | _ =>
      refine .of_idle rfl List.not_mem_nil ?_ ?_
      · intro hahead
        cases hahead
      · intro hahead
        cases hahead

/-- Where the mutation would be without the save: a revert that has loaded the
saved document is still about to load. -/
def Follows (dir : PathBuf) (pcA pc : MutationPc) : Prop :=
  pcA = pc ∨ ∃ previous rest loaded, pc = .revertWrite dir previous rest loaded ∧
    pcA = .revert ((dir, previous) :: rest)

/-- A vault that is passed over with the saved document is set without it. -/
theorem MutationRun.setHidden {c₀ c : Configs} {previous : Bool}
    {rest applied : List (PathBuf × Bool)} (hsavable : Savable dir after c)
    (hrun : MutationRun canonicalize op c₀ c (.apply ((dir, previous) :: rest) applied)) :
    ∃ c', MutationRun canonicalize op c₀ c' (.apply rest (applied ++ [(dir, previous)])) ∧
      ∀ document, Function.update c' dir document = Function.update c dir document := by
  obtain ⟨before, hload, -⟩ := hsavable
  by_cases hflag : before.vault.hidden = op.hidden
  · exact ⟨c, hrun.step (.applySame hload hflag), fun _ => rfl⟩
  · refine ⟨_, (hrun.step (.applyLoad hload hflag)).step .write, ?_⟩
    intro document
    exact Function.update_idem _ _ _

/-- The mutation without the save keeps up with the one that spares the saved
vault. -/
theorem follow_move {c₀ c c' : Configs} {pc pc' : MutationPc}
    (hrun : MutationRun canonicalize op c₀ c pc) (hsavable : Savable dir after c)
    (hspares : Spares op dir after pc) (hwriting : pc.writing.map (·.1) ≠ some dir)
    (hmove : MutationMoves canonicalize op (Function.update c dir (some after.written))
      pc c' pc') :
    ∃ cA pcA, MutationRun canonicalize op c₀ cA pcA ∧ Follows dir pcA pc' ∧
      c' = Function.update cA dir (some after.written) := by
  cases hmove with
  | @checkPass other rest hpass =>
      have hother : other ≠ dir := by
        intro hsame
        exact hspares.checks (hsame ▸ List.mem_cons_self)
      rw [assignable_congr (loadRaw_update_of_ne hother)] at hpass
      exact ⟨c, _, hrun.step (.checkPass hpass), .inl rfl, rfl⟩
  | @planRead other rest planned config hload =>
      have hother : other ≠ dir := by
        intro hsame
        subst hsame
        rw [loadRaw_update_self, hspares.plans List.mem_cons_self] at hload
        cases hload
      rw [loadRaw_update_of_ne hother] at hload
      exact ⟨c, _, hrun.step (.planRead hload), .inl rfl, rfl⟩
  | @applySame other previous rest applied config hload hsame =>
      by_cases hother : other = dir
      · subst hother
        obtain ⟨cA, hrunA, hconfigs⟩ := hrun.setHidden hsavable
        exact ⟨cA, _, hrunA, .inl rfl, (hconfigs _).symm⟩
      · rw [loadRaw_update_of_ne hother] at hload
        exact ⟨c, _, hrun.step (.applySame hload hsame), .inl rfl, rfl⟩
  | @applyLoad other previous rest applied config hload hflag =>
      have hother : other ≠ dir := by
        intro hsame
        subst hsame
        rw [loadRaw_update_self] at hload
        exact hflag (hspares.applies List.mem_cons_self _ hload)
      rw [loadRaw_update_of_ne hother] at hload
      exact ⟨c, _, hrun.step (.applyLoad hload hflag), .inl rfl, rfl⟩
  | @write other previous rest applied config =>
      have hother : other ≠ dir := by
        intro hsame
        exact hwriting (congrArg some hsame)
      refine ⟨_, _, hrun.step .write, .inl rfl, ?_⟩
      exact Function.update_comm hother.symm _ _ _
  | @revertLoad other previous rest config hload hflag =>
      by_cases hother : other = dir
      · subst hother
        exact ⟨c, _, hrun, .inr ⟨previous, rest, config, rfl, rfl⟩, rfl⟩
      · rw [loadRaw_update_of_ne hother] at hload
        exact ⟨c, _, hrun.step (.revertLoad hload hflag), .inl rfl, rfl⟩
  | @revertWrite other previous rest config =>
      have hother : other ≠ dir := by
        intro hsame
        exact hwriting (congrArg some hsame)
      refine ⟨_, _, hrun.step .revertWrite, .inl rfl, ?_⟩
      exact Function.update_comm hother.symm _ _ _
  | checkDone => exact ⟨c, _, hrun.step .checkDone, .inl rfl, rfl⟩
  | checkFail => exact ⟨c, _, hrun.step .checkFail, .inl rfl, rfl⟩
  | planDone => exact ⟨c, _, hrun.step .planDone, .inl rfl, rfl⟩
  | planFail => exact ⟨c, _, hrun.step .planFail, .inl rfl, rfl⟩
  | applyDone => exact ⟨c, _, hrun.step .applyDone, .inl rfl, rfl⟩
  | applyFail => exact ⟨c, _, hrun.step .applyFail, .inl rfl, rfl⟩
  | writeFail => exact ⟨c, _, hrun.step .writeFail, .inl rfl, rfl⟩
  | saved => exact ⟨c, _, hrun.step .saved, .inl rfl, rfl⟩
  | saveFail => exact ⟨c, _, hrun.step .saveFail, .inl rfl, rfl⟩
  | revertDone => exact ⟨c, _, hrun.step .revertDone, .inl rfl, rfl⟩
  | revertSkip => exact ⟨c, _, hrun.step .revertSkip, .inl rfl, rfl⟩
  | revertWriteFail => exact ⟨c, _, hrun.step .revertWriteFail, .inl rfl, rfl⟩

/-! ## Every undisturbed run -/

/-- How the steps so far can be put in an order. -/
inductive Ordered (canonicalize : Canonicalize) (op : GroupMutation) (dir : PathBuf)
    (after : VaultConfig) (c₀ : Configs) : Cascade → Prop where
  | unsaved {c : Configs} {pc : MutationPc} {save : ConfigSavePc}
      (hrun : MutationRun canonicalize op c₀ c pc) (hsave : save ≠ .returned true)
      (hloaded : save ≠ .load → save ≠ .returned false → Savable dir after c) :
      Ordered canonicalize op dir after c₀ ⟨c, pc, save⟩
  | saveFirst {c : Configs} {pc : MutationPc} (hsavable : Savable dir after c₀)
      (hrun : MutationRun canonicalize op
        (Function.update c₀ dir (some after.written)) c pc) :
      Ordered canonicalize op dir after c₀ ⟨c, pc, .returned true⟩
  | saveLast {c : Configs} {pcA pc : MutationPc} (hsavable : Savable dir after c)
      (hrun : MutationRun canonicalize op c₀ c pcA) (hfollows : Follows dir pcA pc)
      (hspares : Spares op dir after pc) :
      Ordered canonicalize op dir after c₀
        ⟨Function.update c dir (some after.written), pc, .returned true⟩

theorem MutationRun.savable_iff {c₀ c : Configs} {pc : MutationPc}
    (hrun : MutationRun canonicalize op c₀ c pc) :
    Savable dir after c ↔ Savable dir after c₀ := by
  have hsame := hrun.cascadeInv.identity dir
  exact ⟨.congr hsame.symm, .congr hsame⟩

theorem ordered_mutation {c₀ : Configs} {s s' : Cascade} {ok : Bool}
    (hinv : Ordered canonicalize op dir after c₀ s)
    (hstep : cascadeStep canonicalize op dir after s (.mutation ok) = some s')
    (hok : CascadeUndisturbed canonicalize op dir after s (.mutation ok) s') :
    Ordered canonicalize op dir after c₀ s' := by
  obtain ⟨⟨c', pc'⟩, hmutation, rfl⟩ := Option.map_eq_some_iff.mp hstep
  have hmove := mutationMoves_of_step hmutation
  cases hinv with
  | @unsaved c pc save hrun hsave hloaded =>
      have hrun' := hrun.step hmove
      refine .unsaved hrun' hsave ?_
      intro hload hreturned
      exact hrun'.savable_iff.mpr (hrun.savable_iff.mp (hloaded hload hreturned))
  | saveFirst hsavable hrun => exact .saveFirst hsavable (hrun.step hmove)
  | @saveLast c pcA pc hsavable hrun hfollows hspares =>
      have hspares' := hspares.move (Function.update_self _ _ _) hmove
      by_cases hwriting : pc.writing.map (·.1) = some dir
      · -- the revert has the saved document in its hands, so its write fails
        obtain ⟨⟨_, loaded⟩, hloaded, rfl⟩ := Option.map_eq_some_iff.mp hwriting
        obtain ⟨previous, rest, rfl, hprevious⟩ := hspares.writes loaded hloaded
        have hfails : ok = false := by
          by_contra hsucceeds
          have htaken := hok rfl (by simpa using hsucceeds)
          rw [MutationPc.takingBack, Bool.eq_not.mpr hprevious] at htaken
          exact htaken rfl
        subst hfails
        cases hmutation
        rcases hfollows with rfl | ⟨_, _, _, hpc, rfl⟩
        · exact .saveLast hsavable (hrun.step .revertWriteFail) (.inl rfl) hspares'
        · cases hpc
          exact .saveLast hsavable (hrun.step .revertSkip) (.inl rfl) hspares'
      · rcases hfollows with rfl | ⟨previous, rest, loaded, rfl, -⟩
        · obtain ⟨cA, pcA', hrunA, hfollows', rfl⟩ :=
            follow_move hrun hsavable hspares hwriting hmove
          exact .saveLast (hrunA.savable_iff.mpr (hrun.savable_iff.mp hsavable)) hrunA
            hfollows' hspares'
        · exact absurd rfl hwriting

theorem ordered_save {c₀ : Configs} {s s' : Cascade} {ok : Bool}
    (hinv : Ordered canonicalize op dir after c₀ s)
    (hstep : cascadeStep canonicalize op dir after s (.save ok) = some s')
    (hok : CascadeUndisturbed canonicalize op dir after s (.save ok) s') :
    Ordered canonicalize op dir after c₀ s' := by
  obtain ⟨⟨c', save'⟩, hsaves, rfl⟩ := Option.map_eq_some_iff.mp hstep
  cases hinv with
  | @unsaved c pc save hrun hsave hloaded =>
      unfold configSaveStep at hsaves
      dsimp only at hsaves
      split at hsaves
      · split at hsaves <;> cases hsaves
        · rename_i before hload
          refine .unsaved hrun (by split <;> simp) ?_
          intro _ hreturned
          refine ⟨before, hload, ?_⟩
          by_contra hid
          exact hreturned (if_neg hid)
        · exact .unsaved hrun (by simp) fun _ h => absurd rfl h
      · cases hsaves
        refine .unsaved hrun (by split <;> simp) ?_
        intro _ _
        exact hloaded (by simp) (by simp)
      · split at hsaves <;> cases hsaves
        · rename_i hwrites
          have hsavable : Savable dir after c := hloaded (by simp) (by simp)
          obtain ⟨hwriting, hbetween⟩ := hok rfl hwrites
          by_cases hreplay : Replayable canonicalize op dir after pc
          · exact .saveFirst (hrun.savable_iff.mp hsavable) (hrun.replay hreplay)
          · exact .saveLast hsavable hrun (.inl rfl)
              (.of_not_replayable hreplay hwriting hbetween)
        · exact .unsaved hrun (by simp) fun _ h => absurd rfl h
      · cases hsaves
  | saveFirst hsavable hrun => cases hsaves
  | saveLast hsavable hrun hfollows hspares => cases hsaves

/-- When both calls have returned and neither was disturbed, one after the other
gives the same. -/
theorem cascadeSave_serial {c₀ : Configs} {es : List CascadeEvent} {s : Cascade}
    {mutated saved : Bool}
    (hrun : Run (cascadeStep canonicalize op dir after)
      (CascadeUndisturbed canonicalize op dir after) (.start op c₀) es s)
    (hmutation : s.mutation = .returned mutated) (hsave : s.save = .returned saved) :
    Serial canonicalize op dir after c₀ s := by
  have hstart : Ordered canonicalize op dir after c₀ (.start op c₀) :=
    .unsaved (.start c₀) (by simp) fun h _ => absurd rfl h
  have hordered : Ordered canonicalize op dir after c₀ s := by
    refine hrun.invariant (Ordered canonicalize op dir after c₀) hstart ?_
    rintro s (ok | ok) s' hs hstep hok
    · exact ordered_mutation hs hstep hok
    · exact ordered_save hs hstep hok
  cases hordered with
  | unsaved hmutates hsave' _ =>
      obtain rfl : saved = false := by
        by_contra hsucceeds
        exact hsave' (hsave.trans (by simpa using hsucceeds))
      dsimp only at hsave
      subst hsave
      exact .inl ⟨_, _, hmutates, configSaveRun_refused _, rfl⟩
  | saveFirst hsavable hmutates =>
      exact .inr ⟨_, _, configSaveRun_saved hsavable, hmutates, rfl⟩
  | saveLast hsavable hmutates hfollows _ =>
      rcases hfollows with rfl | ⟨_, _, _, hpc, -⟩
      · exact .inl ⟨_, _, hmutates, configSaveRun_saved hsavable, rfl⟩
      · rw [hpc] at hmutation
        cases hmutation

/-! ## A save that is lost -/

theorem ConfigSaveRun.saved {c₀ c : Configs}
    (hrun : ConfigSaveRun dir after c₀ c (.returned true)) :
    c dir = some after.written := by
  obtain ⟨oks, hrun⟩ := hrun
  have hinv : ConfigSavePc.returned true = .returned true → c dir = some after.written := by
    refine hrun.invariant (fun s => s.2 = .returned true → s.1 dir = some after.written)
      (fun h => by cases h) ?_
    rintro ⟨c, pc⟩ ok ⟨c', pc'⟩ - hstep - hreturned
    dsimp only at hreturned ⊢
    subst hreturned
    unfold configSaveStep at hstep
    dsimp only at hstep
    split at hstep
    · split at hstep
      · split at hstep <;> cases hstep
      · cases hstep
    · split at hstep <;> cases hstep
    · split at hstep <;> cases hstep
      exact Function.update_self _ _ _
    · cases hstep
  exact hinv rfl

/-- After two calls in a row the vault has the name that was saved. -/
theorem Serial.identity {c₀ : Configs} {s : Cascade}
    (hserial : Serial canonicalize op dir after c₀ s) (hsave : s.save = .returned true) :
    (s.configs dir).map (·.identity) = some after.identity := by
  rw [Serial, hsave] at hserial
  rcases hserial with ⟨m, c, -, hsaved, hconfigs⟩ | ⟨m, c, hsaved, hmutates, hconfigs⟩
  · rw [← hconfigs, hsaved.saved]
    rfl
  · rw [← hconfigs, hmutates.cascadeInv.identity, hsaved.saved]
    rfl

end

/-! ## Concrete runs -/

def notesDir : PathBuf := "/home/user/root/.upriv/vaults/notes"

def notesDocument : VaultConfig := { vault := { id := "notes", displayName := "Notes" } }

/-- What the user saves: another name. -/
def diaryDocument : VaultConfig := { vault := { id := "notes", displayName := "Diary" } }

def notesConfigs : Configs := Function.update (fun _ => none) notesDir (some notesDocument)

/-- A group that holds the vault is hidden. -/
def hideNotes : GroupMutation where
  checked := []
  members := [notesDir]
  hidden := true
  checked_nodup := List.nodup_nil
  members_nodup := List.nodup_singleton _

instance (canonicalize : Canonicalize) (op : GroupMutation) (dir : PathBuf)
    (after : VaultConfig) (s : Cascade) (e : CascadeEvent) (s' : Cascade) :
    Decidable (CascadeUndisturbed canonicalize op dir after s e s') := by
  unfold CascadeUndisturbed MutationPc.Between
  cases e <;> infer_instance

/-- The save writes before the cascade loads the vault again. -/
def keptSaveEvents : List CascadeEvent :=
  List.replicate 3 (.mutation true) ++ List.replicate 3 (.save true) ++
    List.replicate 4 (.mutation true)

theorem cascadeSave_serial_kept :
    ∃ s, Run (cascadeStep (fun _ => none) hideNotes notesDir diaryDocument)
        (CascadeUndisturbed (fun _ => none) hideNotes notesDir diaryDocument)
        (.start hideNotes notesConfigs) keptSaveEvents s ∧
      s.configs notesDir = some (diaryDocument.withHidden true) ∧
      Serial (fun _ => none) hideNotes notesDir diaryDocument notesConfigs s := by
  obtain ⟨s, hrun, htest⟩ := exists_run_of_execute
    (cascadeStep (fun _ => none) hideNotes notesDir diaryDocument)
    (CascadeUndisturbed (fun _ => none) hideNotes notesDir diaryDocument) keptSaveEvents
    (.start hideNotes notesConfigs)
    (fun s => decide (s.mutation = .returned true ∧ s.save = .returned true ∧
      s.configs notesDir = some (diaryDocument.withHidden true)))
    (by decide +kernel)
  obtain ⟨hmutation, hsave, hconfig⟩ := of_decide_eq_true htest
  exact ⟨s, hrun, hconfig, cascadeSave_serial hrun hmutation hsave⟩

/-- The cascade has loaded the vault when the save writes. -/
def lostSaveEvents : List CascadeEvent :=
  List.replicate 4 (.mutation true) ++ List.replicate 3 (.save true) ++
    List.replicate 3 (.mutation true)

/-- Hiding the group and saving another name of the vault both succeed, and the
vault keeps its old name. -/
theorem cascadeSave_lost :
    ∃ s, Run (cascadeStep (fun _ => none) hideNotes notesDir diaryDocument) Always
        (.start hideNotes notesConfigs) lostSaveEvents s ∧
      s.mutation = .returned true ∧ s.save = .returned true ∧
      ¬ Serial (fun _ => none) hideNotes notesDir diaryDocument notesConfigs s := by
  obtain ⟨s, hrun, htest⟩ := exists_run_of_execute
    (cascadeStep (fun _ => none) hideNotes notesDir diaryDocument) Always lostSaveEvents
    (.start hideNotes notesConfigs)
    (fun s => decide (s.mutation = .returned true ∧ s.save = .returned true ∧
      (s.configs notesDir).map (·.identity) ≠ some diaryDocument.identity))
    (by decide +kernel)
  obtain ⟨hmutation, hsave, hname⟩ := of_decide_eq_true htest
  exact ⟨s, hrun, hmutation, hsave, fun hserial => hname (hserial.identity hsave)⟩

end Upriv
