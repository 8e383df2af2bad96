import Upriv.Config.VaultConfig.Documents
import Upriv.Support.Runs

/-!
# The cascade of a hidden flag, step by step

A mutation of a group that hides or shows its vaults checks them, plans,
applies and, when something fails, reverts.  `set_vault_hidden` loads a
configuration and writes it in two steps, and other calls can come between
them.  A configuration is the document in `config.toml`.
-/

namespace Upriv

/-! ## The mutation -/

/-- A mutation of a group, as far as it reads and writes configurations. -/
structure GroupMutation where
  /-- The vaults that must be assignable. -/
  checked : List PathBuf
  /-- The vaults, of those that exist, whose flag is set. -/
  members : List PathBuf
  hidden : Bool
  checked_nodup : checked.Nodup
  members_nodup : members.Nodup

/-- The point a mutation has reached.  A vault comes with its flag before. -/
inductive MutationPc where
  | check (rest : List PathBuf)
  | plan (rest : List PathBuf) (planned : List (PathBuf × Bool))
  | apply (rest applied : List (PathBuf × Bool))
  | write (dir : PathBuf) (previous : Bool) (rest applied : List (PathBuf × Bool))
      (loaded : VaultConfig)
  | saveGroups (applied : List (PathBuf × Bool))
  | revert (rest : List (PathBuf × Bool))
  | revertWrite (dir : PathBuf) (previous : Bool) (rest : List (PathBuf × Bool))
      (loaded : VaultConfig)
  | returned (ok : Bool)
  deriving DecidableEq, Repr

/-- `planned` with a vault that has to change. -/
def planEntry (hidden : Bool) (planned : List (PathBuf × Bool)) (dir : PathBuf)
    (config : VaultConfig) : List (PathBuf × Bool) :=
  if config.vault.hidden = hidden then planned else planned ++ [(dir, config.vault.hidden)]

section
variable (canonicalize : Canonicalize) (op : GroupMutation)

/-- The next step of a mutation.  `ok` is whether the file system and what else
the step needs play along; loading and saving the registry is part of it. -/
def mutationStep (s : Configs × MutationPc) (ok : Bool) : Option (Configs × MutationPc) :=
  let (configs, pc) := s
  match pc with
  | .check [] => some (configs, if ok then .plan op.members [] else .returned false)
  | .check (dir :: rest) =>
    some (configs,
      if ok && assignable canonicalize configs dir then .check rest else .returned false)
  | .plan [] planned => some (configs, .apply planned [])
  | .plan (dir :: rest) planned =>
    match ok, loadRaw configs dir with
    | true, some config => some (configs, .plan rest (planEntry op.hidden planned dir config))
    | _, _ => some (configs, .returned false)
  | .apply [] applied => some (configs, .saveGroups applied)
  | .apply ((dir, previous) :: rest) applied =>
    match ok, loadRaw configs dir with
    | true, some config =>
      some (configs, if config.vault.hidden = op.hidden then
        .apply rest (applied ++ [(dir, previous)])
      else .write dir previous rest applied config)
    | _, _ => some (configs, .revert applied.reverse)
  | .write dir previous rest applied config =>
    if ok then
      some (Function.update configs dir (some (config.withHidden op.hidden).written),
        .apply rest (applied ++ [(dir, previous)]))
    else some (configs, .revert applied.reverse)
  | .saveGroups applied =>
    some (configs, if ok then .returned true else .revert applied.reverse)
  | .revert [] => some (configs, .returned false)
  | .revert ((dir, previous) :: rest) =>
    match ok, loadRaw configs dir with
    | true, some config =>
      some (configs, if config.vault.hidden = previous then .revert rest
        else .revertWrite dir previous rest config)
    | _, _ => some (configs, .revert rest)
  | .revertWrite dir previous rest config =>
    if ok then
      some (Function.update configs dir (some (config.withHidden previous).written),
        .revert rest)
    else some (configs, .revert rest)
  | .returned _ => none

/-- What one step of a mutation can do. -/
inductive MutationMoves (c : Configs) : MutationPc → Configs → MutationPc → Prop where
  | checkDone : MutationMoves c (.check []) c (.plan op.members [])
  | checkPass {dir : PathBuf} {rest : List PathBuf}
      (hpass : assignable canonicalize c dir = true) :
      MutationMoves c (.check (dir :: rest)) c (.check rest)
  | checkFail {rest : List PathBuf} : MutationMoves c (.check rest) c (.returned false)
  | planDone {planned : List (PathBuf × Bool)} :
      MutationMoves c (.plan [] planned) c (.apply planned [])
  | planRead {dir : PathBuf} {rest : List PathBuf} {planned : List (PathBuf × Bool)}
      {config : VaultConfig} (hload : loadRaw c dir = some config) :
      MutationMoves c (.plan (dir :: rest) planned) c
        (.plan rest (planEntry op.hidden planned dir config))
  | planFail {dir : PathBuf} {rest : List PathBuf} {planned : List (PathBuf × Bool)} :
      MutationMoves c (.plan (dir :: rest) planned) c (.returned false)
  | applyDone {applied : List (PathBuf × Bool)} :
      MutationMoves c (.apply [] applied) c (.saveGroups applied)
  | applySame {dir : PathBuf} {previous : Bool} {rest applied : List (PathBuf × Bool)}
      {config : VaultConfig} (hload : loadRaw c dir = some config)
      (hsame : config.vault.hidden = op.hidden) :
      MutationMoves c (.apply ((dir, previous) :: rest) applied) c
        (.apply rest (applied ++ [(dir, previous)]))
  | applyLoad {dir : PathBuf} {previous : Bool} {rest applied : List (PathBuf × Bool)}
      {config : VaultConfig} (hload : loadRaw c dir = some config)
      (hother : config.vault.hidden ≠ op.hidden) :
      MutationMoves c (.apply ((dir, previous) :: rest) applied) c
        (.write dir previous rest applied config)
  | applyFail {entry : PathBuf × Bool} {rest applied : List (PathBuf × Bool)} :
      MutationMoves c (.apply (entry :: rest) applied) c (.revert applied.reverse)
  | write {dir : PathBuf} {previous : Bool} {rest applied : List (PathBuf × Bool)}
      {config : VaultConfig} :
      MutationMoves c (.write dir previous rest applied config)
        (Function.update c dir (some (config.withHidden op.hidden).written))
        (.apply rest (applied ++ [(dir, previous)]))
  | writeFail {dir : PathBuf} {previous : Bool} {rest applied : List (PathBuf × Bool)}
      {config : VaultConfig} :
      MutationMoves c (.write dir previous rest applied config) c (.revert applied.reverse)
  | saved {applied : List (PathBuf × Bool)} :
      MutationMoves c (.saveGroups applied) c (.returned true)
  | saveFail {applied : List (PathBuf × Bool)} :
      MutationMoves c (.saveGroups applied) c (.revert applied.reverse)
  | revertDone : MutationMoves c (.revert []) c (.returned false)
  | revertSkip {entry : PathBuf × Bool} {rest : List (PathBuf × Bool)} :
      MutationMoves c (.revert (entry :: rest)) c (.revert rest)
  | revertLoad {dir : PathBuf} {previous : Bool} {rest : List (PathBuf × Bool)}
      {config : VaultConfig} (hload : loadRaw c dir = some config)
      (hother : config.vault.hidden ≠ previous) :
      MutationMoves c (.revert ((dir, previous) :: rest)) c
        (.revertWrite dir previous rest config)
  | revertWrite {dir : PathBuf} {previous : Bool} {rest : List (PathBuf × Bool)}
      {config : VaultConfig} :
      MutationMoves c (.revertWrite dir previous rest config)
        (Function.update c dir (some (config.withHidden previous).written)) (.revert rest)
  | revertWriteFail {dir : PathBuf} {previous : Bool} {rest : List (PathBuf × Bool)}
      {config : VaultConfig} :
      MutationMoves c (.revertWrite dir previous rest config) c (.revert rest)

variable {canonicalize op}

theorem mutationMoves_of_step {c c' : Configs} {pc pc' : MutationPc} {ok : Bool}
    (h : mutationStep canonicalize op (c, pc) ok = some (c', pc')) :
    MutationMoves canonicalize op c pc c' pc' := by
  unfold mutationStep at h
  dsimp only at h
  split at h
  · cases ok <;> cases h
    · exact .checkFail
    · exact .checkDone
  · split at h <;> cases h
    · rename_i hpass
      exact .checkPass (Bool.and_eq_true_iff.mp hpass).2
    · exact .checkFail
  · cases h
    exact .planDone
  · split at h <;> cases h
    · rename_i hload
      exact .planRead hload
    · exact .planFail
  · cases h
    exact .applyDone
  · split at h
    · rename_i hload
      split at h <;> cases h
      · rename_i hsame
        exact .applySame hload hsame
      · rename_i hother
        exact .applyLoad hload hother
    · cases h
      exact .applyFail
  · split at h <;> cases h
    · exact .write
    · exact .writeFail
  · cases ok <;> cases h
    · exact .saveFail
    · exact .saved
  · cases h
    exact .revertDone
  · split at h
    · rename_i hload
      split at h <;> cases h
      · exact .revertSkip
      · rename_i hother
        exact .revertLoad hload hother
    · cases h
      exact .revertSkip
  · split at h <;> cases h
    · exact .revertWrite
    · exact .revertWriteFail
  · cases h

/-- Every move is a step for some answer of the file system. -/
theorem MutationMoves.exists_step {c c' : Configs} {pc pc' : MutationPc}
    (h : MutationMoves canonicalize op c pc c' pc') :
    ∃ ok, mutationStep canonicalize op (c, pc) ok = some (c', pc') := by
  cases h with
  | checkDone => exact ⟨true, rfl⟩
  | checkPass hpass => exact ⟨true, by simp [mutationStep, hpass]⟩
  | @checkFail rest => exact ⟨false, by cases rest <;> rfl⟩
  | planDone => exact ⟨true, rfl⟩
  | planRead hload => exact ⟨true, by simp [mutationStep, hload]⟩
  | planFail => exact ⟨false, rfl⟩
  | applyDone => exact ⟨true, rfl⟩
  | applySame hload hsame => exact ⟨true, by simp [mutationStep, hload, hsame]⟩
  | applyLoad hload hother => exact ⟨true, by simp [mutationStep, hload, hother]⟩
  | applyFail => exact ⟨false, rfl⟩
  | write => exact ⟨true, rfl⟩
  | writeFail => exact ⟨false, rfl⟩
  | saved => exact ⟨true, rfl⟩
  | saveFail => exact ⟨false, rfl⟩
  | revertDone => exact ⟨true, rfl⟩
  | revertSkip => exact ⟨false, rfl⟩
  | revertLoad hload hother => exact ⟨true, by simp [mutationStep, hload, hother]⟩
  | revertWrite => exact ⟨true, rfl⟩
  | revertWriteFail => exact ⟨false, rfl⟩

/-- Runs of a mutation alone, from its start. -/
def MutationRun (canonicalize : Canonicalize) (op : GroupMutation) (c₀ c : Configs)
    (pc : MutationPc) : Prop :=
  ∃ oks, Run (mutationStep canonicalize op) Always (c₀, .check op.checked) oks (c, pc)

theorem MutationRun.start (c : Configs) :
    MutationRun canonicalize op c c (.check op.checked) :=
  ⟨[], .refl _⟩

theorem MutationRun.step {c₀ c c' : Configs} {pc pc' : MutationPc}
    (hrun : MutationRun canonicalize op c₀ c pc)
    (hmove : MutationMoves canonicalize op c pc c' pc') :
    MutationRun canonicalize op c₀ c' pc' := by
  obtain ⟨oks, hrun⟩ := hrun
  obtain ⟨ok, hstep⟩ := hmove.exists_step
  exact ⟨oks ++ [ok], hrun.tail hstep trivial⟩

/-- What holds at the start and every move preserves holds in every run. -/
theorem MutationRun.invariant (Inv : Configs → MutationPc → Prop) {c₀ c : Configs}
    {pc : MutationPc} (h0 : Inv c₀ (.check op.checked))
    (hinv : ∀ c pc c' pc', Inv c pc → MutationMoves canonicalize op c pc c' pc' →
      Inv c' pc')
    (hrun : MutationRun canonicalize op c₀ c pc) : Inv c pc := by
  obtain ⟨oks, hrun⟩ := hrun
  refine hrun.invariant (fun s => Inv s.1 s.2) h0 ?_
  intro s ok s' hs hstep _
  exact hinv _ _ _ _ hs (mutationMoves_of_step hstep)

end

/-! ## What lies ahead -/

namespace MutationPc

/-- The checks to come. -/
def checksAhead : MutationPc → List PathBuf
  | .check rest => rest
  | _ => []

/-- The vaults that the plan has yet to read. -/
def plansAhead (op : GroupMutation) : MutationPc → List PathBuf
  | .check _ => op.members
  | .plan rest _ => rest
  | _ => []

/-- The planned vaults that have yet to be set. -/
def appliesAhead : MutationPc → List PathBuf
  | .plan _ planned => planned.map (·.1)
  | .apply rest _ => rest.map (·.1)
  | .write _ _ rest _ _ => rest.map (·.1)
  | _ => []

/-- The vault whose new document is about to be written. -/
def writing : MutationPc → Option (PathBuf × VaultConfig)
  | .write dir _ _ _ loaded => some (dir, loaded)
  | .revertWrite dir _ _ loaded => some (dir, loaded)
  | _ => none

/-- The vault whose flag is about to be set back, and to what. -/
def takingBack : MutationPc → Option (PathBuf × Bool)
  | .revertWrite dir previous _ _ => some (dir, previous)
  | _ => none

/-- The vault that is being set and those to be set. -/
def settingAhead : MutationPc → List PathBuf
  | .write dir _ rest _ _ => dir :: rest.map (·.1)
  | pc => pc.appliesAhead

/-- The vaults that may have to be taken back. -/
def revertsAhead : MutationPc → List PathBuf
  | .apply _ applied => applied.map (·.1)
  | .write _ _ _ applied _ => applied.map (·.1)
  | .saveGroups applied => applied.map (·.1)
  | .revert rest => rest.map (·.1)
  | .revertWrite dir _ rest _ => dir :: rest.map (·.1)
  | _ => []

end MutationPc

/-- A mutation meets each vault once, and only its members are written. -/
structure MutationPc.Wf (op : GroupMutation) (pc : MutationPc) : Prop where
  checks_nodup : pc.checksAhead.Nodup
  checks_subset : pc.checksAhead ⊆ op.checked
  plans_nodup : (pc.settingAhead ++ pc.plansAhead op).Nodup
  plans_subset : pc.settingAhead ++ pc.plansAhead op ⊆ op.members
  reverts_subset : pc.revertsAhead ⊆ op.members

section
variable {canonicalize : Canonicalize} {op : GroupMutation}

theorem planEntry_fst (hidden : Bool) (planned : List (PathBuf × Bool)) (dir : PathBuf)
    (config : VaultConfig) :
    (planEntry hidden planned dir config).map (·.1) =
      planned.map (·.1) ++ if config.vault.hidden = hidden then [] else [dir] := by
  unfold planEntry
  split <;> simp

theorem MutationPc.wf_start : (MutationPc.check op.checked).Wf op where
  checks_nodup := op.checked_nodup
  checks_subset := List.Subset.refl _
  plans_nodup := op.members_nodup
  plans_subset := List.Subset.refl _
  reverts_subset := List.nil_subset _

theorem MutationPc.Wf.move {c c' : Configs} {pc pc' : MutationPc} (hwf : pc.Wf op)
    (hmove : MutationMoves canonicalize op c pc c' pc') : pc'.Wf op := by
  obtain ⟨hchecks, hchecked, hplans, hmembers, hreverts⟩ := hwf
  cases hmove with
  | checkPass hpass =>
      exact ⟨hchecks.of_cons, fun _ h => hchecked (List.mem_cons_of_mem _ h), hplans,
        hmembers, hreverts⟩
  | @planRead dir rest planned config hload =>
      have hsub : List.Sublist
          ((planEntry op.hidden planned dir config).map (·.1) ++ rest)
          (planned.map (·.1) ++ dir :: rest) := by
        rw [planEntry_fst]
        split <;> simp
      exact ⟨hchecks, hchecked, hplans.sublist hsub, fun _ h => hmembers (hsub.subset h),
        hreverts⟩
  | _ =>
      constructor <;>
        simp_all [MutationPc.checksAhead, MutationPc.plansAhead, MutationPc.settingAhead,
          MutationPc.appliesAhead, MutationPc.revertsAhead, op.members_nodup]

/-- Documents stay those of the same vaults, and what is about to be written
was loaded from the document that is still there. -/
structure CascadeInv (c₀ c : Configs) (pc : MutationPc) : Prop where
  identity : ∀ dir, (c dir).map (·.identity) = (c₀ dir).map (·.identity)
  loaded : ∀ dir config, pc.writing = some (dir, config) → loadRaw c dir = some config

theorem identity_update {c : Configs} {dir : PathBuf} {config : VaultConfig} {hidden : Bool}
    (hload : loadRaw c dir = some config) (other : PathBuf) :
    (Function.update c dir (some (config.withHidden hidden).written) other).map
        (·.identity) =
      (c other).map (·.identity) := by
  by_cases hother : other = dir
  · subst hother
    obtain ⟨document, hdocument, hload⟩ := Option.bind_eq_some_iff.mp hload
    have hsame : config.identity = document.identity := loadDocument_identity hload
    rw [Function.update_self, hdocument]
    exact congrArg some hsame
  · rw [Function.update_of_ne hother]

theorem CascadeInv.move {c₀ c c' : Configs} {pc pc' : MutationPc}
    (hinv : CascadeInv c₀ c pc) (hmove : MutationMoves canonicalize op c pc c' pc') :
    CascadeInv c₀ c' pc' := by
  cases hmove with
  | write =>
      constructor
      · intro other
        rw [identity_update (hinv.loaded _ _ rfl), hinv.identity]
      · intro dir config hwriting
        cases hwriting
  | revertWrite =>
      constructor
      · intro other
        rw [identity_update (hinv.loaded _ _ rfl), hinv.identity]
      · intro dir config hwriting
        cases hwriting
  | applyLoad hload hother =>
      refine ⟨hinv.identity, ?_⟩
      intro dir config hwriting
      cases hwriting
      exact hload
  | revertLoad hload hother =>
      refine ⟨hinv.identity, ?_⟩
      intro dir config hwriting
      cases hwriting
      exact hload
  | _ =>
      refine ⟨hinv.identity, ?_⟩
      intro dir config hwriting
      cases hwriting

theorem MutationRun.cascadeInv {c₀ c : Configs} {pc : MutationPc}
    (hrun : MutationRun canonicalize op c₀ c pc) : CascadeInv c₀ c pc := by
  have hstart : CascadeInv c₀ c₀ (.check op.checked) := by
    constructor
    · intro dir
      rfl
    · intro dir config hwriting
      cases hwriting
  exact hrun.invariant (CascadeInv c₀) hstart fun _ _ _ _ => .move

end

end Upriv
