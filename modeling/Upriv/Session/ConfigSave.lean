import Upriv.Config.EditPolicy
import Upriv.Session.CreateCleanup

/-!
# Saving a configuration beside opens and closes

`save_vault_config_checked` loads, reads the session map, the closing set and
the unlock gate one after another, and writes; no lock spans these steps.  The
sessions of the process and the saves interleave step by step.  A configuration
is the document in `config.toml`; `saveVaultConfig_ok` says that a successful
save leaves `written` there.
-/

namespace Upriv.Session

variable {T D I : Type}

/-! ## The steps of a save -/

/-- The point a save has reached: its next step. -/
inductive SavePc (D : Type) where
  | idle
  | load (dir : D) (after : VaultConfig)
  | sessions (dir : D) (before after : VaultConfig)
  | closing (dir : D) (before after : VaultConfig)
  | gate (dir : D) (before after : VaultConfig)
  | write (dir : D) (before after : VaultConfig)
  | returned (ok : Bool)
  deriving DecidableEq, Repr

/-- The process, the configurations on disk and the running saves. -/
structure Saves (T D I : Type) where
  process : State T D I
  configs : D → Option VaultConfig
  saves : T → SavePc D

inductive SaveEvent (T D I : Type) where
  /-- A step of the process; no vault is created. -/
  | process (t : T) (ev : Event D I)
  | save (t : T) (dir : D) (after : VaultConfig)
  | advance (t : T) (ok : Bool)
  deriving DecidableEq, Repr

/-- `refuse_config_save_if_busy` once `session_blocks_quiet` has answered. -/
def afterBusyCheck (dir : D) (before after : VaultConfig) (busy : Bool) : SavePc D :=
  if busy ∧ quietTargetsChanged before after ≠ [] then .returned false
  else .write dir before after

section
variable [DecidableEq D]

/-- The next step of a save. -/
def saveNext (pc : SavePc D) (ok : Bool) (sh : Shared T D I)
    (configs : D → Option VaultConfig) :
    Option (SavePc D × (D → Option VaultConfig)) :=
  match pc with
  | .load dir after =>
    -- the load fails, or it finds another id, or it goes on
    match ok, configs dir with
    | true, some document =>
      some (if after.vault.id ≠ document.normalized.vault.id then .returned false
        else .sessions dir document.normalized after, configs)
    | _, _ => some (.returned false, configs)
  | .sessions dir before after =>
    some (if dir ∈ sh.sessions then afterBusyCheck dir before after true
      else .closing dir before after, configs)
  | .closing dir before after =>
    some (if dir ∈ sh.closing then afterBusyCheck dir before after true
      else .gate dir before after, configs)
  | .gate dir before after =>
    -- `try_lock` also fails while another check holds the gate for an instant
    some (afterBusyCheck dir before after (!ok || sh.gate.isSome), configs)
  | .write dir _ after =>
    if ok then some (.returned true, Function.update configs dir (some after.written))
    else some (.returned false, configs)
  | _ => none

def savesStep [DecidableEq T] (s : Saves T D I) : SaveEvent T D I → Option (Saves T D I)
  | .process t ev =>
    if ev.creates then none
    else (step s.process (t, ev)).map fun process => { s with process := process }
  | .save t dir after =>
    if s.saves t = .idle then
      some { s with saves := Function.update s.saves t (.load dir after) }
    else none
  | .advance t ok =>
    (saveNext (s.saves t) ok s.process.shared s.configs).map fun (pc, configs) =>
      { s with configs := configs, saves := Function.update s.saves t pc }

end

/-- Nothing open, no call running, any configurations. -/
def savesInitial (dirs : Finset D) (disk : D → Option I) (configs : D → Option VaultConfig) :
    Saves T D I where
  process := initial dirs disk
  configs := configs
  saves _ := .idle

/-! ## What a save has in hand -/

/-- The directory and the two configurations of a save that has loaded. -/
def SavePc.loaded : SavePc D → Option (D × VaultConfig × VaultConfig)
  | .sessions dir before after => some (dir, before, after)
  | .closing dir before after => some (dir, before, after)
  | .gate dir before after => some (dir, before, after)
  | .write dir before after => some (dir, before, after)
  | _ => none

/-- A save that changes a quiet value. -/
def Changes (before after : VaultConfig) : Prop := quietTargetsChanged before after ≠ []

instance (before after : VaultConfig) : Decidable (Changes before after) :=
  inferInstanceAs (Decidable (_ ≠ _))

/-- The directory of a changing save that has found the map without a session and
has reads to do. -/
def SavePc.betweenReads : SavePc D → Option D
  | .closing dir before after => if Changes before after then some dir else none
  | .gate dir before after => if Changes before after then some dir else none
  | _ => none

/-- The directory of a changing save that is about to write. -/
def SavePc.changing : SavePc D → Option D
  | .write dir before after => if Changes before after then some dir else none
  | _ => none

/-- The directory of a save that has loaded. -/
def SavePc.loadedDir (pc : SavePc D) : Option D := pc.loaded.map Prod.fst

/-- The directory of the session that the next step inserts. -/
def Pc.insertsFor : Pc T D I → Option D
  | .openInsert session => some session.vaultDir
  | .closeReinsert _ session => some session.vaultDir
  | _ => none

/-- The vault is open, being opened inside the unlock gate, or being closed. -/
def Busy (s : State T D I) (dir : D) : Prop :=
  dir ∈ s.shared.sessions ∨ Closing s dir ∨ ∃ t, (s.pc t).opensInside = some dir

/-- The quiet values on disk. -/
def quietOf (s : Saves T D I) (dir : D) : Option QuietTargets :=
  (s.configs dir).map VaultConfig.quietOnDisk

/-! ## What a step changes -/

section
variable [DecidableEq D]

/-- What a step of a save can do. -/
inductive SaveMoves (sh : Shared T D I) (configs : D → Option VaultConfig) :
    SavePc D → SavePc D → (D → Option VaultConfig) → Prop where
  | ends {pc ok} : SaveMoves sh configs pc (.returned ok) configs
  | load {dir after document} (hdocument : configs dir = some document) :
      SaveMoves sh configs (.load dir after) (.sessions dir document.normalized after) configs
  | sessions {dir before after} (hmem : dir ∉ sh.sessions) :
      SaveMoves sh configs (.sessions dir before after) (.closing dir before after) configs
  | closing {dir before after} (hmem : dir ∉ sh.closing) :
      SaveMoves sh configs (.closing dir before after) (.gate dir before after) configs
  | gate {dir before after} (hgate : sh.gate = none) :
      SaveMoves sh configs (.gate dir before after) (.write dir before after) configs
  | quiet {pc dir before after} (hloaded : pc.loaded = some (dir, before, after))
      (hquiet : ¬ Changes before after) :
      SaveMoves sh configs pc (.write dir before after) configs
  | write {dir before after} :
      SaveMoves sh configs (.write dir before after) (.returned true)
        (Function.update configs dir (some after.written))

variable {sh : Shared T D I} {configs configs' : D → Option VaultConfig} {pc pc' : SavePc D}

theorem saveMoves_afterBusyCheck {dir : D} {before after : VaultConfig}
    (hloaded : pc.loaded = some (dir, before, after)) :
    SaveMoves sh configs pc (afterBusyCheck dir before after true) configs := by
  unfold afterBusyCheck
  by_cases hchanges : quietTargetsChanged before after = []
  · simp only [hchanges, ne_eq, not_true_eq_false, and_false, ↓reduceIte]
    exact .quiet hloaded (not_not.mpr hchanges)
  · simp only [hchanges, ne_eq, not_false_eq_true, and_self, ↓reduceIte]
    exact .ends

theorem saveMoves_of_saveNext {ok : Bool}
    (h : saveNext pc ok sh configs = some (pc', configs')) :
    SaveMoves sh configs pc pc' configs' := by
  cases pc with
  | idle => cases h
  | returned ok' => cases h
  | load dir after =>
      unfold saveNext at h
      dsimp only at h
      split at h
      · rename_i document hdocument
        cases h
        split
        · exact .ends
        · exact .load hdocument
      · cases h
        exact .ends
  | sessions dir before after =>
      cases h
      split
      · exact saveMoves_afterBusyCheck rfl
      · exact .sessions ‹_›
  | closing dir before after =>
      cases h
      split
      · exact saveMoves_afterBusyCheck rfl
      · exact .closing ‹_›
  | gate dir before after =>
      cases h
      by_cases hfree : (!ok || sh.gate.isSome) = true
      · rw [hfree]
        exact saveMoves_afterBusyCheck rfl
      · rw [Bool.not_eq_true] at hfree
        rw [hfree]
        have hgate : sh.gate = none := by
          rw [Bool.or_eq_false_iff] at hfree
          exact Option.isSome_eq_false_iff.mp hfree.2 |> Option.isNone_iff_eq_none.mp
        have hwrite : afterBusyCheck dir before after false = .write dir before after := by
          simp [afterBusyCheck]
        rw [hwrite]
        exact .gate hgate
  | write dir before after =>
      rw [saveNext] at h
      split at h
      · cases h
        exact .write
      · cases h
        exact .ends

/-- A vault becomes busy when an open gets the unlock gate. -/
theorem busy_step [DecidableEq T] {s s' : State T D I} {e : T × Event D I} {dir : D}
    (hkeyed : TakenKeyed s) (hstep : step s e = some s') (hbusy : Busy s' dir) :
    Busy s dir ∨ (s.pc e.1).waiting = some dir := by
  obtain ⟨hnext, hother⟩ := step_eq_some hstep
  rcases hbusy with hmem | ⟨t, htaken⟩ | ⟨t, hinside⟩
  · rcases mem_sessions_step hkeyed hstep hmem with hbefore | ⟨hinsert | htaken, -, -⟩
    · exact .inl (.inl hbefore)
    · exact .inl (.inr (.inr ⟨e.1, opensInside_of_insertDir hinsert⟩))
    · exact .inl (.inr (.inl ⟨e.1, htaken⟩))
  · rcases takenDir_step hstep htaken with hold | ⟨-, hmem, -⟩
    · exact .inl (.inr (.inl ⟨t, hold⟩))
    · exact .inl (.inl hmem)
  · by_cases ht : t = e.1
    · subst ht
      rcases next_opensInside hnext hinside with hold | ⟨hwaiting, -⟩
      · exact .inl (.inr (.inr ⟨e.1, hold⟩))
      · exact .inr hwaiting
    · exact .inl (.inr (.inr ⟨t, hother t ht ▸ hinside⟩))

/-- A directory gains a session by the step that inserts it. -/
theorem insertsFor_of_mem [DecidableEq T] {s s' : State T D I} {e : T × Event D I} {dir : D}
    (hstep : step s e = some s') (hmem : dir ∈ s'.shared.sessions) :
    dir ∈ s.shared.sessions ∨ (s.pc e.1).insertsFor = some dir := by
  obtain ⟨hnext, -⟩ := step_eq_some hstep
  rcases next_sessions hnext with hsame | ⟨_, _, _, _, _, _, herase⟩ |
      ⟨session, hpc, _, _, hinsert⟩
  · exact .inl (hsame ▸ hmem)
  · rw [herase, Finmap.mem_erase] at hmem
    exact .inl hmem.2
  · by_cases hrefused : session.vaultDir ∈ s.shared.sessions
    · rw [hinsert, insertSession, if_pos hrefused] at hmem
      exact .inl hmem
    · rw [hinsert, insertSession_of_not_mem _ _ hrefused, Finmap.mem_insert] at hmem
      rcases hmem with rfl | hmem
      · rcases hpc with hpc | ⟨dir, hpc⟩
        · exact .inr (by rw [hpc]; rfl)
        · exact .inr (by rw [hpc]; rfl)
      · exact .inl hmem

end

/-! ## The invariant -/

/-- No mark is dropped early; no session is inserted while a save that changes a
quiet value of its vault is between its reads; no open gets the unlock gate while
such a save is about to write; and no save changes a quiet value while another
save of the vault is between its load and its write. -/
def SavesUndisturbed (s : Saves T D I) (e : SaveEvent T D I) (s' : Saves T D I) : Prop :=
  match e with
  | .process t ev =>
      DropsLastGuard s.process (t, ev) s'.process ∧
      (∀ dir ∈ (s.process.pc t).insertsFor, ∀ t', (s.saves t').betweenReads ≠ some dir) ∧
      (∀ dir ∈ (s.process.pc t).waiting, ∀ t', (s.saves t').changing ≠ some dir)
  | .save _ _ _ => True
  | .advance t _ =>
      ∀ dir ∈ (s.saves t).loadedDir, quietOf s' dir ≠ quietOf s dir →
        ∀ t', t' ≠ t → (s.saves t').loadedDir ≠ some dir

/-- What is known of a save that has loaded. -/
structure SaveInv (s : Saves T D I) (pc : SavePc D) : Prop where
  loaded : ∀ dir before after, pc.loaded = some (dir, before, after) →
    ∃ document : VaultConfig, before = document.normalized ∧
      quietOf s dir = some document.quietOnDisk
  not_mem : ∀ dir, pc.betweenReads = some dir → dir ∉ s.process.shared.sessions
  not_closing : ∀ dir before after, pc = .gate dir before after → Changes before after →
    ¬ Closing s.process dir
  idle : ∀ dir, pc.changing = some dir → ¬ Busy s.process dir

section
variable {s : Saves T D I}

/-- A save that has not loaded knows nothing. -/
theorem SaveInv.of_not_loaded {pc : SavePc D} (h : pc.loaded = none) : SaveInv s pc := by
  have hreads : pc.betweenReads = none := by
    cases pc <;> simp_all [SavePc.loaded, SavePc.betweenReads]
  have hchanging : pc.changing = none := by
    cases pc <;> simp_all [SavePc.loaded, SavePc.changing]
  refine ⟨?_, ?_, ?_, ?_⟩
  · intro dir before after hloaded
    rw [h] at hloaded
    cases hloaded
  · intro dir hbetween
    rw [hreads] at hbetween
    cases hbetween
  · rintro dir before after rfl
    cases h
  · intro dir hchange
    rw [hchanging] at hchange
    cases hchange

theorem not_closing_of_unmarked (hmarked : GuardsMarked s.process) {dir : D}
    (hmem : dir ∉ s.process.shared.closing) : ¬ Closing s.process dir := by
  rintro ⟨t, htaken⟩
  exact hmem (hmarked t dir (guardDir_of_takenDir htaken))

theorem not_inside_of_free (hgate : GateHeld s.process)
    (hfree : s.process.shared.gate = none) (t : T) (dir : D) :
    (s.process.pc t).opensInside ≠ some dir := by
  intro hinside
  rw [hgate t (holdsGate_of_opensInside hinside)] at hfree
  cases hfree

/-- What another save knows stays true. -/
theorem saveInv_other {pc : SavePc D} {configs : D → Option VaultConfig}
    {saves : T → SavePc D} (hsave : SaveInv s pc)
    (hkept : ∀ dir ∈ pc.loadedDir,
      quietOf { s with configs := configs, saves := saves } dir = quietOf s dir) :
    SaveInv { s with configs := configs, saves := saves } pc where
  loaded dir before after hloaded := by
    obtain ⟨document, hbefore, hquiet⟩ := hsave.loaded dir before after hloaded
    refine ⟨document, hbefore, ?_⟩
    rw [hkept dir (by rw [SavePc.loadedDir, hloaded]; rfl), hquiet]
  not_mem := hsave.not_mem
  not_closing := hsave.not_closing
  idle := hsave.idle

end

variable [DecidableEq D]

structure SavesInv (s : Saves T D I) : Prop where
  marked : GuardsMarked s.process
  gate : GateHeld s.process
  keyed : SessionsKeyed s.process
  taken_keyed : TakenKeyed s.process
  save : ∀ t, SaveInv s (s.saves t)

theorem savesInv_initial (dirs : Finset D) (disk : D → Option I)
    (configs : D → Option VaultConfig) :
    SavesInv (savesInitial dirs disk configs : Saves T D I) where
  marked := guardsMarked_initial dirs disk
  gate := by simp [GateHeld, savesInitial, initial, Pc.holdsGate]
  keyed dir session hlookup := by simp [savesInitial, initial] at hlookup
  taken_keyed := by simp [TakenKeyed, savesInitial, initial, Pc.taken]
  save t := by
    refine ⟨?_, ?_, ?_, ?_⟩
    · simp [savesInitial, SavePc.loaded]
    · simp [savesInitial, SavePc.betweenReads]
    · simp [savesInitial]
    · simp [savesInitial, SavePc.changing]

section
variable {s s' : Saves T D I}

/-- What a step establishes for the save that makes it. -/
theorem saveInv_advance (hinv : SavesInv s) {pc pc' : SavePc D}
    {configs : D → Option VaultConfig} (hsave : SaveInv s pc)
    (hmoves : SaveMoves s.process.shared s.configs pc pc' configs) {saves : T → SavePc D} :
    SaveInv { s with configs := configs, saves := saves } pc' := by
  cases hmoves with
  | ends => exact .of_not_loaded rfl
  | write => exact .of_not_loaded rfl
  | @load dir after document hdocument =>
      refine ⟨?_, by simp [SavePc.betweenReads], by simp, by simp [SavePc.changing]⟩
      intro dir' before after' hloaded
      cases hloaded
      exact ⟨document, rfl, by rw [quietOf, hdocument]; rfl⟩
  | @sessions dir before after hmem =>
      refine ⟨fun dir' before' after' hloaded => hsave.loaded dir' before' after' hloaded,
        ?_, by simp, by simp [SavePc.changing]⟩
      intro dir' hbetween
      rw [SavePc.betweenReads] at hbetween
      split at hbetween
      · cases hbetween
        exact hmem
      · cases hbetween
  | @closing dir before after hmem =>
      refine ⟨fun dir' before' after' hloaded => hsave.loaded dir' before' after' hloaded,
        fun dir' hbetween => hsave.not_mem dir' hbetween, ?_, by simp [SavePc.changing]⟩
      intro dir' before' after' hpc hchanges
      cases hpc
      exact not_closing_of_unmarked hinv.marked hmem
  | @gate dir before after hgate =>
      refine ⟨fun dir' before' after' hloaded => hsave.loaded dir' before' after' hloaded,
        by simp [SavePc.betweenReads], by simp, ?_⟩
      intro dir' hchanging
      rw [SavePc.changing] at hchanging
      split at hchanging
      · rename_i hchanges
        cases hchanging
        rintro (hmem | hclosing | ⟨t, hinside⟩)
        · exact hsave.not_mem dir (if_pos hchanges) hmem
        · exact hsave.not_closing dir before after rfl hchanges hclosing
        · exact not_inside_of_free hinv.gate hgate t dir hinside
      · cases hchanging
  | @quiet _ dir before after hloaded hquiet =>
      refine ⟨fun dir' before' after' hloaded' => ?_, by simp [SavePc.betweenReads], by simp, ?_⟩
      · cases hloaded'
        exact hsave.loaded dir before after hloaded
      · intro dir' hchanging
        rw [SavePc.changing, if_neg hquiet] at hchanging
        cases hchanging

variable [DecidableEq T]

theorem saveInv_process {t : T} {ev : Event D I} {process : State T D I} {pc : SavePc D}
    (hinv : SavesInv s) (hsave : SaveInv s pc)
    (hstep : step s.process (t, ev) = some process)
    (hinserts : ∀ dir ∈ (s.process.pc t).insertsFor, pc.betweenReads ≠ some dir)
    (hwaits : ∀ dir ∈ (s.process.pc t).waiting, pc.changing ≠ some dir) :
    SaveInv { s with process := process } pc where
  loaded := hsave.loaded
  not_mem dir hbetween hmem := by
    rcases insertsFor_of_mem hstep hmem with hold | hinsert
    · exact hsave.not_mem dir hbetween hold
    · exact hinserts dir hinsert hbetween
  not_closing dir before after hpc hchanges := by
    rintro ⟨t', htaken⟩
    rcases takenDir_step hstep htaken with hold | ⟨-, hmem, -⟩
    · exact hsave.not_closing dir before after hpc hchanges ⟨t', hold⟩
    · refine hsave.not_mem dir ?_ hmem
      rw [hpc]
      exact if_pos hchanges
  idle dir hchanging hbusy := by
    rcases busy_step hinv.taken_keyed hstep hbusy with hold | hwaiting
    · exact hsave.idle dir hchanging hold
    · exact hwaits dir hwaiting hchanging

/-- Only the write of a save changes configurations, and only that of its
vault. -/
theorem quietOf_advance {t : T} {ok : Bool} (hstep : savesStep s (.advance t ok) = some s')
    (dir : D) (hne : (s.saves t).loadedDir ≠ some dir) : quietOf s' dir = quietOf s dir := by
  obtain ⟨⟨pc, configs⟩, hnext, rfl⟩ := Option.map_eq_some_iff.mp hstep
  have hmoves := saveMoves_of_saveNext hnext
  generalize hpc : s.saves t = before at hmoves hne
  cases hmoves with
  | write =>
      rename_i d before after
      have hdir : dir ≠ d := by
        rintro rfl
        exact hne rfl
      simp [quietOf, Function.update_of_ne hdir]
  | _ => rfl

theorem savesInv_step {e : SaveEvent T D I} (hinv : SavesInv s)
    (hstep : savesStep s e = some s') (hok : SavesUndisturbed s e s') : SavesInv s' := by
  cases e with
  | process t ev =>
      rw [savesStep] at hstep
      split at hstep
      · cases hstep
      obtain ⟨process, hprocess, rfl⟩ := Option.map_eq_some_iff.mp hstep
      obtain ⟨hdrops, hinserts, hwaits⟩ := hok
      exact {
        marked := guardsMarked_step hinv.marked hprocess hdrops
        gate := fun _ => gate_step hinv.gate hprocess
        keyed := fun _ _ => keyed_step hinv.keyed hprocess
        taken_keyed := fun _ _ _ => taken_keyed_step hinv.keyed hinv.taken_keyed hprocess
        save := fun t' => saveInv_process hinv (hinv.save t') hprocess
          (fun dir hdir => hinserts dir hdir t') fun dir hdir => hwaits dir hdir t' }
  | save t dir after =>
      rw [savesStep] at hstep
      split at hstep
      · cases hstep
        refine ⟨hinv.marked, hinv.gate, hinv.keyed, hinv.taken_keyed, fun t' => ?_⟩
        by_cases ht : t' = t
        · subst ht
          dsimp only
          rw [Function.update_self]
          exact .of_not_loaded rfl
        · dsimp only
          rw [Function.update_of_ne ht]
          exact saveInv_other (hinv.save t') fun _ _ => rfl
      · cases hstep
  | advance t ok =>
      have hquiet := quietOf_advance hstep
      obtain ⟨⟨pc, configs⟩, hnext, rfl⟩ := Option.map_eq_some_iff.mp hstep
      have hmoves := saveMoves_of_saveNext hnext
      refine ⟨hinv.marked, hinv.gate, hinv.keyed, hinv.taken_keyed, fun t' => ?_⟩
      by_cases ht : t' = t
      · subst ht
        dsimp only
        rw [Function.update_self]
        exact saveInv_advance hinv (hinv.save t') hmoves
      · dsimp only
        rw [Function.update_of_ne ht]
        refine saveInv_other (hinv.save t') fun dir hdir => ?_
        by_contra hchanged
        by_cases hown : (s.saves t).loadedDir = some dir
        · exact hok dir hown hchanged t' ht hdir
        · exact hchanged (hquiet dir hown)

/-! ## Quiet values are frozen -/

/-- While a vault is busy a step leaves its quiet values alone. -/
theorem quietOf_step {e : SaveEvent T D I} (hinv : SavesInv s)
    (hstep : savesStep s e = some s') {dir : D} (hbusy : Busy s.process dir) :
    quietOf s' dir = quietOf s dir := by
  cases e with
  | process t ev =>
      rw [savesStep] at hstep
      split at hstep
      · cases hstep
      obtain ⟨process, -, rfl⟩ := Option.map_eq_some_iff.mp hstep
      rfl
  | save t d after =>
      rw [savesStep] at hstep
      split at hstep <;> cases hstep
      rfl
  | advance t ok =>
      by_cases hown : (s.saves t).loadedDir = some dir
      · have hsave := hinv.save t
        obtain ⟨⟨pc, configs⟩, hnext, rfl⟩ := Option.map_eq_some_iff.mp hstep
        have hmoves := saveMoves_of_saveNext hnext
        generalize s.saves t = before at hmoves hown hsave
        cases hmoves with
        | @write d before after =>
            cases hown
            have hquiet : ¬ Changes before after := fun hchanges =>
              hsave.idle d (if_pos hchanges) hbusy
            obtain ⟨document, rfl, hdocument⟩ := hsave.loaded d before after rfl
            have hsame := quietTargetsChanged_eq_nil.mp (not_not.mp hquiet)
            rw [hdocument, quietOf]
            dsimp only
            rw [Function.update_self, Option.map_some, quietOnDisk_written hsame]
        | _ => rfl
      · exact quietOf_advance hstep dir hown

end

/-! ## Concrete runs -/

instance [Fintype T] (s : State T D I) (dir : D) :
    Decidable (Busy s dir) :=
  inferInstanceAs (Decidable (_ ∨ _ ∨ ∃ t, (s.pc t).opensInside = some dir))

instance [Fintype T] [DecidableEq T] (s : Saves T D I)
    (e : SaveEvent T D I) (s' : Saves T D I) : Decidable (SavesUndisturbed s e s') := by
  unfold SavesUndisturbed
  cases e <;> infer_instance

def notesConfig : VaultConfig := { vault := { id := "notes", displayName := "Notes" } }
def renamedConfig : VaultConfig := { vault := { id := "notes", displayName := "Diary" } }

/-- The vault `0` is closed and called Notes; three calls and three saves. -/
def notesState : Saves (Fin 3) ℕ ℕ :=
  savesInitial {0} (fun _ => some 0) fun dir => if dir = 0 then some notesConfig else none

/-- The first `n` steps of an open. -/
def openSteps (n : ℕ) : List (SaveEvent (Fin 3) ℕ ℕ) :=
  (steps 0 (.openVault 0 .sessionRam) n).map fun e => .process e.1 e.2

/-- `n` further steps of the open. -/
def moreOpenSteps (n : ℕ) : List (SaveEvent (Fin 3) ℕ ℕ) :=
  List.replicate n (.process 0 (.advance true))

/-- The first `n` steps of a save of another display name. -/
def renameSteps (n : ℕ) : List (SaveEvent (Fin 3) ℕ ℕ) :=
  .save 2 0 renamedConfig :: List.replicate n (.advance 2 true)

end Upriv.Session
