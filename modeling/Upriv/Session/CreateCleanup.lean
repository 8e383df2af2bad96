import Upriv.Session.SoleSession

/-!
# The cleanup of a failed create

`create_vault` removes its directory when one of its steps fails.  From the
moment it has released the unlock gate after seeding the store, an `open_vault`
can open the new vault, and the last steps of the create can still fail.  Before
that no session can be there, because there is no index to read.
-/

namespace Upriv.Session

variable {T D I : Type}

/-! ## What a call has in hand -/

/-- The directory an open works on inside `with_unlock_lock`. -/
def Pc.opensInside : Pc T D I → Option D
  | .openThrottle dir _ => some dir
  | .openCheck dir _ => some dir
  | .openLoad dir _ => some dir
  | .openRead dir _ => some dir
  | .openInsert session => some session.vaultDir
  | _ => none

/-- The directory a create has made and not stored an index in. -/
def Pc.unseeded : Pc T D I → Option D
  | .createConfig dir _ => some dir
  | .createWait dir _ => some dir
  | .createSeed dir _ => some dir
  | .createRelease dir false => some dir
  | _ => none

/-- The directory a create is about to remove. -/
def Pc.cleaning : Pc T D I → Option D
  | .createCleanup dir => some dir
  | _ => none

/-- The directory of a create that has released the unlock gate. -/
def Pc.finishing : Pc T D I → Option D
  | .createFinish dir => some dir
  | _ => none

/-- The directory of an open that waits for the unlock gate. -/
def Pc.waiting : Pc T D I → Option D
  | .openWait dir _ => some dir
  | _ => none

/-- The directory a create has made. -/
def Pc.made : Pc T D I → Option D
  | .createConfig dir _ => some dir
  | .createWait dir _ => some dir
  | .createSeed dir _ => some dir
  | .createRelease dir _ => some dir
  | .createFinish dir => some dir
  | .createCleanup dir => some dir
  | _ => none

/-- The directory whose lock a create holds. -/
def Pc.dirLock : Pc T D I → Option D
  | .createDir dir _ => some dir
  | .createUnlock dir _ => some dir
  | pc => pc.made

section
variable {pc : Pc T D I} {dir : D}

theorem dirLock_of_made (h : pc.made = some dir) : pc.dirLock = some dir := by
  cases pc <;> simp_all [Pc.made, Pc.dirLock]

theorem made_of_unseeded (h : pc.unseeded = some dir) :
    pc.made = some dir := by
  cases pc <;> simp_all [Pc.made, Pc.unseeded]
  rename_i ok
  cases ok <;> simp_all

theorem made_of_cleaning (h : pc.cleaning = some dir) :
    pc.made = some dir := by
  cases pc <;> simp_all [Pc.made, Pc.cleaning]

theorem waiting_of_finishing (h : pc.finishing = some dir) : pc.waiting = none := by
  cases pc <;> simp_all [Pc.finishing, Pc.waiting]

theorem holdsGate_of_opensInside (h : pc.opensInside = some dir) : pc.holdsGate = true := by
  cases pc <;> simp_all [Pc.opensInside, Pc.holdsGate]

theorem opensInside_of_insertDir (h : pc.insertDir = some dir) :
    pc.opensInside = some dir := by
  cases pc <;> simp_all [Pc.insertDir, Pc.opensInside]

end

variable [DecidableEq D]

section
variable {t : T} {pc pc' : Pc T D I} {ev : Event D I} {sh sh' : Shared T D I}
  {dir : D}

theorem next_insertDir (h : next t pc ev sh = some (pc', sh'))
    (hinsert : pc'.insertDir = some dir) :
    pc.opensInside = some dir ∧ (sh.disk dir).isSome := by
  cases moves_of_next h <;> simp_all [Pc.insertDir, Pc.opensInside]

theorem next_opensInside (h : next t pc ev sh = some (pc', sh'))
    (hopens : pc'.opensInside = some dir) :
    pc.opensInside = some dir ∨ (pc.waiting = some dir ∧ sh'.disk = sh.disk) := by
  cases moves_of_next h <;> simp_all [Pc.opensInside, Pc.waiting]

/-- What changes on disk: an index by a flush, a seed and a cleanup, a directory
by its creation and by a cleanup. -/
theorem next_disk_cases (h : next t pc ev sh = some (pc', sh')) :
    (sh'.disk = sh.disk ∧ sh'.dirs = sh.dirs) ∨
    (∃ dir session, pc = .closeFlush dir session ∧ sh'.dirs = sh.dirs ∧
      sh'.disk = Function.update sh.disk dir (some session.index)) ∨
    (∃ dir seed, pc = .createSeed dir seed ∧ pc' = .createRelease dir true ∧
      sh'.dirs = sh.dirs ∧ sh'.disk = Function.update sh.disk dir (some seed)) ∨
    (∃ dir, pc'.unseeded = some dir ∧ sh'.disk = sh.disk ∧ sh'.dirs = insert dir sh.dirs) ∨
    (∃ dir, pc = .createCleanup dir ∧ pc' = .createUnlock dir false ∧
      sh'.dirs = sh.dirs.erase dir ∧ sh'.disk = Function.update sh.disk dir none) := by
  cases moves_of_next h <;> simp [Pc.unseeded]

theorem next_made (h : next t pc ev sh = some (pc', sh')) (hmade : pc'.made = some dir) :
    pc.made = some dir ∨ dir ∈ sh'.dirs := by
  cases moves_of_next h <;> simp_all [Pc.made]

theorem next_unseeded (h : next t pc ev sh = some (pc', sh'))
    (hunseeded : pc'.unseeded = some dir) : pc.unseeded = some dir ∨ dir ∉ sh.dirs := by
  cases moves_of_next h <;> simp_all [Pc.unseeded]

theorem next_cleaning (h : next t pc ev sh = some (pc', sh'))
    (hcleaning : pc'.cleaning = some dir) :
    (pc.unseeded = some dir ∧ sh'.disk = sh.disk) ∨
      (pc.finishing = some dir ∧ ev = .advance false) := by
  cases moves_of_next h <;> simp_all [Pc.unseeded, Pc.cleaning, Pc.finishing]

/-- The lock of a directory is taken when it is free and released by its
holder. -/
theorem next_dirLock (h : next t pc ev sh = some (pc', sh')) :
    (sh'.dirGate = sh.dirGate ∧ pc'.dirLock = pc.dirLock) ∨
    (∃ dir, sh.dirGate dir = none ∧ pc'.dirLock = some dir ∧
      sh'.dirGate = Function.update sh.dirGate dir (some t)) ∨
    (∃ dir, pc.dirLock = some dir ∧ pc'.dirLock = none ∧
      sh'.dirGate = Function.update sh.dirGate dir none) := by
  cases moves_of_next h <;> simp_all [Pc.dirLock, Pc.made]

end

/-! ## The invariant -/

/-- Nothing of an open vault: no session, none in the hand of a close or about
to be inserted. -/
structure Unopened (s : State T D I) (dir : D) : Prop where
  not_mem : dir ∉ s.shared.sessions
  not_closing : ¬ Closing s dir
  not_inserting : ∀ t, (s.pc t).insertDir ≠ some dir

/-- No open of the directory is inside `with_unlock_lock`. -/
def NoneInside (s : State T D I) (dir : D) : Prop := ∀ t, (s.pc t).opensInside ≠ some dir

structure CleanInv (s : State T D I) : Prop where
  taken_keyed : TakenKeyed s
  keyed : SessionsKeyed s
  locked : ∀ t dir, (s.pc t).dirLock = some dir → s.shared.dirGate dir = some t
  made : ∀ t dir, (s.pc t).made = some dir → dir ∈ s.shared.dirs
  absent : ∀ dir, dir ∉ s.shared.dirs → s.shared.disk dir = none ∧ Unopened s dir
  unseeded : ∀ t dir, (s.pc t).unseeded = some dir →
    s.shared.disk dir = none ∧ Unopened s dir
  cleaning : ∀ t dir, (s.pc t).cleaning = some dir →
    Unopened s dir ∧ (s.shared.disk dir = none ∨ NoneInside s dir)

/-- When a create fails after it has released the unlock gate, its vault has no
session and no open or close of it is under way; and no open of it takes the
gate until a seeded vault has been removed. -/
def FailsUnopened (s : State T D I) (e : T × Event D I) (_ : State T D I) : Prop :=
  (∀ dir ∈ (s.pc e.1).finishing, e.2 = .advance false →
    dir ∉ s.shared.sessions ∧ ¬ Closing s dir ∧ NoneInside s dir) ∧
  (∀ dir ∈ (s.pc e.1).waiting, ∀ t, (s.pc t).cleaning = some dir →
    s.shared.disk dir = none)

theorem cleanInv_initial {dirs : Finset D} {disk : D → Option I}
    (hdisk : ∀ dir, dir ∉ dirs → disk dir = none) :
    CleanInv (initial dirs disk : State T D I) where
  taken_keyed := by simp [TakenKeyed, initial, Pc.taken]
  keyed dir session hlookup := by simp [initial] at hlookup
  locked := by simp [initial, Pc.dirLock, Pc.made]
  made := by simp [initial, Pc.made]
  absent dir hdir := by
    refine ⟨hdisk dir hdir, ?_, ?_, ?_⟩
    · exact Finmap.notMem_empty
    · simp [Closing, initial, Pc.takenDir, Pc.taken]
    · simp [initial, Pc.insertDir]
  unseeded := by simp [initial, Pc.unseeded]
  cleaning := by simp [initial, Pc.cleaning]

/-! ## Preservation -/

/-- A create has its directory to itself. -/
theorem CleanInv.sole {s : State T D I} (hinv : CleanInv s) {t t' : T} {dir : D}
    (h : (s.pc t).made = some dir)
    (h' : (s.pc t').made = some dir) : t = t' := by
  have hlock := hinv.locked t dir (dirLock_of_made h)
  rw [hinv.locked t' dir (dirLock_of_made h')] at hlock
  exact (Option.some.inj hlock).symm

section
variable [DecidableEq T] {s s' : State T D I} {e : T × Event D I} {t : T}
  {dir : D}

/-- An unopened vault stays unopened, unless an open reads its index. -/
theorem unopened_step (hinv : CleanInv s) (hstep : step s e = some s') (h : Unopened s dir)
    (hread : s.shared.disk dir = none ∨ NoneInside s dir) : Unopened s' dir := by
  obtain ⟨hnext, hother⟩ := step_eq_some hstep
  refine ⟨fun hmem => ?_, ?_, fun t hinsert => ?_⟩
  · rcases mem_sessions_step hinv.taken_keyed hstep hmem with hbefore | ⟨hby, -, -⟩
    · exact h.not_mem hbefore
    · rcases hby with hinsert | htaken
      · exact h.not_inserting e.1 hinsert
      · exact h.not_closing ⟨e.1, htaken⟩
  · rintro ⟨t, htaken⟩
    rcases takenDir_step hstep htaken with hold | ⟨-, hmem, -⟩
    · exact h.not_closing ⟨t, hold⟩
    · exact h.not_mem hmem
  · by_cases ht : t = e.1
    · subst ht
      obtain ⟨hinside, hsome⟩ := next_insertDir hnext hinsert
      rcases hread with hnone | hnobody
      · rw [hnone] at hsome
        cases hsome
      · exact hnobody e.1 hinside
    · exact h.not_inserting t (hother t ht ▸ hinsert)

/-- A directory gets its first index by the flush of a close or by the seed of
the create that has made it. -/
theorem stores_step (hstep : step s e = some s') (hnone : s.shared.disk dir = none) :
    s'.shared.disk dir = none ∨ Closing s dir ∨
      ((s.pc e.1).made = some dir ∧ s'.pc e.1 = .createRelease dir true) := by
  obtain ⟨hnext, -⟩ := step_eq_some hstep
  rcases next_disk_cases hnext with ⟨hdisk, -⟩ | ⟨flushed, session, hpc, -, hdisk⟩ |
    ⟨seeded, seed, hpc, hpc', -, hdisk⟩ | ⟨created, -, hdisk, -⟩ | ⟨removed, -, -, -, hdisk⟩
  · exact .inl (hdisk ▸ hnone)
  · by_cases hdir : dir = flushed
    · exact .inr (.inl ⟨e.1, by rw [hpc, hdir]; rfl⟩)
    · exact .inl (by rw [hdisk, Function.update_of_ne hdir, hnone])
  · by_cases hdir : dir = seeded
    · exact .inr (.inr ⟨by rw [hpc, hdir]; rfl, by rw [hpc', hdir]⟩)
    · exact .inl (by rw [hdisk, Function.update_of_ne hdir, hnone])
  · exact .inl (hdisk ▸ hnone)
  · by_cases hdir : dir = removed
    · exact .inl (by rw [hdisk, hdir, Function.update_self])
    · exact .inl (by rw [hdisk, Function.update_of_ne hdir, hnone])

theorem locked_step (hinv : CleanInv s) (hstep : step s e = some s')
    (hlock : (s'.pc t).dirLock = some dir) : s'.shared.dirGate dir = some t := by
  obtain ⟨hnext, hother⟩ := step_eq_some hstep
  rcases next_dirLock hnext with ⟨hgate, hsame⟩ | ⟨taken, hfree, hnew, hgate⟩ |
    ⟨released, hheld, hnone, hgate⟩
  · rw [hgate]
    by_cases ht : t = e.1
    · subst ht
      exact hinv.locked e.1 dir (hsame ▸ hlock)
    · exact hinv.locked t dir (hother t ht ▸ hlock)
  · rw [hgate]
    by_cases ht : t = e.1
    · subst ht
      obtain rfl := Option.some.inj (hlock.symm.trans hnew)
      exact Function.update_self _ _ _
    · have hold := hinv.locked t dir (hother t ht ▸ hlock)
      have hne : dir ≠ taken := by
        rintro rfl
        rw [hfree] at hold
        cases hold
      rw [Function.update_of_ne hne, hold]
  · have ht : t ≠ e.1 := by
      rintro rfl
      rw [hnone] at hlock
      cases hlock
    have hold := hinv.locked t dir (hother t ht ▸ hlock)
    have hne : dir ≠ released := by
      rintro rfl
      rw [hinv.locked e.1 dir hheld] at hold
      exact ht (Option.some.inj hold).symm
    rw [hgate, Function.update_of_ne hne, hold]

/-- Directories go by a cleanup. -/
theorem dirs_step (hstep : step s e = some s') (hmem : dir ∈ s.shared.dirs) :
    dir ∈ s'.shared.dirs ∨ ((s.pc e.1).cleaning = some dir ∧ (s'.pc e.1).made = none ∧
      s'.shared.disk dir = none) := by
  obtain ⟨hnext, -⟩ := step_eq_some hstep
  rcases next_disk_cases hnext with ⟨-, hdirs⟩ | ⟨_, _, -, hdirs, -⟩ | ⟨_, _, -, -, hdirs, -⟩ |
    ⟨_, -, -, hdirs⟩ | ⟨removed, hpc, hpc', hdirs, hdisk⟩
  · exact .inl (hdirs ▸ hmem)
  · exact .inl (hdirs ▸ hmem)
  · exact .inl (hdirs ▸ hmem)
  · exact .inl (hdirs ▸ Finset.mem_insert_of_mem hmem)
  · by_cases hdir : dir = removed
    · refine .inr ⟨by rw [hpc, hdir]; rfl, by rw [hpc']; rfl, ?_⟩
      rw [hdisk, hdir, Function.update_self]
    · exact .inl (hdirs ▸ Finset.mem_erase.mpr ⟨hdir, hmem⟩)

theorem made_step (hinv : CleanInv s) (hstep : step s e = some s')
    (hmade : (s'.pc t).made = some dir) : dir ∈ s'.shared.dirs := by
  obtain ⟨hnext, hother⟩ := step_eq_some hstep
  have hkept (hold : (s.pc t).made = some dir) : dir ∈ s'.shared.dirs := by
    rcases dirs_step hstep (hinv.made t dir hold) with hmem | ⟨hcleaning, hgone, -⟩
    · exact hmem
    · have ht := hinv.sole hold (made_of_cleaning hcleaning)
      rw [ht, hgone] at hmade
      cases hmade
  by_cases ht : t = e.1
  · subst ht
    rcases next_made hnext hmade with hold | hmem
    · exact hkept hold
    · exact hmem
  · exact hkept (hother t ht ▸ hmade)

/-- Without an index and unopened: a directory stays so until its create seeds
it. -/
theorem empty_step (hinv : CleanInv s) (hstep : step s e = some s')
    (hnone : s.shared.disk dir = none) (hunopened : Unopened s dir) :
    (s'.shared.disk dir = none ∨
      ((s.pc e.1).made = some dir ∧ s'.pc e.1 = .createRelease dir true)) ∧
    Unopened s' dir := by
  refine ⟨?_, unopened_step hinv hstep hunopened (.inl hnone)⟩
  rcases stores_step hstep hnone with hstill | hclosing | hseeded
  · exact .inl hstill
  · exact absurd hclosing hunopened.not_closing
  · exact .inr hseeded

theorem absent_step (hinv : CleanInv s) (hstep : step s e = some s')
    (habsent : dir ∉ s'.shared.dirs) : s'.shared.disk dir = none ∧ Unopened s' dir := by
  by_cases hmem : dir ∈ s.shared.dirs
  · rcases dirs_step hstep hmem with hkept | ⟨hcleaning, -, hdisk⟩
    · exact absurd hkept habsent
    · obtain ⟨hunopened, hread⟩ := hinv.cleaning e.1 dir hcleaning
      exact ⟨hdisk, unopened_step hinv hstep hunopened hread⟩
  · obtain ⟨hnone, hunopened⟩ := hinv.absent dir hmem
    obtain ⟨hdisk, hunopened'⟩ := empty_step hinv hstep hnone hunopened
    refine ⟨?_, hunopened'⟩
    rcases hdisk with hnone' | ⟨hmade, -⟩
    · exact hnone'
    · exact absurd (hinv.made e.1 dir hmade) hmem

theorem unseeded_step (hinv : CleanInv s) (hstep : step s e = some s')
    (hunseeded : (s'.pc t).unseeded = some dir) :
    s'.shared.disk dir = none ∧ Unopened s' dir := by
  obtain ⟨hnext, hother⟩ := step_eq_some hstep
  have hbefore : s.shared.disk dir = none ∧ Unopened s dir := by
    by_cases ht : t = e.1
    · subst ht
      rcases next_unseeded hnext hunseeded with hold | habsent
      · exact hinv.unseeded e.1 dir hold
      · exact hinv.absent dir habsent
    · exact hinv.unseeded t dir (hother t ht ▸ hunseeded)
  obtain ⟨hdisk, hunopened⟩ := empty_step hinv hstep hbefore.1 hbefore.2
  refine ⟨?_, hunopened⟩
  rcases hdisk with hnone | ⟨hmade, hpc'⟩
  · exact hnone
  · exfalso
    by_cases ht : t = e.1
    · rw [ht, hpc'] at hunseeded
      cases hunseeded
    · have hold := made_of_unseeded (hother t ht ▸ hunseeded)
      exact ht (hinv.sole hold hmade)

/-- Who gets inside waited for the gate before. -/
theorem noneInside_step (hstep : step s e = some s') (h : NoneInside s dir) :
    NoneInside s' dir ∨
      ((s.pc e.1).waiting = some dir ∧ s'.shared.disk = s.shared.disk) := by
  obtain ⟨hnext, hother⟩ := step_eq_some hstep
  by_cases hinside : (s'.pc e.1).opensInside = some dir
  · rcases next_opensInside hnext hinside with hold | hwait
    · exact absurd hold (h e.1)
    · exact .inr hwait
  · refine .inl fun t => ?_
    by_cases ht : t = e.1
    · exact ht ▸ hinside
    · rw [hother t ht]
      exact h t

theorem cleaning_step (hinv : CleanInv s) (hstep : step s e = some s')
    (hok : FailsUnopened s e s') (hcleaning : (s'.pc t).cleaning = some dir) :
    Unopened s' dir ∧ (s'.shared.disk dir = none ∨ NoneInside s' dir) := by
  obtain ⟨hnext, hother⟩ := step_eq_some hstep
  by_cases ht : t = e.1
  · subst ht
    rcases next_cleaning hnext hcleaning with ⟨hunseeded, hdisk⟩ | ⟨hfinishing, hfails⟩
    · obtain ⟨hnone, hunopened⟩ := hinv.unseeded e.1 dir hunseeded
      exact ⟨unopened_step hinv hstep hunopened (.inl hnone), .inl (hdisk ▸ hnone)⟩
    · obtain ⟨hmem, hclosing, hinside⟩ := hok.1 dir hfinishing hfails
      have hunopened : Unopened s dir :=
        ⟨hmem, hclosing, fun t hinsert => hinside t (opensInside_of_insertDir hinsert)⟩
      refine ⟨unopened_step hinv hstep hunopened (.inr hinside), .inr ?_⟩
      rcases noneInside_step hstep hinside with hstill | ⟨hwait, -⟩
      · exact hstill
      · rw [waiting_of_finishing hfinishing] at hwait
        cases hwait
  · have hold : (s.pc t).cleaning = some dir := hother t ht ▸ hcleaning
    obtain ⟨hunopened, hread⟩ := hinv.cleaning t dir hold
    refine ⟨unopened_step hinv hstep hunopened hread, ?_⟩
    rcases hread with hnone | hinside
    · rcases (empty_step hinv hstep hnone hunopened).1 with hnone' | ⟨hmade, -⟩
      · exact .inl hnone'
      · exact absurd (hinv.sole (made_of_cleaning hold) hmade) ht
    · rcases noneInside_step hstep hinside with hstill | ⟨hwait, hdisk⟩
      · exact .inr hstill
      · exact .inl (hdisk ▸ hok.2 dir hwait t hold)

theorem cleanInv_step (hinv : CleanInv s) (hstep : step s e = some s')
    (hok : FailsUnopened s e s') : CleanInv s' where
  taken_keyed _ _ _ := taken_keyed_step hinv.keyed hinv.taken_keyed hstep
  keyed _ _ := keyed_step hinv.keyed hstep
  locked _ _ := locked_step hinv hstep
  made _ _ := made_step hinv hstep
  absent _ := absent_step hinv hstep
  unseeded _ _ := unseeded_step hinv hstep
  cleaning _ _ := cleaning_step hinv hstep hok

end

/-! ## No opened vault is removed -/

/-- The directory that a create removes in this step has no session. -/
def RemovesUnopened (s : State T D I) (e : T × Event D I) (_ : State T D I) : Prop :=
  ∀ dir ∈ (s.pc e.1).cleaning, dir ∉ s.shared.sessions

/-- In every run in which a create that fails after it has released the unlock
gate fails on an unopened vault, no create removes an opened vault. -/
theorem createRemovesUnopened [DecidableEq T] {dirs : Finset D} {disk : D → Option I}
    (hdisk : ∀ dir, dir ∉ dirs → disk dir = none) {es : List (T × Event D I)}
    {s : State T D I} (hrun : Run step FailsUnopened (initial dirs disk) es s) :
    Run step RemovesUnopened (initial dirs disk) es s := by
  refine hrun.strengthen CleanInv (cleanInv_initial hdisk)
    (fun _ _ _ => cleanInv_step) fun s e s' hinv _ _ => ?_
  intro dir hcleaning
  exact (hinv.cleaning e.1 dir hcleaning).1.not_mem

/-! ## Concrete runs -/

instance [Fintype T] (s : State T D I) (dir : D) : Decidable (NoneInside s dir) :=
  inferInstanceAs (Decidable (∀ t, (s.pc t).opensInside ≠ some dir))

instance [Fintype T] [DecidableEq I] (s : State T D I) (e : T × Event D I)
    (s' : State T D I) : Decidable (FailsUnopened s e s') := by
  unfold FailsUnopened
  infer_instance

/-- No vault; three calls. -/
def noVaults : State (Fin 3) ℕ ℕ := initial ∅ fun _ => none

/-- A create that has seeded its store and released the unlock gate; an open
of the new vault returns `Ok`. -/
def openBeforeFinish : List (Fin 3 × Event ℕ ℕ) :=
  steps 0 (.createVault 0 7) 7 ++ steps 1 (.openVault 0 .sessionRam) 7

/-- That create succeeds; one of another vault fails and is cleaned up. -/
def finishAndFail : List (Fin 3 × Event ℕ ℕ) :=
  openBeforeFinish ++ List.replicate 2 (0, .advance true) ++
    steps 2 (.createVault 1 7) 3 ++ [(2, .advance false), (2, .advance true)]

theorem createRemovesUnopened_finishAndFail :
    ∃ s, Run step FailsUnopened noVaults finishAndFail s ∧
      Run step RemovesUnopened noVaults finishAndFail s := by
  obtain ⟨s, hrun, _⟩ := exists_run_of_execute step FailsUnopened finishAndFail noVaults
    (fun _ => true) (by decide +kernel)
  exact ⟨s, hrun, createRemovesUnopened (fun _ _ => rfl) hrun⟩

/-- The open has returned `Ok`, then the create fails and removes the vault. -/
theorem createCleanup_removesOpened :
    ∃ s s', Run step Always noVaults (openBeforeFinish ++ [(0, .advance false)]) s ∧
      s.pc 1 = .returned true ∧ step s (0, .advance true) = some s' ∧
      ¬ RemovesUnopened s (0, .advance true) s' ∧
      0 ∈ s'.shared.sessions ∧ 0 ∉ s'.shared.dirs := by
  obtain ⟨s, s', hrun, hstep, htest⟩ := exists_step_of_execute step Always
    (openBeforeFinish ++ [(0, .advance false)]) (0, .advance true) noVaults
    (fun s s' => decide (s.pc 1 = .returned true ∧ (s.pc 0).cleaning = some 0 ∧
      0 ∈ s.shared.sessions ∧ 0 ∈ s'.shared.sessions ∧ 0 ∉ s'.shared.dirs))
    (by decide +kernel)
  obtain ⟨hopened, hcleaning, hmem, hstays, hgone⟩ := of_decide_eq_true htest
  exact ⟨s, s', hrun, hopened, hstep, fun hok => hok 0 hcleaning hmem, hstays, hgone⟩

end Upriv.Session
