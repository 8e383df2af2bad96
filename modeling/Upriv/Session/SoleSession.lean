import Upriv.Session.ClosingMark

/-!
# One live session for each directory

A session object is in the map, in the hand of a close, or about to be
inserted by an open.  `open_vault` looks at the map only, so it can load a
second object while a close has the first one.  In runs in which no open
passes its already-open check during a close, a directory has at most one
live object; then a close that fails can always put its session back, and no
open reads an index that a close is about to replace.
-/

namespace Upriv.Session

variable {T D I : Type} [DecidableEq D]

/-! ## The invariant -/

structure SoleSession (s : State T D I) : Prop where
  keyed : ∀ dir session, s.shared.sessions.lookup dir = some session →
    session.vaultDir = dir
  taken_keyed : ∀ t dir session, (s.pc t).taken = some (dir, session) →
    session.vaultDir = dir
  gate : ∀ t, (s.pc t).holdsGate = true → s.shared.gate = some t
  taken_not_mem : ∀ t dir, (s.pc t).takenDir = some dir → dir ∉ s.shared.sessions
  taken_unique : ∀ t t' dir, (s.pc t).takenDir = some dir →
    (s.pc t').takenDir = some dir → t = t'
  opening_not_mem : ∀ t dir, (s.pc t).opening = some dir → dir ∉ s.shared.sessions
  opening_not_closing : ∀ t dir, (s.pc t).opening = some dir → ¬ Closing s dir
  creating : ∀ t, (s.pc t).creating = false
  flushed : ∀ t dir session, s.pc t = .closePersist dir session →
    s.shared.disk dir = some session.index

theorem soleSession_initial (dirs : Finset D) (disk : D → Option I) :
    SoleSession (initial dirs disk : State T D I) where
  keyed := by simp [initial]
  taken_keyed := by simp [initial, Pc.taken]
  gate := by simp [initial, Pc.holdsGate]
  taken_not_mem := by simp [initial, Pc.takenDir, Pc.taken]
  taken_unique := by simp [initial, Pc.takenDir, Pc.taken]
  opening_not_mem := by simp [initial, Pc.opening]
  opening_not_closing := by simp [initial, Pc.opening]
  creating := by simp [initial, Pc.creating]
  flushed := by simp [initial]

/-- The calls are opens, closes and root-switch checks, and no open passes its
already-open check while a close has the session of its directory. -/
def OpensOutsideClose (s : State T D I) (e : T × Event D I) (_ : State T D I) :
    Prop :=
  (∀ dir ∈ (s.pc e.1).checking, dir ∉ s.shared.sessions → ¬ Closing s dir) ∧
  e.2.creates = false

/-! ## Locks and keys -/

/-- Sessions stand under their own directory. -/
def SessionsKeyed (s : State T D I) : Prop :=
  ∀ dir session, s.shared.sessions.lookup dir = some session → session.vaultDir = dir

/-- A close has the session of its directory. -/
def TakenKeyed (s : State T D I) : Prop :=
  ∀ t dir session, (s.pc t).taken = some (dir, session) → session.vaultDir = dir

/-- Who is inside `with_unlock_lock` has the gate. -/
def GateHeld (s : State T D I) : Prop :=
  ∀ t, (s.pc t).holdsGate = true → s.shared.gate = some t

/-! ## What a step changes, call by call -/

section
variable [DecidableEq T] {s s' : State T D I} {e : T × Event D I} {t : T} {dir : D}

theorem takenDir_step (hstep : step s e = some s')
    (htaken : (s'.pc t).takenDir = some dir) :
    (s.pc t).takenDir = some dir ∨
    (t = e.1 ∧ dir ∈ s.shared.sessions ∧ dir ∉ s'.shared.sessions) := by
  obtain ⟨hnext, hother⟩ := step_eq_some hstep
  by_cases ht : t = e.1
  · subst ht
    obtain ⟨session, hsession⟩ := taken_of_takenDir htaken
    rcases next_taken hnext hsession with hold | ⟨_, _, hlookup, herase⟩
    · exact .inl (takenDir_of_taken hold)
    · refine .inr ⟨rfl, Finmap.mem_of_lookup_eq_some hlookup, ?_⟩
      rw [herase]
      exact Finmap.notMem_erase_self
  · exact .inl (hother t ht ▸ htaken)

theorem opening_step (hstep : step s e = some s')
    (hopening : (s'.pc t).opening = some dir) :
    (s.pc t).opening = some dir ∨
    (t = e.1 ∧ (s.pc t).checking = some dir ∧ dir ∉ s.shared.sessions) := by
  obtain ⟨hnext, hother⟩ := step_eq_some hstep
  by_cases ht : t = e.1
  · subst ht
    rcases next_opening hnext hopening with hold | ⟨hchecking, hmem, _⟩
    · exact .inl hold
    · exact .inr ⟨rfl, hchecking, hmem⟩
  · exact .inl (hother t ht ▸ hopening)

/-- A directory gains a session by the open that was loading it or the close
that had it, and the object leaves that call's hand. -/
theorem mem_sessions_step (hkeyed : TakenKeyed s) (hstep : step s e = some s')
    (hmem : dir ∈ s'.shared.sessions) :
    dir ∈ s.shared.sessions ∨
    (((s.pc e.1).insertDir = some dir ∨ (s.pc e.1).takenDir = some dir) ∧
      (s'.pc e.1).takenDir = none ∧ (s'.pc e.1).opening = none) := by
  obtain ⟨hnext, _⟩ := step_eq_some hstep
  rcases next_sessions hnext with hsame | ⟨_, _, _, _, _, _, herase⟩ |
      ⟨session, hpc, htaken, hopening, hinsert⟩
  · exact .inl (hsame ▸ hmem)
  · rw [herase, Finmap.mem_erase] at hmem
    exact .inl hmem.2
  · by_cases hrefused : session.vaultDir ∈ s.shared.sessions
    · rw [hinsert, insertSession, if_pos hrefused] at hmem
      exact .inl hmem
    · rw [hinsert, insertSession_of_not_mem _ _ hrefused, Finmap.mem_insert] at hmem
      rcases hmem with rfl | hmem
      · refine .inr ⟨?_, by rw [Pc.takenDir, htaken]; rfl, hopening⟩
        rcases hpc with hpc | ⟨dir, hpc⟩
        · exact .inl (by rw [hpc]; rfl)
        · have hdir : session.vaultDir = dir :=
            hkeyed e.1 dir session (by rw [hpc]; rfl)
          exact .inr (by rw [hpc, hdir]; rfl)
      · exact .inl hmem

/-! ## Preservation -/

theorem gate_step (hgate : GateHeld s) (hstep : step s e = some s')
    (hholds : (s'.pc t).holdsGate = true) : s'.shared.gate = some t := by
  obtain ⟨hnext, hother⟩ := step_eq_some hstep
  rcases next_gate hnext with ⟨hsameGate, hsame⟩ | ⟨hfree, hnew, _⟩ |
      ⟨hheld, hnew, hreleased⟩
  · rw [hsameGate]
    by_cases ht : t = e.1
    · subst ht
      exact hgate e.1 (hsame ▸ hholds)
    · exact hgate t (hother t ht ▸ hholds)
  · rw [hnew]
    by_cases ht : t = e.1
    · rw [ht]
    · have hold := hgate t (hother t ht ▸ hholds)
      rw [hfree] at hold
      cases hold
  · exfalso
    by_cases ht : t = e.1
    · subst ht
      rw [hreleased] at hholds
      cases hholds
    · have hold := hgate t (hother t ht ▸ hholds)
      rw [hgate e.1 hheld] at hold
      exact ht (Option.some.inj hold).symm

theorem keyed_step (hkeyed : SessionsKeyed s) (hstep : step s e = some s')
    {session : OpenSession T D I}
    (hlookup : s'.shared.sessions.lookup dir = some session) :
    session.vaultDir = dir := by
  obtain ⟨hnext, _⟩ := step_eq_some hstep
  rcases next_sessions hnext with hsame | ⟨taken, _, _, _, _, _, herase⟩ |
      ⟨inserted, _, _, _, hinsert⟩
  · exact hkeyed dir session (hsame ▸ hlookup)
  · rw [herase] at hlookup
    by_cases hdir : dir = taken
    · rw [hdir, Finmap.lookup_erase] at hlookup
      cases hlookup
    · rw [Finmap.lookup_erase_ne hdir] at hlookup
      exact hkeyed dir session hlookup
  · by_cases hrefused : inserted.vaultDir ∈ s.shared.sessions
    · rw [hinsert, insertSession, if_pos hrefused] at hlookup
      exact hkeyed dir session hlookup
    · rw [hinsert, insertSession_of_not_mem _ _ hrefused] at hlookup
      by_cases hdir : dir = inserted.vaultDir
      · rw [hdir, Finmap.lookup_insert] at hlookup
        rw [hdir, Option.some.inj hlookup]
      · rw [Finmap.lookup_insert_of_ne _ hdir] at hlookup
        exact hkeyed dir session hlookup

theorem taken_keyed_step (hkeyed : SessionsKeyed s) (htakenKeyed : TakenKeyed s)
    (hstep : step s e = some s')
    {session : OpenSession T D I}
    (htaken : (s'.pc t).taken = some (dir, session)) : session.vaultDir = dir := by
  obtain ⟨hnext, hother⟩ := step_eq_some hstep
  by_cases ht : t = e.1
  · subst ht
    rcases next_taken hnext htaken with hold | ⟨_, _, hlookup, _⟩
    · exact htakenKeyed e.1 dir session hold
    · exact hkeyed dir session hlookup
  · exact htakenKeyed t dir session (hother t ht ▸ htaken)

theorem taken_not_mem_step (hinv : SoleSession s) (hstep : step s e = some s')
    (htaken : (s'.pc t).takenDir = some dir) : dir ∉ s'.shared.sessions := by
  intro hmem
  rcases takenDir_step hstep htaken with hold | ⟨_, _, hnew⟩
  · rcases mem_sessions_step hinv.taken_keyed hstep hmem with hbefore | ⟨hby, hnone, _⟩
    · exact hinv.taken_not_mem t dir hold hbefore
    · have ht : t ≠ e.1 := by
        rintro rfl
        rw [hnone] at htaken
        cases htaken
      rcases hby with hinsert | htaken'
      · exact hinv.opening_not_closing e.1 dir (opening_of_insertDir hinsert) ⟨t, hold⟩
      · exact ht (hinv.taken_unique t e.1 dir hold htaken')
  · exact hnew hmem

theorem taken_unique_step (hinv : SoleSession s) (hstep : step s e = some s')
    {t' : T} (h : (s'.pc t).takenDir = some dir)
    (h' : (s'.pc t').takenDir = some dir) : t = t' := by
  rcases takenDir_step hstep h with hold | ⟨ht, hmem, _⟩ <;>
    rcases takenDir_step hstep h' with hold' | ⟨ht', hmem', _⟩
  · exact hinv.taken_unique t t' dir hold hold'
  · exact (hinv.taken_not_mem t dir hold hmem').elim
  · exact (hinv.taken_not_mem t' dir hold' hmem).elim
  · exact ht.trans ht'.symm

theorem opening_not_mem_step (hinv : SoleSession s) (hstep : step s e = some s')
    (hopening : (s'.pc t).opening = some dir) : dir ∉ s'.shared.sessions := by
  intro hmem
  rcases mem_sessions_step hinv.taken_keyed hstep hmem with hbefore | ⟨hby, _, hnone⟩
  · rcases opening_step hstep hopening with hold | ⟨_, _, hnot⟩
    · exact hinv.opening_not_mem t dir hold hbefore
    · exact hnot hbefore
  · have ht : t ≠ e.1 := by
      rintro rfl
      rw [hnone] at hopening
      cases hopening
    rcases opening_step hstep hopening with hold | ⟨heq, _⟩
    · rcases hby with hinsert | htaken
      · have hgate := hinv.gate t (holdsGate_of_opening hold)
        rw [hinv.gate e.1 (holdsGate_of_opening (opening_of_insertDir hinsert))] at hgate
        exact ht (Option.some.inj hgate).symm
      · exact hinv.opening_not_closing t dir hold ⟨e.1, htaken⟩
    · exact ht heq

theorem opening_not_closing_step (hinv : SoleSession s)
    (hstep : step s e = some s') (hok : OpensOutsideClose s e s')
    (hopening : (s'.pc t).opening = some dir) : ¬ Closing s' dir := by
  rintro ⟨t', htaken⟩
  rcases takenDir_step hstep htaken with hold | ⟨_, hmem, _⟩
  · rcases opening_step hstep hopening with hopen | ⟨rfl, hchecking, hnot⟩
    · exact hinv.opening_not_closing t dir hopen ⟨t', hold⟩
    · exact hok.1 dir hchecking hnot ⟨t', hold⟩
  · rcases opening_step hstep hopening with hopen | ⟨_, _, hnot⟩
    · exact hinv.opening_not_mem t dir hopen hmem
    · exact hnot hmem

theorem creating_step (hinv : SoleSession s) (hstep : step s e = some s')
    (hok : OpensOutsideClose s e s') : (s'.pc t).creating = false := by
  obtain ⟨hnext, hother⟩ := step_eq_some hstep
  by_cases ht : t = e.1
  · subst ht
    rw [Bool.eq_false_iff]
    intro hcreating
    rcases next_creating hnext hcreating with hold | hcreates
    · rw [hinv.creating e.1] at hold
      cases hold
    · rw [hok.2] at hcreates
      cases hcreates
  · rw [hother t ht]
    exact hinv.creating t

theorem flushed_step (hinv : SoleSession s) (hstep : step s e = some s')
    {session : OpenSession T D I} (hpc : s'.pc t = .closePersist dir session) :
    s'.shared.disk dir = some session.index := by
  obtain ⟨hnext, hother⟩ := step_eq_some hstep
  by_cases ht : t = e.1
  · subst ht
    rw [hpc] at hnext
    rw [(next_closePersist hnext).2, Function.update_self]
  · have hold : s.pc t = .closePersist dir session := hother t ht ▸ hpc
    rcases next_disk hnext with hsame | ⟨flushed, other, hflush, hdisk⟩ | hcreating
    · rw [hsame]
      exact hinv.flushed t dir session hold
    · have hne : dir ≠ flushed := by
        rintro rfl
        exact ht (hinv.taken_unique t e.1 dir (by rw [hold]; rfl)
          (by rw [hflush]; rfl))
      rw [hdisk, Function.update_of_ne hne]
      exact hinv.flushed t dir session hold
    · rw [hinv.creating e.1] at hcreating
      cases hcreating

theorem soleSession_step (hinv : SoleSession s) (hstep : step s e = some s')
    (hok : OpensOutsideClose s e s') : SoleSession s' where
  keyed _ _ := keyed_step hinv.keyed hstep
  taken_keyed _ _ _ := taken_keyed_step hinv.keyed hinv.taken_keyed hstep
  gate _ := gate_step hinv.gate hstep
  taken_not_mem _ _ := taken_not_mem_step hinv hstep
  taken_unique _ _ _ := taken_unique_step hinv hstep
  opening_not_mem _ _ := opening_not_mem_step hinv hstep
  opening_not_closing _ _ := opening_not_closing_step hinv hstep hok
  creating _ := creating_step hinv hstep hok
  flushed _ _ _ := flushed_step hinv hstep

end

/-! ## No index is lost or overtaken -/

/-- The object is in the map or in the hand of a close. -/
def Live (s : State T D I) (dir : D) (session : OpenSession T D I) : Prop :=
  s.shared.sessions.lookup dir = some session ∨
    ∃ t, (s.pc t).taken = some (dir, session)

/-- A live object stays live unless the acting close succeeds, and then its
index is on disk. -/
def KeepsIndexes (s : State T D I) (e : T × Event D I) (s' : State T D I) : Prop :=
  ∀ dir session, Live s dir session → Live s' dir session ∨
    (s'.pc e.1 = .closeDrop dir true ∧ s'.shared.disk dir = some session.index)

/-- A close that has a session and fails leaves that session open. -/
def FailedCloseReopens (s : State T D I) (e : T × Event D I) (s' : State T D I) :
    Prop :=
  ∀ dir session, (s.pc e.1).taken = some (dir, session) →
    s'.pc e.1 = .closeDrop dir false → s'.shared.sessions.lookup dir = some session

/-- From its already-open check to the insertion, an open of a directory acts
only when no close has the session of that directory, so no running close can
replace the index that the open reads. -/
def OpensSettledIndex (s : State T D I) (e : T × Event D I) (_ : State T D I) :
    Prop :=
  ∀ dir ∈ (s.pc e.1).opening, ¬ Closing s dir

section
variable {s s' : State T D I} {e : T × Event D I} {dir : D}
  {session : OpenSession T D I}

/-- Reinsertion cannot be refused: nothing took the place of the session. -/
theorem lookup_reinsert (hinv : SoleSession s)
    (hpc : s.pc e.1 = .closeReinsert dir session) :
    (insertSession session s.shared).2.sessions.lookup dir = some session := by
  have htaken : (s.pc e.1).taken = some (dir, session) := by
    rw [hpc]
    rfl
  have hdir := hinv.taken_keyed e.1 dir session htaken
  have hfree := hinv.taken_not_mem e.1 dir (takenDir_of_taken htaken)
  rw [← hdir] at hfree ⊢
  rw [insertSession_of_not_mem _ _ hfree]
  exact Finmap.lookup_insert _

variable [DecidableEq T]

theorem lookup_sessions_step (hstep : step s e = some s')
    (hlookup : s.shared.sessions.lookup dir = some session) :
    Live s' dir session := by
  obtain ⟨hnext, _⟩ := step_eq_some hstep
  rcases next_sessions hnext with hsame | ⟨taken, _, other, _, hpc', htaken, herase⟩ |
      ⟨inserted, _, _, _, hinsert⟩
  · exact .inl (hsame ▸ hlookup)
  · by_cases hdir : dir = taken
    · subst hdir
      have hsession : session = other := Option.some.inj (hlookup.symm.trans htaken)
      exact .inr ⟨e.1, by rw [hpc', hsession]; rfl⟩
    · exact .inl (by rw [herase, Finmap.lookup_erase_ne hdir, hlookup])
  · left
    by_cases hrefused : inserted.vaultDir ∈ s.shared.sessions
    · rw [hinsert, insertSession, if_pos hrefused]
      exact hlookup
    · have hne : dir ≠ inserted.vaultDir := by
        rintro rfl
        exact hrefused (Finmap.mem_of_lookup_eq_some hlookup)
      rw [hinsert, insertSession_of_not_mem _ _ hrefused,
        Finmap.lookup_insert_of_ne _ hne]
      exact hlookup

theorem keepsIndexes_step (hinv : SoleSession s) (hstep : step s e = some s') :
    KeepsIndexes s e s' := by
  obtain ⟨hnext, hother⟩ := step_eq_some hstep
  rintro dir session (hlookup | ⟨t, htaken⟩)
  · exact .inl (lookup_sessions_step hstep hlookup)
  · by_cases ht : t = e.1
    · subst ht
      rcases next_not_taken hnext htaken with hkept | ⟨hpc, hinsert⟩ | ⟨hpc, hsame⟩
      · exact .inl (.inr ⟨e.1, hkept⟩)
      · exact .inl (.inl (by rw [hinsert, lookup_reinsert hinv hpc]))
      · rcases next_persist hnext hpc with hpc' | hpc'
        · refine .inr ⟨hpc', ?_⟩
          rw [hsame]
          exact hinv.flushed e.1 dir session hpc
        · exact .inl (.inr ⟨e.1, by rw [hpc']; rfl⟩)
    · exact .inl (.inr ⟨t, by rw [hother t ht, htaken]⟩)

theorem failedCloseReopens_step (hinv : SoleSession s) (hstep : step s e = some s') :
    FailedCloseReopens s e s' := by
  obtain ⟨hnext, _⟩ := step_eq_some hstep
  intro dir session htaken hfailed
  rcases next_not_taken hnext htaken with hkept | ⟨hpc, hinsert⟩ | ⟨hpc, _⟩
  · rw [hfailed] at hkept
    cases hkept
  · rw [hinsert, lookup_reinsert hinv hpc]
  · rcases next_persist hnext hpc with hpc' | hpc' <;>
      · rw [hfailed] at hpc'
        cases hpc'

end

/-- In every run in which no open passes its already-open check while a close
has the session, no index is lost, a failed close leaves its session open, and
no open reads an index that a running close is about to replace. -/
theorem closeKeepsIndexes [DecidableEq T] {dirs : Finset D} {disk : D → Option I}
    {es : List (T × Event D I)} {s : State T D I}
    (hrun : Run step OpensOutsideClose (initial dirs disk) es s) :
    Run step (fun s e s' => KeepsIndexes s e s' ∧ FailedCloseReopens s e s' ∧
      OpensSettledIndex s e s') (initial dirs disk) es s := by
  refine hrun.strengthen SoleSession (soleSession_initial dirs disk)
    (fun _ _ _ => soleSession_step) fun s e s' hinv hstep _ => ?_
  refine ⟨keepsIndexes_step hinv hstep, failedCloseReopens_step hinv hstep, ?_⟩
  intro dir hopening
  exact hinv.opening_not_closing e.1 dir hopening

/-! ## Concrete runs -/

instance [Fintype T] (s : State T D I) (dir : D) : Decidable (Closing s dir) :=
  inferInstanceAs (Decidable (∃ t, (s.pc t).takenDir = some dir))

instance [Fintype T] (s : State T D I) (e : T × Event D I) (s' : State T D I) :
    Decidable (OpensOutsideClose s e s') := by
  unfold OpensOutsideClose
  infer_instance

/-- Open, and a close without the password that `always_prompt` asks for. -/
def refusedClose : List (Fin 3 × Event ℕ ℕ) :=
  steps 0 (.openVault 0 .alwaysPrompt) 7 ++ steps 1 (.closeVault 0 false) 5

theorem closeKeepsIndexes_refusedClose :
    ∃ s, Run step OpensOutsideClose sampleState refusedClose s ∧
      Run step (fun s e s' => KeepsIndexes s e s' ∧ FailedCloseReopens s e s' ∧
        OpensSettledIndex s e s') sampleState refusedClose s := by
  obtain ⟨s, hrun, _⟩ := exists_run_of_execute step OpensOutsideClose
    refusedClose sampleState (fun _ => true) (by decide +kernel)
  exact ⟨s, hrun, closeKeepsIndexes hrun⟩

/-- While a close is about to flush, an open looks at the map and starts to
load the vault. -/
def openDuringClose : List (Fin 3 × Event ℕ ℕ) :=
  openThenClose ++ steps 2 (.openVault 0 .sessionRam) 4

/-- The open then completes, the close flushes and fails to persist. -/
def failedCloseAfterOpen : List (Fin 3 × Event ℕ ℕ) :=
  openDuringClose ++ List.replicate 3 (2, .advance true) ++
    [(1, .advance true), (1, .advance false)]

/-- The open reads an index that the close is about to replace, and the failed
close cannot put its session back. -/
theorem openDuringClose_losesSession :
    (∃ s s', Run step Always sampleState openDuringClose s ∧
      step s (2, .advance true) = some s' ∧
      ¬ OpensSettledIndex s (2, .advance true) s') ∧
    (∃ s s', Run step Always sampleState failedCloseAfterOpen s ∧
      step s (1, .advance true) = some s' ∧
      ¬ FailedCloseReopens s (1, .advance true) s') := by
  constructor
  · obtain ⟨s, s', hrun, hstep, htest⟩ := exists_step_of_execute step Always
      openDuringClose (2, .advance true) sampleState
      (fun s _ => decide ((s.pc 2).opening = some 0 ∧ Closing s 0)) (by decide +kernel)
    obtain ⟨hopening, hclosing⟩ := of_decide_eq_true htest
    exact ⟨s, s', hrun, hstep, fun hsettled => hsettled 0 hopening hclosing⟩
  · let session : OpenSession (Fin 3) ℕ ℕ := ⟨0, 0, 0, .sessionRam⟩
    obtain ⟨s, s', hrun, hstep, htest⟩ := exists_step_of_execute step Always
      failedCloseAfterOpen (1, .advance true) sampleState
      (fun s s' => decide ((s.pc 1).taken = some (0, session) ∧
        s'.pc 1 = .closeDrop 0 false ∧ s'.shared.sessions.lookup 0 ≠ some session))
      (by decide +kernel)
    obtain ⟨htaken, hfailed, hlost⟩ := of_decide_eq_true htest
    exact ⟨s, s', hrun, hstep, fun hopen => hlost (hopen 0 session htaken hfailed)⟩

end Upriv.Session
