import Upriv.Session.SoleSession

/-!
# The busy check

`vault_activity_blocks_root_switch` reads the session map, the closing set and
the gate, one after another.  A session that leaves the map in between is seen
as a mark, but a session that enters it goes unseen: an open inserts its
session after the first read and releases the gate before the third.  As long
as no session enters the map between the reads, and marks are not dropped
early, nothing is busy at the last read of a check that answers false.
-/

namespace Upriv.Session

variable {T D I : Type}

/-- Nothing open, nothing closing, no unlock in flight. -/
def Idle (s : State T D I) : Prop :=
  s.shared.sessions.keys = ∅ ∧ (∀ t, (s.pc t).takenDir = none) ∧
    s.shared.gate = none

/-- No mark is dropped early, and no session is inserted while a check is
between its reads. -/
def InsertsOutsideCheck (s : State T D I) (e : T × Event D I) (s' : State T D I) :
    Prop :=
  DropsLastGuard s e s' ∧
    ((s.pc e.1).inserting = true → ∀ t, (s.pc t).betweenReads = false)

/-! ## What a check has established -/

structure CheckSound (s : State T D I) : Prop where
  guardsMarked : GuardsMarked s
  sessions : ∀ t, (s.pc t).betweenReads = true → s.shared.sessions.keys = ∅
  taken : ∀ t, s.pc t = .checkGate → ∀ t', (s.pc t').takenDir = none

theorem checkSound_initial (dirs : Finset D) (disk : D → Option I) :
    CheckSound (initial dirs disk : State T D I) where
  guardsMarked := guardsMarked_initial dirs disk
  sessions := by simp [initial, Pc.betweenReads]
  taken := by simp [initial]

variable [DecidableEq D] [DecidableEq T]

section
variable {s s' : State T D I} {e : T × Event D I}

theorem sessions_empty_step (hstep : step s e = some s')
    (hinserting : (s.pc e.1).inserting = false)
    (hempty : s.shared.sessions.keys = ∅) : s'.shared.sessions.keys = ∅ := by
  obtain ⟨hnext, _⟩ := step_eq_some hstep
  rcases next_sessions hnext with hsame | ⟨dir, _, session, _, _, hlookup, _⟩ |
      ⟨session, hpc, _⟩
  · rw [hsame, hempty]
  · have hmem : dir ∈ s.shared.sessions.keys :=
      Finmap.mem_keys.mpr (Finmap.mem_of_lookup_eq_some hlookup)
    rw [hempty] at hmem
    exact absurd hmem (Finset.notMem_empty dir)
  · rcases hpc with hpc | ⟨dir, hpc⟩ <;>
      · rw [hpc] at hinserting
        cases hinserting

theorem sessions_betweenReads_step (hinv : CheckSound s) (hstep : step s e = some s')
    (hok : InsertsOutsideCheck s e s') {t : T}
    (hbetween : (s'.pc t).betweenReads = true) : s'.shared.sessions.keys = ∅ := by
  obtain ⟨hnext, hother⟩ := step_eq_some hstep
  have hkept (hold : (s.pc t).betweenReads = true) :
      s'.shared.sessions.keys = ∅ := by
    refine sessions_empty_step hstep ?_ (hinv.sessions t hold)
    rw [Bool.eq_false_iff]
    intro hinserting
    rw [hok.2 hinserting t] at hold
    cases hold
  by_cases ht : t = e.1
  · subst ht
    rcases next_betweenReads hnext hbetween with hold | ⟨hempty, hsame⟩
    · exact hkept hold
    · rw [hsame, hempty]
  · exact hkept (hother t ht ▸ hbetween)

theorem taken_checkGate_step (hinv : CheckSound s) (hstep : step s e = some s')
    {t : T} (hpc : s'.pc t = .checkGate) (t' : T) : (s'.pc t').takenDir = none := by
  obtain ⟨hnext, hother⟩ := step_eq_some hstep
  rw [Option.eq_none_iff_forall_ne_some]
  intro dir htaken
  by_cases ht : t = e.1
  · subst ht
    rw [hpc] at hnext
    obtain ⟨hclosing, hsame⟩ := next_checkGate hnext
    by_cases ht' : t' = e.1
    · rw [ht', hpc] at htaken
      cases htaken
    · have hmem := hinv.guardsMarked t' dir
        (guardDir_of_takenDir (hother t' ht' ▸ htaken))
      rw [hclosing] at hmem
      exact Finset.notMem_empty dir hmem
  · have hold : s.pc t = .checkGate := hother t ht ▸ hpc
    rcases takenDir_step hstep htaken with hbefore | ⟨_, hmem, _⟩
    · rw [hinv.taken t hold t'] at hbefore
      cases hbefore
    · rw [← Finmap.mem_keys, hinv.sessions t (by rw [hold]; rfl)] at hmem
      exact Finset.notMem_empty dir hmem

theorem checkSound_step (hinv : CheckSound s) (hstep : step s e = some s')
    (hok : InsertsOutsideCheck s e s') : CheckSound s' where
  guardsMarked := guardsMarked_step hinv.guardsMarked hstep hok.1
  sessions _ := sessions_betweenReads_step hinv hstep hok
  taken _ := taken_checkGate_step hinv hstep

/-- A check answers false when its last read finds the gate free. -/
theorem idle_of_checked (hinv : CheckSound s) (hstep : step s e = some s') {c : T}
    (hbefore : s.pc c ≠ .checked false) (hafter : s'.pc c = .checked false) :
    s.pc c = .checkGate ∧ Idle s := by
  obtain ⟨hnext, hother⟩ := step_eq_some hstep
  by_cases hc : c = e.1
  · subst hc
    obtain ⟨hpc, hgate⟩ := next_checked_false hnext hafter
    exact ⟨hpc, hinv.sessions e.1 (by rw [hpc]; rfl), hinv.taken e.1 hpc, hgate⟩
  · exact absurd (hother c hc ▸ hafter) hbefore

end

/-! ## The check -/

/-- At some instant of the run from `start` to `s`, check `c` was running and
nothing was busy. -/
def IdleDuringCheck (start : State T D I) (es : List (T × Event D I))
    (s : State T D I) (c : T) : Prop :=
  ∃ es₁ es₂ m, es = es₁ ++ es₂ ∧ Run step Always start es₁ m ∧
    Run step Always m es₂ s ∧ (m.pc c).inCheck = true ∧ Idle m

/-- In every run in which marks are not dropped early and no session is
inserted between the reads of a check, a check that answers false was running
at an idle instant. -/
theorem rootSwitchCheck_idle {dirs : Finset D} {disk : D → Option I}
    {es : List (T × Event D I)} {s : State T D I}
    (hrun : Run step InsertsOutsideCheck (initial dirs disk) es s) {c : T}
    (hfalse : s.pc c = .checked false) :
    IdleDuringCheck (initial dirs disk) es s c := by
  obtain ⟨es₁, e, es₂, m, m', rfl, hbefore, hstep, hok, hafter, hm, hm'⟩ :=
    hrun.exists_entry (fun s => s.pc c = .checked false) (by simp [initial]) hfalse
  have hinv : CheckSound m :=
    hbefore.invariant CheckSound (checkSound_initial dirs disk)
      fun _ _ _ => checkSound_step
  obtain ⟨hpc, hidle⟩ := idle_of_checked hinv hstep hm hm'
  have hrest : Run step Always m (e :: es₂) s :=
    .cons hstep trivial (hafter.mono fun _ _ _ _ => trivial)
  refine ⟨es₁, e :: es₂, m, rfl, hbefore.mono fun _ _ _ _ => trivial, hrest, ?_, hidle⟩
  rw [hpc]
  rfl

/-! ## Concrete runs -/

instance [Fintype T] (s : State T D I) : Decidable (Idle s) := by
  unfold Idle
  infer_instance

instance [Fintype T] (s : State T D I) (e : T × Event D I) (s' : State T D I) :
    Decidable (InsertsOutsideCheck s e s') := by
  unfold InsertsOutsideCheck
  infer_instance

/-- A whole open and close, then a check. -/
def closeThenCheck : List (Fin 3 × Event ℕ ℕ) :=
  openThenClose ++ List.replicate 3 (1, .advance true) ++ steps 2 .rootSwitchCheck 3

theorem rootSwitchCheck_idle_closeThenCheck :
    ∃ s, Run step InsertsOutsideCheck sampleState closeThenCheck s ∧
      s.pc 2 = .checked false ∧ IdleDuringCheck sampleState closeThenCheck s 2 := by
  obtain ⟨s, hrun, hfalse⟩ := exists_run_of_execute step InsertsOutsideCheck
    closeThenCheck sampleState (fun s => decide (s.pc 2 = .checked false))
    (by decide +kernel)
  have hfalse := of_decide_eq_true hfalse
  exact ⟨s, hrun, hfalse, rootSwitchCheck_idle hrun hfalse⟩

/-- A check reads the map and the closing set while an open holds the gate;
the open inserts its session and releases the gate; the check reads the gate. -/
def insertBetweenReads : List (Fin 3 × Event ℕ ℕ) :=
  steps 0 (.openVault 0 .sessionRam) 5 ++ steps 1 .rootSwitchCheck 2 ++
    [(0, .advance true), (0, .advance true), (1, .advance true)]

/-- The check answers false although the open was busy all the time. -/
theorem insertBetweenReads_unseen :
    ∃ s, Run step Always sampleState insertBetweenReads s ∧
      s.pc 1 = .checked false ∧
      ¬ IdleDuringCheck sampleState insertBetweenReads s 1 := by
  obtain ⟨s, hrun, hfalse⟩ := exists_run_of_execute step Always
    insertBetweenReads sampleState (fun s => decide (s.pc 1 = .checked false))
    (by decide +kernel)
  refine ⟨s, hrun, of_decide_eq_true hfalse, ?_⟩
  rintro ⟨es₁, es₂, m, hes, hbefore, _, hcheck, hidle⟩
  have hnever := test_of_execute_inits
    (fun m : State (Fin 3) ℕ ℕ => !((m.pc 1).inCheck && decide (Idle m)))
    (by decide +kernel) hes hbefore
  simp [hcheck, hidle] at hnever

end Upriv.Session
