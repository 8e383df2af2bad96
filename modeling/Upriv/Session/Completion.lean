import Upriv.Session.SoleSession
import Mathlib.Algebra.BigOperators.Group.Finset.Basic
import Mathlib.Algebra.Order.BigOperators.Group.Finset

/-!
# Every call returns

The unlock gate, the gate of a directory and the mark of a close are held by calls that
are inside the part that they protect, so nothing is held when no call is running.  A call
waits for the unlock gate while it has the gate of its directory and never the other way
round, so among running calls one can go on; and a call has a bounded number of steps left.
Hence the calls that are running come to an end in every order of their steps.
-/

namespace Upriv.Session

variable {T D I : Type}

/-! ## Who holds what -/

/-- The directory whose gate a create has: inside `with_vault_dir_lock`. -/
def Pc.dirGate : Pc T D I → Option D
  | .createDir dir _ => some dir
  | .createConfig dir _ => some dir
  | .createWait dir _ => some dir
  | .createSeed dir _ => some dir
  | .createRelease dir _ => some dir
  | .createFinish dir => some dir
  | .createCleanup dir => some dir
  | .createUnlock dir _ => some dir
  | _ => none

/-- The locks are held by the calls inside of them, one call for each lock, and a mark is
the mark of a running close. -/
structure LocksHeld (s : State T D I) : Prop where
  gate : ∀ t, s.shared.gate = some t ↔ (s.pc t).holdsGate = true
  dirGate : ∀ dir t, s.shared.dirGate dir = some t ↔ (s.pc t).dirGate = some dir
  closing : ∀ dir ∈ s.shared.closing, ∃ t, (s.pc t).guardDir = some dir

section
variable [DecidableEq D] {t : T} {pc pc' : Pc T D I} {ev : Event D I} {sh sh' : Shared T D I}

/-- The gate of a directory is taken when it is free and released by its holder. -/
theorem next_dirGate (h : next t pc ev sh = some (pc', sh')) :
    (sh'.dirGate = sh.dirGate ∧ pc'.dirGate = pc.dirGate) ∨
    (∃ dir, sh.dirGate dir = none ∧ pc.dirGate = none ∧ pc'.dirGate = some dir ∧
      sh'.dirGate = Function.update sh.dirGate dir (some t)) ∨
    (∃ dir, pc.dirGate = some dir ∧ pc'.dirGate = none ∧
      sh'.dirGate = Function.update sh.dirGate dir none) := by
  cases moves_of_next h <;> simp_all [Pc.dirGate]

/-- A mark is set when its close enters and removed when a close of its directory leaves. -/
theorem next_guardDir (h : next t pc ev sh = some (pc', sh')) :
    (sh'.closing = sh.closing ∧ pc'.guardDir = pc.guardDir) ∨
    (∃ dir, pc.guardDir = none ∧ pc'.guardDir = some dir ∧
      sh'.closing = insert dir sh.closing) ∨
    (∃ dir, pc.guardDir = some dir ∧ pc'.guardDir = none ∧
      sh'.closing = sh.closing.erase dir) := by
  cases moves_of_next h <;> simp [Pc.guardDir]

end

theorem locksHeld_initial [DecidableEq D] (dirs : Finset D) (disk : D → Option I) :
    LocksHeld (initial dirs disk : State T D I) where
  gate := by simp [initial, Pc.holdsGate]
  dirGate := by simp [initial, Pc.dirGate]
  closing := by simp [initial]

section
variable [DecidableEq T] [DecidableEq D] {s s' : State T D I} {e : T × Event D I}

theorem gate_iff_step (hgate : ∀ t, s.shared.gate = some t ↔ (s.pc t).holdsGate = true)
    (hstep : step s e = some s') (t : T) :
    s'.shared.gate = some t ↔ (s'.pc t).holdsGate = true := by
  obtain ⟨hnext, hother⟩ := step_eq_some hstep
  rcases next_gate hnext with ⟨hsame, hholds⟩ | ⟨hfree, hnew, hholds⟩ | ⟨hheld, hnew, hholds⟩
  · rw [hsame, hgate t]
    by_cases ht : t = e.1
    · rw [ht, hholds]
    · rw [hother t ht]
  · rw [hnew]
    by_cases ht : t = e.1
    · rw [ht]
      exact iff_of_true rfl hholds
    · rw [hother t ht, ← hgate t, hfree]
      exact iff_of_false (fun h => ht (Option.some.inj h).symm) (by simp)
  · rw [hnew]
    refine iff_of_false (by simp) ?_
    by_cases ht : t = e.1
    · rw [ht, hholds]
      simp
    · rw [hother t ht, ← hgate t, (hgate e.1).mpr hheld]
      exact fun h => ht (Option.some.inj h).symm

theorem dirGate_iff_step
    (hgate : ∀ dir t, s.shared.dirGate dir = some t ↔ (s.pc t).dirGate = some dir)
    (hstep : step s e = some s') (dir : D) (t : T) :
    s'.shared.dirGate dir = some t ↔ (s'.pc t).dirGate = some dir := by
  obtain ⟨hnext, hother⟩ := step_eq_some hstep
  rcases next_dirGate hnext with ⟨hsame, hholds⟩ | ⟨taken, hfree, hnone, hholds, hnew⟩ |
      ⟨freed, hheld, hholds, hnew⟩
  · rw [hsame, hgate dir t]
    by_cases ht : t = e.1
    · rw [ht, hholds]
    · rw [hother t ht]
  · rw [hnew]
    by_cases hdir : dir = taken
    · rw [hdir, Function.update_self]
      by_cases ht : t = e.1
      · rw [ht]
        exact iff_of_true rfl hholds
      · rw [hother t ht, ← hgate taken t, hfree]
        exact iff_of_false (fun h => ht (Option.some.inj h).symm) (by simp)
    · rw [Function.update_of_ne hdir, hgate dir t]
      by_cases ht : t = e.1
      · rw [ht, hnone, hholds]
        exact iff_of_false (by simp) fun h => hdir (Option.some.inj h).symm
      · rw [hother t ht]
  · rw [hnew]
    by_cases hdir : dir = freed
    · rw [hdir, Function.update_self]
      refine iff_of_false (by simp) ?_
      by_cases ht : t = e.1
      · rw [ht, hholds]
        simp
      · rw [hother t ht, ← hgate freed t, (hgate freed e.1).mpr hheld]
        exact fun h => ht (Option.some.inj h).symm
    · rw [Function.update_of_ne hdir, hgate dir t]
      by_cases ht : t = e.1
      · rw [ht, hheld, hholds]
        exact iff_of_false (fun h => hdir (Option.some.inj h).symm) (by simp)
      · rw [hother t ht]

theorem closing_held_step
    (hclosing : ∀ dir ∈ s.shared.closing, ∃ t, (s.pc t).guardDir = some dir)
    (hstep : step s e = some s') {dir : D} (hmem : dir ∈ s'.shared.closing) :
    ∃ t, (s'.pc t).guardDir = some dir := by
  obtain ⟨hnext, hother⟩ := step_eq_some hstep
  -- a mark that was there before, and its close, which is not the acting one or goes on
  have hkept (hbefore : dir ∈ s.shared.closing)
      (hacting : (s.pc e.1).guardDir = some dir → (s'.pc e.1).guardDir = some dir) :
      ∃ t, (s'.pc t).guardDir = some dir := by
    obtain ⟨t, ht⟩ := hclosing dir hbefore
    by_cases heq : t = e.1
    · exact ⟨e.1, hacting (heq ▸ ht)⟩
    · exact ⟨t, (hother t heq).symm ▸ ht⟩
  rcases next_guardDir hnext with ⟨hsame, hguard⟩ | ⟨entered, hnone, hguard, hnew⟩ |
      ⟨left, hguard, -, hnew⟩
  · exact hkept (hsame ▸ hmem) fun h => hguard.trans h
  · rw [hnew, Finset.mem_insert] at hmem
    rcases hmem with rfl | hmem
    · exact ⟨e.1, hguard⟩
    · refine hkept hmem fun h => ?_
      rw [hnone] at h
      cases h
  · rw [hnew, Finset.mem_erase] at hmem
    refine hkept hmem.2 fun h => ?_
    exact absurd (Option.some.inj (h.symm.trans hguard)) hmem.1

theorem locksHeld_step (h : LocksHeld s) (hstep : step s e = some s') : LocksHeld s' where
  gate := gate_iff_step h.gate hstep
  dirGate := dirGate_iff_step h.dirGate hstep
  closing _ := closing_held_step h.closing hstep

/-- In every interleaving, failing steps included, the locks are where the calls are. -/
theorem locksHeld_of_run {dirs : Finset D} {disk : D → Option I} {es : List (T × Event D I)}
    (hrun : Run step Always (initial dirs disk) es s) : LocksHeld s :=
  hrun.invariant LocksHeld (locksHeld_initial dirs disk) fun _ _ _ h hstep _ =>
    locksHeld_step h hstep

/-- A lock has at most one call inside of it. -/
theorem oneCall_inLocks {dirs : Finset D} {disk : D → Option I} {es : List (T × Event D I)}
    (hrun : Run step Always (initial dirs disk) es s) :
    LocksHeld s ∧
      (∀ t t', (s.pc t).holdsGate = true → (s.pc t').holdsGate = true → t = t') ∧
      ∀ dir t t', (s.pc t).dirGate = some dir → (s.pc t').dirGate = some dir → t = t' := by
  have hlocks := locksHeld_of_run hrun
  refine ⟨hlocks, fun t t' ht ht' => ?_, fun dir t t' ht ht' => ?_⟩
  · exact Option.some.inj (((hlocks.gate t).mpr ht).symm.trans ((hlocks.gate t').mpr ht'))
  · exact Option.some.inj
      (((hlocks.dirGate dir t).mpr ht).symm.trans ((hlocks.dirGate dir t').mpr ht'))

end

/-! ## Running calls go on -/

/-- At most so many steps are left; none for a call that is not running. -/
def Pc.stepsLeft : Pc T D I → ℕ
  | .idle => 0
  | .openWait _ _ => 7
  | .openThrottle _ _ => 6
  | .openCheck _ _ => 5
  | .openLoad _ _ => 4
  | .openRead _ _ => 3
  | .openInsert _ => 2
  | .openRelease _ => 1
  | .closeEnter _ _ => 7
  | .closeTake _ _ => 6
  | .closePrompt _ _ _ => 5
  | .closeFlush _ _ => 4
  | .closePersist _ _ => 3
  | .closeReinsert _ _ => 2
  | .closeDrop _ _ => 1
  | .createRoot _ _ => 10
  | .createLock _ _ => 9
  | .createDir _ _ => 8
  | .createConfig _ _ => 7
  | .createWait _ _ => 6
  | .createSeed _ _ => 5
  | .createRelease _ _ => 4
  | .createFinish _ => 3
  | .createCleanup _ => 2
  | .createUnlock _ _ => 1
  | .checkSessions => 3
  | .checkClosing => 2
  | .checkGate => 1
  | .checked _ => 0
  | .returned _ => 0

/-- The start of a call. -/
def Event.isCall : Event D I → Bool
  | .call _ => true
  | .advance _ => false

/-- The next step takes the unlock gate. -/
def Pc.waits : Pc T D I → Bool
  | .openWait _ _ => true
  | .createWait _ _ => true
  | _ => false

/-- The directory whose gate the next step takes. -/
def Pc.waitsDir : Pc T D I → Option D
  | .createLock dir _ => some dir
  | _ => none

section
variable [DecidableEq D] {t : T} {pc pc' : Pc T D I} {ev : Event D I} {sh sh' : Shared T D I}

theorem next_stepsLeft (h : next t pc ev sh = some (pc', sh')) (hev : ev.isCall = false) :
    pc'.stepsLeft < pc.stepsLeft := by
  cases moves_of_next h <;> simp_all [Pc.stepsLeft, Event.isCall]

theorem next_call (h : next t pc ev sh = some (pc', sh')) (hev : ev.isCall = true) :
    pc'.stepsLeft ≤ 10 := by
  cases moves_of_next h <;> simp_all [Pc.stepsLeft, Event.isCall]

/-- Only a lock that is taken keeps a running call from its next step. -/
theorem next_isSome (hrunning : pc.stepsLeft ≠ 0) (hgate : pc.waits = true → sh.gate = none)
    (hdir : ∀ dir, pc.waitsDir = some dir → sh.dirGate dir = none) :
    (next t pc (.advance true) sh).isSome := by
  cases pc <;> simp_all [Pc.stepsLeft, Pc.waits, Pc.waitsDir, next]
  all_goals split <;> rfl

omit [DecidableEq D] in
theorem waits_of_holdsGate (h : pc.holdsGate = true) :
    pc.stepsLeft ≠ 0 ∧ pc.waits = false ∧ pc.waitsDir = none := by
  cases pc <;> simp_all [Pc.holdsGate, Pc.stepsLeft, Pc.waits, Pc.waitsDir]

omit [DecidableEq D] in
/-- Who has the gate of a directory does not wait for one. -/
theorem waitsDir_of_dirGate {dir : D} (h : pc.dirGate = some dir) :
    pc.stepsLeft ≠ 0 ∧ pc.waitsDir = none := by
  cases pc <;> simp_all [Pc.dirGate, Pc.stepsLeft, Pc.waitsDir]

end

section
variable [DecidableEq T] [DecidableEq D] {s s' : State T D I} {e : T × Event D I}

/-- Among running calls one can take its next step. -/
theorem exists_advance (h : LocksHeld s) {t : T} (hrunning : (s.pc t).stepsLeft ≠ 0) :
    ∃ t', (step s (t', .advance true)).isSome := by
  have hsome {t' : T} (h : (next t' (s.pc t') (.advance true) s.shared).isSome) :
      ∃ t', (step s (t', .advance true)).isSome :=
    ⟨t', by rwa [step, Option.isSome_map]⟩
  cases hgate : s.shared.gate with
  | some holder =>
      -- the holder of the unlock gate waits for nothing
      obtain ⟨hleft, hwaits, hdir⟩ := waits_of_holdsGate ((h.gate holder).mp hgate)
      refine hsome (next_isSome hleft ?_ ?_)
      · simp [hwaits]
      · simp [hdir]
  | none =>
      have hfree {t' : T} (hleft : (s.pc t').stepsLeft ≠ 0) (hdir : (s.pc t').waitsDir = none) :
          ∃ t', (step s (t', .advance true)).isSome :=
        hsome (next_isSome hleft (fun _ => hgate) (by simp [hdir]))
      cases hdir : (s.pc t).waitsDir with
      | none => exact hfree hrunning hdir
      | some dir =>
          cases hheld : s.shared.dirGate dir with
          | none =>
              refine hsome (next_isSome hrunning (fun _ => hgate) fun other hother => ?_)
              rwa [← Option.some.inj (hdir.symm.trans hother)]
          | some holder =>
              -- the holder of the gate of the directory waits for the unlock gate at most
              obtain ⟨hleft, hnone⟩ := waitsDir_of_dirGate ((h.dirGate dir holder).mp hheld)
              exact hfree hleft hnone

/-! ## Running calls return -/

/-- No call is running, no lock is held and no directory is marked. -/
structure Quiet (s : State T D I) : Prop where
  returned : ∀ t, (s.pc t).stepsLeft = 0
  gate : s.shared.gate = none
  dirGate : ∀ dir, s.shared.dirGate dir = none
  closing : s.shared.closing = ∅

omit [DecidableEq T] [DecidableEq D] in
theorem LocksHeld.quiet (h : LocksHeld s) (hreturned : ∀ t, (s.pc t).stepsLeft = 0) :
    Quiet s where
  returned := hreturned
  gate := by
    rw [Option.eq_none_iff_forall_ne_some]
    intro t ht
    exact (waits_of_holdsGate ((h.gate t).mp ht)).1 (hreturned t)
  dirGate dir := by
    rw [Option.eq_none_iff_forall_ne_some]
    intro t ht
    exact (waitsDir_of_dirGate ((h.dirGate dir t).mp ht)).1 (hreturned t)
  closing := by
    rw [Finset.eq_empty_iff_forall_notMem]
    intro dir hmem
    obtain ⟨t, ht⟩ := h.closing dir hmem
    have hreturned := hreturned t
    revert ht hreturned
    cases s.pc t <;> simp [Pc.guardDir, Pc.stepsLeft]

/-- What the acting call has left changes, the rest of the total stays. -/
theorem sum_stepsLeft_step (hstep : step s e = some s') {R : Finset T} (he : e.1 ∈ R) :
    ∑ t ∈ R, (s'.pc t).stepsLeft + (s.pc e.1).stepsLeft =
      ∑ t ∈ R, (s.pc t).stepsLeft + (s'.pc e.1).stepsLeft := by
  obtain ⟨-, hother⟩ := step_eq_some hstep
  have hrest : ∑ t ∈ R.erase e.1, (s'.pc t).stepsLeft = ∑ t ∈ R.erase e.1, (s.pc t).stepsLeft :=
    Finset.sum_congr rfl fun t ht => by rw [hother t (Finset.ne_of_mem_erase ht)]
  have hbefore := Finset.add_sum_erase R (fun t => (s.pc t).stepsLeft) he
  have hafter := Finset.add_sum_erase R (fun t => (s'.pc t).stepsLeft) he
  omega

/-- A call has ten steps, whatever the others do. -/
theorem countP_advance_le {dirs : Finset D} {disk : D → Option I} {es : List (T × Event D I)}
    (hrun : Run step Always (initial dirs disk) es s) {R : Finset T} (hR : ∀ e ∈ es, e.1 ∈ R) :
    es.countP (fun e => !e.2.isCall) + ∑ t ∈ R, (s.pc t).stepsLeft ≤
      10 * es.countP (fun e => e.2.isCall) := by
  induction hrun with
  | refl => simp [initial, Pc.stepsLeft]
  | @tail s₁ s₂ es e hrun hstep _ ih =>
      have he : e.1 ∈ R := hR e (by simp)
      have ih := ih fun e he => hR e (List.mem_append_left _ he)
      have hsum := sum_stepsLeft_step hstep he
      obtain ⟨hnext, -⟩ := step_eq_some hstep
      rw [List.countP_append, List.countP_append, List.countP_singleton, List.countP_singleton]
      cases hev : e.2.isCall with
      | true =>
          have hleft := next_call hnext hev
          simp only [Bool.not_true, Bool.false_eq_true, ↓reduceIte]
          omega
      | false =>
          have hleft := next_stepsLeft hnext hev
          simp only [Bool.not_false, Bool.false_eq_true, ↓reduceIte]
          omega

/-- In every interleaving the calls take ten steps each at most, and when none can go on
all have returned and hold nothing. -/
theorem calls_return {dirs : Finset D} {disk : D → Option I} {es : List (T × Event D I)}
    (hrun : Run step Always (initial dirs disk) es s) :
    es.countP (fun e => !e.2.isCall) ≤ 10 * es.countP (fun e => e.2.isCall) ∧
      ((∀ t, step s (t, .advance true) = none) → Quiet s) := by
  constructor
  · have hcount := countP_advance_le hrun (R := (es.map Prod.fst).toFinset) fun e he => by
      rw [List.mem_toFinset]
      exact List.mem_map_of_mem he
    omega
  · intro hstuck
    have hlocks := locksHeld_of_run hrun
    refine hlocks.quiet fun t => ?_
    by_contra hrunning
    obtain ⟨t', hsome⟩ := exists_advance hlocks hrunning
    rw [hstuck t'] at hsome
    cases hsome

end

/-- A create waits for the unlock gate while an open has it. -/
def createDuringOpen : List (Fin 3 × Event ℕ ℕ) :=
  steps 0 (.openVault 0 .sessionRam) 3 ++ steps 1 (.createVault 1 5) 4

/-- Both go on to their end. -/
def bothReturn : List (Fin 3 × Event ℕ ℕ) :=
  createDuringOpen ++ List.replicate 4 (0, .advance true) ++ List.replicate 5 (1, .advance true)

theorem oneCall_inLocks_createDuringOpen :
    ∃ s, Run step Always sampleState createDuringOpen s ∧ s.shared.gate = some 0 ∧
      s.shared.dirGate 1 = some 1 ∧ ∀ t, (s.pc t).holdsGate = true → t = 0 := by
  obtain ⟨s, hrun, htest⟩ := exists_run_of_execute step Always createDuringOpen sampleState
    (fun s => (s.pc 0).holdsGate && decide ((s.pc 1).dirGate = some 1)) (by decide +kernel)
  rw [Bool.and_eq_true, decide_eq_true_eq] at htest
  obtain ⟨hlocks, hone, -⟩ := oneCall_inLocks hrun
  exact ⟨s, hrun, (hlocks.gate 0).mpr htest.1, (hlocks.dirGate 1 1).mpr htest.2,
    fun t ht => hone t 0 ht htest.1⟩

theorem calls_return_bothReturn :
    ∃ s, Run step Always sampleState bothReturn s ∧ Quiet s := by
  obtain ⟨s, hrun, htest⟩ := exists_run_of_execute step Always bothReturn sampleState
    (fun s => decide (∀ t, (step s (t, .advance true)).isNone = true)) (by decide +kernel)
  have hstuck := of_decide_eq_true htest
  exact ⟨s, hrun, (calls_return hrun).2 fun t => Option.isNone_iff_eq_none.mp (hstuck t)⟩

end Upriv.Session
