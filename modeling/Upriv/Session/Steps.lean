import Upriv.Session.Model

/-!
# What one step changes

`Moves` lists what a step can do.  From it follow, for each part of the shared
state and for what calls have in hand, the steps that can change it.  Every
invariant is derived from these lemmas; none looks at the step function again.
-/

namespace Upriv.Session

variable {T D I : Type} [DecidableEq D]

/-! ## `insert_session` -/

section
variable (session : OpenSession T D I) (sh : Shared T D I)

@[simp] theorem closing_insertSession :
    (insertSession session sh).2.closing = sh.closing := by
  unfold insertSession
  split <;> rfl

@[simp] theorem gate_insertSession :
    (insertSession session sh).2.gate = sh.gate := by
  unfold insertSession
  split <;> rfl

@[simp] theorem disk_insertSession :
    (insertSession session sh).2.disk = sh.disk := by
  unfold insertSession
  split <;> rfl

@[simp] theorem dirs_insertSession :
    (insertSession session sh).2.dirs = sh.dirs := by
  unfold insertSession
  split <;> rfl

@[simp] theorem dirGate_insertSession :
    (insertSession session sh).2.dirGate = sh.dirGate := by
  unfold insertSession
  split <;> rfl

theorem insertSession_of_not_mem (h : session.vaultDir ∉ sh.sessions) :
    insertSession session sh = (true,
      { sh with sessions := sh.sessions.insert session.vaultDir session }) :=
  if_neg h

end

/-! ## One call -/

/-- What a step of call `t` can do, branch by branch. -/
inductive Moves (t : T) : Event D I → Pc T D I → Shared T D I → Pc T D I →
    Shared T D I → Prop where
  | refused {call sh} : Moves t (.call call) .idle sh (.returned false) sh
  | openVault {dir mode sh} (hdir : dir ∈ sh.dirs) :
      Moves t (.call (.openVault dir mode)) .idle sh (.openWait dir mode) sh
  | closeVault {dir present sh} (hdir : dir ∈ sh.dirs) :
      Moves t (.call (.closeVault dir present)) .idle sh (.closeEnter dir present) sh
  | createVault {dir seed sh} :
      Moves t (.call (.createVault dir seed)) .idle sh (.createRoot dir seed) sh
  | rootSwitchCheck {sh} : Moves t (.call .rootSwitchCheck) .idle sh .checkSessions sh
  | openWait {dir mode sh} (hgate : sh.gate = none) :
      Moves t (.advance true) (.openWait dir mode) sh (.openThrottle dir mode)
        { sh with gate := some t }
  | openThrottle {dir mode sh} :
      Moves t (.advance true) (.openThrottle dir mode) sh (.openCheck dir mode) sh
  | openThrottled {dir mode sh} :
      Moves t (.advance false) (.openThrottle dir mode) sh (.openRelease false) sh
  | openCheck {dir mode sh} (hmem : dir ∉ sh.sessions) :
      Moves t (.advance true) (.openCheck dir mode) sh (.openLoad dir mode) sh
  | openAlready {dir mode sh} (hmem : dir ∈ sh.sessions) :
      Moves t (.advance true) (.openCheck dir mode) sh (.openRelease false) sh
  | openLoad {dir mode sh} :
      Moves t (.advance true) (.openLoad dir mode) sh (.openRead dir mode) sh
  | openLoadFails {dir mode sh} :
      Moves t (.advance false) (.openLoad dir mode) sh (.openRelease false) sh
  | openRead {dir mode index sh} (hdisk : sh.disk dir = some index) :
      Moves t (.advance true) (.openRead dir mode) sh
        (.openInsert ⟨t, dir, index, mode.normalized⟩) sh
  | openReadFails {dir mode ok sh} :
      Moves t (.advance ok) (.openRead dir mode) sh (.openRelease false) sh
  | openInsert {session sh} :
      Moves t (.advance true) (.openInsert session) sh
        (.openRelease (insertSession session sh).1) (insertSession session sh).2
  | openRelease {ok sh} :
      Moves t (.advance true) (.openRelease ok) sh (.returned ok) { sh with gate := none }
  | closeEnter {dir present sh} :
      Moves t (.advance true) (.closeEnter dir present) sh (.closeTake dir present)
        { sh with closing := insert dir sh.closing }
  | closeTakeNone {dir present sh} (hlookup : sh.sessions.lookup dir = none) :
      Moves t (.advance true) (.closeTake dir present) sh (.closeDrop dir false) sh
  | closeTake {dir present session sh} (hlookup : sh.sessions.lookup dir = some session) :
      Moves t (.advance true) (.closeTake dir present) sh
        (.closePrompt dir present session) { sh with sessions := sh.sessions.erase dir }
  | closePrompt {dir present session sh} :
      Moves t (.advance true) (.closePrompt dir present session) sh
        (.closeFlush dir session) sh
  | closePromptRefused {dir session sh} (hmode : session.securityMode = .alwaysPrompt) :
      Moves t (.advance true) (.closePrompt dir false session) sh
        (.closeReinsert dir session) sh
  | closeFlush {dir session sh} :
      Moves t (.advance true) (.closeFlush dir session) sh (.closePersist dir session)
        { sh with disk := Function.update sh.disk dir (some session.index) }
  | closeFlushFails {dir session sh} :
      Moves t (.advance false) (.closeFlush dir session) sh
        (.closeReinsert dir session) sh
  | closePersist {dir session sh} :
      Moves t (.advance true) (.closePersist dir session) sh (.closeDrop dir true) sh
  | closePersistFails {dir session sh} :
      Moves t (.advance false) (.closePersist dir session) sh
        (.closeReinsert dir session) sh
  | closeReinsert {dir session sh} :
      Moves t (.advance true) (.closeReinsert dir session) sh (.closeDrop dir false)
        (insertSession session sh).2
  | closeDrop {dir ok sh} :
      Moves t (.advance true) (.closeDrop dir ok) sh (.returned ok)
        { sh with closing := sh.closing.erase dir }
  | createRoot {dir seed sh} :
      Moves t (.advance true) (.createRoot dir seed) sh (.createLock dir seed) sh
  | createRootFails {dir seed sh} :
      Moves t (.advance false) (.createRoot dir seed) sh (.returned false) sh
  | createLock {dir seed sh} (hfree : sh.dirGate dir = none) :
      Moves t (.advance true) (.createLock dir seed) sh (.createDir dir seed)
        { sh with dirGate := Function.update sh.dirGate dir (some t) }
  | createDir {dir seed sh} (hdir : dir ∉ sh.dirs) :
      Moves t (.advance true) (.createDir dir seed) sh (.createConfig dir seed)
        { sh with dirs := insert dir sh.dirs }
  | createDirFails {dir seed ok sh} :
      Moves t (.advance ok) (.createDir dir seed) sh (.createUnlock dir false) sh
  | createConfig {dir seed sh} :
      Moves t (.advance true) (.createConfig dir seed) sh (.createWait dir seed) sh
  | createConfigFails {dir seed sh} :
      Moves t (.advance false) (.createConfig dir seed) sh (.createCleanup dir) sh
  | createWait {dir seed sh} (hgate : sh.gate = none) :
      Moves t (.advance true) (.createWait dir seed) sh (.createSeed dir seed)
        { sh with gate := some t }
  | createSeed {dir seed sh} :
      Moves t (.advance true) (.createSeed dir seed) sh (.createRelease dir true)
        { sh with disk := Function.update sh.disk dir (some seed) }
  | createSeedFails {dir seed sh} :
      Moves t (.advance false) (.createSeed dir seed) sh (.createRelease dir false) sh
  | createRelease {dir sh} :
      Moves t (.advance true) (.createRelease dir true) sh (.createFinish dir)
        { sh with gate := none }
  | createReleaseFailed {dir sh} :
      Moves t (.advance true) (.createRelease dir false) sh (.createCleanup dir)
        { sh with gate := none }
  | createFinish {dir sh} :
      Moves t (.advance true) (.createFinish dir) sh (.createUnlock dir true) sh
  | createFinishFails {dir sh} :
      Moves t (.advance false) (.createFinish dir) sh (.createCleanup dir) sh
  | createCleanup {dir sh} :
      Moves t (.advance true) (.createCleanup dir) sh (.createUnlock dir false)
        { sh with dirs := sh.dirs.erase dir, disk := Function.update sh.disk dir none }
  | createCleanupFails {dir sh} :
      Moves t (.advance false) (.createCleanup dir) sh (.createUnlock dir false) sh
  | createUnlock {dir ok sh} :
      Moves t (.advance true) (.createUnlock dir ok) sh (.returned ok)
        { sh with dirGate := Function.update sh.dirGate dir none }
  | checkSessions {sh} (hempty : sh.sessions.keys = ∅) :
      Moves t (.advance true) .checkSessions sh .checkClosing sh
  | checkSessionsBusy {sh} (hbusy : sh.sessions.keys ≠ ∅) :
      Moves t (.advance true) .checkSessions sh (.checked true) sh
  | checkClosing {sh} (hempty : sh.closing = ∅) :
      Moves t (.advance true) .checkClosing sh .checkGate sh
  | checkClosingBusy {sh} (hbusy : sh.closing ≠ ∅) :
      Moves t (.advance true) .checkClosing sh (.checked true) sh
  | checkGate {sh} (hgate : sh.gate = none) :
      Moves t (.advance true) .checkGate sh (.checked false) sh
  | checkGateBusy {ok sh} : Moves t (.advance ok) .checkGate sh (.checked true) sh

variable {t : T} {pc pc' : Pc T D I} {ev : Event D I} {sh sh' : Shared T D I}
  {dir : D} {session : OpenSession T D I}

theorem moves_of_next (h : next t pc ev sh = some (pc', sh')) :
    Moves t ev pc sh pc' sh' := by
  unfold next at h
  split at h
  all_goals (try split at h)
  all_goals cases h
  all_goals (try simp_all only [Bool.not_eq_true])
  -- most branches are a constructor as they stand
  all_goals first
    | done
    | (constructor <;> done)
    | (constructor <;> assumption)
    | skip
  case h_14.isTrue.refl h => exact .closePromptRefused h.1
  case h_21.isFalse.refl ok h =>
      obtain ⟨hdir, hok⟩ := not_or.mp h
      rw [Bool.not_eq_false] at hok
      rw [hok]
      exact .createDir hdir
  case h_31.refl ok =>
      by_cases hgate : sh.gate = none
      · cases ok
        · exact .checkGateBusy
        · rw [hgate]
          exact .checkGate hgate
      · rw [Option.isSome_iff_ne_none.mpr hgate, Bool.or_true]
        exact .checkGateBusy

/-- A close enters with its mark, and only `closeDrop` removes one. -/
theorem next_closing (h : next t pc ev sh = some (pc', sh')) :
    (sh'.closing = sh.closing ∧ pc'.guardDir = pc.guardDir) ∨
    (∃ dir, sh'.closing = insert dir sh.closing ∧ pc'.guardDir = some dir) ∨
    (∃ dir, pc.dropping = some dir ∧ sh'.closing = sh.closing.erase dir ∧
      pc'.guardDir = none) := by
  cases moves_of_next h <;> simp [Pc.guardDir, Pc.dropping]

/-- The gate is taken when it is free and released by its holder. -/
theorem next_gate (h : next t pc ev sh = some (pc', sh')) :
    (sh'.gate = sh.gate ∧ pc'.holdsGate = pc.holdsGate) ∨
    (sh.gate = none ∧ sh'.gate = some t ∧ pc'.holdsGate = true) ∨
    (pc.holdsGate = true ∧ sh'.gate = none ∧ pc'.holdsGate = false) := by
  cases moves_of_next h <;> simp_all [Pc.holdsGate]

/-- A session leaves the map when a close takes it and enters when an open
inserts it or a close puts it back. -/
theorem next_sessions (h : next t pc ev sh = some (pc', sh')) :
    sh'.sessions = sh.sessions ∨
    (∃ dir passwordPresent session, pc = .closeTake dir passwordPresent ∧
      pc' = .closePrompt dir passwordPresent session ∧
      sh.sessions.lookup dir = some session ∧
      sh'.sessions = sh.sessions.erase dir) ∨
    (∃ session, (pc = .openInsert session ∨ ∃ dir, pc = .closeReinsert dir session) ∧
      pc'.taken = none ∧ pc'.opening = none ∧
      sh'.sessions = (insertSession session sh).2.sessions) := by
  cases moves_of_next h <;> simp_all [Pc.taken, Pc.opening]

/-- A close comes into possession of a session by taking it out of the map. -/
theorem next_taken (h : next t pc ev sh = some (pc', sh'))
    (htaken : pc'.taken = some (dir, session)) :
    pc.taken = some (dir, session) ∨
    ∃ passwordPresent, pc = .closeTake dir passwordPresent ∧
      sh.sessions.lookup dir = some session ∧
      sh'.sessions = sh.sessions.erase dir := by
  cases moves_of_next h <;> simp_all [Pc.taken]
  obtain ⟨rfl, rfl⟩ := htaken
  assumption

/-- A close gives a session up by putting it back or after persisting. -/
theorem next_not_taken (h : next t pc ev sh = some (pc', sh'))
    (htaken : pc.taken = some (dir, session)) :
    pc'.taken = some (dir, session) ∨
    (pc = .closeReinsert dir session ∧ sh' = (insertSession session sh).2) ∨
    (pc = .closePersist dir session ∧ sh' = sh) := by
  cases moves_of_next h <;> simp_all [Pc.taken]

/-- An open starts loading only when the directory has no session. -/
theorem next_opening (h : next t pc ev sh = some (pc', sh'))
    (hopening : pc'.opening = some dir) :
    pc.opening = some dir ∨
    (pc.checking = some dir ∧ dir ∉ sh.sessions ∧ sh'.sessions = sh.sessions) := by
  cases moves_of_next h <;> simp_all [Pc.opening, Pc.checking]

/-- The index on disk changes by the flush of a close and by creates. -/
theorem next_disk (h : next t pc ev sh = some (pc', sh')) :
    sh'.disk = sh.disk ∨
    (∃ dir session, pc = .closeFlush dir session ∧
      sh'.disk = Function.update sh.disk dir (some session.index)) ∨
    pc.creating = true := by
  cases moves_of_next h <;> simp [Pc.creating]

theorem next_creating (h : next t pc ev sh = some (pc', sh'))
    (hcreating : pc'.creating = true) :
    pc.creating = true ∨ ev.creates = true := by
  cases moves_of_next h <;> simp_all [Pc.creating, Event.creates]

/-- The persist step comes after the flush has written the index. -/
theorem next_closePersist
    (h : next t pc ev sh = some (.closePersist dir session, sh')) :
    pc = .closeFlush dir session ∧
      sh'.disk = Function.update sh.disk dir (some session.index) := by
  cases moves_of_next h
  simp

/-- Persisting succeeds, or the session goes back. -/
theorem next_persist (h : next t pc ev sh = some (pc', sh'))
    (hpc : pc = .closePersist dir session) :
    pc' = .closeDrop dir true ∨ pc' = .closeReinsert dir session := by
  cases moves_of_next h <;> simp_all

/-- A check goes on after the first read when the map was empty. -/
theorem next_betweenReads (h : next t pc ev sh = some (pc', sh'))
    (hbetween : pc'.betweenReads = true) :
    pc.betweenReads = true ∨ (sh.sessions.keys = ∅ ∧ sh' = sh) := by
  cases moves_of_next h <;> simp_all [Pc.betweenReads]

/-- A check goes on after the second read when the closing set was empty. -/
theorem next_checkGate (h : next t pc ev sh = some (.checkGate, sh')) :
    sh.closing = ∅ ∧ sh' = sh := by
  cases moves_of_next h
  simpa

/-- A check answers false when the gate was free at the third read. -/
theorem next_checked_false (h : next t pc ev sh = some (pc', sh'))
    (hpc : pc' = .checked false) : pc = .checkGate ∧ sh.gate = none := by
  cases moves_of_next h <;> simp_all

/-! ## The process -/

section
variable [DecidableEq T] {s s' : State T D I} {e : T × Event D I}

/-- The acting call takes its step, every other call stays where it is. -/
theorem step_eq_some (h : step s e = some s') :
    next e.1 (s.pc e.1) e.2 s.shared = some (s'.pc e.1, s'.shared) ∧
      ∀ t, t ≠ e.1 → s'.pc t = s.pc t := by
  simp only [step, Option.map_eq_some_iff, Prod.exists] at h
  obtain ⟨pc, sh, hnext, rfl⟩ := h
  refine ⟨by simpa using hnext, fun t ht => ?_⟩
  exact Function.update_of_ne ht pc s.pc

end

end Upriv.Session
