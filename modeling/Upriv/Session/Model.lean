import Upriv.Config.VaultConfig.Types
import Mathlib.Data.Finmap
import Mathlib.Data.Finset.Basic

/-!
# Vault sessions in one process

`session/mod.rs`, `vault/open_close.rs` and `vault/create.rs` as a step
function on the shared state of the process and on the point each running
call has reached.  One step is one critical section or one file-system
operation; between two steps of a call any other call may run.

The shared state is the session map, the closing set, the unlock gate, the
per-directory gates, and on disk the vault directories and the sealed index
of each.  Locks are not poisoned: no step panics.
-/

namespace Upriv.Session

variable {T D I : Type}

/-- A session object.  `opener` is the call that built it, which tells two
sessions of one directory apart. -/
structure OpenSession (T D I : Type) where
  opener : T
  vaultDir : D
  index : I
  securityMode : VaultSecurityMode
  deriving DecidableEq, Repr

/-- The calls of the interface, with the outcomes of checks that precede the
first shared step left out: the password is not empty.  `mode` is the security
mode that the configuration on disk holds, `seed` the index of the seeded
store. -/
inductive Call (D I : Type) where
  | openVault (dir : D) (mode : VaultSecurityMode)
  | closeVault (dir : D) (passwordPresent : Bool)
  | createVault (dir : D) (seed : I)
  | rootSwitchCheck
  deriving DecidableEq, Repr

/-- The point a call has reached: its next step. -/
inductive Pc (T D I : Type) where
  | idle
  | openWait (dir : D) (mode : VaultSecurityMode)
  | openThrottle (dir : D) (mode : VaultSecurityMode)
  | openCheck (dir : D) (mode : VaultSecurityMode)
  | openLoad (dir : D) (mode : VaultSecurityMode)
  | openRead (dir : D) (mode : VaultSecurityMode)
  | openInsert (session : OpenSession T D I)
  | openRelease (ok : Bool)
  | closeEnter (dir : D) (passwordPresent : Bool)
  | closeTake (dir : D) (passwordPresent : Bool)
  | closePrompt (dir : D) (passwordPresent : Bool) (session : OpenSession T D I)
  | closeFlush (dir : D) (session : OpenSession T D I)
  | closePersist (dir : D) (session : OpenSession T D I)
  | closeReinsert (dir : D) (session : OpenSession T D I)
  | closeDrop (dir : D) (ok : Bool)
  | createRoot (dir : D) (seed : I)
  | createLock (dir : D) (seed : I)
  | createDir (dir : D) (seed : I)
  | createConfig (dir : D) (seed : I)
  | createWait (dir : D) (seed : I)
  | createSeed (dir : D) (seed : I)
  | createRelease (dir : D) (ok : Bool)
  | createFinish (dir : D)
  | createCleanup (dir : D)
  | createUnlock (dir : D) (ok : Bool)
  | checkSessions
  | checkClosing
  | checkGate
  | checked (busy : Bool)
  | returned (ok : Bool)
  deriving DecidableEq, Repr

structure Shared (T D I : Type) where
  sessions : Finmap fun _ : D => OpenSession T D I
  closing : Finset D
  gate : Option T
  dirGate : D → Option T
  dirs : Finset D
  disk : D → Option I

/-- A new call, or the next step of a call.  `ok` says whether a fallible
operation inside the step succeeds; a step that cannot fail takes `true`. -/
inductive Event (D I : Type) where
  | call (call : Call D I)
  | advance (ok : Bool)
  deriving DecidableEq, Repr

section
variable [DecidableEq D]

/-- `insert_session`: refused, with `false`, when the directory has a session
already; the refused object is dropped. -/
def insertSession (session : OpenSession T D I) (sh : Shared T D I) :
    Bool × Shared T D I :=
  if session.vaultDir ∈ sh.sessions then (false, sh)
  else (true,
    { sh with sessions := sh.sessions.insert session.vaultDir session })

/-- The next step of call `t`. -/
def next (t : T) (pc : Pc T D I) (ev : Event D I) (sh : Shared T D I) :
    Option (Pc T D I × Shared T D I) :=
  match pc, ev with
  -- the start of a call, with `vault_dir_or_not_found`
  | .idle, .call (.openVault dir mode) =>
    some (if dir ∈ sh.dirs then .openWait dir mode else .returned false, sh)
  | .idle, .call (.closeVault dir passwordPresent) =>
    some (if dir ∈ sh.dirs then .closeEnter dir passwordPresent
      else .returned false, sh)
  | .idle, .call (.createVault dir seed) => some (.createRoot dir seed, sh)
  | .idle, .call .rootSwitchCheck => some (.checkSessions, sh)
  -- `open_vault`, from `openThrottle` to `openRelease` inside `with_unlock_lock`
  | .openWait dir mode, .advance true =>
    if sh.gate = none then
      some (.openThrottle dir mode, { sh with gate := some t })
    else none
  | .openThrottle dir mode, .advance ok =>
    some (if ok then .openCheck dir mode else .openRelease false, sh)
  | .openCheck dir mode, .advance true =>
    some (if dir ∈ sh.sessions then .openRelease false else .openLoad dir mode, sh)
  | .openLoad dir mode, .advance ok =>
    some (if ok then .openRead dir mode else .openRelease false, sh)
  | .openRead dir mode, .advance ok =>
    match ok, sh.disk dir with
    | true, some index => some (.openInsert ⟨t, dir, index, mode.normalized⟩, sh)
    | _, _ => some (.openRelease false, sh)
  | .openInsert session, .advance true =>
    some (.openRelease (insertSession session sh).1, (insertSession session sh).2)
  | .openRelease ok, .advance true => some (.returned ok, { sh with gate := none })
  -- `close_vault`: the mark, the session, the presence check, flush and persist
  | .closeEnter dir passwordPresent, .advance true =>
    some (.closeTake dir passwordPresent,
      { sh with closing := insert dir sh.closing })
  | .closeTake dir passwordPresent, .advance true =>
    match sh.sessions.lookup dir with
    | none => some (.closeDrop dir false, sh)
    | some session =>
      some (.closePrompt dir passwordPresent session,
        { sh with sessions := sh.sessions.erase dir })
  | .closePrompt dir passwordPresent session, .advance true =>
    if session.securityMode = .alwaysPrompt ∧ passwordPresent = false then
      some (.closeReinsert dir session, sh)
    else some (.closeFlush dir session, sh)
  | .closeFlush dir session, .advance ok =>
    if ok then
      some (.closePersist dir session, { sh with
        disk := Function.update sh.disk dir (some session.index) })
    else some (.closeReinsert dir session, sh)
  | .closePersist dir session, .advance ok =>
    some (if ok then .closeDrop dir true else .closeReinsert dir session, sh)
  | .closeReinsert dir session, .advance true =>
    some (.closeDrop dir false, (insertSession session sh).2)
  | .closeDrop dir ok, .advance true =>
    some (.returned ok, { sh with closing := sh.closing.erase dir })
  -- `create_vault`, from `createDir` to `createUnlock` inside
  -- `with_vault_dir_lock`, `createSeed` inside `with_unlock_lock` as well
  | .createRoot dir seed, .advance ok =>
    some (if ok then .createLock dir seed else .returned false, sh)
  | .createLock dir seed, .advance true =>
    if sh.dirGate dir = none then
      some (.createDir dir seed,
        { sh with dirGate := Function.update sh.dirGate dir (some t) })
    else none
  | .createDir dir seed, .advance ok =>
    if dir ∈ sh.dirs ∨ ok = false then some (.createUnlock dir false, sh)
    else some (.createConfig dir seed, { sh with dirs := insert dir sh.dirs })
  | .createConfig dir seed, .advance ok =>
    some (if ok then .createWait dir seed else .createCleanup dir, sh)
  | .createWait dir seed, .advance true =>
    if sh.gate = none then
      some (.createSeed dir seed, { sh with gate := some t })
    else none
  | .createSeed dir seed, .advance ok =>
    if ok then
      some (.createRelease dir true,
        { sh with disk := Function.update sh.disk dir (some seed) })
    else some (.createRelease dir false, sh)
  | .createRelease dir ok, .advance true =>
    some (if ok then .createFinish dir else .createCleanup dir,
      { sh with gate := none })
  | .createFinish dir, .advance ok =>
    some (if ok then .createUnlock dir true else .createCleanup dir, sh)
  | .createCleanup dir, .advance ok =>
    if ok then
      some (.createUnlock dir false, { sh with
        dirs := sh.dirs.erase dir, disk := Function.update sh.disk dir none })
    else some (.createUnlock dir false, sh)
  | .createUnlock dir ok, .advance true =>
    some (.returned ok,
      { sh with dirGate := Function.update sh.dirGate dir none })
  -- `vault_activity_blocks_root_switch`, three reads one after another
  | .checkSessions, .advance true =>
    some (if sh.sessions.keys = ∅ then .checkClosing else .checked true, sh)
  | .checkClosing, .advance true =>
    some (if sh.closing = ∅ then .checkGate else .checked true, sh)
  -- `try_lock` also fails while another check holds the gate for an instant
  | .checkGate, .advance ok =>
    some (.checked (!ok || sh.gate.isSome), sh)
  | _, _ => none

/-! ## The whole process -/

structure State (T D I : Type) where
  shared : Shared T D I
  pc : T → Pc T D I

/-- One call takes its next step. -/
def step [DecidableEq T] (s : State T D I) (e : T × Event D I) : Option (State T D I) :=
  (next e.1 (s.pc e.1) e.2 s.shared).map fun (pc, sh) =>
    { shared := sh, pc := Function.update s.pc e.1 pc }

end

/-- No session, no mark, no lock held, no call running; any disk. -/
def initial (dirs : Finset D) (disk : D → Option I) : State T D I where
  shared := ⟨∅, ∅, none, fun _ => none, dirs, disk⟩
  pc _ := .idle

/-! ## What a call has in hand -/

/-- The session a close of a directory has taken and neither persisted nor
put back. -/
def Pc.taken : Pc T D I → Option (D × OpenSession T D I)
  | .closePrompt dir _ session => some (dir, session)
  | .closeFlush dir session => some (dir, session)
  | .closePersist dir session => some (dir, session)
  | .closeReinsert dir session => some (dir, session)
  | _ => none

/-- The directory whose session a close has. -/
def Pc.takenDir (pc : Pc T D I) : Option D := pc.taken.map Prod.fst

/-- The directory whose `ClosingGuard` a close holds. -/
def Pc.guardDir : Pc T D I → Option D
  | .closeTake dir _ => some dir
  | .closePrompt dir _ _ => some dir
  | .closeFlush dir _ => some dir
  | .closePersist dir _ => some dir
  | .closeReinsert dir _ => some dir
  | .closeDrop dir _ => some dir
  | _ => none

/-- The directory whose mark the next step of a close removes. -/
def Pc.dropping : Pc T D I → Option D
  | .closeDrop dir _ => some dir
  | _ => none

/-- The directory whose already-open check is the next step of an open. -/
def Pc.checking : Pc T D I → Option D
  | .openCheck dir _ => some dir
  | _ => none

/-- The directory for which an open has passed its already-open check and not
yet inserted the session. -/
def Pc.opening : Pc T D I → Option D
  | .openLoad dir _ => some dir
  | .openRead dir _ => some dir
  | .openInsert session => some session.vaultDir
  | _ => none

/-- The directory of the session an open is about to insert. -/
def Pc.insertDir : Pc T D I → Option D
  | .openInsert session => some session.vaultDir
  | _ => none

/-- Inside `with_unlock_lock`. -/
def Pc.holdsGate : Pc T D I → Bool
  | .openThrottle _ _ => true
  | .openCheck _ _ => true
  | .openLoad _ _ => true
  | .openRead _ _ => true
  | .openInsert _ => true
  | .openRelease _ => true
  | .createSeed _ _ => true
  | .createRelease _ _ => true
  | _ => false

/-- Inside `create_vault`. -/
def Pc.creating : Pc T D I → Bool
  | .createRoot _ _ => true
  | .createLock _ _ => true
  | .createDir _ _ => true
  | .createConfig _ _ => true
  | .createWait _ _ => true
  | .createSeed _ _ => true
  | .createRelease _ _ => true
  | .createFinish _ => true
  | .createCleanup _ => true
  | .createUnlock _ _ => true
  | _ => false

/-- Inside `vault_activity_blocks_root_switch`. -/
def Pc.inCheck : Pc T D I → Bool
  | .checkSessions => true
  | .checkClosing => true
  | .checkGate => true
  | _ => false

/-- A check that has found the session map empty and has reads to do. -/
def Pc.betweenReads : Pc T D I → Bool
  | .checkClosing => true
  | .checkGate => true
  | _ => false

/-- The next step inserts a session. -/
def Pc.inserting : Pc T D I → Bool
  | .openInsert _ => true
  | .closeReinsert _ _ => true
  | _ => false

section
variable {pc : Pc T D I} {dir : D} {session : OpenSession T D I}

theorem taken_of_takenDir (h : pc.takenDir = some dir) :
    ∃ session, pc.taken = some (dir, session) := by
  obtain ⟨⟨_, session⟩, htaken, rfl⟩ := Option.map_eq_some_iff.mp h
  exact ⟨session, htaken⟩

theorem takenDir_of_taken (h : pc.taken = some (dir, session)) : pc.takenDir = some dir := by
  rw [Pc.takenDir, h]
  rfl

theorem holdsGate_of_opening (h : pc.opening = some dir) :
    pc.holdsGate = true := by
  cases pc <;> simp_all [Pc.opening, Pc.holdsGate]

theorem opening_of_insertDir (h : pc.insertDir = some dir) : pc.opening = some dir := by
  cases pc <;> simp_all [Pc.insertDir, Pc.opening]

theorem guardDir_of_takenDir (h : pc.takenDir = some dir) :
    pc.guardDir = some dir := by
  cases pc <;> simp_all [Pc.takenDir, Pc.taken, Pc.guardDir]

end

/-- A call of `create_vault`. -/
def Event.creates : Event D I → Bool
  | .call (.createVault _ _) => true
  | _ => false

/-- Some close has taken the session of `dir` and still has it. -/
def Closing (s : State T D I) (dir : D) : Prop :=
  ∃ t, (s.pc t).takenDir = some dir

/-- `is_vault_closing_at`. -/
def isVaultClosingAt [DecidableEq D] (s : State T D I) (dir : D) : Bool :=
  dir ∈ s.shared.closing

/-- `any_closing`. -/
def anyClosing [DecidableEq D] (s : State T D I) : Bool :=
  s.shared.closing ≠ ∅

end Upriv.Session
