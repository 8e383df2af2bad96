import Upriv.Vault.Throttle

/-!
# Runs of unlock attempts

Attempts on any vault of any vault-root, one after another, and between them
whatever else the process does.  Of one directory the run records the
wrong-password attempts that reached `open_store` since the last success.
-/

namespace Upriv.Vault

open FallibleM Contents

section
variable {U : UuidCrate} (env : VaultEnv U)

/-! ## Reaching the store -/

/-- The directory an attempt works on, what `open_store` answers, and the world
it is called in; `none` when the attempt is refused before. -/
def reachesStore (w : World U) (root : VaultRoot) (vaultId : String) (password : Bytes) :
    Option (PathBuf × Except UprivError (OpenedStore U) × World U) :=
  match exec (openUntilStore env root vaultId password) w with
  | (.ok (vaultDir, _), m) =>
      some (vaultDir,
        (exec (openStore env.crates env.faults (contentsDir vaultDir) password) m.disk).1, m)
  | (.error _, _) => none

variable {env}

theorem openUntilStore_ok {root : VaultRoot} {vaultId : String} {password : Bytes}
    {w m : World U} {vaultDir : PathBuf} {config : VaultConfig}
    (h : exec (openUntilStore env root vaultId password) w = (.ok (vaultDir, config), m)) :
    root.vaultDir vaultId = .ok vaultDir ∧
      ∃ w₁, exec (checkUnlockAllowed env vaultDir) w = (.ok (), w₁) ∧
        m.throttle = w₁.throttle ∧ m.clockReads = w₁.clockReads := by
  rw [openUntilStore, exec_ensure_bind_eq_ok_iff, vaultDirOrNotFound] at h
  obtain ⟨_, h⟩ := h
  rw [exec_bind_eq_ok_iff] at h
  obtain ⟨dir, w₁, hdir, h⟩ := h
  rw [exec_ofExcept_bind_eq_ok_iff] at hdir
  obtain ⟨dir', haddr, hdir⟩ := hdir
  rw [exec_bind, exec_get] at hdir
  dsimp only at hdir
  rw [exec_ensure_bind_eq_ok_iff] at hdir
  obtain ⟨_, hdir⟩ := hdir
  cases hdir
  rw [exec_bind_eq_ok_iff] at h
  obtain ⟨config', w₂, hprelude, h⟩ := h
  cases h
  rw [openPrelude, exec_bind_eq_ok_iff] at hprelude
  obtain ⟨_, w₃, hcheck, hprelude⟩ := hprelude
  rw [exec_bind, exec_get] at hprelude
  dsimp only at hprelude
  rw [exec_ensure_bind_eq_ok_iff, exec_bind_eq_ok_iff] at hprelude
  obtain ⟨_, config'', w₄, hload, hprelude⟩ := hprelude
  rw [exec_ensure_bind_eq_ok_iff] at hprelude
  obtain ⟨_, hprelude⟩ := hprelude
  cases hprelude
  rw [exec_onDisk, Prod.mk.injEq] at hload
  obtain ⟨_, rfl⟩ := hload
  exact ⟨haddr, w₃, hcheck, rfl, rfl⟩

theorem reachesStore_eq_some {w m : World U} {root : VaultRoot} {vaultId : String}
    {password : Bytes} {vaultDir : PathBuf} {answer : Except UprivError (OpenedStore U)}
    (h : reachesStore env w root vaultId password = some (vaultDir, answer, m)) :
    ∃ config, exec (openUntilStore env root vaultId password) w =
        (.ok (vaultDir, config), m) ∧
      answer = (exec (openStore env.crates env.faults (contentsDir vaultDir) password)
        m.disk).1 := by
  unfold reachesStore at h
  split at h
  · rename_i dir config m' hrun
    cases h
    exact ⟨config, hrun, rfl⟩
  · cases h

/-! ## What the store's answer does to the throttle -/

/-- The throttle of a vault after `open_store` answered. -/
def UnlockThrottle.answered (state : UnlockThrottle) (now : ℕ) :
    Except UprivError (OpenedStore U) → UnlockThrottle
  | .ok _ => {}
  | .error .wrongPassword => state.fail now
  | .error _ => state

theorem throttle_insertSession (session : OpenSession U) (w : World U) :
    (exec (insertSession session) w).2.throttle = w.throttle ∧
      (exec (insertSession session) w).2.clockReads = w.clockReads := by
  rw [insertSession, exec_op]
  split
  · exact ⟨rfl, rfl⟩
  · exact ⟨rfl, rfl⟩

theorem throttle_openIntoSession (vaultDir : PathBuf) (vaultId : String) (password : Bytes)
    (config : VaultConfig) (m : World U) :
    (exec (openIntoSession env vaultDir vaultId password config) m).2.throttle =
        Function.update m.throttle vaultDir
          ((m.throttle vaultDir).answered (env.clock m.clockReads)
            (exec (openStore env.crates env.faults (contentsDir vaultDir) password)
              m.disk).1) ∧
      m.clockReads ≤
        (exec (openIntoSession env vaultDir vaultId password config) m).2.clockReads := by
  rw [openIntoSession, exec_bind, exec_attempt, exec_onDisk]
  dsimp only
  rcases (exec (openStore env.crates env.faults (contentsDir vaultDir) password) m.disk).1
    with error | opened
  · by_cases hwrong : error = .wrongPassword
    · subst hwrong
      dsimp only
      rw [exec_bind, exec_attempt]
      dsimp only
      rw [exec_throw, exec_recordUnlockFailure]
      exact ⟨rfl, Nat.le_succ _⟩
    · have hanswered : (m.throttle vaultDir).answered (env.clock m.clockReads)
          (.error error : Except UprivError (OpenedStore U)) = m.throttle vaultDir := by
        cases error <;> first | rfl | exact absurd rfl hwrong
      rw [hanswered, Function.update_eq_self]
      cases error <;> first | exact ⟨rfl, le_refl _⟩ | exact absurd rfl hwrong
  · dsimp only
    rw [exec_bind, recordUnlockSuccess, exec_modify]
    dsimp only
    rw [(throttle_insertSession _ _).1, (throttle_insertSession _ _).2]
    exact ⟨rfl, le_refl _⟩

end

/-! ## Runs -/

section
variable {U : UuidCrate} (env : VaultEnv U) (dir : PathBuf)

/-- What happens in a run. -/
inductive Activity (U : UuidCrate) where
  | attempt (root : VaultRoot) (vaultId : String) (password : Bytes)
  /-- Work of other operations, and the time it takes. -/
  | elsewhere (disk : Disk) (sessions : PathBuf → Option (OpenSession U)) (clockReads : ℕ)

/-- A world and, for `dir`, the wrong-password attempts that reached
`open_store` since the last success: when each passed the throttle and when it
was recorded. -/
structure Attempts (U : UuidCrate) where
  world : World U
  failures : List (ℕ × ℕ)

/-- The failures after `open_store` answered. -/
def noteAnswer (failures : List (ℕ × ℕ)) (checkedAt recordedAt : ℕ) :
    Except UprivError (OpenedStore U) → List (ℕ × ℕ)
  | .ok _ => []
  | .error .wrongPassword => failures ++ [(checkedAt, recordedAt)]
  | .error _ => failures

/-- The failures once an attempt made in `w` is over. -/
def failuresAfter (w : World U) (failures : List (ℕ × ℕ)) :
    Option (PathBuf × Except UprivError (OpenedStore U) × World U) → List (ℕ × ℕ)
  | some (vaultDir, answer, m) =>
      if vaultDir = dir then
        noteAnswer failures (env.clock w.clockReads) (env.clock m.clockReads) answer
      else failures
  | none => failures

def attemptsStep (s : Attempts U) : Activity U → Option (Attempts U)
  | .attempt root vaultId password => some {
      world := (exec (openVault env root vaultId password) s.world).2
      failures := failuresAfter env dir s.world s.failures
        (reachesStore env s.world root vaultId password) }
  | .elsewhere disk sessions clockReads => some {
      world := {
        disk := disk
        sessions := sessions
        throttle := s.world.throttle
        clockReads := s.world.clockReads + clockReads }
      failures := s.failures }

variable {env dir}

theorem ThrottleInv.answer {state : UnlockThrottle} {checkedAt recordedAt : ℕ}
    {failures : List (ℕ × ℕ)} (h : ThrottleInv state checkedAt failures)
    (hnone : state.blockedUntil = none) (hle : checkedAt ≤ recordedAt)
    (answer : Except UprivError (OpenedStore U)) :
    ThrottleInv (state.answered recordedAt answer) recordedAt
      (noteAnswer failures checkedAt recordedAt answer) := by
  rcases answer with error | opened
  · by_cases hwrong : error = .wrongPassword
    · subst hwrong
      exact h.fail hnone hle
    · have hother := h.wait hle
      cases error <;> first | exact hother | exact absurd rfl hwrong
  · exact ThrottleInv.start recordedAt

/-- What the throttle of `dir` knows of the recorded failures. -/
def AttemptsInv (env : VaultEnv U) (dir : PathBuf) (s : Attempts U) : Prop :=
  ThrottleInv (s.world.throttle dir) (env.clock s.world.clockReads) s.failures

theorem attemptsInv_attempt (root : VaultRoot) (vaultId : String) (password : Bytes)
    {s : Attempts U} (hinv : AttemptsInv env dir s) :
    AttemptsInv env dir {
      world := (exec (openVault env root vaultId password) s.world).2
      failures := failuresAfter env dir s.world s.failures
        (reachesStore env s.world root vaultId password) } := by
  have hwaits : Waits env s.world (exec (openUntilStore env root vaultId password) s.world).2 :=
    waits_openUntilStore root vaultId password s.world
  unfold AttemptsInv reachesStore
  rw [openVault, exec_bind]
  rcases hrun : exec (openUntilStore env root vaultId password) s.world
    with ⟨error | ⟨vaultDir, config⟩, m⟩
  · rw [hrun] at hwaits
    exact hinv.of_waits hwaits
  rw [hrun] at hwaits
  obtain ⟨haddr, w₁, hcheck, hthrottle, hreads⟩ := openUntilStore_ok hrun
  obtain ⟨hadvance, hunblocked, hstate⟩ := checkUnlockAllowed_ok hcheck
  have hanswer := @throttle_openIntoSession U env vaultDir vaultId password config m
  obtain ⟨hafter, hlater⟩ := hanswer
  dsimp only
  rw [hafter]
  by_cases hdir : vaultDir = dir
  · subst hdir
    rw [Function.update_self]
    have hchecked : ThrottleInv (m.throttle vaultDir) (env.clock s.world.clockReads)
        s.failures := by
      rw [hthrottle]
      rcases hstate with hsame | ⟨blockedUntil, hblocked, hexpired, hcleared⟩
      · rw [hsame]
        exact hinv
      · rw [hcleared]
        exact ThrottleInv.clear hinv hblocked hexpired
    have hle : env.clock s.world.clockReads ≤ env.clock m.clockReads :=
      env.clock_mono hwaits.1
    refine ThrottleInv.wait ?_ (env.clock_mono hlater)
    rw [failuresAfter, if_pos rfl]
    exact hchecked.answer (hthrottle ▸ hunblocked) hle _
  · rw [Function.update_of_ne (Ne.symm hdir)]
    rw [failuresAfter, if_neg hdir]
    exact (hinv.of_waits hwaits).wait (env.clock_mono hlater)

theorem attemptsInv_step {s s' : Attempts U} {activity : Activity U}
    (hinv : AttemptsInv env dir s) (hstep : attemptsStep env dir s activity = some s') :
    AttemptsInv env dir s' := by
  cases activity with
  | attempt root vaultId password =>
      cases hstep
      exact attemptsInv_attempt root vaultId password hinv
  | elsewhere disk sessions clockReads =>
      cases hstep
      exact ThrottleInv.wait hinv (env.clock_mono (Nat.le_add_right _ _))

/-- `openUntilStore` up to the throttle. -/
theorem openUntilStore_fst {root : VaultRoot} {vaultId : String} {password : Bytes}
    {w w₁ : World U} (haddr : root.vaultDir vaultId = .ok dir)
    (hcheck : exec (checkUnlockAllowed env dir) w = (.ok (), w₁)) :
    (exec (openUntilStore env root vaultId password) w).1 =
      if password = [] then .error .wrongPassword
      else if ¬ w.disk.isDir dir then .error (.vaultNotFound dir)
      else if (w₁.sessions dir).isSome then .error (.vaultAlreadyOpen vaultId)
      else
        match (exec (loadVaultConfig env.faults env.codec env.canonicalize dir) w₁.disk).1 with
        | .error error => .error error
        | .ok config =>
            if config.storageMode = .uprivPlain then .error .uprivPlainUnavailable
            else .ok (dir, config) := by
  by_cases hpassword : password = []
  · simp [openUntilStore, ensure, hpassword]
  by_cases hisDir : w.disk.isDir dir
  · have hdir : exec (vaultDirOrNotFound root vaultId : VaultM U PathBuf) w = (.ok dir, w) := by
      simp [vaultDirOrNotFound, exec_bind, ensure, haddr, hisDir]
    rw [openUntilStore, exec_bind, ensure, if_pos hpassword, exec_pure]
    dsimp only
    rw [exec_bind_of_ok hdir, exec_bind, openPrelude, exec_bind_of_ok hcheck, exec_bind, exec_get]
    dsimp only
    rw [if_neg hpassword, if_neg (not_not.mpr hisDir)]
    by_cases hopen : (w₁.sessions dir).isSome
    · have hsome : w₁.sessions dir ≠ none := Option.isSome_iff_ne_none.mp hopen
      simp [ensure, hsome]
    · rw [if_neg hopen, exec_bind, ensure, if_pos (by simpa using hopen), exec_pure]
      dsimp only
      rw [exec_bind, exec_onDisk]
      rcases (exec (loadVaultConfig env.faults env.codec env.canonicalize dir) w₁.disk).1
        with error | config
      · rfl
      · dsimp only
        rw [exec_bind, ensure]
        by_cases hplain : config.storageMode = .uprivPlain
        · simp [hplain]
        · simp [hplain]
  · simp [openUntilStore, vaultDirOrNotFound, exec_bind, ensure, hpassword, haddr, hisDir]

/-- An attempt does not see an expired block. -/
theorem openUntilStore_released {root : VaultRoot} {vaultId : String} (password : Bytes)
    {w : World U} (haddr : root.vaultDir vaultId = .ok dir)
    (hexpired : ∀ blockedUntil, (w.throttle dir).blockedUntil = some blockedUntil →
      blockedUntil ≤ env.clock w.clockReads) :
    (exec (openUntilStore env root vaultId password) w).1 =
      (exec (openUntilStore env root vaultId password) (w.setThrottle dir {})).1 := by
  obtain ⟨w₁, hcheck⟩ := exists_exec_eq ((checkUnlockAllowed_ok_iff dir w).mpr hexpired)
  have hcleared : (exec (checkUnlockAllowed env dir) (w.setThrottle dir {})).1 = .ok () :=
    (checkUnlockAllowed_ok_iff dir (w.setThrottle dir {})).mpr (by simp [World.setThrottle])
  obtain ⟨w₂, hcheck'⟩ := exists_exec_eq hcleared
  have hsame := checkUnlockAllowed_same hcheck
  have hsame' := checkUnlockAllowed_same hcheck'
  rw [openUntilStore_fst haddr hcheck, openUntilStore_fst haddr hcheck', hsame.1, hsame.2,
    hsame'.1, hsame'.2]
  rfl

/-- The promises of the throttle of `dir`. -/
structure Throttled (env : VaultEnv U) (dir : PathBuf) (s : Attempts U) : Prop where
  /-- An attempt reaches the store between passing the throttle and being
  recorded.  At most five do so within any window. -/
  window : ∀ start, (s.failures.filter fun failure =>
    start ≤ failure.2 ∧ failure.1 < start + FAILURE_WINDOW).length ≤ FAILURES_BEFORE_BLOCK
  /-- While a block is pending no attempt reaches the store of `dir`. -/
  refused : ∀ blockedUntil, (s.world.throttle dir).blockedUntil = some blockedUntil →
    env.clock s.world.clockReads < blockedUntil →
      ∀ root vaultId password vaultDir answer m,
        reachesStore env s.world root vaultId password = some (vaultDir, answer, m) →
          vaultDir ≠ dir
  /-- From its expiry on an attempt passes the throttle, and goes on as it does
  on a vault that never saw a failure. -/
  released : (∀ blockedUntil, (s.world.throttle dir).blockedUntil = some blockedUntil →
      blockedUntil ≤ env.clock s.world.clockReads) →
    (exec (checkUnlockAllowed env dir) s.world).1 = .ok () ∧
      ∀ root vaultId password, root.vaultDir vaultId = .ok dir →
        (exec (openUntilStore env root vaultId password) s.world).1 =
          (exec (openUntilStore env root vaultId password)
            (s.world.setThrottle dir {})).1
  /-- A block ends 60 s after the last failure. -/
  expiry : ∀ blockedUntil, (s.world.throttle dir).blockedUntil = some blockedUntil →
    ∃ failure, s.failures.getLast? = some failure ∧
      blockedUntil = failure.2 + BLOCK_DURATION

theorem AttemptsInv.throttled {s : Attempts U} (hinv : AttemptsInv env dir s) :
    Throttled env dir s where
  window := hinv.window
  refused blockedUntil hblocked hpending root vaultId password vaultDir answer m hreached := by
    rintro rfl
    obtain ⟨config, hrun, -⟩ := reachesStore_eq_some hreached
    obtain ⟨-, w₁, hcheck, -⟩ := openUntilStore_ok hrun
    have hallowed : (exec (checkUnlockAllowed env vaultDir) s.world).1 = .ok () := by
      rw [hcheck]
    have hexpired := (checkUnlockAllowed_ok_iff vaultDir s.world).mp hallowed _ hblocked
    exact absurd hpending (not_lt.mpr hexpired)
  released hexpired :=
    ⟨(checkUnlockAllowed_ok_iff dir s.world).mpr hexpired,
      fun _ _ password haddr => openUntilStore_released password haddr hexpired⟩
  expiry := hinv.blocked

/-- In every run of attempts the throttle keeps its promises. -/
theorem attempts_throttled {disk : Disk} {activities : List (Activity U)} {s : Attempts U}
    (hrun : Run (attemptsStep env dir) Always ⟨World.fresh disk, []⟩ activities s) :
    Throttled env dir s := by
  have hstart : AttemptsInv env dir ⟨World.fresh disk, []⟩ := ThrottleInv.start _
  refine AttemptsInv.throttled (hrun.invariant (AttemptsInv env dir) hstart ?_)
  intro s activity s' hinv hstep _
  exact attemptsInv_step hinv hstep

end

/-! ## A block and its end -/

def wrongAttempt : Activity UuidCrate.hyphenated := .attempt sampleRoot "notes" [1]

/-- A minute in which nothing is tried. -/
def quietMinute : Activity UuidCrate.hyphenated :=
  .elsewhere sampleDisk (fun _ => none) BLOCK_DURATION

/-- The sixth wrong password in a row is not even tried; after the block it is. -/
theorem attempts_throttled_wrongPassword :
    (∃ s, Run (attemptsStep sampleEnv sampleVaultDir) Always ⟨World.fresh sampleDisk, []⟩
        (List.replicate 6 wrongAttempt) s ∧
      Throttled sampleEnv sampleVaultDir s ∧
      s.failures = [(0, 1), (2, 3), (4, 5), (6, 7), (8, 9)] ∧
      (s.world.throttle sampleVaultDir).blockedUntil = some (9 + BLOCK_DURATION)) ∧
    ∃ s, Run (attemptsStep sampleEnv sampleVaultDir) Always ⟨World.fresh sampleDisk, []⟩
        (List.replicate 6 wrongAttempt ++ [quietMinute, wrongAttempt]) s ∧
      Throttled sampleEnv sampleVaultDir s ∧
      s.failures = [(0, 1), (2, 3), (4, 5), (6, 7), (8, 9),
        (11 + BLOCK_DURATION, 12 + BLOCK_DURATION)] ∧
      (s.world.throttle sampleVaultDir).blockedUntil = none := by
  constructor
  · obtain ⟨s, hrun, htest⟩ := exists_run_of_execute (attemptsStep sampleEnv sampleVaultDir)
      Always (List.replicate 6 wrongAttempt) ⟨World.fresh sampleDisk, []⟩
      (fun s => decide (s.failures = [(0, 1), (2, 3), (4, 5), (6, 7), (8, 9)] ∧
        (s.world.throttle sampleVaultDir).blockedUntil = some (9 + BLOCK_DURATION)))
      (by decide +kernel)
    exact ⟨s, hrun, attempts_throttled hrun, of_decide_eq_true htest⟩
  · obtain ⟨s, hrun, htest⟩ := exists_run_of_execute (attemptsStep sampleEnv sampleVaultDir)
      Always (List.replicate 6 wrongAttempt ++ [quietMinute, wrongAttempt])
      ⟨World.fresh sampleDisk, []⟩
      (fun s => decide (s.failures = [(0, 1), (2, 3), (4, 5), (6, 7), (8, 9),
          (11 + BLOCK_DURATION, 12 + BLOCK_DURATION)] ∧
        (s.world.throttle sampleVaultDir).blockedUntil = none))
      (by decide +kernel)
    exact ⟨s, hrun, attempts_throttled hrun, of_decide_eq_true htest⟩

end Upriv.Vault
