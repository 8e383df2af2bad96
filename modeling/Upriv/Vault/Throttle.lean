import Upriv.Support.Preserves
import Upriv.Support.Runs
import Upriv.Vault.OpenClose

/-!
# The unlock throttle

`check_unlock_allowed` and the two records of `session/mod.rs` in a run of
attempts.  The run keeps a log of the wrong passwords since the last success:
when the attempt passed the throttle and when its failure was recorded.
-/

namespace Upriv.Vault

open FallibleM

/-! ## The throttle and its log -/

section
variable {state : UnlockThrottle} {now now' checkedAt recordedAt : ℕ} {log : List (ℕ × ℕ)}

/-- What the throttle of one vault knows at `now` of the failures in `log`. -/
structure ThrottleInv (state : UnlockThrottle) (now : ℕ) (log : List (ℕ × ℕ)) : Prop where
  past : ∀ failure ∈ log, failure.1 ≤ failure.2 ∧ failure.2 ≤ now
  sorted : (log.map Prod.snd).Pairwise (· ≤ ·)
  /-- Without a block every failure that still counts is retained. -/
  retained : state.blockedUntil = none →
    state.failures.length < FAILURES_BEFORE_BLOCK ∧
      ((log.map Prod.snd).filter (now < · + FAILURE_WINDOW)).Sublist state.failures
  /-- A block dates from the last failure. -/
  blocked : ∀ blockedUntil, state.blockedUntil = some blockedUntil →
    ∃ failure, log.getLast? = some failure ∧ blockedUntil = failure.2 + BLOCK_DURATION
  window : ∀ start, (log.filter fun failure =>
    start ≤ failure.2 ∧ failure.1 < start + FAILURE_WINDOW).length ≤ FAILURES_BEFORE_BLOCK

namespace ThrottleInv

theorem start (now : ℕ) : ThrottleInv {} now [] where
  past := nofun
  sorted := List.Pairwise.nil
  retained _ := ⟨by decide, List.Sublist.refl _⟩
  blocked := nofun
  window _ := Nat.zero_le _

/-- Failures that count later count now. -/
theorem sublist_of_le (hnow : now ≤ now') (times : List ℕ) :
    (times.filter (now' < · + FAILURE_WINDOW)).Sublist
      (times.filter (now < · + FAILURE_WINDOW)) := by
  refine List.monotone_filter_right times fun failedAt hcounts => ?_
  simp only [decide_eq_true_eq] at hcounts ⊢
  omega

theorem wait (h : ThrottleInv state now log) (hnow : now ≤ now') :
    ThrottleInv state now' log where
  past failure hmem := ⟨(h.past failure hmem).1, le_trans (h.past failure hmem).2 hnow⟩
  sorted := h.sorted
  retained hnone :=
    ⟨(h.retained hnone).1, (sublist_of_le hnow _).trans (h.retained hnone).2⟩
  blocked := h.blocked
  window := h.window

/-- When a block ends, no failure counts any more. -/
theorem clear {blockedUntil : ℕ} (h : ThrottleInv state now log)
    (hblocked : state.blockedUntil = some blockedUntil) (hexpired : blockedUntil ≤ now) :
    ThrottleInv {} now log where
  past := h.past
  sorted := h.sorted
  retained _ := by
    refine ⟨by decide, ?_⟩
    obtain ⟨last, hlast, huntil⟩ := h.blocked blockedUntil hblocked
    have hnone : (log.map Prod.snd).filter (now < · + FAILURE_WINDOW) = [] := by
      rw [List.filter_eq_nil_iff]
      intro failedAt hmem
      have hle : failedAt ≤ last.2 := by
        obtain ⟨before, rfl⟩ := List.getLast?_eq_some_iff.mp hlast
        rw [List.map_append, List.mem_append] at hmem
        have hsorted := h.sorted
        rw [List.map_append, List.pairwise_append] at hsorted
        rcases hmem with hold | hnew
        · exact hsorted.2.2 failedAt hold last.2 (by simp)
        · simp only [List.map_cons, List.map_nil, List.mem_singleton] at hnew
          exact le_of_eq hnew
      have hsame : FAILURE_WINDOW = BLOCK_DURATION := rfl
      simp only [decide_eq_true_eq]
      omega
    rw [hnone]
  blocked := nofun
  window := h.window

/-- A failure that passed the throttle at `checkedAt`. -/
theorem fail (h : ThrottleInv state checkedAt log) (hnone : state.blockedUntil = none)
    (hle : checkedAt ≤ recordedAt) :
    ThrottleInv (state.fail recordedAt) recordedAt (log ++ [(checkedAt, recordedAt)]) := by
  obtain ⟨hshort, hretained⟩ := h.retained hnone
  have hcounted : ∀ start, checkedAt < start + FAILURE_WINDOW →
      (log.filter fun failure =>
        start ≤ failure.2 ∧ failure.1 < start + FAILURE_WINDOW).length <
          FAILURES_BEFORE_BLOCK := by
    intro start hend
    calc (log.filter fun failure =>
          start ≤ failure.2 ∧ failure.1 < start + FAILURE_WINDOW).length
        ≤ (log.filter fun failure => checkedAt < failure.2 + FAILURE_WINDOW).length := by
          rw [← List.countP_eq_length_filter, ← List.countP_eq_length_filter]
          refine List.countP_mono_left fun failure _ hin => ?_
          simp only [decide_eq_true_eq] at hin ⊢
          omega
      _ = ((log.map Prod.snd).filter (checkedAt < · + FAILURE_WINDOW)).length := by
          rw [List.filter_map, List.length_map]
          rfl
      _ ≤ state.failures.length := hretained.length_le
      _ < FAILURES_BEFORE_BLOCK := hshort
  refine ⟨?_, ?_, ?_, ?_, ?_⟩
  · intro failure hmem
    rcases List.mem_append.mp hmem with hold | hnew
    · exact ⟨(h.past failure hold).1, le_trans (h.past failure hold).2 hle⟩
    · rw [List.mem_singleton.mp hnew]
      exact ⟨hle, le_refl _⟩
  · rw [List.map_append, List.pairwise_append]
    refine ⟨h.sorted, by simp, ?_⟩
    intro failedAt hmem other hother
    obtain ⟨failure, hfailure, rfl⟩ := List.mem_map.mp hmem
    simp only [List.map_cons, List.map_nil, List.mem_singleton] at hother
    rw [hother]
    exact le_trans (h.past failure hfailure).2 hle
  · intro hunblocked
    unfold UnlockThrottle.fail at hunblocked ⊢
    dsimp only at hunblocked ⊢
    split at hunblocked
    · cases hunblocked
    · rename_i hfew
      rw [if_neg hfew]
      refine ⟨not_le.mp hfew, ?_⟩
      have hself : recordedAt < recordedAt + FAILURE_WINDOW := by
        have hpos : 0 < FAILURE_WINDOW := by decide
        omega
      rw [List.map_append, List.filter_append]
      refine List.Sublist.append ?_ (by simp [hself])
      have hkept := hretained.filter fun failedAt => recordedAt < failedAt + FAILURE_WINDOW
      have hwindow : state.failures.filter (fun failedAt =>
          decide (recordedAt < failedAt + FAILURE_WINDOW)) =
          state.failures.filter fun failedAt =>
            decide (recordedAt - failedAt < FAILURE_WINDOW) := by
        refine List.filter_congr fun failedAt _ => ?_
        have hpos : 0 < FAILURE_WINDOW := by decide
        rw [decide_eq_decide]
        omega
      rw [List.filter_filter, hwindow] at hkept
      have hboth : (log.map Prod.snd).filter (fun failedAt =>
          decide (recordedAt < failedAt + FAILURE_WINDOW)) =
          (log.map Prod.snd).filter fun failedAt =>
            decide (recordedAt < failedAt + FAILURE_WINDOW) &&
              decide (checkedAt < failedAt + FAILURE_WINDOW) := by
        refine List.filter_congr fun failedAt _ => ?_
        rw [← Bool.decide_and, decide_eq_decide]
        omega
      rwa [hboth]
  · intro blockedUntil hblocked
    unfold UnlockThrottle.fail at hblocked
    dsimp only at hblocked
    split at hblocked
    · cases hblocked
      exact ⟨(checkedAt, recordedAt), by simp, rfl⟩
    · rw [hnone] at hblocked
      cases hblocked
  · intro start
    rw [List.filter_append, List.length_append]
    by_cases hin : start ≤ recordedAt ∧ checkedAt < start + FAILURE_WINDOW
    · have hbefore := hcounted start hin.2
      have hone : ([(checkedAt, recordedAt)].filter fun failure =>
          start ≤ failure.2 ∧ failure.1 < start + FAILURE_WINDOW).length ≤ 1 :=
        List.length_filter_le _ _
      omega
    · have hnone : [(checkedAt, recordedAt)].filter (fun failure =>
          start ≤ failure.2 ∧ failure.1 < start + FAILURE_WINDOW) = [] := by
        rw [List.filter_eq_nil_iff]
        intro failure hmem
        rw [List.mem_singleton.mp hmem, decide_eq_true_eq]
        exact hin
      rw [hnone]
      exact h.window start

end ThrottleInv

end

/-! ## What an attempt does to the throttle -/

section
variable {U : UuidCrate} {env : VaultEnv U}

/-- Time passes and blocks that have expired are lifted. -/
def Waits (env : VaultEnv U) (w w' : World U) : Prop :=
  w.clockReads ≤ w'.clockReads ∧
    ∀ dir, w'.throttle dir = w.throttle dir ∨
      ∃ blockedUntil, (w.throttle dir).blockedUntil = some blockedUntil ∧
        blockedUntil ≤ env.clock w'.clockReads ∧ w'.throttle dir = {}

instance : IsPreorder (World U) (Waits env) where
  refl w := ⟨le_refl _, fun _ => .inl rfl⟩
  trans w w' w'' h h' := by
    refine ⟨le_trans h.1 h'.1, fun dir => ?_⟩
    rcases h.2 dir with hsame | ⟨blockedUntil, hblocked, hexpired, hcleared⟩
    · rcases h'.2 dir with hsame' | ⟨blockedUntil, hblocked, hexpired, hcleared⟩
      · exact .inl (hsame'.trans hsame)
      · exact .inr ⟨blockedUntil, hsame ▸ hblocked, hexpired, hcleared⟩
    · rcases h'.2 dir with hsame' | ⟨_, hblocked', _, _⟩
      · exact .inr ⟨blockedUntil, hblocked,
          le_trans hexpired (env.clock_mono h'.1), hsame'.trans hcleared⟩
      · rw [hcleared] at hblocked'
        cases hblocked'

theorem waits_of_same {w w' : World U} (hreads : w'.clockReads = w.clockReads)
    (hthrottle : w'.throttle = w.throttle) : Waits env w w' :=
  ⟨le_of_eq hreads.symm, fun dir => .inl (congrFun hthrottle dir)⟩

theorem ThrottleInv.of_waits {dir : PathBuf} {log : List (ℕ × ℕ)} {w w' : World U}
    (h : ThrottleInv (w.throttle dir) (env.clock w.clockReads) log) (hwaits : Waits env w w') :
    ThrottleInv (w'.throttle dir) (env.clock w'.clockReads) log := by
  have hlater := h.wait (env.clock_mono hwaits.1)
  rcases hwaits.2 dir with hsame | ⟨blockedUntil, hblocked, hexpired, hcleared⟩
  · rwa [hsame]
  · rw [hcleared]
    exact hlater.clear hblocked hexpired

theorem waits_onDisk {α : Type} (x : FsM α) : Preserves (Waits env) (onDisk x : VaultM U α) :=
  fun _ => waits_of_same rfl rfl

theorem exec_checkUnlockAllowed (vaultDir : PathBuf) (w : World U) :
    exec (checkUnlockAllowed env vaultDir) w =
      let w' := { w with clockReads := w.clockReads + 1 }
      match (w.throttle vaultDir).blockedUntil with
      | none => (.ok (), w')
      | some blockedUntil =>
          if env.clock w.clockReads < blockedUntil then
            (.error (.vaultUnlockBlocked
              (max ((blockedUntil - env.clock w.clockReads) / SECOND) 1)), w')
          else (.ok (), w'.setThrottle vaultDir {}) := by
  rw [checkUnlockAllowed, exec_bind, instantNow, exec_op]
  dsimp only
  rw [exec_bind, exec_get]
  dsimp only
  cases (w.throttle vaultDir).blockedUntil with
  | none => rfl
  | some blockedUntil =>
      dsimp only
      rw [exec_bind, ensure]
      by_cases hblocked : env.clock w.clockReads < blockedUntil
      · simp [hblocked]
      · simp [hblocked]

theorem waits_checkUnlockAllowed (vaultDir : PathBuf) :
    Preserves (Waits env) (checkUnlockAllowed env vaultDir) := by
  intro w
  rw [exec_checkUnlockAllowed]
  dsimp only
  split
  · exact ⟨Nat.le_succ _, fun _ => .inl rfl⟩
  · rename_i blockedUntil hblocked
    split
    · exact ⟨Nat.le_succ _, fun _ => .inl rfl⟩
    · rename_i hexpired
      refine ⟨Nat.le_succ _, fun dir => ?_⟩
      by_cases hdir : dir = vaultDir
      · subst hdir
        refine .inr ⟨blockedUntil, hblocked, ?_, by simp [World.setThrottle]⟩
        exact le_trans (not_lt.mp hexpired) (env.clock_mono (Nat.le_succ _))
      · exact .inl (Function.update_of_ne hdir _ _)

/-- What passes the check was not blocked, or its block has expired. -/
theorem checkUnlockAllowed_ok {vaultDir : PathBuf} {w w' : World U}
    (h : exec (checkUnlockAllowed env vaultDir) w = (.ok (), w')) :
    w'.clockReads = w.clockReads + 1 ∧ (w'.throttle vaultDir).blockedUntil = none ∧
      (w'.throttle vaultDir = w.throttle vaultDir ∨
        ∃ blockedUntil, (w.throttle vaultDir).blockedUntil = some blockedUntil ∧
          blockedUntil ≤ env.clock w.clockReads ∧ w'.throttle vaultDir = {}) := by
  rw [exec_checkUnlockAllowed] at h
  dsimp only at h
  split at h
  · rename_i hnone
    cases h
    exact ⟨rfl, hnone, .inl rfl⟩
  · rename_i blockedUntil hblocked
    split at h
    · cases h
    · rename_i hexpired
      cases h
      have hcleared : (({ w with clockReads := w.clockReads + 1 } : World U).setThrottle
          vaultDir {}).throttle vaultDir = {} := by
        simp [World.setThrottle]
      refine ⟨rfl, ?_, .inr ⟨blockedUntil, hblocked, not_lt.mp hexpired, hcleared⟩⟩
      rw [hcleared]

theorem checkUnlockAllowed_same {vaultDir : PathBuf} {w w' : World U}
    {result : Except UprivError Unit}
    (h : exec (checkUnlockAllowed env vaultDir) w = (result, w')) :
    w'.disk = w.disk ∧ w'.sessions = w.sessions := by
  rw [exec_checkUnlockAllowed] at h
  dsimp only at h
  split at h
  · cases h
    exact ⟨rfl, rfl⟩
  · split at h
    · cases h
      exact ⟨rfl, rfl⟩
    · cases h
      exact ⟨rfl, rfl⟩

/-- While a block is pending nothing passes; from its expiry on everything
does. -/
theorem checkUnlockAllowed_ok_iff (vaultDir : PathBuf) (w : World U) :
    (exec (checkUnlockAllowed env vaultDir) w).1 = .ok () ↔
      ∀ blockedUntil, (w.throttle vaultDir).blockedUntil = some blockedUntil →
        blockedUntil ≤ env.clock w.clockReads := by
  rw [exec_checkUnlockAllowed]
  dsimp only
  cases hblocked : (w.throttle vaultDir).blockedUntil with
  | none => simp
  | some blockedUntil =>
      by_cases hpending : env.clock w.clockReads < blockedUntil
      · simp [hpending]
      · simp [hpending, not_lt.mp hpending]

theorem waits_vaultDirOrNotFound (root : VaultRoot) (vaultId : String) :
    Preserves (Waits env) (vaultDirOrNotFound root vaultId : VaultM U PathBuf) := by
  refine preserves_bind (preserves_ofExcept _) fun dir => ?_
  refine preserves_bind preserves_get fun w => ?_
  exact preserves_bind (preserves_ensure _ _) fun _ => preserves_pure _

/-- `open_prelude` after the throttle. -/
theorem waits_openUntilStore (root : VaultRoot) (vaultId : String) (password : Bytes) :
    Preserves (Waits env) (openUntilStore env root vaultId password) := by
  refine preserves_bind (preserves_ensure _ _) fun _ => ?_
  refine preserves_bind (waits_vaultDirOrNotFound root vaultId) fun dir => ?_
  refine preserves_bind ?_ fun config => preserves_pure _
  refine preserves_bind (waits_checkUnlockAllowed dir) fun _ => ?_
  refine preserves_bind preserves_get fun w => ?_
  refine preserves_bind (preserves_ensure _ _) fun _ => ?_
  refine preserves_bind (waits_onDisk _) fun config => ?_
  exact preserves_bind (preserves_ensure _ _) fun _ => preserves_pure _

end

end Upriv.Vault
