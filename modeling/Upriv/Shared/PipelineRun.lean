import Upriv.Support.Runs
import Mathlib.Data.List.Nodup
import Mathlib.Data.List.Perm.Basic

/-!
# The open/close/create runner

`react/useVaultPipelineRun.ts` of the shared TypeScript code: one job runs,
the others wait in a queue.  JavaScript interrupts nothing, so an event is one
call from outside, one settled promise, one elapsed budget, or the return of a
callback; while a callback runs only calls of it can come between.
-/

namespace Upriv.Shared.PipelineRun

inductive VaultPipelineKind
  | openVault
  | closeVault
  | createVault
  deriving DecidableEq, Repr

inductive VaultPipelinePresentation
  | foreground
  | background
  deriving DecidableEq, Repr

inductive VaultPipelineFailureMode
  | overlay
  | advance
  deriving DecidableEq, Repr

/-- The data of `StartPipelineOptions`.  Its functions are events. -/
structure StartPipelineOptions where
  vaultId : String
  kind : VaultPipelineKind
  stepCount : ℕ
  presentation : Option VaultPipelinePresentation := none
  failureMode : Option VaultPipelineFailureMode := none
  deriving DecidableEq, Repr

structure VaultPipelineRunState where
  vaultId : String
  kind : VaultPipelineKind
  activeStep : ℕ
  stepCount : ℕ
  foreground : Bool
  errorKey : Option String := none
  deriving DecidableEq, Repr

def failureModeOf (job : StartPipelineOptions) : VaultPipelineFailureMode :=
  job.failureMode.getD .overlay

/-- The callback that is running, with the generation of its job. -/
inductive Control
  | idle
  | completing (generation : ℕ)
  | failing (generation : ℕ) (mode : VaultPipelineFailureMode)
  | timingOut
  deriving DecidableEq, Repr

inductive Callback
  | onComplete
  | onError
  deriving DecidableEq, Repr

/-- The four refs; the promises and timers that are outstanding; and what has
happened so far. -/
structure Runner where
  run : Option VaultPipelineRunState
  queue : List StartPipelineOptions
  generation : ℕ
  inFlight : Bool
  pending : List (ℕ × StartPipelineOptions)
  timers : List (ℕ × StartPipelineOptions)
  control : Control
  accepted : List StartPipelineOptions
  begun : List StartPipelineOptions
  finished : List ℕ
  callbacks : List (ℕ × Callback)
  deriving DecidableEq, Repr

def Runner.initial : Runner where
  run := none
  queue := []
  generation := 0
  inFlight := false
  pending := []
  timers := []
  control := .idle
  accepted := []
  begun := []
  finished := []
  callbacks := []

/-! ## The functions of the hook -/

/-- `executeJob` up to its first `await`. -/
def executeJob (w : Runner) (job : StartPipelineOptions) : Runner :=
  let generation := w.generation + 1
  { w with
    generation := generation
    inFlight := true
    run := some
      { vaultId := job.vaultId
        kind := job.kind
        activeStep := 0
        stepCount := job.stepCount
        foreground := job.presentation ≠ some .background }
    pending := w.pending ++ [(generation, job)]
    timers := w.timers ++ [(generation, job)]
    begun := w.begun ++ [job] }

/-- `executeJob(queueRef.current.shift()!)`, when a job waits. -/
def executeNext (w : Runner) : Runner :=
  match w.queue with
  | [] => w
  | next :: rest => executeJob { w with queue := rest } next

def isVaultPipelineBusy (w : Runner) (vaultId : String) : Bool :=
  w.run.any (·.vaultId = vaultId) || w.queue.any (·.vaultId = vaultId)

def start (w : Runner) (options : StartPipelineOptions) : Bool × Runner :=
  if isVaultPipelineBusy w options.vaultId then (false, w)
  else
    let w := { w with accepted := w.accepted ++ [options] }
    match w.run with
    | none => (true, executeJob w options)
    | some _ => (true, { w with queue := w.queue ++ [options] })

def moveToBackground (w : Runner) : Runner :=
  { w with run := w.run.map fun current => { current with foreground := false } }

def dismissFailure (w : Runner) : Runner :=
  if w.inFlight then moveToBackground w else executeNext { w with run := none }

/-- The `onStep` that a job of `generation` was given. -/
def onStep (w : Runner) (generation : ℕ) (vaultId : String) (stepIndex : ℕ) : Runner :=
  if w.generation ≠ generation then w
  else
    { w with
      run := w.run.map fun current =>
        if current.vaultId = vaultId then { current with activeStep := stepIndex } else current }

/-- The `finally` block: `cancelBudget` and the in-flight flag. -/
def finallyBlock (w : Runner) (generation : ℕ) : Runner :=
  { w with
    timers := w.timers.filter (·.1 ≠ generation)
    inFlight := if w.generation = generation then false else w.inFlight }

/-- `finally`, then the end of the job's `async` function. -/
def finishJob (w : Runner) (generation : ℕ) : Runner :=
  let w := finallyBlock w generation
  if w.generation ≠ generation then w else executeNext w

/-- The promise of `runPipeline` has settled. -/
def settled (w : Runner) (generation : ℕ) : Runner :=
  { w with
    pending := w.pending.filter (·.1 ≠ generation)
    finished := w.finished ++ [generation] }

def resolves (w : Runner) (generation : ℕ) : Runner :=
  let w := settled w generation
  if w.generation ≠ generation then finallyBlock w generation
  else
    { w with
      control := .completing generation
      callbacks := w.callbacks ++ [(generation, .onComplete)] }

def rejects (w : Runner) (generation : ℕ) (job : StartPipelineOptions) (errorKey : String) :
    Runner :=
  let w := settled w generation
  if w.generation ≠ generation then finallyBlock w generation
  else
    match w.run with
    | none => finallyBlock w generation
    | some current =>
        if current.vaultId ≠ job.vaultId then finallyBlock w generation
        else
          let w := { w with callbacks := w.callbacks ++ [(generation, Callback.onError)] }
          match failureModeOf job with
          | .advance => { w with run := none, control := .failing generation .advance }
          | .overlay =>
              { w with
                run := some { current with foreground := true, errorKey := some errorKey }
                control := .failing generation .overlay }

/-- The budget timer of a job. -/
def budgetElapses (w : Runner) (generation : ℕ) (job : StartPipelineOptions) : Runner :=
  let w := { w with timers := w.timers.filter (·.1 ≠ generation) }
  if w.generation ≠ generation then w
  else
    match w.run with
    | none => w
    | some current =>
        if current.vaultId ≠ job.vaultId ∨ current.errorKey.isSome then w
        else
          match failureModeOf job with
          | .advance => { w with control := .timingOut }
          | .overlay =>
              { w with
                run := some { current with
                  foreground := true, errorKey := some "loading.timed_out" }
                control := .timingOut }

/-- What follows the callback. -/
def callbackReturns (w : Runner) : Option Runner :=
  match w.control with
  | .idle => none
  | .timingOut => some { w with control := .idle }
  | .completing generation => some (finishJob { w with run := none, control := .idle } generation)
  | .failing generation .advance => some (finishJob { w with control := .idle } generation)
  | .failing generation .overlay => some (finallyBlock { w with control := .idle } generation)

/-! ## Runs -/

inductive Call
  | start (options : StartPipelineOptions)
  | dismissFailure
  | moveToBackground
  | onStep (generation : ℕ) (vaultId : String) (stepIndex : ℕ)
  deriving DecidableEq, Repr

inductive Event
  | call (call : Call)
  | resolves (generation : ℕ)
  | rejects (generation : ℕ) (errorKey : String)
  | budgetElapses (generation : ℕ)
  | callbackReturns
  deriving DecidableEq, Repr

def perform (w : Runner) : Call → Runner
  | .start options => (start w options).2
  | .dismissFailure => dismissFailure w
  | .moveToBackground => moveToBackground w
  | .onStep generation vaultId stepIndex => onStep w generation vaultId stepIndex

/-- A promise settles and a timer fires only while no callback runs. -/
def whenIdle (w : Runner) (jobs : List (ℕ × StartPipelineOptions)) (generation : ℕ)
    (f : StartPipelineOptions → Runner) : Option Runner :=
  if w.control = .idle then (jobs.find? (·.1 = generation)).map fun entry => f entry.2 else none

def step (w : Runner) : Event → Option Runner
  | .call call => some (perform w call)
  | .resolves generation => whenIdle w w.pending generation fun _ => resolves w generation
  | .rejects generation errorKey =>
      whenIdle w w.pending generation fun job => rejects w generation job errorKey
  | .budgetElapses generation =>
      whenIdle w w.timers generation fun job => budgetElapses w generation job
  | .callbackReturns => callbackReturns w

/-- A `start` of a new vault from the `onError` of an `advance` job, after the
run was cleared, while other jobs wait. -/
def startsOutOfTurn (w : Runner) : Event → Bool
  | .call (.start options) =>
      (match w.control with
        | .failing _ .advance => true
        | _ => false) &&
      w.run.isNone && !w.queue.isEmpty && !isVaultPipelineBusy w options.vaultId
  | _ => false

def InTurn (w : Runner) (event : Event) (_ : Runner) : Prop := startsOutOfTurn w event = false

instance (w : Runner) (event : Event) (w' : Runner) : Decidable (InTurn w event w') :=
  inferInstanceAs (Decidable (_ = _))

/-! ## What holds of the runner -/

def trackedIds (w : Runner) : List String :=
  w.run.toList.map (·.vaultId) ++ w.queue.map (·.vaultId)

/-- A single-flight FIFO. -/
structure SingleFlightFifo (w : Runner) : Prop where
  singleFlight : w.pending.length ≤ 1
  inOrder : w.accepted = w.begun ++ w.queue
  trackedOnce : (trackedIds w).Nodup
  /-- The jobs are numbered as they begin; all but the pending ones have
  finished, each with one callback. -/
  numbered : w.begun.length = w.generation ∧
    w.finished ++ w.pending.map Prod.fst = List.range' 1 w.generation
  oneCallback : w.callbacks.map Prod.fst = w.finished
  /-- A job runs from its start to the end of its callback. -/
  running : w.inFlight = true ↔ w.pending ≠ [] ∨ w.control ≠ .idle
  notStranded : w.inFlight = false → w.run = none → w.queue = []
  /-- Without a job in flight, a run is a failure that is shown. -/
  parked : w.inFlight = false → ∀ current ∈ w.run, current.errorKey.isSome = true

/-! ## Phases -/

/-- A job runs.  Its start may have come from the `onError` of the job
before. -/
structure Flying (w : Runner) (job : StartPipelineOptions) (current : VaultPipelineRunState) :
    Prop where
  pending : w.pending = [(w.generation, job)]
  inFlight : w.inFlight = true
  run : w.run = some current
  sameVault : current.vaultId = job.vaultId
  control : w.control = .idle ∨ w.control = .timingOut ∨
    ∃ generation < w.generation, w.control = .failing generation .advance

/-- A job has settled and its callback runs. -/
structure Settling (w : Runner) : Prop where
  pending : w.pending = []
  inFlight : w.inFlight = true
  control : w.control = .completing w.generation ∧ w.run ≠ none ∨
    w.control = .failing w.generation .overlay ∧
      (∃ current, w.run = some current ∧ current.errorKey.isSome = true) ∨
    w.control = .failing w.generation .advance ∧ w.run = none

/-- Nothing runs; a run is a failure that is shown. -/
structure Resting (w : Runner) : Prop where
  pending : w.pending = []
  inFlight : w.inFlight = false
  control : w.control = .idle
  empty : w.run = none → w.queue = []
  parked : ∀ current, w.run = some current → current.errorKey.isSome = true

def Phase (w : Runner) : Prop :=
  (∃ job current, Flying w job current) ∨ Settling w ∨ Resting w

/-- What the logs and the ids say. -/
structure Books (w : Runner) : Prop where
  trackedOnce : (trackedIds w).Nodup
  begun : w.begun.length = w.generation
  ended : w.finished ++ w.pending.map Prod.fst = List.range' 1 w.generation
  oneCallback : w.callbacks.map Prod.fst = w.finished

/-- What holds of the runner whatever the callbacks start. -/
structure Inv (w : Runner) : Prop where
  phase : Phase w
  books : Books w

theorem inv_initial : Inv Runner.initial where
  phase := .inr (.inr ⟨rfl, rfl, rfl, fun _ => rfl, fun _ h => by cases h⟩)
  books := ⟨List.nodup_nil, rfl, rfl, rfl⟩

section
variable {w : Runner} {job options : StartPipelineOptions} {current : VaultPipelineRunState}
  {generation : ℕ}

/-! ## Starting jobs -/

theorem phase_executeJob (hpending : w.pending = [])
    (hcontrol : w.control = .idle ∨ w.control = .failing w.generation .advance) :
    Phase (executeJob w job) := by
  refine .inl ⟨job, _, ?_, rfl, rfl, rfl, ?_⟩
  · rw [executeJob, hpending]
    rfl
  · rcases hcontrol with hidle | hfailing
    · exact .inl hidle
    · exact .inr (.inr ⟨w.generation, Nat.lt_succ_self _, hfailing⟩)

/-- A job that is not tracked takes the place of the run. -/
theorem Books.executeJob (h : Books w) (hqueue : (w.queue.map (·.vaultId)).Nodup)
    (hnew : ∀ waiting ∈ w.queue, waiting.vaultId ≠ job.vaultId) : Books (executeJob w job) where
  trackedOnce := by
    refine List.nodup_cons.mpr ⟨fun hmem => ?_, hqueue⟩
    obtain ⟨waiting, hwaiting, heq⟩ := List.mem_map.mp hmem
    exact hnew waiting hwaiting heq
  begun := by
    rw [PipelineRun.executeJob, List.length_append, h.begun]
    rfl
  ended := by
    simp only [PipelineRun.executeJob, List.map_append, List.map_cons, List.map_nil]
    rw [← List.append_assoc, h.ended, List.range'_concat, Nat.one_mul, Nat.add_comm 1]
  oneCallback := h.oneCallback

/-- With nothing in flight the next job starts, if one waits. -/
theorem inv_executeNext (hpending : w.pending = []) (hcontrol : w.control = .idle)
    (hflight : w.inFlight = false) (hrun : w.run = none) (hbooks : Books w) :
    Inv (executeNext w) := by
  rw [executeNext]
  split
  · rename_i hqueue
    refine ⟨.inr (.inr ⟨hpending, hflight, hcontrol, fun _ => hqueue, fun current h => ?_⟩),
      hbooks⟩
    cases hrun.symm.trans h
  · rename_i next rest hqueue
    have htracked := hbooks.trackedOnce
    rw [trackedIds, hrun, hqueue] at htracked
    obtain ⟨hnext, hrest⟩ := List.nodup_cons.mp htracked
    have hbooks' : Books { w with queue := rest } :=
      ⟨by rw [trackedIds, hrun]; exact hrest, hbooks.begun, hbooks.ended, hbooks.oneCallback⟩
    refine ⟨phase_executeJob hpending (.inl hcontrol), hbooks'.executeJob hrest ?_⟩
    exact fun waiting hwaiting heq => hnext (List.mem_map.mpr ⟨waiting, hwaiting, heq⟩)

/-! ## Calls -/

/-- Changing the shown fields of the run. -/
theorem Inv.mapRun (h : Inv w) {f : VaultPipelineRunState → VaultPipelineRunState}
    (hid : ∀ current, (f current).vaultId = current.vaultId)
    (herror : ∀ current, (f current).errorKey = current.errorKey) :
    Inv { w with run := w.run.map f } := by
  constructor
  · rcases h.phase with ⟨job, current, hflying⟩ | hsettling | hresting
    · refine .inl ⟨job, f current, hflying.pending, hflying.inFlight, ?_, ?_, hflying.control⟩
      · rw [hflying.run]
        rfl
      · rw [hid, hflying.sameVault]
    · refine .inr (.inl ⟨hsettling.pending, hsettling.inFlight, ?_⟩)
      rcases hsettling.control with ⟨hcontrol, hrun⟩ | ⟨hcontrol, current, hrun, hkey⟩ |
        ⟨hcontrol, hrun⟩
      · exact .inl ⟨hcontrol, by simpa using hrun⟩
      · refine .inr (.inl ⟨hcontrol, f current, ?_, ?_⟩)
        · rw [hrun]
          rfl
        · rw [herror, hkey]
      · exact .inr (.inr ⟨hcontrol, by rw [hrun]; rfl⟩)
    · refine .inr (.inr ⟨hresting.pending, hresting.inFlight, hresting.control, ?_, ?_⟩)
      · exact fun hrun => hresting.empty (by simpa using hrun)
      · intro current hrun
        obtain ⟨before, hbefore, rfl⟩ := Option.map_eq_some_iff.mp hrun
        rw [herror, hresting.parked before hbefore]
  · refine ⟨?_, h.books.begun, h.books.ended, h.books.oneCallback⟩
    have htracked := h.books.trackedOnce
    have hsame : trackedIds { w with run := w.run.map f } = trackedIds w := by
      unfold trackedIds
      cases w.run <;> simp [hid]
    rwa [hsame]

theorem inv_moveToBackground (h : Inv w) : Inv (moveToBackground w) :=
  h.mapRun (fun _ => rfl) fun _ => rfl

theorem inv_onStep (h : Inv w) (vaultId : String) (stepIndex : ℕ) :
    Inv (onStep w generation vaultId stepIndex) := by
  rw [onStep]
  split
  · exact h
  · refine h.mapRun (fun current => ?_) fun current => ?_
    all_goals split <;> rfl

theorem inv_dismissFailure (h : Inv w) : Inv (dismissFailure w) := by
  rw [dismissFailure]
  split
  · exact inv_moveToBackground h
  · rename_i hflight
    rcases h.phase with ⟨job, current, hflying⟩ | hsettling | hresting
    · exact absurd hflying.inFlight hflight
    · exact absurd hsettling.inFlight hflight
    · refine inv_executeNext hresting.pending hresting.control hresting.inFlight rfl
        ⟨?_, h.books.begun, h.books.ended, h.books.oneCallback⟩
      exact (List.nodup_append.mp h.books.trackedOnce).2.1

theorem isVaultPipelineBusy_eq_false {vaultId : String} :
    isVaultPipelineBusy w vaultId = false ↔
      (∀ current, w.run = some current → current.vaultId ≠ vaultId) ∧
      ∀ waiting ∈ w.queue, waiting.vaultId ≠ vaultId := by
  cases hrun : w.run <;> simp [isVaultPipelineBusy, hrun]

theorem inv_start (h : Inv w) : Inv (start w options).2 := by
  rw [start]
  split
  · exact h
  · rename_i hbusy
    rw [Bool.not_eq_true, isVaultPipelineBusy_eq_false] at hbusy
    obtain ⟨hother, hnew⟩ := hbusy
    have haccepted : Books { w with accepted := w.accepted ++ [options] } :=
      ⟨h.books.trackedOnce, h.books.begun, h.books.ended, h.books.oneCallback⟩
    dsimp only
    split
    · rename_i hrun
      have hqueue := (List.nodup_append.mp h.books.trackedOnce).2.1
      refine ⟨?_, haccepted.executeJob hqueue hnew⟩
      rcases h.phase with ⟨job, current, hflying⟩ | hsettling | hresting
      · cases hrun.symm.trans hflying.run
      · -- Without a run the callback is the `onError` of an `advance` job.
        rcases hsettling.control with ⟨_, hsome⟩ | ⟨_, current, hsome, _⟩ | ⟨hcontrol, _⟩
        · exact absurd hrun hsome
        · cases hrun.symm.trans hsome
        · exact phase_executeJob hsettling.pending (.inr hcontrol)
      · exact phase_executeJob hresting.pending (.inl hresting.control)
    · rename_i current hrun
      constructor
      · rcases h.phase with ⟨job, running, hflying⟩ | hsettling | hresting
        · exact .inl ⟨job, running, hflying.pending, hflying.inFlight, hflying.run,
            hflying.sameVault, hflying.control⟩
        · exact .inr (.inl ⟨hsettling.pending, hsettling.inFlight, hsettling.control⟩)
        · refine .inr (.inr ⟨hresting.pending, hresting.inFlight, hresting.control, ?_,
            hresting.parked⟩)
          intro hnone
          cases hnone.symm.trans hrun
      · refine ⟨?_, h.books.begun, h.books.ended, h.books.oneCallback⟩
        have htracked := h.books.trackedOnce
        simp only [trackedIds, hrun] at htracked ⊢
        rw [List.map_append, ← List.append_assoc, List.nodup_append]
        refine ⟨htracked, List.nodup_singleton _, ?_⟩
        intro id hid other hoptions heq
        rw [List.map_singleton, List.mem_singleton] at hoptions
        rw [heq, hoptions, List.mem_append, List.mem_map, List.mem_map] at hid
        rcases hid with ⟨shown, hshown, hsame⟩ | ⟨waiting, hwaiting, hsame⟩
        · obtain rfl : shown = current := by simpa using hshown
          exact hother shown hrun hsame
        · exact hnew waiting hwaiting hsame

theorem inv_perform (h : Inv w) (call : Call) : Inv (perform w call) := by
  cases call with
  | start options => exact inv_start h
  | dismissFailure => exact inv_dismissFailure h
  | moveToBackground => exact inv_moveToBackground h
  | onStep generation vaultId stepIndex => exact inv_onStep h vaultId stepIndex

/-! ## Settled promises -/

theorem whenIdle_eq_some {jobs : List (ℕ × StartPipelineOptions)}
    {f : StartPipelineOptions → Runner} {w' : Runner} (h : whenIdle w jobs generation f = some w') :
    w.control = .idle ∧ ∃ job, (generation, job) ∈ jobs ∧ w' = f job := by
  rw [whenIdle] at h
  split at h
  · rename_i hidle
    obtain ⟨⟨number, job⟩, hfind, rfl⟩ := Option.map_eq_some_iff.mp h
    obtain rfl : number = generation := by simpa using List.find?_some hfind
    exact ⟨hidle, job, List.mem_of_find?_eq_some hfind, rfl⟩
  · cases h

/-- The promise that settles is the one of the job that runs. -/
theorem Inv.flying_of_pending (h : Inv w) (hmem : (generation, job) ∈ w.pending) :
    generation = w.generation ∧ ∃ current, Flying w job current := by
  rcases h.phase with ⟨job', current, hflying⟩ | hsettling | hresting
  · rw [hflying.pending, List.mem_singleton] at hmem
    cases hmem
    exact ⟨rfl, current, hflying⟩
  · rw [hsettling.pending] at hmem
    cases hmem
  · rw [hresting.pending] at hmem
    cases hmem

@[simp] theorem settled_generation : (settled w generation).generation = w.generation := rfl

theorem Flying.settled_pending (h : Flying w job current) :
    (settled w w.generation).pending = [] := by
  simp [settled, h.pending]

/-- The settled job moves from the pending to the finished ones. -/
theorem Books.settled (h : Books w) (hflying : Flying w job current) (callback : Callback) :
    let w' := settled w w.generation
    w'.finished ++ w'.pending.map Prod.fst = List.range' 1 w.generation ∧
      (w.callbacks ++ [(w.generation, callback)]).map Prod.fst = w'.finished := by
  dsimp only
  constructor
  · rw [hflying.settled_pending, ← h.ended, hflying.pending]
    simp [PipelineRun.settled]
  · rw [List.map_append, h.oneCallback]
    rfl

theorem inv_resolves (h : Inv w) (hflying : Flying w job current) :
    Inv (resolves w w.generation) := by
  obtain ⟨hended, hcallback⟩ := h.books.settled hflying .onComplete
  rw [resolves, settled_generation, if_neg (not_not_intro rfl)]
  refine ⟨.inr (.inl ⟨hflying.settled_pending, hflying.inFlight, .inl ⟨rfl, ?_⟩⟩), ?_⟩
  · rw [settled, hflying.run]
    exact Option.some_ne_none current
  · exact ⟨h.books.trackedOnce, h.books.begun, hended, hcallback⟩

theorem inv_rejects (h : Inv w) (hflying : Flying w job current) (errorKey : String) :
    Inv (rejects w w.generation job errorKey) := by
  obtain ⟨hended, hcallback⟩ := h.books.settled hflying .onError
  have hrun : (settled w w.generation).run = some current := hflying.run
  have htracked := h.books.trackedOnce
  rw [trackedIds, hflying.run] at htracked
  rw [rejects, settled_generation, if_neg (not_not_intro rfl)]
  simp only [hrun, hflying.sameVault, ne_eq, not_true_eq_false, if_false]
  cases failureModeOf job with
  | advance =>
      refine ⟨.inr (.inl ⟨hflying.settled_pending, hflying.inFlight, .inr (.inr ⟨rfl, rfl⟩)⟩), ?_⟩
      exact ⟨(List.nodup_append.mp htracked).2.1, h.books.begun, hended, hcallback⟩
  | overlay =>
      refine ⟨.inr (.inl ⟨hflying.settled_pending, hflying.inFlight, .inr (.inl ⟨rfl, ?_⟩)⟩), ?_⟩
      · exact ⟨_, rfl, rfl⟩
      · refine ⟨?_, h.books.begun, hended, hcallback⟩
        rw [Option.toList_some, List.map_singleton, hflying.sameVault] at htracked
        exact htracked

/-- The budget of the job that runs shows its failure, that of an earlier job
does nothing. -/
theorem inv_budgetElapses (h : Inv w) (hidle : w.control = .idle) :
    Inv (budgetElapses w generation job) := by
  have hquiet : Inv { w with timers := w.timers.filter (·.1 ≠ generation) } := by
    refine ⟨?_, h.books.trackedOnce, h.books.begun, h.books.ended, h.books.oneCallback⟩
    rcases h.phase with ⟨job', current, hf⟩ | hs | hr
    · exact .inl ⟨job', current, hf.pending, hf.inFlight, hf.run, hf.sameVault, hf.control⟩
    · exact .inr (.inl ⟨hs.pending, hs.inFlight, hs.control⟩)
    · exact .inr (.inr ⟨hr.pending, hr.inFlight, hr.control, hr.empty, hr.parked⟩)
  rw [budgetElapses]
  dsimp only
  split
  · exact hquiet
  · split
    · exact hquiet
    · rename_i current hrun
      split
      · exact hquiet
      · rename_i hcurrent
        rw [not_or, Bool.not_eq_true] at hcurrent
        obtain ⟨job', hpending, hflight, hsame⟩ : ∃ job', w.pending = [(w.generation, job')] ∧
            w.inFlight = true ∧ current.vaultId = job'.vaultId := by
          rcases h.phase with ⟨job', current', hf⟩ | hs | hr
          · obtain rfl : current = current' := Option.some.inj (hrun.symm.trans hf.run)
            exact ⟨job', hf.pending, hf.inFlight, hf.sameVault⟩
          · exfalso
            rcases hs.control with ⟨hcontrol, _⟩ | ⟨hcontrol, _⟩ | ⟨hcontrol, _⟩
            all_goals cases hidle.symm.trans hcontrol
          · -- A failure that is shown has its error already.
            exact absurd (hr.parked current hrun) (by simp [hcurrent.2])
        cases failureModeOf job with
        | advance =>
            refine ⟨.inl ⟨job', current, hpending, hflight, hrun, hsame, .inr (.inl rfl)⟩, ?_⟩
            exact ⟨h.books.trackedOnce, h.books.begun, h.books.ended, h.books.oneCallback⟩
        | overlay =>
            refine ⟨.inl ⟨job', _, hpending, hflight, rfl, hsame, .inr (.inl rfl)⟩, ?_⟩
            refine ⟨?_, h.books.begun, h.books.ended, h.books.oneCallback⟩
            have htracked := h.books.trackedOnce
            rw [trackedIds, hrun] at htracked
            exact htracked

/-! ## Returning callbacks -/

theorem finishJob_of_eq (h : w.generation = generation) :
    finishJob w generation = executeNext (finallyBlock w generation) :=
  if_neg (not_not_intro h)

theorem finishJob_of_ne (h : w.generation ≠ generation) :
    finishJob w generation = finallyBlock w generation :=
  if_pos h

theorem inv_callbackReturns {w' : Runner} (h : Inv w) (hreturn : callbackReturns w = some w') :
    Inv w' := by
  rw [callbackReturns] at hreturn
  rcases h.phase with ⟨job, current, hf⟩ | hs | hr
  · rcases hf.control with hcontrol | hcontrol | ⟨number, hlt, hcontrol⟩
    · rw [hcontrol] at hreturn
      cases hreturn
    · rw [hcontrol] at hreturn
      cases hreturn
      exact ⟨.inl ⟨job, current, hf.pending, hf.inFlight, hf.run, hf.sameVault, .inl rfl⟩,
        h.books.trackedOnce, h.books.begun, h.books.ended, h.books.oneCallback⟩
    · -- A job that `onError` started runs already.
      rw [hcontrol] at hreturn
      cases hreturn
      rw [finishJob_of_ne (w := { w with control := .idle }) hlt.ne']
      refine ⟨.inl ⟨job, current, hf.pending, ?_, hf.run, hf.sameVault, .inl rfl⟩,
        h.books.trackedOnce, h.books.begun, h.books.ended, h.books.oneCallback⟩
      exact (if_neg hlt.ne').trans hf.inFlight
  · rcases hs.control with ⟨hcontrol, _⟩ | ⟨hcontrol, current, hrun, hkey⟩ | ⟨hcontrol, hrun⟩
    · rw [hcontrol] at hreturn
      cases hreturn
      rw [finishJob_of_eq rfl]
      refine inv_executeNext hs.pending rfl (if_pos rfl) rfl
        ⟨?_, h.books.begun, h.books.ended, h.books.oneCallback⟩
      exact (List.nodup_append.mp h.books.trackedOnce).2.1
    · rw [hcontrol] at hreturn
      cases hreturn
      refine ⟨.inr (.inr ⟨hs.pending, if_pos rfl, rfl, fun hnone => ?_, fun shown hshown => ?_⟩),
        h.books.trackedOnce, h.books.begun, h.books.ended, h.books.oneCallback⟩
      · cases hnone.symm.trans hrun
      · obtain rfl : shown = current := Option.some.inj (hshown.symm.trans hrun)
        exact hkey
    · rw [hcontrol] at hreturn
      cases hreturn
      rw [finishJob_of_eq rfl]
      exact inv_executeNext hs.pending rfl (if_pos rfl) hrun
        ⟨h.books.trackedOnce, h.books.begun, h.books.ended, h.books.oneCallback⟩
  · rw [hr.control] at hreturn
    cases hreturn

theorem inv_step {event : Event} {w' : Runner} (h : Inv w) (hstep : step w event = some w') :
    Inv w' := by
  cases event with
  | call call =>
      cases hstep
      exact inv_perform h call
  | resolves generation =>
      rw [step] at hstep
      obtain ⟨_, job, hmem, rfl⟩ := whenIdle_eq_some hstep
      obtain ⟨rfl, current, hflying⟩ := h.flying_of_pending hmem
      exact inv_resolves h hflying
  | rejects generation errorKey =>
      rw [step] at hstep
      obtain ⟨_, job, hmem, rfl⟩ := whenIdle_eq_some hstep
      obtain ⟨rfl, current, hflying⟩ := h.flying_of_pending hmem
      exact inv_rejects h hflying errorKey
  | budgetElapses generation =>
      rw [step] at hstep
      obtain ⟨hidle, job, _, rfl⟩ := whenIdle_eq_some hstep
      exact inv_budgetElapses h hidle
  | callbackReturns => exact inv_callbackReturns h hstep

/-! ## Order -/

/-- What has been accepted has begun or waits, in the order of acceptance. -/
def InOrder (w : Runner) : Prop := w.accepted = w.begun ++ w.queue

theorem InOrder.executeNext (h : InOrder w) : InOrder (executeNext w) := by
  rw [PipelineRun.executeNext]
  split
  · exact h
  · rename_i next rest hqueue
    rw [InOrder, hqueue] at h
    change w.accepted = w.begun ++ [next] ++ rest
    rw [h, List.append_assoc, List.singleton_append]

theorem InOrder.finishJob (h : InOrder w) : InOrder (finishJob w generation) := by
  rw [PipelineRun.finishJob]
  split
  · exact h
  · exact InOrder.executeNext h

/-- A job may take the free place only when none waits for it. -/
theorem InOrder.start (h : InOrder w)
    (hturn : isVaultPipelineBusy w options.vaultId = false → w.run = none → w.queue = []) :
    InOrder (start w options).2 := by
  rw [InOrder] at h
  rw [PipelineRun.start]
  split
  · exact h
  · rename_i hbusy
    dsimp only
    split
    · rename_i hrun
      have hqueue := hturn (Bool.not_eq_true _ ▸ hbusy) hrun
      change w.accepted ++ [options] = w.begun ++ [options] ++ w.queue
      rw [h, hqueue, List.append_nil, List.append_nil]
    · change w.accepted ++ [options] = w.begun ++ (w.queue ++ [options])
      rw [h, List.append_assoc]

/-- Jobs wait without a run only in the `onError` of an `advance` job. -/
theorem Inv.queue_eq_nil (h : Inv w) (hrun : w.run = none)
    (hcontrol : ∀ generation, w.control ≠ .failing generation .advance) : w.queue = [] := by
  rcases h.phase with ⟨job, current, hf⟩ | hs | hr
  · cases hrun.symm.trans hf.run
  · rcases hs.control with ⟨_, hsome⟩ | ⟨_, current, hsome, _⟩ | ⟨hadvance, _⟩
    · exact absurd hrun hsome
    · cases hrun.symm.trans hsome
    · exact absurd hadvance (hcontrol _)
  · exact hr.empty hrun

theorem queue_eq_nil_of_not_startsOutOfTurn (h : Inv w)
    (hturn : startsOutOfTurn w (.call (.start options)) = false)
    (hbusy : isVaultPipelineBusy w options.vaultId = false) (hrun : w.run = none) :
    w.queue = [] := by
  by_cases hcontrol : ∃ generation, w.control = .failing generation .advance
  · obtain ⟨generation, hcontrol⟩ := hcontrol
    simpa [startsOutOfTurn, hcontrol, hrun, hbusy] using hturn
  · exact h.queue_eq_nil hrun fun generation heq => hcontrol ⟨generation, heq⟩

theorem inOrder_step {event : Event} {w' : Runner} (h : Inv w) (horder : InOrder w)
    (hstep : step w event = some w') (hturn : startsOutOfTurn w event = false) :
    InOrder w' := by
  cases event with
  | call call =>
      cases hstep
      cases call with
      | start options => exact horder.start (queue_eq_nil_of_not_startsOutOfTurn h hturn)
      | dismissFailure =>
          rw [perform, dismissFailure]
          split
          · exact horder
          · exact InOrder.executeNext horder
      | moveToBackground => exact horder
      | onStep generation vaultId stepIndex =>
          rw [perform, onStep]
          split <;> exact horder
  | resolves generation =>
      rw [step] at hstep
      obtain ⟨_, job, _, rfl⟩ := whenIdle_eq_some hstep
      rw [resolves]
      split <;> exact horder
  | rejects generation errorKey =>
      rw [step] at hstep
      obtain ⟨_, job, _, rfl⟩ := whenIdle_eq_some hstep
      rw [rejects]
      dsimp only
      split
      · exact horder
      · split
        · exact horder
        · split
          · exact horder
          · cases failureModeOf job <;> exact horder
  | budgetElapses generation =>
      rw [step] at hstep
      obtain ⟨_, job, _, rfl⟩ := whenIdle_eq_some hstep
      rw [budgetElapses]
      dsimp only
      split
      · exact horder
      · split
        · exact horder
        · split
          · exact horder
          · cases failureModeOf job <;> exact horder
  | callbackReturns =>
      rw [step, callbackReturns] at hstep
      split at hstep <;> cases hstep
      · exact horder
      · exact InOrder.finishJob horder
      · exact InOrder.finishJob horder
      · exact horder

/-- A start out of turn breaks the order. -/
theorem not_inOrder_of_startsOutOfTurn (horder : InOrder w)
    (hturn : startsOutOfTurn w (.call (.start options)) = true) :
    ¬ InOrder (start w options).2 := by
  simp only [startsOutOfTurn, Bool.and_eq_true, Option.isNone_iff_eq_none, Bool.not_eq_true',
    List.isEmpty_eq_false_iff] at hturn
  obtain ⟨⟨⟨_, hrun⟩, hqueue⟩, hbusy⟩ := hturn
  obtain ⟨waiting, rest, hrest⟩ := List.exists_cons_of_ne_nil hqueue
  have hnew := (isVaultPipelineBusy_eq_false.mp hbusy).2
  rw [start, if_neg (by simp [hbusy])]
  simp only [hrun]
  intro hafter
  change w.accepted ++ [options] = w.begun ++ [options] ++ w.queue at hafter
  rw [InOrder] at horder
  rw [horder, List.append_assoc, List.append_assoc, List.append_cancel_left_eq, hrest] at hafter
  obtain rfl : waiting = options := (List.cons_eq_cons.mp hafter).1
  exact hnew waiting (by rw [hrest]; exact List.mem_cons_self) rfl

end

/-! ## Every run -/

theorem Inv.singleFlightFifo {w : Runner} (h : Inv w) (horder : InOrder w) :
    SingleFlightFifo w where
  singleFlight := by
    rcases h.phase with ⟨job, current, hf⟩ | hs | hr
    · rw [hf.pending, List.length_singleton]
    · simp [hs.pending]
    · simp [hr.pending]
  inOrder := horder
  trackedOnce := h.books.trackedOnce
  numbered := ⟨h.books.begun, h.books.ended⟩
  oneCallback := h.books.oneCallback
  running := by
    rcases h.phase with ⟨job, current, hf⟩ | hs | hr
    · simp [hf.pending, hf.inFlight]
    · refine iff_of_true hs.inFlight (.inr fun hidle => ?_)
      rcases hs.control with ⟨hcontrol, _⟩ | ⟨hcontrol, _⟩ | ⟨hcontrol, _⟩
      all_goals cases hidle.symm.trans hcontrol
    · simp [hr.pending, hr.inFlight, hr.control]
  notStranded hflight hrun := by
    rcases h.phase with ⟨job, current, hf⟩ | hs | hr
    · cases hflight.symm.trans hf.inFlight
    · cases hflight.symm.trans hs.inFlight
    · exact hr.empty hrun
  parked hflight := by
    rcases h.phase with ⟨job, current, hf⟩ | hs | hr
    · cases hflight.symm.trans hf.inFlight
    · cases hflight.symm.trans hs.inFlight
    · exact fun current hcurrent => hr.parked current hcurrent

/-- Without starts out of turn the runner is a single-flight FIFO in every
state. -/
theorem singleFlightFifo_of_run {events : List Event} {w : Runner}
    (hrun : Run step InTurn Runner.initial events w) : SingleFlightFifo w := by
  have hboth : Inv w ∧ InOrder w := by
    refine hrun.invariant (fun w => Inv w ∧ InOrder w) ⟨inv_initial, rfl⟩ ?_
    intro w event w' ⟨hinv, horder⟩ hstep hturn
    exact ⟨inv_step hinv hstep, inOrder_step hinv horder hstep hturn⟩
  exact hboth.1.singleFlightFifo hboth.2

/-- Two jobs, the first of which fails and starts a third when it is its
turn. -/
def sampleJob (vaultId : String) : StartPipelineOptions where
  vaultId := vaultId
  kind := .openVault
  stepCount := 1
  failureMode := some .advance

theorem singleFlightFifo_of_run_sample :
    ∃ w, Run step InTurn Runner.initial
        [.call (.start (sampleJob "a")), .call (.start (sampleJob "b")),
          .rejects 1 "error.unexpected", .callbackReturns, .rejects 2 "error.unexpected",
          .call (.start (sampleJob "c")), .callbackReturns] w ∧ SingleFlightFifo w := by
  obtain ⟨w, hrun, _⟩ := exists_run_of_execute step InTurn
    [.call (.start (sampleJob "a")), .call (.start (sampleJob "b")),
      .rejects 1 "error.unexpected", .callbackReturns, .rejects 2 "error.unexpected",
      .call (.start (sampleJob "c")), .callbackReturns]
    Runner.initial (fun _ => true) (by decide)
  exact ⟨w, hrun, singleFlightFifo_of_run hrun⟩

/-- The `onError` of the failed job starts `c` while `b` waits: `c` begins
first. -/
theorem start_in_onError_overtakes :
    ∃ w, Run step Always Runner.initial
        [.call (.start (sampleJob "a")), .call (.start (sampleJob "b")),
          .rejects 1 "error.unexpected", .call (.start (sampleJob "c"))] w ∧
      w.accepted = [sampleJob "a", sampleJob "b", sampleJob "c"] ∧
      w.begun = [sampleJob "a", sampleJob "c"] ∧ ¬ SingleFlightFifo w := by
  obtain ⟨w, hrun, htest⟩ := exists_run_of_execute step Always
    [.call (.start (sampleJob "a")), .call (.start (sampleJob "b")),
      .rejects 1 "error.unexpected", .call (.start (sampleJob "c"))]
    Runner.initial
    (fun w => decide (w.accepted = [sampleJob "a", sampleJob "b", sampleJob "c"] ∧
      w.begun = [sampleJob "a", sampleJob "c"] ∧ w.accepted ≠ w.begun ++ w.queue)) (by decide)
  obtain ⟨haccepted, hbegun, horder⟩ := of_decide_eq_true htest
  exact ⟨w, hrun, haccepted, hbegun, fun h => horder h.inOrder⟩

end Upriv.Shared.PipelineRun
