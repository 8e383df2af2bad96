import Upriv.Support.Runs
import Mathlib.Data.List.Nodup
import Mathlib.Data.List.Range
import Mathlib.Data.Rat.Defs
import Mathlib.Algebra.Order.Ring.Rat

/-!
# The RPC client of the desktop app

`daemon.ts` of the Electron main process, from a connection on.  A call waits
in the map `pending` until a response, its timer, a failed write or the end of
the daemon settles it; its line waits in a promise chain for its turn on
stdin.  One event is one macrotask, or one microtask of the chain.
-/

namespace Upriv.Electron

structure RpcErrorBody where
  code : String
  message : String
  deriving DecidableEq, Repr

def SHUTDOWN_METHOD : String := "app_shutdown"
def SHUTDOWN_TIMEOUT_MS : ℚ := 5000

def formatRpcError (error : Option RpcErrorBody) (fallback : String) : String :=
  match error with
  | none => fallback
  | some error => error.code ++ ": " ++ error.message

/-- `timeoutMs <= 0` is no deadline. -/
def shouldArmRpcTimeout (timeoutMs : ℚ) : Bool := 0 < timeoutMs

def rpcTimeoutErrorMessage (method : String) : String :=
  "rpc_timeout: daemon RPC timeout: " ++ method

/-- `JSON.stringify` of a request with its id, method and params.  It throws,
for one, on a `BigInt`. -/
structure RequestText (P : Type) where
  stringify : ℕ → String → P → Except String String
  noParams : P

inductive WireOutMessage (V : Type)
  | ready
  | response (id : ℕ) (ok : Bool) (result : V) (error : Option RpcErrorBody)
  | event (name : String) (payload : V)
  deriving DecidableEq, Repr

inductive Settlement (V : Type)
  | resolved (result : V)
  | rejected (message : String)
  deriving DecidableEq, Repr

/-- Why a promise is settled. -/
inductive Cause (V : Type)
  | response (ok : Bool) (result : V) (error : Option RpcErrorBody)
  | timeout (method : String)
  | writeFailure (message : String)
  | death (message : String)
  | stopped
  | unserializable (message : String)
  deriving DecidableEq, Repr

/-- What happened to one call, or to all calls with ids below a bound. -/
inductive Happening (V : Type)
  | one (id : ℕ) (cause : Cause V)
  | every (below : ℕ) (cause : Cause V)
  deriving DecidableEq, Repr

/-- Where the promise chain stands. -/
inductive Writing
  | idle
  | inFlight (id : ℕ)
  | failed (id : ℕ) (message : String)
  deriving DecidableEq, Repr

/-- `DaemonConnection`, the armed timers, the lines that wait in the chain, and
what has happened so far. -/
structure Connection (V : Type) where
  nextRequestId : ℕ
  pending : List ℕ
  alive : Bool
  timers : List (ℕ × String)
  chain : List (ℕ × String)
  writing : Writing
  /-- The shutdown calls that a `stopDaemon` awaits. -/
  stopping : List ℕ
  /-- The promises of the calls. -/
  settlement : ℕ → Option (Settlement V)
  history : List (Happening V)
  /-- The ids whose turn has come, the lines given to `stdin.write`, and the
  writes that have called back. -/
  turns : List ℕ
  handed : List (ℕ × String)
  calledBack : List ℕ
  /-- Calls that a dead connection refused. -/
  refused : ℕ

def Connection.initial (V : Type) : Connection V where
  nextRequestId := 1
  pending := []
  alive := true
  timers := []
  chain := []
  writing := .idle
  stopping := []
  settlement := fun _ => none
  history := []
  turns := []
  handed := []
  calledBack := []
  refused := 0

section
variable {P V : Type}

/-- `resolve` and `reject`: a settled promise stays as it is. -/
def settle (c : Connection V) (id : ℕ) (settlement : Settlement V) : Connection V :=
  { c with
    settlement := fun other =>
      if other = id then (c.settlement id).or (some settlement) else c.settlement other }

/-- `clearTimeout(timer)`.  A call without a deadline has no timer to clear. -/
def clearTimer (c : Connection V) (id : ℕ) : Connection V :=
  { c with timers := c.timers.filter (·.1 ≠ id) }

/-- `pending.delete(id)`. -/
def deletePending (c : Connection V) (id : ℕ) : Connection V :=
  { c with pending := c.pending.filter (· ≠ id) }

def happens (c : Connection V) (happening : Happening V) : Connection V :=
  { c with history := c.history ++ [happening] }

/-- The promise executor of `daemonRpc`.  When `JSON.stringify` throws, the
promise is rejected, with the entry and the timer in place. -/
def sendRequest (text : RequestText P) (c : Connection V) (method : String) (params : P)
    (timeoutMs : ℚ) : Connection V :=
  let id := c.nextRequestId
  let c := { c with
    nextRequestId := id + 1
    timers := if shouldArmRpcTimeout timeoutMs then c.timers ++ [(id, method)] else c.timers
    pending := c.pending ++ [id] }
  match text.stringify id method params with
  | .error message =>
      settle (happens c (.one id (.unserializable message))) id (.rejected message)
  | .ok line => { c with chain := c.chain ++ [(id, line)] }

def daemonRpc (text : RequestText P) (c : Connection V) (method : String) (params : P)
    (timeoutMs : ℚ) : Connection V :=
  if c.alive then sendRequest text c method params timeoutMs
  else { c with refused := c.refused + 1 }

def rejectAllPending (c : Connection V) (message : String) : Connection V :=
  let c := c.pending.foldl (fun c id => settle (clearTimer c id) id (.rejected message)) c
  { c with pending := [] }

def markDaemonDead (c : Connection V) (message : String) : Connection V :=
  if c.alive then rejectAllPending { c with alive := false } message else c

def dispatchWireMessage (c : Connection V) : WireOutMessage V → Connection V
  | .ready => c
  | .response id ok result error =>
      if id ∈ c.pending then
        let c := deletePending (clearTimer c id) id
        if ok then settle c id (.resolved result)
        else settle c id (.rejected (formatRpcError error "daemon RPC failed"))
      else c
  -- The listeners do not touch the connection.
  | .event _ _ => c

/-- `stopDaemon` up to its `await`. -/
def stopDaemon (text : RequestText P) (c : Connection V) : Connection V :=
  if c.alive then
    let id := c.nextRequestId
    let c := daemonRpc text c SHUTDOWN_METHOD text.noParams SHUTDOWN_TIMEOUT_MS
    { c with stopping := c.stopping ++ [id] }
  else c

/-- `stopDaemon` after its shutdown call has settled, either way. -/
def stopDaemonRest (c : Connection V) : Connection V :=
  { rejectAllPending c "upriv-daemon stopped" with alive := false }

/-! ## Events -/

inductive Event (P V : Type)
  | call (method : String) (params : P) (timeoutMs : ℚ)
  | stop
  | stopReturns (id : ℕ)
  | message (message : WireOutMessage V)
  | timer (id : ℕ)
  | exit (message : String)
  /-- The `then` of the next line in the chain runs `writeLine`. -/
  | writeLine (writable : Bool)
  | writeCallback (error : Option String)
  /-- The `catch` of the line that failed. -/
  | writeCaught

/-- An id that a call of this connection has. -/
def Issued (c : Connection V) (id : ℕ) : Prop := 1 ≤ id ∧ id < c.nextRequestId

instance (c : Connection V) (id : ℕ) : Decidable (Issued c id) :=
  inferInstanceAs (Decidable (_ ∧ _))

def step (text : RequestText P) (c : Connection V) : Event P V → Option (Connection V)
  | .call method params timeoutMs => some (daemonRpc text c method params timeoutMs)
  | .stop => some (stopDaemon text c)
  | .stopReturns id =>
      if id ∈ c.stopping ∧ (c.settlement id).isSome then
        some (stopDaemonRest (happens { c with stopping := c.stopping.filter (· ≠ id) }
          (.every c.nextRequestId .stopped)))
      else none
  | .message message =>
      match message with
      | .response id ok result error =>
          -- A response for an id that no call has yet concerns no call.
          if Issued c id then
            some (dispatchWireMessage (happens c (.one id (.response ok result error))) message)
          else some (dispatchWireMessage c message)
      | _ => some (dispatchWireMessage c message)
  | .timer id =>
      match c.timers.find? (·.1 = id) with
      | none => none
      | some (_, method) =>
          let c := deletePending (clearTimer (happens c (.one id (.timeout method))) id) id
          some (settle c id (.rejected (rpcTimeoutErrorMessage method)))
  | .exit message =>
      some (markDaemonDead (happens c (.every c.nextRequestId (.death message))) message)
  | .writeLine writable =>
      match c.writing, c.chain with
      | .idle, (id, line) :: rest =>
          let c := { c with chain := rest, turns := c.turns ++ [id] }
          if writable then
            some { c with writing := .inFlight id, handed := c.handed ++ [(id, line)] }
          else some { c with writing := .failed id "upriv-daemon stdin is not writable" }
      | _, _ => none
  | .writeCallback error =>
      match c.writing with
      | .inFlight id =>
          let c := { c with calledBack := c.calledBack ++ [id] }
          match error with
          | none => some { c with writing := .idle }
          | some message => some { c with writing := .failed id message }
      | _ => none
  | .writeCaught =>
      match c.writing with
      | .failed id message =>
          let c := happens { c with writing := .idle } (.one id (.writeFailure message))
          some (settle (deletePending (clearTimer c id) id) id (.rejected message))
      | _ => none

/-! ## The meaning of a call -/

/-- What a cause does to a promise. -/
def Cause.settlement : Cause V → Settlement V
  | .response true result _ => .resolved result
  | .response false _ error => .rejected (formatRpcError error "daemon RPC failed")
  | .timeout method => .rejected (rpcTimeoutErrorMessage method)
  | .writeFailure message => .rejected message
  | .death message => .rejected message
  | .stopped => .rejected "upriv-daemon stopped"
  | .unserializable message => .rejected message

/-- The cause in a happening that concerns the call `id`. -/
def Happening.causeFor (id : ℕ) : Happening V → Option (Cause V)
  | .one other cause => if other = id then some cause else none
  | .every below cause => if 1 ≤ id ∧ id < below then some cause else none

/-- The first thing that happened to the call `id`. -/
def firstCause (history : List (Happening V)) (id : ℕ) : Option (Cause V) :=
  history.findSome? (Happening.causeFor id)

/-! ## What holds of a connection -/

def Writing.inFlightId : Writing → Option ℕ
  | .inFlight id => some id
  | _ => none

def Writing.id? : Writing → Option ℕ
  | .idle => none
  | .inFlight id => some id
  | .failed id _ => some id

/-- Every call is settled by the first thing that happens to it, and lines go
to stdin one after the other. -/
structure SettlesOnce (text : RequestText P) (c : Connection V) : Prop where
  firstCauseWins : ∀ id, c.settlement id = (firstCause c.history id).map Cause.settlement
  pending_iff : ∀ id, id ∈ c.pending ↔ Issued c id ∧ c.settlement id = none
  pendingOnce : c.pending.Nodup
  timers : ∀ entry ∈ c.timers, entry.1 ∈ c.pending
  dead : c.alive = false → c.pending = []
  turns : c.turns ++ c.chain.map Prod.fst = List.range' 1 (c.nextRequestId - 1)
  handed : (c.handed.map Prod.fst).Sublist c.turns
  oneAtATime : c.handed.map Prod.fst = c.calledBack ++ c.writing.inFlightId.toList
  nextLine : ∀ id line rest, c.writing = .idle → c.chain = (id, line) :: rest →
    ∃ c', step text c (.writeLine true) = some c' ∧ c'.handed = c.handed ++ [(id, line)]
  afterFailure : ∀ id message, c.writing = .failed id message →
    ∃ c', step text c .writeCaught = some c' ∧ c'.writing = .idle ∧ c'.chain = c.chain

/-- `JSON.stringify` gives the line of every request. -/
def serializes (text : RequestText P) (c : Connection V) : Event P V → Bool
  | .call method params _ => !c.alive || (text.stringify c.nextRequestId method params).toBool
  | .stop =>
      !c.alive || (text.stringify c.nextRequestId SHUTDOWN_METHOD text.noParams).toBool
  | _ => true

def Serializes (text : RequestText P) (c : Connection V) (event : Event P V)
    (_ : Connection V) : Prop :=
  serializes text c event = true

instance (text : RequestText P) (c : Connection V) (event : Event P V) (c' : Connection V) :
    Decidable (Serializes text c event c') :=
  inferInstanceAs (Decidable (_ = true))

/-- What every step preserves. -/
structure Inv (c : Connection V) : Prop where
  firstCauseWins : ∀ id, c.settlement id = (firstCause c.history id).map Cause.settlement
  unissued : ∀ id, ¬ Issued c id → c.settlement id = none
  pending_iff : ∀ id, id ∈ c.pending ↔ Issued c id ∧ c.settlement id = none
  pendingOnce : c.pending.Nodup
  timers : ∀ entry ∈ c.timers, entry.1 ∈ c.pending
  dead : c.alive = false → c.pending = []
  positive : 1 ≤ c.nextRequestId
  turns : c.turns ++ c.chain.map Prod.fst = List.range' 1 (c.nextRequestId - 1)
  handed : (c.handed.map Prod.fst).Sublist c.turns
  oneAtATime : c.handed.map Prod.fst = c.calledBack ++ c.writing.inFlightId.toList
  current : ∀ id, c.writing.id? = some id → id ∈ c.turns

theorem inv_initial : Inv (Connection.initial V) where
  firstCauseWins _ := rfl
  unissued _ _ := rfl
  pending_iff id := by
    simp [Connection.initial, Issued]
    omega
  pendingOnce := List.nodup_nil
  timers _ h := absurd h List.not_mem_nil
  dead _ := rfl
  positive := le_rfl
  turns := rfl
  handed := .slnil
  oneAtATime := rfl
  current _ h := by cases h

/-! ## Causes -/

theorem firstCause_append (history : List (Happening V)) (happening : Happening V) (id : ℕ) :
    firstCause (history ++ [happening]) id =
      (firstCause history id).or (happening.causeFor id) := by
  have hlast : [happening].findSome? (Happening.causeFor id) = happening.causeFor id := by
    rw [List.findSome?_cons]
    cases happening.causeFor id <;> rfl
  rw [firstCause, List.findSome?_append, hlast, firstCause]

section
variable {c c' : Connection V} {text : RequestText P} {id : ℕ}

/-- A happening settles the promises it concerns, unless they are settled. -/
theorem Inv.firstCauseWins_append (h : Inv c) (happening : Happening V) (id : ℕ) :
    (c.settlement id).or ((happening.causeFor id).map Cause.settlement) =
      (firstCause (c.history ++ [happening]) id).map Cause.settlement := by
  rw [firstCause_append, Option.map_or, h.firstCauseWins]

theorem Inv.settled_of_not_pending (h : Inv c) (hissued : Issued c id) (hid : id ∉ c.pending) :
    ∃ settlement, c.settlement id = some settlement := by
  rw [h.pending_iff] at hid
  exact Option.ne_none_iff_exists'.mp fun hnone => hid ⟨hissued, hnone⟩

theorem Inv.issued_of_turn (h : Inv c) (hturn : id ∈ c.turns) : Issued c id := by
  have hmem : id ∈ List.range' 1 (c.nextRequestId - 1) := by
    rw [← h.turns]
    exact List.mem_append_left _ hturn
  have hpositive := h.positive
  rw [List.mem_range'_1] at hmem
  constructor
  · exact hmem.1
  · omega

/-! ## Settling -/

/-- The lines are as they were. -/
structure SameLines (c c' : Connection V) : Prop where
  nextRequestId : c'.nextRequestId = c.nextRequestId
  chain : c'.chain = c.chain
  writing : c'.writing = c.writing
  turns : c'.turns = c.turns
  handed : c'.handed = c.handed
  calledBack : c'.calledBack = c.calledBack

/-- What happens to calls settles those of them that are pending, and takes
their entries and timers away. -/
structure Settles (c : Connection V) (happening : Happening V) (c' : Connection V) : Prop where
  history : c'.history = c.history ++ [happening]
  settlement : ∀ id, c'.settlement id =
    (c.settlement id).or ((happening.causeFor id).map Cause.settlement)
  pending : ∀ id, id ∈ c'.pending ↔ id ∈ c.pending ∧ happening.causeFor id = none
  pendingOnce : c'.pending.Nodup
  timers : ∀ entry ∈ c'.timers, entry ∈ c.timers ∧ happening.causeFor entry.1 = none
  dead : c'.alive = false → c'.pending = []
  lines : SameLines c c'

theorem Inv.of_settles (h : Inv c) (happening : Happening V) (hsettles : Settles c happening c')
    (hissued : ∀ id cause, happening.causeFor id = some cause → Issued c id) : Inv c' := by
  have hsame : ∀ id, Issued c' id ↔ Issued c id := by
    intro id
    rw [Issued, Issued, hsettles.lines.nextRequestId]
  constructor
  case firstCauseWins =>
    intro id
    rw [hsettles.settlement, hsettles.history, h.firstCauseWins_append]
  case unissued =>
    intro id hid
    rw [hsame] at hid
    have hnone : happening.causeFor id = none :=
      Option.eq_none_iff_forall_ne_some.mpr fun cause hcause => hid (hissued id cause hcause)
    rw [hsettles.settlement, h.unissued id hid, hnone]
    rfl
  case pending_iff =>
    intro id
    rw [hsettles.pending, hsame, h.pending_iff, hsettles.settlement, Option.or_eq_none_iff,
      Option.map_eq_none_iff, and_assoc]
  case pendingOnce => exact hsettles.pendingOnce
  case timers =>
    intro entry hentry
    obtain ⟨hbefore, hnone⟩ := hsettles.timers entry hentry
    exact (hsettles.pending entry.1).mpr ⟨h.timers entry hbefore, hnone⟩
  case dead => exact hsettles.dead
  case positive => exact hsettles.lines.nextRequestId ▸ h.positive
  case turns =>
    rw [hsettles.lines.turns, hsettles.lines.chain, hsettles.lines.nextRequestId]
    exact h.turns
  case handed =>
    rw [hsettles.lines.handed, hsettles.lines.turns]
    exact h.handed
  case oneAtATime =>
    rw [hsettles.lines.handed, hsettles.lines.calledBack, hsettles.lines.writing]
    exact h.oneAtATime
  case current =>
    rw [hsettles.lines.writing, hsettles.lines.turns]
    exact h.current

theorem causeFor_one (id other : ℕ) (cause : Cause V) :
    (Happening.one id cause).causeFor other = if other = id then some cause else none := by
  rw [Happening.causeFor]
  exact if_congr eq_comm rfl rfl

theorem issued_of_causeFor_one (hissued : Issued c id) {cause : Cause V} (other : ℕ)
    (found : Cause V) (h : (Happening.one id cause).causeFor other = some found) :
    Issued c other := by
  rw [causeFor_one] at h
  split at h
  · rename_i heq
    rwa [heq]
  · cases h

/-- Something happens to one call, and its promise hears of it. -/
theorem Inv.settleOne (h : Inv c) (hissued : Issued c id) (cause : Cause V) :
    Inv (settle (deletePending (clearTimer (happens c (.one id cause)) id) id) id
      cause.settlement) := by
  refine h.of_settles (.one id cause) ?_ (issued_of_causeFor_one hissued)
  refine ⟨rfl, fun other => ?_, fun other => ?_, h.pendingOnce.filter _, fun entry hentry => ?_,
    fun hdead => ?_, ⟨rfl, rfl, rfl, rfl, rfl, rfl⟩⟩
  · rw [causeFor_one]
    by_cases hother : other = id
    · simp [settle, deletePending, clearTimer, happens, hother]
    · simp [settle, deletePending, clearTimer, happens, hother]
  · rw [causeFor_one]
    simp [settle, deletePending, clearTimer, happens]
  · obtain ⟨hbefore, hne⟩ := List.mem_filter.mp hentry
    rw [causeFor_one]
    exact ⟨hbefore, if_neg (by simpa using hne)⟩
  · change c.pending.filter _ = []
    rw [h.dead hdead, List.filter_nil]

/-- What happens to calls that are settled changes nothing. -/
theorem Inv.happens_settled (h : Inv c) {happening : Happening V}
    (hissued : ∀ id cause, happening.causeFor id = some cause →
      Issued c id ∧ id ∉ c.pending) : Inv (happens c happening) := by
  have hnone : ∀ id ∈ c.pending, happening.causeFor id = none := fun id hid =>
    Option.eq_none_iff_forall_ne_some.mpr fun cause hcause => (hissued id cause hcause).2 hid
  refine h.of_settles happening ?_ fun id cause hcause => (hissued id cause hcause).1
  refine ⟨rfl, fun id => ?_, fun id => ?_, h.pendingOnce, fun entry hentry => ?_, h.dead,
    ⟨rfl, rfl, rfl, rfl, rfl, rfl⟩⟩
  · cases hcause : happening.causeFor id with
    | none => simp [happens]
    | some cause =>
        obtain ⟨hid, hpending⟩ := hissued id cause hcause
        obtain ⟨settlement, hsettled⟩ := h.settled_of_not_pending hid hpending
        simp [happens, hsettled]
  · exact (and_iff_left_of_imp (hnone id)).symm
  · exact ⟨hentry, hnone entry.1 (h.timers entry hentry)⟩

theorem inv_dispatch_response (h : Inv c) (hissued : Issued c id) (ok : Bool) (result : V)
    (error : Option RpcErrorBody) :
    Inv (dispatchWireMessage (happens c (.one id (.response ok result error)))
      (.response id ok result error)) := by
  rw [dispatchWireMessage]
  split
  · have hone := h.settleOne hissued (.response ok result error)
    cases ok with
    | true => exact hone
    | false => exact hone
  · rename_i hid
    refine h.happens_settled fun other cause hcause => ?_
    rw [causeFor_one] at hcause
    split at hcause
    · rename_i heq
      rw [heq]
      exact ⟨hissued, hid⟩
    · cases hcause

/-! ## The end of the daemon -/

theorem foldl_settle (ids : List ℕ) (settlement : Settlement V) (c : Connection V) :
    ids.foldl (fun c id => settle (clearTimer c id) id settlement) c =
      { c with
        settlement := fun id =>
          if id ∈ ids then (c.settlement id).or (some settlement) else c.settlement id
        timers := c.timers.filter fun entry => entry.1 ∉ ids } := by
  induction ids generalizing c with
  | nil => simp
  | cons first ids ih =>
      rw [List.foldl_cons, ih]
      simp only [settle, clearTimer, Connection.mk.injEq, true_and, and_true]
      constructor
      · rw [List.filter_filter]
        refine List.filter_congr fun entry _ => ?_
        by_cases hfirst : entry.1 = first <;> simp [hfirst]
      · funext id
        by_cases hfirst : id = first
        · subst hfirst
          by_cases hid : id ∈ ids <;> cases c.settlement id <;> simp [hid]
        · simp [hfirst]

theorem rejectAllPending_eq (c : Connection V) (message : String) :
    rejectAllPending c message =
      { c with
        settlement := fun id =>
          if id ∈ c.pending then (c.settlement id).or (some (.rejected message))
          else c.settlement id
        timers := c.timers.filter fun entry => entry.1 ∉ c.pending
        pending := [] } := by
  rw [rejectAllPending, foldl_settle]

theorem causeFor_every (id : ℕ) (cause : Cause V) :
    (Happening.every c.nextRequestId cause).causeFor id =
      if Issued c id then some cause else none :=
  rfl

theorem issued_of_causeFor_every {cause : Cause V} (id : ℕ) (found : Cause V)
    (h : (Happening.every c.nextRequestId cause).causeFor id = some found) : Issued c id := by
  rw [causeFor_every] at h
  split at h
  · assumption
  · cases h

/-- Everything that is pending ends. -/
theorem Inv.rejectAll (h : Inv c) (cause : Cause V) {message : String}
    (hcause : cause.settlement = .rejected message) (alive : Bool) :
    Inv { rejectAllPending (happens c (.every c.nextRequestId cause)) message with
      alive := alive } := by
  refine h.of_settles (.every c.nextRequestId cause) ?_ issued_of_causeFor_every
  rw [rejectAllPending_eq]
  refine ⟨rfl, fun id => ?_, fun id => ?_, List.nodup_nil, fun entry hentry => ?_, fun _ => rfl,
    ⟨rfl, rfl, rfl, rfl, rfl, rfl⟩⟩
  · rw [causeFor_every]
    by_cases hissued : Issued c id
    · by_cases hid : id ∈ c.pending
      · simp [happens, hissued, hid, hcause]
      · obtain ⟨settlement, hsettled⟩ := h.settled_of_not_pending hissued hid
        simp [happens, hid, hsettled]
    · have hid : id ∉ c.pending := fun hid => hissued ((h.pending_iff id).mp hid).1
      simp [happens, hissued, hid]
  · refine iff_of_false List.not_mem_nil ?_
    rintro ⟨hid, hnone⟩
    rw [causeFor_every, if_pos ((h.pending_iff id).mp hid).1] at hnone
    cases hnone
  · obtain ⟨hbefore, hne⟩ := List.mem_filter.mp hentry
    exact absurd (h.timers entry hbefore) (of_decide_eq_true hne)

theorem inv_markDaemonDead (h : Inv c) (message : String) :
    Inv (markDaemonDead (happens c (.every c.nextRequestId (.death message))) message) := by
  rw [markDaemonDead]
  split
  · have hreject := h.rejectAll (.death message) rfl false
    rw [rejectAllPending_eq] at hreject ⊢
    exact hreject
  · rename_i hdead
    have hempty : c.pending = [] := h.dead (Bool.not_eq_true _ ▸ hdead)
    refine h.happens_settled fun id cause hcause => ?_
    exact ⟨issued_of_causeFor_every id cause hcause, hempty ▸ List.not_mem_nil⟩

/-! ## New calls -/

theorem Inv.sendRequest (h : Inv c) (halive : c.alive = true) {method : String} {params : P}
    (hserializes : (text.stringify c.nextRequestId method params).toBool = true)
    (timeoutMs : ℚ) : Inv (sendRequest text c method params timeoutMs) := by
  have hpositive := h.positive
  have hfresh : ¬ Issued c c.nextRequestId := fun hissued => Nat.lt_irrefl _ hissued.2
  rw [Electron.sendRequest]
  cases hline : text.stringify c.nextRequestId method params with
  | error message =>
      rw [hline] at hserializes
      cases hserializes
  | ok line =>
      constructor
      case firstCauseWins => exact h.firstCauseWins
      case unissued =>
        exact fun id hid => h.unissued id fun hissued =>
          hid ⟨hissued.1, Nat.lt_succ_of_lt hissued.2⟩
      case pending_iff =>
        intro id
        rw [List.mem_append, List.mem_singleton, h.pending_iff]
        by_cases hid : id = c.nextRequestId
        · subst hid
          refine iff_of_true (.inr rfl) ⟨⟨hpositive, Nat.lt_succ_self _⟩, ?_⟩
          exact h.unissued _ hfresh
        · rw [or_iff_left hid]
          refine and_congr_left' ?_
          simp only [Issued]
          omega
      case pendingOnce =>
        rw [List.nodup_append]
        refine ⟨h.pendingOnce, List.nodup_singleton _, ?_⟩
        rintro id hid _ hnew rfl
        rw [List.mem_singleton] at hnew
        subst hnew
        exact hfresh ((h.pending_iff _).mp hid).1
      case timers =>
        intro entry hentry
        rw [List.mem_append, List.mem_singleton]
        dsimp only at hentry
        split at hentry
        · rw [List.mem_append, List.mem_singleton] at hentry
          rcases hentry with hentry | rfl
          · exact .inl (h.timers entry hentry)
          · exact .inr rfl
        · exact .inl (h.timers entry hentry)
      case dead => exact fun hdead => by cases halive.symm.trans hdead
      case positive => exact Nat.le_succ_of_le hpositive
      case turns =>
        obtain ⟨n, hn⟩ : ∃ n, c.nextRequestId = n + 1 := ⟨c.nextRequestId - 1, by omega⟩
        have hturns := h.turns
        simp only [hn, Nat.add_sub_cancel] at hturns ⊢
        rw [List.map_append, ← List.append_assoc, hturns, List.range'_concat]
        simp [Nat.add_comm]
      case handed => exact h.handed
      case oneAtATime => exact h.oneAtATime
      case current => exact h.current

theorem Inv.daemonRpc (h : Inv c) {method : String} {params : P}
    (hserializes : (!c.alive || (text.stringify c.nextRequestId method params).toBool) = true)
    (timeoutMs : ℚ) : Inv (daemonRpc text c method params timeoutMs) := by
  rw [Electron.daemonRpc]
  split
  · rename_i halive
    exact h.sendRequest halive (by simpa [halive] using hserializes) timeoutMs
  · exact { h with }

theorem Inv.stopDaemon (h : Inv c)
    (hserializes : (!c.alive ||
      (text.stringify c.nextRequestId SHUTDOWN_METHOD text.noParams).toBool) = true) :
    Inv (stopDaemon text c) := by
  rw [Electron.stopDaemon]
  split
  · exact { h.daemonRpc hserializes SHUTDOWN_TIMEOUT_MS with }
  · exact h

/-! ## The lines -/

/-- The first line of the chain gets its turn. -/
theorem Inv.writeLine (h : Inv c) {event : Event P V} {writable : Bool}
    (hevent : event = .writeLine writable) (hstep : step text c event = some c') : Inv c' := by
  subst hevent
  rw [step] at hstep
  split at hstep
  · rename_i id line rest hidle hchain
    have hturns : c.turns ++ [id] ++ rest.map Prod.fst =
        List.range' 1 (c.nextRequestId - 1) := by
      rw [← h.turns, hchain, List.append_assoc]
      rfl
    have hdone := h.oneAtATime
    rw [hidle] at hdone
    simp only [Writing.inFlightId, Option.toList_none, List.append_nil] at hdone
    have hsublist : (c.handed.map Prod.fst).Sublist (c.turns ++ [id]) :=
      h.handed.trans (List.sublist_append_left _ _)
    dsimp only at hstep
    split at hstep
    · cases hstep
      refine { h with
        turns := hturns, handed := ?_, oneAtATime := ?_, current := fun other hother => ?_ }
      · rw [List.map_append]
        exact h.handed.append (.refl _)
      · rw [List.map_append, hdone]
        rfl
      · cases hother
        exact List.mem_append_right _ (List.mem_singleton_self _)
    · cases hstep
      refine { h with
        turns := hturns, handed := hsublist, oneAtATime := ?_, current := fun other hother => ?_ }
      · rw [hdone]
        exact (List.append_nil _).symm
      · cases hother
        exact List.mem_append_right _ (List.mem_singleton_self _)
  · cases hstep

theorem Inv.writeCallback (h : Inv c) {event : Event P V} {error : Option String}
    (hevent : event = .writeCallback error) (hstep : step text c event = some c') : Inv c' := by
  subst hevent
  rw [step] at hstep
  split at hstep
  · rename_i id hflight
    have hdone := h.oneAtATime
    rw [hflight] at hdone
    cases error with
    | none =>
        cases hstep
        refine { h with oneAtATime := ?_, current := fun other hother => ?_ }
        · rw [hdone]
          exact (List.append_nil _).symm
        · cases hother
    | some message =>
        cases hstep
        refine { h with oneAtATime := ?_, current := fun other hother => ?_ }
        · rw [hdone]
          exact (List.append_nil _).symm
        · cases hother
          exact h.current id (by rw [hflight]; rfl)
  · cases hstep

theorem Inv.writeCaught (h : Inv c) {event : Event P V} (hevent : event = .writeCaught)
    (hstep : step text c event = some c') : Inv c' := by
  subst hevent
  rw [step] at hstep
  split at hstep
  · rename_i id message hfailed
    cases hstep
    have hidle : Inv { c with writing := .idle } := by
      refine { h with oneAtATime := ?_, current := fun other hother => ?_ }
      · have hdone := h.oneAtATime
        rw [hfailed] at hdone
        exact hdone
      · cases hother
    have hissued : Issued c id := h.issued_of_turn (h.current id (by rw [hfailed]; rfl))
    exact hidle.settleOne hissued (.writeFailure message)
  · cases hstep

theorem Inv.timer (h : Inv c) {event : Event P V} (hevent : event = .timer id)
    (hstep : step text c event = some c') : Inv c' := by
  subst hevent
  rw [step] at hstep
  split at hstep
  · cases hstep
  · rename_i number method hfind
    cases hstep
    obtain rfl : number = id := by simpa using List.find?_some hfind
    have hpending := h.timers _ (List.mem_of_find?_eq_some hfind)
    exact h.settleOne ((h.pending_iff _).mp hpending).1 (.timeout method)

/-! ## Every run -/

theorem inv_step {event : Event P V} (h : Inv c) (hstep : step text c event = some c')
    (hserializes : serializes text c event = true) : Inv c' := by
  cases event with
  | call method params timeoutMs =>
      cases hstep
      exact h.daemonRpc hserializes timeoutMs
  | stop =>
      cases hstep
      exact h.stopDaemon hserializes
  | stopReturns id =>
      rw [step] at hstep
      split at hstep
      · cases hstep
        have hstopping : Inv { c with stopping := c.stopping.filter (· ≠ id) } := { h with }
        exact hstopping.rejectAll .stopped rfl false
      · cases hstep
  | message message =>
      cases message with
      | ready =>
          cases hstep
          exact h
      | response id ok result error =>
          rw [step] at hstep
          split at hstep
          · rename_i hissued
            cases hstep
            exact inv_dispatch_response h hissued ok result error
          · rename_i hissued
            cases hstep
            have hid : id ∉ c.pending := fun hid => hissued ((h.pending_iff id).mp hid).1
            rw [dispatchWireMessage, if_neg hid]
            exact h
      | event name payload =>
          cases hstep
          exact h
  | timer id => exact h.timer rfl hstep
  | exit message =>
      cases hstep
      exact inv_markDaemonDead h message
  | writeLine writable => exact h.writeLine rfl hstep
  | writeCallback error => exact h.writeCallback rfl hstep
  | writeCaught => exact h.writeCaught rfl hstep

theorem Inv.settlesOnce (h : Inv c) (text : RequestText P) : SettlesOnce text c where
  firstCauseWins := h.firstCauseWins
  pending_iff := h.pending_iff
  pendingOnce := h.pendingOnce
  timers := h.timers
  dead := h.dead
  turns := h.turns
  handed := h.handed
  oneAtATime := h.oneAtATime
  nextLine id line rest hidle hchain := by simp [step, hidle, hchain]
  afterFailure id message hfailed := by
    simp [step, hfailed, settle, deletePending, clearTimer, happens]

end

/-- While every request serialises, every call is settled once. -/
theorem settlesOnce_of_run (text : RequestText P) {events : List (Event P V)}
    {c : Connection V}
    (hrun : Run (step text) (Serializes text) (Connection.initial V) events c) :
    SettlesOnce text c := by
  have hinv : Inv c := by
    refine hrun.invariant Inv inv_initial ?_
    exact fun _ _ _ hinv hstep hserializes => inv_step hinv hstep hserializes
  exact hinv.settlesOnce text

end

/-! ## Params that are no JSON -/

inductive SampleParams
  | empty
  /-- An object with a `BigInt` in it. -/
  | bigInt

def sampleText : RequestText SampleParams where
  stringify id method
    | .empty => .ok ("\x7b\"type\":\"request\",\"id\":" ++ Nat.repr id ++ ",\"method\":\"" ++
        method ++ "\",\"params\":\x7b\x7d\x7d")
    | .bigInt => .error "Do not know how to serialize a BigInt"
  noParams := .empty

/-- Two calls; the second is answered, the first times out. -/
def sampleEvents : List (Event SampleParams ℕ) :=
  [.call "vault_list" .empty 30000, .call "app_info" .empty 30000, .writeLine true,
    .writeCallback none, .writeLine true, .message (.response 2 true 7 none), .timer 1,
    .message (.response 1 true 8 none)]

theorem settlesOnce_of_run_sample :
    ∃ c, Run (step sampleText) (Serializes sampleText) (Connection.initial ℕ) sampleEvents c ∧
      SettlesOnce sampleText c ∧ c.settlement 2 = some (.resolved 7) ∧
      c.settlement 1 = some (.rejected "rpc_timeout: daemon RPC timeout: vault_list") := by
  obtain ⟨c, hrun, htest⟩ := exists_run_of_execute (step sampleText) (Serializes sampleText)
    sampleEvents (Connection.initial ℕ)
    (fun c => decide (c.settlement 2 = some (.resolved 7) ∧
      c.settlement 1 = some (.rejected "rpc_timeout: daemon RPC timeout: vault_list")))
    (by decide)
  exact ⟨c, hrun, settlesOnce_of_run sampleText hrun, of_decide_eq_true htest⟩

/-- The call is rejected, and its entry stays in the map. -/
theorem unserializable_stays_pending :
    ∃ c, Run (step sampleText) Always (Connection.initial ℕ) [.call "vault_list" .bigInt 30000] c ∧
      c.settlement 1 = some (.rejected "Do not know how to serialize a BigInt") ∧
      1 ∈ c.pending ∧ ¬ SettlesOnce sampleText c := by
  obtain ⟨c, hrun, htest⟩ := exists_run_of_execute (step sampleText) Always
    [.call "vault_list" .bigInt 30000] (Connection.initial ℕ)
    (fun c => decide (c.settlement 1 =
      some (.rejected "Do not know how to serialize a BigInt") ∧ 1 ∈ c.pending)) (by decide)
  obtain ⟨hsettled, hpending⟩ := of_decide_eq_true htest
  refine ⟨c, hrun, hsettled, hpending, fun h => ?_⟩
  have hnone := ((h.pending_iff 1).mp hpending).2
  cases hsettled.symm.trans hnone

end Upriv.Electron
