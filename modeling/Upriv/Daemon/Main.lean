import Upriv.Support.Runs
import Upriv.Support.Text
import Mathlib.Data.List.Perm.Subperm

/-!
# The daemon

`main.rs` and `wire.rs` of `upriv-daemon`: a loop over the lines of stdin, and
a worker thread for the methods that run Argon2, with a channel between them
and one writer for both.  An event is one step of one of the two threads;
writing a line holds the lock of stdout and is one step.
-/

namespace Upriv.Daemon

variable {J : Type}

structure RpcErrorBody (J : Type) where
  code : String
  message : String
  details : Option J
  deriving DecidableEq, Repr

inductive WireIn (J : Type)
  | request (id : UInt64) (method : String) (params : J)
  deriving DecidableEq, Repr

inductive WireOut (J : Type)
  | ready
  | response (id : UInt64) (ok : Bool) (result : Option J) (error : Option (RpcErrorBody J))
  | event (name : String) (payload : J)
  deriving DecidableEq, Repr

inductive RequestOutcome (J : Type)
  | continue (wire : WireOut J)
  | shutdown (wire : WireOut J)
  deriving DecidableEq, Repr

structure RpcResponse (J : Type) where
  ok : Bool
  result : Option J
  error : Option (RpcErrorBody J)
  deriving DecidableEq, Repr

/-- `serde_json`, with `J` for its values. -/
structure SerdeJson (J : Type) where
  value : String → Except String J
  wireIn : String → Except String (WireIn J)
  /-- `value.get("id")?.as_u64()`. -/
  getId : J → Option UInt64

def MAX_REQUEST_LINE_BYTES : ℕ := 1 <<< 20

def invalidRequest (id : UInt64) (message : String) : WireOut J :=
  .response id false none (some ⟨"invalid_request", message, none⟩)

def internalErrorResponse (id : UInt64) : WireOut J :=
  .response id false none
    (some ⟨"internal_error", "internal error while handling request", none⟩)

def extractRequestId (S : SerdeJson J) (raw : String) : Option UInt64 :=
  match S.value raw with
  | .error _ => none
  | .ok value => S.getId value

def isArgon2BoundMethod (method : String) : Bool :=
  method = "vault_open" || method = "vault_create"

/-- `handle_request`, once `handle_rpc` has answered. -/
def handleRequest (id : UInt64) (method : String) (response : RpcResponse J) :
    RequestOutcome J :=
  let wire := WireOut.response id response.ok response.result response.error
  if method = "app_shutdown" then .shutdown wire else .continue wire

/-- `run_request_caught`; `none` is a panic. -/
def runRequestCaught (id : UInt64) (method : String) (handled : Option (RpcResponse J)) :
    RequestOutcome J :=
  match handled with
  | some response => handleRequest id method response
  | none => .continue (internalErrorResponse id)

/-! ## The two threads -/

inductive HeavyJob (J : Type)
  | request (id : UInt64) (method : String) (params : J)
  | shutdown
  deriving DecidableEq, Repr

inductive MainControl (J : Type)
  | starting
  | reading
  | handling (id : UInt64) (method : String) (params : J)
  /-- In `write_out`; the loop ends after it when `last`. -/
  | writing (wire : WireOut J) (last : Bool)
  | draining
  | joining
  | returned
  deriving DecidableEq, Repr

inductive WorkerControl (J : Type)
  | waiting
  | handling (id : UInt64) (method : String) (params : J)
  | writing (wire : WireOut J)
  | exited
  deriving DecidableEq, Repr

/-- `lines` is what stdin still holds; `consumed` what the loop has read;
`shutdownReturned` that the handler of an `app_shutdown` has returned. -/
structure State (J : Type) where
  lines : List String
  consumed : List String
  main : MainControl J
  channel : List (HeavyJob J)
  worker : WorkerControl J
  out : List (WireOut J)
  shutdownReturned : Bool
  deriving DecidableEq, Repr

def State.initial (lines : List String) : State J where
  lines := lines
  consumed := []
  main := .starting
  channel := []
  worker := .waiting
  out := []
  shutdownReturned := false

/-- An error for the id that can be recovered, if any. -/
def answerInvalid (S : SerdeJson J) (trimmed message : String) : MainControl J :=
  match extractRequestId S trimmed with
  | some id => .writing (invalidRequest id message) false
  | none => .reading

/-- The body of the loop, up to the handler or the first write. -/
def consumeLine (S : SerdeJson J) (s : State J) (line : String) : State J :=
  let trimmed := trim line
  if trimmed.isEmpty then { s with main := .reading }
  else if MAX_REQUEST_LINE_BYTES < trimmed.utf8ByteSize then
    { s with main := answerInvalid S trimmed "request line too large" }
  else
    match S.wireIn trimmed with
    | .error error =>
        { s with main := answerInvalid S trimmed ("invalid request JSON: " ++ error) }
    | .ok (.request id method params) =>
        if isArgon2BoundMethod method then
          match s.worker with
          -- The receiver is gone.
          | .exited => { s with main := .writing (internalErrorResponse id) true }
          | _ => { s with main := .reading, channel := s.channel ++ [.request id method params] }
        else { s with main := .handling id method params }

/-- One step of one thread. -/
inductive Event (J : Type)
  | mainStarts (version : J)
  | mainReads
  | mainHandled (handled : Option (RpcResponse J))
  | mainWrites
  | mainSendsShutdown
  | mainJoins
  | workerReceives
  | workerHandled (handled : Option (RpcResponse J))
  | workerWrites
  deriving DecidableEq, Repr

def step (S : SerdeJson J) (s : State J) : Event J → Option (State J)
  | .mainStarts version =>
      match s.main with
      | .starting =>
          some { s with main := .reading, out := s.out ++ [.ready, .event "daemon_ready" version] }
      | _ => none
  | .mainReads =>
      match s.main with
      | .reading =>
          match s.lines with
          | [] => some { s with main := .draining }
          | line :: rest =>
              some (consumeLine S { s with lines := rest, consumed := s.consumed ++ [line] } line)
      | _ => none
  | .mainHandled handled =>
      match s.main with
      | .handling id method _ =>
          match runRequestCaught id method handled with
          | .continue wire => some { s with main := .writing wire false }
          | .shutdown wire => some { s with main := .writing wire true, shutdownReturned := true }
      | _ => none
  | .mainWrites =>
      match s.main with
      | .writing wire last =>
          some { s with out := s.out ++ [wire], main := if last then .draining else .reading }
      | _ => none
  | .mainSendsShutdown =>
      match s.main with
      | .draining => some { s with main := .joining, channel := s.channel ++ [.shutdown] }
      | _ => none
  | .mainJoins =>
      match s.main, s.worker with
      | .joining, .exited => some { s with main := .returned }
      | _, _ => none
  | .workerReceives =>
      match s.worker, s.channel with
      | .waiting, .request id method params :: rest =>
          some { s with worker := .handling id method params, channel := rest }
      | .waiting, .shutdown :: rest => some { s with worker := .exited, channel := rest }
      | .waiting, [] =>
          match s.main with
          -- The sender is gone.
          | .joining => some { s with worker := .exited }
          | _ => none
      | _, _ => none
  | .workerHandled handled =>
      match s.worker with
      | .handling id method _ =>
          match runRequestCaught id method handled with
          | .continue wire => some { s with worker := .writing wire }
          | .shutdown wire => some { s with worker := .writing wire }
      | _ => none
  | .workerWrites =>
      match s.worker with
      | .writing wire => some { s with worker := .waiting, out := s.out ++ [wire] }
      | _ => none

/-! ## What the lines ask for -/

/-- The id under which a line is answered. -/
def lineId (S : SerdeJson J) (line : String) : Option UInt64 :=
  let trimmed := trim line
  if trimmed.isEmpty then none
  else if MAX_REQUEST_LINE_BYTES < trimmed.utf8ByteSize then extractRequestId S trimmed
  else
    match S.wireIn trimmed with
    | .error _ => extractRequestId S trimmed
    | .ok (.request id _ _) => some id

/-- A line that the loop takes for an `app_shutdown`. -/
def IsShutdownLine (S : SerdeJson J) (line : String) : Prop :=
  (trim line).isEmpty = false ∧ (trim line).utf8ByteSize ≤ MAX_REQUEST_LINE_BYTES ∧
    ∃ id params, S.wireIn (trim line) = .ok (.request id "app_shutdown" params)

def WireOut.responseId : WireOut J → Option UInt64
  | .response id _ _ _ => some id
  | _ => none

def responseIds (out : List (WireOut J)) : List UInt64 := out.filterMap WireOut.responseId

/-- The loop has ended: at the end of input, or after an `app_shutdown` whose
handler has returned. -/
def LoopEnded (S : SerdeJson J) (s : State J) : Prop :=
  s.lines = [] ∨ s.shutdownReturned = true ∧
    ∃ line, s.consumed.getLast? = some line ∧ IsShutdownLine S line

/-- What holds after every step, and once `run` has returned. -/
structure AnswersOnce (S : SerdeJson J) (input : List String) (s : State J) : Prop where
  consumed : input = s.consumed ++ s.lines
  /-- Nothing is answered that was not asked, at any time. -/
  noOther : (responseIds s.out).Subperm (s.consumed.filterMap (lineId S))
  /-- The loop reads on only while no `app_shutdown` has returned. -/
  readsOn : s.main = .reading → s.shutdownReturned = false
  returned : s.main = .returned →
    (responseIds s.out).Perm (s.consumed.filterMap (lineId S)) ∧ LoopEnded S s
  /-- Until it has returned, some thread can go on. -/
  notStuck : s.main ≠ .returned → ∃ event, (step S s event).isSome = true

end Upriv.Daemon
