import Upriv.Daemon.Main

/-!
# Every request is answered once

The ids that lines ask for are, at every moment, those that have been answered
and those that the main thread, the channel or the worker still owes.
-/

namespace Upriv.Daemon

variable {J : Type}

/-! ## Who owes an answer -/

/-- The ids that the main thread, the channel and the worker still have to
answer. -/
def MainControl.owed : MainControl J → List UInt64
  | .handling id _ _ => [id]
  | .writing wire _ => responseIds [wire]
  | _ => []

def HeavyJob.id? : HeavyJob J → Option UInt64
  | .request id _ _ => some id
  | .shutdown => none

def WorkerControl.owed : WorkerControl J → List UInt64
  | .handling id _ _ => [id]
  | .writing wire => responseIds [wire]
  | _ => []

def owed (s : State J) : List UInt64 :=
  s.main.owed ++ (s.channel.filterMap HeavyJob.id? ++ s.worker.owed)

/-- Where the loop stands with respect to `app_shutdown`. -/
def LoopInv (S : SerdeJson J) (s : State J) : Prop :=
  match s.main with
  | .starting | .reading => s.shutdownReturned = false
  | .handling _ method _ => s.shutdownReturned = false ∧
      (method = "app_shutdown" → ∃ line, s.consumed.getLast? = some line ∧ IsShutdownLine S line)
  | .writing _ false => s.shutdownReturned = false
  | .writing _ true | .draining | .joining | .returned => LoopEnded S s

/-- The marker is sent once, behind every job, and only it ends the worker. -/
def ChannelInv (s : State J) : Prop :=
  match s.main with
  | .joining =>
      s.worker ≠ .exited ∧ (∃ jobs, s.channel = jobs ++ [.shutdown] ∧ .shutdown ∉ jobs) ∨
        s.worker = .exited ∧ s.channel = []
  | .returned => s.worker = .exited ∧ s.channel = []
  | _ => s.worker ≠ .exited ∧ .shutdown ∉ s.channel

structure Inv (S : SerdeJson J) (input : List String) (s : State J) : Prop where
  consumed : input = s.consumed ++ s.lines
  answers : (responseIds s.out ++ owed s).Perm (s.consumed.filterMap (lineId S))
  loop : LoopInv S s
  channel : ChannelInv s

section
variable {S : SerdeJson J} {input : List String} {s s' : State J} {line : String}

theorem inv_initial (S : SerdeJson J) (input : List String) :
    Inv S input (State.initial input) where
  consumed := rfl
  answers := .refl _
  loop := rfl
  channel := ⟨nofun, List.not_mem_nil⟩

/-! ## Reading a line -/

/-- What the loop does next with a line that it does not hand to the worker. -/
def AfterLine (S : SerdeJson J) (line : String) : MainControl J → Prop
  | .reading => True
  | .writing _ last => last = false
  | .handling _ method _ => method = "app_shutdown" → IsShutdownLine S line
  | _ => False

theorem answerInvalid_cases (S : SerdeJson J) (line trimmed message : String) :
    AfterLine S line (answerInvalid S trimmed message) ∧
      (answerInvalid S trimmed message).owed = (extractRequestId S trimmed).toList := by
  rw [answerInvalid]
  cases extractRequestId S trimmed with
  | none => exact ⟨trivial, rfl⟩
  | some id => exact ⟨rfl, rfl⟩

/-- A line is left to the main thread or to the worker, with its id. -/
theorem consumeLine_cases (S : SerdeJson J) (line : String) (hworker : s.worker ≠ .exited) :
    (∃ main, consumeLine S s line = { s with main := main } ∧ AfterLine S line main ∧
      main.owed = (lineId S line).toList) ∨
    ∃ id method params, consumeLine S s line =
        { s with main := .reading, channel := s.channel ++ [.request id method params] } ∧
      lineId S line = some id := by
  rw [consumeLine, lineId]
  split
  · exact .inl ⟨.reading, rfl, trivial, rfl⟩
  · rename_i hempty
    split
    · exact .inl ⟨_, rfl, answerInvalid_cases S line _ _⟩
    · rename_i hsize
      cases hwire : S.wireIn (trim line) with
      | error error => exact .inl ⟨_, rfl, answerInvalid_cases S line _ _⟩
      | ok request =>
          obtain ⟨id, method, params⟩ := request
          dsimp only
          split
          · split
            · rename_i hexited
              exact absurd hexited hworker
            · exact .inr ⟨id, method, params, rfl, rfl⟩
          · refine .inl ⟨_, rfl, ?_, rfl⟩
            rintro rfl
            exact ⟨Bool.not_eq_true _ ▸ hempty, Nat.le_of_not_lt hsize, id, params, hwire⟩

theorem filterMap_concat (S : SerdeJson J) (consumed : List String) (line : String) :
    (consumed ++ [line]).filterMap (lineId S) =
      consumed.filterMap (lineId S) ++ (lineId S line).toList := by
  rw [List.filterMap_append]
  cases h : lineId S line <;> simp [h]

theorem Inv.reads (h : Inv S input s) (hmain : s.main = .reading) {rest : List String}
    (hlines : s.lines = line :: rest) :
    Inv S input
      (consumeLine S { s with lines := rest, consumed := s.consumed ++ [line] } line) := by
  have hconsumed : input = s.consumed ++ [line] ++ rest := by
    rw [h.consumed, hlines, List.append_assoc, List.singleton_append]
  have hloop := h.loop
  have hchannel := h.channel
  have hanswers := h.answers
  simp only [LoopInv, ChannelInv, owed, hmain, MainControl.owed, List.nil_append]
    at hloop hchannel hanswers
  rcases consumeLine_cases S line
    (s := { s with lines := rest, consumed := s.consumed ++ [line] }) hchannel.1 with
    ⟨main, heq, hafter, howed⟩ | ⟨id, method, params, heq, hid⟩
  · rw [heq]
    refine ⟨hconsumed, ?_, ?_, ?_⟩
    · rw [filterMap_concat, owed, howed]
      rw [List.perm_iff_count] at hanswers ⊢
      intro a
      have ha := hanswers a
      simp only [List.count_append] at ha ⊢
      omega
    · rw [LoopInv]
      cases main with
      | reading => exact hloop
      | handling id method params => exact ⟨hloop, fun hmethod =>
          ⟨line, List.getLast?_concat, hafter hmethod⟩⟩
      | writing wire last =>
          obtain rfl : last = false := hafter
          exact hloop
      | _ => exact hafter.elim
    · rw [ChannelInv]
      cases main with
      | reading => exact hchannel
      | handling id method params => exact hchannel
      | writing wire last => exact hchannel
      | _ => exact hafter.elim
  · rw [heq]
    refine ⟨hconsumed, ?_, hloop, hchannel.1, ?_⟩
    · rw [filterMap_concat, hid, owed, List.filterMap_append]
      rw [List.perm_iff_count] at hanswers ⊢
      intro a
      have ha := hanswers a
      simp only [List.count_append, MainControl.owed, List.filterMap_cons, HeavyJob.id?,
        List.filterMap_nil, Option.toList_some, List.count_nil] at ha ⊢
      omega
    · rw [List.mem_append, List.mem_singleton]
      rintro (hmem | hmem)
      · exact hchannel.2 hmem
      · cases hmem

/-! ## The other steps of the main thread -/

theorem runRequestCaught_responseId (id : UInt64) (method : String)
    (handled : Option (RpcResponse J)) :
    (∃ wire, runRequestCaught id method handled = .continue wire ∧
      responseIds [wire] = [id]) ∨
    ∃ wire, runRequestCaught id method handled = .shutdown wire ∧ responseIds [wire] = [id] ∧
      method = "app_shutdown" := by
  cases handled with
  | none => exact .inl ⟨_, rfl, rfl⟩
  | some response =>
      rw [runRequestCaught, handleRequest]
      split
      · rename_i hmethod
        exact .inr ⟨_, rfl, rfl, hmethod⟩
      · exact .inl ⟨_, rfl, rfl⟩

theorem Inv.mainStarts {version : J} (h : Inv S input s)
    (hstep : step S s (.mainStarts version) = some s') : Inv S input s' := by
  rw [step] at hstep
  split at hstep
  · rename_i hmain
    cases hstep
    have hloop := h.loop
    have hchannel := h.channel
    have hanswers := h.answers
    simp only [LoopInv, ChannelInv, owed, hmain] at hloop hchannel hanswers
    refine ⟨h.consumed, ?_, hloop, hchannel⟩
    have hout : responseIds (s.out ++ [.ready, .event "daemon_ready" version]) =
        responseIds s.out := by
      rw [responseIds, List.filterMap_append]
      exact List.append_nil _
    rw [hout]
    exact hanswers
  · cases hstep

theorem Inv.mainReads (h : Inv S input s) (hstep : step S s .mainReads = some s') :
    Inv S input s' := by
  rw [step] at hstep
  split at hstep
  · rename_i hmain
    split at hstep
    · rename_i hlines
      cases hstep
      have hchannel := h.channel
      have hanswers := h.answers
      simp only [ChannelInv, owed, hmain] at hchannel hanswers
      exact ⟨h.consumed, hanswers, .inl hlines, hchannel⟩
    · rename_i line rest hlines
      rw [← Option.some.inj hstep]
      exact h.reads hmain hlines
  · cases hstep

theorem Inv.mainHandled {handled : Option (RpcResponse J)} (h : Inv S input s)
    (hstep : step S s (.mainHandled handled) = some s') : Inv S input s' := by
  rw [step] at hstep
  split at hstep
  · rename_i id method params hmain
    have hloop := h.loop
    have hchannel := h.channel
    have hanswers := h.answers
    simp only [LoopInv, ChannelInv, owed, hmain, MainControl.owed] at hloop hchannel hanswers
    rcases runRequestCaught_responseId id method handled with
      ⟨wire, hwire, hid⟩ | ⟨wire, hwire, hid, hmethod⟩
    · rw [hwire] at hstep
      cases hstep
      refine ⟨h.consumed, ?_, hloop.1, hchannel⟩
      simpa only [owed, MainControl.owed, hid] using hanswers
    · rw [hwire] at hstep
      cases hstep
      refine ⟨h.consumed, ?_, .inr ⟨rfl, hloop.2 hmethod⟩, hchannel⟩
      simpa only [owed, MainControl.owed, hid] using hanswers
  · cases hstep

theorem Inv.mainWrites (h : Inv S input s) (hstep : step S s .mainWrites = some s') :
    Inv S input s' := by
  rw [step] at hstep
  split at hstep
  · rename_i wire last hmain
    cases hstep
    have hloop := h.loop
    have hchannel := h.channel
    have hanswers := h.answers
    simp only [LoopInv, ChannelInv, owed, hmain, MainControl.owed] at hloop hchannel hanswers
    have hout : responseIds (s.out ++ [wire]) = responseIds s.out ++ responseIds [wire] :=
      List.filterMap_append
    cases last with
    | true =>
        refine ⟨h.consumed, ?_, hloop, hchannel⟩
        rw [hout, List.append_assoc]
        exact hanswers
    | false =>
        refine ⟨h.consumed, ?_, hloop, hchannel⟩
        rw [hout, List.append_assoc]
        exact hanswers
  · cases hstep

theorem Inv.mainSendsShutdown (h : Inv S input s)
    (hstep : step S s .mainSendsShutdown = some s') : Inv S input s' := by
  rw [step] at hstep
  split at hstep
  · rename_i hmain
    cases hstep
    have hloop := h.loop
    have hchannel := h.channel
    have hanswers := h.answers
    simp only [LoopInv, ChannelInv, owed, hmain] at hloop hchannel hanswers
    refine ⟨h.consumed, ?_, hloop, .inl ⟨hchannel.1, s.channel, rfl, hchannel.2⟩⟩
    have hids : (s.channel ++ [HeavyJob.shutdown]).filterMap HeavyJob.id? =
        s.channel.filterMap HeavyJob.id? := by
      rw [List.filterMap_append]
      exact List.append_nil _
    rw [owed, hids]
    exact hanswers
  · cases hstep

theorem Inv.mainJoins (h : Inv S input s) (hstep : step S s .mainJoins = some s') :
    Inv S input s' := by
  rw [step] at hstep
  split at hstep
  · rename_i hmain hworker
    cases hstep
    have hloop := h.loop
    have hchannel := h.channel
    have hanswers := h.answers
    simp only [LoopInv, ChannelInv, owed, hmain] at hloop hchannel hanswers
    rcases hchannel with ⟨hrunning, _⟩ | hexited
    · exact absurd hworker hrunning
    · exact ⟨h.consumed, hanswers, hloop, hexited⟩
  · cases hstep

/-! ## The worker -/

/-- The worker and the channel change, the answers owed do not. -/
theorem Inv.ofWorker (h : Inv S input s) {worker : WorkerControl J}
    (channel : List (HeavyJob J)) (out : List (WireOut J))
    (howed : (responseIds out ++ (channel.filterMap HeavyJob.id? ++ worker.owed)).Perm
      (responseIds s.out ++ (s.channel.filterMap HeavyJob.id? ++ s.worker.owed)))
    (hchannel : ChannelInv { s with worker := worker, channel := channel, out := out }) :
    Inv S input { s with worker := worker, channel := channel, out := out } := by
  refine ⟨h.consumed, ?_, h.loop, hchannel⟩
  refine List.Perm.trans ?_ h.answers
  rw [owed, owed]
  rw [List.perm_iff_count] at howed ⊢
  intro a
  have ha := howed a
  simp only [List.count_append] at ha ⊢
  omega

theorem ChannelInv.ofRunning {worker : WorkerControl J} {out : List (WireOut J)}
    (h : ChannelInv s) (hbefore : s.worker ≠ .exited) (hafter : worker ≠ .exited) :
    ChannelInv { s with worker := worker, out := out } := by
  unfold ChannelInv at h ⊢
  dsimp only at h ⊢
  cases hmain : s.main with
  | joining =>
      rw [hmain] at h
      rcases h with ⟨_, hjobs⟩ | ⟨hexited, _⟩
      · exact .inl ⟨hafter, hjobs⟩
      · exact absurd hexited hbefore
  | returned =>
      rw [hmain] at h
      exact absurd h.1 hbefore
  | _ =>
      rw [hmain] at h
      exact ⟨hafter, h.2⟩

/-- The worker takes a job. -/
theorem ChannelInv.receives {id : UInt64} {method : String} {params : J}
    {rest : List (HeavyJob J)} (h : ChannelInv s) (hworker : s.worker = .waiting)
    (hqueue : s.channel = .request id method params :: rest) :
    ChannelInv { s with worker := .handling id method params, channel := rest } := by
  unfold ChannelInv at h ⊢
  dsimp only at h ⊢
  cases hmain : s.main with
  | joining =>
      rw [hmain] at h
      rcases h with ⟨_, jobs, hjobs, hmarker⟩ | ⟨hexited, _⟩
      · refine .inl ⟨nofun, ?_⟩
        rw [hqueue] at hjobs
        cases jobs with
        | nil => cases hjobs
        | cons job jobs =>
            refine ⟨jobs, (List.cons_eq_cons.mp hjobs).2, ?_⟩
            exact fun hmem => hmarker (List.mem_cons_of_mem _ hmem)
      · cases hworker.symm.trans hexited
  | returned =>
      rw [hmain] at h
      cases hworker.symm.trans h.1
  | _ =>
      rw [hmain, hqueue] at h
      exact ⟨nofun, fun hmem => h.2 (List.mem_cons_of_mem _ hmem)⟩

/-- The marker ends the worker, and nothing is behind it. -/
theorem ChannelInv.ends {rest : List (HeavyJob J)} (h : ChannelInv s)
    (hworker : s.worker = .waiting) (hqueue : s.channel = .shutdown :: rest) :
    rest = [] ∧ s.main = .joining := by
  unfold ChannelInv at h
  cases hmain : s.main with
  | joining =>
      rw [hmain] at h
      rcases h with ⟨_, jobs, hjobs, hmarker⟩ | ⟨hexited, _⟩
      · rw [hqueue] at hjobs
        cases jobs with
        | nil => exact ⟨(List.cons_eq_cons.mp hjobs).2, rfl⟩
        | cons job jobs =>
            rw [← (List.cons_eq_cons.mp hjobs).1] at hmarker
            exact absurd List.mem_cons_self hmarker
      · cases hworker.symm.trans hexited
  | returned =>
      rw [hmain] at h
      cases hworker.symm.trans h.1
  | _ =>
      rw [hmain, hqueue] at h
      exact absurd List.mem_cons_self h.2

theorem Inv.workerReceives (h : Inv S input s) (hstep : step S s .workerReceives = some s') :
    Inv S input s' := by
  rw [step] at hstep
  split at hstep
  · rename_i id method params rest hworker hqueue
    cases hstep
    refine h.ofWorker _ s.out ?_ (h.channel.receives hworker hqueue)
    rw [hworker, hqueue, List.perm_iff_count]
    intro a
    simp only [List.count_append, List.filterMap_cons, HeavyJob.id?, WorkerControl.owed,
      List.count_cons, List.count_nil]
    omega
  · rename_i rest hworker hqueue
    cases hstep
    obtain ⟨rfl, hmain⟩ := h.channel.ends hworker hqueue
    refine h.ofWorker _ s.out ?_ ?_
    · rw [hworker, hqueue]
      exact .refl _
    · unfold ChannelInv
      dsimp only
      rw [hmain]
      exact .inr ⟨rfl, rfl⟩
  · rename_i hworker hqueue
    split at hstep
    · rename_i hmain
      have hchannel := h.channel
      simp only [ChannelInv, hmain, hqueue] at hchannel
      rcases hchannel with ⟨_, jobs, hjobs, _⟩ | ⟨hexited, _⟩
      · exact absurd hjobs (by simp)
      · cases hworker.symm.trans hexited
    · cases hstep
  · cases hstep

theorem Inv.workerHandled {handled : Option (RpcResponse J)} (h : Inv S input s)
    (hstep : step S s (.workerHandled handled) = some s') : Inv S input s' := by
  rw [step] at hstep
  split at hstep
  · rename_i id method params hworker
    have hrunning : s.worker ≠ .exited := by
      rw [hworker]
      exact nofun
    obtain ⟨wire, hid, rfl⟩ : ∃ wire, responseIds [wire] = [id] ∧
        s' = { s with worker := .writing wire } := by
      rcases runRequestCaught_responseId id method handled with
        ⟨wire, hwire, hid⟩ | ⟨wire, hwire, hid, _⟩
      all_goals
        rw [hwire] at hstep
        cases hstep
        exact ⟨wire, hid, rfl⟩
    refine h.ofWorker s.channel s.out ?_
      (h.channel.ofRunning hrunning nofun)
    have howed : (WorkerControl.writing wire).owed =
        (WorkerControl.handling id method params).owed := hid
    rw [hworker, howed]
  · cases hstep

theorem Inv.workerWrites (h : Inv S input s) (hstep : step S s .workerWrites = some s') :
    Inv S input s' := by
  rw [step] at hstep
  split at hstep
  · rename_i wire hworker
    cases hstep
    have hrunning : s.worker ≠ .exited := by
      rw [hworker]
      exact nofun
    refine h.ofWorker s.channel _ ?_
      (h.channel.ofRunning hrunning nofun)
    rw [hworker, List.perm_iff_count]
    intro a
    simp only [responseIds, List.filterMap_append, WorkerControl.owed, List.count_append,
      List.count_nil]
    omega
  · cases hstep

theorem inv_step {event : Event J} (h : Inv S input s) (hstep : step S s event = some s') :
    Inv S input s' := by
  cases event with
  | mainStarts version => exact h.mainStarts hstep
  | mainReads => exact h.mainReads hstep
  | mainHandled handled => exact h.mainHandled hstep
  | mainWrites => exact h.mainWrites hstep
  | mainSendsShutdown => exact h.mainSendsShutdown hstep
  | mainJoins => exact h.mainJoins hstep
  | workerReceives => exact h.workerReceives hstep
  | workerHandled handled => exact h.workerHandled hstep
  | workerWrites => exact h.workerWrites hstep

/-! ## Progress -/

/-- Only the join waits, and then the worker can go on. -/
theorem Inv.notStuck [Inhabited J] (h : Inv S input s) (hmain : s.main ≠ .returned) :
    ∃ event, (step S s event).isSome = true := by
  cases hcontrol : s.main with
  | starting => exact ⟨.mainStarts default, by simp [step, hcontrol]⟩
  | reading =>
      refine ⟨.mainReads, ?_⟩
      simp only [step, hcontrol]
      cases s.lines <;> rfl
  | handling id method params =>
      exact ⟨.mainHandled none, by simp [step, hcontrol, runRequestCaught]⟩
  | writing wire last => exact ⟨.mainWrites, by simp [step, hcontrol]⟩
  | draining => exact ⟨.mainSendsShutdown, by simp [step, hcontrol]⟩
  | returned => exact absurd hcontrol hmain
  | joining =>
      have hchannel := h.channel
      simp only [ChannelInv, hcontrol] at hchannel
      cases hworker : s.worker with
      | exited => exact ⟨.mainJoins, by simp [step, hcontrol, hworker]⟩
      | handling id method params =>
          exact ⟨.workerHandled none, by simp [step, hworker, runRequestCaught]⟩
      | writing wire => exact ⟨.workerWrites, by simp [step, hworker]⟩
      | waiting =>
          refine ⟨.workerReceives, ?_⟩
          simp only [step, hworker, hcontrol]
          cases s.channel with
          | nil => rfl
          | cons job rest => cases job <;> rfl

end

/-- An upper bound for the number of steps that are left. -/
def MainControl.stepsLeft : MainControl J → ℕ
  | .returned => 0
  | .joining => 1
  | .draining => 5
  | .reading => 6
  | .writing _ _ => 7
  | .handling _ _ _ => 8
  | .starting => 7

def WorkerControl.stepsLeft : WorkerControl J → ℕ
  | .exited => 0
  | .waiting => 1
  | .writing _ => 2
  | .handling _ _ _ => 3

def State.stepsLeft (s : State J) : ℕ :=
  4 * s.lines.length + s.main.stepsLeft + 3 * s.channel.length + s.worker.stepsLeft

section
variable {S : SerdeJson J} {s s' : State J} {line : String}

theorem answerInvalid_stepsLeft (S : SerdeJson J) (trimmed message : String) :
    (answerInvalid S trimmed message).stepsLeft ≤ 7 := by
  rw [answerInvalid]
  cases extractRequestId S trimmed with
  | none => exact Nat.le_succ 6
  | some id => exact le_rfl

theorem consumeLine_stepsLeft (S : SerdeJson J) (s : State J) (line : String) :
    (consumeLine S s line).stepsLeft ≤
      4 * s.lines.length + 9 + 3 * s.channel.length + s.worker.stepsLeft := by
  have hanswer : ∀ message, (answerInvalid S (trim line) message).stepsLeft ≤ 9 := fun message =>
    (answerInvalid_stepsLeft S _ message).trans (by omega)
  have hmain : ∀ main : MainControl J, main.stepsLeft ≤ 9 →
      ({ s with main := main } : State J).stepsLeft ≤
        4 * s.lines.length + 9 + 3 * s.channel.length + s.worker.stepsLeft := by
    intro main hle
    simp only [State.stepsLeft]
    omega
  rw [consumeLine]
  split
  · exact hmain _ (show 6 ≤ 9 by omega)
  · split
    · exact hmain _ (hanswer _)
    · cases S.wireIn (trim line) with
      | error error => exact hmain _ (hanswer _)
      | ok request =>
          obtain ⟨id, method, params⟩ := request
          dsimp only
          split
          · split
            · exact hmain _ (by simp [MainControl.stepsLeft])
            · simp only [State.stepsLeft, MainControl.stepsLeft, List.length_append,
                List.length_singleton]
              omega
          · exact hmain _ (by simp [MainControl.stepsLeft])

/-- Every step uses one up. -/
theorem stepsLeft_step {event : Event J} (hstep : step S s event = some s') :
    s'.stepsLeft < s.stepsLeft := by
  cases event with
  | mainReads =>
      rw [step] at hstep
      split at hstep
      · rename_i hmain
        split at hstep
        · cases hstep
          simp only [State.stepsLeft, hmain, MainControl.stepsLeft]
          omega
        · rename_i line rest hlines
          rw [← Option.some.inj hstep]
          refine (consumeLine_stepsLeft S _ line).trans_lt ?_
          simp only [State.stepsLeft, hmain, hlines, MainControl.stepsLeft, List.length_cons]
          omega
      · cases hstep
  | mainWrites =>
      rw [step] at hstep
      split at hstep
      · rename_i wire last hmain
        cases hstep
        have hleft :
            (if last = true then MainControl.draining else .reading : MainControl J).stepsLeft
              ≤ 6 := by
          cases last with
          | true => exact Nat.le_succ 5
          | false => exact le_rfl
        have hwriting : (MainControl.writing wire last).stepsLeft = 7 := rfl
        simp only [State.stepsLeft, hmain, hwriting]
        omega
      · cases hstep
  | mainHandled handled =>
      rw [step] at hstep
      split at hstep
      · rename_i id method params hmain
        split at hstep <;> cases hstep <;>
          simp only [State.stepsLeft, hmain, MainControl.stepsLeft] <;> omega
      · cases hstep
  | workerHandled handled =>
      rw [step] at hstep
      split at hstep
      · rename_i id method params hworker
        split at hstep <;> cases hstep <;>
          simp only [State.stepsLeft, hworker, WorkerControl.stepsLeft] <;> omega
      · cases hstep
  | workerReceives =>
      rw [step] at hstep
      split at hstep
      · rename_i id method params rest hworker hqueue
        cases hstep
        simp only [State.stepsLeft, hworker, hqueue, WorkerControl.stepsLeft, List.length_cons]
        omega
      · rename_i rest hworker hqueue
        cases hstep
        simp only [State.stepsLeft, hworker, hqueue, WorkerControl.stepsLeft, List.length_cons]
        omega
      · rename_i hworker hqueue
        split at hstep
        · cases hstep
          simp only [State.stepsLeft, hworker, WorkerControl.stepsLeft]
          omega
        · cases hstep
      · cases hstep
  | mainStarts version =>
      rw [step] at hstep
      split at hstep
      · rename_i hmain
        cases hstep
        simp only [State.stepsLeft, hmain, MainControl.stepsLeft]
        omega
      · cases hstep
  | mainSendsShutdown =>
      rw [step] at hstep
      split at hstep
      · rename_i hmain
        cases hstep
        simp only [State.stepsLeft, hmain, MainControl.stepsLeft, List.length_append,
          List.length_singleton]
        omega
      · cases hstep
  | mainJoins =>
      rw [step] at hstep
      split at hstep
      · rename_i hmain hworker
        cases hstep
        simp only [State.stepsLeft, hmain, MainControl.stepsLeft]
        omega
      · cases hstep
  | workerWrites =>
      rw [step] at hstep
      split at hstep
      · rename_i wire hworker
        cases hstep
        simp only [State.stepsLeft, hworker, WorkerControl.stepsLeft]
        omega
      · cases hstep

end

/-! ## Every run -/

/-- No run is longer than the input allows. -/
theorem length_add_stepsLeft_le (S : SerdeJson J) {events : List (Event J)} {s s' : State J}
    (hrun : Run (step S) Always s events s') :
    events.length + s'.stepsLeft ≤ s.stepsLeft := by
  induction hrun with
  | refl => simp
  | tail _ hstep _ ih =>
      have hlt := stepsLeft_step hstep
      rw [List.length_append, List.length_singleton]
      omega

/-- Every line is answered once, whatever the threads do. -/
theorem answersOnce_of_run [Inhabited J] (S : SerdeJson J) {input : List String}
    {events : List (Event J)} {s : State J}
    (hrun : Run (step S) Always (State.initial input) events s) : AnswersOnce S input s := by
  have h : Inv S input s :=
    hrun.invariant (Inv S input) (inv_initial S input) fun _ _ _ hinv hstep _ => inv_step hinv hstep
  have hloop := h.loop
  constructor
  case consumed => exact h.consumed
  case noOther => exact (List.sublist_append_left _ _).subperm.trans h.answers.subperm
  case readsOn =>
    intro hmain
    simpa only [LoopInv, hmain] using hloop
  case returned =>
    intro hmain
    have hchannel := h.channel
    have hanswers := h.answers
    simp only [LoopInv, ChannelInv, hmain] at hloop hchannel
    simp only [owed, hmain, hchannel.1, hchannel.2, MainControl.owed, WorkerControl.owed,
      List.filterMap_nil, List.append_nil] at hanswers
    exact ⟨hanswers, hloop⟩
  case notStuck => exact h.notStuck

/-! ## Sample runs -/

/-- `\x7b"type":"request","id":…,"method":…\x7d`. -/
def requestText (id : ℕ) (method : String) : String :=
  "\x7b\"type\":\"request\",\"id\":" ++ Nat.repr id ++ ",\"method\":\"" ++ method ++ "\"\x7d"

def shutdownText : String := requestText 1 "app_shutdown"
def infoText : String := requestText 2 "app_info"

/-- A request in the form of an array, with white space after the bracket. -/
def arrayText (spaces : List Char) : String :=
  String.ofList ('[' :: spaces ++ "\"request\",3,\"app_info\",null".toList ++ [']'])

/-- The three texts that occur, with a value reduced to its `id`.  An array has
none, and `serde` takes one for the request with these fields in order. -/
def sampleSerde (arrayText : String) : SerdeJson (Option UInt64) where
  value text :=
    if text = shutdownText then .ok (some 1)
    else if text = infoText then .ok (some 2)
    else if text = arrayText then .ok none
    else .error "expected value"
  wireIn text :=
    if text = shutdownText then .ok (.request 1 "app_shutdown" none)
    else if text = infoText then .ok (.request 2 "app_info" none)
    else if text = arrayText then .ok (.request 3 "app_info" none)
    else .error "expected value"
  getId value := value

/-- The handler of `app_shutdown` panics, and the loop reads on. -/
def panicEvents : List (Event (Option UInt64)) :=
  [.mainStarts none, .mainReads, .mainHandled none, .mainWrites, .mainReads,
    .mainHandled (some ⟨true, none, none⟩), .mainWrites, .mainReads, .mainSendsShutdown,
    .workerReceives, .mainJoins]

theorem answersOnce_of_run_sample :
    ∃ s, Run (step (sampleSerde (arrayText []))) Always (State.initial [shutdownText, infoText])
        panicEvents s ∧
      AnswersOnce (sampleSerde (arrayText [])) [shutdownText, infoText] s := by
  obtain ⟨s, hrun, _⟩ := exists_run_of_execute (step (sampleSerde (arrayText []))) Always
    panicEvents (State.initial [shutdownText, infoText]) (fun _ => true) (by decide +kernel)
  exact ⟨s, hrun, answersOnce_of_run (sampleSerde (arrayText [])) hrun⟩

theorem length_le_utf8ByteSize (cs : List Char) : cs.length ≤ (String.ofList cs).utf8ByteSize := by
  induction cs with
  | nil => exact Nat.zero_le _
  | cons c cs ih =>
      have hcons : String.ofList (c :: cs) = String.ofList [c] ++ String.ofList cs := by
        rw [← String.ofList_append, List.singleton_append]
      have hone : (String.ofList [c]).utf8ByteSize = c.utf8Size := String.utf8ByteSize_singleton
      rw [hcons, String.utf8ByteSize_append, hone, List.length_cons]
      have hpos := c.utf8Size_pos
      omega

theorem trim_arrayText (spaces : List Char) : trim (arrayText spaces) = arrayText spaces := by
  have hends : ∀ inner : List Char,
      trimChars ('[' :: inner ++ [']']) = '[' :: inner ++ [']'] := by
    intro inner
    have hstart : ('[' :: inner ++ [']']).dropWhile isWhitespace = '[' :: inner ++ [']'] := rfl
    rw [trimChars, hstart, trimEndChars, List.rdropWhile_concat_neg _ _ _ (by decide)]
  rw [trim, arrayText, String.toList_ofList, List.cons_append, hends]

theorem lt_utf8ByteSize_arrayText {spaces : List Char}
    (hspaces : MAX_REQUEST_LINE_BYTES ≤ spaces.length) :
    MAX_REQUEST_LINE_BYTES < (arrayText spaces).utf8ByteSize := by
  refine lt_of_lt_of_le ?_ (length_le_utf8ByteSize _)
  rw [List.length_append, List.length_append, List.length_cons]
  omega

theorem arrayText_ne {spaces : List Char} (hspaces : MAX_REQUEST_LINE_BYTES ≤ spaces.length)
    {text : String} (htext : text.utf8ByteSize ≤ MAX_REQUEST_LINE_BYTES) :
    arrayText spaces ≠ text := by
  rintro rfl
  exact absurd (lt_utf8ByteSize_arrayText hspaces) (Nat.not_lt.mpr htext)

theorem wireIn_arrayText {spaces : List Char}
    (hspaces : MAX_REQUEST_LINE_BYTES ≤ spaces.length) :
    (sampleSerde (arrayText spaces)).wireIn (trim (arrayText spaces)) =
      .ok (.request 3 "app_info" none) := by
  rw [trim_arrayText, sampleSerde]
  dsimp only
  rw [if_neg (arrayText_ne hspaces (by decide +kernel)),
    if_neg (arrayText_ne hspaces (by decide +kernel)), if_pos rfl]

/-- An array of more than 1 MiB is not parsed, and shows no id. -/
theorem consumeLine_arrayText {spaces : List Char}
    (hspaces : MAX_REQUEST_LINE_BYTES ≤ spaces.length) (s : State (Option UInt64)) :
    consumeLine (sampleSerde (arrayText spaces)) s (arrayText spaces) =
      { s with main := .reading } := by
  have hempty : (arrayText spaces).isEmpty ≠ true := by
    rw [ne_eq, String.isEmpty_iff]
    exact arrayText_ne hspaces (Nat.zero_le _)
  have hid : extractRequestId (sampleSerde (arrayText spaces)) (arrayText spaces) = none := by
    rw [extractRequestId, sampleSerde]
    dsimp only
    rw [if_neg (arrayText_ne hspaces (by decide +kernel)),
      if_neg (arrayText_ne hspaces (by decide +kernel)), if_pos rfl]
  rw [consumeLine, trim_arrayText]
  rw [if_neg hempty, if_pos (lt_utf8ByteSize_arrayText hspaces), answerInvalid, hid]

/-- The daemon reads the array and the end of the input, and returns. -/
theorem exists_run_arrayText {spaces : List Char}
    (hspaces : MAX_REQUEST_LINE_BYTES ≤ spaces.length) :
    ∃ s, Run (step (sampleSerde (arrayText spaces))) Always (State.initial [arrayText spaces])
        [.mainStarts none, .mainReads, .mainReads, .mainSendsShutdown, .workerReceives,
          .mainJoins] s ∧ s.main = .returned ∧ responseIds s.out = [] := by
  have hreads : ∀ s : State (Option UInt64), s.main = .reading → s.lines = [arrayText spaces] →
      step (sampleSerde (arrayText spaces)) s .mainReads =
        some { s with lines := [], consumed := s.consumed ++ [arrayText spaces] } := by
    intro s hmain hlines
    simp only [step, hmain, hlines, consumeLine_arrayText hspaces]
  refine ⟨_, .cons rfl trivial (.cons (hreads _ rfl rfl) trivial (.cons rfl trivial
    (.cons rfl trivial (.cons rfl trivial (.cons rfl trivial (.refl _)))))), rfl, rfl⟩

/-- A panic in `app_shutdown` lets later lines be answered, and an array of
more than 1 MiB is a request without an answer. -/
theorem unexpected_answers :
    (∃ s, Run (step (sampleSerde (arrayText []))) Always (State.initial [shutdownText, infoText])
        panicEvents s ∧
      (sampleSerde (arrayText [])).wireIn (trim shutdownText) =
        .ok (.request 1 "app_shutdown" none) ∧
      s.main = .returned ∧ responseIds s.out = [1, 2]) ∧
    ∃ line s, Run (step (sampleSerde line)) Always (State.initial [line])
        [.mainStarts none, .mainReads, .mainReads, .mainSendsShutdown, .workerReceives,
          .mainJoins] s ∧
      (sampleSerde line).wireIn (trim line) = .ok (.request 3 "app_info" none) ∧
      s.main = .returned ∧ responseIds s.out = [] := by
  constructor
  · obtain ⟨s, hrun, htest⟩ := exists_run_of_execute (step (sampleSerde (arrayText []))) Always
      panicEvents (State.initial [shutdownText, infoText])
      (fun s => decide (s.main = .returned ∧ responseIds s.out = [1, 2])) (by decide +kernel)
    exact ⟨s, hrun, by decide +kernel, of_decide_eq_true htest⟩
  · have hspaces : MAX_REQUEST_LINE_BYTES ≤
        (List.replicate MAX_REQUEST_LINE_BYTES ' ').length := by
      rw [List.length_replicate]
    obtain ⟨s, hrun, hreturned⟩ := exists_run_arrayText hspaces
    exact ⟨_, s, hrun, wireIn_arrayText hspaces, hreturned⟩

end Upriv.Daemon
