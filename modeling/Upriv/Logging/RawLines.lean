import Upriv.Logging.RawWriter

/-!
# Writing lines on a failing system

What the buffered writes of a log file leave in the file and in the buffer, whatever
system calls are refused.  A line stands by itself if what it is appended to ends in a
line break.
-/

namespace Upriv.Logging.Raw

open FallibleM

/-! ## Lines in bytes -/

/-- Empty, or with a line break at the end. -/
def EndsLine (bytes : Bytes) : Prop := ∀ b ∈ bytes.getLast?, b = 0x0A

/-- The last physical line is this line. -/
def OwnLine (bytes : Bytes) (line : List Char) : Prop :=
  0x0A ∉ utf8 line ∧ ∃ before, bytes = before ++ utf8 line ++ [0x0A] ∧ EndsLine before

theorem endsLine_nil : EndsLine [] := by
  intro b hb
  cases hb

theorem endsLine_append_newline (bytes : Bytes) : EndsLine (bytes ++ [0x0A]) := by
  intro b hb
  rw [List.getLast?_append, List.getLast?_singleton, Option.some_or, Option.mem_some] at hb
  exact hb.symm

/-! ## Failing only with the system -/

/-- The error is one of the file system. -/
def BySystem (error : LogError) : Prop := ∃ io, error = .system io

/-- `x` ends as `Good` says, or with an error of the file system when more than `n` calls
have failed. -/
def Ends {α : Type} (n : ℕ) (x : LogM α) (s : LogState) (Good : α → LogState → Prop) : Prop :=
  match x.exec s with
  | (.ok a, s') => n ≤ s'.failed ∧ Good a s'
  | (.error error, s') => BySystem error ∧ n < s'.failed

section
variable {α β : Type} {sys : LogSystem} {n : ℕ} {s s' : LogState}
  {Good Good' : α → LogState → Prop}

theorem Ends.ok {x : LogM α} {a : α} (h : Ends n x s Good) (hrun : x.exec s = (.ok a, s')) :
    n ≤ s'.failed ∧ Good a s' := by
  rwa [Ends, hrun] at h

theorem Ends.error {x : LogM α} {error : LogError} (h : Ends n x s Good)
    (hrun : x.exec s = (.error error, s')) : BySystem error ∧ n < s'.failed := by
  rwa [Ends, hrun] at h

theorem ends_of_ok {x : LogM α} {a : α} (hrun : x.exec s = (.ok a, s'))
    (hle : n ≤ s'.failed) (h : Good a s') : Ends n x s Good := by
  rw [Ends, hrun]
  exact ⟨hle, h⟩

theorem ends_of_error {x : LogM α} {error : LogError} (hrun : x.exec s = (.error error, s'))
    (hsystem : BySystem error) (hlt : n < s'.failed) : Ends n x s Good := by
  rw [Ends, hrun]
  exact ⟨hsystem, hlt⟩

theorem ends_congr {x y : LogM α} (hrun : x.exec s = y.exec s') (h : Ends n y s' Good) :
    Ends n x s Good := by
  rwa [Ends, hrun]

theorem ends_pure {a : α} (hle : n ≤ s.failed) (h : Good a s) : Ends n (pure a) s Good :=
  ends_of_ok (exec_pure a s) hle h

theorem ends_throw {error : LogError} (hsystem : BySystem error) (hlt : n < s.failed) :
    Ends n (throw error) s Good :=
  ends_of_error (exec_throw error s) hsystem hlt

theorem Ends.mono {x : LogM α} (h : Ends n x s Good)
    (hgood : ∀ a s', n ≤ s'.failed → Good a s' → Good' a s') : Ends n x s Good' := by
  rcases hrun : x.exec s with ⟨error | a, s'⟩
  · obtain ⟨hsystem, hlt⟩ := h.error hrun
    exact ends_of_error hrun hsystem hlt
  · obtain ⟨hle, ha⟩ := h.ok hrun
    exact ends_of_ok hrun hle (hgood a s' hle ha)

theorem Ends.bind {x : LogM α} {f : α → LogM β} {Good' : β → LogState → Prop}
    (h : Ends n x s Good) (hf : ∀ a s', n ≤ s'.failed → Good a s' → Ends n (f a) s' Good') :
    Ends n (x >>= f) s Good' := by
  rcases hrun : x.exec s with ⟨error | a, s'⟩
  · obtain ⟨hsystem, hlt⟩ := h.error hrun
    exact ends_of_error (exec_bind_of_error hrun f) hsystem hlt
  · obtain ⟨hle, ha⟩ := h.ok hrun
    exact ends_congr (exec_bind_of_ok hrun f) (hf a s' hle ha)

theorem ends_attempt_bind {x : LogM α} {f : Except LogError α → LogM β} {r : Except LogError α}
    {Good' : β → LogState → Prop} (hrun : x.exec s = (r, s')) (h : Ends n (f r) s' Good') :
    Ends n (FallibleM.attempt x >>= f) s Good' := by
  refine ends_congr ?_ h
  rw [exec_attempt_bind, hrun]

theorem ends_get (hle : n ≤ s.failed) : Ends n (get : LogM LogState) s fun t s' => t = s ∧ s' = s :=
  ends_of_ok (exec_get s) hle ⟨rfl, rfl⟩

theorem ends_setActive (active : Option ActiveFile) (hle : n ≤ s.failed) :
    Ends n (setActive active) s fun _ s' => s' = { s with active } :=
  ends_of_ok (exec_modify _ s) hle rfl

theorem ends_osCall {f : LogsDisk → Except IoError (α × LogsDisk)} (hle : n ≤ s.failed)
    (h : ∀ a disk, f s.disk = .ok (a, disk) → Good a { s with disk, calls := s.calls + 1 }) :
    Ends n (osCall sys f) s Good := by
  have hfail : ∀ io, (osCall sys f).exec s =
      (.error (.system io), { s with calls := s.calls + 1, failed := s.failed + 1 }) →
      Ends n (osCall sys f) s Good :=
    fun io hrun => ends_of_error hrun ⟨io, rfl⟩ (Nat.lt_succ_of_le hle)
  cases hrefused : sys.refused s.calls with
  | some io =>
      refine hfail io ?_
      simp only [osCall, exec_op, hrefused]
  | none =>
      rcases hf : f s.disk with io | ⟨a, disk⟩
      · refine hfail io ?_
        simp only [osCall, exec_op, hrefused, hf]
      · have hrun : (osCall sys f).exec s = (.ok a, { s with disk, calls := s.calls + 1 }) := by
          simp only [osCall, exec_op, hrefused, hf]
        exact ends_of_ok hrun hle (h a disk hf)

end

section
variable {config : LogConfig} {sys : LogSystem} {n : ℕ}

/-! ## Writing bytes -/

theorem lookup_append_self {disk : LogsDisk} {name : List Char} {old : Bytes}
    (h : disk.lookup name = some old) (bytes : Bytes) :
    (disk.append name bytes).lookup name = some (old ++ bytes) := by
  rw [LogsDisk.append, h]
  exact AList.lookup_insert _

/-- File and buffer together hold these bytes. -/
def Holds (disk : LogsDisk) (active : ActiveFile) (content : Bytes) : Prop :=
  ∃ bytes, disk.lookup active.name = some bytes ∧ bytes ++ active.pending = content

/-- What an operation on an open file leaves alone, and how it fails. -/
structure Wrote (s s' : LogState) (active active' : ActiveFile) (answer : Except LogError Unit) :
    Prop where
  name : active'.name = active.name
  seq : active'.seq = active.seq
  active : s'.active = s.active
  failed_le : s.failed ≤ s'.failed
  error : ∀ e, answer = .error e → BySystem e ∧ s.failed < s'.failed

theorem Wrote.refl (s : LogState) {active active' : ActiveFile}
    (hname : active'.name = active.name) (hseq : active'.seq = active.seq) :
    Wrote s s active active' (.ok ()) where
  name := hname
  seq := hseq
  active := rfl
  failed_le := le_refl _
  error := nofun

theorem Wrote.trans {s s' s'' : LogState} {active active' active'' : ActiveFile}
    {answer : Except LogError Unit} (h : Wrote s s' active active' (.ok ()))
    (h' : Wrote s' s'' active' active'' answer) : Wrote s s'' active active'' answer where
  name := h'.name.trans h.name
  seq := h'.seq.trans h.seq
  active := h'.active.trans h.active
  failed_le := h.failed_le.trans h'.failed_le
  error e he := ⟨(h'.error e he).1, lt_of_le_of_lt h.failed_le (h'.error e he).2⟩

theorem exec_writeFile (active : ActiveFile) (bytes : Bytes) (s : LogState) :
    ∃ answer rest s', (writeFile sys active.name bytes).exec s = (.ok (answer, rest), s') ∧
      Wrote s s' active { active with pending := rest } answer ∧
      (answer = .ok () → rest = []) ∧
      ∀ old, s.disk.lookup active.name = some old →
        ∃ kept, bytes = kept ++ rest ∧ s'.disk.lookup active.name = some (old ++ kept) := by
  simp only [writeFile, exec_op]
  cases sys.refused s.calls with
  | none =>
      refine ⟨.ok (), [], _, rfl, ⟨rfl, rfl, rfl, le_refl _, nofun⟩, fun _ => rfl,
        fun old hold => ?_⟩
      exact ⟨bytes, (List.append_nil _).symm, lookup_append_self hold bytes⟩
  | some io =>
      refine ⟨.error (.system io), _, _, rfl, ⟨rfl, rfl, rfl, Nat.le_succ _, ?_⟩, nofun,
        fun old hold => ?_⟩
      · rintro e ⟨⟩
        exact ⟨⟨io, rfl⟩, Nat.lt_succ_self _⟩
      · exact ⟨_, (List.take_append_drop _ _).symm, lookup_append_self hold _⟩

theorem exec_flushBuf (active : ActiveFile) (s : LogState) :
    ∃ answer active' s', (flushBuf sys active).exec s = (.ok (answer, active'), s') ∧
      Wrote s s' active active' answer ∧ (answer = .ok () → active'.pending = []) ∧
      ∀ content, Holds s.disk active content → Holds s'.disk active' content := by
  rw [flushBuf]
  split
  · rename_i hempty
    exact ⟨.ok (), active, s, rfl, .refl s rfl rfl, fun _ => hempty, fun _ h => h⟩
  · obtain ⟨answer, rest, s', hrun, hwrote, hrest, hkept⟩ :=
      @exec_writeFile sys active active.pending s
    refine ⟨answer, { active with pending := rest }, s', ?_, hwrote, hrest, ?_⟩
    · rw [exec_bind_of_ok hrun]
      rfl
    · rintro content ⟨old, hold, rfl⟩
      obtain ⟨kept, hpending, hnew⟩ := hkept old hold
      exact ⟨_, hnew, by rw [hpending, List.append_assoc]⟩

/-- Room for more than the buffer can take is an empty buffer. -/
theorem exec_makeRoom (active : ActiveFile) (count : ℕ) (s : LogState) :
    ∃ answer active' s', (makeRoom sys active count).exec s = (.ok (answer, active'), s') ∧
      Wrote s s' active active' answer ∧
      (answer = .ok () → BUFFER_CAPACITY ≤ count → active'.pending = []) ∧
      ∀ content, Holds s.disk active content → Holds s'.disk active' content := by
  rw [makeRoom]
  split
  · obtain ⟨answer, a, s', hrun, hwrote, hempty, hholds⟩ := @exec_flushBuf sys active s
    exact ⟨answer, a, s', hrun, hwrote, fun hok _ => hempty hok, hholds⟩
  · rename_i hspare
    refine ⟨.ok (), active, s, rfl, .refl s rfl rfl, fun _ hlarge => ?_, fun _ h => h⟩
    have hcapacity : 0 < BUFFER_CAPACITY := by decide
    rw [← List.length_eq_zero_iff]
    omega

/-- The bytes go into the buffer, or past the flushed buffer into the file. -/
theorem exec_writeAll (active : ActiveFile) (bytes : Bytes) (s : LogState) :
    ∃ answer active' s', (writeAll sys active bytes).exec s = (.ok (answer, active'), s') ∧
      Wrote s s' active active' answer ∧
      (answer = .ok () → ∀ content, Holds s.disk active content →
        Holds s'.disk active' (content ++ bytes)) := by
  have hpush : ∀ (a : ActiveFile) (disk : LogsDisk) content, Holds disk a content →
      Holds disk { a with pending := a.pending ++ bytes } (content ++ bytes) := by
    rintro a disk content ⟨old, hold, rfl⟩
    exact ⟨old, hold, (List.append_assoc _ _ _).symm⟩
  rw [writeAll]
  dsimp only
  split
  · exact ⟨.ok (), _, s, rfl, .refl s rfl rfl, fun _ => hpush active s.disk⟩
  · obtain ⟨answer, a, s₁, hrun, hwrote, hempty, hholds⟩ :=
      @exec_makeRoom sys active bytes.length s
    rw [exec_bind_of_ok hrun]
    cases answer with
    | error e => exact ⟨.error e, a, s₁, rfl, hwrote, nofun⟩
    | ok u =>
        dsimp only
        split
        · rename_i hlarge
          obtain ⟨answer, rest, s₂, hrun', hwrote', hrest, hkept⟩ :=
            @exec_writeFile sys a bytes s₁
          refine ⟨answer, a, s₂, ?_, ?_, ?_⟩
          · rw [exec_bind_of_ok hrun']
            rfl
          · exact hwrote.trans ⟨rfl, rfl, hwrote'.active, hwrote'.failed_le, hwrote'.error⟩
          · intro hok content hcontent
            obtain ⟨old, hold, rfl⟩ := hholds content hcontent
            obtain ⟨kept, hbytes, hnew⟩ := hkept old hold
            rw [hrest hok, List.append_nil] at hbytes
            have hnone : a.pending = [] := hempty rfl hlarge
            exact ⟨_, hnew, by rw [hnone, hbytes, List.append_nil, List.append_nil]⟩
        · exact ⟨.ok (), _, s₁, rfl, hwrote.trans (.refl s₁ rfl rfl),
            fun _ content hcontent => hpush a s₁.disk content (hholds content hcontent)⟩

theorem exec_writeln (active : ActiveFile) (line : List Char) (s : LogState) :
    ∃ answer active' s', (writeln sys active line).exec s = (.ok (answer, active'), s') ∧
      Wrote s s' active active' answer ∧
      (answer = .ok () → ∀ content, Holds s.disk active content →
        Holds s'.disk active' (content ++ utf8 line ++ [0x0A])) := by
  obtain ⟨answer, a, s₁, hrun, hwrote, hholds⟩ := @exec_writeAll sys active (utf8 line) s
  rw [writeln, exec_bind_of_ok hrun]
  cases answer with
  | error e => exact ⟨.error e, a, s₁, rfl, hwrote, nofun⟩
  | ok u =>
      obtain ⟨answer, a', s₂, hrun', hwrote', hholds'⟩ := @exec_writeAll sys a [0x0A] s₁
      exact ⟨answer, a', s₂, hrun', hwrote.trans hwrote',
        fun hok content hcontent => hholds' hok _ (hholds rfl content hcontent)⟩

/-! ## Putting a line -/

/-- The writer has taken the line, behind what was there. -/
structure HasPut (s s' : LogState) (before after : ActiveFile) (put : Put) : Prop where
  active : s'.active = some after
  name : after.name = before.name
  line : 0x0A ∉ utf8 put.line
  flushed : put.flushed = .ok () → after.pending = []
  unflushed : ∀ e, put.flushed = .error e → BySystem e ∧ s.failed < s'.failed
  holds : ∀ content, Holds s.disk before content →
    Holds s'.disk after (content ++ utf8 put.line ++ [0x0A])

theorem ends_putLine (active : ActiveFile) {line : List Char} (hline : 0x0A ∉ utf8 line)
    {s : LogState} (hle : n ≤ s.failed) :
    Ends n (putLine sys active line) s fun put s' =>
      put.line = line ∧ ∃ after, HasPut s s' active after put := by
  obtain ⟨answer, a, s₁, hrun, hwrote, hholds⟩ := @exec_writeln sys active line s
  cases answer with
  | error e =>
      obtain ⟨hsystem, hlt⟩ := hwrote.error e rfl
      have hput : (putLine sys active line).exec s =
          (.error e, { s₁ with active := some a }) := by
        rw [putLine, exec_bind_of_ok hrun]
        rfl
      exact ends_of_error hput hsystem (lt_of_le_of_lt hle hlt)
  | ok u =>
      obtain ⟨flushed, a', s₂, hrun', hwrote', hempty, hholds'⟩ :=
        @exec_flushBuf sys a { s₁ with active := some a }
      have hput : (putLine sys active line).exec s =
          (.ok ⟨line, flushed⟩, { s₂ with active := some a' }) := by
        have hset : (setActive (some a)).exec s₁ = (.ok (), { s₁ with active := some a }) := rfl
        rw [putLine, exec_bind_of_ok hrun]
        dsimp only
        rw [exec_bind_of_ok hset, exec_bind_of_ok hrun']
        rfl
      refine ends_of_ok hput (hle.trans (hwrote.failed_le.trans hwrote'.failed_le)) ⟨rfl, a', ?_⟩
      exact {
        active := rfl
        name := hwrote'.name.trans hwrote.name
        line := hline
        flushed := hempty
        unflushed e he :=
          ⟨(hwrote'.error e he).1, lt_of_le_of_lt hwrote.failed_le (hwrote'.error e he).2⟩
        holds content hcontent := hholds' _ (hholds rfl content hcontent) }

/-- The line says what the message says. -/
def LineOf (message : LogMessage) (line : List Char) : Prop :=
  ∃ index timestamp,
    line = formatLogLine index timestamp message.level message.event message.fields

theorem ends_writeNext (message : LogMessage) (active : ActiveFile) {s : LogState}
    (hle : n ≤ s.failed) :
    Ends n (writeNext sys message active) s fun put s' =>
      LineOf message put.line ∧ ∃ after, HasPut s s' active after put := by
  rcases hclock : sys.clock s.calls with ⟨seconds, millis⟩
  have hrun : (writeNext sys message active).exec s =
      (putLine sys { active with lineIndex := active.lineIndex + 1 }
        (formatLogLine (active.lineIndex + 1).toNat (utcTimestampIsoMillis seconds millis)
          message.level message.event message.fields)).exec s := by
    rw [writeNext, exec_bind_of_ok (exec_get s)]
    simp only [hclock]
  have hput := @ends_putLine sys n { active with lineIndex := active.lineIndex + 1 } _
    (newline_notMem_utf8 (newline_not_mem_formatLogLine
      (newline_not_mem_isoMillis (utcYmdhms seconds) millis) (active.lineIndex + 1).toNat
      message.level message.event message.fields)) _ hle
  refine ends_congr hrun (hput.mono ?_)
  rintro put s' - ⟨hline, after, h⟩
  exact ⟨⟨_, _, hline⟩, after, h.active, h.name, h.line, h.flushed, h.unflushed, h.holds⟩

end

end Upriv.Logging.Raw
