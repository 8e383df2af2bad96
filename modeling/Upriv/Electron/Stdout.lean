import Upriv.Support.CodeUnits
import Upriv.Support.Framing

/-!
# The lines of the daemon

The handler of `daemon.ts` for the data of the daemon's stdout.  Each data event adds
a chunk to the buffer; the handler drops the buffer when it is too long, and gives its
complete lines to `handleLine` otherwise.
-/

namespace Upriv.Electron

def MAX_STDOUT_BUFFER_CHARS : ℕ := 8 * 1024 * 1024

def stdoutBufferExceeded (length : ℕ) : Bool := MAX_STDOUT_BUFFER_CHARS < length

/-- `"\n"`. -/
def NEWLINE : UInt16 := 10

structure Stdout where
  buffer : JsString
  /-- The arguments of `handleLine`, in order. -/
  handled : List JsString
  deriving DecidableEq, Repr

def Stdout.initial : Stdout := ⟨[], []⟩

/-- The loop over `buffer.indexOf("\n")`. -/
def handleLines (s : Stdout) : Stdout :=
  match _ : s.buffer.idxOf? NEWLINE with
  | none => s
  | some newlineIndex =>
    handleLines
      { buffer := s.buffer.drop (newlineIndex + 1)
        handled := s.handled ++ [jsTrim (s.buffer.take newlineIndex)] }
termination_by s.buffer.length
decreasing_by
  rename_i hindex
  obtain ⟨hlt, -⟩ := List.idxOf?_eq_some_iff.mp hindex
  rw [List.length_drop]
  omega

def onData (s : Stdout) (chunk : JsString) : Stdout :=
  let buffer := s.buffer ++ chunk
  if stdoutBufferExceeded buffer.length then { s with buffer := [] }
  else handleLines { s with buffer := buffer }

def readStdout (chunks : List JsString) : Stdout := chunks.foldl onData Stdout.initial

/-! ## One data event -/

/-- The trimmed lines of a stream. -/
def streamLines (stream : JsString) : List JsString := (complete NEWLINE stream).map jsTrim

theorem handleLines_eq (s : Stdout) :
    handleLines s = ⟨unfinished NEWLINE s.buffer, s.handled ++ streamLines s.buffer⟩ := by
  obtain ⟨buffer, handled⟩ := s
  induction buffer using framing_induction NEWLINE generalizing handled with
  | last buffer h =>
    rw [handleLines, streamLines, unfinished_of_not_mem h, complete_of_not_mem h]
    split
    · rw [List.map_nil, List.append_nil]
    · rename_i newlineIndex hindex
      rw [List.idxOf?_eq_none_iff.mpr h] at hindex
      cases hindex
  | piece line rest hline ih =>
    have hindex : (line ++ NEWLINE :: rest).idxOf? NEWLINE = some line.length := by
      rw [List.idxOf?_eq_some_iff]
      refine ⟨by simp, by simp, ?_⟩
      intro j hj heq
      rw [List.getElem_append_left hj] at heq
      exact hline (heq ▸ List.getElem_mem hj)
    have hdrop : (line ++ NEWLINE :: rest).drop (line.length + 1) = rest := by simp
    rw [handleLines]
    split
    · rename_i hnone
      rw [hindex] at hnone
      cases hnone
    · rename_i newlineIndex hsome
      rw [hindex, Option.some.injEq] at hsome
      subst hsome
      rw [hdrop, List.take_left, ih, streamLines, streamLines, unfinished_append_sep hline,
        complete_append_sep hline, List.map_cons, List.append_assoc, List.singleton_append]

theorem streamLines_of_not_mem {stream : JsString} (h : NEWLINE ∉ stream) :
    streamLines stream = [] := by
  rw [streamLines, complete_of_not_mem h, List.map_nil]

theorem streamLines_append (front back : JsString) :
    streamLines (front ++ back) =
      streamLines front ++ streamLines (unfinished NEWLINE front ++ back) := by
  rw [streamLines, complete_append, List.map_append, streamLines, streamLines]

theorem length_streamLines (stream : JsString) :
    (streamLines stream).length = stream.count NEWLINE := by
  rw [streamLines, List.length_map, length_complete]

section Event

variable {buffer chunk : JsString} {handled : List JsString}

theorem onData_of_le (h : buffer.length + chunk.length ≤ MAX_STDOUT_BUFFER_CHARS) :
    onData ⟨buffer, handled⟩ chunk =
      ⟨unfinished NEWLINE (buffer ++ chunk), handled ++ streamLines (buffer ++ chunk)⟩ := by
  have hnot : ¬ stdoutBufferExceeded (buffer ++ chunk).length = true := by
    rw [stdoutBufferExceeded, List.length_append, decide_eq_true_eq]
    omega
  simp only [onData]
  rw [if_neg hnot, handleLines_eq]

/-- The whole buffer is dropped, its complete lines too. -/
theorem onData_of_lt (h : MAX_STDOUT_BUFFER_CHARS < buffer.length + chunk.length) :
    onData ⟨buffer, handled⟩ chunk = ⟨[], handled⟩ := by
  have hexceeded : stdoutBufferExceeded (buffer ++ chunk).length = true := by
    rw [stdoutBufferExceeded, List.length_append, decide_eq_true_eq]
    exact h
  simp only [onData]
  rw [if_pos hexceeded]

end Event

/-! ## Runs -/

theorem foldl_onData_quiet {buffer : JsString} {handled chunks : List JsString}
    (hbuffer : NEWLINE ∉ buffer) (h : NEWLINE ∉ chunks.flatten) :
    (chunks.foldl onData ⟨buffer, handled⟩).handled = handled := by
  induction chunks generalizing buffer handled with
  | nil => rfl
  | cons chunk chunks ih =>
    rw [List.flatten_cons, List.mem_append, not_or] at h
    have hboth : NEWLINE ∉ buffer ++ chunk := by
      rw [List.mem_append, not_or]
      exact ⟨hbuffer, h.1⟩
    rw [List.foldl_cons]
    rcases Nat.lt_or_ge MAX_STDOUT_BUFFER_CHARS (buffer.length + chunk.length) with hlt | hle
    · rw [onData_of_lt hlt, ih List.not_mem_nil h.2]
    · rw [onData_of_le hle, ih (sep_not_mem_unfinished NEWLINE _) h.2,
        streamLines_of_not_mem hboth, List.append_nil]

theorem length_handled_le (buffer : JsString) (handled chunks : List JsString) :
    (chunks.foldl onData ⟨buffer, handled⟩).handled.length ≤
      handled.length + (buffer ++ chunks.flatten).count NEWLINE := by
  induction chunks generalizing buffer handled with
  | nil => exact Nat.le_add_right _ _
  | cons chunk chunks ih =>
    have hcount : (buffer ++ (chunk :: chunks).flatten).count NEWLINE =
        (buffer ++ chunk).count NEWLINE + chunks.flatten.count NEWLINE := by
      rw [List.flatten_cons, ← List.append_assoc, List.count_append]
    rw [List.foldl_cons, hcount]
    rcases Nat.lt_or_ge MAX_STDOUT_BUFFER_CHARS (buffer.length + chunk.length) with hlt | hle
    · rw [onData_of_lt hlt]
      have hrest := ih [] handled
      rw [List.nil_append] at hrest
      omega
    · rw [onData_of_le hle]
      have hrest := ih (unfinished NEWLINE (buffer ++ chunk))
        (handled ++ streamLines (buffer ++ chunk))
      have hnone : (unfinished NEWLINE (buffer ++ chunk) ++ chunks.flatten).count NEWLINE =
          chunks.flatten.count NEWLINE := by
        rw [List.count_append, Nat.add_eq_right]
        exact List.count_eq_zero_of_not_mem (sep_not_mem_unfinished NEWLINE _)
      rw [List.length_append, length_streamLines, hnone] at hrest
      omega

/-- No data event up to the last line feed finds more in the unfinished line and its
chunk than the buffer may hold, after the chunks `past`. -/
def FitsBuffer (past chunks : List JsString) : Prop :=
  ∀ before chunk after, chunks = before ++ chunk :: after → NEWLINE ∈ (chunk :: after).flatten →
    (unfinished NEWLINE (past ++ before).flatten).length + chunk.length ≤
      MAX_STDOUT_BUFFER_CHARS

theorem fitsBuffer_cons {past chunks : List JsString} {chunk : JsString} :
    FitsBuffer past (chunk :: chunks) ↔
      (NEWLINE ∈ (chunk :: chunks).flatten →
        (unfinished NEWLINE past.flatten).length + chunk.length ≤ MAX_STDOUT_BUFFER_CHARS) ∧
      FitsBuffer (past ++ [chunk]) chunks := by
  constructor
  · intro h
    constructor
    · intro hmem
      have hfirst := h [] chunk chunks rfl hmem
      rwa [List.append_nil] at hfirst
    · intro before next after heq hmem
      rw [List.append_assoc]
      exact h (chunk :: before) next after (by rw [heq]; rfl) hmem
  · rintro ⟨hfirst, hrest⟩ before next after heq hmem
    cases before with
    | nil =>
      cases heq
      rw [List.append_nil]
      exact hfirst hmem
    | cons first before =>
      cases heq
      have hnext := hrest before next after rfl hmem
      rwa [List.append_assoc] at hnext

theorem fitsBuffer_of_not_mem {past chunks : List JsString} (h : NEWLINE ∉ chunks.flatten) :
    FitsBuffer past chunks := by
  rintro before chunk after rfl hmem
  rw [List.flatten_append] at h
  exact absurd (List.mem_append_right _ hmem) h

theorem newline_mem_of_dropped {buffer chunk rest : JsString} (hmem : NEWLINE ∈ chunk ++ rest)
    (hbuffer : NEWLINE ∉ buffer)
    (hlines : ∀ line ∈ complete NEWLINE (buffer ++ (chunk ++ rest)),
      line.length ≤ MAX_STDOUT_BUFFER_CHARS)
    (hlong : MAX_STDOUT_BUFFER_CHARS < buffer.length + chunk.length) : NEWLINE ∈ chunk := by
  by_contra hnot
  have hrest : NEWLINE ∈ rest := (List.mem_append.mp hmem).resolve_left hnot
  obtain ⟨front, back, rfl, hfront⟩ := List.eq_append_cons_of_mem hrest
  have hline : NEWLINE ∉ buffer ++ chunk ++ front := by
    simp only [List.mem_append, not_or]
    exact ⟨⟨hbuffer, hnot⟩, hfront⟩
  have hle := hlines (buffer ++ chunk ++ front) <| by
    rw [← List.append_assoc, ← List.append_assoc, complete_append_sep hline]
    exact List.mem_cons_self
  rw [List.length_append, List.length_append] at hle
  omega

/-- What a run handles after the chunks `past`, of which the buffer keeps the
unfinished line. -/
theorem foldl_onData_handled_iff {past chunks handled : List JsString}
    (hlines : ∀ line ∈ complete NEWLINE (unfinished NEWLINE past.flatten ++ chunks.flatten),
      line.length ≤ MAX_STDOUT_BUFFER_CHARS) :
    (chunks.foldl onData ⟨unfinished NEWLINE past.flatten, handled⟩).handled =
        handled ++ streamLines (unfinished NEWLINE past.flatten ++ chunks.flatten) ↔
      FitsBuffer past chunks := by
  have hbuffer := sep_not_mem_unfinished NEWLINE past.flatten
  induction chunks generalizing past handled with
  | nil =>
    rw [List.flatten_nil, List.append_nil, streamLines_of_not_mem hbuffer, List.append_nil]
    exact iff_of_true rfl (fitsBuffer_of_not_mem List.not_mem_nil)
  | cons chunk chunks ih =>
    by_cases hmem : NEWLINE ∈ (chunk :: chunks).flatten
    · rw [fitsBuffer_cons]
      rcases Nat.lt_or_ge MAX_STDOUT_BUFFER_CHARS
        ((unfinished NEWLINE past.flatten).length + chunk.length) with hlt | hle
      · -- The buffer is dropped with a line feed in it, so that lines are missing.
        refine iff_of_false ?_ fun h => absurd (h.1 hmem) (Nat.not_le_of_lt hlt)
        intro heq
        rw [List.flatten_cons] at hmem hlines
        have hpos := List.count_pos_iff.mpr (newline_mem_of_dropped hmem hbuffer hlines hlt)
        have hle := length_handled_le [] handled chunks
        have hlength := congrArg List.length heq
        rw [List.foldl_cons, onData_of_lt hlt, List.length_append, length_streamLines,
          List.flatten_cons, List.count_append, List.count_append] at hlength
        rw [List.nil_append] at hle
        omega
      · have hstream : unfinished NEWLINE past.flatten ++ (chunk :: chunks).flatten =
            unfinished NEWLINE past.flatten ++ chunk ++ chunks.flatten := by
          rw [List.flatten_cons, List.append_assoc]
        have hnext : unfinished NEWLINE (unfinished NEWLINE past.flatten ++ chunk) =
            unfinished NEWLINE (past ++ [chunk]).flatten := by
          rw [List.flatten_append, List.flatten_singleton, ← unfinished_append]
        have hrest : ∀ line ∈ complete NEWLINE
            (unfinished NEWLINE (past ++ [chunk]).flatten ++ chunks.flatten),
            line.length ≤ MAX_STDOUT_BUFFER_CHARS := by
          intro line hline
          apply hlines
          rw [hstream, complete_append, hnext]
          exact List.mem_append_right _ hline
        have hnext_iff := @ih (past ++ [chunk])
          (handled ++ streamLines (unfinished NEWLINE past.flatten ++ chunk)) hrest
          (sep_not_mem_unfinished NEWLINE _)
        rw [List.foldl_cons, onData_of_le hle, hstream,
          streamLines_append (_ ++ chunk) chunks.flatten, ← List.append_assoc, hnext]
        refine hnext_iff.trans ?_
        exact ⟨fun h => ⟨fun _ => hle, h⟩, And.right⟩
    · have hboth : NEWLINE ∉ unfinished NEWLINE past.flatten ++ (chunk :: chunks).flatten := by
        rw [List.mem_append, not_or]
        exact ⟨hbuffer, hmem⟩
      rw [foldl_onData_quiet hbuffer hmem, streamLines_of_not_mem hboth, List.append_nil]
      exact iff_of_true rfl (fitsBuffer_of_not_mem hmem)

section Stream

variable {chunks : List JsString}
  (hlines : ∀ line ∈ complete NEWLINE chunks.flatten, line.length ≤ MAX_STDOUT_BUFFER_CHARS)

include hlines

theorem handled_of_fitsBuffer (h : FitsBuffer [] chunks) :
    (readStdout chunks).handled = streamLines chunks.flatten :=
  (@foldl_onData_handled_iff [] chunks [] hlines).mpr h

theorem fitsBuffer_of_handled (h : (readStdout chunks).handled = streamLines chunks.flatten) :
    FitsBuffer [] chunks :=
  (@foldl_onData_handled_iff [] chunks [] hlines).mp h

/-- The handler gets every complete line, in order and once, exactly when no data event
finds too much in the buffer. -/
theorem readStdout_handled_iff :
    (readStdout chunks).handled = streamLines chunks.flatten ↔ FitsBuffer [] chunks :=
  ⟨fitsBuffer_of_handled hlines, handled_of_fitsBuffer hlines⟩

end Stream

/-- `{"type":"ready"}`. -/
def readyLine : JsString :=
  utf16 ['{', '"', 't', 'y', 'p', 'e', '"', ':', '"', 'r', 'e', 'a', 'd', 'y', '"', '}']

/-- A line in two chunks. -/
theorem readStdout_handled_ready :
    (readStdout [readyLine.take 7, readyLine.drop 7 ++ [NEWLINE]]).handled =
      streamLines [readyLine.take 7, readyLine.drop 7 ++ [NEWLINE]].flatten :=
  (readStdout_handled_iff (by decide)).mpr <|
    fitsBuffer_cons.mpr ⟨fun _ => by decide,
      fitsBuffer_cons.mpr ⟨fun _ => by decide, fitsBuffer_of_not_mem List.not_mem_nil⟩⟩

/-! ## A long line before another -/

/-- `{"type":"event","name":"log","payload":"`. -/
def eventStart : JsString :=
  utf16 ['{', '"', 't', 'y', 'p', 'e', '"', ':', '"', 'e', 'v', 'e', 'n', 't', '"', ',',
    '"', 'n', 'a', 'm', 'e', '"', ':', '"', 'l', 'o', 'g', '"', ',',
    '"', 'p', 'a', 'y', 'l', 'o', 'a', 'd', '"', ':', '"']

def eventEnd : JsString := utf16 ['"', '}']

/-- `"x".repeat(size)`. -/
def filler (size : ℕ) : JsString := List.replicate size 120

/-- Chunks of 64 KiB: a line, and the start of an event of 8388593 characters. -/
def beforeEventEnd : List JsString :=
  (readyLine ++ NEWLINE :: (eventStart ++ filler 65479)) :: List.replicate 127 (filler 65536)

/-- The end of the event, and a line. -/
def eventEndChunk : JsString := eventEnd ++ NEWLINE :: (readyLine ++ [NEWLINE])

def longEventChunks : List JsString := beforeEventEnd ++ [eventEndChunk]

theorem newline_not_mem_filler (size : ℕ) : NEWLINE ∉ filler size := by
  intro h
  have heq := List.eq_of_mem_replicate h
  exact absurd heq (by decide)

theorem flatten_beforeEventEnd :
    beforeEventEnd.flatten = readyLine ++ NEWLINE :: (eventStart ++ filler 8388551) := by
  rw [beforeEventEnd, List.flatten_cons, filler, filler, filler, List.flatten_replicate_replicate,
    List.append_assoc, List.cons_append, List.append_assoc, List.replicate_append_replicate]

theorem unfinished_beforeEventEnd :
    unfinished NEWLINE beforeEventEnd.flatten = eventStart ++ filler 8388551 := by
  have hready : NEWLINE ∉ readyLine := by decide
  rw [flatten_beforeEventEnd, unfinished_append_sep hready, unfinished_of_not_mem]
  rw [List.mem_append, not_or]
  exact ⟨by decide, newline_not_mem_filler _⟩

theorem length_beforeEventEnd : (eventStart ++ filler 8388551).length = 8388591 := by
  rw [List.length_append, filler, List.length_replicate]
  decide

theorem complete_longEventChunks :
    complete NEWLINE longEventChunks.flatten =
      [readyLine, eventStart ++ filler 8388551 ++ eventEnd, readyLine] := by
  have hready : NEWLINE ∉ readyLine := by decide
  have hevent : NEWLINE ∉ eventStart ++ filler 8388551 ++ eventEnd := by
    simp only [List.mem_append, not_or]
    exact ⟨⟨by decide, newline_not_mem_filler _⟩, by decide⟩
  rw [longEventChunks, List.flatten_append, List.flatten_singleton, flatten_beforeEventEnd,
    List.append_assoc, List.cons_append, complete_append_sep hready, eventEndChunk,
    ← List.append_assoc, complete_append_sep hevent, complete_append_sep hready, complete_nil]

/-- The end of the event and the line after it are dropped with the event. -/
theorem not_handled_longEvent :
    ¬ ((∀ line ∈ complete NEWLINE longEventChunks.flatten,
        line.length ≤ MAX_STDOUT_BUFFER_CHARS) →
      (readStdout longEventChunks).handled = streamLines longEventChunks.flatten) := by
  have hlines : ∀ line ∈ complete NEWLINE longEventChunks.flatten,
      line.length ≤ MAX_STDOUT_BUFFER_CHARS := by
    have hready : readyLine.length ≤ MAX_STDOUT_BUFFER_CHARS := by decide
    have hevent : (eventStart ++ filler 8388551 ++ eventEnd).length ≤
        MAX_STDOUT_BUFFER_CHARS := by
      rw [List.length_append, length_beforeEventEnd]
      decide
    rw [complete_longEventChunks]
    simp only [List.forall_mem_cons, List.not_mem_nil, false_implies, implies_true, and_true]
    exact ⟨hready, hevent, hready⟩
  intro h
  have hfits := fitsBuffer_of_handled hlines (h hlines)
  have hsplit : longEventChunks = beforeEventEnd ++ eventEndChunk :: [] := by rw [longEventChunks]
  have hnewline : NEWLINE ∈ [eventEndChunk].flatten := by decide
  have hlast := hfits beforeEventEnd eventEndChunk [] hsplit hnewline
  rw [List.nil_append, unfinished_beforeEventEnd, length_beforeEventEnd] at hlast
  exact absurd hlast (by decide)

end Upriv.Electron
