import Upriv.Fs.Dirs
import Upriv.Paths.Workspace
import Upriv.Support.Digits
import Upriv.Support.Lines
import Upriv.Support.Trimming

/-!
# The vault-root alias

`paths/resolve.rs`: the file `.upriv-root` in the app home, which holds the path
of a vault-root elsewhere and whether that root is in use.
-/

namespace Upriv

open FallibleM

def VAULT_ROOT_ALIAS_FILE : String := ".upriv-root"

structure VaultRootAlias where
  path : PathBuf
  active : Bool
  deriving DecidableEq, Repr

def vaultRootAliasPath (home : PathBuf) : PathBuf := joinPath home VAULT_ROOT_ALIAS_FILE

/-! ## Writing -/

def pathAsAliasLine (path : PathBuf) : Result String :=
  if !isAbsolute path then
    .error (.io ⟨.invalidInput, "vault-root path must be absolute"⟩)
  else if path.toList.contains '\n' || path.toList.contains '\r' then
    .error (.io ⟨.invalidData, "vault-root path must not contain newline characters"⟩)
  else .ok path

def aliasStatus (active : Bool) : String := if active then "active" else "inactive"

def aliasComments (active : Bool) : List String :=
  let statusNote :=
    if active then
      "custom_root mode — this path is the vault-root (default_root `.upriv` is ignored)."
    else "not in use — default-root mode is active; path kept if you switch back."
  ["# Upriv vault-root alias (not a vault — path pointer only).",
   "# Absolute path to the folder that contains `.upriv/settings.toml`.",
   "# Created only when the user chooses \"another folder\".",
   "# status=" ++ aliasStatus active ++ " — " ++ statusNote,
   "# Do not put passwords or secrets in this file.",
   "#"]

def aliasFileContents (path : PathBuf) (active : Bool) : Result String := do
  let pathStr ← pathAsAliasLine path
  return String.ofList (unlines
    ((aliasComments active ++ ["status=" ++ aliasStatus active, pathStr]).map String.toList))

/-! ## Reading -/

/-- The value of a status line, if it is one of the two that exist. -/
def knownStatus (value : List Char) : Option Bool :=
  let status := (trimChars value).map Char.toLower
  if status = "active".toList then some true
  else if status = "inactive".toList then some false
  else none

/-- What one line of the file is to the reader. -/
inductive AliasLine where
  | skipped
  | status (known : Option Bool)
  | path (text : PathBuf)
  deriving DecidableEq, Repr

def aliasLine (line : List Char) : AliasLine :=
  let trimmed := trimChars line
  if trimmed.isEmpty || trimmed.head? == some '#' then .skipped
  else
    match stripPrefix "status=".toList trimmed with
    | some value => .status (knownStatus value)
    | none => .path (String.ofList trimmed)

/-- The variables of the reader's loop. -/
structure AliasScan where
  active : Bool
  sawStatus : Bool
  normalizeUnknownStatus : Bool
  target : Option PathBuf
  deriving DecidableEq, Repr

def AliasScan.line (scan : AliasScan) : AliasLine → AliasScan
  | .skipped => scan
  | .status (some active) => { scan with sawStatus := true, active }
  | .status none =>
    { scan with sawStatus := true, active := false, normalizeUnknownStatus := true }
  | .path text => if scan.target.isNone then { scan with target := some text } else scan

def AliasScan.start : AliasScan := ⟨false, false, false, none⟩

def aliasLines (raw : String) : List AliasLine := (lines raw.toList).map aliasLine

def scanAlias (raw : String) : AliasScan := (aliasLines raw).foldl AliasScan.line .start

section
variable (faults : Faults)

def writeAliasFileAtomic (aliasPath : PathBuf) (contents : String) : FsM Unit :=
  writeBytesAtomic faults aliasPath (utf8 contents.toList)

/-- The rewrite of a file with an unknown status: one that fails is only reported. -/
def healAliasFile (path target : PathBuf) : FsM Unit :=
  match aliasFileContents target false with
  | .ok contents => discard (attempt (writeAliasFileAtomic faults path contents))
  | .error _ => pure ()

def readVaultRootAlias (home : PathBuf) : FsM (Option VaultRootAlias) := do
  let path := vaultRootAliasPath home
  match ← attempt (readToString faults path) with
  | .error (.io error) => if error.kind = .notFound then return none else throw (.io error)
  | .error error => throw error
  | .ok raw =>
    let scan := scanAlias raw
    match scan.target with
    | none => throw (.vaultRootAliasInvalid path)
    | some target =>
      ensure (isAbsolute target = true) (.vaultRootAliasInvalid path)
      if scan.normalizeUnknownStatus then healAliasFile faults path target
      return some ⟨target, if scan.sawStatus then scan.active else false⟩

def deactivateVaultRootAlias (home : PathBuf) : FsM Unit := do
  match ← readVaultRootAlias faults home with
  | none => return ()
  | some found =>
    let contents ← FallibleM.ofExcept (aliasFileContents found.path false)
    writeAliasFileAtomic faults (vaultRootAliasPath home) contents

end

/-! ## What the lines say -/

def AliasLine.status? : AliasLine → Option (Option Bool)
  | .status known => some known
  | _ => none

def AliasLine.path? : AliasLine → Option PathBuf
  | .path text => some text
  | _ => none

/-- The values of the status lines in order, `none` for an unknown one. -/
def statuses (ls : List AliasLine) : List (Option Bool) := ls.filterMap AliasLine.status?

def paths (ls : List AliasLine) : List PathBuf := ls.filterMap AliasLine.path?

theorem statuses_append (ls : List AliasLine) (line : AliasLine) :
    statuses (ls ++ [line]) = statuses ls ++ line.status?.toList := by
  cases h : line.status? <;> simp [statuses, h]

theorem paths_append (ls : List AliasLine) (line : AliasLine) :
    paths (ls ++ [line]) = paths ls ++ line.path?.toList := by
  cases h : line.path? <;> simp [paths, h]

/-- The last status line and the first path line count. -/
theorem foldl_line (ls : List AliasLine) :
    ls.foldl AliasScan.line .start =
      { active := (statuses ls).getLast? == some (some true)
        sawStatus := !(statuses ls).isEmpty
        normalizeUnknownStatus := (statuses ls).contains none
        target := (paths ls).head? } := by
  induction ls using List.reverseRecOn with
  | nil => rfl
  | append_singleton ls line ih =>
      rw [List.foldl_append, ih, statuses_append, paths_append]
      rcases line with _ | (_ | known) | text
      · simp [AliasScan.line, AliasLine.status?, AliasLine.path?]
      · simp [AliasScan.line, AliasLine.status?, AliasLine.path?]
      · simp [AliasScan.line, AliasLine.status?, AliasLine.path?]
      · cases paths ls <;> simp [AliasScan.line, AliasLine.status?, AliasLine.path?]

/-! ## The written file -/

section
variable {path : PathBuf} {active : Bool} {contents : String}

theorem pathAsAliasLine_eq_ok_iff {line : String} :
    pathAsAliasLine path = .ok line ↔
      line = path ∧ isAbsolute path = true ∧ '\n' ∉ path.toList ∧ '\r' ∉ path.toList := by
  unfold pathAsAliasLine
  by_cases habsolute : isAbsolute path = true
  · by_cases hbreak : '\n' ∉ path.toList ∧ '\r' ∉ path.toList
    · have hnone : (path.toList.contains '\n' || path.toList.contains '\r') = false := by
        rw [Bool.or_eq_false_iff, List.contains_eq_mem, List.contains_eq_mem]
        exact ⟨decide_eq_false hbreak.1, decide_eq_false hbreak.2⟩
      simp only [habsolute, hnone, hbreak, Bool.not_true, Bool.false_eq_true, ↓reduceIte,
        Except.ok.injEq, not_false_eq_true, and_true]
      exact eq_comm
    · have hsome : (path.toList.contains '\n' || path.toList.contains '\r') = true := by
        rw [Bool.or_eq_true, List.contains_iff_mem, List.contains_iff_mem]
        rwa [not_and_or, not_not, not_not] at hbreak
      simp only [habsolute, hsome, hbreak, Bool.not_true, Bool.false_eq_true, ↓reduceIte,
        reduceCtorEq, and_false]
  · simp only [habsolute, Bool.not_false, ↓reduceIte, reduceCtorEq, false_and,
      Bool.false_eq_true, and_false]

theorem aliasFileContents_eq_ok_iff :
    aliasFileContents path active = .ok contents ↔
      pathAsAliasLine path = .ok path ∧ contents = String.ofList (unlines
        ((aliasComments active ++ ["status=" ++ aliasStatus active, path]).map
          String.toList)) := by
  rw [aliasFileContents, except_bind_eq_ok]
  constructor
  · rintro ⟨line, hline, hcontents⟩
    obtain rfl := (pathAsAliasLine_eq_ok_iff.mp hline).1
    exact ⟨hline, (Except.ok.inj hcontents).symm⟩
  · rintro ⟨hline, rfl⟩
    exact ⟨path, hline, rfl⟩

theorem trimChars_cons {c : Char} (hc : isWhitespace c = false) (cs : List Char) :
    trimChars (c :: cs) = c :: trimEndChars cs := by
  rw [trimChars, List.dropWhile_cons_of_neg (by rw [hc]; exact Bool.false_ne_true)]
  exact rdropWhile_cons_of_neg hc cs

theorem aliasLine_of_isAbsolute (habsolute : isAbsolute path = true) :
    aliasLine path.toList = .path (trimEnd path) := by
  obtain ⟨cs, hcs⟩ : ∃ cs, path.toList = '/' :: cs := by
    rw [isAbsolute, beq_iff_eq] at habsolute
    exact List.head?_eq_some_iff.mp habsolute
  have htrim := trimChars_cons (show isWhitespace '/' = false by decide) cs
  have hstatus : ¬ "status=".toList <+: '/' :: trimEndChars cs := by
    rintro ⟨rest, hrest⟩
    have hhead : ("status=".toList ++ rest).head? = some '/' := by
      rw [hrest]
      rfl
    rw [show ("status=".toList ++ rest).head? = some 's' from rfl] at hhead
    exact absurd hhead (by decide)
  have hend : trimEnd path = String.ofList ('/' :: trimEndChars cs) := by
    rw [trimEnd, hcs]
    exact congrArg String.ofList (rdropWhile_cons_of_neg (by decide) cs)
  rw [aliasLine, hcs, htrim, stripPrefix, if_neg hstatus, hend]
  rfl

theorem isLine_of_pathAsAliasLine {line : String} (h : pathAsAliasLine path = .ok line) :
    IsLine path.toList := by
  obtain ⟨-, -, hfeed, hreturn⟩ := pathAsAliasLine_eq_ok_iff.mp h
  exact ⟨hfeed, fun hlast => hreturn (List.mem_of_getLast? hlast)⟩

/-- A comment line of the written file. -/
def IsCommentLine (line : List Char) : Prop := IsLine line ∧ line.head? = some '#'

instance (line : List Char) : Decidable (IsCommentLine line) :=
  inferInstanceAs (Decidable (_ ∧ _))

/-- For literals: the kernel knows their characters, not their bytes. -/
theorem isCommentLine_ofList {cs : List Char} (h : IsCommentLine cs) :
    IsCommentLine (String.ofList cs).toList := by
  rwa [String.toList_ofList]

theorem isCommentLine_statusNote (a b c d : List Char)
    (h : IsCommentLine (a ++ b ++ c ++ d)) :
    IsCommentLine (String.ofList a ++ String.ofList b ++ String.ofList c ++
      String.ofList d).toList := by
  rw [← String.ofList_append, ← String.ofList_append, ← String.ofList_append]
  exact isCommentLine_ofList h

theorem isCommentLine_aliasComments (active : Bool) :
    ∀ line ∈ aliasComments active, IsCommentLine line.toList := by
  cases active
  · simp only [aliasComments, aliasStatus, Bool.false_eq_true, ↓reduceIte, List.forall_mem_cons]
    exact ⟨isCommentLine_ofList (by decide), isCommentLine_ofList (by decide),
      isCommentLine_ofList (by decide), isCommentLine_statusNote _ _ _ _ (by decide),
      isCommentLine_ofList (by decide), isCommentLine_ofList (by decide),
      List.forall_mem_nil _⟩
  · simp only [aliasComments, aliasStatus, ↓reduceIte, List.forall_mem_cons]
    exact ⟨isCommentLine_ofList (by decide), isCommentLine_ofList (by decide),
      isCommentLine_ofList (by decide), isCommentLine_statusNote _ _ _ _ (by decide),
      isCommentLine_ofList (by decide), isCommentLine_ofList (by decide),
      List.forall_mem_nil _⟩

theorem aliasLine_comment {line : List Char} (h : line.head? = some '#') :
    aliasLine line = .skipped := by
  obtain ⟨cs, rfl⟩ := List.head?_eq_some_iff.mp h
  rw [aliasLine, trimChars_cons (by decide)]
  rfl

theorem aliasLine_aliasComments (active : Bool) :
    (aliasComments active).map (fun line => aliasLine line.toList) =
      List.replicate 6 .skipped := by
  rw [List.map_eq_replicate_iff.mpr fun line hline =>
    aliasLine_comment (isCommentLine_aliasComments active line hline).2]
  rfl

/-- What the reader makes of a written file. -/
theorem scanAlias_aliasFileContents (h : aliasFileContents path active = .ok contents) :
    scanAlias contents = ⟨active, true, false, some (trimEnd path)⟩ := by
  obtain ⟨hpath, rfl⟩ := aliasFileContents_eq_ok_iff.mp h
  have habsolute := (pathAsAliasLine_eq_ok_iff.mp hpath).2.1
  have hlines : ∀ line ∈ (aliasComments active ++
      ["status=" ++ aliasStatus active, path]).map String.toList, IsLine line := by
    simp only [List.forall_mem_map, List.forall_mem_append, List.forall_mem_cons]
    refine ⟨fun line hline => (isCommentLine_aliasComments active line hline).1, ?_,
      isLine_of_pathAsAliasLine hpath, List.forall_mem_nil _⟩
    cases active <;> decide
  have hstatus : aliasLine ("status=" ++ aliasStatus active).toList = .status (some active) := by
    cases active <;> decide
  rw [scanAlias, aliasLines, String.toList_ofList, lines_unlines hlines, List.map_map,
    List.map_append, show aliasLine ∘ String.toList = fun line => aliasLine line.toList from rfl,
    aliasLine_aliasComments, foldl_line]
  simp only [List.map_cons, List.map_nil, hstatus, aliasLine_of_isAbsolute habsolute]
  cases active <;> rfl

end

/-! ## Reading the file -/

/-- What the reader returns for the lines it has seen. -/
def AliasScan.result (scan : AliasScan) (path : PathBuf) : Result (Option VaultRootAlias) :=
  match scan.target with
  | none => .error (.vaultRootAliasInvalid path)
  | some target =>
    if isAbsolute target then
      .ok (some ⟨target, if scan.sawStatus then scan.active else false⟩)
    else .error (.vaultRootAliasInvalid path)

/-- The files are as they were, or the alias file holds an inactive alias to the path
it was read from. -/
def HealedAlias (home : PathBuf) (scan : AliasScan) (d d' : Disk) : Prop :=
  d'.files = d.files ∨
    ∃ target contents, scan.target = some target ∧ scan.normalizeUnknownStatus = true ∧
      aliasFileContents target false = .ok contents ∧
      d'.files = Function.update d.files (vaultRootAliasPath home) (some (utf8 contents.toList))

section
variable {faults : Faults} {home : PathBuf} {bytes : Bytes} {raw : String} {d : Disk}

theorem exec_healAliasFile (path target : PathBuf) (d : Disk) :
    ∃ d', (healAliasFile faults path target).exec d = (.ok (), d') ∧
      (d'.files = d.files ∨ ∃ contents, aliasFileContents target false = .ok contents ∧
        d'.files = Function.update d.files path (some (utf8 contents.toList))) := by
  unfold healAliasFile
  cases hcontents : aliasFileContents target false with
  | error e => exact ⟨d, rfl, .inl rfl⟩
  | ok contents =>
      refine ⟨((writeAliasFileAtomic faults path contents).exec d).2, rfl, ?_⟩
      have hrun : (writeAliasFileAtomic faults path contents).exec d = (_, _) := rfl
      rcases files_writeBytesAtomic faults hrun with ⟨-, hnew⟩ | hsame
      · exact .inr ⟨contents, rfl, hnew⟩
      · exact .inl hsame

theorem readVaultRootAlias_of_text (hcall : faults d.calls = none)
    (hfile : d.files (vaultRootAliasPath home) = some bytes)
    (hraw : decodeUtf8 bytes = some raw) :
    ((readVaultRootAlias faults home).exec d).1 =
        (scanAlias raw).result (vaultRootAliasPath home) ∧
      HealedAlias home (scanAlias raw) d ((readVaultRootAlias faults home).exec d).2 := by
  have hread : (attempt (readToString faults (vaultRootAliasPath home))).exec d =
      (.ok (.ok raw), { d with calls := d.calls + 1 }) := by
    rw [exec_attempt, exec_readToString faults hcall hfile hraw]
  rw [readVaultRootAlias, AliasScan.result]
  dsimp only
  rw [exec_bind_of_ok hread]
  dsimp only
  cases htarget : (scanAlias raw).target with
  | none => exact ⟨rfl, .inl rfl⟩
  | some target =>
      by_cases habsolute : isAbsolute target = true
      · simp only [ensure, habsolute, ↓reduceIte, pure_bind]
        by_cases hheal : (scanAlias raw).normalizeUnknownStatus = true
        · obtain ⟨d', hrun, hfiles⟩ := @exec_healAliasFile faults
            (vaultRootAliasPath home) target { d with calls := d.calls + 1 }
          rw [if_pos hheal, exec_bind_of_ok hrun]
          refine ⟨rfl, hfiles.imp id ?_⟩
          rintro ⟨contents, hcontents, hnew⟩
          exact ⟨target, contents, htarget, hheal, hcontents, hnew⟩
        · rw [if_neg hheal]
          exact ⟨rfl, .inl rfl⟩
      · simp only [ensure, habsolute]
        exact ⟨rfl, .inl rfl⟩

/-- The path of a path line is trimmed. -/
theorem trimEnd_of_mem_paths {path : PathBuf} (h : path ∈ paths (aliasLines raw)) :
    trimEnd path = path := by
  simp only [paths, aliasLines, List.mem_filterMap, List.mem_map] at h
  obtain ⟨_, ⟨line, -, rfl⟩, hpath⟩ := h
  unfold aliasLine at hpath
  dsimp only at hpath
  split at hpath
  · cases hpath
  · split at hpath
    · cases hpath
    · cases hpath
      rw [trimEnd, String.toList_ofList]
      exact congrArg String.ofList (List.rdropWhile_idempotent _ _)

theorem target_scanAlias (raw : String) :
    (scanAlias raw).target = (paths (aliasLines raw)).head? := by
  rw [scanAlias, foldl_line]

theorem trimEnd_of_target {path : PathBuf} (h : (scanAlias raw).target = some path) :
    trimEnd path = path := by
  rw [target_scanAlias] at h
  exact trimEnd_of_mem_paths (List.mem_of_mem_head? h)

/-- The alias file is a text with these lines. -/
def AliasText (home : PathBuf) (d : Disk) (raw : String) : Prop :=
  ∃ bytes, d.files (vaultRootAliasPath home) = some bytes ∧ decodeUtf8 bytes = some raw

/-- The alias file is an alias to `path`. -/
def AliasTo (home : PathBuf) (d : Disk) (path : PathBuf) : Prop :=
  ∃ raw, AliasText home d raw ∧ (scanAlias raw).target = some path ∧ isAbsolute path = true

theorem aliasText_update (home : PathBuf) (files : PathBuf → Option Bytes) (contents : String)
    {d' : Disk} (h : d'.files = Function.update files (vaultRootAliasPath home)
      (some (utf8 contents.toList))) : AliasText home d' contents :=
  ⟨utf8 contents.toList, by rw [h, Function.update_self], decodeUtf8_utf8 contents⟩

theorem aliasTo_of_contents {path : PathBuf} {contents : String} {active : Bool}
    (htrim : trimEnd path = path) (hcontents : aliasFileContents path active = .ok contents)
    (htext : AliasText home d contents) : AliasTo home d path := by
  refine ⟨contents, htext, ?_, ?_⟩
  · rw [scanAlias_aliasFileContents hcontents, htrim]
  · exact (pathAsAliasLine_eq_ok_iff.mp (aliasFileContents_eq_ok_iff.mp hcontents).1).2.1

theorem readVaultRootAlias_of_aliasTo {path : PathBuf} (hcall : faults d.calls = none)
    (h : AliasTo home d path) :
    ∃ active, ((readVaultRootAlias faults home).exec d).1 = .ok (some ⟨path, active⟩) := by
  obtain ⟨raw, ⟨bytes, hfile, hraw⟩, htarget, habsolute⟩ := h
  refine ⟨if (scanAlias raw).sawStatus then (scanAlias raw).active else false, ?_⟩
  rw [(readVaultRootAlias_of_text hcall hfile hraw).1, AliasScan.result, htarget]
  exact if_pos habsolute

/-- A file that cannot be read is not an alias, and nothing is written. -/
theorem readVaultRootAlias_of_error {error : UprivError} {m : Disk}
    (hread : (readToString faults (vaultRootAliasPath home)).exec d = (.error error, m)) :
    ∃ r, (readVaultRootAlias faults home).exec d = (r, m) ∧ ∀ found, r ≠ .ok (some found) := by
  have hattempt : (attempt (readToString faults (vaultRootAliasPath home))).exec d =
      (.ok (.error error), m) := by
    rw [exec_attempt, hread]
  rw [readVaultRootAlias]
  dsimp only
  rw [exec_bind_of_ok hattempt]
  split
  · split
    · exact ⟨.ok none, rfl, fun _ h => by cases h⟩
    · exact ⟨_, rfl, fun _ h => by cases h⟩
  · exact ⟨_, rfl, fun _ h => by cases h⟩
  · rename_i hok
    cases hok

/-- Each read finds a text that it scans, or no alias. -/
theorem aliasText_of_readVaultRootAlias {found : VaultRootAlias} {m : Disk}
    (h : (readVaultRootAlias faults home).exec d = (.ok (some found), m)) :
    ∃ raw, AliasText home d raw ∧ faults d.calls = none ∧
      (scanAlias raw).result (vaultRootAliasPath home) = .ok (some found) ∧
      HealedAlias home (scanAlias raw) d m := by
  rcases hread : (readToString faults (vaultRootAliasPath home)).exec d with ⟨error | raw, m'⟩
  · obtain ⟨r, hrun, hnot⟩ := readVaultRootAlias_of_error hread
    rw [hrun] at h
    exact absurd (congrArg Prod.fst h) (hnot found)
  · have hcall : faults d.calls = none := by
      cases hfault : faults d.calls with
      | none => rfl
      | some error =>
          rw [exec_readToString_of_refused faults hfault] at hread
          cases hread
    obtain ⟨bytes, hfile, hraw⟩ := readToString_ok faults hread
    obtain ⟨hresult, hhealed⟩ := @readVaultRootAlias_of_text faults _ _ _ _ hcall hfile hraw
    rw [h] at hresult hhealed
    exact ⟨raw, ⟨bytes, hfile, hraw⟩, hcall, hresult.symm, hhealed⟩

theorem target_of_result {scan : AliasScan} {path : PathBuf} {found : VaultRootAlias}
    (h : scan.result path = .ok (some found)) :
    scan.target = some found.path ∧ isAbsolute found.path = true := by
  unfold AliasScan.result at h
  split at h
  · cases h
  · split at h
    · rename_i htarget habsolute
      cases h
      exact ⟨htarget, habsolute⟩
    · cases h

theorem HealedAlias.aliasTo {m : Disk} {path : PathBuf} (h : HealedAlias home (scanAlias raw) d m)
    (htext : AliasText home d raw) (htarget : (scanAlias raw).target = some path)
    (habsolute : isAbsolute path = true) : AliasTo home m path := by
  rcases h with hsame | ⟨target, contents, htarget', -, hcontents, hnew⟩
  · obtain ⟨bytes, hfile, hraw⟩ := htext
    exact ⟨raw, ⟨bytes, by rw [hsame, hfile], hraw⟩, htarget, habsolute⟩
  · rw [htarget, Option.some.injEq] at htarget'
    subst htarget'
    exact aliasTo_of_contents (trimEnd_of_target htarget) hcontents
      (aliasText_update home _ contents hnew)

theorem AliasTo.of_sameDisk {m : Disk} {path : PathBuf} (h : AliasTo home d path)
    (hsame : m.files = d.files) : AliasTo home m path := by
  obtain ⟨raw, ⟨bytes, hfile, hraw⟩, hrest⟩ := h
  exact ⟨raw, ⟨bytes, by rw [hsame, hfile], hraw⟩, hrest⟩

/-- Reading keeps the alias, whatever the outcome. -/
theorem AliasTo.exec_readVaultRootAlias {path : PathBuf} (h : AliasTo home d path) :
    AliasTo home ((readVaultRootAlias faults home).exec d).2 path := by
  cases hcall : faults d.calls with
  | none =>
      obtain ⟨raw, ⟨bytes, hfile, hraw⟩, htarget, habsolute⟩ := h
      exact (readVaultRootAlias_of_text hcall hfile hraw).2.aliasTo ⟨bytes, hfile, hraw⟩
        htarget habsolute
  | some error =>
      obtain ⟨r, hrun, -⟩ := readVaultRootAlias_of_error
        (@exec_readToString_of_refused faults (vaultRootAliasPath home) _ _ hcall)
      rw [hrun]
      exact h.of_sameDisk rfl

theorem AliasTo.path_eq {found : VaultRootAlias} {path : PathBuf} {m : Disk}
    (h : AliasTo home d path)
    (hread : (readVaultRootAlias faults home).exec d = (.ok (some found), m)) :
    found.path = path := by
  obtain ⟨raw, ⟨bytes, hfile, hraw⟩, htarget, -⟩ := h
  obtain ⟨raw', ⟨bytes', hfile', hraw'⟩, -, hresult, -⟩ := aliasText_of_readVaultRootAlias hread
  rw [hfile, Option.some.injEq] at hfile'
  rw [← hfile', hraw, Option.some.injEq] at hraw'
  rw [← hraw'] at hresult
  rw [(target_of_result hresult).1, Option.some.injEq] at htarget
  exact htarget

/-- Deactivating an alias keeps its path, also when it fails. -/
theorem AliasTo.exec_deactivateVaultRootAlias {path : PathBuf} (h : AliasTo home d path) :
    AliasTo home ((deactivateVaultRootAlias faults home).exec d).2 path := by
  have htrim : trimEnd path = path := by
    obtain ⟨raw, -, htarget, -⟩ := h
    exact trimEnd_of_target htarget
  have hkept := @AliasTo.exec_readVaultRootAlias faults _ _ _ h
  rw [deactivateVaultRootAlias, exec_bind]
  rcases hread : (readVaultRootAlias faults home).exec d with ⟨error | _ | found, m⟩
  · rwa [hread] at hkept
  · rwa [hread] at hkept
  · rw [hread] at hkept
    obtain rfl := h.path_eq hread
    dsimp only
    rw [exec_ofExcept_bind]
    cases hcontents : aliasFileContents found.path false with
    | error e => exact hkept
    | ok contents =>
        dsimp only
        rcases files_writeBytesAtomic faults (show (writeAliasFileAtomic faults
          (vaultRootAliasPath home) contents).exec m = (_, _) from rfl) with ⟨-, hnew⟩ | hsame
        · exact aliasTo_of_contents htrim hcontents (aliasText_update home _ contents hnew)
        · exact hkept.of_sameDisk hsame

end

/-! ## Round trip -/

theorem trimEnd_eq_self_iff {path : PathBuf} :
    trimEnd path = path ↔ ∀ c ∈ path.toList.getLast?, isWhitespace c = false := by
  rw [trimEnd, ← String.toList_inj, String.toList_ofList, trimEndChars,
    List.rdropWhile_eq_self_iff]
  constructor
  · intro h c hc
    obtain ⟨hne, rfl⟩ := List.mem_getLast?_eq_getLast hc
    exact Bool.eq_false_iff.mpr (h hne)
  · intro h hne
    exact Bool.eq_false_iff.mp (h _ (List.getLast?_eq_some_getLast hne))

theorem isAbsolute_trimEnd {path : PathBuf} (h : isAbsolute path = true) :
    isAbsolute (trimEnd path) = true := by
  rw [isAbsolute, beq_iff_eq] at h
  obtain ⟨cs, hcs⟩ := List.head?_eq_some_iff.mp h
  rw [isAbsolute, trimEnd, String.toList_ofList, hcs, trimEndChars,
    rdropWhile_cons_of_neg (by decide)]
  rfl

/-- A written file is read back as the path and the flag it was written with. -/
def AliasRoundTrips (home path : PathBuf) : Prop :=
  ∀ active contents d, aliasFileContents path active = .ok contents →
    d.files (vaultRootAliasPath home) = some (utf8 contents.toList) →
    ((readVaultRootAlias noFaults home).exec d).1 = .ok (some ⟨path, active⟩)

/-- What is an alias before it is deactivated is one to the same path afterwards. -/
def DeactivationKeepsPath (home : PathBuf) : Prop :=
  ∀ faults d found, ((readVaultRootAlias noFaults home).exec d).1 = .ok (some found) →
    ∃ active, ((readVaultRootAlias noFaults home).exec
      ((deactivateVaultRootAlias faults home).exec d).2).1 = .ok (some ⟨found.path, active⟩)

theorem deactivationKeepsPath (home : PathBuf) : DeactivationKeepsPath home := by
  intro faults d found hread
  obtain ⟨m, hrun⟩ := exists_exec_eq hread
  obtain ⟨raw, htext, -, hresult, -⟩ := aliasText_of_readVaultRootAlias hrun
  have hto : AliasTo home d found.path := ⟨raw, htext, target_of_result hresult⟩
  exact readVaultRootAlias_of_aliasTo rfl hto.exec_deactivateVaultRootAlias

/-- The alias that a written file is read as. -/
theorem readVaultRootAlias_of_contents {home path : PathBuf} {active : Bool} {contents : String}
    {d : Disk} (hcontents : aliasFileContents path active = .ok contents)
    (hfile : d.files (vaultRootAliasPath home) = some (utf8 contents.toList)) :
    ((readVaultRootAlias noFaults home).exec d).1 = .ok (some ⟨trimEnd path, active⟩) := by
  have habsolute := (pathAsAliasLine_eq_ok_iff.mp (aliasFileContents_eq_ok_iff.mp hcontents).1).2.1
  rw [(readVaultRootAlias_of_text rfl hfile (decodeUtf8_utf8 contents)).1, AliasScan.result,
    scanAlias_aliasFileContents hcontents]
  exact if_pos (isAbsolute_trimEnd habsolute)

theorem aliasRoundTrips_iff (home : PathBuf) {path line : PathBuf}
    (hline : pathAsAliasLine path = .ok line) :
    AliasRoundTrips home path ∧ DeactivationKeepsPath home ↔
      ∀ c ∈ path.toList.getLast?, isWhitespace c = false := by
  obtain ⟨rfl, habsolute, -, -⟩ := pathAsAliasLine_eq_ok_iff.mp hline
  rw [← trimEnd_eq_self_iff]
  constructor
  · rintro ⟨hround, -⟩
    have hcontents := (@aliasFileContents_eq_ok_iff _ true _).mpr ⟨hline, rfl⟩
    have hread := hround true _ ⟨fun _ => some (utf8 (String.toList _)), ∅, 0⟩ hcontents rfl
    rw [readVaultRootAlias_of_contents hcontents rfl, Except.ok.injEq, Option.some.injEq,
      VaultRootAlias.mk.injEq] at hread
    exact hread.1
  · intro htrim
    refine ⟨fun active contents d hcontents hfile => ?_, deactivationKeepsPath home⟩
    have hread := readVaultRootAlias_of_contents hcontents hfile
    rwa [htrim] at hread

theorem aliasRoundTrips_iff_data :
    AliasRoundTrips "/home/ana/upriv" "/media/disk one" ∧
        DeactivationKeepsPath "/home/ana/upriv" ↔
      ∀ c ∈ "/media/disk one".toList.getLast?, isWhitespace c = false :=
  aliasRoundTrips_iff "/home/ana/upriv"
    (pathAsAliasLine_eq_ok_iff.mpr ⟨rfl, by decide, by decide, by decide⟩)

/-- A directory name may end in a blank; the alias then points elsewhere. -/
theorem aliasRoundTrips_trailingBlank :
    pathAsAliasLine "/media/disk " = .ok "/media/disk " ∧
      ¬ AliasRoundTrips "/home/ana/upriv" "/media/disk " := by
  have hline : pathAsAliasLine "/media/disk " = .ok "/media/disk " :=
    pathAsAliasLine_eq_ok_iff.mpr ⟨rfl, by decide, by decide, by decide⟩
  refine ⟨hline, fun hround => ?_⟩
  obtain ⟨contents, hcontents⟩ : ∃ contents, aliasFileContents "/media/disk " true = .ok contents :=
    ⟨_, aliasFileContents_eq_ok_iff.mpr ⟨hline, rfl⟩⟩
  have hfile (d : Disk) (hd : d.files = fun _ => some (utf8 contents.toList)) :
      d.files (vaultRootAliasPath "/home/ana/upriv") = some (utf8 contents.toList) := by
    rw [hd]
  have hread := hround true contents ⟨fun _ => some (utf8 contents.toList), ∅, 0⟩ hcontents
    (hfile _ rfl)
  rw [readVaultRootAlias_of_contents hcontents (hfile _ rfl), Except.ok.injEq,
    Option.some.injEq, VaultRootAlias.mk.injEq] at hread
  exact absurd (trimEnd_eq_self_iff.mp hread.1 ' ' rfl) (by decide)

/-! ## Failing closed -/

section
variable {faults : Faults} {home : PathBuf} {bytes : Bytes} {raw : String} {d : Disk}

/-- The reader takes the alias for active: the last status line says so and there is
a path. -/
def ReadsActive (raw : String) : Prop :=
  (statuses (aliasLines raw)).getLast? = some (some true) ∧
    ∃ path, (paths (aliasLines raw)).head? = some path ∧ isAbsolute path = true

theorem active_scanAlias (raw : String) :
    (if (scanAlias raw).sawStatus then (scanAlias raw).active else false) =
      ((statuses (aliasLines raw)).getLast? == some (some true)) := by
  rw [scanAlias, foldl_line]
  cases statuses (aliasLines raw) <;> simp

theorem result_scanAlias_active_iff {path : PathBuf} :
    (∃ found, (scanAlias raw).result path = .ok (some found) ∧ found.active = true) ↔
      ReadsActive raw := by
  rw [AliasScan.result, ReadsActive, active_scanAlias, target_scanAlias]
  cases (paths (aliasLines raw)).head? with
  | none => simp
  | some target => by_cases habsolute : isAbsolute target = true <;> simp [habsolute]

/-- The healed file says what the file said, unless that was an active alias. -/
theorem result_healed {target path : PathBuf} {contents : String}
    (htarget : (scanAlias raw).target = some target)
    (hcontents : aliasFileContents target false = .ok contents) (hinactive : ¬ ReadsActive raw) :
    (scanAlias contents).result path = (scanAlias raw).result path := by
  have habsolute : isAbsolute target = true :=
    (pathAsAliasLine_eq_ok_iff.mp (aliasFileContents_eq_ok_iff.mp hcontents).1).2.1
  have hlast : ((statuses (aliasLines raw)).getLast? == some (some true)) = false := by
    rw [beq_eq_false_iff_ne]
    intro hlast
    refine hinactive ⟨hlast, target, ?_, habsolute⟩
    rw [← target_scanAlias, htarget]
  rw [AliasScan.result, AliasScan.result, scanAlias_aliasFileContents hcontents,
    trimEnd_of_target htarget, active_scanAlias, hlast, htarget]
  rfl

theorem mem_statuses_of_heal (hheal : (scanAlias raw).normalizeUnknownStatus = true) :
    none ∈ statuses (aliasLines raw) := by
  rw [scanAlias, foldl_line] at hheal
  simpa using hheal

/-- The healing rewrite keeps what is read unless the alias was read as active. -/
theorem HealedAlias.reread {m : Disk} (h : HealedAlias home (scanAlias raw) d m)
    (hcall : faults m.calls = none) (hfile : d.files (vaultRootAliasPath home) = some bytes)
    (hraw : decodeUtf8 bytes = some raw)
    (hinactive : none ∈ statuses (aliasLines raw) → ¬ ReadsActive raw) :
    ((readVaultRootAlias faults home).exec m).1 =
      (scanAlias raw).result (vaultRootAliasPath home) := by
  rcases h with hsame | ⟨target, contents, htarget, hheal, hcontents, hnew⟩
  · exact (readVaultRootAlias_of_text hcall (by rw [hsame, hfile]) hraw).1
  · obtain ⟨bytes', hfile', hraw'⟩ := aliasText_update home d.files contents hnew
    rw [(readVaultRootAlias_of_text hcall hfile' hraw').1]
    exact result_healed htarget hcontents (hinactive (mem_statuses_of_heal hheal))

/-- Reading fails closed and is stable, except for an unknown status before a last
line `status=active`. -/
theorem readVaultRootAlias_failsClosed_iff (hcall : faults d.calls = none)
    (hagain : faults ((readVaultRootAlias faults home).exec d).2.calls = none)
    (hfile : d.files (vaultRootAliasPath home) = some bytes)
    (hraw : decodeUtf8 bytes = some raw) :
    ((none ∈ statuses (aliasLines raw) → ∀ found,
        ((readVaultRootAlias faults home).exec d).1 = .ok (some found) → found.active = false) ∧
      ((readVaultRootAlias faults home).exec ((readVaultRootAlias faults home).exec d).2).1 =
        ((readVaultRootAlias faults home).exec d).1) ↔
      ¬ (none ∈ statuses (aliasLines raw) ∧ ReadsActive raw) := by
  obtain ⟨hresult, hhealed⟩ := @readVaultRootAlias_of_text faults _ _ _ _ hcall hfile hraw
  rw [hresult]
  constructor
  · rintro ⟨hclosed, -⟩ ⟨hunknown, hactive⟩
    obtain ⟨found, hfound, htrue⟩ := result_scanAlias_active_iff.mpr hactive
    rw [hclosed hunknown found hfound] at htrue
    exact Bool.false_ne_true htrue
  · intro hnot
    constructor
    · intro hunknown found hfound
      rw [← Bool.not_eq_true]
      intro htrue
      exact hnot ⟨hunknown, result_scanAlias_active_iff.mp ⟨found, hfound, htrue⟩⟩
    · exact hhealed.reread hagain hfile hraw fun hunknown hactive => hnot ⟨hunknown, hactive⟩

end

def mistypedAlias : String := "status=actve\n/media/disk\n"

def aliasDisk (raw : String) : Disk where
  files := fun _ => some (utf8 raw.toList)
  dirs := ∅
  calls := 0

theorem readVaultRootAlias_failsClosed_iff_mistyped :
    ((none ∈ statuses (aliasLines mistypedAlias) → ∀ found,
        ((readVaultRootAlias noFaults "/home/ana").exec (aliasDisk mistypedAlias)).1 =
          .ok (some found) → found.active = false) ∧
      ((readVaultRootAlias noFaults "/home/ana").exec
          ((readVaultRootAlias noFaults "/home/ana").exec (aliasDisk mistypedAlias)).2).1 =
        ((readVaultRootAlias noFaults "/home/ana").exec (aliasDisk mistypedAlias)).1) ↔
      ¬ (none ∈ statuses (aliasLines mistypedAlias) ∧ ReadsActive mistypedAlias) :=
  readVaultRootAlias_failsClosed_iff rfl rfl rfl (decodeUtf8_utf8 mistypedAlias)

/-- A status line was mistyped and a second one appended below it. -/
def twiceActiveAlias : String := "status=actve\n/media/disk\nstatus=active\n"

theorem aliasLines_twiceActiveAlias :
    aliasLines twiceActiveAlias =
      [.status none, .path "/media/disk", .status (some true)] := by
  delta twiceActiveAlias
  refine (congrArg (List.map aliasLine ∘ lines) String.toList_ofList).trans ?_
  decide +kernel

/-- The alias is read as active and rewritten as inactive. -/
theorem readVaultRootAlias_unknownThenActive :
    none ∈ statuses (aliasLines twiceActiveAlias) ∧
      ((readVaultRootAlias noFaults "/home/ana").exec (aliasDisk twiceActiveAlias)).1 =
        .ok (some ⟨"/media/disk", true⟩) := by
  constructor
  · rw [aliasLines_twiceActiveAlias]
    decide
  · rw [(readVaultRootAlias_of_text rfl rfl (decodeUtf8_utf8 twiceActiveAlias)).1,
      AliasScan.result, active_scanAlias, target_scanAlias, aliasLines_twiceActiveAlias]
    rfl

end Upriv
