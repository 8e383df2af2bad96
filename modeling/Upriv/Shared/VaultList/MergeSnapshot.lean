import Upriv.Config.VaultConfig.Types
import Upriv.Contents.StoreFiles
import Upriv.Shared.VaultList.Sort
import Upriv.Support.Keyed
import Mathlib.Algebra.Field.Rat
import Mathlib.Data.NNRat.Defs

/-!
# Merging a snapshot of the vault list

`domain/vault-list/mergeSnapshot.ts` of the shared TypeScript code.  A list
that was fetched before a vault was opened or closed here must not undo that.
A time is a non-negative number of milliseconds.
-/

namespace Upriv.Shared.VaultList

/-- A list row with all its fields. -/
structure ListedVault extends VaultListItem where
  storageMode : VaultStorageMode
  passwordHint : Option String
  lastAccessedWhen : String
  note : String
  unlockPreset : Option Contents.KdfUnlockPreset
  deriving DecidableEq, Repr

/-- `local || incoming` on texts. -/
def orText (mine theirs : String) : String := if mine = "" then theirs else mine

def keepLocalSession (row previous : ListedVault) : ListedVault :=
  { row with
    session := previous.session
    lastAccessedAt := orText previous.lastAccessedAt row.lastAccessedAt
    lastAccessedWhen := orText previous.lastAccessedWhen row.lastAccessedWhen }

/-- `new Map(current.map((vault) => [vault.id, vault]))`: the last vault with the id. -/
def currentById (current : List ListedVault) (id : String) : Option ListedVault :=
  current.reverse.find? (·.id = id)

/-- `sessionWrites.get(id) ?? 0`. -/
def writtenAt (sessionWrites : String → Option ℚ≥0) (id : String) : ℚ≥0 :=
  (sessionWrites id).getD 0

/-- The row for an id that both lists have. -/
def mergeRow (row previous : ListedVault) (writtenAt fetchStartedAt : ℚ≥0) : ListedVault :=
  if previous.session = some .closing ∧ row.session ≠ some .closing then
    keepLocalSession row previous
  else if previous.session = some .opened ∧ row.session = some .opened then
    { row with
      lastAccessedAt := orText previous.lastAccessedAt row.lastAccessedAt
      lastAccessedWhen := orText previous.lastAccessedWhen row.lastAccessedWhen }
  else if writtenAt ≤ fetchStartedAt then row
  else if previous.session = some .opened ∨ previous.session = some .closing then
    keepLocalSession row previous
  else { row with session := previous.session }

def mergeVaultListSnapshot (current incoming : List ListedVault)
    (sessionWrites : String → Option ℚ≥0) (fetchStartedAt : ℚ≥0) : List ListedVault :=
  let merged := incoming.map fun row =>
    match currentById current row.id with
    | none => row
    | some previous => mergeRow row previous (writtenAt sessionWrites row.id) fetchStartedAt
  merged ++ current.filter fun previous =>
    previous.id ∉ incoming.map (·.id) && fetchStartedAt < writtenAt sessionWrites previous.id

/-! ## What a merge keeps -/

/-- The session of the vault was written after the fetch started. -/
def WrittenSince (sessionWrites : String → Option ℚ≥0) (fetchStartedAt : ℚ≥0)
    (id : String) : Prop :=
  ∃ time, sessionWrites id = some time ∧ fetchStartedAt < time

/-- The local last-accessed is shown: the vault is open or closing here, and
the snapshot agrees that it is open, or is too old to know. -/
def KeepsLastAccessed (row previous : ListedVault) (since : Prop) : Prop :=
  previous.session = some .opened ∧ (row.session = some .opened ∨ since) ∨
    previous.session = some .closing ∧ (row.session ≠ some .closing ∨ since)

/-- The row of the snapshot as the list shows it, next to the local one. -/
structure MergedRow (row previous shown : ListedVault) (since : Prop) : Prop where
  /-- Closing goes on. -/
  closing : previous.session = some .closing → shown.session = some .closing
  written : since → shown.session = previous.session
  other : previous.session ≠ some .closing → ¬ since → shown.session = row.session
  /-- Nothing but the session and the last access is local. -/
  rest : shown = { row with
    session := shown.session
    lastAccessedAt := shown.lastAccessedAt
    lastAccessedWhen := shown.lastAccessedWhen }
  keeps : KeepsLastAccessed row previous since →
    shown.lastAccessedAt = orText previous.lastAccessedAt row.lastAccessedAt ∧
      shown.lastAccessedWhen = orText previous.lastAccessedWhen row.lastAccessedWhen
  takes : ¬ KeepsLastAccessed row previous since →
    shown.lastAccessedAt = row.lastAccessedAt ∧ shown.lastAccessedWhen = row.lastAccessedWhen

/-- The merged list shows each vault once: those of the snapshot, merged with
the local rows, and those written here since the fetch started. -/
structure Merges (current incoming : List ListedVault) (since : String → Prop)
    (merged : List ListedVault) : Prop where
  once : (merged.map (·.id)).Nodup
  ids : ∀ id, id ∈ merged.map (·.id) ↔
    id ∈ incoming.map (·.id) ∨ id ∈ current.map (·.id) ∧ since id
  both : ∀ shown ∈ merged, ∀ row ∈ incoming, ∀ previous ∈ current, row.id = shown.id →
    previous.id = shown.id → MergedRow row previous shown (since shown.id)
  onlyIncoming : ∀ shown ∈ merged, shown.id ∉ current.map (·.id) → shown ∈ incoming
  onlyCurrent : ∀ shown ∈ merged, shown.id ∉ incoming.map (·.id) → shown ∈ current

/-! ## One row -/

section
variable {row previous : ListedVault} {writes : String → Option ℚ≥0} {started written : ℚ≥0}

theorem writtenSince_iff {id : String} :
    WrittenSince writes started id ↔ started < writtenAt writes id := by
  rw [WrittenSince, writtenAt]
  cases hwrite : writes id with
  | none =>
      have hnever : ¬ started < 0 := not_lt_bot
      simp [hnever]
  | some time => simp

theorem mergeRow_id : (mergeRow row previous written started).id = row.id := by
  rw [mergeRow, keepLocalSession]
  split_ifs <;> rfl

/-- The chain of returns, as a table. -/
theorem mergedRow_mergeRow :
    MergedRow row previous (mergeRow row previous written started) (started < written) := by
  rw [mergeRow]
  split
  · rename_i hclosing
    have hkeeps : KeepsLastAccessed row previous (started < written) :=
      .inr ⟨hclosing.1, .inl hclosing.2⟩
    exact ⟨fun h => h, fun _ => rfl, fun hnot => absurd hclosing.1 hnot, rfl,
      fun _ => ⟨rfl, rfl⟩, fun hnot => absurd hkeeps hnot⟩
  · rename_i hflushed
    split
    · rename_i hopen
      have hkeeps : KeepsLastAccessed row previous (started < written) :=
        .inl ⟨hopen.1, .inl hopen.2⟩
      have hsame : row.session = previous.session := hopen.2.trans hopen.1.symm
      exact ⟨fun h => hsame.trans h, fun _ => hsame, fun _ _ => rfl, rfl,
        fun _ => ⟨rfl, rfl⟩, fun hnot => absurd hkeeps hnot⟩
    · rename_i hopen
      -- Closing here, the snapshot says closing too.
      have hsame : previous.session = some .closing → row.session = some .closing := by
        intro h
        by_contra hrow
        exact hflushed ⟨h, hrow⟩
      split
      · rename_i hold
        have hnot : ¬ started < written := not_lt.mpr hold
        refine ⟨hsame, fun h => absurd h hnot, fun _ _ => rfl, rfl, ?_, fun _ => ⟨rfl, rfl⟩⟩
        rintro (⟨hopened, hrow | hsince⟩ | ⟨hclosing, hrow | hsince⟩)
        · exact absurd ⟨hopened, hrow⟩ hopen
        · exact absurd hsince hnot
        · exact absurd (hsame hclosing) hrow
        · exact absurd hsince hnot
      · rename_i hnew
        have hsince : started < written := not_le.mp hnew
        split
        · rename_i hlive
          have hkeeps : KeepsLastAccessed row previous (started < written) :=
            hlive.imp (fun h => ⟨h, .inr hsince⟩) fun h => ⟨h, .inr hsince⟩
          exact ⟨fun h => h, fun _ => rfl, fun _ hnot => absurd hsince hnot, rfl,
            fun _ => ⟨rfl, rfl⟩, fun hnot => absurd hkeeps hnot⟩
        · rename_i hidle
          refine ⟨fun h => h, fun _ => rfl, fun _ hnot => absurd hsince hnot, rfl, ?_,
            fun _ => ⟨rfl, rfl⟩⟩
          intro hkeeps
          exact absurd (hkeeps.imp And.left And.left) hidle

end

/-! ## The whole list -/

section
variable {current incoming : List ListedVault} {writes : String → Option ℚ≥0} {started : ℚ≥0}

theorem currentById_eq_some (hids : (current.map (·.id)).Nodup) {id : String}
    {v : ListedVault} : currentById current id = some v ↔ v ∈ current ∧ v.id = id :=
  find?_key_reverse_eq_some hids

theorem currentById_eq_none {id : String} :
    currentById current id = none ↔ id ∉ current.map (·.id) :=
  find?_key_reverse_eq_none

/-- What the list shows for a row of the snapshot. -/
def shownRow (current : List ListedVault) (writes : String → Option ℚ≥0) (started : ℚ≥0)
    (row : ListedVault) : ListedVault :=
  match currentById current row.id with
  | none => row
  | some previous => mergeRow row previous (writtenAt writes row.id) started

theorem shownRow_id (row : ListedVault) : (shownRow current writes started row).id = row.id := by
  rw [shownRow]
  split
  · rfl
  · exact mergeRow_id

theorem map_id_shownRow :
    (incoming.map (shownRow current writes started)).map (·.id) = incoming.map (·.id) := by
  rw [List.map_map]
  exact List.map_congr_left fun row _ => shownRow_id row

/-- The rows that are kept without the snapshot. -/
def writtenHere (current incoming : List ListedVault) (writes : String → Option ℚ≥0)
    (started : ℚ≥0) : List ListedVault :=
  current.filter fun previous =>
    previous.id ∉ incoming.map (·.id) && started < writtenAt writes previous.id

theorem mem_writtenHere {previous : ListedVault} :
    previous ∈ writtenHere current incoming writes started ↔
      previous ∈ current ∧ previous.id ∉ incoming.map (·.id) ∧
        WrittenSince writes started previous.id := by
  rw [writtenHere, List.mem_filter, Bool.and_eq_true, decide_eq_true_iff, decide_eq_true_iff,
    writtenSince_iff]

theorem mergeVaultListSnapshot_eq :
    mergeVaultListSnapshot current incoming writes started =
      incoming.map (shownRow current writes started) ++
        writtenHere current incoming writes started :=
  rfl

/-- A merged row comes from the snapshot or was written here. -/
theorem mem_mergeVaultListSnapshot {shown : ListedVault} :
    shown ∈ mergeVaultListSnapshot current incoming writes started ↔
      (∃ row ∈ incoming, shownRow current writes started row = shown) ∨
        shown ∈ writtenHere current incoming writes started := by
  rw [mergeVaultListSnapshot_eq, List.mem_append, List.mem_map]

/-- The merged list, whatever the two lists and the times are. -/
theorem mergeVaultListSnapshot_merges (writes : String → Option ℚ≥0) (started : ℚ≥0)
    (hcurrent : (current.map (·.id)).Nodup) (hincoming : (incoming.map (·.id)).Nodup) :
    Merges current incoming (WrittenSince writes started)
      (mergeVaultListSnapshot current incoming writes started) := by
  constructor
  case once =>
    rw [mergeVaultListSnapshot_eq, List.map_append, map_id_shownRow, List.nodup_append]
    refine ⟨hincoming, hcurrent.sublist (List.filter_sublist.map _), ?_⟩
    rintro id hid _ hid' rfl
    obtain ⟨previous, hprevious, rfl⟩ := List.mem_map.mp hid'
    exact (mem_writtenHere.mp hprevious).2.1 hid
  case ids =>
    intro id
    rw [mergeVaultListSnapshot_eq, List.map_append, map_id_shownRow, List.mem_append]
    by_cases hid : id ∈ incoming.map (·.id)
    · simp only [hid, true_or]
    · simp only [hid, false_or]
      constructor
      · intro h
        obtain ⟨previous, hprevious, rfl⟩ := List.mem_map.mp h
        obtain ⟨hmem, _, hsince⟩ := mem_writtenHere.mp hprevious
        exact ⟨List.mem_map_of_mem hmem, hsince⟩
      · rintro ⟨h, hsince⟩
        obtain ⟨previous, hmem, rfl⟩ := List.mem_map.mp h
        exact List.mem_map_of_mem (mem_writtenHere.mpr ⟨hmem, hid, hsince⟩)
  case both =>
    intro shown hshown row hrow previous hprevious hid hpreviousId
    rcases mem_mergeVaultListSnapshot.mp hshown with ⟨source, hsource, rfl⟩ | hhere
    · rw [shownRow_id] at hid hpreviousId
      obtain rfl : row = source := List.inj_on_of_nodup_map hincoming hrow hsource hid
      rw [shownRow_id]
      have hfind : currentById current row.id = some previous :=
        (currentById_eq_some hcurrent).mpr ⟨hprevious, hpreviousId⟩
      have hsince := @writtenSince_iff writes started row.id
      rw [shownRow, hfind, hsince]
      exact mergedRow_mergeRow
    · have hnot := (mem_writtenHere.mp hhere).2.1
      rw [← hid] at hnot
      exact absurd (List.mem_map_of_mem hrow) hnot
  case onlyIncoming =>
    intro shown hshown hnot
    rcases mem_mergeVaultListSnapshot.mp hshown with ⟨row, hrow, rfl⟩ | hhere
    · rw [shownRow_id, ← currentById_eq_none] at hnot
      rwa [shownRow, hnot]
    · exact absurd (List.mem_map_of_mem (mem_writtenHere.mp hhere).1) hnot
  case onlyCurrent =>
    intro shown hshown hnot
    rcases mem_mergeVaultListSnapshot.mp hshown with ⟨row, hrow, rfl⟩ | hhere
    · rw [shownRow_id] at hnot
      exact absurd (List.mem_map_of_mem hrow) hnot
    · exact (mem_writtenHere.mp hhere).1

end

/-- `notes` is closing here; `taxes` was created here after the fetch. -/
theorem mergeVaultListSnapshot_merges_closing :
    let row (id : String) (session : Option VaultSession) : ListedVault :=
      ⟨⟨id, id, session, some 1, none, ""⟩, .encryptedDir, none, "", "", none⟩
    Merges [row "notes" (some .closing), row "taxes" none] [row "notes" none]
      (WrittenSince (fun id => if id = "taxes" then some 2 else none) 1)
      (mergeVaultListSnapshot [row "notes" (some .closing), row "taxes" none]
        [row "notes" none] (fun id => if id = "taxes" then some 2 else none) 1) :=
  mergeVaultListSnapshot_merges _ 1 (by decide) (by decide)

end Upriv.Shared.VaultList
