import Upriv.Config.VaultConfig.Load
import Upriv.Paths.VaultRoot

/-!
# Listing the vaults of a vault-root

`list_vault_entries` of `vault/mod.rs`: the rows that the scan of
`.upriv/vaults` yields.  Names are byte strings, as on Unix; a name that is
not UTF-8 is shown with replacement characters.
-/

namespace Upriv

/-- `OsStr` on Unix. -/
abbrev OsStr := Bytes

/-- `OsStr::to_string_lossy`: the text of valid UTF-8, and a replacement
character for what is invalid. -/
structure Lossy where
  toStringLossy : OsStr → String
  of_valid : ∀ name text, decodeUtf8 name = some text → toStringLossy name = text
  of_invalid : ∀ name, decodeUtf8 name = none →
    '\uFFFD' ∈ (toStringLossy name).toList

/-! ## One configuration -/

/-- `load_vault_config_raw`, on what was read. -/
def parseVaultConfigRaw (codec : TomlCodec VaultConfig) (path : PathBuf)
    (dirName raw : String) : Result VaultConfig :=
  match codec.fromStr raw with
  | .error error => .error (.vaultConfigInvalid path ("invalid config.toml: " ++ error))
  | .ok parsed => do
      validateIdentity path dirName parsed
      return parsed.normalized

theorem loadVaultConfigRaw_eq (faults : Faults) (codec : TomlCodec VaultConfig)
    (vaultDir : PathBuf) :
    loadVaultConfigRaw faults codec vaultDir = (do
      let d ← get
      FallibleM.ensure (d.isFile (vaultConfigPath vaultDir))
        (.vaultConfigInvalid (vaultConfigPath vaultDir) "missing config.toml")
      let raw ← readToString faults (vaultConfigPath vaultDir)
      FallibleM.ofExcept (parseVaultConfigRaw codec (vaultConfigPath vaultDir)
        ((fileName vaultDir).getD "") raw)) := by
  unfold loadVaultConfigRaw
  refine bind_congr fun d => bind_congr fun _ => bind_congr fun raw => ?_
  unfold parseVaultConfigRaw
  cases codec.fromStr raw with
  | error error => rfl
  | ok parsed =>
      dsimp only
      cases validateIdentity (vaultConfigPath vaultDir) ((fileName vaultDir).getD "")
        parsed <;> rfl

/-- The identity of a configuration that loads is the name of its directory. -/
theorem id_of_parseVaultConfigRaw {codec : TomlCodec VaultConfig} {path : PathBuf}
    {dirName raw : String} {config : VaultConfig}
    (h : parseVaultConfigRaw codec path dirName raw = .ok config) :
    config.vault.id = dirName := by
  unfold parseVaultConfigRaw at h
  split at h
  · cases h
  · rename_i parsed _
    cases hvalid : validateIdentity path dirName parsed with
    | error error =>
        rw [hvalid] at h
        cases h
    | ok _ =>
        rw [hvalid] at h
        cases h
        unfold validateIdentity at hvalid
        split at hvalid
        · cases hvalid
        · split at hvalid
          · cases hvalid
          · split at hvalid
            · cases hvalid
            · rename_i hid
              exact not_not.mp hid

/-! ## The scan -/

/-- What the scan learns of one name in `vaults/`: the file type, without
following links, and the outcome of reading `config.toml` below it. -/
structure VaultsDirEntry where
  name : OsStr
  isDir : Bool
  /-- `none` when there is no such file. -/
  config : Option (Except IoError Bytes)

/-- One vault under a vault-root. -/
structure VaultListEntry where
  id : String
  displayName : String
  order : Int64
  note : String
  hidden : Bool
  passwordHint : String
  storageMode : VaultStorageMode
  /-- Absolute path to `vaults/<id>/`. -/
  vaultDir : OsStr
  config : VaultConfig

section
variable (lossy : Lossy) (codec : TomlCodec VaultConfig) (root : VaultRoot)

/-- `read_dir` joins the name to the directory. -/
def entryPath (entry : VaultsDirEntry) : OsStr :=
  utf8 (joinPath root.vaultsDir "").toList ++ entry.name

/-- `load_vault_config_raw` on a directory of the scan. -/
def loadEntryConfig (entry : VaultsDirEntry) : Result VaultConfig :=
  let dirName := lossy.toStringLossy entry.name
  let path := vaultConfigPath (joinPath root.vaultsDir dirName)
  match entry.config with
  | none => .error (.vaultConfigInvalid path "missing config.toml")
  | some (.error error) => .error (.io error)
  | some (.ok bytes) =>
    match decodeUtf8 bytes with
    | none => .error (.io .invalidUtf8)
    | some raw => parseVaultConfigRaw codec path dirName raw

/-- The row of one directory; invalid ones are skipped. -/
def listedRow (entry : VaultsDirEntry) : Option VaultListEntry :=
  if !entry.isDir then none
  else
    match loadEntryConfig lossy codec root entry with
    | .error _ => none
    | .ok config => some {
        id := config.vault.id
        displayName := config.vault.displayName
        order := config.vault.order
        note := config.vault.note
        hidden := config.vault.hidden
        passwordHint := config.vault.passwordHint
        storageMode := config.storageMode
        vaultDir := entryPath root entry
        config := config }

/-- By order, then by name and id in lower case. -/
def listBefore (toLowercase : String → String) (a b : VaultListEntry) : Bool :=
  let order := compare a.order b.order
    |>.then (compare (toLowercase a.displayName) (toLowercase b.displayName))
    |>.then (compare (toLowercase a.id) (toLowercase b.id))
  order != .gt

/-- `vaultsDir` is what `read_dir` yields, if there is such a directory; each
item may be an error. -/
def listVaultEntries (toLowercase : String → String)
    (vaultsDir : Option (List (Except IoError VaultsDirEntry))) :
    Result (List VaultListEntry) :=
  match vaultsDir with
  | none => .ok []
  | some items => do
      let entries ← (items.mapM id).mapError UprivError.io
      return (entries.filterMap (listedRow lossy codec root)).mergeSort
        (listBefore toLowercase)

end

/-! ## Listed ids -/

section
variable {lossy : Lossy} {codec : TomlCodec VaultConfig} {root : VaultRoot}

/-- The listed id names the listed directory. -/
def VaultListEntry.Addressed (root : VaultRoot) (entry : VaultListEntry) : Prop :=
  ∃ dir, root.vaultDir entry.id = .ok dir ∧ utf8 dir.toList = entry.vaultDir

theorem mapM_id_eq_ok {ε α : Type} {items : List (Except ε α)} {entries : List α} :
    items.mapM id = .ok entries ↔ items = entries.map .ok := by
  induction items generalizing entries with
  | nil => cases entries <;> simp [pure, Except.pure]
  | cons item items ih =>
      rw [List.mapM_cons]
      cases item with
      | error error => cases entries <;> simp [bind, Except.bind]
      | ok entry =>
          cases hrest : items.mapM id with
          | error error =>
              have hne : ∀ entries : List α, items ≠ entries.map .ok := by
                intro entries heq
                rw [ih.mpr heq] at hrest
                cases hrest
              cases entries <;> simp [bind, Except.bind, hne]
          | ok rest =>
              have hitems := ih.mp hrest
              cases entries with
              | nil => simp [bind, Except.bind, pure, Except.pure]
              | cons first entries =>
                  have hmap : items = entries.map .ok ↔ rest = entries := by
                    rw [← ih, hrest, Except.ok.injEq]
                  simp [bind, Except.bind, pure, Except.pure, hmap]

theorem mem_listVaultEntries {toLowercase : String → String}
    {vaultsDir : Option (List (Except IoError VaultsDirEntry))}
    {entries : List VaultListEntry}
    (h : listVaultEntries lossy codec root toLowercase vaultsDir = .ok entries)
    {row : VaultListEntry} :
    row ∈ entries ↔ ∃ entry, .ok entry ∈ vaultsDir.getD [] ∧
      listedRow lossy codec root entry = some row := by
  unfold listVaultEntries at h
  cases vaultsDir with
  | none =>
      cases h
      simp
  | some items =>
      dsimp only at h
      cases hitems : items.mapM id with
      | error error =>
          rw [hitems] at h
          cases h
      | ok scanned =>
          rw [hitems] at h
          cases h
          rw [List.mem_mergeSort, List.mem_filterMap, mapM_id_eq_ok.mp hitems]
          simp

theorem listedRow_eq_some {entry : VaultsDirEntry} {row : VaultListEntry}
    (h : listedRow lossy codec root entry = some row) :
    row.id = lossy.toStringLossy entry.name ∧ row.vaultDir = entryPath root entry := by
  unfold listedRow at h
  split at h
  · cases h
  · split at h
    · cases h
    · rename_i config hload
      cases h
      refine ⟨?_, rfl⟩
      unfold loadEntryConfig at hload
      dsimp only at hload
      split at hload
      · cases hload
      · cases hload
      · split at hload
        · cases hload
        · exact id_of_parseVaultConfigRaw hload

/-- A name that is a valid id is the text of its bytes. -/
theorem utf8_of_slug_name {name : OsStr}
    (h : slugIdIsValid (lossy.toStringLossy name) = true) :
    utf8 (lossy.toStringLossy name).toList = name := by
  cases hdecode : decodeUtf8 name with
  | none =>
      have hreplaced := all_isSlugChar h (lossy.of_invalid name hdecode)
      exact absurd hreplaced (by decide)
  | some text =>
      rw [lossy.of_valid name text hdecode]
      exact utf8_of_decodeUtf8 hdecode

/-- A row is the directory's own exactly when the directory has a valid name. -/
theorem addressed_iff {entry : VaultsDirEntry} {row : VaultListEntry}
    (h : listedRow lossy codec root entry = some row) :
    row.Addressed root ↔ slugIdIsValid (lossy.toStringLossy entry.name) = true := by
  obtain ⟨hid, hdir⟩ := listedRow_eq_some h
  have hjoin (id : String) : utf8 (joinPath root.vaultsDir id).toList =
      utf8 (joinPath root.vaultsDir "").toList ++ utf8 id.toList := by
    rw [joinPath_eq, utf8_append]
  rw [VaultListEntry.Addressed, hid, hdir, entryPath]
  constructor
  · rintro ⟨dir, hvaultDir, hpath⟩
    obtain ⟨component, hcomponent, hjoined⟩ := except_bind_eq_ok.mp hvaultDir
    cases hjoined
    obtain ⟨rfl, hvalid⟩ := trimmed_of_vaultIdComponent hcomponent
    rw [hjoin, List.append_cancel_left_eq] at hpath
    have hdecode := decodeUtf8_utf8 (trim (lossy.toStringLossy entry.name))
    rw [hpath] at hdecode
    rw [lossy.of_valid _ _ hdecode]
    exact hvalid
  · intro hvalid
    refine ⟨joinPath root.vaultsDir (lossy.toStringLossy entry.name), ?_, ?_⟩
    · rw [VaultRoot.vaultDir, vaultIdComponent, trim_of_slugIdIsValid hvalid, if_pos hvalid]
      rfl
    · rw [hjoin, utf8_of_slug_name hvalid]

end

/-- Every listed id addresses the listed directory exactly when every listed
directory has a valid id as its name. -/
theorem listVaultEntries_addressed_iff {lossy : Lossy} {codec : TomlCodec VaultConfig}
    {root : VaultRoot} {toLowercase : String → String}
    {vaultsDir : Option (List (Except IoError VaultsDirEntry))}
    {entries : List VaultListEntry}
    (h : listVaultEntries lossy codec root toLowercase vaultsDir = .ok entries) :
    (∀ row ∈ entries, row.Addressed root) ↔
      ∀ entry, .ok entry ∈ vaultsDir.getD [] →
        (listedRow lossy codec root entry).isSome = true →
        slugIdIsValid (lossy.toStringLossy entry.name) = true := by
  constructor
  · intro hall entry hentry hlisted
    obtain ⟨row, hrow⟩ := Option.isSome_iff_exists.mp hlisted
    exact (addressed_iff hrow).mp
      (hall row ((mem_listVaultEntries h).mpr ⟨entry, hentry, hrow⟩))
  · intro hall row hmem
    obtain ⟨entry, hentry, hrow⟩ := (mem_listVaultEntries h).mp hmem
    refine (addressed_iff hrow).mpr (hall entry hentry ?_)
    rw [hrow]
    rfl

/-! ## Two directories -/

def sampleLossy : Lossy where
  toStringLossy name := (decodeUtf8 name).getD "\uFFFD"
  of_valid name text h := by rw [h, Option.getD_some]
  of_invalid name h := by
    rw [h, Option.getD_none]
    decide

def sampleConfigText (id : String) : String :=
  "[vault]\nid = \"" ++ id ++ "\"\ndisplay_name = \"Notes\"\n"

/-- A reader that knows the configurations of the two directories. -/
def sampleConfigReader : TomlCodec VaultConfig :=
  .reader fun raw =>
    if raw = sampleConfigText "notes" then .ok { vault := ⟨"notes", "Notes", 0, "", false, ""⟩ }
    else if raw = sampleConfigText " notes" then
      .ok { vault := ⟨" notes", "Notes", 0, "", false, ""⟩ }
    else .error "unsupported text"

/-- A directory under `vaults/` whose configuration has its name as the id. -/
def sampleDirEntry (id : String) : VaultsDirEntry where
  name := utf8 id.toList
  isDir := true
  config := some (.ok (utf8 (sampleConfigText id).toList))

def sampleListRoot : VaultRoot := ⟨"/home/user/root"⟩

/-- A `vaults/` with such directories. -/
def sampleVaultsDir (ids : List String) : Option (List (Except IoError VaultsDirEntry)) :=
  some (ids.map fun id => .ok (sampleDirEntry id))

theorem listVaultEntries_addressed_iff_notes :
    ∃ entries, listVaultEntries sampleLossy sampleConfigReader sampleListRoot id
        (sampleVaultsDir ["notes"]) = .ok entries ∧
      ((∀ row ∈ entries, row.Addressed sampleListRoot) ↔
        ∀ entry, .ok entry ∈ (sampleVaultsDir ["notes"]).getD [] →
          (listedRow sampleLossy sampleConfigReader sampleListRoot entry).isSome = true →
          slugIdIsValid (sampleLossy.toStringLossy entry.name) = true) := by
  obtain ⟨entries, hentries⟩ : ∃ entries, listVaultEntries sampleLossy sampleConfigReader
      sampleListRoot id (sampleVaultsDir ["notes"]) = .ok entries := ⟨_, rfl⟩
  exact ⟨entries, hentries, listVaultEntries_addressed_iff hentries⟩

/-- A directory whose name begins with a blank is listed, and its id addresses
the directory beside it. -/
theorem listVaultEntries_notAddressed :
    ∃ entries, listVaultEntries sampleLossy sampleConfigReader sampleListRoot id
        (sampleVaultsDir ["notes", " notes"]) = .ok entries ∧
      ∃ row ∈ entries, row.id = " notes" ∧ ¬ row.Addressed sampleListRoot ∧
        ∃ other ∈ entries, other.id = "notes" ∧
          sampleListRoot.vaultDir row.id = sampleListRoot.vaultDir other.id := by
  obtain ⟨entries, hentries⟩ : ∃ entries, listVaultEntries sampleLossy sampleConfigReader
      sampleListRoot id (sampleVaultsDir ["notes", " notes"]) = .ok entries := ⟨_, rfl⟩
  have hlisted (id : String) (h : (listedRow sampleLossy sampleConfigReader sampleListRoot
      (sampleDirEntry id)).isSome = true) (hid : id ∈ ["notes", " notes"]) :
      ∃ row ∈ entries, listedRow sampleLossy sampleConfigReader sampleListRoot
        (sampleDirEntry id) = some row := by
    obtain ⟨row, hrow⟩ := Option.isSome_iff_exists.mp h
    refine ⟨row, (mem_listVaultEntries hentries).mpr ⟨_, ?_, hrow⟩, hrow⟩
    exact List.mem_map.mpr ⟨id, hid, rfl⟩
  obtain ⟨row, hmem, hrow⟩ := hlisted " notes" (by decide +kernel) (by simp)
  obtain ⟨other, hotherMem, hother⟩ := hlisted "notes" (by decide +kernel) (by simp)
  have hrowId : row.id = " notes" := by
    rw [(listedRow_eq_some hrow).1]
    decide +kernel
  have hotherId : other.id = "notes" := by
    rw [(listedRow_eq_some hother).1]
    decide +kernel
  refine ⟨entries, hentries, row, hmem, hrowId, ?_, other, hotherMem, hotherId, ?_⟩
  · rw [addressed_iff hrow]
    decide +kernel
  · rw [hrowId, hotherId]
    decide +kernel

end Upriv
