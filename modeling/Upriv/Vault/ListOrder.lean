import Upriv.Support.StableSort
import Upriv.Vault.Listing

/-!
# The order of the vault list

`list_vault_entries` sorts by order, name and id, the last two in lower case,
and the sort is stable.  The file system yields the directories in any order;
rows with one key stand in the order of the scan.
-/

namespace Upriv

/-- The three comparisons of the sort give equality. -/
def VaultListEntry.SameSortKey (toLowercase : String → String) (a b : VaultListEntry) :
    Prop :=
  a.order = b.order ∧ toLowercase a.displayName = toLowercase b.displayName ∧
    toLowercase a.id = toLowercase b.id

instance (toLowercase : String → String) (a b : VaultListEntry) :
    Decidable (a.SameSortKey toLowercase b) :=
  inferInstanceAs (Decidable (_ ∧ _))

section
variable (toLowercase : String → String)

/-- The sort key comparison. -/
def compareEntries : VaultListEntry → VaultListEntry → Ordering :=
  compareLex (compareOn VaultListEntry.order)
    (compareLex (compareOn fun entry => toLowercase entry.displayName)
      (compareOn fun entry => toLowercase entry.id))

theorem listBefore_eq (a b : VaultListEntry) :
    listBefore toLowercase a b = (compareEntries toLowercase a b).isLE := by
  have hthen (x y z : Ordering) : ((x.then y).then z != .gt) = (x.then (y.then z)).isLE := by
    cases x <;> cases y <;> cases z <;> rfl
  exact hthen _ _ _

instance : Std.TransCmp (compareEntries toLowercase) :=
  inferInstanceAs (Std.TransCmp (compareLex _ _))

theorem listBefore_trans (a b c : VaultListEntry) (hab : listBefore toLowercase a b = true)
    (hbc : listBefore toLowercase b c = true) : listBefore toLowercase a c = true := by
  rw [listBefore_eq] at hab hbc ⊢
  exact Std.TransCmp.isLE_trans hab hbc

theorem listBefore_total (a b : VaultListEntry) :
    (listBefore toLowercase a b || listBefore toLowercase b a) = true := by
  have hswap : compareEntries toLowercase a b = (compareEntries toLowercase b a).swap :=
    Std.OrientedCmp.eq_swap
  rw [listBefore_eq, listBefore_eq, hswap]
  cases compareEntries toLowercase b a <;> rfl

theorem tied_listBefore {a b : VaultListEntry} :
    Tied (listBefore toLowercase) a b ↔ a.SameSortKey toLowercase b := by
  have hkey : a.SameSortKey toLowercase b ↔ compareEntries toLowercase a b = .eq := by
    simp [VaultListEntry.SameSortKey, compareEntries, compareLex, compareOn,
      Ordering.then_eq_eq]
  rw [Tied, listBefore_eq, listBefore_eq, hkey]
  constructor
  · rintro ⟨hab, hba⟩
    exact Std.OrientedCmp.isLE_antisymm hab hba
  · intro heq
    have hswap : compareEntries toLowercase b a = (compareEntries toLowercase a b).swap :=
      Std.OrientedCmp.eq_swap
    rw [hswap, heq]
    exact ⟨rfl, rfl⟩

end

section
variable {lossy : Lossy} {codec : TomlCodec VaultConfig} {root : VaultRoot}
  {toLowercase : String → String}

theorem listVaultEntries_of_scan (entries : List VaultsDirEntry) :
    listVaultEntries lossy codec root toLowercase (some (entries.map .ok)) =
      .ok ((entries.filterMap (listedRow lossy codec root)).mergeSort
        (listBefore toLowercase)) := by
  have hscan : (entries.map Except.ok : List (Except IoError VaultsDirEntry)).mapM id =
      .ok entries := mapM_id_eq_ok.mpr rfl
  simp only [listVaultEntries, hscan]
  rfl

/-- Rows of different directories are different. -/
theorem nodup_listedRows {entries : List VaultsDirEntry}
    (hnames : (entries.map (·.name)).Nodup) :
    (entries.filterMap (listedRow lossy codec root)).Nodup := by
  refine List.Pairwise.filterMap _ ?_ (List.pairwise_map.mp hnames)
  rintro a b hne row hrow row' hrow' rfl
  have hpath := (listedRow_eq_some hrow).2.symm.trans (listedRow_eq_some hrow').2
  exact hne (List.append_cancel_left hpath)

/-- The order of the scan does not show in the list exactly when the sort key
tells the listed vaults apart. -/
theorem listVaultEntries_scan_iff {entries : List VaultsDirEntry}
    (hnames : (entries.map (·.name)).Nodup) :
    (∀ scan scan' : List VaultsDirEntry, scan.Perm entries → scan'.Perm entries →
        listVaultEntries lossy codec root toLowercase (some (scan.map .ok)) =
          listVaultEntries lossy codec root toLowercase (some (scan'.map .ok))) ↔
      (entries.filterMap (listedRow lossy codec root)).Pairwise
        fun a b => ¬ a.SameSortKey toLowercase b := by
  simp only [listVaultEntries_of_scan, Except.ok.injEq, ← tied_listBefore]
  exact mergeSort_filterMap_perm_iff (listBefore_trans toLowercase)
    (listBefore_total toLowercase) (nodup_listedRows hnames)

end

/-! ## Two directories -/

/-- `str::to_lowercase` on ASCII. -/
def asciiLowercase (s : String) : String := String.ofList (s.toList.map Char.toLower)

/-- Two ids that differ in lower case too. -/
theorem listVaultEntries_scan_iff_notes :
    ((["notes", " notes"].map sampleDirEntry).filterMap
        (listedRow sampleLossy sampleConfigReader sampleListRoot)).length = 2 ∧
      ∀ scan scan' : List VaultsDirEntry,
        scan.Perm (["notes", " notes"].map sampleDirEntry) →
        scan'.Perm (["notes", " notes"].map sampleDirEntry) →
        listVaultEntries sampleLossy sampleConfigReader sampleListRoot asciiLowercase
            (some (scan.map .ok)) =
          listVaultEntries sampleLossy sampleConfigReader sampleListRoot asciiLowercase
            (some (scan'.map .ok)) := by
  refine ⟨by decide +kernel, (listVaultEntries_scan_iff ?_).mpr ?_⟩
  · decide +kernel
  · decide +kernel

/-- A reader that knows the configurations of two vaults named `Notes`. -/
def caseConfigReader : TomlCodec VaultConfig :=
  .reader fun raw =>
    if raw = sampleConfigText "notes" then .ok { vault := ⟨"notes", "Notes", 0, "", false, ""⟩ }
    else if raw = sampleConfigText "Notes" then
      .ok { vault := ⟨"Notes", "Notes", 0, "", false, ""⟩ }
    else .error "unsupported text"

/-- `Notes` and `notes` are different vaults, and the scan decides which of them
comes first. -/
theorem listVaultEntries_scanOrder :
    listVaultEntries sampleLossy caseConfigReader sampleListRoot asciiLowercase
        (sampleVaultsDir ["Notes", "notes"]) ≠
      listVaultEntries sampleLossy caseConfigReader sampleListRoot asciiLowercase
        (sampleVaultsDir ["notes", "Notes"]) := by
  have hscan (ids : List String) : sampleVaultsDir ids =
      some ((ids.map sampleDirEntry).map .ok) := by
    rw [List.map_map]
    rfl
  intro hsame
  rw [hscan, hscan, listVaultEntries_of_scan, listVaultEntries_of_scan,
    Except.ok.injEq] at hsame
  have hnames : (["Notes", "notes"].map fun id => (sampleDirEntry id).name).Nodup := by
    decide +kernel
  have hnodup : ((["Notes", "notes"].map sampleDirEntry).filterMap
      (listedRow sampleLossy caseConfigReader sampleListRoot)).Nodup :=
    nodup_listedRows hnames
  have hlisted (id : String) (h : (listedRow sampleLossy caseConfigReader sampleListRoot
      (sampleDirEntry id)).isSome = true) := Option.isSome_iff_exists.mp h
  obtain ⟨upper, hupper⟩ := hlisted "Notes" (by decide +kernel)
  obtain ⟨lower, hlower⟩ := hlisted "notes" (by decide +kernel)
  simp only [List.map_cons, List.map_nil, List.filterMap_cons, List.filterMap_nil, hupper,
    hlower] at hsame hnodup
  refine not_tied_of_mergeSort_eq (listBefore_trans _) (listBefore_total _) hnodup hsame ?_
  rw [tied_listBefore]
  have htied : ((listedRow sampleLossy caseConfigReader sampleListRoot
      (sampleDirEntry "Notes")).any fun a => (listedRow sampleLossy caseConfigReader
        sampleListRoot (sampleDirEntry "notes")).any fun b =>
          decide (a.SameSortKey asciiLowercase b)) = true := by
    decide +kernel
  rw [hupper, hlower] at htied
  exact of_decide_eq_true htied

end Upriv
