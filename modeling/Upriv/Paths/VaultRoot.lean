import Upriv.Paths.Join
import Upriv.Support.Text

/-!
# Paths under a vault-root

`paths/mod.rs`: the slug ids that name vaults and groups, and where their
files are.
-/

namespace Upriv

def UPRIV_DIR_NAME : String := ".upriv"
def VAULTS_DIR_REL : String := ".upriv/vaults"

/-- `VaultRoot`: canonical paths under a vault-root directory. -/
structure VaultRoot where
  root : PathBuf
  deriving DecidableEq, Repr

def reservedDeviceNames : List String :=
  ["CON", "PRN", "AUX", "NUL",
   "COM1", "COM2", "COM3", "COM4", "COM5", "COM6", "COM7", "COM8", "COM9",
   "LPT1", "LPT2", "LPT3", "LPT4", "LPT5", "LPT6", "LPT7", "LPT8", "LPT9"]

/-- Windows device names, including `name.ext` forms. -/
def isWindowsReservedDeviceName (name : String) : Bool :=
  let stem := name.toList.takeWhile (· != '.')
  reservedDeviceNames.contains (String.ofList (stem.map Char.toUpper))

def isSlugChar (c : Char) : Bool := c.isLower || c.isDigit || c == '-'

/-- Vault and group ids: `[a-z0-9-]+`, at most 64 bytes, no hyphen at either
end, not a Windows device name. -/
def slugIdIsValid (id : String) : Bool :=
  if id.isEmpty || 64 < id.utf8ByteSize then false
  else if id.toList.head? == some '-' || id.toList.getLast? == some '-' then false
  else if !id.toList.all isSlugChar then false
  else !isWindowsReservedDeviceName id

def vaultIdComponent (name : String) : Result String :=
  let trimmed := trim name
  if slugIdIsValid trimmed then .ok trimmed
  else .error (.io ⟨.invalidInput, "invalid vault id path component: " ++ trimmed⟩)

namespace VaultRoot

def uprivDir (root : VaultRoot) : PathBuf := joinPath root.root UPRIV_DIR_NAME

def vaultsDir (root : VaultRoot) : PathBuf := joinPath root.root VAULTS_DIR_REL

def vaultDir (root : VaultRoot) (vaultId : String) : Result PathBuf := do
  return joinPath root.vaultsDir (← vaultIdComponent vaultId)

end VaultRoot

theorem all_isSlugChar {id : String} (h : slugIdIsValid id = true) {c : Char}
    (hc : c ∈ id.toList) : isSlugChar c = true := by
  unfold slugIdIsValid at h
  split at h
  · cases h
  · split at h
    · cases h
    · split at h
      · cases h
      · rename_i hall
        rw [Bool.not_eq_true', Bool.not_eq_false] at hall
        exact List.all_eq_true.mp hall c hc

theorem isLower_eq (c : Char) :
    c.isLower = (decide ('a'.val ≤ c.val) && decide (c.val ≤ 'z'.val)) := rfl

theorem isWhitespace_of_isSlugChar {c : Char} (h : isSlugChar c = true) :
    isWhitespace c = false := by
  simp only [isSlugChar, isLower_eq, Char.isDigit, Bool.or_eq_true, Bool.and_eq_true,
    decide_eq_true_eq, beq_iff_eq, ge_iff_le, UInt32.le_iff_toNat_le] at h
  have hval : 45 ≤ c.val.toNat ∧ c.val.toNat ≤ 122 := by
    rcases h with (⟨hlow, hhigh⟩ | ⟨hlow, hhigh⟩) | rfl
    · exact ⟨le_trans (by decide) hlow, le_trans hhigh (by decide)⟩
    · exact ⟨le_trans (by decide) hlow, le_trans hhigh (by decide)⟩
    · decide
  simp only [isWhitespace, Bool.or_eq_false_iff, Bool.and_eq_false_iff,
    decide_eq_false_iff_not, beq_eq_false_iff_ne, ne_eq, UInt32.le_iff_toNat_le,
    ← UInt32.toNat_inj, UInt32.reduceToNat]
  omega

/-- A valid id is a trimmed text. -/
theorem trim_of_slugIdIsValid {id : String} (h : slugIdIsValid id = true) :
    trim id = id := by
  rw [trim, trimChars_of_no_whitespace fun c hc =>
    isWhitespace_of_isSlugChar (all_isSlugChar h hc), String.ofList_toList]

theorem trimmed_of_vaultIdComponent {name id : String} (h : vaultIdComponent name = .ok id) :
    id = trim name ∧ slugIdIsValid id = true := by
  unfold vaultIdComponent at h
  dsimp only at h
  split at h
  · rename_i hvalid
    cases h
    exact ⟨rfl, hvalid⟩
  · cases h

end Upriv
