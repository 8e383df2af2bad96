import Upriv.Paths.VaultRoot
import Upriv.Paths.Workspace
import Upriv.Support.JsText
import Mathlib.Algebra.Ring.Nat

/-!
# Mount points

`resolve_vault_mount_point` of `paths/workspace.rs` joins the validated parent
with a leaf that `sanitize_display_leaf` of `paths/mod.rs` derives from the
display name.  `validateDisplayName` is the check of the user interface,
`domain/vault/displayName.ts`.
-/

namespace Upriv

/-! ## The leaf -/

def forbiddenLeafChars : List Char := ['/', '\\', '<', '>', ':', '"', '|', '?', '*']

/-- `char::is_control`: the general category `Cc`. -/
def isControl (c : Char) : Bool := c.val ≤ 0x1F || (0x7F ≤ c.val && c.val ≤ 0x9F)

/-- What must not be a folder name. -/
def isUnsafeLeaf (trimmed : String) : Bool :=
  trimmed.isEmpty || trimmed == "." || trimmed == ".." ||
    trimmed.toList.any (fun c => forbiddenLeafChars.contains c || isControl c) ||
    isWindowsReservedDeviceName trimmed

/-- Display-name leaf fallback for workspace mount folders. -/
def sanitizeDisplayLeaf (name : String) : String :=
  let trimmed := trim name
  if isUnsafeLeaf trimmed then "_" else trimmed

/-! ## The mount point -/

/-- Mount parent; `none` when the global path is unset and the vault uses it. -/
def resolveMountParentPath (globalPath mountWorkspacePath : String) : Option PathBuf :=
  let mount := normalizeMountWorkspacePath mountWorkspacePath
  if mount ≠ WORKSPACE_PATH_DEFAULT then some mount
  else if (trim globalPath).isEmpty then none
  else some (trim globalPath)

/-- Full mount point `{parent}/{display_name}` when the parent is known. -/
def resolveVaultMountPoint (globalPath mountWorkspacePath displayName : String) :
    Option PathBuf :=
  (resolveMountParentPath globalPath mountWorkspacePath).map
    (joinPath · (sanitizeDisplayLeaf displayName))

/-! ## The check of the user interface -/

inductive DisplayNameValidationCode where
  | empty
  | invalidChars
  | trailing
  | reserved
  | tooLong
  deriving DecidableEq, Repr

def VAULT_DISPLAY_NAME_MAX_LENGTH : ℕ := 128

/-- The length of a JavaScript string, in UTF-16 code units. -/
def utf16Length (cs : List Char) : ℕ :=
  (cs.map fun c => if c.val < 0x10000 then 1 else 2).sum

/-- `isWindowsReservedName`.  `toUpperCase` maps no other character to the
letters of a device name than `Char.toUpper` does. -/
def isWindowsReservedName (cs : List Char) : Bool :=
  let leaf := ((jsTrimChars cs).splitOnP fun c => c == '\\' || c == '/').getLast?.getD []
  let withoutTrailing := leaf.rdropWhile fun c => c == ' ' || c == '.'
  let stem := (withoutTrailing.takeWhile (· != '.')).map Char.toUpper
  reservedDeviceNames.contains (String.ofList stem)

def validateDisplayName (name : String) : Option DisplayNameValidationCode :=
  let trimmed := jsTrimChars name.toList
  if trimmed.isEmpty then some .empty
  else if VAULT_DISPLAY_NAME_MAX_LENGTH < utf16Length trimmed then some .tooLong
  else if trimmed.any fun c => forbiddenLeafChars.contains c || c.val ≤ 0x1F then
    some .invalidChars
  else if trimmed.getLast?.any fun c => c == ' ' || c == '.' then some .trailing
  else if isWindowsReservedName trimmed then some .reserved
  else none

/-! ## Reserved segments -/

/-- The spelling of `.upriv` on a volume that ignores case. -/
def isUprivSegment (segment : List Char) : Bool :=
  eqIgnoreAsciiCase (String.ofList segment) UPRIV_DIR_NAME

theorem length_of_isUprivSegment {segment : List Char}
    (h : isUprivSegment segment = true) : segment.length = 6 := by
  have hlower := congrArg List.length (eq_of_beq h)
  simpa [UPRIV_DIR_NAME] using hlower

/-- A path is reserved when one of its segments is spelled `.upriv`. -/
theorem pathIsUnderReservedUprivTree_iff {path : PathBuf} :
    pathIsUnderReservedUprivTree path = true ↔
      ∃ segment ∈ path.toList.splitOn '/', isUprivSegment segment = true := by
  have hstart : ∀ component ∈
      (if isAbsolute path then [Component.rootDir]
        else if (path.toList.splitOn '/').head? == some ['.'] then [Component.curDir]
        else []), ∀ name, component ≠ .normal name := by
    intro component hmem name hname
    subst hname
    split at hmem
    · simp at hmem
    · split at hmem <;> simp at hmem
  simp only [pathIsUnderReservedUprivTree, components, List.any_append, Bool.or_eq_true,
    List.any_eq_true, List.mem_map, List.mem_filter]
  constructor
  · rintro (⟨component, hmem, hname⟩ | ⟨_, ⟨segment, ⟨hmem, _⟩, rfl⟩, hname⟩)
    · cases component with
      | normal name => exact absurd rfl (hstart _ hmem name)
      | rootDir => exact absurd hname Bool.false_ne_true
      | curDir => exact absurd hname Bool.false_ne_true
      | parentDir => exact absurd hname Bool.false_ne_true
    · refine ⟨segment, hmem, ?_⟩
      unfold Component.ofSegment at hname
      split at hname
      · rename_i heq
        split at heq <;> cases heq
        exact hname
      · exact absurd hname Bool.false_ne_true
  · rintro ⟨segment, hmem, hsegment⟩
    have hlength := length_of_isUprivSegment hsegment
    refine .inr ⟨_, ⟨segment, ⟨hmem, ?_⟩, rfl⟩, ?_⟩
    · have hempty : segment ≠ [] := by
        rintro rfl
        cases hlength
      have hdot : segment ≠ ['.'] := by
        rintro rfl
        cases hlength
      simp [hempty, hdot]
    · have hparent : segment ≠ ['.', '.'] := by
        rintro rfl
        cases hlength
      rw [Component.ofSegment, if_neg (by simpa using hparent)]
      exact hsegment

/-- Joining adds the segments of the second part. -/
theorem pathIsUnderReservedUprivTree_joinPath {dir name : PathBuf}
    (hdir : dir.isEmpty = false) (hname : '/' ∉ name.toList) :
    pathIsUnderReservedUprivTree (joinPath dir name) = true ↔
      pathIsUnderReservedUprivTree dir = true ∨
        eqIgnoreAsciiCase name UPRIV_DIR_NAME = true := by
  have hsingle : name.toList.splitOn '/' = [name.toList] := List.splitOn_eq_singleton hname
  have hleaf : isUprivSegment name.toList = eqIgnoreAsciiCase name UPRIV_DIR_NAME := by
    rw [isUprivSegment, String.ofList_toList]
  simp only [pathIsUnderReservedUprivTree_iff]
  unfold joinPath
  by_cases hlast : dir.toList.getLast? = some '/'
  · obtain ⟨before, hbefore⟩ := List.getLast?_eq_some_iff.mp hlast
    rw [if_pos (by simp [hlast]), String.toList_append, hbefore, List.append_assoc,
      List.singleton_append, List.splitOn_append_cons_self, List.splitOn_append_cons_self,
      hsingle]
    have hnil : isUprivSegment [] = false := by decide +kernel
    simp [or_and_right, exists_or, hleaf, hnil]
  · rw [if_neg (by simp [hdir, hlast]), String.toList_append, String.toList_append,
      List.append_assoc]
    rw [show "/".toList ++ name.toList = '/' :: name.toList from rfl,
      List.splitOn_append_cons_self, hsingle]
    simp [or_and_right, exists_or, hleaf]

/-! ## Where vaults are mounted -/

theorem sanitizeDisplayLeaf_no_separator (name : String) :
    '/' ∉ (sanitizeDisplayLeaf name).toList := by
  unfold sanitizeDisplayLeaf
  dsimp only
  split
  · decide
  · rename_i hsafe
    intro hmem
    apply hsafe
    have hany : (trim name).toList.any
        (fun c => forbiddenLeafChars.contains c || isControl c) = true :=
      List.any_eq_true.mpr ⟨'/', hmem, rfl⟩
    rw [isUnsafeLeaf, hany, Bool.or_true, Bool.true_or]

theorem toLower_of_not_isUpper {c : Char} (h : ¬ c.isUpper = true) : c.toLower = c :=
  dif_neg fun hrange => h (decide_eq_true hrange)

theorem eq_dot_of_toLower {c : Char} (h : c.toLower = '.') : c = '.' := by
  by_cases hupper : c.isUpper = true
  · have hrange : 'A'.val ≤ c.val ∧ c.val ≤ 'Z'.val := of_decide_eq_true hupper
    have hval : c.val + ('a'.val - 'A'.val) = '.'.val :=
      congrArg Char.val ((dif_pos hrange).symm.trans h)
    have hnat := congrArg UInt32.toNat hval
    simp only [UInt32.le_iff_toNat_le] at hrange
    rw [UInt32.toNat_add] at hnat
    have hA : 'A'.val.toNat = 65 := rfl
    have hZ : 'Z'.val.toNat = 90 := rfl
    have hshift : ('a'.val - 'A'.val).toNat = 32 := rfl
    have hdot : '.'.val.toNat = 46 := rfl
    omega
  · rw [← h, toLower_of_not_isUpper hupper]

/-- No letter of the reserved name is refused, in either case. -/
theorem leafChar_of_toLower {c : Char} (h : c.toLower ∈ UPRIV_DIR_NAME.toList) :
    (forbiddenLeafChars.contains c || isControl c) = false := by
  by_cases hupper : c.isUpper = true
  · have hrange : 'A'.val ≤ c.val ∧ c.val ≤ 'Z'.val := of_decide_eq_true hupper
    simp only [UInt32.le_iff_toNat_le] at hrange
    have hcontrol : isControl c = false := by
      have hA : 'A'.val.toNat = 65 := rfl
      have hZ : 'Z'.val.toNat = 90 := rfl
      simp only [isControl, UInt32.le_iff_toNat_le, Bool.or_eq_false_iff,
        decide_eq_false_iff_not, Bool.and_eq_false_iff, not_le]
      have h1 : (0x1F : UInt32).toNat = 31 := rfl
      have h2 : (0x7F : UInt32).toNat = 127 := rfl
      omega
    have hforbidden : c ∉ forbiddenLeafChars := by
      intro hmem
      simp only [forbiddenLeafChars, List.mem_cons, List.not_mem_nil, or_false] at hmem
      rcases hmem with rfl | rfl | rfl | rfl | rfl | rfl | rfl | rfl | rfl <;>
        exact absurd hupper (by decide)
    simp [hforbidden, hcontrol]
  · rw [toLower_of_not_isUpper hupper] at h
    have h : c ∈ ['.', 'u', 'p', 'r', 'i', 'v'] := h
    simp only [List.mem_cons, List.not_mem_nil, or_false] at h
    rcases h with rfl | rfl | rfl | rfl | rfl | rfl <;> decide

/-- The sanitizer lets the reserved name through. -/
theorem isUnsafeLeaf_of_upriv {leaf : String}
    (h : eqIgnoreAsciiCase leaf UPRIV_DIR_NAME = true) : isUnsafeLeaf leaf = false := by
  have hlower : leaf.toList.map Char.toLower = ['.', 'u', 'p', 'r', 'i', 'v'] := eq_of_beq h
  have hlength : leaf.toList.length = 6 := by simpa using congrArg List.length hlower
  have hchars : leaf.toList.any (fun c => forbiddenLeafChars.contains c || isControl c) =
      false := by
    rw [List.any_eq_false]
    intro c hc
    rw [leafChar_of_toLower, Bool.not_eq_true]
    show c.toLower ∈ ['.', 'u', 'p', 'r', 'i', 'v']
    rw [← hlower]
    exact List.mem_map_of_mem hc
  have hne (other : String) (hother : other.toList.length ≠ 6) : leaf ≠ other := by
    rintro rfl
    exact hother hlength
  have hstem : isWindowsReservedDeviceName leaf = false := by
    cases hleaf : leaf.toList with
    | nil => simp [hleaf] at hlength
    | cons c cs =>
        rw [hleaf, List.map_cons, List.cons.injEq] at hlower
        have hdot : c = '.' := eq_dot_of_toLower hlower.1
        rw [isWindowsReservedDeviceName, hleaf, hdot]
        simp only [List.takeWhile_cons, bne_self_eq_false, Bool.false_eq_true, ↓reduceIte]
        decide +kernel
  have hempty : leaf.isEmpty = false := by
    simpa using hne "" (by decide)
  rw [isUnsafeLeaf, hchars, hstem, hempty]
  simp [hne "." (by decide), hne ".." (by decide)]
/-- Only the reserved name itself becomes a reserved leaf. -/
theorem sanitizeDisplayLeaf_reserved_iff (name : String) :
    eqIgnoreAsciiCase (sanitizeDisplayLeaf name) UPRIV_DIR_NAME =
      eqIgnoreAsciiCase (trim name) UPRIV_DIR_NAME := by
  cases hreserved : eqIgnoreAsciiCase (trim name) UPRIV_DIR_NAME with
  | true =>
      rw [sanitizeDisplayLeaf, isUnsafeLeaf_of_upriv hreserved]
      exact hreserved
  | false =>
      unfold sanitizeDisplayLeaf
      dsimp only
      split
      · decide +kernel
      · exact hreserved

/-- A validated global path that is set is a path outside reserved trees. -/
theorem validateWorkspaceGlobalPath_ok {canonicalize : Canonicalize} {path : String}
    {vaultRoot : Option PathBuf}
    (h : validateWorkspaceGlobalPath canonicalize path vaultRoot = .ok ())
    (hset : (trim path).isEmpty = false) :
    pathIsUnderReservedUprivTree (trim path) = false := by
  unfold validateWorkspaceGlobalPath at h
  simp only [hset, Bool.false_eq_true, ↓reduceIte] at h
  split at h
  · cases h
  · split at h
    · cases h
    · rename_i hreserved
      simpa using hreserved

/-- The parent that validated settings resolve to. -/
theorem resolveMountParentPath_ok {canonicalize : Canonicalize}
    {globalPath mountWorkspacePath : String} {globalRoot mountRoot : Option PathBuf}
    {dir : PathBuf}
    (hglobal : validateWorkspaceGlobalPath canonicalize globalPath globalRoot = .ok ())
    (hmount : validateMountWorkspacePath canonicalize mountWorkspacePath mountRoot = .ok ())
    (hdir : resolveMountParentPath globalPath mountWorkspacePath = some dir) :
    dir.isEmpty = false ∧ pathIsUnderReservedUprivTree dir = false := by
  unfold resolveMountParentPath normalizeMountWorkspacePath at hdir
  dsimp only at hdir
  by_cases hdefault : isDefaultMount mountWorkspacePath = true
  · simp only [hdefault, ↓reduceIte, ne_eq, not_true_eq_false] at hdir
    split at hdir
    · cases hdir
    · rename_i hset
      have hset : (trim globalPath).isEmpty = false := by simpa using hset
      cases hdir
      exact ⟨hset, validateWorkspaceGlobalPath_ok hglobal hset⟩
  · rw [validateMountWorkspacePath, if_neg hdefault] at hmount
    have hset : (trim mountWorkspacePath).isEmpty = false := by
      simp only [isDefaultMount, Bool.or_eq_true, not_or] at hdefault
      simpa using hdefault.1
    have hcustom : trim mountWorkspacePath ≠ WORKSPACE_PATH_DEFAULT := by
      intro heq
      apply hdefault
      rw [isDefaultMount, heq]
      decide +kernel
    simp only [hdefault, Bool.false_eq_true, ↓reduceIte, ne_eq, hcustom,
      not_false_eq_true, Option.some.injEq] at hdir
    subst hdir
    refine ⟨hset, ?_⟩
    have hparent := validateWorkspaceGlobalPath_ok hmount (by rwa [trim_trim])
    rwa [trim_trim] at hparent

/-- Validated settings mount a vault in a reserved tree exactly when its
display name is the reserved name. -/
theorem resolveVaultMountPoint_reserved_iff {canonicalize : Canonicalize}
    {globalPath mountWorkspacePath displayName : String}
    {globalRoot mountRoot : Option PathBuf} {mountPoint : PathBuf}
    (hglobal : validateWorkspaceGlobalPath canonicalize globalPath globalRoot = .ok ())
    (hmount : validateMountWorkspacePath canonicalize mountWorkspacePath mountRoot = .ok ())
    (hpoint : resolveVaultMountPoint globalPath mountWorkspacePath displayName =
      some mountPoint) :
    pathIsUnderReservedUprivTree mountPoint = false ↔
      eqIgnoreAsciiCase (trim displayName) UPRIV_DIR_NAME = false := by
  obtain ⟨dir, hdir, rfl⟩ := Option.map_eq_some_iff.mp hpoint
  obtain ⟨hset, hparent⟩ := resolveMountParentPath_ok hglobal hmount hdir
  rw [← sanitizeDisplayLeaf_reserved_iff, ← not_iff_not, Bool.not_eq_false,
    Bool.not_eq_false, pathIsUnderReservedUprivTree_joinPath hset
      (sanitizeDisplayLeaf_no_separator displayName), hparent]
  simp

theorem resolveVaultMountPoint_reserved_iff_notes :
    pathIsUnderReservedUprivTree "/home/user/mnt/Notes" = false ↔
      eqIgnoreAsciiCase (trim "Notes") UPRIV_DIR_NAME = false :=
  @resolveVaultMountPoint_reserved_iff (fun _ => none) "/home/user/mnt" "default" "Notes"
    (some "/home/user/root") (some "/home/user/root") "/home/user/mnt/Notes"
    (by decide +kernel) (by decide +kernel) (by decide +kernel)

/-- The user interface and the loader accept `.upriv` as a display name. -/
theorem resolveVaultMountPoint_reserved :
    validateWorkspaceGlobalPath (fun _ => none) "/home/user/mnt"
        (some "/home/user/root") = .ok () ∧
      validateMountWorkspacePath (fun _ => none) "default" (some "/home/user/root") =
        .ok () ∧
      validateDisplayName ".upriv" = none ∧ (trim ".upriv").isEmpty = false ∧
      resolveVaultMountPoint "/home/user/mnt" "default" ".upriv" =
        some "/home/user/mnt/.upriv" ∧
      pathIsUnderReservedUprivTree "/home/user/mnt/.upriv" = true := by
  decide +kernel

end Upriv
