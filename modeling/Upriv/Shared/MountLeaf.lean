import Upriv.Paths.MountPoint
import Upriv.Support.Trimming

/-!
# Mount leaves

`sanitizeMountLeaf` of `domain/workspace/validate.ts`: the leaf that the user
interface previews, beside `sanitize_display_leaf` of the core.
-/

namespace Upriv.Shared

/-! ## The sanitizer of the user interface -/

/-- What must not be a folder name, for the user interface. -/
def isUnsafeMountLeaf (trimmed : List Char) : Bool :=
  trimmed.isEmpty || trimmed == ['.'] || trimmed == ['.', '.'] ||
    trimmed.any (fun c => forbiddenLeafChars.contains c) ||
    trimmed.any (fun c => c.val < 32) ||
    isWindowsReservedName trimmed

/-- Mount leaf under the parent. -/
def sanitizeMountLeaf (name : String) : String :=
  let trimmed := jsTrimChars name.toList
  if isUnsafeMountLeaf trimmed then "_" else String.ofList trimmed

/-! ## Where the two part -/

/-- A device name, in any case. -/
def IsDevice (stem : List Char) : Prop :=
  String.ofList (stem.map Char.toUpper) ∈ reservedDeviceNames

/-- A trimmed name that both sides turn into `_`. -/
def EndsAsUnderscore (leaf : List Char) : Prop :=
  leaf ∈ [[], ['.'], ['.', '.'], ['_']] ∨
    (∃ c ∈ leaf, c ∈ forbiddenLeafChars ∨ c.val ≤ 0x1F) ∨
    IsDevice (leaf.takeWhile (· != '.'))

/-- `DEL` or a control character of the second block: unsafe for the core only. -/
def HasHighControl (leaf : List Char) : Prop :=
  ∃ c ∈ leaf, 0x7F ≤ c.val ∧ c.val ≤ 0x9F

/-- A device name with a blank before its dots: unsafe for the user interface only. -/
def IsPaddedDevice (leaf : List Char) : Prop :=
  ∃ device pad, IsDevice device ∧ leaf = device ++ ' ' :: pad ∧ ∀ c ∈ pad, c = ' ' ∨ c = '.'

/-- The white space around a name is white space for Rust and for JavaScript. -/
def TrimsAlike (name : List Char) : Prop :=
  ∀ c ∈ trimmedOff (fun c => isWhitespace c || isJsWhitespace c) name,
    c.val ≠ 0xFEFF ∧ c.val ≠ 0x85

/-- The names with the same leaf on both sides. -/
def LeavesAgree (name : List Char) : Prop :=
  (TrimsAlike name ∧ ¬ HasHighControl (trimChars name) ∧ ¬ IsPaddedDevice (trimChars name)) ∨
    ((EndsAsUnderscore (trimChars name) ∨ HasHighControl (trimChars name)) ∧
      (EndsAsUnderscore (jsTrimChars name) ∨ IsPaddedDevice (jsTrimChars name)))

/-! ## Trimming -/

theorem trimsAlike_iff (name : List Char) :
    TrimsAlike name ↔ trimChars name = jsTrimChars name := by
  have htrims : trimChars name = jsTrimChars name ↔
      trimWith isWhitespace name = trimWith isJsWhitespace name := Iff.rfl
  rw [htrims, trimWith_eq_trimWith_iff, TrimsAlike]
  apply forall₂_congr
  intro c hc
  have hclass : isWhitespace c = true ∨ isJsWhitespace c = true := by
    have hor := of_mem_trimmedOff hc
    rwa [Bool.or_eq_true] at hor
  constructor
  · rintro ⟨hmark, hnel⟩
    have hspace : isWhitespace c = true := by
      rcases hclass with hspace | hjs
      · exact hspace
      · rcases isJsWhitespace_iff.mp hjs with hval | ⟨hspace, -⟩
        · exact absurd hval hmark
        · exact hspace
    exact ⟨hspace, isJsWhitespace_iff.mpr (.inr ⟨hspace, hnel⟩)⟩
  · rintro ⟨hspace, hjs⟩
    have hmark : c.val ≠ 0xFEFF := by
      intro hval
      simp [isWhitespace, hval] at hspace
    refine ⟨hmark, ?_⟩
    rcases isJsWhitespace_iff.mp hjs with hval | ⟨-, hnel⟩
    · exact absurd hval hmark
    · exact hnel

/-! ## Device names -/

theorem not_trailing_of_mem_device {device : List Char} (h : IsDevice device) {c : Char}
    (hc : c ∈ device) : c ≠ ' ' ∧ c ≠ '.' := by
  have hnames : ∀ name ∈ reservedDeviceNames, ' ' ∉ name.toList ∧ '.' ∉ name.toList := by
    decide +kernel
  have hname := hnames _ h
  rw [String.toList_ofList] at hname
  constructor
  · rintro rfl
    exact hname.1 (List.mem_map_of_mem hc)
  · rintro rfl
    exact hname.2 (List.mem_map_of_mem hc)

theorem takeWhile_device {device : List Char} (h : IsDevice device) {rest : List Char}
    (hrest : ∀ c ∈ rest.head?, c = '.') :
    (device ++ rest).takeWhile (· != '.') = device := by
  rw [List.takeWhile_append_of_pos]
  · cases rest with
    | nil => rw [List.takeWhile_nil, List.append_nil]
    | cons c cs =>
        rw [hrest c rfl, List.takeWhile_cons_of_neg (by decide), List.append_nil]
  · intro c hc
    exact bne_iff_ne.mpr (not_trailing_of_mem_device h hc).2

theorem rdropWhile_device {device : List Char} (h : IsDevice device) (rest : List Char) :
    (device ++ rest).rdropWhile (fun c => c == ' ' || c == '.') =
      device ++ rest.rdropWhile (fun c => c == ' ' || c == '.') := by
  apply rdropWhile_append_of_neg
  intro c hc
  have hne := not_trailing_of_mem_device h hc
  simp [hne.1, hne.2]

theorem head_dropWhile_stem (text : List Char) :
    ∀ c ∈ (text.dropWhile (· != '.')).head?, c = '.' := by
  intro c hc
  have hhead := List.head?_dropWhile_not (· != '.') text
  rw [hc] at hhead
  simpa using hhead

/-- Dropping the trailing dots and blanks first reserves the padded device names too. -/
theorem isDevice_rdropWhile_iff (leaf : List Char) :
    IsDevice ((leaf.rdropWhile fun c => c == ' ' || c == '.').takeWhile (· != '.')) ↔
      IsDevice (leaf.takeWhile (· != '.')) ∨ IsPaddedDevice leaf := by
  constructor
  · intro h
    set kept := leaf.rdropWhile fun c => c == ' ' || c == '.' with hkept
    have hleaf : kept.takeWhile (· != '.') ++ (kept.dropWhile (· != '.') ++
        leaf.rtakeWhile fun c => c == ' ' || c == '.') = leaf := by
      rw [← List.append_assoc, List.takeWhile_append_dropWhile, hkept,
        List.rdropWhile_append_rtakeWhile]
    have hstem := head_dropWhile_stem kept
    cases hdots : kept.dropWhile (· != '.') with
    | cons dot dots =>
        rw [hdots] at hleaf hstem
        left
        rw [← hleaf, List.cons_append, takeWhile_device h]
        · exact h
        · exact hstem
    | nil =>
        rw [hdots, List.nil_append] at hleaf
        cases htail : leaf.rtakeWhile fun c => c == ' ' || c == '.' with
        | nil =>
            rw [htail] at hleaf
            left
            rwa [← hleaf, takeWhile_device h (by simp)]
        | cons first pad =>
            have htrailing : ∀ c ∈ first :: pad, c = ' ' ∨ c = '.' := by
              intro c hc
              rw [← htail] at hc
              simpa using List.mem_rtakeWhile_imp hc
            rw [htail] at hleaf
            rw [List.forall_mem_cons] at htrailing
            rcases htrailing.1 with rfl | rfl
            · exact .inr ⟨_, pad, h, hleaf.symm, htrailing.2⟩
            · left
              rwa [← hleaf, takeWhile_device h (by simp)]
  · rintro (h | ⟨device, pad, hdevice, rfl, hpad⟩)
    · have hleaf := List.takeWhile_append_dropWhile (p := (· != '.')) (l := leaf)
      have hrest : ∀ c ∈ ((leaf.dropWhile (· != '.')).rdropWhile
          fun c => c == ' ' || c == '.').head?, c = '.' := by
        intro c hc
        exact head_dropWhile_stem leaf c (mem_head_of_mem_head_rdropWhile hc)
      rw [← hleaf, rdropWhile_device h, takeWhile_device h hrest]
      exact h
    · have hdrop : (' ' :: pad).rdropWhile (fun c => c == ' ' || c == '.') = [] := by
        rw [List.rdropWhile_eq_nil_iff, List.forall_mem_cons]
        constructor
        · decide
        · intro c hc
          simpa using hpad c hc
      rw [rdropWhile_device hdevice, hdrop, takeWhile_device hdevice (by simp)]
      exact hdevice

/-! ## The two sanitizers -/

theorem isDevice_iff (leaf : String) :
    isWindowsReservedDeviceName leaf = true ↔ IsDevice (leaf.toList.takeWhile (· != '.')) := by
  rw [isWindowsReservedDeviceName, List.contains_iff_mem, IsDevice]

theorem ofList_eq_iff {cs : List Char} {s : String} : String.ofList cs = s ↔ cs = s.toList := by
  constructor
  · intro h
    rw [← h, String.toList_ofList]
  · intro h
    rw [h, String.ofList_toList]

theorem mem_plainUnderscore_iff {leaf : List Char} :
    leaf ∈ [[], ['.'], ['.', '.'], ['_']] ↔
      leaf ∈ [[], ['.'], ['.', '.']] ∨ leaf = ['_'] := by
  simp only [List.mem_cons, List.not_mem_nil, or_false, or_assoc]

theorem any_unsafe_iff (leaf : List Char) :
    (leaf.any fun c => forbiddenLeafChars.contains c || isControl c) = true ↔
      (∃ c ∈ leaf, c ∈ forbiddenLeafChars ∨ c.val ≤ 0x1F) ∨ HasHighControl leaf := by
  rw [List.any_eq_true, HasHighControl, ← exists_or]
  apply exists_congr
  intro c
  rw [← and_or_left, Bool.or_eq_true, List.contains_iff_mem, isControl, Bool.or_eq_true,
    decide_eq_true_eq, Bool.and_eq_true, decide_eq_true_eq, decide_eq_true_eq, or_assoc]

theorem isUnsafeLeaf_iff (leaf : List Char) :
    isUnsafeLeaf (String.ofList leaf) = true ↔
      leaf ∈ [[], ['.'], ['.', '.']] ∨
        ((∃ c ∈ leaf, c ∈ forbiddenLeafChars ∨ c.val ≤ 0x1F) ∨ HasHighControl leaf) ∨
        IsDevice (leaf.takeWhile (· != '.')) := by
  rw [← any_unsafe_iff, isUnsafeLeaf]
  simp only [Bool.or_eq_true, String.isEmpty_iff, beq_iff_eq, ofList_eq_iff, isDevice_iff,
    String.toList_ofList, List.mem_cons, List.not_mem_nil, or_false, or_assoc]
  rfl

/-- The core puts `_` in the place of a name. -/
theorem sanitizeDisplayLeaf_eq_iff (name : String) :
    sanitizeDisplayLeaf name = "_" ↔
      EndsAsUnderscore (trimChars name.toList) ∨ HasHighControl (trimChars name.toList) := by
  have hleaf : sanitizeDisplayLeaf name = "_" ↔
      isUnsafeLeaf (trim name) = true ∨ trimChars name.toList = ['_'] := by
    unfold sanitizeDisplayLeaf
    dsimp only
    split
    · rename_i h
      simp [h]
    · rename_i h
      rw [or_iff_right h, trim, ofList_eq_iff]
      rfl
  rw [hleaf, trim, isUnsafeLeaf_iff, EndsAsUnderscore, mem_plainUnderscore_iff]
  apply iff_of_eq
  ac_rfl

theorem sanitizeDisplayLeaf_of_ne {name : String} (h : sanitizeDisplayLeaf name ≠ "_") :
    (sanitizeDisplayLeaf name).toList = trimChars name.toList := by
  unfold sanitizeDisplayLeaf at h ⊢
  dsimp only at h ⊢
  split
  · rename_i hunsafe
    rw [if_pos hunsafe] at h
    exact absurd rfl h
  · rw [trim, String.toList_ofList]

theorem isWindowsReservedName_iff {leaf : List Char} (htrim : jsTrimChars leaf = leaf)
    (hsep : ∀ c ∈ leaf, c ∉ forbiddenLeafChars) :
    isWindowsReservedName leaf = true ↔
      IsDevice (leaf.takeWhile (· != '.')) ∨ IsPaddedDevice leaf := by
  have hsingle : (leaf.splitOnP fun c => c == '\\' || c == '/') = [leaf] := by
    apply List.splitOnP_eq_singleton
    intro c hc
    have hsafe := hsep c hc
    rw [Bool.or_eq_false_iff, beq_eq_false_iff_ne, beq_eq_false_iff_ne]
    constructor
    · rintro rfl
      exact hsafe (by decide)
    · rintro rfl
      exact hsafe (by decide)
  rw [← isDevice_rdropWhile_iff, isWindowsReservedName, htrim, hsingle, List.contains_iff_mem]
  rfl

theorem isUnsafeMountLeaf_iff {leaf : List Char} (htrim : jsTrimChars leaf = leaf) :
    isUnsafeMountLeaf leaf = true ↔
      leaf ∈ [[], ['.'], ['.', '.']] ∨
        (∃ c ∈ leaf, c ∈ forbiddenLeafChars ∨ c.val ≤ 0x1F) ∨
        IsDevice (leaf.takeWhile (· != '.')) ∨ IsPaddedDevice leaf := by
  have hchars : (∃ c ∈ leaf, c ∈ forbiddenLeafChars ∨ c.val ≤ 0x1F) ↔
      (leaf.any fun c => forbiddenLeafChars.contains c) = true ∨
        (leaf.any fun c => c.val < 32) = true := by
    rw [List.any_eq_true, List.any_eq_true, ← exists_or]
    apply exists_congr
    intro c
    rw [← and_or_left, List.contains_iff_mem, decide_eq_true_eq, UInt32.le_iff_toNat_le,
      UInt32.lt_iff_toNat_lt, Nat.lt_succ_iff.symm]
    rfl
  -- Segments only matter when there is a separator, which is forbidden by itself.
  have hreserved : (∃ c ∈ leaf, c ∈ forbiddenLeafChars ∨ c.val ≤ 0x1F) ∨
        isWindowsReservedName leaf = true ↔
      (∃ c ∈ leaf, c ∈ forbiddenLeafChars ∨ c.val ≤ 0x1F) ∨
        IsDevice (leaf.takeWhile (· != '.')) ∨ IsPaddedDevice leaf := by
    apply or_congr_right'
    intro hsafe
    apply isWindowsReservedName_iff htrim
    intro c hc hforbidden
    exact hsafe ⟨c, hc, .inl hforbidden⟩
  rw [← hreserved, isUnsafeMountLeaf, hchars]
  simp only [Bool.or_eq_true, List.isEmpty_iff, beq_iff_eq, List.mem_cons, List.not_mem_nil,
    or_false, or_assoc]

/-- The user interface puts `_` in the place of a name. -/
theorem sanitizeMountLeaf_eq_iff (name : String) :
    sanitizeMountLeaf name = "_" ↔
      EndsAsUnderscore (jsTrimChars name.toList) ∨ IsPaddedDevice (jsTrimChars name.toList) := by
  have hleaf : sanitizeMountLeaf name = "_" ↔
      isUnsafeMountLeaf (jsTrimChars name.toList) = true ∨ jsTrimChars name.toList = ['_'] := by
    unfold sanitizeMountLeaf
    dsimp only
    split
    · rename_i h
      simp [h]
    · rename_i h
      rw [or_iff_right h, ofList_eq_iff]
      rfl
  rw [hleaf, isUnsafeMountLeaf_iff (jsTrimChars_jsTrimChars _), EndsAsUnderscore,
    mem_plainUnderscore_iff]
  apply iff_of_eq
  ac_rfl

theorem sanitizeMountLeaf_of_ne {name : String} (h : sanitizeMountLeaf name ≠ "_") :
    (sanitizeMountLeaf name).toList = jsTrimChars name.toList := by
  unfold sanitizeMountLeaf at h ⊢
  dsimp only at h ⊢
  split
  · rename_i hunsafe
    rw [if_pos hunsafe] at h
    exact absurd rfl h
  · rw [String.toList_ofList]

/-! ## Agreement -/

/-- Exactly the names with one leaf. -/
theorem sanitizeMountLeaf_eq_sanitizeDisplayLeaf_iff (name : String) :
    sanitizeMountLeaf name = sanitizeDisplayLeaf name ↔ LeavesAgree name.toList := by
  have hcore := sanitizeDisplayLeaf_eq_iff name
  have hui := sanitizeMountLeaf_eq_iff name
  rw [LeavesAgree, ← hcore, ← hui]
  constructor
  · intro h
    by_cases hsame : sanitizeDisplayLeaf name = "_"
    · exact .inr ⟨hsame, h.trans hsame⟩
    · left
      have hne : sanitizeMountLeaf name ≠ "_" := h ▸ hsame
      have htrims : trimChars name.toList = jsTrimChars name.toList := by
        rw [← sanitizeDisplayLeaf_of_ne hsame, ← sanitizeMountLeaf_of_ne hne, h]
      rw [hcore, not_or] at hsame
      rw [ne_eq, hui, not_or, ← htrims] at hne
      exact ⟨(trimsAlike_iff _).mpr htrims, hsame.2, hne.2⟩
  · rintro (⟨htrims, hcontrol, hpadded⟩ | ⟨hdisplay, hmount⟩)
    · rw [trimsAlike_iff] at htrims
      rw [← htrims, or_iff_left hpadded] at hui
      rw [or_iff_left hcontrol] at hcore
      by_cases hsame : sanitizeDisplayLeaf name = "_"
      · rw [hsame, hui, ← hcore]
        exact hsame
      · have hne : sanitizeMountLeaf name ≠ "_" := by
          rw [ne_eq, hui, ← hcore]
          exact hsame
        apply String.toList_injective
        rw [sanitizeMountLeaf_of_ne hne, sanitizeDisplayLeaf_of_ne hsame, htrims]
    · rw [hdisplay, hmount]

/-- A `DEL` stays for the user interface and not for the core. -/
theorem sanitizeMountLeaf_delete :
    sanitizeMountLeaf (String.ofList ['a', '\u007F', 'b']) ≠
      sanitizeDisplayLeaf (String.ofList ['a', '\u007F', 'b']) := by
  decide +kernel

end Upriv.Shared
