import Upriv.Shared.MountLeaf

/-!
# Slug ids in the user interface

`slugIdIsValid` of `domain/vault-groups/slugId.ts` says the same as
`slug_id_is_valid` of the core.
-/

namespace Upriv.Shared

def WINDOWS_RESERVED : List String :=
  ["con", "prn", "aux", "nul",
   "com1", "com2", "com3", "com4", "com5", "com6", "com7", "com8", "com9",
   "lpt1", "lpt2", "lpt3", "lpt4", "lpt5", "lpt6", "lpt7", "lpt8", "lpt9"]

def slugIdIsValid (id : String) : Bool :=
  if id.isEmpty || 64 < utf16Length id.toList then false
  else if id.toList.head? == some '-' || id.toList.getLast? == some '-' then false
  else if !id.toList.all isSlugChar then false
  else !WINDOWS_RESERVED.contains id

/-! ## Slug characters -/

theorem toNat_le_of_isSlugChar {c : Char} (h : isSlugChar c = true) : c.toNat ≤ 122 := by
  simp only [isSlugChar, isLower_eq, Char.isDigit, Bool.or_eq_true, Bool.and_eq_true,
    decide_eq_true_eq, beq_iff_eq, ge_iff_le, UInt32.le_iff_toNat_le] at h
  rcases h with (⟨-, hhigh⟩ | ⟨-, hhigh⟩) | rfl
  · exact hhigh
  · exact hhigh.trans (by decide)
  · decide

theorem toLower_toUpper {c : Char} (hc : isSlugChar c = true) : c.toUpper.toLower = c := by
  have hall : ∀ n < 123, isSlugChar (Char.ofNat n) = true →
      (Char.ofNat n).toUpper.toLower = Char.ofNat n := by
    decide
  have hofNat := hall c.toNat (Nat.lt_succ_of_le (toNat_le_of_isSlugChar hc))
  rw [Char.ofNat_toNat] at hofNat
  exact hofNat hc

section
variable {cs : List Char}

theorem utf16Length_of_isSlugChar (hslug : ∀ c ∈ cs, isSlugChar c = true) :
    utf16Length cs = cs.length := by
  induction cs with
  | nil => rfl
  | cons c cs ih =>
      rw [List.forall_mem_cons] at hslug
      have hone : c.val < 0x10000 := by
        rw [UInt32.lt_iff_toNat_lt]
        exact lt_of_le_of_lt (toNat_le_of_isSlugChar hslug.1) (by decide)
      have hrest := ih hslug.2
      rw [utf16Length] at hrest ⊢
      rw [List.map_cons, List.sum_cons, if_pos hone, hrest, List.length_cons, Nat.add_comm]

theorem utf8ByteSize_of_isSlugChar (hslug : ∀ c ∈ cs, isSlugChar c = true) :
    (String.ofList cs).utf8ByteSize = cs.length := by
  induction cs with
  | nil => rfl
  | cons c cs ih =>
      rw [List.forall_mem_cons] at hslug
      have hcons : String.ofList (c :: cs) = String.ofList [c] ++ String.ofList cs := by
        rw [← String.ofList_append]
        rfl
      have hone : c.utf8Size = 1 := by
        rw [Char.utf8Size_eq_one_iff, UInt32.le_iff_toNat_le]
        exact (toNat_le_of_isSlugChar hslug.1).trans (by decide)
      have hsingle : (String.ofList [c]).utf8ByteSize = c.utf8Size :=
        String.utf8ByteSize_singleton
      rw [hcons, String.utf8ByteSize_append, hsingle, hone, ih hslug.2, List.length_cons]
      exact Nat.add_comm _ _

/-- A text of slug characters is a device name exactly if it is one in small letters. -/
theorem isDevice_iff_mem (hslug : ∀ c ∈ cs, isSlugChar c = true) :
    IsDevice cs ↔ String.ofList cs ∈ WINDOWS_RESERVED := by
  constructor
  · intro h
    have hlower : ∀ name ∈ reservedDeviceNames,
        String.ofList (name.toList.map Char.toLower) ∈ WINDOWS_RESERVED := by
      decide
    have hback : (cs.map Char.toUpper).map Char.toLower = cs := by
      rw [List.map_map]
      exact (List.map_congr_left fun c hc => toLower_toUpper (hslug c hc)).trans (List.map_id' cs)
    have hmem := hlower _ h
    rwa [String.toList_ofList, hback] at hmem
  · intro h
    have hupper : ∀ name ∈ WINDOWS_RESERVED,
        String.ofList (name.toList.map Char.toUpper) ∈ reservedDeviceNames := by
      decide
    have hmem := hupper _ h
    rwa [String.toList_ofList] at hmem

theorem isWindowsReservedDeviceName_iff (hslug : ∀ c ∈ cs, isSlugChar c = true) :
    isWindowsReservedDeviceName (String.ofList cs) = true ↔ IsDevice cs := by
  have hdot : cs.takeWhile (· != '.') = cs := by
    rw [List.takeWhile_eq_self_iff]
    intro c hc
    rw [bne_iff_ne]
    rintro rfl
    exact absurd (hslug _ hc) (by decide)
  rw [isDevice_iff, String.toList_ofList, hdot]

/-- The ids that the core accepts, among the texts of slug characters. -/
theorem slugIdIsValid_ofList_iff (hslug : ∀ c ∈ cs, isSlugChar c = true) :
    Upriv.slugIdIsValid (String.ofList cs) = true ↔
      cs ≠ [] ∧ cs.length ≤ 64 ∧ cs.head? ≠ some '-' ∧ cs.getLast? ≠ some '-' ∧
        ¬ IsDevice cs := by
  rw [← isWindowsReservedDeviceName_iff hslug, Upriv.slugIdIsValid,
    utf8ByteSize_of_isSlugChar hslug, String.toList_ofList, List.all_eq_true.mpr hslug]
  have hempty : String.ofList cs = "" ↔ cs = [] := ofList_eq_iff
  simp only [String.isEmpty_iff, Bool.or_eq_true, decide_eq_true_eq, beq_iff_eq, hempty,
    Bool.not_true, Bool.false_eq_true, ↓reduceIte]
  split
  · rename_i hlength
    simp only [Bool.false_eq_true, false_iff]
    rintro ⟨hne, hle, -⟩
    exact hlength.elim hne (Nat.not_lt.mpr hle)
  · rename_i hlength
    rw [not_or, Nat.not_lt] at hlength
    split
    · rename_i hends
      simp only [Bool.false_eq_true, false_iff]
      rintro ⟨-, -, hhead, hlast, -⟩
      exact hends.elim hhead hlast
    · rename_i hends
      rw [not_or] at hends
      rw [Bool.not_eq_true']
      simp [hlength, hends]

end

/-- Both sides accept the same ids. -/
theorem slugIdIsValid_eq (id : String) : slugIdIsValid id = Upriv.slugIdIsValid id := by
  unfold slugIdIsValid Upriv.slugIdIsValid
  by_cases hall : id.toList.all isSlugChar = true
  · have hslug := List.all_eq_true.mp hall
    have hbytes := utf8ByteSize_of_isSlugChar hslug
    have hreserved : WINDOWS_RESERVED.contains id = isWindowsReservedDeviceName id := by
      rw [Bool.eq_iff_iff, List.contains_iff_mem, ← id.ofList_toList, ← isDevice_iff_mem hslug,
        isWindowsReservedDeviceName_iff hslug]
    rw [String.ofList_toList] at hbytes
    rw [utf16Length_of_isSlugChar hslug, hbytes, hreserved]
  · simp [hall]

end Upriv.Shared
