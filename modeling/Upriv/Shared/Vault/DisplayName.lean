import Upriv.Shared.VaultGroups.SlugId
import Upriv.Support.FirstFree
import Upriv.Support.Words
import Mathlib.Data.UInt

/-!
# Vault ids from display names

`displayNameToVaultId` of `domain/vault/displayName.ts`: the words of the name with
hyphens between, cut to 64 characters, and a number where that id exists.
-/

namespace Upriv.Shared

/-- What the runtime knows of Unicode. -/
structure JsUnicode where
  /-- `String.prototype.normalize("NFD")`. -/
  normalizeNfd : List Char → List Char
  /-- `\p{Diacritic}`. -/
  isDiacritic : Char → Bool
  toLowerCase : List Char → List Char

/-- A JavaScript array has fewer than `2 ^ 32` elements. -/
def JsArray (α : Type) : Type := { xs : List α // xs.length < 2 ^ 32 }

/-- `[a-z0-9]`. -/
def isSlugLetter (c : Char) : Bool := c.isLower || c.isDigit

section
variable (unicode : JsUnicode)

/-- The name in small letters, without diacritics. -/
def plainName (displayName : String) : List Char :=
  let letters := (unicode.normalizeNfd displayName.toList).filter (!unicode.isDiacritic ·)
  jsTrimChars (unicode.toLowerCase letters)

def normalizedId (displayName : String) : List Char :=
  trimSep '-' (replaceRuns isSlugLetter '-' (plainName unicode displayName))

def baseId (displayName : String) : List Char :=
  let normalized := normalizedId unicode displayName
  (if normalized = [] then "vault".toList else normalized).take 64

def numberedId (base : List Char) (suffix : ℕ) : List Char :=
  let tail := '-' :: Nat.toDigits 10 suffix
  base.take (max 1 (64 - tail.length)) ++ tail

/-- The `while` loop. -/
def freeId (existingIds : List String) (base : List Char) :
    ℕ → List Char → ℕ → Option String
  | 0, _, _ => none
  | fuel + 1, candidate, suffix =>
    if String.ofList candidate ∈ existingIds then
      freeId existingIds base fuel (numberedId base suffix) (suffix + 1)
    else some (String.ofList candidate)

def displayNameToVaultId (fuel : ℕ) (displayName : String) (existingIds : JsArray String) :
    Option String :=
  let base := baseId unicode displayName
  freeId existingIds.val base fuel base 2

/-! ## The base -/

/-- The words of the name: letters and digits without anything between. -/
def slugWords (displayName : String) : List (List Char) :=
  words isSlugLetter (plainName unicode displayName)

end

theorem isSlugChar_of_isSlugLetter {c : Char} (h : isSlugLetter c = true) :
    isSlugChar c = true := by
  rw [isSlugChar, ← isSlugLetter, h]
  rfl

section
variable {unicode : JsUnicode} {displayName : String}

theorem normalizedId_eq :
    normalizedId unicode displayName = ['-'].intercalate (slugWords unicode displayName) :=
  trimSep_replaceRuns (by decide) _

theorem hyphen_notMem_of_mem_slugWords {w : List Char} (h : w ∈ slugWords unicode displayName) :
    '-' ∉ w :=
  fun hc => absurd (of_mem_words h hc) (by decide)

theorem baseId_cases :
    (slugWords unicode displayName = [] ∧ baseId unicode displayName = "vault".toList) ∨
      ∃ w ws, slugWords unicode displayName = w :: ws ∧
        baseId unicode displayName = (['-'].intercalate (w :: ws)).take 64 := by
  rw [baseId, normalizedId_eq]
  cases hwords : slugWords unicode displayName with
  | nil => exact .inl ⟨rfl, rfl⟩
  | cons w ws =>
      right
      refine ⟨w, ws, rfl, ?_⟩
      have hw : w ≠ [] := ne_nil_of_mem_words (hwords ▸ List.mem_cons_self ..)
      rw [if_neg]
      rw [intercalate_cons]
      exact fun hnil => hw (List.append_eq_nil_iff.mp hnil).1

theorem isSlugChar_of_mem_baseId {c : Char} (hc : c ∈ baseId unicode displayName) :
    isSlugChar c = true := by
  rcases @baseId_cases unicode displayName with ⟨-, hbase⟩ | ⟨w, ws, hwords, hbase⟩
  · rw [hbase] at hc
    have hslug : "vault".toList.all isSlugChar = true := by decide
    exact List.all_eq_true.mp hslug c hc
  · rw [hbase] at hc
    rcases mem_intercalate (List.mem_of_mem_take hc) with rfl | ⟨w', hw', hmem⟩
    · decide
    · exact isSlugChar_of_isSlugLetter (of_mem_words (hwords ▸ hw' : w' ∈ slugWords _ _) hmem)

/-- The base starts with a letter or a digit. -/
theorem exists_baseId_eq_cons :
    ∃ c cs, baseId unicode displayName = c :: cs ∧ isSlugLetter c = true := by
  rcases @baseId_cases unicode displayName with ⟨-, hbase⟩ | ⟨w, ws, hwords, hbase⟩
  · exact ⟨'v', "ault".toList, hbase, by decide⟩
  · have hw : w ∈ slugWords unicode displayName := hwords ▸ List.mem_cons_self ..
    obtain ⟨c, cs, rfl⟩ := List.exists_cons_of_ne_nil (ne_nil_of_mem_words hw)
    rw [intercalate_cons, List.cons_append, List.take_succ_cons] at hbase
    exact ⟨c, _, hbase, of_mem_words hw (List.mem_cons_self ..)⟩

theorem length_baseId_le : (baseId unicode displayName).length ≤ 64 := List.length_take_le _ _

theorem baseId_of_word {w : List Char} (hwords : slugWords unicode displayName = [w])
    (hlength : w.length ≤ 64) : baseId unicode displayName = w := by
  rcases @baseId_cases unicode displayName with ⟨hnone, -⟩ | ⟨_, _, hsome, hbase⟩
  · rw [hwords] at hnone
    cases hnone
  · rw [hbase, ← hsome, hwords, List.intercalate_singleton, List.take_of_length_le hlength]

theorem take_intercalate {front rest : List (List Char)} (hrest : rest ≠ [])
    (hlength : (['-'].intercalate front).length = 63) :
    (['-'].intercalate (front ++ rest)).take 64 = ['-'].intercalate front ++ ['-'] := by
  have hfront : front ≠ [] := by
    rintro rfl
    cases hlength
  rw [intercalate_append hfront hrest, List.take_append, hlength,
    List.take_of_length_le (by omega)]
  rfl

/-- The last character is a hyphen exactly if the cut is between two words. -/
theorem getLast?_take_intercalate_iff {ws : List (List Char)}
    (hwords : ∀ w ∈ ws, w ≠ [] ∧ '-' ∉ w) :
    ((['-'].intercalate ws).take 64).getLast? = some '-' ↔
      ∃ front rest, ws = front ++ rest ∧ rest ≠ [] ∧ (['-'].intercalate front).length = 63 := by
  have hbetween := getElem?_intercalate_eq_sep_iff fun w hw => (hwords w hw).2
  constructor
  · intro h
    rw [List.getLast?_eq_getElem?, List.getElem?_take_of_lt (by rw [List.length_take]; omega),
      hbetween, List.length_take] at h
    obtain ⟨front, rest, rfl, hfront, hrest, hlength⟩ := h
    have hpos : 0 < (['-'].intercalate rest).length := by
      obtain ⟨w, ws, rfl⟩ := List.exists_cons_of_ne_nil hrest
      have hw := (hwords w (List.mem_append_right _ (List.mem_cons_self ..))).1
      rw [intercalate_cons, List.length_append]
      exact Nat.add_pos_left (List.length_pos_iff.mpr hw) _
    refine ⟨front, rest, rfl, hrest, ?_⟩
    rw [intercalate_append hfront hrest, List.length_append, List.length_cons] at hlength
    omega
  · rintro ⟨front, rest, rfl, hrest, hlength⟩
    rw [take_intercalate hrest hlength, List.getLast?_append]
    rfl

theorem getLast?_baseId_iff :
    (baseId unicode displayName).getLast? = some '-' ↔
      ∃ front rest, slugWords unicode displayName = front ++ rest ∧ rest ≠ [] ∧
        (['-'].intercalate front).length = 63 := by
  rcases @baseId_cases unicode displayName with ⟨hwords, hbase⟩ | ⟨w, ws, hwords, hbase⟩
  · rw [hwords, hbase]
    constructor
    · intro h
      exact absurd h (by decide)
    · rintro ⟨front, rest, hsplit, hrest, -⟩
      exact absurd (List.append_eq_nil_iff.mp hsplit.symm).2 hrest
  · rw [hbase, ← hwords]
    exact getLast?_take_intercalate_iff fun w hw =>
      ⟨ne_nil_of_mem_words hw, hyphen_notMem_of_mem_slugWords hw⟩

theorem baseId_of_cut {front rest : List (List Char)}
    (hwords : slugWords unicode displayName = front ++ rest) (hrest : rest ≠ [])
    (hlength : (['-'].intercalate front).length = 63) :
    baseId unicode displayName = ['-'].intercalate front ++ ['-'] := by
  rcases @baseId_cases unicode displayName with ⟨hnone, -⟩ | ⟨w, ws, hsome, hbase⟩
  · rw [hnone] at hwords
    exact absurd (List.append_eq_nil_iff.mp hwords.symm).2 hrest
  · rw [hbase, ← hsome, hwords, take_intercalate hrest hlength]

/-! ## Device names -/

theorem hyphen_notMem_of_isDevice {cs : List Char} (h : IsDevice cs) : '-' ∉ cs := by
  intro hc
  have hnone : ∀ name ∈ reservedDeviceNames, '-' ∉ name.toList := by
    decide
  refine hnone _ h ?_
  rw [String.toList_ofList]
  exact List.mem_map.mpr ⟨'-', hc, rfl⟩

theorem length_le_of_isDevice {cs : List Char} (h : IsDevice cs) : cs.length ≤ 4 := by
  have hshort : ∀ name ∈ reservedDeviceNames, name.toList.length ≤ 4 := by
    decide
  have hlength := hshort _ h
  rwa [String.toList_ofList, List.length_map] at hlength

theorem isDevice_baseId_iff :
    IsDevice (baseId unicode displayName) ↔
      ∃ w, slugWords unicode displayName = [w] ∧ IsDevice w := by
  constructor
  · intro h
    rcases @baseId_cases unicode displayName with ⟨-, hbase⟩ | ⟨w, ws, hwords, hbase⟩
    · rw [hbase] at h
      exact absurd (length_le_of_isDevice h) (by decide)
    · have hshort := length_le_of_isDevice h
      have hwhole : baseId unicode displayName = ['-'].intercalate (w :: ws) := by
        rw [hbase, List.length_take] at hshort
        rw [hbase]
        exact List.take_of_length_le (by omega)
      have hhyphen := hyphen_notMem_of_isDevice h
      rw [hwhole, intercalate_cons] at hhyphen h
      cases ws with
      | nil =>
          rw [List.flatMap_nil, List.append_nil] at h
          exact ⟨w, hwords, h⟩
      | cons w' ws =>
          refine absurd (List.mem_append_right w ?_) hhyphen
          rw [List.flatMap_cons]
          exact List.mem_cons_self ..
  · rintro ⟨w, hwords, h⟩
    rwa [baseId_of_word hwords ((length_le_of_isDevice h).trans (by decide))]

end

/-! ## Numbered ids -/

section
variable {base : List Char} {suffix : ℕ}

/-- The digits behind the last hyphen. -/
theorem rtakeWhile_numberedId (base : List Char) (suffix : ℕ) :
    (numberedId base suffix).rtakeWhile (· ≠ '-') = Nat.toDigits 10 suffix := by
  have hdigits : ∀ c ∈ (Nat.toDigits 10 suffix).reverse, decide (c ≠ '-') = true := by
    intro c hc
    rw [decide_eq_true_eq]
    rintro rfl
    have hdigit := Nat.isDigit_of_mem_toDigits (by omega) (by omega) (List.mem_reverse.mp hc)
    exact absurd hdigit (by decide)
  rw [numberedId, List.rtakeWhile, List.reverse_append, List.reverse_cons, List.append_assoc,
    List.takeWhile_append_of_pos hdigits]
  simp

theorem numberedId_injective (base : List Char) :
    Function.Injective fun suffix => String.ofList (numberedId base suffix) := by
  intro i j hij
  have hsame : numberedId base i = numberedId base j := String.ofList_injective hij
  have hdigits := congrArg (List.rtakeWhile (· ≠ '-')) hsame
  rw [rtakeWhile_numberedId, rtakeWhile_numberedId] at hdigits
  rw [← Nat.ofDigitChars_ten_toDigits (n := i), hdigits, Nat.ofDigitChars_ten_toDigits]

/-- A number that a JavaScript array can lead to leaves room for the base. -/
theorem slugIdIsValid_numberedId (hslug : ∀ c ∈ base, isSlugChar c = true)
    (hhead : ∃ c cs, base = c :: cs ∧ isSlugLetter c = true) (hsuffix : suffix < 10 ^ 10) :
    Upriv.slugIdIsValid (String.ofList (numberedId base suffix)) = true := by
  have hdigits : (Nat.toDigits 10 suffix).length ≤ 10 :=
    (Nat.length_toDigits_le_iff (by decide) (by decide)).mpr hsuffix
  have hisDigit : ∀ c ∈ Nat.toDigits 10 suffix, c.isDigit = true :=
    fun c hc => Nat.isDigit_of_mem_toDigits (by omega) (by omega) hc
  have hchars : ∀ c ∈ numberedId base suffix, isSlugChar c = true := by
    intro c hc
    rcases List.mem_append.mp hc with hc | hc
    · exact hslug c (List.mem_of_mem_take hc)
    · rcases List.mem_cons.mp hc with rfl | hc
      · decide
      · simp [isSlugChar, hisDigit c hc]
  obtain ⟨c, cs, rfl, hletter⟩ := hhead
  have hne : c ≠ '-' := by
    rintro rfl
    exact absurd hletter (by decide)
  rw [slugIdIsValid_ofList_iff hchars]
  refine ⟨?_, ?_, ?_, ?_, ?_⟩
  · simp [numberedId]
  · simp only [numberedId, List.length_append, List.length_take, List.length_cons]
    omega
  · obtain ⟨n, hn⟩ := Nat.exists_eq_succ_of_ne_zero
      (show max 1 (64 - ('-' :: Nat.toDigits 10 suffix).length) ≠ 0 by omega)
    rw [numberedId, hn, List.take_succ_cons, List.cons_append, List.head?_cons, ne_eq,
      Option.some.injEq]
    exact hne
  · have hlast : (Nat.toDigits 10 suffix).getLast? ≠ some '-' :=
      fun h => absurd (hisDigit _ (List.mem_of_getLast? h)) (by decide)
    rw [numberedId, ← List.singleton_append, ← List.append_assoc,
      List.getLast?_append_of_ne_nil _ Nat.toDigits_ne_nil]
    exact hlast
  · intro hdevice
    exact hyphen_notMem_of_isDevice hdevice (List.mem_append_right _ (List.mem_cons_self ..))

end

/-! ## The loop -/

section
variable {existingIds : List String} {base candidate : List Char}

theorem freeId_numberedId (fuel suffix : ℕ) :
    freeId existingIds base fuel (numberedId base suffix) (suffix + 1) =
      firstFree existingIds (fun suffix => String.ofList (numberedId base suffix)) fuel suffix := by
  induction fuel generalizing suffix with
  | zero => rfl
  | succ fuel ih => rw [freeId, firstFree, ih]

/-- The loop ends: with the candidate, or with the first number that is free. -/
theorem freeId_ends (existingIds : List String) (base : List Char) :
    ∃ id, (∀ fuel, existingIds.length + 2 ≤ fuel →
        freeId existingIds base fuel base 2 = some (String.ofList id)) ∧
      String.ofList id ∉ existingIds ∧
      ((String.ofList base ∉ existingIds ∧ id = base) ∨
        (String.ofList base ∈ existingIds ∧
          ∃ suffix ≤ 2 + existingIds.length, id = numberedId base suffix)) := by
  by_cases hbase : String.ofList base ∈ existingIds
  · obtain ⟨suffix, -, hle, hfree, hrun⟩ :=
      firstFree_of_injective (numberedId_injective base) existingIds 2
    refine ⟨numberedId base suffix, fun fuel hfuel => ?_, hfree, .inr ⟨hbase, suffix, hle, rfl⟩⟩
    obtain ⟨fuel, rfl⟩ := Nat.exists_eq_add_of_le' (Nat.le_of_add_left_le hfuel)
    rw [freeId, if_pos hbase, freeId_numberedId]
    exact hrun _ (by omega)
  · refine ⟨base, fun fuel hfuel => ?_, hbase, .inl ⟨hbase, rfl⟩⟩
    obtain ⟨fuel, rfl⟩ := Nat.exists_eq_add_of_le' (Nat.le_of_add_left_le hfuel)
    rw [freeId, if_neg hbase]

end

/-! ## The returned id -/

section
variable (unicode : JsUnicode) (displayName : String) (existingIds : JsArray String)

/-- The loop ends, and this id is returned. -/
def ReturnsId (id : String) : Prop :=
  ∃ enough, ∀ fuel, enough ≤ fuel →
    displayNameToVaultId unicode fuel displayName existingIds = some id

/-- What is returned is new and valid on both sides. -/
def ReturnsValidId : Prop :=
  ∃ id, ReturnsId unicode displayName existingIds id ∧ id ∉ existingIds.val ∧
    slugIdIsValid id = true ∧ Upriv.slugIdIsValid id = true

end

section
variable {unicode : JsUnicode} {displayName : String} {existingIds : JsArray String}

theorem ReturnsId.eq {id id' : String} (h : ReturnsId unicode displayName existingIds id)
    (h' : ReturnsId unicode displayName existingIds id') : id = id' := by
  obtain ⟨n, hn⟩ := h
  obtain ⟨n', hn'⟩ := h'
  have hboth := hn (max n n') (le_max_left _ _)
  rw [hn' _ (le_max_right _ _), Option.some.injEq] at hboth
  exact hboth.symm

theorem returnsValidId_iff_of_returnsId {id : String}
    (h : ReturnsId unicode displayName existingIds id) (hfree : id ∉ existingIds.val) :
    ReturnsValidId unicode displayName existingIds ↔ Upriv.slugIdIsValid id = true := by
  constructor
  · rintro ⟨id', h', -, -, hvalid⟩
    rwa [h.eq h']
  · intro hvalid
    exact ⟨id, h, hfree, by rwa [slugIdIsValid_eq], hvalid⟩

/-- A new base is valid unless it is a device name or cut behind a word. -/
theorem slugIdIsValid_baseId_iff :
    Upriv.slugIdIsValid (String.ofList (baseId unicode displayName)) = true ↔
      (baseId unicode displayName).getLast? ≠ some '-' ∧
        ¬ IsDevice (baseId unicode displayName) := by
  obtain ⟨c, cs, hbase, hletter⟩ := @exists_baseId_eq_cons unicode displayName
  have hhead : c ≠ '-' := by
    rintro rfl
    exact absurd hletter (by decide)
  rw [slugIdIsValid_ofList_iff fun c hc => isSlugChar_of_mem_baseId hc]
  constructor
  · rintro ⟨-, -, -, h⟩
    exact h
  · intro h
    exact ⟨by simp [hbase], length_baseId_le, by simpa [hbase] using hhead, h⟩

end

/-- An id is always found.  It is valid on both sides exactly if neither a single word that
is a device name, nor a cut behind a word, is used as the id. -/
theorem displayNameToVaultId_valid_iff (unicode : JsUnicode) (displayName : String)
    (existingIds : JsArray String) :
    (∃ id, ReturnsId unicode displayName existingIds id ∧ id ∉ existingIds.val) ∧
      (ReturnsValidId unicode displayName existingIds ↔
        (∀ w, slugWords unicode displayName = [w] → IsDevice w →
          String.ofList w ∈ existingIds.val) ∧
        ∀ front rest, slugWords unicode displayName = front ++ rest → rest ≠ [] →
          (['-'].intercalate front).length = 63 →
          String.ofList (['-'].intercalate front ++ ['-']) ∈ existingIds.val) := by
  obtain ⟨id, hrun, hfree, hcases⟩ := freeId_ends existingIds.val (baseId unicode displayName)
  have hreturns : ReturnsId unicode displayName existingIds (String.ofList id) := ⟨_, hrun⟩
  refine ⟨⟨_, hreturns, hfree⟩, ?_⟩
  rw [returnsValidId_iff_of_returnsId hreturns hfree]
  rcases hcases with ⟨hnew, rfl⟩ | ⟨hold, suffix, hsuffix, rfl⟩
  · rw [slugIdIsValid_baseId_iff]
    constructor
    · rintro ⟨hlast, hdevice⟩
      constructor
      · intro w hwords hw
        exact absurd (isDevice_baseId_iff.mpr ⟨w, hwords, hw⟩) hdevice
      · intro front rest hwords hrest hlength
        exact absurd (getLast?_baseId_iff.mpr ⟨front, rest, hwords, hrest, hlength⟩) hlast
    · rintro ⟨hdevice, hcut⟩
      constructor
      · intro hlast
        obtain ⟨front, rest, hwords, hrest, hlength⟩ := getLast?_baseId_iff.mp hlast
        have hmem := hcut front rest hwords hrest hlength
        rw [← baseId_of_cut hwords hrest hlength] at hmem
        exact hnew hmem
      · intro hbase
        obtain ⟨w, hwords, hw⟩ := isDevice_baseId_iff.mp hbase
        have hmem := hdevice w hwords hw
        rw [← baseId_of_word hwords ((length_le_of_isDevice hw).trans (by decide))] at hmem
        exact hnew hmem
  · have hvalid := slugIdIsValid_numberedId
      (fun c hc => @isSlugChar_of_mem_baseId unicode displayName c hc) exists_baseId_eq_cons
      (lt_of_le_of_lt hsuffix (by have := existingIds.property; omega))
    refine iff_of_true hvalid ⟨fun w hwords hw => ?_, fun front rest hwords hrest hlength => ?_⟩
    · rwa [← baseId_of_word hwords ((length_le_of_isDevice hw).trans (by decide))]
    · rwa [← baseId_of_cut hwords hrest hlength]

/-- A runtime that knows ASCII. -/
def asciiUnicode : JsUnicode where
  normalizeNfd := id
  isDiacritic c := c == '^' || c == '\x60'
  toLowerCase := List.map Char.toLower

/-- The exclamation mark makes the name legal, and is not in the id. -/
theorem displayNameToVaultId_device :
    validateDisplayName "Con!" = none ∧
      ReturnsId asciiUnicode "Con!" ⟨[], by decide⟩ "con" ∧
      slugIdIsValid "con" = false ∧ Upriv.slugIdIsValid "con" = false := by
  refine ⟨by decide +kernel, ⟨1, fun fuel hfuel => ?_⟩, by decide +kernel, by decide +kernel⟩
  obtain ⟨fuel, rfl⟩ := Nat.exists_eq_add_of_le' hfuel
  rfl

end Upriv.Shared
