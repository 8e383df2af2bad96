import Upriv.Daemon.Main
import Upriv.Support.JsonText
import Upriv.Support.LossyUtf8

/-!
# The search text of the vault list

`normalizeVaultListSearch` of `domain/app-settings/normalize.ts`, and the request that
saves the settings with it.  The function works on code units, and the daemon reads
texts.
-/

namespace Upriv.Shared

open Upriv.Daemon Upriv.Json

def VAULT_LIST_SEARCH_MAX_LENGTH : ℕ := 128

/-- `code < 32 || code === 127`. -/
def isControlUnit (code : UInt16) : Bool := code < 32 || code == 127

/-- The loop, with `out` so far. -/
def searchLoop (out : JsString) : JsString → JsString
  | [] => out
  | code :: value =>
    if out.length < VAULT_LIST_SEARCH_MAX_LENGTH then
      if isControlUnit code then searchLoop out value else searchLoop (out ++ [code]) value
    else out

/-- `none` is a value that is no string. -/
def normalizeVaultListSearch (value : Option JsString) : JsString :=
  match value with
  | none => []
  | some value => searchLoop [] value

/-! ## What the loop keeps -/

/-- The units that are not stripped. -/
def withoutControls (value : JsString) : JsString := value.filter fun code => !isControlUnit code

theorem searchLoop_eq (out value : JsString) (h : out.length ≤ VAULT_LIST_SEARCH_MAX_LENGTH) :
    searchLoop out value =
      out ++ (withoutControls value).take (VAULT_LIST_SEARCH_MAX_LENGTH - out.length) := by
  induction value generalizing out with
  | nil => rw [searchLoop, withoutControls, List.filter_nil, List.take_nil, List.append_nil]
  | cons code value ih =>
    rw [searchLoop]
    split
    · rename_i hlt
      split
      · rename_i hcontrol
        rw [ih out h, withoutControls, withoutControls,
          List.filter_cons_of_neg (by simp [hcontrol])]
      · rename_i hcontrol
        have hroom : VAULT_LIST_SEARCH_MAX_LENGTH - out.length =
            VAULT_LIST_SEARCH_MAX_LENGTH - (out ++ [code]).length + 1 := by
          rw [List.length_append, List.length_singleton]
          omega
        have hlength : (out ++ [code]).length ≤ VAULT_LIST_SEARCH_MAX_LENGTH := by
          rw [List.length_append, List.length_singleton]
          exact hlt
        rw [ih _ hlength, withoutControls, withoutControls,
          List.filter_cons_of_pos (by simp [hcontrol]), hroom, List.take_succ_cons,
          List.append_assoc, List.singleton_append]
    · rename_i hfull
      rw [Nat.sub_eq_zero_of_le (Nat.not_lt.mp hfull), List.take_zero, List.append_nil]

theorem normalizeVaultListSearch_eq (value : JsString) :
    normalizeVaultListSearch (some value) =
      (withoutControls value).take VAULT_LIST_SEARCH_MAX_LENGTH := by
  rw [normalizeVaultListSearch, searchLoop_eq [] value (Nat.zero_le _)]
  rfl

theorem length_normalizeVaultListSearch_le (value : JsString) :
    (normalizeVaultListSearch (some value)).length ≤ VAULT_LIST_SEARCH_MAX_LENGTH := by
  rw [normalizeVaultListSearch_eq]
  exact List.length_take_le _ _

theorem isControlUnit_of_mem_normalize {value : JsString} {code : UInt16}
    (h : code ∈ normalizeVaultListSearch (some value)) : isControlUnit code = false := by
  rw [normalizeVaultListSearch_eq] at h
  have hmem := (List.mem_filter.mp (List.mem_of_mem_take h)).2
  rwa [Bool.not_eq_true'] at hmem

theorem normalizeVaultListSearch_idem (value : JsString) :
    normalizeVaultListSearch (some (normalizeVaultListSearch (some value))) =
      normalizeVaultListSearch (some value) := by
  have hkept : withoutControls (normalizeVaultListSearch (some value)) =
      normalizeVaultListSearch (some value) := by
    rw [withoutControls, List.filter_eq_self]
    intro code hcode
    rw [isControlUnit_of_mem_normalize hcode, Bool.not_false]
  rw [normalizeVaultListSearch_eq (normalizeVaultListSearch (some value)), hkept,
    List.take_of_length_le (length_normalizeVaultListSearch_le value)]

/-- The last unit with room is the first half of a surrogate pair. -/
def CutsPair (value : JsString) : Prop :=
  ∃ unit ∈ (withoutControls value)[VAULT_LIST_SEARCH_MAX_LENGTH - 1]?, IsHigh unit

theorem wellFormed_withoutControls {value : JsString} (h : WellFormed value) :
    WellFormed (withoutControls value) := by
  have hkeep : ∀ unit : UInt16, 127 < unit.toNat → (!isControlUnit unit) = true := by
    intro unit hunit
    rw [isControlUnit, Bool.not_eq_true', Bool.or_eq_false_iff, decide_eq_false_iff_not,
      UInt16.lt_iff_toNat_lt, beq_eq_false_iff_ne]
    refine ⟨Nat.not_lt.mpr (le_of_lt (lt_trans (by decide) hunit)), ?_⟩
    rintro rfl
    exact absurd hunit (by decide)
  apply h.filter
  · intro unit hunit
    exact hkeep unit (lt_of_lt_of_le (by decide) hunit.1)
  · intro unit hunit
    exact hkeep unit (lt_of_lt_of_le (by decide) hunit.1)

theorem wellFormed_normalize_iff {value : JsString} (h : WellFormed value) :
    WellFormed (normalizeVaultListSearch (some value)) ↔ ¬ CutsPair value := by
  rw [normalizeVaultListSearch_eq]
  refine ((wellFormed_withoutControls h).take_iff (VAULT_LIST_SEARCH_MAX_LENGTH - 1)).trans ?_
  rw [CutsPair, not_exists]
  simp only [not_and]

/-! ## The request -/

/-- The rest of the settings and of the request, with every value written. -/
structure SettingsRest where
  uiBefore : List (String × List Char)
  uiAfter : List (String × List Char)
  sections : List (String × List Char)
  syncAlias : Bool

/-- The line of the `app_settings_save` request with the search text. -/
def saveRequest (id : UInt64) (rest : SettingsRest) (search : JsString) : String :=
  String.ofList <| objectText
    [("type", quoted "request".toList),
     ("id", Nat.toDigits 10 id.toNat),
     ("method", quoted "app_settings_save".toList),
     ("params", objectText
       [("settings", objectText
         (("ui", objectText (rest.uiBefore ++
           ("vault_list_search", stringifyString search) :: rest.uiAfter)) :: rest.sections)),
        ("syncAlias", boolText rest.syncAlias)])]

/-- What `serde_json` makes of such a request: it reads a well-formed text, and refuses
the escape of an unpaired surrogate. -/
structure ReadsSaves {J : Type} (S : SerdeJson J) (id : UInt64) (rest : SettingsRest) : Prop where
  accepts : ∀ search, WellFormed search → ∃ params,
    S.wireIn (saveRequest id rest search) = .ok (.request id "app_settings_save" params)
  readsId : ∀ search, WellFormed search → ∃ value,
    S.value (saveRequest id rest search) = .ok value ∧ S.getId value = some id
  rejects : ∀ search, ¬ WellFormed search →
    (∃ error, S.wireIn (saveRequest id rest search) = .error error) ∧
      ∃ error, S.value (saveRequest id rest search) = .error error

theorem membersText_ends (members : List (String × List Char)) :
    ∃ inner, membersText members = inner ++ ['}'] := by
  induction members with
  | nil => exact ⟨[], rfl⟩
  | cons member members ih =>
    obtain ⟨inner, hinner⟩ := ih
    exact ⟨',' :: (memberText member.1 member.2 ++ inner), by
      rw [membersText, hinner, List.cons_append, List.append_assoc]⟩

theorem trim_saveRequest (id : UInt64) (rest : SettingsRest) (search : JsString) :
    trim (saveRequest id rest search) = saveRequest id rest search := by
  have hends : ∀ inner : List Char,
      trimChars ('{' :: (inner ++ ['}'])) = '{' :: (inner ++ ['}']) := by
    intro inner
    have hstart : ('{' :: (inner ++ ['}'])).dropWhile isWhitespace = '{' :: inner ++ ['}'] := rfl
    rw [trimChars, hstart, trimEndChars, List.rdropWhile_concat_neg _ _ _ (by decide)]
    rfl
  rw [trim, saveRequest, String.toList_ofList, objectText]
  obtain ⟨inner, hinner⟩ := membersText_ends _
  rw [hinner, ← List.append_assoc, hends]

section Daemon

variable {J : Type} (S : SerdeJson J) (id : UInt64) (rest : SettingsRest)

/-- The search text that is kept for a typed one, and what becomes of its request. -/
structure Transmissible (value : JsString) : Prop where
  length_le : (normalizeVaultListSearch (some value)).length ≤ VAULT_LIST_SEARCH_MAX_LENGTH
  noControl : ∀ code ∈ normalizeVaultListSearch (some value), isControlUnit code = false
  wellFormed : WellFormed (normalizeVaultListSearch (some value))
  fixed : normalizeVaultListSearch (some (normalizeVaultListSearch (some value))) =
    normalizeVaultListSearch (some value)
  parses : ∃ params,
    S.wireIn (trim (saveRequest id rest (normalizeVaultListSearch (some value)))) =
      .ok (.request id "app_settings_save" params)
  answered : lineId S (saveRequest id rest (normalizeVaultListSearch (some value))) = some id

variable {S id rest}

theorem lineId_saveRequest (hS : ReadsSaves S id rest) {search : JsString}
    (h : WellFormed search) : lineId S (saveRequest id rest search) = some id := by
  obtain ⟨params, hparams⟩ := hS.accepts search h
  obtain ⟨value, hvalue, hid⟩ := hS.readsId search h
  have hne : (saveRequest id rest search).isEmpty = false := by
    rw [Bool.eq_false_iff, ne_eq, String.isEmpty_iff]
    intro hempty
    have hlist := congrArg String.toList hempty
    rw [saveRequest, String.toList_ofList, objectText] at hlist
    cases hlist
  unfold lineId
  simp only [trim_saveRequest, hne, extractRequestId, hvalue, hid, hparams]
  split
  · contradiction
  · split <;> rfl

/-- A text with an unpaired surrogate takes the id of its request with it. -/
theorem lineId_saveRequest_none (hS : ReadsSaves S id rest) {search : JsString}
    (h : ¬ WellFormed search) : lineId S (saveRequest id rest search) = none := by
  obtain ⟨⟨error, herror⟩, error', herror'⟩ := hS.rejects search h
  unfold lineId
  simp only [trim_saveRequest, extractRequestId, herror, herror']
  split
  · rfl
  · split <;> rfl

/-- The search text can be sent exactly when the cut is not inside a surrogate pair. -/
theorem transmissible_iff (hS : ReadsSaves S id rest) {value : JsString}
    (hvalue : WellFormed value) : Transmissible S id rest value ↔ ¬ CutsPair value := by
  rw [← wellFormed_normalize_iff hvalue]
  constructor
  · exact Transmissible.wellFormed
  · intro h
    exact
      { length_le := length_normalizeVaultListSearch_le value
        noControl := fun _ => isControlUnit_of_mem_normalize
        wellFormed := h
        fixed := normalizeVaultListSearch_idem value
        parses := by
          rw [trim_saveRequest]
          exact hS.accepts _ h
        answered := lineId_saveRequest hS h }

end Daemon

/-! ## A reader of requests -/

/-- The escape of a surrogate.  `JSON.stringify` writes one only for an unpaired one. -/
def hasSurrogateEscape : List Char → Bool
  | [] => false
  | c :: cs =>
    if c = '\\' then cs.take 2 == ['u', 'd'] || hasSurrogateEscape (cs.drop 1)
    else hasSurrogateEscape cs
termination_by cs => cs.length

theorem hasSurrogateEscape_append {front : List Char} (h : ∀ c ∈ front, c ≠ '\\')
    (back : List Char) : hasSurrogateEscape (front ++ back) = hasSurrogateEscape back := by
  induction front with
  | nil => rfl
  | cons c front ih =>
    rw [List.forall_mem_cons] at h
    rw [List.cons_append, hasSurrogateEscape, if_neg h.1, ih h.2]

/-- An escape of one character, which does not start with `\ud`. -/
def isPlainEscape : List Char → Bool
  | backslash :: letter :: more =>
    backslash == '\\' && more.all (· != '\\') &&
      if letter = 'u' then more.head?.any (· != 'd') else true
  | _ => false

theorem hasSurrogateEscape_escapeChar (c : Char) (back : List Char) :
    hasSurrogateEscape (escapeChar c ++ back) = hasSurrogateEscape back := by
  by_cases hc : c ∈ escapedChars
  · have hall : (escapedChars.all fun c => isPlainEscape (escapeChar c)) = true := by
      decide +kernel
    have hescape := List.all_eq_true.mp hall c hc
    unfold isPlainEscape at hescape
    split at hescape
    · rename_i backslash letter more hcode
      simp only [Bool.and_eq_true, beq_iff_eq] at hescape
      obtain ⟨⟨rfl, hmore⟩, hletter⟩ := hescape
      have hmore' : ∀ c ∈ more, c ≠ '\\' := by
        intro c hc
        exact bne_iff_ne.mp (List.all_eq_true.mp hmore c hc)
      have htake : ((letter :: more ++ back).take 2 == ['u', 'd']) = false := by
        rw [beq_eq_false_iff_ne]
        intro heq
        split at hletter
        · cases more with
          | nil => cases hletter
          | cons next more =>
            cases heq
            cases hletter
        · rename_i hne
          exact hne (List.cons.inj heq).1
      rw [hcode, List.cons_append, hasSurrogateEscape, if_pos rfl, htake, Bool.false_or,
        List.cons_append, List.drop_one, List.tail_cons, hasSurrogateEscape_append hmore']
    · cases hescape
  · rw [escapeChar_of_not_mem hc]
    apply hasSurrogateEscape_append
    rintro d hd rfl
    rw [List.mem_singleton] at hd
    exact hc (hd ▸ by decide)

theorem hasSurrogateEscape_surrogateEscape {unit : UInt16} (h : IsHigh unit ∨ IsLow unit)
    (back : List Char) : hasSurrogateEscape (surrogateEscape unit ++ back) = true := by
  have hdigit : hexDigit (unit.toNat / 0x1000) = 'd' := by
    have hdiv : unit.toNat / 0x1000 = 13 := by
      unfold IsHigh IsLow at h
      omega
    rw [hdiv]
    rfl
  rw [surrogateEscape, hdigit, List.cons_append, hasSurrogateEscape, if_pos rfl]
  rfl

theorem pairChar_ne_backslash {high low : UInt16} (hhigh : IsHigh high) (hlow : IsLow low) :
    pairChar high low ≠ '\\' := by
  have hvalid : (0x10000 + (high.toNat - 0xD800) * 0x400 + (low.toNat - 0xDC00)).isValidChar := by
    unfold IsHigh at hhigh
    unfold IsLow at hlow
    simp only [Nat.isValidChar]
    omega
  intro heq
  have hnat := congrArg Char.toNat heq
  rw [pairChar, toNat_ofNat_of_isValidChar hvalid] at hnat
  have hsmall : ('\\').toNat = 92 := rfl
  omega

theorem hasSurrogateEscape_of_wellFormed {s : JsString} (h : WellFormed s) (back : List Char) :
    hasSurrogateEscape (stringifyUnits s ++ back) = hasSurrogateEscape back := by
  induction h with
  | nil => rfl
  | single hhigh hlow _ ih =>
    rw [stringifyUnits_single fun _ _ h => hhigh h.1, unitText, if_neg (not_or.mpr ⟨hhigh, hlow⟩),
      List.append_assoc, hasSurrogateEscape_escapeChar, ih]
  | pair hhigh hlow _ ih =>
    rw [stringifyUnits_pair hhigh hlow, List.cons_append, hasSurrogateEscape,
      if_neg (pairChar_ne_backslash hhigh hlow), ih]

theorem hasSurrogateEscape_of_not_wellFormed {s : JsString} (h : ¬ WellFormed s)
    (back : List Char) : hasSurrogateEscape (stringifyUnits s ++ back) = true := by
  have hsingle : ∀ unit rest, (¬ WellFormed rest → hasSurrogateEscape
      (stringifyUnits rest ++ back) = true) → ¬ WellFormed (unit :: rest) →
      hasSurrogateEscape (unitText unit ++ (stringifyUnits rest ++ back)) = true := by
    intro unit rest ih hnot
    by_cases hunit : IsHigh unit ∨ IsLow unit
    · rw [unitText, if_pos hunit]
      exact hasSurrogateEscape_surrogateEscape hunit _
    · rw [unitText, if_neg hunit, hasSurrogateEscape_escapeChar]
      rw [not_or] at hunit
      exact ih fun hrest => hnot (.single hunit.1 hunit.2 hrest)
  induction s using stringifyUnits.induct with
  | case1 => exact absurd .nil h
  | case2 unit =>
    have htext := hsingle unit [] (fun hnil => absurd .nil hnil) h
    rwa [stringifyUnits, List.nil_append] at htext
  | case3 unit next rest hpair ih =>
    rw [stringifyUnits_pair hpair.1 hpair.2, List.cons_append, hasSurrogateEscape,
      if_neg (pairChar_ne_backslash hpair.1 hpair.2)]
    exact ih fun hrest => h (.pair hpair.1 hpair.2 hrest)
  | case4 unit next rest hnot ih =>
    rw [stringifyUnits, if_neg hnot, List.append_assoc]
    exact hsingle unit (next :: rest) ih h

/-- Reads the requests with id 7 and no other settings. -/
def sampleSaves : SerdeJson Unit where
  value text :=
    if hasSurrogateEscape text.toList then .error "lone leading surrogate in hex escape" else .ok ()
  wireIn text :=
    if hasSurrogateEscape text.toList then .error "lone leading surrogate in hex escape"
    else .ok (.request 7 "app_settings_save" ())
  getId _ := some 7

def sampleRest : SettingsRest := ⟨[], [], [], true⟩

/-- The request up to the search text. -/
def sampleFront : List Char :=
  '{' :: (memberText "type" (quoted "request".toList) ++
    ',' :: (memberText "id" (Nat.toDigits 10 7) ++
      ',' :: (memberText "method" (quoted "app_settings_save".toList) ++
        ',' :: memberText "params" ('{' :: memberText "settings" ('{' :: memberText "ui"
          ('{' :: memberText "vault_list_search" ['"']))))))

def sampleBack : List Char :=
  '"' :: '}' :: '}' :: ',' :: (memberText "syncAlias" (boolText true) ++ ['}', '}'])

theorem saveRequest_sample (search : JsString) :
    (saveRequest 7 sampleRest search).toList =
      sampleFront ++ (stringifyUnits search ++ sampleBack) := by
  have hid : (7 : UInt64).toNat = 7 := rfl
  simp only [saveRequest, String.toList_ofList, sampleRest, List.nil_append, objectText,
    membersText, memberText, stringifyString, sampleFront, sampleBack, hid, List.append_assoc,
    List.cons_append]

theorem no_backslash_of_all {cs : List Char} (h : cs.all (· != '\\') = true) :
    ∀ c ∈ cs, c ≠ '\\' :=
  fun c hc => bne_iff_ne.mp (List.all_eq_true.mp h c hc)

theorem hasSurrogateEscape_saveRequest (search : JsString) :
    hasSurrogateEscape (saveRequest 7 sampleRest search).toList =
      hasSurrogateEscape (stringifyUnits search ++ sampleBack) := by
  rw [saveRequest_sample, hasSurrogateEscape_append (no_backslash_of_all (by decide +kernel))]

theorem readsSaves_sample : ReadsSaves sampleSaves 7 sampleRest := by
  have hback : hasSurrogateEscape sampleBack = false := by
    have happend := hasSurrogateEscape_append (no_backslash_of_all
      (by decide +kernel : sampleBack.all (· != '\\') = true)) []
    rw [List.append_nil] at happend
    rw [happend, hasSurrogateEscape]
  have hread : ∀ search, WellFormed search →
      ¬ hasSurrogateEscape (saveRequest 7 sampleRest search).toList = true := by
    intro search h
    rw [hasSurrogateEscape_saveRequest, hasSurrogateEscape_of_wellFormed h, hback]
    exact Bool.false_ne_true
  have hrefuse : ∀ search, ¬ WellFormed search →
      hasSurrogateEscape (saveRequest 7 sampleRest search).toList = true := by
    intro search h
    rw [hasSurrogateEscape_saveRequest, hasSurrogateEscape_of_not_wellFormed h]
  constructor
  · intro search h
    exact ⟨(), if_neg (hread search h)⟩
  · intro search h
    exact ⟨(), if_neg (hread search h), rfl⟩
  · intro search h
    exact ⟨⟨_, if_pos (hrefuse search h)⟩, _, if_pos (hrefuse search h)⟩

/-- A short text with a pair. -/
theorem transmissible_notes : Transmissible sampleSaves 7 sampleRest [110, 0xD83D, 0xDE00] := by
  have hvalue : WellFormed [110, 0xD83D, 0xDE00] :=
    .single (by decide) (by decide) (.pair (by decide) (by decide) .nil)
  refine (transmissible_iff readsSaves_sample hvalue).mpr ?_
  rintro ⟨unit, hunit, -⟩
  cases hunit

/-- 127 letters and an emoji. -/
def emojiAtCut : JsString := List.replicate 127 97 ++ [0xD83D, 0xDE00]

/-- The text is cut inside the pair, and its request is not answered. -/
theorem not_transmissible_emojiAtCut :
    WellFormed emojiAtCut ∧ ¬ Transmissible sampleSaves 7 sampleRest emojiAtCut ∧
      lineId sampleSaves
        (saveRequest 7 sampleRest (normalizeVaultListSearch (some emojiAtCut))) = none := by
  have hletters : ∀ n, WellFormed (List.replicate n 97 ++ [0xD83D, 0xDE00]) := by
    intro n
    induction n with
    | zero => exact .pair (by decide) (by decide) .nil
    | succ n ih => exact .single (by decide) (by decide) ih
  have hvalue : WellFormed emojiAtCut := hletters 127
  have hcut : CutsPair emojiAtCut := ⟨0xD83D, by decide, by decide⟩
  have hnot : ¬ WellFormed (normalizeVaultListSearch (some emojiAtCut)) := fun h =>
    (wellFormed_normalize_iff hvalue).mp h hcut
  exact ⟨hvalue, fun h => hnot h.wellFormed, lineId_saveRequest_none readsSaves_sample hnot⟩

end Upriv.Shared
