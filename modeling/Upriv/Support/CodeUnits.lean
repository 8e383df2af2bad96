import Upriv.Support.JsText

/-!
# JavaScript strings

A JavaScript string is a list of UTF-16 code units, which need not be the encoding of
a text.
-/

namespace Upriv

abbrev JsString := List UInt16

/-- The code units of a character. -/
def utf16Char (c : Char) : JsString :=
  if c.toNat < 0x10000 then [UInt16.ofNat c.toNat]
  else
    [UInt16.ofNat (0xD800 + (c.toNat - 0x10000) / 0x400),
      UInt16.ofNat (0xDC00 + (c.toNat - 0x10000) % 0x400)]

def utf16 (cs : List Char) : JsString := cs.flatMap utf16Char

theorem utf16_cons (c : Char) (cs : List Char) : utf16 (c :: cs) = utf16Char c ++ utf16 cs :=
  List.flatMap_cons

theorem utf16_append (cs ds : List Char) : utf16 (cs ++ ds) = utf16 cs ++ utf16 ds :=
  List.flatMap_append

theorem length_utf16_append (cs ds : List Char) :
    (utf16 (cs ++ ds)).length = (utf16 cs).length + (utf16 ds).length := by
  rw [utf16_append, List.length_append]

/-- White space is never half of a pair. -/
def isWhitespaceUnit (unit : UInt16) : Bool := isJsWhitespace (Char.ofNat unit.toNat)

/-- `String.prototype.trim`. -/
def jsTrim (s : JsString) : JsString := trimWith isWhitespaceUnit s

/-! ## Surrogates -/

def IsHigh (unit : UInt16) : Prop := 0xD800 ≤ unit.toNat ∧ unit.toNat ≤ 0xDBFF

def IsLow (unit : UInt16) : Prop := 0xDC00 ≤ unit.toNat ∧ unit.toNat ≤ 0xDFFF

instance (unit : UInt16) : Decidable (IsHigh unit) := inferInstanceAs (Decidable (_ ∧ _))

instance (unit : UInt16) : Decidable (IsLow unit) := inferInstanceAs (Decidable (_ ∧ _))

theorem not_isLow_of_isHigh {unit : UInt16} (h : IsHigh unit) : ¬ IsLow unit := by
  unfold IsHigh at h
  unfold IsLow
  omega

/-- A string without unpaired surrogates. -/
inductive WellFormed : JsString → Prop
  | nil : WellFormed []
  | single {unit : UInt16} {rest : JsString} (hhigh : ¬ IsHigh unit) (hlow : ¬ IsLow unit)
      (hrest : WellFormed rest) : WellFormed (unit :: rest)
  | pair {high low : UInt16} {rest : JsString} (hhigh : IsHigh high) (hlow : IsLow low)
      (hrest : WellFormed rest) : WellFormed (high :: low :: rest)

section WellFormed

variable {unit high low : UInt16} {s rest : JsString}

theorem wellFormed_single_iff (hhigh : ¬ IsHigh unit) (hlow : ¬ IsLow unit) :
    WellFormed (unit :: rest) ↔ WellFormed rest := by
  constructor
  · intro h
    cases h with
    | single _ _ hrest => exact hrest
    | pair hpair _ _ => exact absurd hpair hhigh
  · exact WellFormed.single hhigh hlow

theorem wellFormed_pair_iff (hhigh : IsHigh high) (hlow : IsLow low) :
    WellFormed (high :: low :: rest) ↔ WellFormed rest := by
  constructor
  · intro h
    cases h with
    | single hsingle _ _ => exact absurd hhigh hsingle
    | pair _ _ hrest => exact hrest
  · exact WellFormed.pair hhigh hlow

/-- A high surrogate has to have a low one after it. -/
theorem not_wellFormed_of_isHigh (hhigh : IsHigh unit) (hnext : ∀ next ∈ rest.head?, ¬ IsLow next) :
    ¬ WellFormed (unit :: rest) := by
  intro h
  cases h with
  | single hsingle _ _ => exact hsingle hhigh
  | pair _ hlow _ => exact hnext _ rfl hlow

/-- Leaving out units that are no surrogates unpairs nothing. -/
theorem WellFormed.filter {keep : UInt16 → Bool} (h : WellFormed s)
    (hhigh : ∀ unit, IsHigh unit → keep unit = true)
    (hlow : ∀ unit, IsLow unit → keep unit = true) : WellFormed (s.filter keep) := by
  induction h with
  | nil => exact .nil
  | single hnotHigh hnotLow _ ih =>
    rw [List.filter_cons]
    split
    · exact .single hnotHigh hnotLow ih
    · exact ih
  | pair hpairHigh hpairLow _ ih =>
    rw [List.filter_cons_of_pos (hhigh _ hpairHigh), List.filter_cons_of_pos (hlow _ hpairLow)]
    exact .pair hpairHigh hpairLow ih

/-- A cut leaves a well-formed string unless it is inside a pair. -/
theorem WellFormed.take_iff (h : WellFormed s) (n : ℕ) :
    WellFormed (s.take (n + 1)) ↔ ∀ unit ∈ s[n]?, ¬ IsHigh unit := by
  induction h generalizing n with
  | nil => simp [WellFormed.nil]
  | @single unit rest hhigh hlow _ ih =>
    rw [List.take_succ_cons, wellFormed_single_iff hhigh hlow]
    cases n with
    | zero => simp [WellFormed.nil, hhigh]
    | succ n => rw [ih n, List.getElem?_cons_succ]
  | @pair high low rest hhigh hlow _ ih =>
    cases n with
    | zero =>
      refine iff_of_false ?_ fun hall => hall high rfl hhigh
      exact not_wellFormed_of_isHigh hhigh fun next hnext => absurd hnext (by simp)
    | succ n =>
      rw [List.take_succ_cons, List.take_succ_cons, wellFormed_pair_iff hhigh hlow,
        List.getElem?_cons_succ]
      cases n with
      | zero =>
        refine iff_of_true .nil ?_
        rintro unit hunit hunitHigh
        cases hunit
        exact not_isLow_of_isHigh hunitHigh hlow
      | succ n => rw [ih n, List.getElem?_cons_succ]

end WellFormed

end Upriv
