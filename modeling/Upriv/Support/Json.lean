import Mathlib.Data.List.Basic
import Mathlib.Tactic.Common

/-!
# Compact JSON objects of strings and numbers

A writer for flat JSON objects: compact separators, members in the order
given, standard string escaping and decimal numbers.  The escaping is the
usual one: the two-character forms where JSON has them, a six-character
lowercase escape for every other control character, and every remaining
character verbatim.

The point of the module is unambiguity.  Each building block is shown to be
readable off the front of any text, and `objectChars_injective` assembles
these facts: the text determines the list of members.
-/

namespace Upriv.Json

/-! ## Reading a code off the front of a text -/

/-- No two different values have codes that agree on a common continuation:
the value and the rest of the text are both determined. -/
def PrefixDecodable (code : α → List Char) : Prop :=
  ∀ a b r s, code a ++ r = code b ++ s → a = b ∧ r = s

/-- As `PrefixDecodable`, for continuations that start a given way. -/
def PrefixDecodableBefore
    (Stop : List Char → Prop) (code : α → List Char) : Prop :=
  ∀ a b r s, Stop r → Stop s → code a ++ r = code b ++ s → a = b ∧ r = s

theorem PrefixDecodable.before {code : α → List Char}
    (h : PrefixDecodable code) (Stop : List Char → Prop) :
    PrefixDecodableBefore Stop code :=
  fun a b r s _ _ heq => h a b r s heq

/-! ## Strings -/

/-- One lowercase hexadecimal digit. -/
def hexDigit (n : ℕ) : Char :=
  if n < 10 then Char.ofNat (48 + n) else Char.ofNat (87 + n)

/-- The escaped form of one character inside a JSON string. -/
def escapeChar (c : Char) : List Char :=
  if c = '"' then ['\\', '"']
  else if c = '\\' then ['\\', '\\']
  else if c = '\x08' then ['\\', 'b']
  else if c = '\t' then ['\\', 't']
  else if c = '\n' then ['\\', 'n']
  else if c = '\x0c' then ['\\', 'f']
  else if c = '\r' then ['\\', 'r']
  else if c.toNat < 32 then
    ['\\', 'u', '0', '0', hexDigit (c.toNat / 16), hexDigit (c.toNat % 16)]
  else [c]

/-- A JSON string with its quotes. -/
def stringChars (s : String) : List Char :=
  '"' :: (s.toList.flatMap escapeChar ++ ['"'])

/-- The control characters, as far as JSON escapes them. -/
def controlChars : List Char := (List.range 32).map Char.ofNat

theorem mem_controlChars {c : Char} (h : c.toNat < 32) : c ∈ controlChars := by
  rw [controlChars, List.mem_map]
  exact ⟨c.toNat, List.mem_range.mpr h, Char.ofNat_toNat c⟩

/-- The characters that are written with a backslash. -/
def escapedChars : List Char := '"' :: '\\' :: controlChars

theorem escapeChar_of_not_mem {c : Char} (h : c ∉ escapedChars) :
    escapeChar c = [c] := by
  have hcontrol : ¬ c.toNat < 32 := fun hc =>
    h (List.mem_cons_of_mem _ (List.mem_cons_of_mem _ (mem_controlChars hc)))
  have hne : ∀ d, d ∈ escapedChars → c ≠ d := fun d hd hcd => h (hcd ▸ hd)
  simp [escapeChar, hcontrol, hne '"' (by decide), hne '\\' (by decide),
    hne '\x08' (by decide), hne '\t' (by decide), hne '\n' (by decide),
    hne '\x0c' (by decide), hne '\r' (by decide)]

/-- Among the escaped characters no escape is a proper prefix of another. -/
theorem escapedChars_prefixFree :
    ∀ c ∈ escapedChars, ∀ d ∈ escapedChars,
      escapeChar c <+: escapeChar d → c = d := by
  have hall : (escapedChars.all fun c => escapedChars.all fun d =>
      decide (escapeChar c <+: escapeChar d → c = d)) = true := by
    decide +kernel
  intro c hc d hd
  exact of_decide_eq_true
    (List.all_eq_true.mp (List.all_eq_true.mp hall c hc) d hd)

theorem escapeChar_head_of_mem :
    ∀ c ∈ escapedChars, (escapeChar c).head? = some '\\' := by
  have hall : (escapedChars.all fun c =>
      decide ((escapeChar c).head? = some '\\')) = true := by
    decide +kernel
  intro c hc
  exact of_decide_eq_true (List.all_eq_true.mp hall c hc)

theorem escapeChar_decodable : PrefixDecodable escapeChar := by
  intro c d r s h
  have key : ∀ {a b : Char} {x y : List Char}, a ∈ escapedChars →
      b ∉ escapedChars → escapeChar a ++ x = escapeChar b ++ y → False := by
    intro a b x y ha hb hab
    rw [escapeChar_of_not_mem hb] at hab
    have hhead := escapeChar_head_of_mem a ha
    cases hcode : escapeChar a with
    | nil => simp [hcode] at hhead
    | cons e es =>
        rw [hcode] at hab hhead
        simp only [List.head?_cons, Option.some.injEq] at hhead
        simp only [List.cons_append, List.nil_append, List.cons.injEq] at hab
        exact hb (by rw [← hab.1, hhead]; decide)
  by_cases hc : c ∈ escapedChars <;> by_cases hd : d ∈ escapedChars
  · have hcd : c = d := by
      rcases List.prefix_or_prefix_of_prefix
          (List.prefix_append (escapeChar c) r)
          (h ▸ List.prefix_append (escapeChar d) s) with hp | hp
      · exact escapedChars_prefixFree c hc d hd hp
      · exact (escapedChars_prefixFree d hd c hc hp).symm
    subst hcd
    exact ⟨rfl, List.append_cancel_left h⟩
  · exact (key hc hd h).elim
  · exact (key hd hc h.symm).elim
  · rw [escapeChar_of_not_mem hc, escapeChar_of_not_mem hd] at h
    simpa using h

/-- An escaped character never starts with the closing quote. -/
theorem escapeChar_append_ne_quote (c : Char) (r s : List Char) :
    escapeChar c ++ r ≠ '"' :: s := by
  intro h
  by_cases hc : c ∈ escapedChars
  · have hhead := escapeChar_head_of_mem c hc
    cases hcode : escapeChar c with
    | nil => simp [hcode] at hhead
    | cons e es =>
        simp only [hcode, List.head?_cons, Option.some.injEq] at hhead
        simp only [hcode, List.cons_append, List.cons.injEq] at h
        rw [hhead] at h
        exact absurd h.1 (by decide)
  · rw [escapeChar_of_not_mem hc] at h
    simp only [List.cons_append, List.nil_append, List.cons.injEq] at h
    exact hc (by rw [h.1]; decide)

theorem escaped_decodable :
    PrefixDecodable fun cs : List Char => cs.flatMap escapeChar ++ ['"'] := by
  intro cs
  induction cs with
  | nil =>
      rintro (_ | ⟨d, ds⟩) r s h
      · simpa using h
      · simp only [List.flatMap_nil, List.flatMap_cons, List.nil_append,
          List.append_assoc, List.cons_append] at h
        exact (escapeChar_append_ne_quote d _ _ h.symm).elim
  | cons c cs ih =>
      rintro (_ | ⟨d, ds⟩) r s h
      · simp only [List.flatMap_nil, List.flatMap_cons, List.nil_append,
          List.append_assoc, List.cons_append] at h
        exact (escapeChar_append_ne_quote c _ _ h).elim
      · simp only [List.flatMap_cons, List.append_assoc] at h
        obtain ⟨hcd, hrest⟩ := escapeChar_decodable c d _ _ h
        obtain ⟨hcs, hrs⟩ := ih ds r s (by simpa using hrest)
        exact ⟨by rw [hcd, hcs], hrs⟩

theorem stringChars_decodable : PrefixDecodable stringChars := by
  intro a b r s h
  simp only [stringChars, List.cons_append, List.cons.injEq, true_and] at h
  obtain ⟨hab, hrs⟩ := escaped_decodable a.toList b.toList r s h
  exact ⟨String.toList_injective hab, hrs⟩

/-! ## Numbers -/

/-- A continuation at which a decimal number has ended. -/
def NoDigitAhead (r : List Char) : Prop :=
  ∀ c ∈ r.head?, c.isDigit = false

theorem takeWhile_digits {ds r : List Char}
    (hds : ∀ c ∈ ds, c.isDigit = true) (hr : NoDigitAhead r) :
    (ds ++ r).takeWhile (·.isDigit) = ds := by
  have htake : r.takeWhile (·.isDigit) = [] := by
    cases r with
    | nil => rfl
    | cons c r => simp [hr c (by simp)]
  rw [List.takeWhile_append_of_pos hds, htake, List.append_nil]

theorem toDigits_injective : Function.Injective (Nat.toDigits 10) := by
  intro m n h
  have hm := Nat.ofDigitChars_toDigits (n := m) (b := 10) (by omega) (by omega)
  have hn := Nat.ofDigitChars_toDigits (n := n) (b := 10) (by omega) (by omega)
  rw [← hm, h, hn]

theorem toDigits_decodable :
    PrefixDecodableBefore NoDigitAhead (Nat.toDigits 10) := by
  intro m n r s hr hs h
  have hdigits : ∀ k, ∀ c ∈ Nat.toDigits 10 k, c.isDigit = true :=
    fun k c hc => Nat.isDigit_of_mem_toDigits (by omega) (by omega) hc
  have hm := takeWhile_digits (hdigits m) hr
  rw [h, takeWhile_digits (hdigits n) hs] at hm
  exact ⟨toDigits_injective hm.symm, List.append_cancel_left (hm ▸ h)⟩

/-! ## Objects -/

/-- The member values of a flat object. -/
inductive Scalar where
  | str (s : String)
  | num (n : ℕ)
  deriving DecidableEq, Repr

def Scalar.chars : Scalar → List Char
  | .str s => stringChars s
  | .num n => Nat.toDigits 10 n

def memberChars (m : String × Scalar) : List Char :=
  stringChars m.1 ++ ':' :: m.2.chars

/-- What follows the first member: the closing brace, or a comma and the
next member. -/
def tailChars : List (String × Scalar) → List Char
  | [] => ['}']
  | m :: ms => ',' :: (memberChars m ++ tailChars ms)

/-- A compact flat object. -/
def objectChars : List (String × Scalar) → List Char
  | [] => ['{', '}']
  | m :: ms => '{' :: (memberChars m ++ tailChars ms)

theorem noDigitAhead_tailChars (ms : List (String × Scalar)) :
    NoDigitAhead (tailChars ms) := by
  cases ms <;> simp [NoDigitAhead, tailChars]

theorem toDigits_append_ne_quote (n : ℕ) (r s : List Char) :
    Nat.toDigits 10 n ++ r ≠ '"' :: s := by
  intro h
  cases hd : Nat.toDigits 10 n with
  | nil => exact Nat.toDigits_ne_nil hd
  | cons d ds =>
      have hdigit : d.isDigit = true :=
        Nat.isDigit_of_mem_toDigits (by omega) (by omega)
          (hd ▸ List.mem_cons_self)
      rw [hd, List.cons_append, List.cons.injEq] at h
      rw [h.1] at hdigit
      exact absurd hdigit (by decide)

theorem scalar_decodable :
    PrefixDecodableBefore NoDigitAhead Scalar.chars := by
  rintro (a | m) (b | n) r s hr hs h
  · obtain ⟨hab, hrs⟩ := stringChars_decodable a b r s h
    exact ⟨by rw [hab], hrs⟩
  · exact (toDigits_append_ne_quote n s _ h.symm).elim
  · exact (toDigits_append_ne_quote m r _ h).elim
  · obtain ⟨hmn, hrs⟩ := toDigits_decodable m n r s hr hs h
    exact ⟨by rw [hmn], hrs⟩

theorem member_decodable :
    PrefixDecodableBefore NoDigitAhead memberChars := by
  rintro ⟨k, v⟩ ⟨l, w⟩ r s hr hs h
  simp only [memberChars, List.append_assoc, List.cons_append] at h
  obtain ⟨hkl, hrest⟩ := stringChars_decodable k l _ _ h
  rw [List.cons.injEq] at hrest
  obtain ⟨hvw, hrs⟩ := scalar_decodable v w r s hr hs hrest.2
  exact ⟨by rw [hkl, hvw], hrs⟩

theorem tailChars_injective : Function.Injective tailChars := by
  intro ms
  induction ms with
  | nil =>
      rintro (_ | ⟨n, ns⟩) h
      · rfl
      · simp [tailChars] at h
  | cons m ms ih =>
      rintro (_ | ⟨n, ns⟩) h
      · simp [tailChars] at h
      · rw [tailChars, tailChars, List.cons.injEq] at h
        obtain ⟨hmn, htail⟩ := member_decodable m n _ _
          (noDigitAhead_tailChars ms) (noDigitAhead_tailChars ns) h.2
        rw [hmn, ih htail]

/-- The text of a flat object determines its members and their order. -/
theorem objectChars_injective : Function.Injective objectChars := by
  rintro (_ | ⟨m, ms⟩) (_ | ⟨n, ns⟩) h
  · rfl
  · simp [objectChars, memberChars, stringChars] at h
  · simp [objectChars, memberChars, stringChars] at h
  · rw [objectChars, objectChars, List.cons.injEq] at h
    obtain ⟨hmn, htail⟩ := member_decodable m n _ _
      (noDigitAhead_tailChars ms) (noDigitAhead_tailChars ns) h.2
    rw [hmn, tailChars_injective htail]

example :
    objectChars [("v", .num 10), ("k", .str "a\"\n")] =
      ['\x7b', '"', 'v', '"', ':', '1', '0', ',', '"', 'k', '"', ':', '"', 'a',
        '\\', '"', '\\', 'n', '"', '\x7d'] := by
  decide +kernel

end Upriv.Json
