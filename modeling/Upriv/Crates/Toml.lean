import Mathlib.Data.List.Infix
import Mathlib.Data.List.Pairwise
import Mathlib.Tactic.Common

/-!
# The `toml` crate

Serialisation to text and back for one type of documents is a parameter.
What `to_string_pretty` writes is read back by `from_str`, also below a block
of comment lines.
-/

namespace Upriv

/-- A comment holds no control characters but tabs. -/
def isCommentChar (c : Char) : Bool := c == '\t' || (32 ≤ c.toNat && c.toNat ≠ 127)

/-- Whole lines, each of them empty or a comment. -/
def IsCommentBlock (text : String) : Bool :=
  ((text.toList.splitOn '\n').all fun line =>
      line.head?.all (· == '#') && line.all isCommentChar) &&
    text.toList.getLast?.all (· == '\n')

/-- For literals: the kernel knows their characters, not their bytes. -/
theorem isCommentBlock_ofList (cs : List Char) :
    IsCommentBlock (String.ofList cs) =
      (((cs.splitOn '\n').all fun line =>
          line.head?.all (· == '#') && line.all isCommentChar) &&
        cs.getLast?.all (· == '\n')) := by
  rw [IsCommentBlock, String.toList_ofList]

theorem isCommentBlock_ofList_append (as bs cs : List Char) :
    IsCommentBlock (String.ofList as ++ String.ofList bs ++ String.ofList cs) =
      ((((as ++ bs ++ cs).splitOn '\n').all fun line =>
          line.head?.all (· == '#') && line.all isCommentChar) &&
        (as ++ bs ++ cs).getLast?.all (· == '\n')) := by
  rw [← String.ofList_append, ← String.ofList_append, isCommentBlock_ofList]

structure TomlCodec (α : Type) where
  toStringPretty : α → Except String String
  fromStr : String → Except String α
  fromStr_toStringPretty : ∀ a text comments, toStringPretty a = .ok text →
    IsCommentBlock comments = true → fromStr (comments ++ text) = .ok a

section
variable {α : Type}

/-- The crate can write the document. -/
def TomlCodec.Serializes (codec : TomlCodec α) (a : α) : Prop :=
  ∃ text, codec.toStringPretty a = .ok text

/-- The entry whose text `raw` ends with. -/
def lookupText (table : List (α × String)) (raw : String) : Option (α × String) :=
  table.find? fun entry => entry.2.toList.isSuffixOf raw.toList

/-- When no text ends with another one, a text is found below comments. -/
theorem lookupText_append {table : List (α × String)} {entry : α × String}
    (h : ∀ p ∈ table, ∀ q ∈ table, p.2.toList <:+ q.2.toList → p = q)
    (hmem : entry ∈ table) (comments : String) :
    lookupText table (comments ++ entry.2) = some entry := by
  have hself : entry.2.toList <:+ (comments ++ entry.2).toList := by simp
  cases hlookup : lookupText table (comments ++ entry.2) with
  | none =>
      rw [lookupText, List.find?_eq_none] at hlookup
      exact absurd (List.isSuffixOf_iff_suffix.mpr hself) (hlookup entry hmem)
  | some found =>
      have hfound : found.2.toList <:+ (comments ++ entry.2).toList := by
        simpa using List.find?_some hlookup
      have hfoundMem := List.mem_of_find?_eq_some hlookup
      rcases List.suffix_or_suffix_of_suffix hfound hself with hsuffix | hsuffix
      · rw [h found hfoundMem entry hmem hsuffix]
      · rw [h entry hmem found hfoundMem hsuffix]

/-- A document with its text, given up to the rest that all texts end with. -/
def withRest (rest : String) (entry : α × String × String) : α × String :=
  (entry.1, entry.2.1 ++ entry.2.2 ++ rest)

/-- When no mark before the rest ends with another one, no text does. -/
theorem eq_of_suffix_withRest {rest : String} {table : List (α × String × String)}
    (h : table.Pairwise fun p q =>
      ¬ p.2.2.toList <:+ q.2.2.toList ∧ ¬ q.2.2.toList <:+ p.2.2.toList) :
    ∀ p ∈ table.map (withRest rest), ∀ q ∈ table.map (withRest rest),
      p.2.toList <:+ q.2.toList → p = q := by
  rw [List.forall_mem_map]
  intro p hp
  rw [List.forall_mem_map]
  intro q hq hsuffix
  have hmarks : p.2.2.toList <:+ q.2.2.toList ∨ q.2.2.toList <:+ p.2.2.toList := by
    obtain ⟨front, hfront⟩ := hsuffix
    simp only [withRest, String.toList_append, ← List.append_assoc] at hfront
    have hbefore := List.append_cancel_right hfront
    exact List.suffix_or_suffix_of_suffix ⟨_, hbefore⟩ (List.suffix_append _ _)
  by_contra hne
  have : Std.Symm fun p q : α × String × String =>
      ¬ p.2.2.toList <:+ q.2.2.toList ∧ ¬ q.2.2.toList <:+ p.2.2.toList :=
    ⟨fun _ _ hpair => hpair.symm⟩
  have hpair := h.forall hp hq fun heq => hne (congrArg (withRest rest) heq)
  exact hmarks.elim hpair.1 hpair.2

/-- A codec that only reads. -/
def TomlCodec.reader (fromStr : String → Except String α) : TomlCodec α where
  toStringPretty _ := .error "unsupported document"
  fromStr := fromStr
  fromStr_toStringPretty _ _ _ h _ := by cases h

/-- A codec that knows some documents and their texts. -/
def TomlCodec.ofTable [DecidableEq α] (table : List (α × String))
    (h : ∀ p ∈ table, ∀ q ∈ table, p.2.toList <:+ q.2.toList → p = q) :
    TomlCodec α where
  toStringPretty a :=
    match table.find? (·.1 = a) with
    | some entry => .ok entry.2
    | none => .error "unsupported document"
  fromStr raw :=
    match lookupText table raw with
    | some entry => .ok entry.1
    | none => .error "unsupported text"
  fromStr_toStringPretty a text comments htext _ := by
    split at htext
    · rename_i entry hfind
      have ha : entry.1 = a := by simpa using List.find?_some hfind
      obtain rfl := Except.ok.inj htext
      rw [lookupText_append h (List.mem_of_find?_eq_some hfind)]
      simp only [ha]
    · cases htext

section
variable [DecidableEq α] {table : List (α × String)}
  (h : ∀ p ∈ table, ∀ q ∈ table, p.2.toList <:+ q.2.toList → p = q) {text raw : String} {a : α}

theorem TomlCodec.mem_of_ofTable_fromStr (hraw : (TomlCodec.ofTable table h).fromStr raw = .ok a) :
    ∃ text, (a, text) ∈ table := by
  simp only [TomlCodec.ofTable] at hraw
  split at hraw
  · rename_i entry hlookup
    obtain rfl := Except.ok.inj hraw
    exact ⟨entry.2, List.mem_of_find?_eq_some hlookup⟩
  · cases hraw

theorem TomlCodec.ofTable_serializes (hmem : (a, text) ∈ table) :
    (TomlCodec.ofTable table h).Serializes a := by
  simp only [TomlCodec.Serializes, TomlCodec.ofTable]
  cases hfind : table.find? fun entry => decide (entry.1 = a) with
  | none =>
      rw [List.find?_eq_none] at hfind
      exact absurd (decide_eq_true rfl) (hfind (a, text) hmem)
  | some entry => exact ⟨entry.2, rfl⟩

end

end

end Upriv
