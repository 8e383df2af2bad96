import Upriv.Support.Keyed

/-!
# Records

The own properties of a plain JavaScript object in the order they were added, no two with
one key.  Keys that are array indices, which would come first, and `__proto__` are out of
scope.
-/

namespace Upriv

structure Record (κ ν : Type) where
  entries : List (κ × ν)
  nodup : (entries.map Prod.fst).Nodup

namespace Record

variable {κ ν : Type}

/-- `Object.keys`. -/
def keys (record : Record κ ν) : List κ := record.entries.map Prod.fst

/-- `{}`. -/
def empty : Record κ ν := ⟨[], List.nodup_nil⟩

/-- `{ [key]: value }`. -/
def single (key : κ) (value : ν) : Record κ ν := ⟨[(key, value)], List.nodup_singleton key⟩

variable [DecidableEq κ]

/-- `record[key]`. -/
def get? (record : Record κ ν) (key : κ) : Option ν :=
  (record.entries.find? (Prod.fst · = key)).map Prod.snd

def setEntries (key : κ) (value : ν) : List (κ × ν) → List (κ × ν)
  | [] => [(key, value)]
  | entry :: entries =>
    if entry.1 = key then (key, value) :: entries else entry :: setEntries key value entries

theorem map_fst_setEntries (key : κ) (value : ν) (entries : List (κ × ν)) :
    (setEntries key value entries).map Prod.fst =
      if key ∈ entries.map Prod.fst then entries.map Prod.fst
      else entries.map Prod.fst ++ [key] := by
  induction entries with
  | nil => rfl
  | cons entry entries ih =>
    rw [setEntries, List.map_cons]
    split
    · rename_i hkey
      rw [if_pos (hkey ▸ List.mem_cons_self), hkey]
      rfl
    · rename_i hkey
      have hmem : key ∈ entry.1 :: entries.map Prod.fst ↔ key ∈ entries.map Prod.fst := by
        rw [List.mem_cons, or_iff_right (Ne.symm hkey)]
      rw [List.map_cons, ih]
      by_cases hrest : key ∈ entries.map Prod.fst
      · rw [if_pos hrest, if_pos (hmem.mpr hrest)]
      · rw [if_neg hrest, if_neg fun h => hrest (hmem.mp h)]
        rfl

/-- `record[key] = value`: a new key comes last, an old one keeps its place. -/
def set (record : Record κ ν) (key : κ) (value : ν) : Record κ ν where
  entries := setEntries key value record.entries
  nodup := by
    rw [map_fst_setEntries]
    split
    · exact record.nodup
    · rename_i hkey
      rw [List.nodup_append]
      refine ⟨record.nodup, List.nodup_singleton key, ?_⟩
      rintro _ hmem _ heq rfl
      exact hkey (List.mem_singleton.mp heq ▸ hmem)

/-- `delete record[key]`. -/
def delete (record : Record κ ν) (key : κ) : Record κ ν where
  entries := record.entries.filter (Prod.fst · ≠ key)
  nodup := record.nodup.sublist (List.filter_sublist.map Prod.fst)

variable {record : Record κ ν} {key key' : κ} {value : ν}

theorem get?_eq_some_iff : record.get? key = some value ↔ (key, value) ∈ record.entries := by
  rw [get?, Option.map_eq_some_iff]
  constructor
  · rintro ⟨entry, hentry, rfl⟩
    obtain ⟨hmem, rfl⟩ := (find?_key_eq_some record.nodup).mp hentry
    exact hmem
  · intro hmem
    exact ⟨_, (find?_key_eq_some record.nodup).mpr ⟨hmem, rfl⟩, rfl⟩

theorem get?_eq_none_iff : record.get? key = none ↔ key ∉ record.keys := by
  rw [get?, Option.map_eq_none_iff]
  exact find?_key_eq_none

theorem mem_keys_iff : key ∈ record.keys ↔ ∃ value, record.get? key = some value := by
  rw [keys, List.mem_map]
  simp only [get?_eq_some_iff]
  constructor
  · rintro ⟨⟨key, value⟩, hmem, rfl⟩
    exact ⟨value, hmem⟩
  · rintro ⟨value, hmem⟩
    exact ⟨_, hmem, rfl⟩

@[simp] theorem get?_empty : (empty : Record κ ν).get? key = none := rfl

theorem get?_single : (single key value).get? key' = if key = key' then some value else none := by
  rw [get?, single, List.find?_cons, List.find?_nil]
  by_cases h : key = key'
  · rw [if_pos h, decide_eq_true h]
    rfl
  · rw [if_neg h, decide_eq_false h]
    rfl

theorem mem_keys_set : key' ∈ (record.set key value).keys ↔ key' = key ∨ key' ∈ record.keys := by
  rw [keys, set, map_fst_setEntries, keys]
  split
  · rename_i hmem
    constructor
    · exact .inr
    · rintro (rfl | h)
      · exact hmem
      · exact h
  · rw [List.mem_append, List.mem_singleton, or_comm]

theorem mem_setEntries_of_ne {entries : List (κ × ν)} {value' : ν} (h : key' ≠ key) :
    (key', value') ∈ setEntries key value entries ↔ (key', value') ∈ entries := by
  have hne : (key', value') ≠ (key, value) := fun heq => h (congrArg Prod.fst heq)
  induction entries with
  | nil =>
    rw [setEntries, List.mem_singleton]
    exact iff_of_false hne List.not_mem_nil
  | cons entry entries ih =>
    rw [setEntries]
    split
    · rename_i hkey
      have hne' : (key', value') ≠ entry := fun heq => h ((congrArg Prod.fst heq).trans hkey)
      rw [List.mem_cons, List.mem_cons, or_iff_right hne, or_iff_right hne']
    · exact List.mem_cons.trans ((or_congr_right ih).trans List.mem_cons.symm)

theorem mem_setEntries_self (key : κ) (value : ν) (entries : List (κ × ν)) :
    (key, value) ∈ setEntries key value entries := by
  induction entries with
  | nil => exact List.mem_singleton_self _
  | cons entry entries ih =>
    rw [setEntries]
    split
    · exact List.mem_cons_self
    · exact List.mem_cons_of_mem _ ih

theorem get?_set_self : (record.set key value).get? key = some value :=
  get?_eq_some_iff.mpr (mem_setEntries_self key value record.entries)

theorem get?_set_of_ne (h : key' ≠ key) : (record.set key value).get? key' = record.get? key' := by
  ext value'
  rw [get?_eq_some_iff, get?_eq_some_iff]
  exact mem_setEntries_of_ne h

theorem get?_delete_of_ne (h : key' ≠ key) : (record.delete key).get? key' = record.get? key' := by
  ext value
  rw [get?_eq_some_iff, get?_eq_some_iff, delete, List.mem_filter]
  exact and_iff_left (decide_eq_true h)

theorem mem_keys_delete : key' ∈ (record.delete key).keys ↔ key' ∈ record.keys ∧ key' ≠ key := by
  rw [mem_keys_iff, mem_keys_iff]
  simp only [get?_eq_some_iff, delete, List.mem_filter, decide_eq_true_iff]
  exact exists_and_right

/-! ## Building a record from the entries of another -/

/-- `for (const [key, value] of Object.entries(record)) next[f(key)] = value`. -/
def mapKeys (f : κ → κ) (record : Record κ ν) : Record κ ν :=
  record.entries.foldl (fun next entry => next.set (f entry.1) entry.2) empty

section mapKeys

variable {f : κ → κ}

theorem mem_keys_foldl (entries : List (κ × ν)) (next : Record κ ν) :
    key ∈ (entries.foldl (fun next entry => next.set (f entry.1) entry.2) next).keys ↔
      key ∈ next.keys ∨ ∃ entry ∈ entries, f entry.1 = key := by
  induction entries generalizing next with
  | nil => simp
  | cons entry entries ih =>
    rw [List.foldl_cons, ih, mem_keys_set, List.exists_mem_cons_iff, or_comm (a := key = _),
      or_assoc, eq_comm (a := key)]

theorem mem_keys_mapKeys : key ∈ (record.mapKeys f).keys ↔ ∃ old ∈ record.keys, f old = key := by
  rw [mapKeys, mem_keys_foldl, keys, keys]
  simp [empty]

theorem get?_foldl (entries : List (κ × ν)) (next : Record κ ν) :
    (entries.foldl (fun next entry => next.set (f entry.1) entry.2) next).get? key =
      ((entries.reverse.find? (f ·.1 = key)).map Prod.snd).or (next.get? key) := by
  induction entries generalizing next with
  | nil => rfl
  | cons entry entries ih =>
    rw [List.foldl_cons, ih, List.reverse_cons, List.find?_append, Option.map_or, Option.or_assoc]
    congr 1
    by_cases hkey : f entry.1 = key
    · rw [List.find?_singleton, if_pos (decide_eq_true hkey), ← hkey, get?_set_self]
      rfl
    · rw [List.find?_singleton, if_neg (by simpa using hkey), get?_set_of_ne (Ne.symm hkey)]
      rfl

/-- Of the entries that go to a key the last one wins. -/
theorem get?_mapKeys_eq_find? :
    (record.mapKeys f).get? key =
      (record.entries.reverse.find? (f ·.1 = key)).map Prod.snd := by
  rw [mapKeys, get?_foldl, get?_empty, Option.or_none]

/-- The value goes along when no other key becomes the same. -/
theorem get?_mapKeys (hkey : ∀ other ∈ record.keys, f other = f key → other = key) :
    (record.mapKeys f).get? (f key) = record.get? key := by
  cases hvalue : record.get? key with
  | none =>
    rw [get?_eq_none_iff] at hvalue ⊢
    rw [mem_keys_mapKeys]
    rintro ⟨old, hold, heq⟩
    exact hvalue (hkey old hold heq ▸ hold)
  | some value =>
    rw [get?_mapKeys_eq_find?]
    cases hfind : record.entries.reverse.find? (f ·.1 = f key) with
    | none =>
      rw [List.find?_eq_none] at hfind
      have hmem := List.mem_reverse.mpr (get?_eq_some_iff.mp hvalue)
      exact absurd (decide_eq_true rfl) (hfind _ hmem)
    | some entry =>
      have hmem := List.mem_reverse.mp (List.mem_of_find?_eq_some hfind)
      have himage : f entry.1 = f key := by simpa using List.find?_some hfind
      have hsame := hkey entry.1 (List.mem_map_of_mem hmem) himage
      have hentry : record.get? key = some entry.2 := get?_eq_some_iff.mpr (hsame ▸ hmem)
      rw [← hvalue, hentry, Option.map_some]

end mapKeys

end Record

end Upriv
