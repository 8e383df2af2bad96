import Mathlib.Data.UInt
import Mathlib.Tactic.Common

/-!
# Reading TOML documents into structs

What a derived `Deserialize` makes of a TOML value: a scalar by its type, a
struct field by field, where a field that is not there has its default and
other fields are skipped.  How a text becomes a document is a parameter, and
so is what a value other than a table offers to a struct.
-/

namespace Upriv

inductive TomlValue where
  | string (text : String)
  | integer (value : Int64)
  | float (text : String)
  | boolean (value : Bool)
  | datetime (text : String)
  | array (items : List TomlValue)
  | table (entries : List (String × TomlValue))

/-- The fields that a value offers to a struct: by name, in a sequence by position. -/
abbrev TomlFields := ℕ → String → Option TomlValue

/-- The crate: its parser, and the two sides of a derived `Deserialize` that its
values decide. -/
structure TomlCrate where
  parse : String → Except String (List (String × TomlValue))
  fields : TomlValue → Option TomlFields
  fields_table : ∀ entries, fields (.table entries) = some fun _ name => entries.lookup name
  /-- The text of the error when the document does not fit the struct. -/
  mismatch : String → String → String

/-! ## Scalars -/

inductive TomlType where
  | string
  | boolean
  | i64
  | u32
  deriving DecidableEq, Repr

def TomlValue.hasType : TomlType → TomlValue → Bool
  | .string, .string _ => true
  | .boolean, .boolean _ => true
  | .i64, .integer _ => true
  | .u32, .integer value => 0 ≤ value.toInt && value.toInt < 2 ^ 32
  | _, _ => false

/-- A Rust type that is read from values of one type. -/
class TomlScalar (α : Type) where
  type : TomlType
  decode : TomlValue → Option α
  isSome_decode : ∀ value, (decode value).isSome = value.hasType type

instance : TomlScalar String where
  type := .string
  decode
    | .string text => some text
    | _ => none
  isSome_decode value := by cases value <;> rfl

instance : TomlScalar Bool where
  type := .boolean
  decode
    | .boolean value => some value
    | _ => none
  isSome_decode value := by cases value <;> rfl

instance : TomlScalar Int64 where
  type := .i64
  decode
    | .integer value => some value
    | _ => none
  isSome_decode value := by cases value <;> rfl

/-- A number out of range is refused. -/
instance : TomlScalar UInt32 where
  type := .u32
  decode
    | .integer value =>
      if 0 ≤ value.toInt ∧ value.toInt < 2 ^ 32 then some (.ofNat value.toInt.toNat) else none
    | _ => none
  isSome_decode value := by
    cases value <;> try rfl
    simp only [TomlValue.hasType]
    split <;> simp_all

@[simp] theorem type_string : TomlScalar.type String = .string := rfl

@[simp] theorem type_bool : TomlScalar.type Bool = .boolean := rfl

@[simp] theorem type_int64 : TomlScalar.type Int64 = .i64 := rfl

@[simp] theorem type_uint32 : TomlScalar.type UInt32 = .u32 := rfl

/-! ## Structs -/

section
variable {α β : Type}

/-- A field: read if it is there. -/
def TomlFields.read (fields : TomlFields) (decode : TomlValue → Option α) (position : ℕ)
    (name : String) (default : Option α) : Option α :=
  match fields position name with
  | some value => decode value
  | none => default

/-- A scalar field with a default. -/
def TomlFields.get [TomlScalar α] (fields : TomlFields) (position : ℕ) (name : String)
    (default : α) : Option α :=
  fields.read TomlScalar.decode position name (some default)

/-- The fields have the types in the list, those of them that are there. -/
def TomlFields.Fit (fields : TomlFields) : ℕ → List (String × TomlType) → Prop
  | _, [] => True
  | position, (name, type) :: keys =>
    (∀ value, fields position name = some value → value.hasType type = true) ∧
      fields.Fit (position + 1) keys

/-- The value is read into a struct with these fields. -/
def TomlCrate.StructFits (toml : TomlCrate) (keys : List (String × TomlType))
    (value : TomlValue) : Prop :=
  ∃ fields, toml.fields value = some fields ∧ fields.Fit 0 keys

theorem isSome_read_required {fields : TomlFields} {decode : TomlValue → Option α} {position : ℕ}
    {name : String} :
    (fields.read decode position name none).isSome = true ↔
      ∃ value, fields position name = some value ∧ (decode value).isSome = true := by
  unfold TomlFields.read
  cases fields position name <;> simp

theorem isSome_read_default {fields : TomlFields} {decode : TomlValue → Option α} {position : ℕ}
    {name : String} {default : α} :
    (fields.read decode position name (some default)).isSome = true ↔
      ∀ value, fields position name = some value → (decode value).isSome = true := by
  unfold TomlFields.read
  cases fields position name <;> simp

theorem isSome_get [TomlScalar α] {fields : TomlFields} {position : ℕ} {name : String}
    {default : α} :
    (fields.get position name default).isSome = true ↔
      ∀ value, fields position name = some value →
        value.hasType (TomlScalar.type α) = true := by
  rw [TomlFields.get, isSome_read_default]
  simp [TomlScalar.isSome_decode]

/-- A struct is read if all its fields are. -/
@[simp] theorem isSome_seq {f : Option (α → β)} {x : Option α} :
    (f <*> x).isSome = (f.isSome && x.isSome) := by
  cases f <;> cases x <;> rfl

theorem isSome_deserialize {toml : TomlCrate} {value : TomlValue}
    {decode : TomlFields → Option α} {keys : List (String × TomlType)}
    (h : ∀ fields, (decode fields).isSome = true ↔ fields.Fit 0 keys) :
    (toml.fields value >>= decode).isSome = true ↔ toml.StructFits keys value := by
  unfold TomlCrate.StructFits
  cases toml.fields value with
  | none => simp
  | some fields => simp [h]

/-! ## Documents -/

/-- `toml::from_str`, for a struct of this name. -/
def TomlCrate.fromStr (toml : TomlCrate) (name : String) (decode : TomlValue → Option α)
    (raw : String) : Except String α :=
  match toml.parse raw with
  | .error error => .error error
  | .ok entries =>
    match decode (.table entries) with
    | some parsed => .ok parsed
    | none => .error (toml.mismatch name raw)

theorem fromStr_eq_ok {toml : TomlCrate} {name raw : String} {decode : TomlValue → Option α}
    {parsed : α} :
    toml.fromStr name decode raw = .ok parsed ↔
      ∃ entries, toml.parse raw = .ok entries ∧ decode (.table entries) = some parsed := by
  unfold TomlCrate.fromStr
  cases toml.parse raw with
  | error error => simp
  | ok entries => cases hdecode : decode (.table entries) <;> simp [hdecode]

end

end Upriv
