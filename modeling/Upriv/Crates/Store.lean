import Upriv.Contents.Aead
import Upriv.Contents.Header
import Upriv.Contents.Index

/-!
# The crates of the vault store

Argon2id, HKDF, Base64, SHA-256, the two ciphers and `serde_json` for the
documents of a vault are parameters.  What is relied on: what was encoded is
decoded again, and what was sealed opens under the same key.
-/

namespace Upriv

/-- `serde_json` for one type of documents. -/
structure JsonCodec (α : Type) where
  toString : α → Except String String
  fromStr : String → Except String α
  fromStr_toString : ∀ a text, toString a = .ok text → fromStr text = .ok a

/-- A codec that knows some documents and their texts. -/
def JsonCodec.ofTable {α : Type} [DecidableEq α] (table : List (α × String))
    (h : ∀ p ∈ table, ∀ q ∈ table, p.2 = q.2 → p = q) : JsonCodec α where
  toString a :=
    match table.find? (·.1 = a) with
    | some entry => .ok entry.2
    | none => .error "unsupported document"
  fromStr text :=
    match table.find? (·.2 = text) with
    | some entry => .ok entry.1
    | none => .error "unsupported text"
  fromStr_toString a text htext := by
    split at htext
    · rename_i entry hfind
      have ha : entry.1 = a := by simpa using List.find?_some hfind
      have hmem := List.mem_of_find?_eq_some hfind
      obtain rfl := Except.ok.inj htext
      cases hback : table.find? (·.2 = entry.2) with
      | none =>
          rw [List.find?_eq_none] at hback
          exact absurd (by simp) (hback entry hmem)
      | some found =>
          have hfound : found.2 = entry.2 := by simpa using List.find?_some hback
          rw [h found (List.mem_of_find?_eq_some hback) entry hmem hfound]
          exact congrArg Except.ok ha
    · cases htext

namespace Contents

def MASTER_KEY_LEN : ℕ := 32
def INDEX_KEY_LEN : ℕ := 64
def AES_SIV_NONCE_LEN : ℕ := 16
def KEK_LEN : ℕ := 32
def SALT_LEN : ℕ := 16

abbrev MasterKey := Vector UInt8 MASTER_KEY_LEN
abbrev IndexKey := Vector UInt8 INDEX_KEY_LEN
abbrev Kek := Vector UInt8 KEK_LEN

/-- `vaults/<id>/persistence.json`: closed-only rest metadata. -/
structure VaultPersistence where
  formatVersion : UInt32
  vaultId : String
  displayName : String
  syncGeneration : UInt64
  contentHash : Option String
  lastCloseOkAt : Option String
  persistence : String
  deriving DecidableEq, Repr

structure StoreCrates (U : UuidCrate) where
  xchacha : XChaCha20Poly1305
  aesSiv : AeadCrate INDEX_KEY_LEN
  /-- `hash_password_into_with_memory` for a password, a salt, `m`, `t`, `p`. -/
  argon2id : (password salt : Bytes) → (m t p : UInt32) → Except String Kek
  hkdfContent : MasterKey → Option ContentKey
  hkdfIndex : MasterKey → Option IndexKey
  base64Encode : Bytes → String
  base64Decode : String → Option Bytes
  base64Decode_encode : ∀ bytes, base64Decode (base64Encode bytes) = some bytes
  sha256Hex : Bytes → String
  headerJson : JsonCodec (VaultHeader U)
  indexJson : JsonCodec VaultIndex
  persistenceJson : JsonCodec VaultPersistence

/-! ## Stand-ins

On them the model can be evaluated.  Nothing is hidden. -/

/-- One character for each byte. -/
def bytesText (bytes : Bytes) : String :=
  String.ofList (bytes.map fun b => Char.ofNat b.toNat)

def textBytes (text : String) : Option Bytes :=
  some (text.toList.map fun c => UInt8.ofNat c.toNat)

theorem textBytes_bytesText (bytes : Bytes) : textBytes (bytesText bytes) = some bytes := by
  rw [textBytes, bytesText, String.toList_ofList, List.map_map]
  refine congrArg some (List.map_id'' (fun b => ?_) bytes)
  have hvalid : b.toNat.isValidChar := .inl (Nat.lt_trans b.toNat_lt (by decide))
  rw [Function.comp_apply, Char.ofNat, dif_pos hvalid]
  exact UInt8.ofNat_toNat

/-- The first bytes, then zeros. -/
def padded (n : ℕ) (bytes : Bytes) : Vector UInt8 n := Vector.ofFn fun i => bytes.getD i 0

def StoreCrates.standIn {U : UuidCrate} (headerJson : JsonCodec (VaultHeader U))
    (indexJson : JsonCodec VaultIndex) (persistenceJson : JsonCodec VaultPersistence) :
    StoreCrates U where
  xchacha := AeadCrate.transparent _
  aesSiv := AeadCrate.transparent _
  argon2id password salt _ _ _ := .ok (padded KEK_LEN (password ++ salt))
  hkdfContent masterKey := some (padded CONTENT_KEY_LEN (1 :: masterKey.toList))
  hkdfIndex masterKey := some (padded INDEX_KEY_LEN (2 :: masterKey.toList))
  base64Encode := bytesText
  base64Decode := textBytes
  base64Decode_encode := textBytes_bytesText
  sha256Hex := bytesText
  headerJson := headerJson
  indexJson := indexJson
  persistenceJson := persistenceJson

/-! The samples know no documents. -/

theorem noHeaderTexts : ∀ p ∈ ([] : List (VaultHeader UuidCrate.hyphenated × String)),
    ∀ q ∈ ([] : List (VaultHeader UuidCrate.hyphenated × String)), p.2 = q.2 → p = q :=
  List.forall_mem_nil _

theorem noIndexTexts : ∀ p ∈ ([] : List (VaultIndex × String)),
    ∀ q ∈ ([] : List (VaultIndex × String)), p.2 = q.2 → p = q :=
  List.forall_mem_nil _

theorem noPersistenceTexts : ∀ p ∈ ([] : List (VaultPersistence × String)),
    ∀ q ∈ ([] : List (VaultPersistence × String)), p.2 = q.2 → p = q :=
  List.forall_mem_nil _

end Contents

end Upriv
