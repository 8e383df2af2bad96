import Upriv.Crates.Uuid
import Upriv.Support.Bytes
import Upriv.Support.Json

/-!
# `contents/vault.header` and the authenticated data of the store

`contents/header.rs`.  Every blob of the store (the wrapped master key, the
sealed index and each chunk) is bound to compact JSON of the header
parameters and, for chunks, of the position of the chunk in its file.
-/

namespace Upriv.Contents

open Upriv.Json

/-! ## The header -/

structure HeaderKdf where
  alg : String
  memoryKib : UInt32
  timeCost : UInt32
  parallelism : UInt32
  saltB64 : String
  deriving DecidableEq, Repr

structure VaultHeader (U : UuidCrate) where
  formatVersion : UInt32
  contentIdentity : U.Uuid
  kdf : HeaderKdf
  aead : String
  nameCipher : String
  chunkSize : UInt32
  wrappedMasterKeyB64 : String
  deriving DecidableEq

/-! ## `StoreAad` -/

/-- `(file_id, chunk_index, file_size, chunk_len)`. -/
structure ChunkPosition where
  fileId : String
  chunkIndex : UInt32
  fileSize : UInt64
  chunkLen : UInt32
  deriving DecidableEq, Repr

/-- The serialized struct, in field order.  The four optional fields are
omitted when absent (`skip_serializing_if`). -/
structure StoreAad where
  v : UInt32
  cid : String
  kdf : String
  m : UInt32
  t : UInt32
  p : UInt32
  salt : String
  aead : String
  names : String
  chunk : UInt32
  kind : String
  fileId : Option String
  chunkIndex : Option UInt32
  fileSize : Option UInt64
  chunkLen : Option UInt32
  deriving DecidableEq, Repr

/-- A member that is left out when its value is `None`. -/
def optionalMember (key : String) (toScalar : α → Scalar) :
    Option α → List (String × Scalar)
  | none => []
  | some a => [(key, toScalar a)]

def StoreAad.members (a : StoreAad) : List (String × Scalar) :=
  [("v", .num a.v.toNat), ("cid", .str a.cid), ("kdf", .str a.kdf),
    ("m", .num a.m.toNat), ("t", .num a.t.toNat), ("p", .num a.p.toNat),
    ("salt", .str a.salt), ("aead", .str a.aead), ("names", .str a.names),
    ("chunk", .num a.chunk.toNat), ("kind", .str a.kind)] ++
  (optionalMember "file_id" Scalar.str a.fileId ++
    (optionalMember "chunk_index" (fun n => .num n.toNat) a.chunkIndex ++
      (optionalMember "file_size" (fun n => .num n.toNat) a.fileSize ++
        optionalMember "chunk_len" (fun n => .num n.toNat) a.chunkLen)))

/-- `serde_json::to_vec`, which has no failing case on strings and integers. -/
def StoreAad.toVec (a : StoreAad) : Bytes := utf8 (objectChars a.members)

section
variable {U : UuidCrate}

def storeAad (header : VaultHeader U) (kind : String)
    (chunk : Option ChunkPosition) : StoreAad where
  v := header.formatVersion
  cid := U.toString header.contentIdentity
  kdf := header.kdf.alg
  m := header.kdf.memoryKib
  t := header.kdf.timeCost
  p := header.kdf.parallelism
  salt := header.kdf.saltB64
  aead := header.aead
  names := header.nameCipher
  chunk := header.chunkSize
  kind := kind
  fileId := chunk.map (·.fileId)
  chunkIndex := chunk.map (·.chunkIndex)
  fileSize := chunk.map (·.fileSize)
  chunkLen := chunk.map (·.chunkLen)

def storeAadBytes (header : VaultHeader U) (kind : String)
    (chunk : Option ChunkPosition) : Bytes :=
  (storeAad header kind chunk).toVec

def wrapAadBytes (header : VaultHeader U) : Bytes :=
  storeAadBytes header "wrap" none

def indexAad (header : VaultHeader U) : Bytes :=
  storeAadBytes header "index" none

def chunkAad (header : VaultHeader U) (fileId : String)
    (chunkIndex : UInt32) (fileSize : UInt64) (chunkLen : UInt32) : Bytes :=
  storeAadBytes header "chunk" (some ⟨fileId, chunkIndex, fileSize, chunkLen⟩)

/-! ## Unambiguity -/

end

theorem lookup_optionalMember (key k : String) (toScalar : α → Scalar)
    (a : Option α) :
    (optionalMember k toScalar a).lookup key =
      if key = k then a.map toScalar else none := by
  cases a with
  | none => simp [optionalMember]
  | some a =>
      by_cases h : key = k
      · simp [optionalMember, h]
      · simp [optionalMember, h, List.lookup_cons, beq_false_of_ne h]

theorem str_injective : Function.Injective Scalar.str :=
  fun _ _ h => Scalar.str.inj h

theorem num_toNat32_injective :
    Function.Injective fun n : UInt32 => Scalar.num n.toNat :=
  fun _ _ h => UInt32.toNat_inj.mp (Scalar.num.inj h)

theorem num_toNat64_injective :
    Function.Injective fun n : UInt64 => Scalar.num n.toNat :=
  fun _ _ h => UInt64.toNat_inj.mp (Scalar.num.inj h)

/-- Each optional field is what its key looks up, so it is determined by the
members. -/
theorem StoreAad.members_injective : Function.Injective StoreAad.members := by
  intro a b h
  have hfixed : a.members.take 11 = b.members.take 11 := by rw [h]
  have hfield : ∀ key, a.members.lookup key = b.members.lookup key :=
    fun key => by rw [h]
  have hfileId := hfield "file_id"
  have hchunkIndex := hfield "chunk_index"
  have hfileSize := hfield "file_size"
  have hchunkLen := hfield "chunk_len"
  simp only [StoreAad.members, List.lookup_append, lookup_optionalMember,
    List.lookup_cons, List.lookup_nil] at hfileId hchunkIndex hfileSize hchunkLen
  simp at hfileId hchunkIndex hfileSize hchunkLen
  have hoptional : a.fileId = b.fileId ∧ a.chunkIndex = b.chunkIndex ∧
      a.fileSize = b.fileSize ∧ a.chunkLen = b.chunkLen :=
    ⟨Option.map_injective str_injective hfileId,
      Option.map_injective num_toNat32_injective hchunkIndex,
      Option.map_injective num_toNat64_injective hfileSize,
      Option.map_injective num_toNat32_injective hchunkLen⟩
  simp only [StoreAad.members, List.cons_append, List.nil_append,
    List.take_succ_cons, List.take_zero, List.cons.injEq, Prod.mk.injEq,
    Scalar.num.injEq, Scalar.str.injEq, UInt32.toNat_inj, true_and,
    and_true] at hfixed
  cases a
  cases b
  simp_all

theorem StoreAad.toVec_injective : Function.Injective StoreAad.toVec :=
  fun _ _ h =>
    StoreAad.members_injective (objectChars_injective (utf8_injective h))

section
variable {U : UuidCrate}

/-- The header fields that the authenticated data covers: all but the wrapped
master key. -/
def SameBoundFields (h₁ h₂ : VaultHeader U) : Prop :=
  h₁.formatVersion = h₂.formatVersion ∧
  h₁.contentIdentity = h₂.contentIdentity ∧
  h₁.kdf.alg = h₂.kdf.alg ∧
  h₁.kdf.memoryKib = h₂.kdf.memoryKib ∧
  h₁.kdf.timeCost = h₂.kdf.timeCost ∧
  h₁.kdf.parallelism = h₂.kdf.parallelism ∧
  h₁.kdf.saltB64 = h₂.kdf.saltB64 ∧
  h₁.aead = h₂.aead ∧
  h₁.nameCipher = h₂.nameCipher ∧
  h₁.chunkSize = h₂.chunkSize

theorem chunk_eq_of_fields_eq {c₁ c₂ : Option ChunkPosition}
    (hfile : c₁.map (·.fileId) = c₂.map (·.fileId))
    (hindex : c₁.map (·.chunkIndex) = c₂.map (·.chunkIndex))
    (hsize : c₁.map (·.fileSize) = c₂.map (·.fileSize))
    (hlen : c₁.map (·.chunkLen) = c₂.map (·.chunkLen)) :
    c₁ = c₂ := by
  cases c₁ with
  | none => cases c₂ with
    | none => rfl
    | some c₂ => simp at hfile
  | some c₁ => cases c₂ with
    | none => simp at hfile
    | some c₂ =>
        simp only [Option.map_some, Option.some.injEq] at hfile hindex hsize hlen
        cases c₁
        cases c₂
        simp_all

/-- The authenticated data determines the kind, the chunk position and every
bound header field. -/
theorem storeAadBytes_inj {h₁ h₂ : VaultHeader U} {kind₁ kind₂ : String}
    {c₁ c₂ : Option ChunkPosition}
    (h : storeAadBytes h₁ kind₁ c₁ = storeAadBytes h₂ kind₂ c₂) :
    kind₁ = kind₂ ∧ c₁ = c₂ ∧ SameBoundFields h₁ h₂ := by
  have haad : storeAad h₁ kind₁ c₁ = storeAad h₂ kind₂ c₂ :=
    StoreAad.toVec_injective h
  simp only [storeAad, StoreAad.mk.injEq] at haad
  obtain ⟨hv, hcid, hkdf, hm, ht, hp, hsalt, haead, hnames, hchunk, hkind,
    hfile, hindex, hsize, hlen⟩ := haad
  exact ⟨hkind, chunk_eq_of_fields_eq hfile hindex hsize hlen, hv,
    UuidCrate.toString_injective hcid, hkdf, hm, ht, hp, hsalt, haead, hnames,
    hchunk⟩

/-- Only the bound fields of a header count. -/
theorem storeAadBytes_congr {h₁ h₂ : VaultHeader U} (h : SameBoundFields h₁ h₂)
    {kind : String} {chunk : Option ChunkPosition} :
    storeAadBytes h₁ kind chunk = storeAadBytes h₂ kind chunk := by
  obtain ⟨hv, hcid, hkdf, hm, ht, hp, hsalt, haead, hnames, hsize⟩ := h
  simp only [storeAadBytes, storeAad, hv, hcid, hkdf, hm, ht, hp, hsalt, haead, hnames, hsize]

theorem storeAadBytes_ne_nil (header : VaultHeader U) (kind : String)
    (chunk : Option ChunkPosition) : storeAadBytes header kind chunk ≠ [] := by
  intro h
  have hempty : objectChars (storeAad header kind chunk).members = [] :=
    utf8_injective (h.trans (by rfl))
  simp [objectChars, StoreAad.members] at hempty

theorem chunkAad_ne_wrapAadBytes {h₁ h₂ : VaultHeader U} {fileId : String}
    {chunkIndex : UInt32} {fileSize : UInt64} {chunkLen : UInt32} :
    chunkAad h₁ fileId chunkIndex fileSize chunkLen ≠ wrapAadBytes h₂ :=
  fun h => absurd (storeAadBytes_inj h).1 (by decide)

theorem chunkAad_ne_indexAad {h₁ h₂ : VaultHeader U} {fileId : String}
    {chunkIndex : UInt32} {fileSize : UInt64} {chunkLen : UInt32} :
    chunkAad h₁ fileId chunkIndex fileSize chunkLen ≠ indexAad h₂ :=
  fun h => absurd (storeAadBytes_inj h).1 (by decide)

/-! ## The three kinds of authenticated data -/

inductive AadKind where
  | wrap
  | index
  | chunk
  deriving DecidableEq, Repr

def AadKind.name : AadKind → String
  | .wrap => "wrap"
  | .index => "index"
  | .chunk => "chunk"

/-- Only chunks carry a position. -/
def AadKind.position (position : ChunkPosition) :
    AadKind → Option ChunkPosition
  | .wrap => none
  | .index => none
  | .chunk => some position

theorem AadKind.name_injective : Function.Injective AadKind.name := by
  intro a b h
  cases a <;> cases b <;> first | rfl | exact absurd h (by decide)

/-- Two blobs of the store have the same authenticated data exactly when they
are of the same kind, under headers that agree on every bound field, and, for
chunks, at the same position of the same file. -/
theorem storeAadBytes_eq_iff (h₁ h₂ : VaultHeader U) (kind₁ kind₂ : AadKind)
    (position₁ position₂ : ChunkPosition) :
    storeAadBytes h₁ kind₁.name (kind₁.position position₁) =
        storeAadBytes h₂ kind₂.name (kind₂.position position₂) ↔
      kind₁ = kind₂ ∧ SameBoundFields h₁ h₂ ∧
        (kind₁ = .chunk → position₁ = position₂) := by
  constructor
  · intro h
    obtain ⟨hname, hposition, hfields⟩ := storeAadBytes_inj h
    have hkind := AadKind.name_injective hname
    refine ⟨hkind, hfields, ?_⟩
    rintro rfl
    subst hkind
    exact Option.some.inj hposition
  · rintro ⟨rfl, hfields, hchunk⟩
    have hposition : kind₁.position position₁ = kind₁.position position₂ := by
      cases kind₁ with
      | wrap => rfl
      | index => rfl
      | chunk => rw [hchunk rfl]
    rw [hposition, storeAadBytes_congr hfields]

end

end Upriv.Contents
