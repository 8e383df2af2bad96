import Upriv.Contents.Chunk

/-!
# Chunk arithmetic and chunk names

The reader recomputes from the recorded size how many chunks a file has and
how long each one is.  Both agree with the slices the writer cuts, as long as
the number of chunks fits in 32 bits.
-/

namespace Upriv.Contents

theorem divCeil_toNat {a b : UInt64} (hb : 0 < b.toNat) :
    (divCeil a b).toNat = a.toNat ⌈/⌉ b.toNat := by
  have hdiv := Nat.div_add_mod a.toNat b.toNat
  have hmod := Nat.mod_lt a.toNat hb
  have ha := a.toNat_lt
  rw [Nat.ceilDiv_eq_add_pred_div]
  unfold divCeil
  split
  · rename_i hrem
    rw [gt_iff_lt, UInt64.lt_iff_toNat_lt, UInt64.toNat_mod] at hrem
    have hrem : 0 < a.toNat % b.toNat := by simpa using hrem
    have hb2 : 2 ≤ b.toNat := by omega
    have hhalf : a.toNat / b.toNat ≤ a.toNat / 2 := Nat.div_le_div_left hb2 (by omega)
    rw [UInt64.toNat_add, UInt64.toNat_div]
    have hone : (1 : UInt64).toNat = 1 := rfl
    rw [hone, Nat.mod_eq_of_lt (by omega)]
    symm
    apply Nat.div_eq_of_lt_le
    · rw [Nat.add_mul, Nat.mul_comm]
      omega
    · rw [Nat.add_mul, Nat.add_mul, Nat.mul_comm]
      omega
  · rename_i hrem
    rw [gt_iff_lt, UInt64.lt_iff_toNat_lt, UInt64.toNat_mod] at hrem
    have hrem : a.toNat % b.toNat = 0 := by simpa using hrem
    rw [UInt64.toNat_div]
    symm
    apply Nat.div_eq_of_lt_le
    · rw [Nat.mul_comm]
      omega
    · rw [Nat.add_mul, Nat.mul_comm]
      omega

theorem chunkCount_toNat (fileSize : UInt64) {chunkSize : UInt32}
    (hchunk : chunkSize ≠ 0) :
    (chunkCount fileSize chunkSize).toNat =
      (fileSize.toNat ⌈/⌉ chunkSize.toNat) % 2 ^ 32 := by
  have hpos : 0 < chunkSize.toNat := by
    rw [Nat.pos_iff_ne_zero]
    intro h
    exact hchunk (UInt32.toNat_inj.mp h)
  have hlt : ¬ chunkSize < 1 := by
    rw [UInt32.lt_iff_toNat_lt]
    have hone : (1 : UInt32).toNat = 1 := rfl
    omega
  unfold chunkCount
  rw [if_neg hlt]
  split
  · rename_i h
    subst h
    simp
  · rw [UInt64.toNat_toUInt32, divCeil_toNat (by simpa using hpos),
      UInt32.toNat_toUInt64]

theorem toNat_mul_toUInt64 (i chunkSize : UInt32) :
    (i.toUInt64 * chunkSize.toUInt64).toNat = i.toNat * chunkSize.toNat := by
  have hi := i.toNat_lt
  have hc := chunkSize.toNat_lt
  have hprod : i.toNat * chunkSize.toNat < 2 ^ 64 :=
    calc i.toNat * chunkSize.toNat
        ≤ i.toNat * 2 ^ 32 := Nat.mul_le_mul_left _ (by omega)
      _ < 2 ^ 64 := by omega
  rw [UInt64.toNat_mul, UInt32.toNat_toUInt64, UInt32.toNat_toUInt64, Nat.mod_eq_of_lt hprod]

theorem chunkPlainLen_toNat (fileSize : UInt64) (chunkIndex chunkSize : UInt32) :
    (chunkPlainLen fileSize chunkIndex chunkSize).toNat =
      min chunkSize.toNat
        (fileSize.toNat - chunkIndex.toNat * chunkSize.toNat) := by
  have hc := chunkSize.toNat_lt
  have hstart := toNat_mul_toUInt64 chunkIndex chunkSize
  unfold chunkPlainLen
  dsimp only
  generalize chunkIndex.toUInt64 * chunkSize.toUInt64 = start at hstart
  rw [← hstart]
  split
  · rename_i h
    rw [ge_iff_le, UInt64.le_iff_toNat_le] at h
    simp only [UInt32.toNat_zero]
    omega
  · rename_i h
    rw [ge_iff_le, UInt64.le_iff_toNat_le] at h
    have hsub : (fileSize - start).toNat = fileSize.toNat - start.toNat :=
      UInt64.toNat_sub_of_le _ _ (UInt64.le_iff_toNat_le.mpr (by omega))
    split
    · rename_i hle
      rw [UInt64.le_iff_toNat_le, hsub, UInt32.toNat_toUInt64] at hle
      rw [UInt64.toNat_toUInt32, hsub]
      omega
    · rename_i hle
      rw [UInt64.le_iff_toNat_le, hsub, UInt32.toNat_toUInt64] at hle
      rw [UInt64.toNat_toUInt32, UInt32.toNat_toUInt64]
      omega

/-! ## The chunks of a file -/

/-- The lengths of all chunks of a file. -/
def chunkLens (fileSize : UInt64) (chunkSize : UInt32) : List ℕ :=
  (List.range (chunkCount fileSize chunkSize).toNat).map fun i =>
    (chunkPlainLen fileSize (UInt32.ofNat i) chunkSize).toNat

/-- The chunks make up the file, and every number is what it is without a limit. -/
structure ChunksCover (fileSize : UInt64) (chunkSize : UInt32) : Prop where
  sum : (chunkLens fileSize chunkSize).sum = fileSize.toNat
  full : ∀ i, i + 1 < (chunkCount fileSize chunkSize).toNat →
    chunkPlainLen fileSize (UInt32.ofNat i) chunkSize = chunkSize
  last : ∀ i, i + 1 = (chunkCount fileSize chunkSize).toNat →
    1 ≤ (chunkPlainLen fileSize (UInt32.ofNat i) chunkSize).toNat ∧
      chunkPlainLen fileSize (UInt32.ofNat i) chunkSize ≤ chunkSize
  count_exact : (chunkCount fileSize chunkSize).toNat = fileSize.toNat ⌈/⌉ chunkSize.toNat
  start_exact : ∀ i, i < (chunkCount fileSize chunkSize).toNat →
    ((UInt32.ofNat i).toUInt64 * chunkSize.toUInt64).toNat = i * chunkSize.toNat
  len_exact : ∀ i, i < (chunkCount fileSize chunkSize).toNat →
    (chunkPlainLen fileSize (UInt32.ofNat i) chunkSize).toNat =
      min chunkSize.toNat (fileSize.toNat - i * chunkSize.toNat)

theorem toNat_ofNat_of_lt_chunkCount {fileSize : UInt64} {chunkSize : UInt32} {i : ℕ}
    (h : i < (chunkCount fileSize chunkSize).toNat) : (UInt32.ofNat i).toNat = i :=
  UInt32.toNat_ofNat_of_lt' (h.trans (UInt32.toNat_lt _))

theorem sum_min_sub (size chunk count : ℕ) :
    ((List.range count).map fun i => min chunk (size - i * chunk)).sum =
      min size (count * chunk) := by
  induction count with
  | zero => simp
  | succ count ih =>
      rw [List.range_succ, List.map_append, List.sum_append, ih, List.map_singleton,
        List.sum_singleton, Nat.add_mul]
      omega

/-- The chunks that are counted end at the end of the file or before it. -/
theorem sum_chunkLens (fileSize : UInt64) (chunkSize : UInt32) :
    (chunkLens fileSize chunkSize).sum =
      min fileSize.toNat ((chunkCount fileSize chunkSize).toNat * chunkSize.toNat) := by
  rw [← sum_min_sub, chunkLens]
  congr 1
  refine List.map_congr_left fun i hi => ?_
  rw [chunkPlainLen_toNat, toNat_ofNat_of_lt_chunkCount (List.mem_range.mp hi)]

/-- The chunks make up the file exactly if they can be counted in 32 bits. -/
theorem chunksCover_iff (fileSize : UInt64) {chunkSize : UInt32} (hchunk : chunkSize ≠ 0) :
    ChunksCover fileSize chunkSize ↔ fileSize.toNat ⌈/⌉ chunkSize.toNat < 2 ^ 32 := by
  have hpos : 0 < chunkSize.toNat :=
    Nat.pos_of_ne_zero fun h => hchunk (UInt32.toNat_inj.mp h)
  constructor
  · intro h
    rw [← h.count_exact]
    exact UInt32.toNat_lt _
  · intro hlt
    have hcount : (chunkCount fileSize chunkSize).toNat =
        fileSize.toNat ⌈/⌉ chunkSize.toNat := by
      rw [chunkCount_toNat fileSize hchunk, Nat.mod_eq_of_lt hlt]
    have hlen : ∀ i, i < (chunkCount fileSize chunkSize).toNat →
        (chunkPlainLen fileSize (UInt32.ofNat i) chunkSize).toNat =
          min chunkSize.toNat (fileSize.toNat - i * chunkSize.toNat) := by
      intro i hi
      rw [chunkPlainLen_toNat, toNat_ofNat_of_lt_chunkCount hi]
    -- Every chunk begins inside the file, and all of them reach its end.
    have hinside : ∀ i, i < (chunkCount fileSize chunkSize).toNat ↔
        i * chunkSize.toNat < fileSize.toNat := by
      intro i
      rw [hcount, ← not_le, ceilDiv_le_iff_le_mul hpos, not_le, Nat.mul_comm]
    have hreach : fileSize.toNat ≤ (chunkCount fileSize chunkSize).toNat * chunkSize.toNat := by
      have hnot := (hinside _).not.mp (lt_irrefl (chunkCount fileSize chunkSize).toNat)
      omega
    refine ⟨?_, ?_, ?_, hcount, ?_, hlen⟩
    · rw [sum_chunkLens, min_eq_left hreach]
    · intro i hi
      have hnext := (hinside _).mp hi
      rw [← UInt32.toNat_inj, hlen i (by omega)]
      rw [Nat.add_mul] at hnext
      omega
    · intro i hi
      have hstart := (hinside i).mp (by omega)
      rw [UInt32.le_iff_toNat_le, hlen i (by omega)]
      omega
    · intro i hi
      rw [toNat_mul_toUInt64, toNat_ofNat_of_lt_chunkCount hi]

theorem chunksCover_4GiB : ChunksCover 0x100000000 0x10000 :=
  (chunksCover_iff 0x100000000 (by decide)).mpr (by decide)

/-- 2^32 chunks are counted as none. -/
theorem not_chunksCover_4GiB :
    ¬ ChunksCover 0x100000000 1 ∧ chunkLens 0x100000000 1 = [] := by
  constructor
  · intro h
    exact absurd h.count_exact (by decide)
  · rfl

theorem chunkPlainLen_eq_length_slice {fileSize : UInt64} {l : Bytes}
    (hsize : fileSize.toNat = l.length) (chunkIndex chunkSize : UInt32) :
    (chunkPlainLen fileSize chunkIndex chunkSize).toNat =
      (slice chunkSize.toNat chunkIndex.toNat l).length := by
  rw [chunkPlainLen_toNat, length_slice, hsize]

/-! ## Names of chunk files -/

section
variable {U : UuidCrate} {contentsDir : PathBuf}

theorem chunkFileName_inj {u v : U.Uuid} {i j : UInt32}
    (h : chunkFileName U u i = chunkFileName U v j) : u = v ∧ i = j := by
  have hchars := congrArg String.toList h
  simp only [chunkFileName, String.toList_append, List.append_assoc] at hchars
  obtain ⟨huuid, hrest⟩ := List.append_inj hchars
    (by rw [U.length_toString, U.length_toString])
  have hdigits := List.append_cancel_right (List.append_cancel_left hrest)
  rw [Nat.toList_repr, Nat.toList_repr] at hdigits
  exact ⟨UuidCrate.toString_injective (String.toList_injective huuid),
    UInt32.toNat_inj.mp (Json.toDigits_injective hdigits)⟩

theorem chunkPathOf_inj {u v : U.Uuid} {i j : UInt32}
    (h : chunkPathOf U contentsDir u i = chunkPathOf U contentsDir v j) :
    u = v ∧ i = j :=
  chunkFileName_inj (joinPath_injective _ h)

/-- The files a UUID can occupy below `data/`. -/
def chunkPathsOf (U : UuidCrate) (contentsDir : PathBuf) (parsed : U.Uuid) :
    Set PathBuf :=
  Set.range (chunkPathOf U contentsDir parsed)

theorem chunkPathOf_mem (u : U.Uuid) (i : UInt32) :
    chunkPathOf U contentsDir u i ∈ chunkPathsOf U contentsDir u :=
  ⟨i, rfl⟩

theorem chunkPathOf_not_mem {u v : U.Uuid} (h : u ≠ v) (i : UInt32) :
    chunkPathOf U contentsDir u i ∉ chunkPathsOf U contentsDir v := by
  rintro ⟨j, hj⟩
  exact h (chunkPathOf_inj hj).1.symm

theorem chunkFilePath_of_parseStr {fileId : String} {u : U.Uuid}
    (h : U.parseStr fileId = some u) (i : UInt32) :
    chunkFilePath U contentsDir fileId i = .ok (chunkPathOf U contentsDir u i) := by
  rw [chunkFilePath, h]

@[simp] theorem chunkFilePath_fileId (call : WriteCall U) (i : UInt32) :
    chunkFilePath U contentsDir call.fileId i =
      .ok (chunkPathOf U contentsDir call.newV4 i) :=
  chunkFilePath_of_parseStr (U.parseStr_toString call.newV4) i

theorem chunkFilePath_ok {fileId : String} {i : UInt32} {path : PathBuf}
    (h : chunkFilePath U contentsDir fileId i = .ok path) :
    ∃ u, U.parseStr fileId = some u ∧ path = chunkPathOf U contentsDir u i := by
  unfold chunkFilePath at h
  split at h
  · cases h
  · rename_i u hparse
    cases h
    exact ⟨u, hparse, rfl⟩

end

end Upriv.Contents
