import Upriv.Crates.Aead
import Upriv.Error

/-!
# XChaCha20-Poly1305 blobs

`contents/aead.rs`, as far as chunks use it.  A blob is the nonce followed by
the ciphertext.  The random nonce is an argument.
-/

namespace Upriv.Contents

def CONTENT_KEY_LEN : ℕ := 32
def XCHACHA_NONCE_LEN : ℕ := 24

abbrev ContentKey := Vector UInt8 CONTENT_KEY_LEN
abbrev XNonce := Vector UInt8 XCHACHA_NONCE_LEN
abbrev XChaCha20Poly1305 := AeadCrate CONTENT_KEY_LEN

def storeErr (detail : String) : UprivError :=
  .vaultStoreInvalid "contents" detail

def encryptXchacha (A : XChaCha20Poly1305) (nonce : XNonce) (key : ContentKey)
    (plaintext aad : Bytes) : Result Bytes :=
  if aad.isEmpty then .error (storeErr "AAD required for XChaCha encrypt")
  else
    match A.encrypt key nonce.toList plaintext aad with
    | none => .error (storeErr "XChaCha20-Poly1305 encrypt failed")
    | some ciphertext => .ok (nonce.toList ++ ciphertext)

def decryptXchacha (A : XChaCha20Poly1305) (key : ContentKey)
    (blob aad : Bytes) : Result Bytes :=
  if blob.length ≤ XCHACHA_NONCE_LEN then .error .wrongPassword
  else
    let (nonceBytes, rest) := blob.splitAt XCHACHA_NONCE_LEN
    match A.decrypt key nonceBytes rest aad with
    | none => .error .wrongPassword
    | some plain => .ok plain

/-- A blob opens under the key and the associated data it was made with. -/
theorem decryptXchacha_encryptXchacha {A : XChaCha20Poly1305} {nonce : XNonce}
    {key : ContentKey} {plaintext aad blob : Bytes}
    (h : encryptXchacha A nonce key plaintext aad = .ok blob) :
    decryptXchacha A key blob aad = .ok plaintext := by
  unfold encryptXchacha at h
  split at h
  · cases h
  · split at h
    · cases h
    · rename_i ciphertext hencrypt
      cases h
      have hlen := A.length_encrypt _ _ _ _ _ hencrypt
      have hnonce : nonce.toList.length = XCHACHA_NONCE_LEN := by simp
      have hlong : ¬ (nonce.toList ++ ciphertext).length ≤ XCHACHA_NONCE_LEN := by
        rw [List.length_append]
        omega
      simp only [decryptXchacha, hlong, ↓reduceIte, List.splitAt_eq]
      rw [List.take_left' hnonce, List.drop_left' hnonce,
        A.decrypt_encrypt _ _ _ _ _ hencrypt]

/-- Decryption fails with one error only. -/
theorem decryptXchacha_error {A : XChaCha20Poly1305} {key : ContentKey}
    {blob aad : Bytes} {e : UprivError}
    (h : decryptXchacha A key blob aad = .error e) : e = .wrongPassword := by
  unfold decryptXchacha at h
  split at h
  · cases h
    rfl
  · dsimp only at h
    split at h <;> cases h
    rfl

end Upriv.Contents
