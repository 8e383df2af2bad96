import Upriv.Support.Bytes

/-!
# The AEAD crates

`chacha20poly1305::XChaCha20Poly1305` and `aes_siv::Aes256SivAead` are
parameters: sealing may fail (a message can be too long), a sealed message
opens under the same key, nonce and associated data, and the ciphertext
carries a tag of 16 bytes.
-/

namespace Upriv

/-- One authenticated cipher with keys of a fixed length. -/
structure AeadCrate (keyLen : ℕ) where
  encrypt : Vector UInt8 keyLen → (nonce msg aad : Bytes) → Option Bytes
  decrypt : Vector UInt8 keyLen → (nonce ciphertext aad : Bytes) → Option Bytes
  decrypt_encrypt : ∀ key nonce msg aad ciphertext,
    encrypt key nonce msg aad = some ciphertext →
      decrypt key nonce ciphertext aad = some msg
  length_encrypt : ∀ key nonce msg aad ciphertext,
    encrypt key nonce msg aad = some ciphertext →
      msg.length + 16 ≤ ciphertext.length

namespace AeadCrate

/-! ## A transparent cipher

A stand-in on which the model can be evaluated: nothing is hidden, but a
ciphertext names its key, nonce and associated data unambiguously. -/

/-- Each byte behind a one, then a zero. -/
def frame : Bytes → Bytes
  | [] => [0]
  | b :: bs => 1 :: b :: frame bs

theorem frame_decodable (a b r s : Bytes) (h : frame a ++ r = frame b ++ s) :
    a = b ∧ r = s := by
  induction a generalizing b with
  | nil =>
      cases b with
      | nil => simpa [frame] using h
      | cons y b => simp [frame] at h
  | cons x a ih =>
      cases b with
      | nil => simp [frame] at h
      | cons y b =>
          simp only [frame, List.cons_append, List.cons.injEq, true_and] at h
          obtain ⟨hab, hrs⟩ := ih b h.2
          exact ⟨by rw [h.1, hab], hrs⟩

/-- The part of a ciphertext before the message. -/
def bindings (key : Vector UInt8 keyLen) (nonce aad : Bytes) : Bytes :=
  List.replicate 16 0 ++ frame key.toList ++ frame nonce ++ frame aad

def transparent (keyLen : ℕ) : AeadCrate keyLen where
  encrypt key nonce msg aad := some (bindings key nonce aad ++ msg)
  decrypt key nonce ciphertext aad :=
    if bindings key nonce aad <+: ciphertext then
      some (ciphertext.drop (bindings key nonce aad).length)
    else none
  decrypt_encrypt key nonce msg aad ciphertext h := by
    cases h
    rw [if_pos (List.prefix_append _ _), List.drop_left]
  length_encrypt key nonce msg aad ciphertext h := by
    cases h
    simp only [bindings, List.length_append, List.length_replicate]
    omega

/-- It is ideal: a ciphertext opens to its own message only, and under its own
associated data only. -/
theorem transparent_decrypt_encrypt {key : Vector UInt8 keyLen}
    {nonce msg aad msg' aad' ciphertext : Bytes}
    (henc : (transparent keyLen).encrypt key nonce msg aad = some ciphertext)
    (hdec : (transparent keyLen).decrypt key nonce ciphertext aad' = some msg') :
    aad' = aad ∧ msg' = msg := by
  cases henc
  simp only [transparent] at hdec
  split at hdec
  · rename_i hprefix
    obtain ⟨rest, hrest⟩ := hprefix
    rw [← hrest, List.drop_left, Option.some.injEq] at hdec
    subst hdec
    simp only [bindings, List.append_assoc] at hrest
    have hframes := List.append_cancel_left
      (List.append_cancel_left (List.append_cancel_left hrest))
    exact frame_decodable _ _ _ _ hframes
  · cases hdec

end AeadCrate

end Upriv
