import Updown.Protocol.Wire

set_option autoImplicit false

/-! # Encryption of the data channel

`CryptoContext` (`crypto/mod.rs`) over an AEAD that is a parameter: `ring` is not part of the
repository. `Aead.Correct` states what the code relies on. A sealed payload is
`nonce ++ ciphertext ++ tag`; the nonce is the little-endian counter followed by four random
bytes.
-/

namespace Updown

def KEY_LEN : ℕ := 32
def NONCE_LEN : ℕ := 12
def TAG_LEN : ℕ := 16

/-- AES-256-GCM as `ring` offers it. Arguments: key, nonce, associated data, text. -/
structure Aead where
  /-- Ciphertext and tag, or a failure. -/
  sealInPlaceSeparateTag : Bytes → Bytes → Bytes → Bytes → Option (Bytes × Bytes)
  openInPlace : Bytes → Bytes → Bytes → Bytes → Option Bytes

/-- The longest text AES-GCM seals: 2^39 - 256 bits. -/
def MAX_PLAINTEXT : ℕ := 2 ^ 36 - 32

/-- The documented behaviour of the AEAD: a text that is not too long is sealed, the ciphertext
is as long as the plaintext, the tag has its fixed length, and opening inverts sealing. -/
structure Aead.Correct (A : Aead) : Prop where
  seal_some : ∀ {k n a p}, k.length = KEY_LEN → n.length = NONCE_LEN → p.length ≤ MAX_PLAINTEXT →
    (A.sealInPlaceSeparateTag k n a p).isSome
  cipher_length : ∀ {k n a p c t}, A.sealInPlaceSeparateTag k n a p = some (c, t) →
    c.length = p.length
  tag_length : ∀ {k n a p c t}, A.sealInPlaceSeparateTag k n a p = some (c, t) →
    t.length = TAG_LEN
  open_seal : ∀ {k n a p c t}, A.sealInPlaceSeparateTag k n a p = some (c, t) →
    A.openInPlace k n a (c ++ t) = some p

/-- The part of it that decryption relies on; sealing may fail. -/
structure Aead.Inverts (A : Aead) : Prop where
  tag_length : ∀ {k n a p c t}, A.sealInPlaceSeparateTag k n a p = some (c, t) →
    t.length = TAG_LEN
  open_seal : ∀ {k n a p c t}, A.sealInPlaceSeparateTag k n a p = some (c, t) →
    A.openInPlace k n a (c ++ t) = some p

theorem Aead.Correct.inverts {A : Aead} (hA : A.Correct) : A.Inverts :=
  ⟨hA.tag_length, hA.open_seal⟩

/-- AES-256-GCM encryption for the data channel. `rng i` is what the `i`-th of the calls to come
leaves in the four random bytes of a nonce, whether or not the generator succeeds. -/
structure CryptoContext where
  key : Bytes
  rng : ℕ → Vector UInt8 4
  nonceCounter : UInt64

namespace CryptoContext

/-- Create a context directly from a shared key. -/
def fromKey (keyBytes : Bytes) (rng : ℕ → Vector UInt8 4) : CryptoContext :=
  { key := keyBytes, rng := rng, nonceCounter := 0 }

/-- Counter in the first eight bytes, random in the last four. -/
def nextNonce (c : CryptoContext) : Bytes × CryptoContext :=
  (LittleEndian.encode 8 c.nonceCounter.toNat ++ (c.rng 0).toList,
    { c with nonceCounter := c.nonceCounter + 1, rng := fun i => c.rng (i + 1) })

/-- Encrypt, returning `nonce ++ ciphertext ++ tag`. -/
def encrypt (A : Aead) (c : CryptoContext) (plaintext aad : Bytes) :
    CryptoContext × Except String Bytes :=
  match A.sealInPlaceSeparateTag c.key c.nextNonce.1 aad plaintext with
  | some (cipher, tag) => (c.nextNonce.2, .ok (c.nextNonce.1 ++ cipher ++ tag))
  | none => (c.nextNonce.2, .error "encryption failed: ring::error::Unspecified")

/-- Encrypt into a buffer, appending `nonce ++ ciphertext ++ tag`. When sealing fails, nonce and
text stay in the buffer. -/
def encryptInto (A : Aead) (c : CryptoContext) (plaintext aad buf : Bytes) :
    CryptoContext × Bytes × Except String Unit :=
  match A.sealInPlaceSeparateTag c.key c.nextNonce.1 aad plaintext with
  | some (cipher, tag) => (c.nextNonce.2, buf ++ c.nextNonce.1 ++ cipher ++ tag, .ok ())
  | none =>
      (c.nextNonce.2, buf ++ c.nextNonce.1 ++ plaintext,
        .error "encryption failed: ring::error::Unspecified")

/-- Decrypt `nonce ++ ciphertext ++ tag`. -/
def decrypt (A : Aead) (c : CryptoContext) (ciphertextWithNonce aad : Bytes) :
    Except String Bytes :=
  if ciphertextWithNonce.length < NONCE_LEN + TAG_LEN then .error "ciphertext too short"
  else
    match A.openInPlace c.key (ciphertextWithNonce.take NONCE_LEN) aad
        (ciphertextWithNonce.drop NONCE_LEN) with
    | some plaintext => .ok plaintext
    | none => .error "decryption failed: ring::error::Unspecified"

@[simp] theorem nextNonce_fst_length (c : CryptoContext) : c.nextNonce.1.length = NONCE_LEN := by
  simp [nextNonce, NONCE_LEN]

@[simp] theorem nextNonce_snd_key (c : CryptoContext) : c.nextNonce.2.key = c.key := rfl

@[simp] theorem encrypt_key (A : Aead) (c : CryptoContext) (p a : Bytes) :
    (c.encrypt A p a).1.key = c.key := by
  unfold encrypt
  split <;> rfl

theorem encrypt_ok {A : Aead} {c : CryptoContext} {p a out : Bytes}
    (h : (c.encrypt A p a).2 = .ok out) :
    ∃ cipher tag, A.sealInPlaceSeparateTag c.key c.nextNonce.1 a p = some (cipher, tag) ∧
      out = c.nextNonce.1 ++ cipher ++ tag := by
  unfold encrypt at h
  split at h
  · next cipher tag hs =>
      exact ⟨cipher, tag, hs, (Except.ok.inj h).symm⟩
  · cases h

/-- Whoever has the key reads the text back from `nonce ++ ciphertext ++ tag`. -/
theorem decrypt_sealed {A : Aead} (hA : A.Inverts) {c d : CryptoContext} (hk : d.key = c.key)
    {p a cipher tag : Bytes}
    (hs : A.sealInPlaceSeparateTag c.key c.nextNonce.1 a p = some (cipher, tag)) :
    d.decrypt A (c.nextNonce.1 ++ cipher ++ tag) a = .ok p := by
  have hlen := hA.tag_length hs
  have hn := nextNonce_fst_length c
  have hnot : ¬ (c.nextNonce.1 ++ cipher ++ tag).length < NONCE_LEN + TAG_LEN := by
    simp only [List.length_append]
    omega
  rw [decrypt, if_neg hnot, List.append_assoc, List.take_left' hn, List.drop_left' hn, hk,
    hA.open_seal hs]

/-- **Decryption inverts encryption** under the same key and associated data. -/
theorem decrypt_encrypt {A : Aead} (hA : A.Correct) {c d : CryptoContext} (hk : d.key = c.key)
    {p a out : Bytes} (h : (c.encrypt A p a).2 = .ok out) : d.decrypt A out a = .ok p := by
  obtain ⟨cipher, tag, hs, rfl⟩ := encrypt_ok h
  exact decrypt_sealed hA.inverts hk hs

end CryptoContext

end Updown
