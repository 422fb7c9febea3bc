import Updown.Basic.PlainCrates

set_option autoImplicit false

/-! # Encryption into a buffer

`encrypt_into` appends to a buffer what `encrypt` returns (`crypto/mod.rs`). The nonce and the text
are appended before they are sealed: when the AEAD refuses the text, the call returns an error and
leaves both in the buffer, the text in the clear. So the buffer is as it should be exactly if the
AEAD takes the text (`agreesInPlace_iff`).
-/

namespace Updown.CryptoContext

/-- The AEAD takes the text under the key and the next nonce. -/
def Seals (A : Aead) (c : CryptoContext) (plaintext aad : Bytes) : Prop :=
  (A.sealInPlaceSeparateTag c.key c.nextNonce.1 aad plaintext).isSome = true

/-- `encrypt_into` on a buffer is `encrypt` on the side: a sealed text is appended as `encrypt`
returns it, both calls use up one nonce, and it is decrypted under the same key and associated data;
a text that is not sealed leaves the buffer alone. -/
structure AgreesInPlace (A : Aead) (c : CryptoContext) (plaintext aad buf : Bytes) : Prop where
  appended : c.Seals A plaintext aad → ∃ out, (c.encrypt A plaintext aad).2 = .ok out ∧
    (c.encryptInto A plaintext aad buf).2 = (buf ++ out, .ok ()) ∧
    ∀ d : CryptoContext, d.key = c.key → d.decrypt A out aad = .ok plaintext
  counter : c.Seals A plaintext aad →
    (c.encrypt A plaintext aad).1.nonceCounter = c.nonceCounter + 1 ∧
    (c.encryptInto A plaintext aad buf).1.nonceCounter = c.nonceCounter + 1
  refused : ¬ c.Seals A plaintext aad →
    ∃ e, (c.encryptInto A plaintext aad buf).2 = (buf, .error e)

section

variable {A : Aead} {c : CryptoContext} {plaintext aad : Bytes}

/-- Both calls leave the same context. -/
theorem encryptInto_fst (buf : Bytes) :
    (c.encryptInto A plaintext aad buf).1 = (c.encrypt A plaintext aad).1 := by
  unfold encryptInto encrypt
  split <;> rfl

theorem encrypt_fst : (c.encrypt A plaintext aad).1 = c.nextNonce.2 := by
  unfold encrypt
  split <;> rfl

/-- A sealed text is appended as `encrypt` returns it. -/
theorem encryptInto_of_seal {cipher tag : Bytes}
    (hs : A.sealInPlaceSeparateTag c.key c.nextNonce.1 aad plaintext = some (cipher, tag))
    (buf : Bytes) :
    (c.encrypt A plaintext aad).2 = .ok (c.nextNonce.1 ++ cipher ++ tag) ∧
      (c.encryptInto A plaintext aad buf).2 =
        (buf ++ (c.nextNonce.1 ++ cipher ++ tag), .ok ()) := by
  simp only [encrypt, encryptInto, hs, List.append_assoc, and_self]

/-- A text that is refused stays in the buffer, behind the nonce. -/
theorem encryptInto_of_not_seals (h : ¬ c.Seals A plaintext aad) (buf : Bytes) :
    (c.encryptInto A plaintext aad buf).2 =
      (buf ++ c.nextNonce.1 ++ plaintext,
        .error "encryption failed: ring::error::Unspecified") := by
  have hs : A.sealInPlaceSeparateTag c.key c.nextNonce.1 aad plaintext = none := by
    simpa [Seals] using h
  simp only [encryptInto, hs]

/-- The nonce alone makes the buffer longer. -/
theorem buffer_ne_of_not_seals (h : ¬ c.Seals A plaintext aad) (buf : Bytes) :
    (c.encryptInto A plaintext aad buf).2.1 ≠ buf := by
  intro heq
  rw [encryptInto_of_not_seals h] at heq
  have hlen := congrArg List.length heq
  have hn : NONCE_LEN = 12 := rfl
  simp only [List.length_append, nextNonce_fst_length] at hlen
  omega

end

/-- **`encrypt_into` agrees with `encrypt` exactly if the AEAD takes the text.** -/
theorem agreesInPlace_iff {A : Aead} (hA : A.Inverts) (c : CryptoContext)
    (plaintext aad buf : Bytes) :
    c.AgreesInPlace A plaintext aad buf ↔ c.Seals A plaintext aad := by
  constructor
  · intro h
    by_contra hnot
    -- the early return leaves the nonce in the buffer, whatever the text is
    obtain ⟨e, he⟩ := h.refused hnot
    exact buffer_ne_of_not_seals hnot buf (congrArg Prod.fst he)
  · intro h
    obtain ⟨⟨cipher, tag⟩, hs⟩ := Option.isSome_iff_exists.mp h
    obtain ⟨hplain, hinto⟩ := encryptInto_of_seal hs buf
    constructor
    · intro _
      exact ⟨_, hplain, hinto, fun d hkey => decrypt_sealed hA hkey hs⟩
    · intro _
      rw [encryptInto_fst, encrypt_fst]
      exact ⟨rfl, rfl⟩
    · intro hnot
      exact absurd h hnot

namespace Small

def context : CryptoContext := fromKey (List.replicate KEY_LEN 0) fun _ => Vector.replicate 4 0

/-- A second packet in a buffer that holds one. -/
theorem agreesInPlace_iff_second :
    context.AgreesInPlace PlainCrates.aead [7, 8] [3] (List.replicate 60 1) :=
  (agreesInPlace_iff PlainCrates.aead_correct.inverts context [7, 8] [3] (List.replicate 60 1)).mpr
    rfl

/-- An AEAD that refuses the texts that are too long for AES-GCM. -/
def limitedAead : Aead where
  sealInPlaceSeparateTag key nonce aad text :=
    if text.length ≤ MAX_PLAINTEXT then
      PlainCrates.aead.sealInPlaceSeparateTag key nonce aad text
    else none
  openInPlace := PlainCrates.aead.openInPlace

theorem limitedAead_sealed {k n a p : Bytes} {out : Bytes × Bytes}
    (h : limitedAead.sealInPlaceSeparateTag k n a p = some out) :
    PlainCrates.aead.sealInPlaceSeparateTag k n a p = some out := by
  simp only [limitedAead] at h
  split at h
  · exact h
  · cases h

theorem limitedAead_correct : limitedAead.Correct where
  seal_some := by
    intro k n a p hk hn hp
    simp only [limitedAead, if_pos hp]
    exact PlainCrates.aead_correct.seal_some hk hn hp
  cipher_length h := PlainCrates.aead_correct.cipher_length (limitedAead_sealed h)
  tag_length h := PlainCrates.aead_correct.tag_length (limitedAead_sealed h)
  open_seal h := PlainCrates.aead_correct.open_seal (limitedAead_sealed h)

/-- A text one byte too long stays in the buffer. -/
theorem too_long_not_agreesInPlace :
    limitedAead.Correct ∧
      ¬ context.AgreesInPlace limitedAead (List.replicate (MAX_PLAINTEXT + 1) 0) [] [] := by
  refine ⟨limitedAead_correct, ?_⟩
  intro h
  have hlong : ¬ (List.replicate (MAX_PLAINTEXT + 1) (0 : UInt8)).length ≤ MAX_PLAINTEXT := by
    rw [List.length_replicate]
    exact Nat.not_succ_le_self _
  have hnot : ¬ context.Seals limitedAead (List.replicate (MAX_PLAINTEXT + 1) 0) [] := by
    simp only [Seals, limitedAead, if_neg hlong, Option.isSome_none, Bool.false_eq_true,
      not_false_eq_true]
  obtain ⟨e, he⟩ := h.refused hnot
  exact buffer_ne_of_not_seals hnot [] (congrArg Prod.fst he)

end Small

end Updown.CryptoContext
