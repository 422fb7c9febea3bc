import Updown.Basic.PlainCrates

set_option autoImplicit false

/-! # Nonces

A context takes a nonce for each encryption from `next_nonce`: a counter that starts at zero, and
four bytes of the random generator, whose failure is ignored. Within a context the counter keeps
nonces apart; contexts of one key are kept apart by the random bytes alone (`nodup_nonces_iff`).
-/

namespace Updown

/-- A call that encrypts. -/
inductive EncryptCall where
  | encrypt (plaintext aad : Bytes)
  | encryptInto (plaintext aad buf : Bytes)

namespace CryptoContext

/-- The context after a call. -/
def call (A : Aead) (c : CryptoContext) : EncryptCall → CryptoContext
  | .encrypt plaintext aad => (c.encrypt A plaintext aad).1
  | .encryptInto plaintext aad buf => (c.encryptInto A plaintext aad buf).1

/-- The nonces the calls seal with. -/
def nonces (A : Aead) : CryptoContext → List EncryptCall → List Bytes
  | _, [] => []
  | c, x :: calls => c.nextNonce.1 :: nonces A (c.call A x) calls

theorem call_eq (A : Aead) (c : CryptoContext) (x : EncryptCall) :
    c.call A x = c.nextNonce.2 := by
  cases x with
  | encrypt plaintext aad =>
      simp only [call, encrypt]
      split <;> rfl
  | encryptInto plaintext aad buf =>
      simp only [call, encryptInto]
      split <;> rfl

/-- The nonce of the `i`-th call. -/
def nonceAt (c : CryptoContext) (i : ℕ) : Bytes :=
  LittleEndian.encode 8 (c.nonceCounter + UInt64.ofNat i).toNat ++ (c.rng i).toList

/-- Counter and random bytes move on with each call. -/
theorem nonceAt_nextNonce (c : CryptoContext) (i : ℕ) :
    c.nextNonce.2.nonceAt i = c.nonceAt (i + 1) := by
  have hcounter : c.nonceCounter + 1 + UInt64.ofNat i = c.nonceCounter + UInt64.ofNat (i + 1) := by
    rw [UInt64.add_assoc, UInt64.ofNat_add, UInt64.add_comm 1]
    rfl
  show LittleEndian.encode 8 (c.nonceCounter + 1 + UInt64.ofNat i).toNat ++ _ = _
  rw [hcounter]
  rfl

theorem nonces_eq (A : Aead) (calls : List EncryptCall) :
    ∀ c : CryptoContext, c.nonces A calls = (List.range calls.length).map c.nonceAt := by
  induction calls with
  | nil =>
      intro c
      rfl
  | cons x calls ih =>
      intro c
      have hfirst : c.nextNonce.1 = c.nonceAt 0 := by simp [nextNonce, nonceAt]
      calc c.nonces A (x :: calls)
          = c.nextNonce.1 :: c.nextNonce.2.nonces A calls := by rw [nonces, call_eq]
        _ = c.nonceAt 0 :: (List.range calls.length).map (fun i => c.nonceAt (i + 1)) := by
              rw [ih, hfirst]
              congr 1
              exact List.map_congr_left fun i _ => nonceAt_nextNonce c i
        _ = (List.range (calls.length + 1)).map c.nonceAt := by
              rw [List.range_succ_eq_map, List.map_cons, List.map_map]
              rfl

/-- Two nonces of fresh contexts agree only at the same counter, with the same random bytes. -/
theorem nonceAt_fromKey_eq_iff {key key' : Bytes} {rng rng' : ℕ → Vector UInt8 4} {i j : ℕ}
    (hi : i < 2 ^ 64) (hj : j < 2 ^ 64) :
    (fromKey key rng).nonceAt i = (fromKey key' rng').nonceAt j ↔ i = j ∧ rng i = rng' j := by
  have hcounter : ∀ n < 2 ^ 64, ((0 : UInt64) + UInt64.ofNat n).toNat = n := by
    intro n hn
    rw [UInt64.zero_add]
    exact UInt64.toNat_ofNat_of_lt' hn
  simp only [nonceAt, fromKey, hcounter i hi, hcounter j hj]
  constructor
  · intro heq
    obtain ⟨hcount, hrng⟩ := List.append_inj heq (by simp)
    have hcount' := congrArg LittleEndian.decode hcount
    rw [LittleEndian.decode_encode_of_lt (by simpa using hi),
      LittleEndian.decode_encode_of_lt (by simpa using hj)] at hcount'
    exact ⟨hcount', Vector.toList_inj.mp hrng⟩
  · rintro ⟨rfl, hrng⟩
    rw [hrng]

end CryptoContext

open CryptoContext

/-- The nonces of all encryptions under a key: each context has its random bytes and its calls. -/
def keyNonces (A : Aead) (key : Bytes)
    (contexts : List ((ℕ → Vector UInt8 4) × List EncryptCall)) : List Bytes :=
  contexts.flatMap fun x => (fromKey key x.1).nonces A x.2

/-- Within one context the counter keeps nonces apart. -/
theorem nodup_nonces (A : Aead) (key : Bytes) (rng : ℕ → Vector UInt8 4) {calls : List EncryptCall}
    (hcalls : calls.length < 2 ^ 64) : ((fromKey key rng).nonces A calls).Nodup := by
  rw [nonces_eq]
  refine List.Nodup.map_on (fun i hi j hj heq => ?_) List.nodup_range
  have hi' := List.mem_range.mp hi
  have hj' := List.mem_range.mp hj
  exact ((nonceAt_fromKey_eq_iff (by omega) (by omega)).mp heq).1

/-- Between two contexts only the random bytes do. -/
theorem disjoint_nonces_iff (A : Aead) (key : Bytes) {rng rng' : ℕ → Vector UInt8 4}
    {calls calls' : List EncryptCall} (hcalls : calls.length < 2 ^ 64)
    (hcalls' : calls'.length < 2 ^ 64) :
    List.Disjoint ((fromKey key rng).nonces A calls) ((fromKey key rng').nonces A calls') ↔
      ∀ i, i < calls.length → i < calls'.length → rng i ≠ rng' i := by
  rw [nonces_eq, nonces_eq]
  constructor
  · intro hdisj i hi hi' heq
    refine hdisj (List.mem_map_of_mem (List.mem_range.mpr hi)) ?_
    rw [(nonceAt_fromKey_eq_iff (by omega) (by omega)).mpr ⟨rfl, heq⟩]
    exact List.mem_map_of_mem (List.mem_range.mpr hi')
  · rintro hne nonce hn hn'
    obtain ⟨i, hi, rfl⟩ := List.mem_map.mp hn
    obtain ⟨j, hj, heq⟩ := List.mem_map.mp hn'
    have hi' := List.mem_range.mp hi
    have hj' := List.mem_range.mp hj
    -- nonces that are equal have the same count, and were drawn the same bytes
    obtain ⟨rfl, hrng⟩ := (nonceAt_fromKey_eq_iff (by omega) (by omega)).mp heq
    exact hne j hi' hj' hrng.symm

/-- **Nonces do not repeat under a key exactly if no two of its contexts draw the same random bytes
at the same count.** -/
theorem nodup_nonces_iff (A : Aead) (key : Bytes)
    {contexts : List ((ℕ → Vector UInt8 4) × List EncryptCall)}
    (hcalls : ∀ x ∈ contexts, x.2.length < 2 ^ 64) :
    (keyNonces A key contexts).Nodup ↔
      contexts.Pairwise fun x y => ∀ i, i < x.2.length → i < y.2.length → x.1 i ≠ y.1 i := by
  have hpair : ∀ x ∈ contexts, ∀ y ∈ contexts,
      (List.Disjoint ((fromKey key x.1).nonces A x.2) ((fromKey key y.1).nonces A y.2) ↔
        ∀ i, i < x.2.length → i < y.2.length → x.1 i ≠ y.1 i) :=
    fun x hx y hy => disjoint_nonces_iff A key (hcalls x hx) (hcalls y hy)
  unfold keyNonces
  rw [List.nodup_flatMap]
  constructor
  · rintro ⟨-, h⟩
    exact h.imp_of_mem fun hx hy hdisj => (hpair _ hx _ hy).mp hdisj
  · intro h
    exact ⟨fun x hx => nodup_nonces A key x.1 (hcalls x hx),
      h.imp_of_mem fun hx hy hne => (hpair _ hx _ hy).mpr hne⟩

/-- A generator that fails leaves the four bytes zero. -/
def failingRng : ℕ → Vector UInt8 4 := fun _ => Vector.replicate 4 0

/-- Two files sent under a pre-shared key, one packet each. -/
def twoFiles : List ((ℕ → Vector UInt8 4) × List EncryptCall) :=
  [(failingRng, [.encrypt [1] []]), (failingRng, [.encryptInto [2] [] []])]

theorem nodup_nonces_iff_fresh :
    (keyNonces PlainCrates.aead (List.replicate KEY_LEN 7)
      [(fun _ => Vector.replicate 4 1, [.encrypt [1] [], .encrypt [3] []]),
        (failingRng, [.encryptInto [2] [] []])]).Nodup := by
  rw [nodup_nonces_iff PlainCrates.aead _ (by decide)]
  simp [failingRng]

/-- **The first packets of two files have the same nonce** when the generator fails. -/
theorem twoFiles_repeat_nonce :
    keyNonces PlainCrates.aead (List.replicate KEY_LEN 7) twoFiles
      = [List.replicate NONCE_LEN 0, List.replicate NONCE_LEN 0] ∧
    ¬ (keyNonces PlainCrates.aead (List.replicate KEY_LEN 7) twoFiles).Nodup := by
  have heq : keyNonces PlainCrates.aead (List.replicate KEY_LEN 7) twoFiles
      = [List.replicate NONCE_LEN 0, List.replicate NONCE_LEN 0] := by
    decide
  refine ⟨heq, ?_⟩
  rw [heq]
  decide

end Updown
