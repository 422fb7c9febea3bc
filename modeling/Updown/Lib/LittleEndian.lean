import Mathlib.Tactic

set_option autoImplicit false

/-! # Little-endian numbers

`encode k n` is the low `k` bytes of `n`, least significant byte first, and `decode` reads such
a list back. `read k` takes a `k`-byte number off the front of an input.
-/

namespace LittleEndian

/-- The low `k` bytes of `n`, least significant first. -/
def encode : ℕ → ℕ → List UInt8
  | 0, _ => []
  | k + 1, n => UInt8.ofNat n :: encode k (n / 256)

/-- The number whose little-endian bytes are given. -/
def decode : List UInt8 → ℕ
  | [] => 0
  | b :: bs => b.toNat + 256 * decode bs

/-- Take a `k`-byte number off the front; `none` when the input is too short. -/
def read (k : ℕ) (bs : List UInt8) : Option (ℕ × List UInt8) :=
  if bs.length < k then none else some (decode (bs.take k), bs.drop k)

@[simp] theorem length_encode (k n : ℕ) : (encode k n).length = k := by
  induction k generalizing n with
  | zero => rfl
  | succ k ih => simp [encode, ih]

theorem decode_encode (k n : ℕ) : decode (encode k n) = n % 256 ^ k := by
  induction k generalizing n with
  | zero => simp [encode, decode, Nat.mod_one]
  | succ k ih =>
      have hmod : n % 256 ^ (k + 1) = n % 256 + 256 * (n / 256 % 256 ^ k) := by
        rw [pow_succ', Nat.mod_mul]
      simp [encode, decode, ih, hmod]

/-- A number that fits is read back. -/
theorem decode_encode_of_lt {k n : ℕ} (h : n < 256 ^ k) : decode (encode k n) = n := by
  rw [decode_encode, Nat.mod_eq_of_lt h]

theorem decode_lt (bs : List UInt8) : decode bs < 256 ^ bs.length := by
  induction bs with
  | nil => simp [decode]
  | cons b bs ih =>
      have hb := b.toNat_lt
      rw [decode, List.length_cons, pow_succ]
      omega

/-- Bytes are the encoding of the number they are read as. -/
theorem encode_decode (bs : List UInt8) : encode bs.length (decode bs) = bs := by
  induction bs with
  | nil => rfl
  | cons b bs ih =>
      have hb := b.toNat_lt
      have hdiv : (b.toNat + 256 * decode bs) / 256 = decode bs := by omega
      have hmod : UInt8.ofNat (b.toNat + 256 * decode bs) = b := by
        apply UInt8.toNat_inj.mp
        rw [UInt8.toNat_ofNat']
        omega
      rw [List.length_cons, decode, encode, hmod, hdiv, ih]

/-- Reading what was written in front of an input. -/
theorem read_encode_append {k n : ℕ} (h : n < 256 ^ k) (bs : List UInt8) :
    read k (encode k n ++ bs) = some (n, bs) := by
  have hlen : ¬ (encode k n ++ bs).length < k := by simp
  rw [read, if_neg hlen, List.take_left' (length_encode k n), List.drop_left' (length_encode k n),
    decode_encode_of_lt h]

/-- What is read was in front of the input. -/
theorem read_eq_some {k n : ℕ} {bs rest : List UInt8} (h : read k bs = some (n, rest)) :
    n < 256 ^ k ∧ bs = encode k n ++ rest := by
  unfold read at h
  split at h
  · cases h
  · next hlen =>
      obtain ⟨rfl, rfl⟩ := Prod.mk.inj (Option.some.inj h)
      have htake : (bs.take k).length = k := by
        rw [List.length_take]
        omega
      have hlt := decode_lt (bs.take k)
      have hencode := encode_decode (bs.take k)
      rw [htake] at hlt hencode
      exact ⟨hlt, by rw [hencode, List.take_append_drop]⟩

end LittleEndian
