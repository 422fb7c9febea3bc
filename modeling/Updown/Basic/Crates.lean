import Updown.Crypto.Context
import Updown.Fec.Codec
import Updown.Transport.RateControl

set_option autoImplicit false

/-! # Code outside the repository, and arithmetic faults

`Crates` collects the third-party functions the program calls. `Fault` lists the ways its integer
arithmetic and indexing can go wrong; a fault stops the task it happens in, as an
overflow-checked build does. `checkedSub` and `checkedMul` are the two operations that are used
on numbers a peer chooses.
-/

namespace Updown

/-- The third-party functions of the transfer path. -/
structure Crates where
  aead : Aead
  raptorq : RaptorQ
  blake3 : Bytes → Hash
  /-- `zstd::bulk::compress(_, 1)`. -/
  zstd : Bytes → Option Bytes
  float : FloatFns ℚ

/-- The documented behaviour of the crates. -/
structure Crates.Correct (C : Crates) : Prop where
  aead : C.aead.Correct
  raptorq : C.raptorq.Correct

inductive Fault where
  /-- `… / block_size`. -/
  | divideByZero
  /-- `file_size - offset`. -/
  | fileSizeUnderflow
  /-- `total_blocks - 1`. -/
  | totalBlocksUnderflow
  /-- `block_id * block_size`, or `bid + interleave`. -/
  | overflow
  /-- `block.data[..actual_len]`. -/
  | sliceOutOfRange
  /-- `block_hashes[block_id]`. -/
  | indexOutOfRange
  /-- `vec![0u8; block_size]`. -/
  | capacityOverflow
  deriving DecidableEq, Repr

def checkedSub (fault : Fault) (a b : ℕ) : Except Fault ℕ :=
  if b ≤ a then .ok (a - b) else .error fault

/-- Multiplication of `u64` values. -/
def checkedMul (a b : ℕ) : Except Fault ℕ :=
  if a * b < 2 ^ 64 then .ok (a * b) else .error .overflow

theorem checkedSub_of_le {fault : Fault} {a b : ℕ} (h : b ≤ a) :
    checkedSub fault a b = .ok (a - b) := if_pos h

theorem checkedMul_of_lt {a b : ℕ} (h : a * b < 2 ^ 64) : checkedMul a b = .ok (a * b) := if_pos h

theorem checkedSub_eq_ok {fault : Fault} {a b c : ℕ} (h : checkedSub fault a b = .ok c) :
    b ≤ a ∧ c = a - b := by
  unfold checkedSub at h
  split at h
  · next hle => exact ⟨hle, (Except.ok.inj h).symm⟩
  · cases h

theorem checkedMul_eq_ok {a b c : ℕ} (h : checkedMul a b = .ok c) : a * b < 2 ^ 64 ∧ c = a * b := by
  unfold checkedMul at h
  split at h
  · next hlt => exact ⟨hlt, (Except.ok.inj h).symm⟩
  · cases h

/-- A computation that succeeds has gone through its first part. -/
theorem bind_eq_ok {ε α β : Type} {x : Except ε α} {f : α → Except ε β} {b : β}
    (h : x >>= f = .ok b) : ∃ a, x = .ok a ∧ f a = .ok b := by
  cases x with
  | error e => cases h
  | ok a => exact ⟨a, rfl, h⟩

/-- The two clocks a task reads: a monotonic `Instant` in nanoseconds and the wall clock in
microseconds (`timestamp_us()`). -/
structure Clock where
  instant : ℕ
  wallUs : ℕ

/-- `isize::MAX`, the largest size of an allocation. -/
def ISIZE_MAX : ℕ := 2 ^ 63 - 1

end Updown
