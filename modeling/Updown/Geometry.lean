import Updown.Engine.Coverage
import Updown.Send

set_option autoImplicit false

/-! # The geometry of a transfer

`negotiate_send` and `send_file_inner` compute the number of blocks from the size of the file in 64
bits and narrow it to 32, and the request narrows the block size as well. Nothing checks that they
fit: `geometry_iff` says that the receiver works with the sender's partition exactly if they do, and
that a complete transfer then covers the file.
-/

namespace Updown

open Transition

/-- Block size and number of blocks as `negotiate_send` puts them into the request. -/
def requestNumbers (fileSize : UInt64) (blockSize : ℕ) : Except Fault (UInt32 × UInt32) :=
  (countBlocks fileSize.toNat blockSize).map fun totalBlocks =>
    (UInt32.ofNat blockSize, UInt32.ofNat totalBlocks)

theorem requestNumbers_of_ok {fileSize : UInt64} {blockSize T : ℕ}
    (h : countBlocks fileSize.toNat blockSize = .ok T) :
    requestNumbers fileSize blockSize = .ok (UInt32.ofNat blockSize, UInt32.ofNat T) := by
  rw [requestNumbers, h]
  rfl

/-- The request carries the sender's block size and the number of blocks of the file, and the sender
counts as many. -/
def CarriesPartition (fileSize : UInt64) (blockSize : ℕ) : Prop :=
  ∃ carried, requestNumbers fileSize blockSize = .ok carried ∧
    carried.1.toNat = blockSize ∧
    carried.2.toNat = Blocks.count fileSize.toNat blockSize ∧
    countBlocks fileSize.toNat blockSize = .ok (Blocks.count fileSize.toNat blockSize)

/-- However the transfer of such a request goes, when it counts as complete every byte of the file
lies in a block of the sender's partition that was marked before or has been written. -/
def CompleteCovers (fileSize : UInt64) (blockSize : ℕ) : Prop :=
  ∀ req : TransferRequest, req.fileSize = fileSize →
    requestNumbers fileSize blockSize = .ok (req.blockSize, req.totalBlocks) →
    ∀ sharedKey rateMbps p, req.recvParams sharedKey rateMbps = some p →
    ∀ (C : Crates) (rng : ℕ → Vector UInt8 4) (now : ℕ) (disk : Disk) (s : RecvFile C.raptorq),
    disk.Sound →
    Reaches (RecvFile.step C p) (fun _ _ => True) (RecvFile.start C.raptorq p rng now disk) s →
    s.resume.isTransferComplete = true → ∀ k < fileSize.toNat,
    (RecvFile.start C.raptorq p rng now disk).resume.isComplete (k / blockSize) = true ∨
      ∃ w ∈ s.log.writes, w.1 = k / blockSize * blockSize ∧ w.1 ≤ k ∧ k < w.1 + w.2

theorem UInt32.toNat_ofNat_eq_iff {n : ℕ} : (UInt32.ofNat n).toNat = n ↔ n < 2 ^ 32 := by
  rw [UInt32.toNat_ofNat']
  constructor
  · intro h
    rw [← h]
    exact Nat.mod_lt _ (by norm_num)
  · intro h
    exact Nat.mod_eq_of_lt h

theorem carriesPartition_iff {fileSize : UInt64} {blockSize : ℕ} (hb : 1 ≤ blockSize) :
    CarriesPartition fileSize blockSize ↔
      blockSize < 2 ^ 32 ∧ Blocks.count fileSize.toNat blockSize < 2 ^ 32 := by
  constructor
  · rintro ⟨⟨carriedSize, carriedTotal⟩, -, hsize, htotal, -⟩
    constructor
    · rw [← hsize]
      exact carriedSize.toNat_lt
    · rw [← htotal]
      exact carriedTotal.toNat_lt
  · rintro ⟨hsize, hcount⟩
    -- numbers that fit 32 bits keep the sum below 64
    have hsum : fileSize.toNat + blockSize < 2 ^ 64 :=
      calc fileSize.toNat + blockSize
          ≤ (Blocks.count fileSize.toNat blockSize + 1) * blockSize := by
            rw [Nat.succ_mul]
            exact Nat.add_le_add_right (Blocks.le_count_mul hb) _
        _ ≤ 2 ^ 32 * blockSize := Nat.mul_le_mul_right _ hcount
        _ < 2 ^ 32 * 2 ^ 32 := Nat.mul_lt_mul_of_pos_left hsize (by norm_num)
        _ = 2 ^ 64 := by norm_num
    have hT := countBlocks_of_lt hb hsum hcount
    exact ⟨_, requestNumbers_of_ok hT, UInt32.toNat_ofNat_eq_iff.mpr hsize,
      UInt32.toNat_ofNat_eq_iff.mpr hcount, hT⟩

/-- The receiver of a request that carries the partition works on it. -/
theorem completeCovers_of_carries {fileSize : UInt64} {blockSize : ℕ} (hb : 1 ≤ blockSize)
    (h : CarriesPartition fileSize blockSize) : CompleteCovers fileSize blockSize := by
  obtain ⟨carried, hnumbers, hsize, htotal, -⟩ := h
  intro req hreq hreqNumbers sharedKey rateMbps p hp C rng now disk s hdisk hrun hcomplete k hk
  obtain ⟨rfl⟩ := Except.ok.inj (hnumbers.symm.trans hreqNumbers)
  obtain ⟨hpSize, hpFile, hpTotal, -⟩ := TransferRequest.recvParams_eq_some hp
  have hblock : p.blockSize = blockSize := hpSize.trans hsize
  have hfile : p.fileSize = fileSize.toNat := hpFile.trans (by rw [hreq])
  have hcount : p.totalBlocks = Blocks.count p.fileSize p.blockSize := by
    rw [hpTotal, hfile, hblock]
    exact htotal
  rw [← hblock] at hb ⊢
  rw [← hfile] at hk
  exact RecvFile.covered_of_complete hdisk hrun hb hcount hcomplete hk

/-- **The negotiated geometry is the sender's exactly if it fits 32 bits.** -/
theorem geometry_iff (fileSize : UInt64) {blockSize : ℕ} (hb : 1 ≤ blockSize) :
    (CarriesPartition fileSize blockSize ∧ CompleteCovers fileSize blockSize) ↔
      blockSize < 2 ^ 32 ∧ Blocks.count fileSize.toNat blockSize < 2 ^ 32 := by
  rw [← carriesPartition_iff hb]
  constructor
  · intro h
    exact h.1
  · intro h
    exact ⟨h, completeCovers_of_carries hb h⟩

theorem geometry_iff_ten :
    1 ≤ 4 ∧ ((CarriesPartition 10 4 ∧ CompleteCovers 10 4) ↔
      4 < 2 ^ 32 ∧ Blocks.count (10 : UInt64).toNat 4 < 2 ^ 32) :=
  ⟨by decide, geometry_iff 10 (by decide)⟩

/-- A file of 4 GiB in blocks of one byte is sent as no blocks at all, and complete before anything
arrives. -/
theorem fourGiB_not_carried :
    countBlocks (2 ^ 32) 1 = .ok 0 ∧
    (ResumeState.new 9 (2 ^ 32) 1 0).isTransferComplete = true ∧
    ¬ (CarriesPartition 4294967296 1 ∧ CompleteCovers 4294967296 1) := by
  refine ⟨by decide, by decide, ?_⟩
  rintro ⟨⟨carried, -, -, htotal, -⟩, -⟩
  have hlt := carried.2.toNat_lt
  rw [htotal] at hlt
  exact absurd hlt (by decide)

end Updown
