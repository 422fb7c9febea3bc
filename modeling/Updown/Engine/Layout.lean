import Updown.Engine.Recv

set_option autoImplicit false

/-! # Where the blocks of a transfer lie

The receiver computes the length of a block twice, for the decoder and for the write, both times by
a test for the last id (`decoderLen_eq`, `recvRange_eq`). `RecvParams.Fits` relates the three numbers
of a transfer: every block id below `total_blocks` starts inside the file. The two lengths are then
`RecvParams.blockLen` (`Fits.decoderLen`, `Fits.writeRange`), and when `total_blocks` is the number
of blocks of a source it is the length of the source's block (`For.blockLen`).
-/

namespace Updown

/-- Offset and length of the write of a block in `receive_file`, for any numbers. -/
def recvRange (blockSize fileSize totalBlocks blockId : ℕ) : Except Fault (ℕ × ℕ) := do
  let offset ← checkedMul blockId blockSize
  let last ← checkedSub .totalBlocksUnderflow totalBlocks 1
  if blockId = last then
    let remaining ← checkedSub .fileSizeUnderflow fileSize offset
    pure (offset, remaining)
  else
    pure (offset, blockSize)

section

variable {b n T id : ℕ}

/-- The length `process_packet` computes for a block that starts inside the file. -/
theorem decoderLen_eq (hid : id < T) (hoff : id * b < n) (hsize : n ≤ 2 ^ 64) :
    decoderLen b n T id = .ok (if id + 1 = T then n - id * b else b) := by
  have hpos : 1 ≤ T := by omega
  have hlast : (id = T - 1) ↔ (id + 1 = T) := by omega
  unfold decoderLen
  rw [checkedSub_of_le hpos]
  by_cases hid' : id + 1 = T
  · rw [if_pos hid']
    simp only [bind, Except.bind, hlast, if_pos hid']
    rw [checkedMul_of_lt (by omega)]
    exact checkedSub_of_le hoff.le
  · rw [if_neg hid']
    simp only [bind, Except.bind, hlast, if_neg hid']
    rfl

/-- The range `receive_file` computes for a block that starts inside the file. -/
theorem recvRange_eq (hid : id < T) (hoff : id * b < n) (hsize : n ≤ 2 ^ 64) :
    recvRange b n T id = .ok (id * b, if id + 1 = T then n - id * b else b) := by
  have hpos : 1 ≤ T := by omega
  have hlast : (id = T - 1) ↔ (id + 1 = T) := by omega
  unfold recvRange
  rw [checkedMul_of_lt (by omega), checkedSub_of_le hpos]
  by_cases hid' : id + 1 = T
  · rw [if_pos hid']
    simp only [bind, Except.bind, hlast, if_pos hid']
    rw [checkedSub_of_le hoff.le]
    rfl
  · rw [if_neg hid']
    simp only [bind, Except.bind, hlast, if_neg hid']
    rfl

end

namespace RecvParams

/-- Every block of the transfer starts inside the file. -/
structure Fits (p : RecvParams) : Prop where
  blockSize_pos : 0 < p.blockSize
  totalBlocks_le : p.totalBlocks ≤ Blocks.count p.fileSize p.blockSize

/-- The length of a block: the last one runs to the end of the file. -/
def blockLen (p : RecvParams) (id : ℕ) : ℕ :=
  if id + 1 = p.totalBlocks then p.fileSize - id * p.blockSize else p.blockSize

/-- The length the receiver sets the decoder of a block up with. -/
def decoderLen (p : RecvParams) (id : ℕ) : Except Fault ℕ :=
  Updown.decoderLen p.blockSize p.fileSize p.totalBlocks id

variable {p : RecvParams}

theorem Fits.offset_lt (h : p.Fits) {id : ℕ} (hid : id < p.totalBlocks) :
    id * p.blockSize < p.fileSize :=
  (Blocks.lt_count_iff h.blockSize_pos id).mp (lt_of_lt_of_le hid h.totalBlocks_le)

/-- A block ends inside the file. -/
theorem Fits.end_le (h : p.Fits) {id : ℕ} (hid : id < p.totalBlocks) :
    id * p.blockSize + p.blockLen id ≤ p.fileSize := by
  have hoff := h.offset_lt hid
  unfold blockLen
  split
  · omega
  · have hnext := h.offset_lt (show id + 1 < p.totalBlocks by omega)
    rw [Nat.succ_mul] at hnext
    omega

theorem Fits.blockLen_pos (h : p.Fits) {id : ℕ} (hid : id < p.totalBlocks) :
    0 < p.blockLen id := by
  have hoff := h.offset_lt hid
  have hpos := h.blockSize_pos
  unfold blockLen
  split <;> omega

/-- Blocks do not overlap. -/
theorem end_le_of_lt {i j : ℕ} (hj : j < p.totalBlocks) (hij : i < j) :
    i * p.blockSize + p.blockLen i ≤ j * p.blockSize := by
  have hmul : (i + 1) * p.blockSize ≤ j * p.blockSize := Nat.mul_le_mul_right _ hij
  have hlast : ¬ i + 1 = p.totalBlocks := by omega
  rw [Nat.succ_mul] at hmul
  rwa [blockLen, if_neg hlast]

/-- **The receiver sets the decoder of a block up with the block's length.** -/
theorem Fits.decoderLen (h : p.Fits) {id : ℕ} (hid : id < p.totalBlocks) :
    p.decoderLen id = .ok (p.blockLen id) :=
  decoderLen_eq hid (h.offset_lt hid) (p.fileSize_lt.le.trans (by norm_num))

theorem writeRange_eq_recvRange (p : RecvParams) (id : ℕ) :
    p.writeRange id = recvRange p.blockSize p.fileSize p.totalBlocks id := rfl

/-- **The writer writes a block at its offset, in its length.** -/
theorem Fits.writeRange (h : p.Fits) {id : ℕ} (hid : id < p.totalBlocks) :
    p.writeRange id = .ok (id * p.blockSize, p.blockLen id) := by
  rw [writeRange_eq_recvRange, recvRange_eq hid (h.offset_lt hid)
    (p.fileSize_lt.le.trans (by norm_num))]
  rfl

/-- A block that can be written is written at its offset, in its length. -/
theorem writeRange_eq_ok {id offset len : ℕ} (h : p.writeRange id = .ok (offset, len)) :
    offset = id * p.blockSize ∧ len = p.blockLen id := by
  obtain ⟨start, hmul, h⟩ := bind_eq_ok h
  obtain ⟨last, hsub, h⟩ := bind_eq_ok h
  obtain ⟨-, rfl⟩ := checkedMul_eq_ok hmul
  obtain ⟨hpos, rfl⟩ := checkedSub_eq_ok hsub
  rw [blockLen]
  by_cases hlast : id + 1 = p.totalBlocks
  · rw [if_pos (show id = p.totalBlocks - 1 by omega)] at h
    obtain ⟨remaining, hremaining, h⟩ := bind_eq_ok h
    obtain ⟨-, rfl⟩ := checkedSub_eq_ok hremaining
    rw [if_pos hlast]
    exact (Prod.mk.inj (Except.ok.inj h)).imp Eq.symm Eq.symm
  · rw [if_neg (show id ≠ p.totalBlocks - 1 by omega)] at h
    rw [if_neg hlast]
    exact (Prod.mk.inj (Except.ok.inj h)).imp Eq.symm Eq.symm

/-- The parameters are those of a source cut into blocks of `blockSize`. -/
structure For (p : RecvParams) (S : Bytes) : Prop where
  blockSize_pos : 0 < p.blockSize
  fileSize_eq : p.fileSize = S.length
  totalBlocks_eq : p.totalBlocks = Blocks.count S.length p.blockSize

theorem For.fits {S : Bytes} (h : p.For S) : p.Fits :=
  ⟨h.blockSize_pos, by rw [h.totalBlocks_eq, h.fileSize_eq]⟩

/-- Block lengths are the lengths of the source's blocks. -/
theorem For.blockLen {S : Bytes} (h : p.For S) {id : ℕ} (hid : id < p.totalBlocks) :
    p.blockLen id = (Blocks.block p.blockSize S id).length := by
  rw [h.totalBlocks_eq] at hid
  unfold RecvParams.blockLen
  rw [h.totalBlocks_eq, h.fileSize_eq]
  split
  · next hlast => exact (Blocks.length_block_last h.blockSize_pos S hlast).symm
  · next hlast => exact (Blocks.length_block_of_lt h.blockSize_pos S (by omega)).symm

end RecvParams

end Updown
