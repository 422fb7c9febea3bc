import Updown.Engine.Delta
import Updown.Engine.Layout
import Updown.Engine.Reader

set_option autoImplicit false

/-! # The range of a block, in four places

The reader task of `send_file_inner` and `compute_block_hashes` take the minimum of what remains of
the file and the block size; `process_packet` and `receive_file` test for the last id. `readRange`,
`hashRange`, `decoderLen` and `recvRange` are the four computations on the numbers of a transfer,
and `block_ranges` says that they agree and that the ranges tile the file.
-/

namespace Updown

/-- `offset`, and `remaining.min(block_size)` from there. -/
def rangeByRemaining (fileSize blockSize blockId : ℕ) : Except Fault (ℕ × ℕ) := do
  let offset ← checkedMul blockId blockSize
  let remaining ← checkedSub .fileSizeUnderflow fileSize offset
  pure (offset, min remaining blockSize)

/-- `offset` and `this_block_size` of a block in the reader task. -/
def SendEngine.readRange (e : SendEngine) (fileSize bid : ℕ) : Except Fault (ℕ × ℕ) :=
  rangeByRemaining fileSize e.blockSize bid

/-- `offset` and `this_block` of a block in `compute_block_hashes`. -/
def hashRange (fileSize blockSize blockId : ℕ) : Except Fault (ℕ × ℕ) :=
  rangeByRemaining fileSize blockSize blockId

/-! ## What the code does with the ranges -/

/-- The reader reads as many bytes as its range has. -/
theorem SendEngine.blockLen_eq_readRange (e : SendEngine) (S : Bytes) (bid : ℕ) :
    e.blockLen S bid = match e.readRange S.length bid with
      | .error fault => .error (.panic fault)
      | .ok range => .ok range.2 := by
  unfold SendEngine.blockLen SendEngine.readRange rangeByRemaining
  cases checkedMul bid e.blockSize with
  | error fault => rfl
  | ok offset =>
      simp only [bind, Except.bind]
      cases checkedSub .fileSizeUnderflow S.length offset <;> rfl

/-- A block's hash is the hash of the slice that its range gives. -/
theorem hashBlock_eq_hashRange (C : Crates) (file : Bytes) (blockSize blockId : ℕ) :
    hashBlock C file blockSize blockId = (hashRange file.length blockSize blockId).map
      fun range => C.blake3 (Blocks.slice file range.1 range.2) := by
  unfold hashBlock hashRange rangeByRemaining
  cases checkedMul blockId blockSize with
  | error fault => rfl
  | ok offset =>
      simp only [bind, Except.bind]
      cases checkedSub .fileSizeUnderflow file.length offset <;> rfl

/-! ## The four places agree -/

/-- The four places compute `range` for block `id`. The decoder is set up with a length alone; its
offset is what it takes from the size of the file for the last block. -/
structure RangeAgreed (fileSize blockSize totalBlocks id : ℕ) (range : ℕ × ℕ) : Prop where
  reader : ∀ e : SendEngine, e.blockSize = blockSize → e.readRange fileSize id = .ok range
  decoder : decoderLen blockSize fileSize totalBlocks id = .ok range.2
  decoder_offset : id + 1 = totalBlocks → checkedMul id blockSize = .ok range.1
  writer : recvRange blockSize fileSize totalBlocks id = .ok range
  hasher : hashRange fileSize blockSize id = .ok range

section

variable {n b id : ℕ}

theorem rangeByRemaining_eq (hoff : id * b < n) (hsize : n ≤ 2 ^ 64) :
    rangeByRemaining n b id = .ok (id * b, min (n - id * b) b) := by
  unfold rangeByRemaining
  rw [checkedMul_of_lt (by omega)]
  simp only [bind, Except.bind]
  rw [checkedSub_of_le hoff.le]
  rfl

/-- The test for the last id gives the minimum: the last block is no longer than a block, and
before it more than a block remains. -/
theorem length_by_last (hb : 0 < b) (hid : id < Blocks.count n b) :
    (if id + 1 = Blocks.count n b then n - id * b else b) = min (n - id * b) b := by
  split
  · next hlast => exact (min_eq_left (Blocks.sub_le_of_last hb hlast)).symm
  · next hlast => exact (min_eq_right (Blocks.lt_sub_of_not_last hb (by omega)).le).symm

theorem rangeAgreed (hb : 0 < b) (hsize : n ≤ 2 ^ 64) (hid : id < Blocks.count n b) :
    RangeAgreed n b (Blocks.count n b) id (id * b, min (n - id * b) b) := by
  have hoff := (Blocks.lt_count_iff hb id).mp hid
  have hmin := rangeByRemaining_eq hoff hsize
  constructor
  · rintro e rfl
    exact hmin
  · rw [decoderLen_eq hid hoff hsize, length_by_last hb hid]
  · intro _
    exact checkedMul_of_lt (by omega)
  · rw [recvRange_eq hid hoff hsize, length_by_last hb hid]
  · exact hmin

end

/-- **The four places agree on the ranges of the blocks, and these tile the file**: no computation
faults, and every block has a byte at least and `block_size` bytes at most. -/
theorem block_ranges (fileSize : UInt64) (totalBlocks : UInt32) {blockSize : ℕ}
    (hb : 1 ≤ blockSize)
    (htotal : totalBlocks.toNat = Blocks.count fileSize.toNat blockSize) :
    ∃ range : ℕ → ℕ × ℕ,
      (∀ id < totalBlocks.toNat,
        RangeAgreed fileSize.toNat blockSize totalBlocks.toNat id (range id) ∧
          1 ≤ (range id).2 ∧ (range id).2 ≤ blockSize) ∧
      Blocks.Tiles fileSize.toNat totalBlocks.toNat range := by
  rw [htotal]
  refine ⟨_, ?_, Blocks.tiles hb fileSize.toNat⟩
  intro id hid
  have hoff := (Blocks.lt_count_iff hb id).mp hid
  refine ⟨rangeAgreed hb fileSize.toNat_lt.le hid, ?_, min_le_right _ _⟩
  -- the block starts before the end of the file, so at least one byte of it remains
  dsimp only
  omega

/-- Ten bytes in blocks of four: two full blocks and one of two bytes. -/
theorem block_ranges_ten :
    ∃ range : ℕ → ℕ × ℕ,
      (∀ id < (3 : UInt32).toNat,
        RangeAgreed (10 : UInt64).toNat 4 (3 : UInt32).toNat id (range id) ∧
          1 ≤ (range id).2 ∧ (range id).2 ≤ 4) ∧
      Blocks.Tiles (10 : UInt64).toNat (3 : UInt32).toNat range :=
  block_ranges 10 3 (by decide) (by decide)

end Updown
